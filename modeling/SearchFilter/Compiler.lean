import SearchFilter.Condition.Draft
import SearchFilter.Query.Grammar

/-! The compiler from query texts to SQL fragments. A query is parsed into a tree, the tree is read as
a draft, the draft is resolved into an expression, and the expression is rendered. -/

namespace SearchFilter

open Query Condition

def depthLimit : Nat := 256

inductive QueryError where
  | syntaxError (error : SyntaxError)
  /-- The group opened at `offset` is nested deeper than `limit`. -/
  | tooDeep (offset limit : Nat)
  | depthLimitTooHigh (maxDepth : Nat)
  | invalidColumn (column : String)
  | internal (cause : StructureError)
  deriving DecidableEq, Repr, Inhabited

namespace QueryError

def message : QueryError → String
  | syntaxError e => e.message
  | tooDeep offset limit =>
    s!"query syntax error: groups nested deeper than {limit} levels at offset {offset}"
  | depthLimitTooHigh maxDepth =>
    s!"invalid nesting limit {maxDepth}: at most {depthLimit} levels are supported"
  | invalidColumn column =>
    "invalid column name " ++ Text.quoted column ++ ": expected an identifier such as 'docs.title'"
  | internal cause => "internal error: " ++ cause.message

def isInternal : QueryError → Bool
  | internal _ => true
  | _ => false

end QueryError

def parse (input : String) (maxDepth : Nat) : Except QueryError SyntaxTree :=
  if depthLimit < maxDepth then .error (.depthLimitTooHigh maxDepth)
  else match Grammar.query maxDepth (Scanner.start input.toList) with
    | .ok tree _ => .ok tree
    | .error .miss s => .error (.syntaxError (s.diagnose input))
    | .error (.tooDeep offset) _ => .error (.tooDeep offset maxDepth)

def draftOf (tree : SyntaxTree) : Except QueryError Draft :=
  (Draft.ofTree tree).mapError .internal

def resolve (draft : Draft) : Except QueryError Expr :=
  draft.resolve.mapError .internal

structure Options where
  column : String := "column_name"
  maxDepth : Nat := 128
  deriving DecidableEq, Repr, Inhabited

structure Compiler extends Options where
  maxDepth_le : maxDepth ≤ depthLimit
  isColumn_column : isColumn column = true

namespace Compiler

def ofOptions (options : Options) : Except QueryError Compiler :=
  if hd : options.maxDepth ≤ depthLimit then
    if hc : isColumn options.column then .ok ⟨options, hd, hc⟩
    else .error (.invalidColumn options.column)
  else .error (.depthLimitTooHigh options.maxDepth)

def tree (c : Compiler) (input : String) : Except QueryError SyntaxTree :=
  parse input c.maxDepth

def expression (c : Compiler) (input : String) : Except QueryError Expr := do
  resolve (← draftOf (← c.tree input))

def compile (c : Compiler) (input : String) : Except QueryError Fragment := do
  return (← c.expression input).render c.column

end Compiler

instance : Inhabited Compiler :=
  ⟨⟨{}, by decide, by decide +kernel⟩⟩

end SearchFilter
