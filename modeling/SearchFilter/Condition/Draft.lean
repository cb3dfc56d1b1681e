import SearchFilter.Condition.Expr
import SearchFilter.Query.SyntaxTree

/-! Drafts: filters whose connectives still wait for their left operands. A draft is read off a parse
tree node by node and then resolved into an expression from left to right. -/

namespace SearchFilter.Condition

open Query (Tag SyntaxTree)

inductive Draft where
  | text (text : String)
  | word (text : String)
  | pending (op : Connective) (operand : Draft)
  | chain (items : List Draft)
  | group (inner : Draft)
  deriving Repr, Inhabited

namespace Draft

inductive Kind where
  | text
  | word
  | pending
  | chain
  | group
  deriving DecidableEq, Repr, Inhabited

def Kind.name : Kind → String
  | text => "text"
  | word => "word"
  | pending => "pending operation"
  | chain => "chain"
  | group => "group"

def kind : Draft → Kind
  | text _ => .text
  | word _ => .word
  | pending _ _ => .pending
  | chain _ => .chain
  | group _ => .group

mutual

def write (out : String) : Draft → String
  | text t => out ++ "Text(" ++ Text.quoted t ++ ")"
  | word t => out ++ "Word(" ++ Text.quoted t ++ ")"
  | pending op operand =>
    write (out ++ "Pending \x7b op: " ++ op.title ++ ", operand: ") operand ++ " \x7d"
  | chain items => writeItems (out ++ "Chain([") items ++ "])"
  | group inner => write (out ++ "Group(") inner ++ ")"

def writeItems (out : String) : List Draft → String
  | [] => out
  | [item] => write out item
  | item :: items => writeItems (write out item ++ ", ") items

end

def display (d : Draft) : String :=
  d.write ""

end Draft

inductive StructureError where
  /-- A tagged node that stands for no part of a filter, by its tags and its first part. -/
  | unexpectedShape (tags : List Tag) (first : Option Draft.Kind)
  | emptyChain
  | leadingOperator (op : Connective)
  /-- Item `index` of a chain, counted from zero, brings no connective. -/
  | missingOperator (index : Nat) (kind : Draft.Kind)
  | danglingOperator (op : Connective)
  | strayText (text : String)
  deriving DecidableEq, Repr, Inhabited

namespace StructureError

def describeShape (tags : List Tag) (first : Option Draft.Kind) : String :=
  let shape := "\x7b" ++ ", ".intercalate (tags.map Tag.name) ++ "\x7d"
  match first with
  | some kind => shape ++ " with " ++ kind.name
  | none => shape

def message : StructureError → String
  | unexpectedShape tags first => "unexpected parse tree shape: " ++ describeShape tags first
  | emptyChain => "cannot fold an empty chain"
  | leadingOperator op => "chain starts with a pending '" ++ op.keyword ++ "' operation"
  | missingOperator index kind =>
    s!"chain item {index} is a {kind.name}, not a pending operation"
  | danglingOperator op => "pending '" ++ op.keyword ++ "' operation outside of a chain"
  | strayText text => "bare text " ++ Text.quoted text ++ " outside of a word"

end StructureError

namespace Draft

def assemble : List (Tag × Draft) → Except StructureError Draft
  | [(.str, .text t)] => .ok (.text t)
  | [(.word, .text t)] => .ok (.word t)
  | [(.left, draft)] => .ok draft
  | [(.paren, draft)] => .ok (.group draft)
  | [(.and, .text _), (.right, operand)] => .ok (.pending .and operand)
  | [(.or, .text _), (.right, operand)] => .ok (.pending .or operand)
  | parts => .error (.unexpectedShape (parts.map (·.1)) (parts.head?.map (·.2.kind)))

mutual

def ofTree : SyntaxTree → Except StructureError Draft
  | .text t _ => .ok (.text t)
  | .tagged fields => do assemble (← ofFields fields)
  | .sequence items => do return .chain (← ofItems items)

def ofFields : List (Tag × SyntaxTree) → Except StructureError (List (Tag × Draft))
  | [] => .ok []
  | (tag, tree) :: fields => do
    let draft ← ofTree tree
    return (tag, draft) :: (← ofFields fields)

def ofItems : List SyntaxTree → Except StructureError (List Draft)
  | [] => .ok []
  | tree :: items => do
    let draft ← ofTree tree
    return draft :: (← ofItems items)

end

mutual

/-- Gives every connective its left operand: all that stands before it in its chain. -/
def resolve : Draft → Except StructureError Expr
  | text t => .error (.strayText t)
  | word t => .ok (.word t)
  | pending op _ => .error (.danglingOperator op)
  | chain items => resolveChain items
  | group inner => do return .group (← resolve inner)

def resolveChain : List Draft → Except StructureError Expr
  | [] => .error .emptyChain
  | pending op _ :: _ => .error (.leadingOperator op)
  | head :: items => do resolveAfter (← resolve head) 1 items

/-- Continues a chain whose items before `index` are resolved to `left`. -/
def resolveAfter (left : Expr) (index : Nat) : List Draft → Except StructureError Expr
  | [] => .ok left
  | pending op operand :: items => do
    resolveAfter (.binary op left (← resolve operand)) (index + 1) items
  | item :: _ => .error (.missingOperator index item.kind)

end

end Draft
end SearchFilter.Condition
