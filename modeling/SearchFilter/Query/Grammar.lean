import SearchFilter.Query.Lexeme
import SearchFilter.Query.SyntaxTree

/-! The grammar of queries. Blanks alone between two operands mean `or`, a written `and` binds tighter
than either, and parentheses group.

    query         → ws? or_expr ws? EOF
    or_expr       → and_expr (or_separator and_expr)*
    or_separator  → ws? "or" ws? | ws
    and_expr      → primary (and_separator primary)*
    and_separator → ws "and" ws
    primary       → group | word
    group         → "(" ws? or_expr ws? ")"
    word          → quoted_string | raw_word
-/

namespace SearchFilter.Query

namespace SyntaxTree

def leaf (start : Nat) (cs : List Char) : SyntaxTree :=
  text (String.ofList cs) ⟨start, start + Text.byteLength cs⟩

def pair (op : Tag) (separator operand : SyntaxTree) : SyntaxTree :=
  tagged [(op, separator), (.right, operand)]

def chain (head : SyntaxTree) : List SyntaxTree → SyntaxTree
  | [] => tagged [(.left, head)]
  | pairs => sequence (tagged [(.left, head)] :: pairs)

end SyntaxTree

namespace Grammar

open Scan

def orSeparator : Scan SyntaxTree := within .orSeparator do
  let start ← offset
  let spelled ← attempt do
    let before ← blanks
    let name ← keyword .or
    let after ← blanks
    pure (before ++ name ++ after)
  match spelled with
  | some separator => pure (.leaf start separator)
  | none => return .leaf start (← whitespace)

def andSeparator : Scan SyntaxTree := within .andSeparator do
  let start ← offset
  let before ← whitespace
  let name ← keyword .and
  let after ← whitespace
  pure (.leaf start (before ++ name ++ after))

def word : Scan SyntaxTree := within .word do
  let start ← offset
  match ← attempt (within .quotedString literal) with
  | some body => pure (.tagged [(.word, .tagged [(.str, .leaf (start + 1) body)])])
  | none => return .tagged [(.word, .leaf start (← within .rawWord bareWord))]

def operands (op : Tag) (separator operand : Scan SyntaxTree) : Scan SyntaxTree := do
  let head ← operand
  let pairs ← many do
    let mark ← separator
    let right ← operand
    pure (SyntaxTree.pair op mark right)
  pure (.chain head pairs)

/-- What follows an opening parenthesis is read by `inside`, which is given the offset of the
parenthesis. -/
def group (inside : Nat → Scan SyntaxTree) : Scan SyntaxTree := within .group do
  let opening ← offset
  char '('
  let tree ← inside opening
  pure (.tagged [(.paren, tree)])

def primary (inside : Nat → Scan SyntaxTree) : Scan SyntaxTree := within .primary do
  match ← attempt (group inside) with
  | some tree => pure tree
  | none => word

def andExpr (inside : Nat → Scan SyntaxTree) : Scan SyntaxTree :=
  within .andExpr (operands .and andSeparator (primary inside))

def orExprWith (inside : Nat → Scan SyntaxTree) : Scan SyntaxTree :=
  within .orExpr (operands .or orSeparator (andExpr inside))

/-- A whole expression with room for `room` more levels of groups. -/
def orExpr : (room : Nat) → Scan SyntaxTree
  | 0 => orExprWith fun opening => throw (.tooDeep opening)
  | room + 1 => orExprWith fun _ => do
    let _ ← blanks
    let tree ← orExpr room
    let _ ← blanks
    char ')'
    pure tree

def query (maxDepth : Nat) : Scan SyntaxTree := within .query do
  let _ ← blanks
  let tree ← orExpr maxDepth
  let _ ← blanks
  endOfInput
  pure tree

end Grammar
end SearchFilter.Query
