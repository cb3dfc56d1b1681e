import SearchFilter.Text.Escaped

/-! Parse trees: the text of a query with the role of each part. Leaves keep the text they cover and
its byte span, tagged nodes name their parts, and a sequence lists a first operand and the pairs of
a connective and an operand that follow it. -/

namespace SearchFilter.Query

structure Span where
  start : Nat
  stop : Nat
  deriving DecidableEq, Repr, Inhabited

inductive Tag where
  | left
  | right
  | and
  | or
  | paren
  | word
  | str
  deriving DecidableEq, Repr, Inhabited

def Tag.name : Tag → String
  | left => "left"
  | right => "right"
  | and => "and"
  | or => "or"
  | paren => "paren"
  | word => "word"
  | str => "str"

inductive SyntaxTree where
  | text (text : String) (span : Span)
  | tagged (fields : List (Tag × SyntaxTree))
  | sequence (items : List SyntaxTree)
  deriving Repr, Inhabited

namespace SyntaxTree

def margin (level : Nat) : String :=
  "".pushn ' ' (2 * level)

def showText (text : String) (span : Span) : String :=
  s!"{Text.quoted text} @{span.start}..{span.stop}\n"

mutual

def write (level : Nat) (out : String) : SyntaxTree → String
  | text t span => out ++ margin level ++ showText t span
  | tagged fields => writeFields level out fields
  | sequence items => writeItems level (out ++ margin level ++ "sequence\n") items

def writeFields (level : Nat) (out : String) : List (Tag × SyntaxTree) → String
  | [] => out
  | (tag, text t span) :: fields =>
    writeFields level (out ++ margin level ++ tag.name ++ ": " ++ showText t span) fields
  | (tag, tree) :: fields =>
    writeFields level (write (level + 1) (out ++ margin level ++ tag.name ++ ":\n") tree) fields

def writeItems (level : Nat) (out : String) : List SyntaxTree → String
  | [] => out
  | tree :: items =>
    writeItems level (write (level + 2) (out ++ margin (level + 1) ++ "item\n") tree) items

end

def display (tree : SyntaxTree) : String :=
  tree.write 0 ""

end SyntaxTree
end SearchFilter.Query
