import SearchFilter.Query.Vocabulary
import SearchFilter.Text.Escaped

/-! Filter expressions and the conditions that they become.

An expression is made of words joined by connectives, with the groups of the query kept. It is rendered
as a SQL fragment, a boolean condition on one column with a parameter for every word. The column is an
identifier of ASCII letters, digits and underscores that does not start with a digit, or several joined
by dots. -/

namespace SearchFilter.Condition

inductive Expr where
  | word (text : String)
  | binary (op : Connective) (left right : Expr)
  | group (inner : Expr)
  deriving DecidableEq, Repr, Inhabited

namespace Expr

def wordsOnto : Expr → List String → List String
  | word text, rest => text :: rest
  | binary _ left right, rest => left.wordsOnto (right.wordsOnto rest)
  | group inner, rest => inner.wordsOnto rest

def words (e : Expr) : List String :=
  e.wordsOnto []

/-- The printed lines, followed by `rest`. Operands of a left-nested run of one connective stand below
that connective on one level; `run` is the connective of the run that the expression continues. -/
def linesOnto (level : Nat) (run : Option Connective) : Expr → List String → List String
  | word text, rest => line level ("Word(" ++ Text.quoted text ++ ")") :: rest
  | binary op left right, rest =>
    if run = some op then
      left.linesOnto level run (right.linesOnto level none rest)
    else
      line level op.title ::
        left.linesOnto (level + 1) (some op) (right.linesOnto (level + 1) none rest)
  | group inner, rest => line level "Group" :: inner.linesOnto (level + 1) none rest
where
  line (level : Nat) (text : String) : String :=
    "".pushn ' ' (2 * level) ++ text ++ "\n"

def display (e : Expr) : String :=
  String.join (e.linesOnto 0 none [])

end Expr

structure Fragment where
  sql : String
  /-- The words that stand for the question marks, from left to right. -/
  params : List String
  deriving DecidableEq, Repr, Inhabited

namespace Expr

def piecesOnto (predicate : String) : Expr → List String → List String
  | word _, rest => predicate :: rest
  | binary op left right, rest =>
    left.piecesOnto predicate (" " :: op.keyword :: " " :: right.piecesOnto predicate rest)
  | group inner, rest => "(" :: inner.piecesOnto predicate (")" :: rest)

def render (column : String) (e : Expr) : Fragment :=
  ⟨String.join (e.piecesOnto (column ++ " LIKE ?") []), e.words⟩

end Expr

def isNameStart (c : Char) : Bool :=
  c.isAlpha || c == '_'

def isNamePart (c : Char) : Bool :=
  c.isAlphanum || c == '_'

mutual

def startsName : List Char → Bool
  | [] => false
  | c :: cs => isNameStart c && continuesName cs

def continuesName : List Char → Bool
  | [] => true
  | c :: cs => if c = '.' then startsName cs else isNamePart c && continuesName cs

end

def isColumn (name : String) : Bool :=
  startsName name.toList

end SearchFilter.Condition
