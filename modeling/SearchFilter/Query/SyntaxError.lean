import SearchFilter.Query.Vocabulary
import SearchFilter.Text.Escaped

/-! Diagnostics for a query that does not follow the grammar: where reading stopped, what could
have stood there and which rules were being read. -/

namespace SearchFilter.Query

open Text

inductive Expectation where
  | char (c : Char)
  | whitespace
  | keyword (op : Connective)
  | word
  | closingQuote (quote : Char)
  | endOfInput
  deriving DecidableEq, Repr, Inhabited

def Expectation.describe : Expectation → String
  | char c => "'" ++ c.toString ++ "'"
  | whitespace => "whitespace"
  | keyword op => "keyword \"" ++ op.keyword ++ "\""
  | word => "a word"
  | closingQuote quote => "closing quote " ++ quote.toString
  | endOfInput => "end of input"

structure SyntaxError where
  input : String
  /-- The byte offset at which reading stopped. -/
  offset : Nat
  expected : List Expectation
  /-- The rules being read, outermost first. -/
  rules : List Rule
  deriving DecidableEq, Repr, Inhabited

inductive Hint where
  | closeQuote
  | enterWord
  | quoteKeyword
  | closeGroup
  | fillGroup
  | dropParenthesis
  deriving DecidableEq, Repr

def Hint.text : Hint → String
  | closeQuote => "Add a closing quote to finish the quoted word"
  | enterWord => "Enter at least one word, e.g. 'rust'"
  | quoteKeyword => "Quote reserved words to search for them literally, e.g. '\"and\"'"
  | closeGroup => "Add a closing parenthesis ) to match the opening one"
  | fillGroup => "Groups cannot be empty; put a word inside the parentheses"
  | dropParenthesis => "Remove the unmatched closing parenthesis"

namespace SyntaxError

/-- The text before the offset and the text from it on. An offset that names no place in the input
stands for its end. -/
def split (e : SyntaxError) : List Char × List Char :=
  (splitAtByte e.offset e.input.toList).getD (e.input.toList, [])

def found (e : SyntaxError) : Option Char :=
  e.split.2.head?

def foundKeyword (e : SyntaxError) : Option Connective :=
  Connective.ofKeyword? (bareRun e.split.2)

/-- The line, counted from one. -/
def line (e : SyntaxError) : Nat :=
  e.split.1.count '\n' + 1

/-- The number of characters before the offset in its line. -/
def column (e : SyntaxError) : Nat :=
  (e.split.1.reverse.takeWhile (· != '\n')).length

def describeExpected : List Expectation → String
  | [] => "valid input"
  | [e] => e.describe
  | [e, last] => e.describe ++ " or " ++ last.describe
  | e :: es => e.describe ++ ", " ++ describeExpected es

def describeFound (e : SyntaxError) : String :=
  match e.foundKeyword, e.found with
  | some op, _ => (Expectation.keyword op).describe
  | none, none => Expectation.endOfInput.describe
  | none, some c => if isControl c then quotedChar c else (Expectation.char c).describe

def summary (e : SyntaxError) : String :=
  "expected " ++ describeExpected e.expected ++ ", found " ++ e.describeFound

def hint (e : SyntaxError) : Option Hint :=
  if e.expected.any (fun | .closingQuote _ => true | _ => false) then some .closeQuote
  else if e.input.toList.all isWhiteSpace then some .enterWord
  else if e.foundKeyword.isSome && e.expected.contains .word then some .quoteKeyword
  else if e.expected.contains (.char ')') then some .closeGroup
  else if e.found = some ')' then
    if (trimEnd e.split.1).getLast? = some '(' then some .fillGroup else some .dropParenthesis
  else none

def excerpt (e : SyntaxError) : String :=
  (lines e.input)[e.line - 1]?.getD ""

def message (e : SyntaxError) : String :=
  let context := if e.rules.isEmpty then "" else
    "\n  while parsing: " ++ " > ".intercalate (e.rules.map Rule.name)
  let advice := match e.hint with
    | some hint => "\nhint: " ++ hint.text
    | none => ""
  s!"query syntax error: {e.summary} at line {e.line}, column {e.column + 1}\n  {e.excerpt}\n  " ++
    "".pushn ' ' e.column ++ "^" ++ context ++ advice

end SyntaxError
end SearchFilter.Query
