import SearchFilter.Text.Basic

/-! The vocabulary of the query language.

Its keywords are the names of the two connectives. Bare runs are what a query holds between blanks and
parentheses: a run that spells a connective is a keyword, one that opens with a quote is the start of a
literal, and any other is a word. The rules of the grammar have names, by which a diagnostic says what
was being read. -/

namespace SearchFilter

inductive Connective where
  | and
  | or
  deriving DecidableEq, Repr, Inhabited

namespace Connective

def keyword : Connective → String
  | and => "and"
  | or => "or"

def title : Connective → String
  | and => "And"
  | or => "Or"

def ofKeyword? (letters : List Char) : Option Connective :=
  if letters = ['a', 'n', 'd'] then some and
  else if letters = ['o', 'r'] then some or
  else none

theorem ofKeyword?_keyword (op : Connective) : ofKeyword? op.keyword.toList = some op := by
  cases op <;> decide

end Connective

namespace Query

open Text

def isQuote (c : Char) : Bool :=
  c == '"' || c == '\''

def isBare (c : Char) : Bool :=
  !isBlank c && c != '(' && c != ')'

def bareRun (cs : List Char) : List Char :=
  cs.takeWhile isBare

def isWord : List Char → Bool
  | [] => false
  | c :: cs => !isQuote c && (Connective.ofKeyword? (c :: cs)).isNone

inductive Rule where
  | query
  | orExpr
  | andExpr
  | orSeparator
  | andSeparator
  | primary
  | group
  | word
  | quotedString
  | rawWord
  deriving DecidableEq, Repr, Inhabited

def Rule.name : Rule → String
  | query => "query"
  | orExpr => "or_expr"
  | andExpr => "and_expr"
  | orSeparator => "or_separator"
  | andSeparator => "and_separator"
  | primary => "primary"
  | group => "group"
  | word => "word"
  | quotedString => "quoted_string"
  | rawWord => "raw_word"

end Query
end SearchFilter
