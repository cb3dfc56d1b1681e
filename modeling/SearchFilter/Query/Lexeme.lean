import SearchFilter.Query.Scanner

/-! The lexical parts of a query. Each reads the characters it covers, or notes what it wanted. -/

namespace SearchFilter.Query.Scan

open Text

def blanks : Scan (List Char) :=
  fun s =>
    let run := s.position.rest.takeWhile isBlank
    .ok run (s.advance run)

def whitespace : Scan (List Char) := do
  let run ← blanks
  if run.isEmpty then missing .whitespace
  pure run

def char (c : Char) : Scan Unit :=
  fun s =>
    if s.position.rest.head? = some c then .ok () (s.advance [c])
    else missing (.char c) s

def keyword (op : Connective) : Scan (List Char) :=
  fun s =>
    let run := bareRun s.position.rest
    if run = op.keyword.toList then .ok run (s.advance run)
    else missing (.keyword op) s

/-- The text up to the first unescaped `quote`. A backslash and the character after it are one unit,
and both stay in the text; `seen` holds the units read so far, last character first. -/
def literalBody (quote : Char) (seen : List Char) : List Char → Option (List Char)
  | [] => none
  | ['\\'] => none
  | '\\' :: c :: rest => literalBody quote (c :: '\\' :: seen) rest
  | c :: rest => if c = quote then some seen.reverse else literalBody quote (c :: seen) rest

def literal : Scan (List Char) :=
  fun s => match s.position.rest with
    | [] => .error .miss s
    | quote :: rest =>
      if isQuote quote then
        match literalBody quote [] rest with
        | some body => .ok body (s.advance (quote :: body ++ [quote]))
        | none => missing (.closingQuote quote) (s.advance s.position.rest)
      else .error .miss s

def bareWord : Scan (List Char) :=
  fun s =>
    let run := bareRun s.position.rest
    if isWord run then .ok run (s.advance run)
    else missing .word s

def endOfInput : Scan Unit :=
  fun s =>
    if s.position.rest.isEmpty then .ok () s
    else missing .endOfInput s

end SearchFilter.Query.Scan
