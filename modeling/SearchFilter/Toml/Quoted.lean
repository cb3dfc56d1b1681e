import SearchFilter.Toml.Scalar

/-! Reading TOML strings. A basic string stands in double quotes and knows escapes, a literal one in
single quotes and takes its text as it is; either may be a block in three quotes, which can hold line
ends. Carriage returns only come before a newline here. -/

namespace SearchFilter.Toml

def isTextual (c : Char) : Bool :=
  c == '\t' || (' ' ≤ c && c != '\x7f')

def isLineEnd (c : Char) : Bool :=
  c == '\n' || c == '\r'

/-- The end of a string at a quote, given the text after that quote: what the quotes leave in the
string and what follows them. Up to two quotes may stand before the three that end a block. -/
def closing (quote : Char) (block : Bool) (rest : List Char) : Option (List Char × List Char) :=
  if !block then some ([], rest)
  else if [quote, quote, quote, quote].isPrefixOf rest then some ([quote, quote], rest.drop 4)
  else if [quote, quote, quote].isPrefixOf rest then some ([quote], rest.drop 3)
  else if [quote, quote].isPrefixOf rest then some ([], rest.drop 2)
  else none

/-- Reads a literal string after its opening quotes. `seen` holds what was read, last first. -/
def readLiteral (block : Bool) (seen : List Char) : List Char → Option (List Char × List Char)
  | [] => none
  | c :: rest =>
    if c = '\'' then
      match closing '\'' block rest with
      | some (extra, rest) => some (seen.reverse ++ extra, rest)
      | none => readLiteral block (c :: seen) rest
    else if isTextual c || (block && isLineEnd c) then readLiteral block (c :: seen) rest
    else none

inductive Place where
  | plain
  | escape
  /-- In a code point that has `left` digits to come. -/
  | code (left value : Nat)
  /-- After a backslash at the end of a line, where blanks and line ends are left out; `broken` once
  the line has ended. -/
  | fold (broken : Bool)
  deriving DecidableEq, Repr

def shortEscape : Char → Option Char
  | 'b' => some '\x08'
  | 't' => some '\t'
  | 'n' => some '\n'
  | 'f' => some '\x0c'
  | 'r' => some '\r'
  | 'e' => some '\x1b'
  | '"' => some '"'
  | '\\' => some '\\'
  | _ => none

def codeLength : Char → Option Nat
  | 'x' => some 2
  | 'u' => some 4
  | 'U' => some 8
  | _ => none

def scalarValue? (n : Nat) : Option Char :=
  if n.isValidChar then some (Char.ofNat n) else none

def afterEscape (block : Bool) (c : Char) : Option (Place × Option Char) :=
  match shortEscape c, codeLength c with
  | some d, _ => some (.plain, some d)
  | none, some length => some (.code length 0, none)
  | none, none =>
    if block && (c == ' ' || c == '\t' || isLineEnd c) then some (.fold (c == '\n'), none) else none

def afterDigit (left value : Nat) (c : Char) : Option (Place × Option Char) :=
  let value := 16 * value + digitValue c
  if !isHexDigit c then none
  else if left ≤ 1 then (fun d => (.plain, some d)) <$> scalarValue? value
  else some (.code (left - 1) value, none)

def unfold (place : Place) (c : Char) : Option Place :=
  match place with
  | .fold broken =>
    if c == ' ' || c == '\t' || isLineEnd c then some (.fold (broken || c == '\n'))
    else if broken then some .plain
    else none
  | place => some place

def readBasic (block : Bool) (place : Place) (seen : List Char) :
    List Char → Option (List Char × List Char)
  | [] => none
  | c :: rest =>
    match unfold place c with
    | none => none
    | some (.fold broken) => readBasic block (.fold broken) seen rest
    | some .escape => do
      let (place, d) ← afterEscape block c
      readBasic block place (d.toList ++ seen) rest
    | some (.code left value) => do
      let (place, d) ← afterDigit left value c
      readBasic block place (d.toList ++ seen) rest
    | some .plain =>
      if c = '"' then
        match closing '"' block rest with
        | some (extra, rest) => some (seen.reverse ++ extra, rest)
        | none => readBasic block .plain (c :: seen) rest
      else if c = '\\' then readBasic block .escape seen rest
      else if isTextual c || (block && isLineEnd c) then readBasic block .plain (c :: seen) rest
      else none

def dropLineEnd : List Char → List Char
  | '\n' :: rest => rest
  | '\r' :: '\n' :: rest => rest
  | rest => rest

def readLine : List Char → Option (List Char × List Char)
  | '"' :: rest => readBasic false .plain [] rest
  | '\'' :: rest => readLiteral false [] rest
  | _ => none

def readString : List Char → Option (List Char × List Char)
  | '"' :: '"' :: '"' :: rest => readBasic true .plain [] (dropLineEnd rest)
  | '\'' :: '\'' :: '\'' :: rest => readLiteral true [] (dropLineEnd rest)
  | cs => readLine cs

end SearchFilter.Toml
