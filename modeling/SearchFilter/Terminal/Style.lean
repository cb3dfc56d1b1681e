import SearchFilter.Condition.Expr

/-! Colors on a terminal: labels by their role, and highlighted source text, which is either a condition
as it is rendered or settings as they are written. With colors off every text stays as it is. -/

namespace SearchFilter.Terminal

open Condition (isNamePart)

def reset : String := "\x1b[0m"

inductive Shade where
  | plain
  | keyword
  | constant
  | string
  deriving DecidableEq, Repr, Inhabited

def Shade.code : Shade → String
  | plain => "\x1b[38;2;248;248;242m"
  | keyword => "\x1b[38;2;255;121;198m"
  | constant => "\x1b[38;2;189;147;249m"
  | string => "\x1b[38;2;241;250;140m"

abbrev Piece := Shade × List Char

def paint (pieces : List Piece) : String :=
  pieces.foldl (fun out (shade, cs) => out ++ shade.code ++ String.ofList cs) "" ++ reset

def joinPieces : List Piece → List Piece
  | [] => []
  | (shade, cs) :: pieces =>
    match joinPieces pieces with
    | [] => [(shade, cs)]
    | (next, ds) :: joined =>
      if shade = next then (shade, cs ++ ds) :: joined else (shade, cs) :: (next, ds) :: joined

/-- The names and the other characters of a text; `name` holds the current name, last first. -/
def sqlTokens (name : List Char) : List Char → List (List Char)
  | [] => if name.isEmpty then [] else [name.reverse]
  | c :: cs =>
    if isNamePart c then sqlTokens (c :: name) cs
    else if name.isEmpty then [c] :: sqlTokens [] cs
    else name.reverse :: [c] :: sqlTokens [] cs

def isName (token : List Char) : Bool :=
  token.all isNamePart

def isKeyword (token : List Char) : Bool :=
  token == "LIKE".toList || token == "and".toList || token == "or".toList

def sqlPieces : List (List Char) → List Piece
  | a :: ['.'] :: b :: tokens =>
    if isName a && isName b then
      (.constant, a) :: (.plain, ['.']) :: (.constant, b) :: sqlPieces tokens
    else (if isKeyword a then .keyword else .plain, a) :: sqlPieces (['.'] :: b :: tokens)
  | a :: tokens => (if isKeyword a then .keyword else .plain, a) :: sqlPieces tokens
  | [] => []

def tomlValue (value : List Char) : List Piece :=
  match value with
  | quote :: body =>
    if isNamePart quote then [(.constant, value)]
    else [(.string, [quote]), (.string, body.dropLast), (.string, body.drop (body.length - 1))]
  | [] => []

def tomlLine (line : List Char) : List Piece :=
  match line with
  | '[' :: header => [(.plain, ['[']), (.plain, header.dropLast), (.plain, [']'])]
  | line =>
    let key := line.takeWhile isNamePart
    (.keyword, key) :: (.plain, [' ']) :: (.plain, ['=']) :: (.plain, [' ']) ::
      tomlValue (line.drop (key.length + 3))

/-- The pieces of a settings text; `line` holds the current line, last first. -/
def tomlPieces (line : List Char) : List Char → List Piece
  | [] => if line.isEmpty then [] else tomlLine line.reverse
  | '\n' :: cs => tomlLine line.reverse ++ (.plain, ['\n']) :: tomlPieces [] cs
  | c :: cs => tomlPieces (c :: line) cs

inductive Role where
  | header
  | dim
  | param
  | warning
  | error
  deriving DecidableEq, Repr, Inhabited

def Role.code : Role → String
  | header => "\x1b[1m\x1b[36m"
  | dim => "\x1b[2m"
  | param => "\x1b[35m"
  | warning => "\x1b[33m"
  | error => "\x1b[1m\x1b[31m"

structure Styler where
  color : Bool := false
  deriving DecidableEq, Repr, Inhabited

namespace Styler

def style (s : Styler) (role : Role) (text : String) : String :=
  if s.color then role.code ++ text ++ reset else text

def sql (s : Styler) (text : String) : String :=
  if s.color then paint (joinPieces (sqlPieces (sqlTokens [] text.toList))) else text

def toml (s : Styler) (text : String) : String :=
  if s.color then paint (tomlPieces [] text.toList) else text

end Styler

end SearchFilter.Terminal
