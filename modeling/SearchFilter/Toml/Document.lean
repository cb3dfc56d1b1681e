import SearchFilter.Toml.Node
import SearchFilter.Toml.Quoted

/-! TOML documents. Their statements are table headers, headers of the elements of an array of tables,
and keys with values. All statements of a text are read first, and then they give their keys to the
tables that they name. -/

namespace SearchFilter.Toml

inductive Statement where
  | table (path : List String)
  | element (path : List String)
  | entry (path : List String) (value : Value)
  deriving Repr, Inhabited

abbrev Reader := StateT (List Char) Option

namespace Reader

/-- A blank in a line. Carriage returns only come before a newline here. -/
def isBlank (c : Char) : Bool :=
  c == ' ' || c == '\t' || c == '\r'

/-- Drops blanks, line ends and comments; `comment` tells that the text starts in a comment. -/
def dropTrivia (comment : Bool) : List Char → Option (List Char)
  | [] => some []
  | c :: rest =>
    if c = '\n' then dropTrivia false rest
    else if comment then if isTextual c || c = '\r' then dropTrivia true rest else none
    else if isBlank c then dropTrivia false rest
    else if c = '#' then dropTrivia true rest
    else some (c :: rest)

def dropLine (comment : Bool) : List Char → Option (List Char)
  | [] => some []
  | c :: rest =>
    if c = '\n' then some rest
    else if comment then if isTextual c || c = '\r' then dropLine true rest else none
    else if isBlank c then dropLine false rest
    else if c = '#' then dropLine true rest
    else none

def skip (drop : List Char → Option (List Char)) : Reader Unit :=
  fun cs => (((), ·)) <$> drop cs

def blanks : Reader Unit :=
  skip fun cs => some (cs.dropWhile isBlank)

def trivia : Reader Unit :=
  skip (dropTrivia false)

def lineEnd : Reader Unit :=
  skip (dropLine false)

def peek : Reader (Option Char) :=
  fun cs => some (cs.head?, cs)

def char (c : Char) : Reader Unit :=
  skip fun
    | [] => none
    | d :: rest => if d = c then some rest else none

def takeWhile (p : Char → Bool) : Reader (List Char) :=
  fun cs => some (cs.takeWhile p, cs.dropWhile p)

def text (read : List Char → Option (List Char × List Char)) : Reader String :=
  fun cs => (fun (body, rest) => (String.ofList body, rest)) <$> read cs

def isBareKey (c : Char) : Bool :=
  c.isAlphanum || c == '_' || c == '-'

def key : Reader String := do
  match ← peek with
  | some '"' | some '\'' => text readLine
  | _ =>
    let name ← takeWhile isBareKey
    guard !name.isEmpty
    return String.ofList name

/-- The keys of a path after its first one. No path has more keys than the text has characters. -/
def moreKeys : (bound : List Char) → List String → Reader (List String)
  | [], _ => failure
  | _ :: bound, seen => do
    blanks
    match ← peek with
    | some '.' =>
      char '.'
      blanks
      let name ← key
      moreKeys bound (name :: seen)
    | _ => return seen.reverse

def path : Reader (List String) := do
  let bound ← get
  let first ← key
  moreKeys bound [first]

/-- Items with commas between them up to `close`; a comma may also follow the last one. Items cannot
outnumber the characters of the text. -/
def listed {α : Type} (item : Reader α) (close : Char) :
    (bound : List Char) → List α → Reader (List α)
  | [], _ => failure
  | _ :: bound, seen => do
    trivia
    if (← peek) = some close then
      char close
      return seen.reverse
    let a ← item
    trivia
    if (← peek) = some ',' then
      char ','
      listed item close bound (a :: seen)
    else
      char close
      return (a :: seen).reverse

def isStop (c : Char) : Bool :=
  c == '=' || c == ',' || c == '[' || c == ']' || c == '{' || c == '}' || c == '#' || isLineEnd c

def resumes (c : Char) : Bool :=
  !isStop c && c != '.' && c != '"' && c != '\''

/-- The run of a value without quotes or brackets, and the rest. Blanks are part of it if it goes on
after them; `gap` holds the blanks just before the text, last first. -/
def scalarRun (gap : List Char) : List Char → List Char × List Char
  | [] => ([], gap.reverse)
  | c :: cs =>
    if c = ' ' ∨ c = '\t' then scalarRun (c :: gap) cs
    else if if gap.isEmpty then isStop c else !resumes c then ([], gap.reverse ++ c :: cs)
    else
      let (run, rest) := scalarRun [] cs
      (gap.reverse ++ c :: run, rest)

def scalar : Reader Value := fun cs =>
  let (run, rest) := scalarRun [] cs
  (·, rest) <$> scalar? run

def keyed (gap : Reader Unit) (value : Reader Value) : Reader (List String × Value) := do
  let name ← path
  gap
  char '='
  gap
  return (name, ← value)

def valueWith (inner : Reader Value) : Reader Value := do
  match ← peek with
  | some '"' | some '\'' => return .string (← text readString)
  | some '[' =>
    char '['
    return .array (← listed inner ']' (← get) [])
  | some '{' =>
    char '{'
    let entries ← listed (keyed trivia inner) '}' (← get) []
    let table ← entries.foldlM (fun table (name, v) => Entries.assign name v table) []
    return .table (entryValues table)
  | _ => scalar

def value : (room : Nat) → Reader Value
  | 0 => do
    guard ((← peek) ≠ some '[' ∧ (← peek) ≠ some '{')
    valueWith failure
  | room + 1 => valueWith (value room)

def maxNesting : Nat := 80

def statement : Reader Statement := do
  if (← peek) = some '[' then
    char '['
    if (← peek) = some '[' then
      char '['
      blanks
      let name ← path
      char ']'
      char ']'
      return .element name
    else
      blanks
      let name ← path
      char ']'
      return .table name
  else
    let (name, v) ← keyed blanks (value maxNesting)
    return .entry name v

def statements : (bound : List Char) → List Statement → Reader (List Statement)
  | [], seen => do
    guard (← get).isEmpty
    return seen.reverse
  | _ :: bound, seen => do
    trivia
    if (← get).isEmpty then return seen.reverse
    let s ← statement
    lineEnd
    statements bound (s :: seen)

end Reader

def returnsEndLines : List Char → Bool
  | [] => true
  | ['\r'] => false
  | '\r' :: c :: rest => c == '\n' && returnsEndLines rest
  | _ :: rest => returnsEndLines rest

def dropByteOrderMark : List Char → List Char
  | '\ufeff' :: rest => rest
  | cs => cs

structure Outline where
  entries : Entries := []
  current : List String := []
  deriving Repr, Inhabited

def Outline.add (d : Outline) : Statement → Option Outline
  | .table path => do
    let key ← path.getLast?
    return ⟨← d.entries.changeAt .implied (Entries.openTable key) .header path.dropLast, path⟩
  | .element path => do
    let key ← path.getLast?
    return ⟨← d.entries.changeAt .implied (Entries.openElement key) .header path.dropLast, path⟩
  | .entry path v => do
    let entries ← d.entries.changeAt .implied (fun _ => Entries.assign path v) .header d.current
    return { d with entries }

def parse (text : String) : Option (List (String × Value)) := do
  let cs := dropByteOrderMark text.toList
  guard (returnsEndLines cs)
  let (statements, _) ← Reader.statements cs [] cs
  let outline ← statements.foldlM Outline.add {}
  return entryValues outline.entries

end SearchFilter.Toml
