/-! Writing a text as a TOML string. The plainest form that can hold the text is taken: a line in double
quotes, a line in single quotes, a block of either kind, and last a form with escapes. -/

namespace SearchFilter.Toml

inductive Form where
  | basic
  | literal
  | basicBlock
  | literalBlock
  deriving DecidableEq, Repr

def isEscapeOnly (c : Char) : Bool :=
  (c < ' ' && c != '\t' && c != '\n') || c == '\x7f'

def longestRun (c : Char) (run : Nat) : List Char → Nat
  | [] => run
  | d :: cs => if d = c then longestRun c (run + 1) cs else max run (longestRun c 0 cs)

def formFor (cs : List Char) : Form :=
  let escapes := cs.any isEscapeOnly
  let backslash := cs.contains '\\'
  let newline := cs.contains '\n'
  let single := longestRun '\'' 0 cs
  let double := longestRun '"' 0 cs
  if !escapes && !backslash && double == 0 && !newline then .basic
  else if !escapes && single == 0 && !newline then .literal
  else if !escapes && !backslash && double ≤ 2 then .basicBlock
  else if !escapes && single ≤ 2 then .literalBlock
  else if newline then .basicBlock
  else .basic

def escapeCode (c : Char) : List Char :=
  let digits := (Nat.toDigits 16 c.toNat).map Char.toUpper
  ['\\', 'u'] ++ List.replicate (4 - digits.length) '0' ++ digits

def escapeFor (block : Bool) (c : Char) : Option (List Char) :=
  if c = '\\' then some ['\\', '\\']
  else if c = '\x08' then some ['\\', 'b']
  else if c = '\t' then some ['\\', 't']
  else if c = '\n' then if block then none else some ['\\', 'n']
  else if c = '\x0c' then some ['\\', 'f']
  else if c = '\r' then some ['\\', 'r']
  else if isEscapeOnly c then some (escapeCode c)
  else none

/-- The body of a basic string. A line escapes every quote, a block each third one of a run; `run`
quotes stand just before the text. -/
def basicBody (block : Bool) (run : Nat) : List Char → List Char
  | [] => []
  | c :: cs =>
    if c = '"' then
      if !block || 2 ≤ run then '\\' :: '"' :: basicBody block 0 cs
      else '"' :: basicBody block (run + 1) cs
    else (escapeFor block c).getD [c] ++ basicBody block 0 cs

def writeChars (cs : List Char) : List Char :=
  let start := if cs.contains '\n' then ['\n'] else []
  match formFor cs with
  | .basic => ['"'] ++ basicBody false 0 cs ++ ['"']
  | .literal => ['\''] ++ cs ++ ['\'']
  | .basicBlock => ['"', '"', '"'] ++ start ++ basicBody true 0 cs ++ ['"', '"', '"']
  | .literalBlock => ['\'', '\'', '\''] ++ start ++ cs ++ ['\'', '\'', '\'']

def writeString (text : String) : String :=
  String.ofList (writeChars text.toList)

end SearchFilter.Toml
