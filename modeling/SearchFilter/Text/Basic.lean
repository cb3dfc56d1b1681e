/-! Texts as lists of characters: blanks, byte offsets, parts and lines.

There are two notions of blank, the six ASCII blanks that separate the words of a query and the wider
Unicode property by which a text is trimmed. An offset counts the bytes of the UTF-8 encoding before it.
A line ends at a newline or at a carriage return and a newline; the last one may lack its end, and
nothing after a final newline counts as a line. -/

namespace SearchFilter.Text

def isBlank (c : Char) : Bool :=
  c == ' ' || c == '\t' || c == '\n' || c == '\r' || c == '\x0b' || c == '\x0c'

/-- The Unicode property `White_Space`. -/
def isWhiteSpace (c : Char) : Bool :=
  isBlank c || c == '\x85' || c == '\xa0' || c == '\u1680' || ('\u2000' ≤ c && c ≤ '\u200a') ||
    c == '\u2028' || c == '\u2029' || c == '\u202f' || c == '\u205f' ||
    c == '\u3000'

/-- The Unicode category `Cc`. -/
def isControl (c : Char) : Bool :=
  c.val < 0x20 || (0x7f ≤ c.val && c.val ≤ 0x9f)

def trimEnd (cs : List Char) : List Char :=
  (cs.reverse.dropWhile isWhiteSpace).reverse

def byteLength (cs : List Char) : Nat :=
  cs.foldr (fun c n => c.utf8Size + n) 0

/-- Splits a text at a byte offset. There is no split past the end or inside a character. -/
def splitAtByte (offset : Nat) (cs : List Char) : Option (List Char × List Char) :=
  go [] offset cs
where
  go (before : List Char) : Nat → List Char → Option (List Char × List Char)
    | 0, cs => some (before.reverse, cs)
    | _ + 1, [] => none
    | n + 1, c :: cs => if c.utf8Size ≤ n + 1 then go (c :: before) (n + 1 - c.utf8Size) cs else none

def splitAt (separator : Char) : List Char → List (List Char)
  | [] => [[]]
  | c :: cs =>
    match splitAt separator cs with
    | [] => [[c]]
    | piece :: pieces =>
      if c = separator then [] :: piece :: pieces else (c :: piece) :: pieces

def lines (text : String) : List String :=
  go [] text.toList
where
  /-- `line` holds the characters of the current line, last first. -/
  go (line : List Char) : List Char → List String
    | [] => if line.isEmpty then [] else [String.ofList line.reverse]
    | '\n' :: cs =>
      let line := match line with
        | '\r' :: line => line
        | line => line
      String.ofList line.reverse :: go [] cs
    | c :: cs => go (c :: line) cs

def indent (text : String) : String :=
  "\n".intercalate ((lines text).map ("  " ++ ·))

end SearchFilter.Text
