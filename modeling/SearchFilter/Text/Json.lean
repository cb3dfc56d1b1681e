/-! JSON texts with two columns of margin a level. -/

namespace SearchFilter.Text

inductive Json where
  | string (text : String)
  | array (items : List Json)
  | object (members : List (String × Json))
  deriving Repr, Inhabited

namespace Json

def hexDigits (c : Char) : List Char :=
  let digits := Nat.toDigits 16 c.toNat
  List.replicate (4 - digits.length) '0' ++ digits

def escape (c : Char) : List Char :=
  if c = '"' ∨ c = '\\' then ['\\', c]
  else if c = '\x08' then ['\\', 'b']
  else if c = '\x0c' then ['\\', 'f']
  else if c = '\n' then ['\\', 'n']
  else if c = '\r' then ['\\', 'r']
  else if c = '\t' then ['\\', 't']
  else if c < ' ' then ['\\', 'u'] ++ hexDigits c
  else [c]

def quote (text : String) : String :=
  String.ofList ('"' :: text.toList.flatMap escape ++ ['"'])

def newLine (level : Nat) : String :=
  "\n" ++ "".pushn ' ' (2 * level)

mutual

def write (level : Nat) (out : String) : Json → String
  | string text => out ++ quote text
  | array [] => out ++ "[]"
  | array (item :: items) =>
    writeItems level (write (level + 1) (out ++ "[" ++ newLine (level + 1)) item) items
  | object [] => out ++ "\x7b\x7d"
  | object ((key, value) :: members) =>
    writeMembers level
      (write (level + 1) (out ++ "\x7b" ++ newLine (level + 1) ++ quote key ++ ": ") value) members

def writeItems (level : Nat) (out : String) : List Json → String
  | [] => out ++ newLine level ++ "]"
  | item :: items =>
    writeItems level (write (level + 1) (out ++ "," ++ newLine (level + 1)) item) items

def writeMembers (level : Nat) (out : String) : List (String × Json) → String
  | [] => out ++ newLine level ++ "\x7d"
  | (key, value) :: members =>
    writeMembers level
      (write (level + 1) (out ++ "," ++ newLine (level + 1) ++ quote key ++ ": ") value) members

end

def pretty (value : Json) : String :=
  value.write 0 ""

end Json
end SearchFilter.Text
