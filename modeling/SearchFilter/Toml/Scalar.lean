import SearchFilter.Toml.Value

/-! Values that TOML writes without quotes or brackets: booleans, numbers, dates and times. The form of
a number is checked in two steps. Its signs, marks and underscores have to be in place, or else it is
no value; its digits are looked at last, and a number with wrong ones is a value nobody can read. A
time may leave out its seconds, and a minute may have a leap second. -/

namespace SearchFilter.Toml

namespace Moment

def number (width : Nat) (cs : List Char) : Option (Nat × List Char) :=
  let digits := cs.take width
  if digits.length = width ∧ digits.all Char.isDigit then
    some (digits.foldl (fun n c => 10 * n + (c.toNat - '0'.toNat)) 0, cs.drop width)
  else none

def mark (c : Char) : List Char → Option (List Char)
  | [] => none
  | d :: cs => if d = c then some cs else none

def daysIn (year month : Nat) : Nat :=
  if month = 2 then
    if year % 4 = 0 ∧ (year % 100 ≠ 0 ∨ year % 400 = 0) then 29 else 28
  else if month = 4 ∨ month = 6 ∨ month = 9 ∨ month = 11 then 30
  else 31

def afterDate (cs : List Char) : Option (List Char) := do
  let (year, cs) ← number 4 cs
  let (month, cs) ← number 2 (← mark '-' cs)
  let (day, cs) ← number 2 (← mark '-' cs)
  guard (1 ≤ month ∧ month ≤ 12 ∧ 1 ≤ day ∧ day ≤ daysIn year month)
  return cs

def afterFraction : List Char → Option (List Char)
  | '.' :: c :: cs => if c.isDigit then some (cs.dropWhile Char.isDigit) else none
  | ['.'] => none
  | cs => some cs

def afterTime (cs : List Char) : Option (List Char) := do
  let (hour, cs) ← number 2 cs
  let (minute, cs) ← number 2 (← mark ':' cs)
  guard (hour ≤ 23 ∧ minute ≤ 59)
  match mark ':' cs with
  | none => return cs
  | some cs =>
    let (second, cs) ← number 2 cs
    guard (second ≤ 60)
    afterFraction cs

def isOffset : List Char → Bool
  | [] => true
  | ['Z'] | ['z'] => true
  | sign :: cs =>
    (sign == '+' || sign == '-') &&
      match number 2 cs with
      | some (hours, ':' :: cs) =>
        match number 2 cs with
        | some (minutes, []) => hours ≤ 23 && minutes ≤ 59
        | _ => false
      | _ => false

def isDateSeparator (c : Char) : Bool :=
  c == 'T' || c == 't' || c == ' '

def isMoment (cs : List Char) : Bool :=
  match afterDate cs with
  | some [] => true
  | some (separator :: cs) => isDateSeparator separator && (afterTime cs).any isOffset
  | none => afterTime cs == some []

end Moment

open Decimal

inductive Sign where
  | none
  | plus
  | minus
  deriving DecidableEq, Repr, Inhabited

def digitValue (c : Char) : Nat :=
  if c.isDigit then c.toNat - '0'.toNat
  else if 'a' ≤ c ∧ c ≤ 'f' then c.toNat - 'a'.toNat + 10
  else c.toNat - 'A'.toNat + 10

def isHexDigit (c : Char) : Bool :=
  c.isDigit || ('a' ≤ c && c ≤ 'f') || ('A' ≤ c && c ≤ 'F')

def numeral (base : Nat) (digits : List Char) : Nat :=
  digits.foldl (fun n c => base * n + digitValue c) 0

def dropUnderscores (cs : List Char) : List Char :=
  cs.filter (· != '_')

/-- Whether a digit stands before and after every underscore; `fits` tells whether the text may start
with one. -/
def underscoresFit (isDigit : Char → Bool) (fits : Bool) : List Char → Bool
  | [] => true
  | ['_'] => false
  | '_' :: c :: cs => fits && isDigit c && underscoresFit isDigit true cs
  | c :: cs => underscoresFit isDigit (isDigit c) cs

def wholeNumber (sign : Sign) (base : Nat) (isDigit : Char → Bool) (digits : List Char) : Value :=
  if digits.isEmpty || !digits.all isDigit then .unreadable
  else if sign = .minus then .ofInt (-numeral base digits)
  else .ofInt (numeral base digits)

def radix : Char → Option (Nat × (Char → Bool))
  | 'x' => some (16, isHexDigit)
  | 'o' => some (8, fun c => '0' ≤ c && c ≤ '7')
  | 'b' => some (2, fun c => c == '0' || c == '1')
  | _ => none

/-- A whole number in another base, after its mark. There may be no digits at all. -/
def radixNumber? (base : Nat) (isDigit : Char → Bool) (cs : List Char) : Option Value :=
  if cs.all (fun c => isDigit c || c == '_') && underscoresFit isDigit false cs then
    some (wholeNumber .none base isDigit (dropUnderscores cs))
  else none

def digitRun (cs : List Char) : Option (List Char × List Char) :=
  let isPart := fun c : Char => c.isDigit || c == '_'
  let digits := dropUnderscores (cs.takeWhile isPart)
  if digits.isEmpty then none else some (digits, cs.dropWhile isPart)

def fraction : List Char → Option (List Char × List Char)
  | '.' :: cs => digitRun cs
  | cs => some ([], cs)

def dropSign : List Char → List Char
  | '+' :: cs => cs
  | '-' :: cs => cs
  | cs => cs

def exponent? : List Char → Option Int
  | [] => some 0
  | mark :: cs =>
    if mark = 'e' ∨ mark = 'E' then
      match digitRun (dropSign cs) with
      | some (digits, []) =>
        some (if cs.head? = some '-' then -numeral 10 digits else numeral 10 digits)
      | _ => none
    else none

def scientific? (cs : List Char) : Option Scientific := do
  let (whole, rest) ← digitRun cs
  guard (whole.length = 1 ∨ cs.head? ≠ some '0')
  let (fraction, rest) ← fraction rest
  return ⟨numeral 10 (whole ++ fraction), (← exponent? rest) - fraction.length⟩

def decimal? (sign : Sign) (cs : List Char) : Option Value :=
  let rest := cs.dropWhile Char.isDigit
  if rest.contains ' ' then none
  else if rest.any (fun c => c == '.' || c == 'e' || c == 'E') then
    if underscoresFit Char.isDigit (sign ≠ .none) cs then
      (Value.ofScientific (sign = .minus) ·) <$> scientific? cs
    else none
  else if cs ≠ ['0'] && cs.head? == some '0' then none
  else if !cs.isEmpty && (rest.isEmpty || rest.head? == some '_') then
    if underscoresFit isHexDigit (sign ≠ .none) cs then
      some (wholeNumber sign 10 Char.isDigit (dropUnderscores cs))
    else none
  else none

def number? (sign : Sign) (cs : List Char) : Option Value :=
  if cs = "inf".toList then some (.float (.infinite (sign = .minus)))
  else if cs = "nan".toList then some (.float .nan)
  else decimal? sign cs

def unsigned? (cs : List Char) : Option Value :=
  match cs with
  | '0' :: mark :: rest =>
    match radix mark with
    | some (base, isDigit) => radixNumber? base isDigit rest
    | none => number? .none cs
  | cs => number? .none cs

def scalar? (cs : List Char) : Option Value :=
  if cs = "true".toList then some (.boolean true)
  else if cs = "false".toList then some (.boolean false)
  else if Moment.isMoment cs then some .moment
  else match cs with
    | '+' :: cs => number? .plus cs
    | '-' :: cs => number? .minus cs
    | cs => unsigned? cs

end SearchFilter.Toml
