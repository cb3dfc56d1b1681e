/-! Decimal numbers as binary floating point with 53 significant bits. A decimal is rounded to the
nearest such number, a half going to the even neighbour, and a number is written with the fewest
digits that are rounded back to it. -/

namespace SearchFilter.Decimal

/-- The number `significand * 2 ^ exponent`. -/
structure Binary64 where
  significand : Nat
  exponent : Int
  deriving DecidableEq, Repr, Inhabited

/-- The number `digits * 10 ^ exponent`. -/
structure Scientific where
  digits : Nat
  exponent : Int
  deriving DecidableEq, Repr, Inhabited

def scale (base : Nat) (exponent : Int) (num den : Nat) : Nat × Nat :=
  if 0 ≤ exponent then (num * Nat.pow base exponent.toNat, den)
  else (num, den * Nat.pow base (-exponent).toNat)

/-- Rounds a ratio to the nearest natural number, a half to the even one. -/
def roundRatio (num den : Nat) : Nat :=
  let floor := num / den
  let twice := 2 * (num % den)
  if twice < den then floor
  else if den < twice then floor + 1
  else floor + floor % 2

namespace Binary64

def minExponent : Int := -1074

def ofRatio (num den : Nat) : Option Binary64 :=
  let estimate : Int := (num.log2 : Int) - den.log2 - 52
  let (n, d) := scale 2 (-estimate) num den
  let exponent := max minExponent (if n / d < Nat.pow 2 52 then estimate - 1 else estimate)
  let (n, d) := scale 2 (-exponent) num den
  let significand := roundRatio n d
  let result : Binary64 :=
    if significand = Nat.pow 2 53 then ⟨Nat.pow 2 52, exponent + 1⟩ else ⟨significand, exponent⟩
  if 971 < result.exponent then none else some result

def ofScientific (s : Scientific) : Option Binary64 :=
  let magnitude : Int := (Nat.toDigits 10 s.digits).length + s.exponent
  if s.digits = 0 ∨ magnitude < -400 then some ⟨0, minExponent⟩
  else if 400 < magnitude then none
  else
    let (num, den) := scale 10 s.exponent s.digits 1
    ofRatio num den

/-- The ends of the interval of ratios that round to a number, over one denominator. The gap below a
power of two is half as wide as the one above it. -/
def neighbourhood (b : Binary64) : Nat × Nat × Nat :=
  let (num, den) := scale 2 (b.exponent - 2) 1 1
  let below := if b.significand = Nat.pow 2 52 ∧ minExponent < b.exponent then 1 else 2
  ((4 * b.significand - below) * num, (4 * b.significand + 2) * num, den)

def Near (b : Binary64) (s : Scientific) : Bool :=
  let (low, high, den) := b.neighbourhood
  let (num, scaled) := scale 10 s.exponent s.digits 1
  let (low, high, num) := (low * scaled, high * scaled, num * den)
  if b.significand % 2 = 0 then low ≤ num ∧ num ≤ high else low < num ∧ num < high

/-- The decimal with the fewest digits that rounds to a positive number: of these the nearest one, and
of two at the same distance the greater. -/
def shortest (b : Binary64) : Scientific :=
  let (num, den) := scale 2 b.exponent b.significand 1
  let size := (Nat.toDigits 10 (num / den)).length
  /- Decimals of a whole part shorter than one digit start further right. -/
  let point : Int := if num / den = 0 then 1 - (Nat.toDigits 10 (den / num)).length else size
  go num den point 0 18
where
  go (num den : Nat) (point : Int) (length : Nat) : Nat → Scientific
    | 0 => ⟨0, 0⟩
    | steps + 1 =>
      let exponent := point - (length + 1 : Nat)
      let (n, d) := scale 10 (-exponent) num den
      let below : Scientific := ⟨n / d, exponent⟩
      let above : Scientific :=
        if (n / d + 1) % 10 = 0 then ⟨(n / d + 1) / 10, exponent + 1⟩ else ⟨n / d + 1, exponent⟩
      match b.Near below, b.Near above with
      | true, true => if 2 * (n % d) < d then below else above
      | true, false => below
      | false, true => above
      | false, false => go num den point (length + 1) steps

end Binary64

namespace Scientific

def positional (s : Scientific) : String :=
  let digits := Nat.toDigits 10 s.digits
  if 0 ≤ s.exponent then
    String.ofList (digits ++ List.replicate s.exponent.toNat '0' ++ ['.', '0'])
  else
    let places := (-s.exponent).toNat
    let padded := List.replicate (places + 1 - digits.length) '0' ++ digits
    let whole := padded.take (padded.length - places)
    let fraction := padded.drop (padded.length - places)
    String.ofList (whole ++ '.' :: fraction)

end Scientific
end SearchFilter.Decimal
