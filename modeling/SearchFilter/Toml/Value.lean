import SearchFilter.Decimal.Binary64

/-! The values of a TOML document. -/

namespace SearchFilter.Toml

open Decimal

inductive FloatLiteral where
  | finite (negative : Bool) (magnitude : Binary64)
  | infinite (negative : Bool)
  | nan
  deriving DecidableEq, Repr, Inhabited

def FloatLiteral.text : FloatLiteral → String
  | finite negative magnitude =>
    let text := if magnitude.significand = 0 then "0.0" else magnitude.shortest.positional
    if negative then "-" ++ text else text
  | infinite negative => if negative then "-inf" else "inf"
  | nan => "NaN"

inductive Value where
  | string (text : String)
  | integer (n : Int)
  | float (x : FloatLiteral)
  /-- A number that no machine type holds, or one with digits missing or out of place. A document may
  have it, but nobody can read it. -/
  | unreadable
  | boolean (b : Bool)
  | moment
  | array (items : List Value)
  /-- The entries stand in the order of their keys. -/
  | table (entries : List (String × Value))
  deriving Repr, Inhabited

namespace Value

def ofInt (n : Int) : Value :=
  if -Int.pow 2 127 ≤ n ∧ n < Int.pow 2 128 then integer n else unreadable

def ofScientific (negative : Bool) (s : Scientific) : Value :=
  match Binary64.ofScientific s with
  | some magnitude => float (.finite negative magnitude)
  | none => unreadable

mutual

def isReadable : Value → Bool
  | unreadable => false
  | array items => allReadable items
  | table entries => allEntriesReadable entries
  | _ => true

def allReadable : List Value → Bool
  | [] => true
  | v :: items => v.isReadable && allReadable items

def allEntriesReadable : List (String × Value) → Bool
  | [] => true
  | (_, v) :: entries => v.isReadable && allEntriesReadable entries

end

end Value
end SearchFilter.Toml
