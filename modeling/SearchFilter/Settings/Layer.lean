import SearchFilter.Text.Escaped
import SearchFilter.Toml.Document

/-! Layers: what one settings file says. Keys without a meaning are passed over, but an unreadable
number is refused wherever it is met. -/

namespace SearchFilter.Settings

open Toml

structure QueryLayer where
  column : Option String := none
  maxDepth : Option Nat := none
  deriving DecidableEq, Repr, Inhabited

structure Layer where
  root : Option Bool := none
  query : Option QueryLayer := none
  deriving DecidableEq, Repr, Inhabited

inductive Wanted where
  | boolean
  | querySettings
  | string
  | count
  deriving DecidableEq, Repr, Inhabited

def Wanted.describe : Wanted → String
  | boolean => "a boolean"
  | querySettings => "struct RawQuerySettings"
  | string => "a string"
  | count => "usize"

inductive LayerError where
  | malformed
  | unreadableNumber
  | invalidType (found : Value) (wanted : Wanted)
  | invalidValue (found : Value) (wanted : Wanted)
  deriving Repr, Inhabited

def describe : Value → String
  | .string text => "string " ++ Text.quoted text
  | .integer n =>
    let type :=
      if -Int.pow 2 63 ≤ n ∧ n < Int.pow 2 64 then ""
      else if n < Int.pow 2 127 then " as i128" else " as u128"
    s!"integer `{n}`" ++ type
  | .float x => "floating point `" ++ x.text ++ "`"
  | .unreadable => "number"
  | .boolean b => s!"boolean `{b}`"
  | .moment => "map"
  | .array _ => "sequence"
  | .table _ => "map"

def LayerError.detail : LayerError → Option String
  | malformed => none
  | unreadableNumber => none
  | invalidType found wanted =>
    some ("invalid type: " ++ describe found ++ ", expected " ++ wanted.describe)
  | invalidValue found wanted =>
    some ("invalid value: " ++ describe found ++ ", expected " ++ wanted.describe)

def mismatch {α : Type} (found : Value) (wanted : Wanted) : Except LayerError α :=
  match found with
  | .unreadable => .error .unreadableNumber
  | found => .error (.invalidType found wanted)

def readBoolean : Value → Except LayerError Bool
  | .boolean b => .ok b
  | v => mismatch v .boolean

def readText : Value → Except LayerError String
  | .string text => .ok text
  | v => mismatch v .string

def readCount : Value → Except LayerError Nat
  | .integer n =>
    if 0 ≤ n ∧ n < Int.pow 2 64 then .ok n.toNat
    else if -Int.pow 2 63 ≤ n ∧ n < 0 then .error (.invalidValue (.integer n) .count)
    else mismatch (.integer n) .count
  | v => mismatch v .count

def ignore (v : Value) : Except LayerError Unit :=
  if v.isReadable then .ok () else .error .unreadableNumber

def QueryLayer.add (layer : QueryLayer) (entry : String × Value) : Except LayerError QueryLayer :=
  if entry.1 = "column" then do return { layer with column := some (← readText entry.2) }
  else if entry.1 = "max_depth" then do return { layer with maxDepth := some (← readCount entry.2) }
  else do
    ignore entry.2
    return layer

/-- The query settings in a value: a table of them, or an array of the column and the limit. -/
def QueryLayer.ofValue : Value → Except LayerError QueryLayer
  | .table entries => entries.foldlM QueryLayer.add {}
  | .array [] => .ok {}
  | .array [column] => do return { column := some (← readText column) }
  | .array (column :: maxDepth :: _) => do
    let column ← readText column
    return ⟨some column, some (← readCount maxDepth)⟩
  | .moment => .ok {}
  | v => mismatch v .querySettings

def Layer.add (layer : Layer) (entry : String × Value) : Except LayerError Layer :=
  if entry.1 = "root" then do return { layer with root := some (← readBoolean entry.2) }
  else if entry.1 = "query" then do
    return { layer with query := some (← QueryLayer.ofValue entry.2) }
  else do
    ignore entry.2
    return layer

/-- Reads the text of a settings file. Of several mistakes the one under the first key is reported. -/
def Layer.parse (text : String) : Except LayerError Layer :=
  match Toml.parse text with
  | none => .error .malformed
  | some entries => entries.foldlM Layer.add {}

end SearchFilter.Settings
