import SearchFilter.Toml.Value

/-! Tables under construction. A table remembers what brought it about, because that decides what may
still be added to it. -/

namespace SearchFilter.Toml

inductive Origin where
  | header
  /-- A header of a table below it. -/
  | implied
  | dotted
  deriving DecidableEq, Repr, Inhabited

inductive Node where
  | value (v : Value)
  | table (origin : Origin) (entries : List (String × Node))
  /-- An array of tables that headers extend, with its last element first. -/
  | tables (last : List (String × Node)) (before : List (List (String × Node)))
  deriving Repr, Inhabited

abbrev Entries := List (String × Node)

namespace Entries

def get? (key : String) (entries : Entries) : Option Node :=
  entries.lookup key

def put (key : String) (node : Node) : Entries → Entries
  | [] => [(key, node)]
  | (other, old) :: entries =>
    if key = other then (key, node) :: entries
    else if key < other then (key, node) :: (other, old) :: entries
    else (other, old) :: put key node entries

/-- Changes the table at a path by `change`, which is told its origin. Missing tables on the way get the
origin `missing`. A dotted key does not reach into a table that has a header of its own, and nothing
reaches into a value. -/
def changeAt (missing : Origin) (change : Origin → Entries → Option Entries) :
    (here : Origin) → (path : List String) → Entries → Option Entries
  | here, [], entries => change here entries
  | _, key :: path, entries =>
    match entries.get? key with
    | none => do
      let inner ← changeAt missing change missing path []
      return entries.put key (.table missing inner)
    | some (.table origin inner) =>
      if missing = .dotted ∧ origin = .header then none
      else do
        let inner ← changeAt missing change origin path inner
        return entries.put key (.table origin inner)
    | some (.tables last before) => do
      let last ← changeAt missing change .header path last
      return entries.put key (.tables last before)
    | some (.value _) => none

/-- Opens the table of a header. It may have been implied before, but not defined. -/
def openTable (key : String) (_ : Origin) (entries : Entries) : Option Entries :=
  match entries.get? key with
  | none => some (entries.put key (.table .header []))
  | some (.table .implied inner) => some (entries.put key (.table .header inner))
  | some _ => none

def openElement (key : String) (_ : Origin) (entries : Entries) : Option Entries :=
  match entries.get? key with
  | none => some (entries.put key (.tables [] []))
  | some (.tables last before) => some (entries.put key (.tables [] (last :: before)))
  | some _ => none

def define (isDotted : Bool) (key : String) (v : Value) (here : Origin) (entries : Entries) :
    Option Entries :=
  if isDotted ∧ here ≠ .dotted then none
  else match entries.get? key with
    | none => some (entries.put key (.value v))
    | some _ => none

def assign (path : List String) (v : Value) (entries : Entries) : Option Entries := do
  let key ← path.getLast?
  changeAt .dotted (define (1 < path.length) key v) .header path.dropLast entries

end Entries

mutual

def Node.toValue : Node → Value
  | .value v => v
  | .table _ entries => .table (entryValues entries)
  | .tables last before => .array (elementValues before [.table (entryValues last)])

def entryValues : Entries → List (String × Value)
  | [] => []
  | (key, node) :: entries => (key, node.toValue) :: entryValues entries

/-- The values of elements that are given last first, followed by `after`. -/
def elementValues : List Entries → List Value → List Value
  | [], after => after
  | last :: before, after => elementValues before (.table (entryValues last) :: after)

end

end SearchFilter.Toml
