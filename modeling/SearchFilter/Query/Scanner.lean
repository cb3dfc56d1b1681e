import SearchFilter.Query.SyntaxError

/-! Reading a query from left to right. A scanner stands at a place in the text, keeps the rules that
are being read, and remembers what was expected at the furthest place where a rule did not match. -/

namespace SearchFilter.Query

open Text

/-- A place in a text: the bytes before it and the characters from it on. -/
structure Position where
  offset : Nat
  rest : List Char
  deriving DecidableEq, Repr, Inhabited

def Position.advance (p : Position) (consumed : List Char) : Position :=
  ⟨p.offset + byteLength consumed, p.rest.drop consumed.length⟩

/-- What was expected at a place, and the rules being read when that was first noted there. -/
structure Failure where
  offset : Nat
  expected : List Expectation
  /-- Innermost first. -/
  rules : List Rule
  deriving DecidableEq, Repr, Inhabited

structure Scanner where
  position : Position
  /-- The rules being read, innermost first. -/
  rules : List Rule := []
  furthest : Option Failure := none
  deriving DecidableEq, Repr, Inhabited

namespace Scanner

def start (input : List Char) : Scanner :=
  { position := ⟨0, input⟩ }

def enter (rule : Rule) (s : Scanner) : Scanner :=
  { s with rules := rule :: s.rules }

def leave (s : Scanner) : Scanner :=
  { s with rules := s.rules.tail }

def reset (position : Position) (s : Scanner) : Scanner :=
  { s with position }

def advance (consumed : List Char) (s : Scanner) : Scanner :=
  s.reset (s.position.advance consumed)

/-- Notes that `what` would have matched here. Only the furthest place is kept, with its distinct
expectations in the order in which they were noted. -/
def expect (what : Expectation) (s : Scanner) : Scanner :=
  let fresh : Failure := ⟨s.position.offset, [what], s.rules⟩
  match s.furthest with
  | none => { s with furthest := some fresh }
  | some f =>
    if s.position.offset < f.offset then s
    else if f.offset < s.position.offset then { s with furthest := some fresh }
    else if what ∈ f.expected then s
    else { s with furthest := some { f with expected := f.expected ++ [what] } }

def diagnose (input : String) (s : Scanner) : SyntaxError :=
  match s.furthest with
  | some f => ⟨input, f.offset, f.expected, f.rules.reverse⟩
  | none => ⟨input, s.position.offset, [], []⟩

end Scanner

inductive Halt where
  /-- The rule does not match here; another one may. -/
  | miss
  /-- The group opened at `offset` is nested too deeply for any rule to match. -/
  | tooDeep (offset : Nat)
  deriving DecidableEq, Repr, Inhabited

abbrev Scan := EStateM Halt Scanner

namespace Scan

def offset : Scan Nat :=
  fun s => .ok s.position.offset s

def missing {α : Type} (what : Expectation) : Scan α :=
  fun s => .error .miss (s.expect what)

def within {α : Type} (rule : Rule) (body : Scan α) : Scan α :=
  fun s => match body (s.enter rule) with
    | .ok a s => .ok a s.leave
    | .error halt s => .error halt s.leave

def attempt {α : Type} (body : Scan α) : Scan (Option α) :=
  fun s => match body s with
    | .ok a s => .ok (some a) s
    | .error .miss s' => .ok none (s'.reset s.position)
    | .error (.tooDeep offset) s => .error (.tooDeep offset) s

/-- Reads `item` as often as it matches, at most once more than `bound` has characters. -/
def manyWithin {α : Type} (item : Scan α) : (bound : List Char) → List α → Scan (List α)
  | [], found => fun s => match attempt item s with
    | .ok none s => .ok found.reverse s
    | .ok (some a) s => .ok (a :: found).reverse s
    | .error halt s => .error halt s
  | _ :: bound, found => fun s => match attempt item s with
    | .ok none s => .ok found.reverse s
    | .ok (some a) s => manyWithin item bound (a :: found) s
    | .error halt s => .error halt s

/-- Reads `item` as often as it matches. Items that consume text cannot outnumber its characters. -/
def many {α : Type} (item : Scan α) : Scan (List α) :=
  fun s => manyWithin item s.position.rest [] s

end Scan
end SearchFilter.Query
