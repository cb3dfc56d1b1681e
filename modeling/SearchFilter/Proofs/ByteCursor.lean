import SearchFilter.Proofs.Parameters
import SearchFilter.Proofs.Reports

/-! The parser as a machine over bytes. Its cursor is a number of bytes and it counts the open groups
as it goes. It looks at the query through slices, each of which fails off the boundaries of the
characters. Nothing in its loops and its recursion says that they end: they run on fuel, and a run that
uses it up has no outcome. -/

namespace SearchFilter.Query

open Text

structure Cursor where
  pos : Nat
  depth : Nat := 0
  rules : List Rule := []
  furthest : Option Failure := none
  deriving DecidableEq

inductive Fault where
  | halt (halt : Halt)
  | slice
  deriving DecidableEq

/-- A run of the machine. One that uses up its fuel has no outcome. -/
abbrev Run := ExceptT Fault (StateT Cursor Option)

namespace Run

section Steps

variable {α : Type}

def exhausted : Run α :=
  fun _ => none

def pos : Run Nat :=
  fun σ => some (.ok σ.pos, σ)

def depth : Run Nat :=
  fun σ => some (.ok σ.depth, σ)

def advance (bytes : Nat) : Run Unit :=
  fun σ => some (.ok (), { σ with pos := σ.pos + bytes })

def missing (what : Expectation) : Run α :=
  fun σ => some (.error (.halt .miss),
    { σ with furthest := record σ.furthest ⟨σ.pos, what, σ.rules⟩ })

def within (rule : Rule) (body : Run α) : Run α :=
  fun σ => (body { σ with rules := rule :: σ.rules }).map fun outcome =>
    (outcome.1, { outcome.2 with rules := outcome.2.rules.tail })

def deeper (body : Run α) : Run α :=
  fun σ => (body { σ with depth := σ.depth + 1 }).map fun outcome =>
    (outcome.1, { outcome.2 with depth := outcome.2.depth - 1 })

def attempt (body : Run α) : Run (Option α) :=
  fun σ => (body σ).map fun
    | (.ok a, τ) => (.ok (some a), τ)
    | (.error (.halt .miss), τ) => (.ok none, { τ with pos := σ.pos })
    | (.error fault, τ) => (.error fault, τ)

def many (item : Run α) : (fuel : Nat) → List α → Run (List α)
  | 0, _ => exhausted
  | fuel + 1, found => do
    match ← attempt item with
    | none => pure found.reverse
    | some a => many item fuel (a :: found)

end Steps

section Lexemes

variable (input : String)

def rest : Run (List Char) := do
  match splitAtByte (← pos) input.toList with
  | some (_, rest) => pure rest
  | none => throw .slice

def peek : Run (Option Char) :=
  return (← rest input).head?

def bump : Run (Option Char) := do
  match ← peek input with
  | none => pure none
  | some c =>
    advance c.utf8Size
    pure (some c)

def leaf (span : Span) : Run SyntaxTree :=
  if span.start ≤ span.stop then
    match span.slice input with
    | some s => pure (.text s span)
    | none => throw .slice
  else throw .slice

def blanks : (fuel : Nat) → Run Unit
  | 0 => exhausted
  | fuel + 1 => do
    match ← peek input with
    | none => pure ()
    | some c =>
      if isBlank c then
        let _ ← bump input
        blanks fuel
      else pure ()

def whitespace (fuel : Nat) : Run Unit := do
  let start ← pos
  blanks input fuel
  if (← pos) = start then missing .whitespace else pure ()

def char (c : Char) : Run Unit := do
  if (← peek input) = some c then
    let _ ← bump input
    pure ()
  else missing (.char c)

def find? (P : Char → Bool) : List Char → Option Nat
  | [] => none
  | c :: cs => if P c then some 0 else (find? P cs).map (c.utf8Size + ·)

def bareRun : Run (List Char) := do
  let rest ← rest input
  let length := (find? (fun c => !isBare c) rest).getD (byteLength rest)
  match splitAtByte length rest with
  | some (run, _) => pure run
  | none => throw .slice

def keyword (op : Connective) : Run Unit := do
  if (← bareRun input) = op.keyword.toList then advance (byteLength op.keyword.toList)
  else missing (.keyword op)

def closing (quote : Char) (start : Nat) : (fuel : Nat) → Run Span
  | 0 => exhausted
  | fuel + 1 => do
    match ← peek input with
    | none => missing (.closingQuote quote)
    | some c =>
      if c = '\\' then
        let _ ← bump input
        match ← bump input with
        | none => missing (.closingQuote quote)
        | some _ => closing quote start fuel
      else if c = quote then
        let stop ← pos
        let _ ← bump input
        pure ⟨start, stop⟩
      else
        let _ ← bump input
        closing quote start fuel

def literal (fuel : Nat) : Run Span := do
  match (← peek input).filter isQuote with
  | none => throw (.halt .miss)
  | some quote =>
    let _ ← bump input
    closing input quote (← pos) fuel

def bareWord : Run Span := do
  let run ← bareRun input
  if isWord run then
    let start ← pos
    advance (byteLength run)
    return ⟨start, ← pos⟩
  else missing .word

def endOfInput : Run Unit := do
  if (← pos) = byteLength input.toList then pure () else missing .endOfInput

end Lexemes

section Rules

variable (input : String) (maxDepth fuel : Nat)

def orSeparator : Run SyntaxTree := within .orSeparator do
  let start ← pos
  let spelled ← attempt do
    blanks input fuel
    keyword input .or
    blanks input fuel
  if spelled.isNone then whitespace input fuel
  leaf input ⟨start, ← pos⟩

def andSeparator : Run SyntaxTree := within .andSeparator do
  let start ← pos
  whitespace input fuel
  keyword input .and
  whitespace input fuel
  leaf input ⟨start, ← pos⟩

def word : Run SyntaxTree := within .word do
  match ← attempt (within .quotedString (literal input fuel)) with
  | some span => return .tagged [(.word, .tagged [(.str, ← leaf input span)])]
  | none =>
    let span ← within .rawWord (bareWord input)
    return .tagged [(.word, ← leaf input span)]

def operands (op : Tag) (separator operand : Run SyntaxTree) : Run SyntaxTree := do
  let head ← operand
  let item : Run SyntaxTree := do
    let mark ← separator
    let right ← operand
    pure (.pair op mark right)
  return .chain head (← many item fuel [])

def inside (expr : Run SyntaxTree) : Run SyntaxTree := do
  blanks input fuel
  let tree ← expr
  blanks input fuel
  char input ')'
  pure tree

def group (expr : Run SyntaxTree) : Run SyntaxTree := within .group do
  let opening ← pos
  char input '('
  if maxDepth ≤ (← depth) then throw (.halt (.tooDeep opening))
  let tree ← deeper (inside input fuel expr)
  pure (.tagged [(.paren, tree)])

def primary (expr : Run SyntaxTree) : Run SyntaxTree := within .primary do
  match ← attempt (group input maxDepth fuel expr) with
  | some tree => pure tree
  | none => word input fuel

def andExpr (expr : Run SyntaxTree) : Run SyntaxTree :=
  within .andExpr
    (operands fuel .and (andSeparator input fuel) (primary input maxDepth fuel expr))

/-- An expression, with fuel for `calls` expressions one inside the other. -/
def orExpr : (calls : Nat) → Run SyntaxTree
  | 0 => exhausted
  | calls + 1 => within .orExpr
    (operands fuel .or (orSeparator input fuel) (andExpr input maxDepth fuel (orExpr calls)))

def query : Run SyntaxTree := within .query do
  blanks input fuel
  let tree ← orExpr input maxDepth fuel fuel
  blanks input fuel
  endOfInput input
  pure tree

end Rules
end Run

section Places

variable {input : String} {p : Position}

theorem PlaceOf.exists_before (h : PlaceOf input p) :
    ∃ before, input.toList = before ++ p.rest ∧ p.offset = byteLength before := by
  obtain ⟨before, hspan⟩ := h
  exact ⟨before, hspan.rest_eq, by simpa using hspan.offset_eq⟩

theorem PlaceOf.length_le (h : PlaceOf input p) : p.rest.length ≤ input.toList.length := by
  obtain ⟨before, hinput, -⟩ := h.exists_before
  rw [hinput, List.length_append]
  exact Nat.le_add_left _ _

theorem PlaceOf.rest_unique {offset : Nat} {rest rest' : List Char}
    (h : PlaceOf input ⟨offset, rest⟩) (h' : PlaceOf input ⟨offset, rest'⟩) : rest = rest' := by
  obtain ⟨before, hbefore⟩ := h
  obtain ⟨before', hbefore'⟩ := h'
  obtain rfl : before = before' := hbefore.text_eq hbefore' rfl
  exact List.append_cancel_left (hbefore.rest_eq.symm.trans hbefore'.rest_eq)

end Places

def Scanner.cursor (depth : Nat) (s : Scanner) : Cursor :=
  ⟨s.position.offset, depth, s.rules, s.furthest⟩

namespace Run

/-- From the scanner `s`, with `depth` groups open, the machine ends as a scan does: in its place and
with the rules that `s` was reading, either for the same reason or with a result which `R` relates to
that of the scan and to the text that was read. -/
inductive Follows {α β : Type} (depth : Nat) (s : Scanner) (R : List Char → α → β → Prop) :
    EStateM.Result Halt Scanner α → Option (Except Fault β × Cursor) → Prop
  | ok {text : List Char} {a : α} {b : β} {s' : Scanner} (hspan : Between s.position text s'.position)
      (hrules : s'.rules = s.rules) (hresult : R text a b) :
      Follows depth s R (.ok a s') (some (.ok b, s'.cursor depth))
  | error {halt : Halt} {s' : Scanner} (hrules : s'.rules = s.rules) :
      Follows depth s R (.error halt s') (some (.error (.halt halt), s'.cursor depth))

section Follows

variable {α β γ δ : Type} {depth : Nat} {s : Scanner} {R : List Char → α → β → Prop}
  {S : List Char → γ → δ → Prop} {x : Scan α} {f : α → Scan γ} {m : Run β} {g : β → Run δ}
  {σ τ : Cursor}

theorem bind_ok {b : β} (h : m σ = some (.ok b, τ)) : (m >>= g) σ = g b τ := by
  change (StateT.bind m (ExceptT.bindCont g)) σ = _
  simp only [StateT.bind, h]
  rfl

theorem bind_error {fault : Fault} (h : m σ = some (.error fault, τ)) :
    (m >>= g) σ = some (.error fault, τ) := by
  change (StateT.bind m (ExceptT.bindCont g)) σ = _
  simp only [StateT.bind, h]
  rfl

theorem Follows.bind (hx : Follows depth s R (x s) (m (s.cursor depth)))
    (hf : ∀ text a b s₁, Between s.position text s₁.position → R text a b →
      Follows depth s₁ (fun more => S (text ++ more)) (f a s₁) (g b (s₁.cursor depth))) :
    Follows depth s S ((x >>= f) s) ((m >>= g) (s.cursor depth)) := by
  change Follows depth s S (EStateM.bind x f s) _
  unfold EStateM.bind
  generalize hxs : x s = result at hx
  generalize hm : m (s.cursor depth) = outcome at hx
  cases hx with
  | error hrules =>
    rw [bind_error hm]
    exact .error hrules
  | @ok text a b s₁ hspan hrules hresult =>
    rw [bind_ok hm]
    have hnext := hf text a b s₁ hspan hresult
    dsimp only
    generalize f a s₁ = result' at hnext
    generalize g b (s₁.cursor depth) = outcome' at hnext
    cases hnext with
    | ok hspan' hrules' hresult' => exact .ok (hspan.trans hspan') (hrules'.trans hrules) hresult'
    | error hrules' => exact .error (hrules'.trans hrules)

theorem follows_pure {a : α} {b : β} (h : R [] a b) :
    Follows depth s R ((pure a : Scan α) s) ((pure b : Run β) (s.cursor depth)) :=
  .ok (.refl _) rfl h

theorem follows_missing {s' : Scanner} (what : Expectation) (hrules : s'.rules = s.rules) :
    Follows depth s R (Scan.missing what s') (missing what (s'.cursor depth)) := by
  unfold Scan.missing
  rw [Scanner.expect_eq]
  exact .error hrules

theorem Follows.within {rule : Rule}
    (h : Follows depth (s.enter rule) R (x (s.enter rule)) (m ((s.enter rule).cursor depth))) :
    Follows depth s R (Scan.within rule x s) (Run.within rule m (s.cursor depth)) := by
  have hm : Run.within rule m (s.cursor depth) = (m ((s.enter rule).cursor depth)).map fun outcome =>
      (outcome.1, { outcome.2 with rules := outcome.2.rules.tail }) := rfl
  rw [hm]
  unfold Scan.within
  generalize x (s.enter rule) = result at h
  generalize m ((s.enter rule).cursor depth) = outcome at h
  cases h with
  | ok hspan hrules hresult => exact .ok hspan (congrArg List.tail hrules) hresult
  | error hrules => exact .error (congrArg List.tail hrules)

inductive Found (R : List Char → α → β → Prop) : List Char → Option α → Option β → Prop
  | some {text : List Char} {a : α} {b : β} (h : R text a b) : Found R text (some a) (some b)
  | none : Found R [] none none

theorem Follows.attempt (h : Follows depth s R (x s) (m (s.cursor depth))) :
    Follows depth s (Found R) (Scan.attempt x s) (attempt m (s.cursor depth)) := by
  unfold Scan.attempt Run.attempt
  generalize x s = result at h
  generalize m (s.cursor depth) = outcome at h
  cases h with
  | ok hspan hrules hresult => exact .ok hspan hrules (.some hresult)
  | @error halt s' hrules =>
    cases halt with
    | miss => exact .ok (.refl _) hrules .none
    | tooDeep offset => exact .error hrules

end Follows

def Same {α : Type} (text : List Char) (a b : α) : Prop :=
  text ≠ [] ∧ a = b

/-- At every place of `input`, with `depth` groups open, the machine ends as the scan does. -/
def Implements {α β : Type} (input : String) (depth : Nat) (R : List Char → α → β → Prop) (x : Scan α)
    (m : Run β) : Prop :=
  ∀ s : Scanner, PlaceOf input s.position → Follows depth s R (x s) (m (s.cursor depth))

section Implements

variable {α β γ δ : Type} {input : String} {depth : Nat} {s : Scanner} {R : List Char → α → β → Prop}
  {S : List Char → γ → δ → Prop} {x : Scan α} {f : α → Scan γ} {m : Run β} {g : β → Run δ}

theorem Implements.within {rule : Rule} (h : Implements input depth R x m) :
    Implements input depth R (Scan.within rule x) (Run.within rule m) :=
  fun s hs => (h (s.enter rule) hs).within

theorem Implements.bind (hx : Implements input depth R x m)
    (hf : ∀ text a b, R text a b → Implements input depth (fun more => S (text ++ more)) (f a) (g b)) :
    Implements input depth S (x >>= f) (m >>= g) :=
  fun s hs => (hx s hs).bind fun text a b s₁ hspan hresult =>
    hf text a b hresult s₁ (hs.between hspan)

theorem implements_pure {a : α} {b : β} (h : R [] a b) :
    Implements input depth R (pure a : Scan α) (pure b : Run β) :=
  fun _ _ => follows_pure h

theorem follows_manyWithin {item : Run α} (hitem : Implements input depth Same x item)
    (bound : List Char) (found : List α) {fuel : Nat} (hs : PlaceOf input s.position)
    (hbound : s.position.rest.length ≤ bound.length) (hfuel : s.position.rest.length < fuel) :
    Follows depth s (fun _ as bs => as = bs) (Scan.manyWithin x bound found s)
      (many item fuel found (s.cursor depth)) := by
  induction bound generalizing found s fuel with
  | nil =>
    obtain ⟨fuel, rfl⟩ := Nat.exists_eq_add_one.mpr (Nat.zero_lt_of_lt hfuel)
    rw [Scan.manyWithin_nil, many]
    refine (hitem s hs).attempt.bind fun text a b s₁ hspan hfound => ?_
    cases hfound with
    | none => exact follows_pure rfl
    | some hsame =>
      -- A match would have read a character of the empty rest.
      have hlt := hspan.length_lt hsame.1
      rw [List.length_nil] at hbound
      omega
  | cons c bound ih =>
    obtain ⟨fuel, rfl⟩ := Nat.exists_eq_add_one.mpr (Nat.zero_lt_of_lt hfuel)
    rw [Scan.manyWithin_cons, many]
    refine (hitem s hs).attempt.bind fun text a b s₁ hspan hfound => ?_
    cases hfound with
    | none => exact follows_pure rfl
    | some hsame =>
      obtain ⟨hne, rfl⟩ := hsame
      have hlt := hspan.length_lt hne
      rw [List.length_cons] at hbound
      exact ih _ (hs.between hspan) (by omega) (by omega)

theorem Implements.many {item : Run α} {fuel : Nat} (hitem : Implements input depth Same x item)
    (hfuel : input.toList.length < fuel) :
    Implements input depth (fun _ as bs => as = bs) (Scan.many x) (Run.many item fuel []) :=
  fun _ hs => follows_manyWithin hitem _ _ hs le_rfl (hs.length_le.trans_lt hfuel)

theorem Implements.deeper (h : Implements input (depth + 1) R x m) :
    Implements input depth R x (Run.deeper m) := by
  intro s hs
  have hm : Run.deeper m (s.cursor depth) = (m (s.cursor (depth + 1))).map fun outcome =>
      (outcome.1, { outcome.2 with depth := outcome.2.depth - 1 }) := rfl
  have hrun := h s hs
  rw [hm]
  generalize x s = result at hrun
  generalize m (s.cursor (depth + 1)) = outcome at hrun
  cases hrun with
  | ok hspan hrules hresult => exact .ok hspan hrules hresult
  | error hrules => exact .error hrules

end Implements
end Run
end SearchFilter.Query
