import Mathlib.Logic.Relation
import SearchFilter.Proofs.Parsing

/-! The places of a text where an operand may start, each with the number of groups that are open
there. The first one comes after the blanks at the start; from one place to the next, an operand is
passed with the separator after it, or a group is opened. -/

namespace SearchFilter.Query

open Text Phrase Relation

inductive Separator : Phrase
  | or {p q : Position} {t : SyntaxTree} : OrSeparator p t q → Separator p t q
  | and {p q : Position} {t : SyntaxTree} : AndSeparator p t q → Separator p t q

theorem Separator.consumes : Consumes Separator := by
  rintro p t q (h | h)
  · exact OrSeparator.consumes _ _ _ h
  · exact AndSeparator.consumes _ _ _ h

/-- From a place inside `n` open groups to the next one, where the operands that may be passed inside
`n` groups are given by `operand n`. -/
inductive Step (operand : Nat → Phrase) : Nat × Position → Nat × Position → Prop
  | pass {n : Nat} {p q r : Position} {t mark : SyntaxTree} :
    operand n p t q → Separator q mark r → Step operand (n, p) (n, r)
  | enter {n : Nat} {p q r : Position} {gap : List Char} :
    Between p ['('] q → Gap q gap r → Step operand (n, p) (n + 1, r)

def OperandAt (operand : Nat → Phrase) (input : String) (n : Nat) (p : Position) : Prop :=
  ∃ gap q, Gap ⟨0, input.toList⟩ gap q ∧ ReflTransGen (Step operand) (0, q) (n, p)

def GroupAt (input : String) (n offset : Nat) : Prop :=
  ∃ p, OperandAt (fun _ => Primary) input n p ∧ p.rest.head? = some '(' ∧ p.offset = offset

/-- The operands inside `n` groups that open no more than `limit` groups at once. -/
def limited (limit n : Nat) : Phrase :=
  Limited (limit - n) Primary

/-- An operand may start at `p` inside `n` open groups, no more than `limit` being open at once before
it. -/
structure OperandWithin (limit : Nat) (input : String) (n : Nat) (p : Position) : Prop where
  le : n ≤ limit
  reached : OperandAt (limited limit) input n p

def AfterOperand (limit : Nat) (input : String) (n : Nat) (q : Position) : Prop :=
  ∃ p t, OperandWithin limit input n p ∧ limited limit n p t q

section Places

variable {operand operand' : Nat → Phrase} {input : String} {limit n : Nat} {p q r s : Position}
  {t mark : SyntaxTree} {gap : List Char}

theorem Step.mono (h : ∀ n p t q, operand n p t q → operand' n p t q) {a b : Nat × Position}
    (hs : Step operand a b) : Step operand' a b := by
  cases hs with
  | pass ht hmark => exact .pass (h _ _ _ _ ht) hmark
  | enter hopen hgap => exact .enter hopen hgap

theorem OperandAt.mono (h : ∀ n p t q, operand n p t q → operand' n p t q)
    (hp : OperandAt operand input n p) : OperandAt operand' input n p := by
  obtain ⟨gap, q, hgap, hsteps⟩ := hp
  exact ⟨gap, q, hgap, hsteps.lift id fun _ _ => Step.mono h⟩

theorem OperandAt.induct {motive : Nat → Position → Prop} (h : OperandAt operand input n p)
    (start : ∀ {gap p}, Gap ⟨0, input.toList⟩ gap p → motive 0 p)
    (pass : ∀ {n p t q mark r}, OperandAt operand input n p → motive n p → operand n p t q →
      Separator q mark r → motive n r)
    (enter : ∀ {n p q gap r}, OperandAt operand input n p → motive n p → Between p ['('] q →
      Gap q gap r → motive (n + 1) r) : motive n p := by
  obtain ⟨gap, first, hgap, hsteps⟩ := h
  generalize hb : (n, p) = b at hsteps
  induction hsteps generalizing n p with
  | refl =>
    obtain ⟨rfl, rfl⟩ := Prod.mk.inj hb
    exact start hgap
  | @tail c _ hsteps hstep ih =>
    subst hb
    obtain ⟨m, r⟩ := c
    cases hstep with
    | pass ht hmark => exact pass ⟨gap, first, hgap, hsteps⟩ (ih rfl) ht hmark
    | enter hopen hinner => exact enter ⟨gap, first, hgap, hsteps⟩ (ih rfl) hopen hinner

theorem steps_induct {motive : Nat → Position → Prop} {m : Nat}
    (hsteps : ReflTransGen (Step (limited limit)) (m, p) (n, q)) (hn : n ≤ limit) (last : motive n q)
    (pass : ∀ {n p t q mark r}, limited limit n p t q → Separator q mark r → motive n r → motive n p)
    (enter : ∀ {n p q gap r}, n + 1 ≤ limit → Between p ['('] q → Gap q gap r → motive (n + 1) r →
      motive n p) : m ≤ limit ∧ motive m p := by
  generalize ha : (m, p) = a at hsteps
  induction hsteps using ReflTransGen.head_induction_on generalizing m p with
  | refl =>
    obtain ⟨rfl, rfl⟩ := Prod.mk.inj ha
    exact ⟨hn, last⟩
  | head hstep _ ih =>
    subst ha
    cases hstep with
    | pass ht hmark =>
      obtain ⟨hm, hmotive⟩ := ih rfl
      exact ⟨hm, pass ht hmark hmotive⟩
    | enter hopen hinner =>
      obtain ⟨hm, hmotive⟩ := ih rfl
      exact ⟨by omega, enter hm hopen hinner hmotive⟩

theorem OperandWithin.mono {limit' : Nat} (hp : OperandWithin limit input n p)
    (hle : limit ≤ limit') : OperandWithin limit' input n p := by
  refine ⟨hp.le.trans hle, hp.reached.mono ?_⟩
  rintro n p t q ⟨ht, hn⟩
  exact ⟨ht, by omega⟩

theorem OperandWithin.start (limit : Nat) (hgap : Gap ⟨0, input.toList⟩ gap p) :
    OperandWithin limit input 0 p :=
  ⟨Nat.zero_le _, gap, p, hgap, .refl⟩

theorem OperandAt.step {m : Nat} (hp : OperandAt operand input n p)
    (hs : Step operand (n, p) (m, q)) : OperandAt operand input m q := by
  obtain ⟨gap, q', hgap, hsteps⟩ := hp
  exact ⟨gap, q', hgap, hsteps.tail hs⟩

theorem OperandWithin.step {m : Nat} (hp : OperandWithin limit input n p) (hm : m ≤ limit)
    (hs : Step (limited limit) (n, p) (m, q)) : OperandWithin limit input m q :=
  ⟨hm, hp.reached.step hs⟩

theorem OperandWithin.enter (hp : OperandWithin limit input n p) (hn : n < limit)
    (hopen : Between p ['('] q) (hgap : Gap q gap r) : OperandWithin limit input (n + 1) r :=
  hp.step hn (.enter hopen hgap)

theorem AfterOperand.pass (hq : AfterOperand limit input n q) (hmark : Separator q mark r) :
    OperandWithin limit input n r := by
  obtain ⟨p, t, hp, ht⟩ := hq
  exact hp.step hp.le (.pass ht hmark)

theorem afterOperand_of_operands {op : Tag} {separator item : Phrase}
    (hsep : ∀ p t q, separator p t q → Separator p t q)
    (hitem : ∀ p t q, OperandWithin limit input n p → item p t q → AfterOperand limit input n q)
    (hp : OperandWithin limit input n p) (h : Operands op separator item p t q) :
    AfterOperand limit input n q := by
  obtain ⟨head, pairs, _, rfl, hhead, hpairs⟩ := h.exists_chain
  have hq := hitem _ _ _ hp hhead
  clear h hp hhead
  induction hpairs with
  | nil q => exact hq
  | cons hpair _ ih =>
    obtain ⟨hmark, hright⟩ := hpair
    exact ih (hitem _ _ _ (hq.pass (hsep _ _ _ hmark)) hright)

theorem afterOperand_of_andExpr (hp : OperandWithin limit input n p)
    (h : Limited (limit - n) AndExpr p t q) : AfterOperand limit input n q := by
  rw [← operands_limited (by decide) AndSeparator.nesting_eq] at h
  exact afterOperand_of_operands (fun _ _ _ => .and) (fun p t _ hp ht => ⟨p, t, hp, ht⟩) hp h

theorem afterOperand_of_orExpr (hp : OperandWithin limit input n p)
    (h : Limited (limit - n) OrExpr p t q) : AfterOperand limit input n q := by
  rw [← operands_limited (by decide) OrSeparator.nesting_eq] at h
  exact afterOperand_of_operands (fun _ _ _ => .or) (fun _ _ _ => afterOperand_of_andExpr) hp h

end Places
end SearchFilter.Query
