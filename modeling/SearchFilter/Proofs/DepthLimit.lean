import Mathlib.Order.Bounds.Defs
import SearchFilter.Proofs.Reaching

/-! The nesting limit. A smaller limit changes a run of the parser only by stopping it, and it stops
exactly at the first group that starts inside as many open groups as the limit allows. -/

namespace SearchFilter.Query

open Text Phrase

namespace Scan

variable {α β : Type} {x y : Scan α} {f g : α → Scan β}

/-- Run from the same scanner, `x` does what `y` does or stops for the depth of a group. -/
def Refines (x y : Scan α) : Prop :=
  ∀ s, x s = y s ∨ ∃ o s', x s = .error (.tooDeep o) s'

theorem Refines.refl (x : Scan α) : Refines x x :=
  fun _ => .inl rfl

theorem Refines.eq_of_ok (h : Refines x y) {s s' : Scanner} {a : α} (hx : x s = .ok a s') :
    y s = .ok a s' := by
  rcases h s with heq | ⟨o, s₁, hs⟩
  · rw [← heq, hx]
  · cases hx.symm.trans hs

theorem Refines.eq_of_miss (h : Refines x y) {s s' : Scanner} (hx : x s = .error .miss s') :
    y s = .error .miss s' := by
  rcases h s with heq | ⟨o, s₁, hs⟩
  · rw [← heq, hx]
  · cases hx.symm.trans hs

theorem Refines.bind (hx : Refines x y) (hf : ∀ a, Refines (f a) (g a)) :
    Refines (x >>= f) (y >>= g) := by
  intro s
  change EStateM.bind x f s = EStateM.bind y g s ∨ ∃ o s', EStateM.bind x f s = _
  unfold EStateM.bind
  rcases hx s with heq | ⟨o, s', hs⟩
  · rw [heq]
    cases y s with
    | ok a s₁ => exact hf a s₁
    | error halt s₁ => exact .inl rfl
  · exact .inr ⟨o, s', by rw [hs]⟩

theorem Refines.within (h : Refines x y) (rule : Rule) :
    Refines (within rule x) (within rule y) := by
  intro s
  unfold Scan.within
  rcases h (s.enter rule) with heq | ⟨o, s', hs⟩
  · exact .inl (by rw [heq])
  · exact .inr ⟨o, s'.leave, by rw [hs]⟩

theorem Refines.attempt (h : Refines x y) : Refines (attempt x) (attempt y) := by
  intro s
  unfold Scan.attempt
  rcases h s with heq | ⟨o, s', hs⟩
  · exact .inl (by rw [heq])
  · exact .inr ⟨o, s', by rw [hs]⟩

theorem Refines.manyWithin (h : Refines x y) (bound : List Char) (found : List α) :
    Refines (manyWithin x bound found) (manyWithin y bound found) := by
  induction bound generalizing found with
  | nil =>
    rw [manyWithin_nil, manyWithin_nil]
    exact h.attempt.bind fun _ => .refl _
  | cons c bound ih =>
    rw [manyWithin_cons, manyWithin_cons]
    refine h.attempt.bind fun result => ?_
    cases result with
    | none => exact .refl _
    | some a => exact ih (a :: found)

theorem Refines.many (h : Refines x y) : Refines (many x) (many y) :=
  fun s => h.manyWithin s.position.rest [] s

end Scan

namespace Grammar

open Scan

section Refinement

variable {inside₁ inside₂ : Nat → Scan SyntaxTree}

theorem operands_refines {op : Tag} {separator operand₁ operand₂ : Scan SyntaxTree}
    (h : Refines operand₁ operand₂) :
    Refines (operands op separator operand₁) (operands op separator operand₂) := by
  refine h.bind fun head => ?_
  refine (Refines.many ?_).bind fun _ => .refl _
  exact (Refines.refl separator).bind fun _ => h.bind fun _ => .refl _

theorem primary_refines (h : ∀ opening, Refines (inside₁ opening) (inside₂ opening)) :
    Refines (primary inside₁) (primary inside₂) := by
  have hgroup : Refines (group inside₁) (group inside₂) := by
    apply Refines.within
    exact (Refines.refl offset).bind fun opening => (Refines.refl _).bind fun _ =>
      (h opening).bind fun _ => .refl _
  apply Refines.within
  exact hgroup.attempt.bind fun _ => .refl _

theorem orExprWith_refines (h : ∀ opening, Refines (inside₁ opening) (inside₂ opening)) :
    Refines (orExprWith inside₁) (orExprWith inside₂) :=
  (operands_refines ((operands_refines (primary_refines h)).within .andExpr)).within .orExpr

theorem inside_refines {room room' : Nat} (h : room ≤ room') (opening : Nat) :
    Refines (inside room opening) (inside room' opening) := by
  induction room generalizing room' opening with
  | zero => exact fun s => .inr ⟨opening, s, rfl⟩
  | succ room ih =>
    obtain ⟨room', rfl⟩ := Nat.exists_eq_add_one.mpr (Nat.lt_of_lt_of_le (Nat.succ_pos room) h)
    have hexpr : Refines (orExpr room) (orExpr room') := by
      rw [orExpr_eq, orExpr_eq]
      exact orExprWith_refines (ih (Nat.le_of_succ_le_succ h))
    exact (Refines.refl _).bind fun _ => hexpr.bind fun _ => .refl _

theorem query_refines {d d' : Nat} (h : d ≤ d') : Refines (query d) (query d') := by
  apply Refines.within
  refine (Refines.refl _).bind fun _ => ?_
  rw [orExpr_eq, orExpr_eq]
  exact (orExprWith_refines (inside_refines h)).bind fun _ => .refl _

end Refinement

end Grammar

section FirstDeep

variable {limit n : Nat} {input : String} {p q : Position} {t : SyntaxTree}

def DeepBefore (limit : Nat) (input : String) (q : Position) : Prop :=
  ∃ o, TooDeepAt limit input o ∧ o ≤ q.offset

theorem DeepBefore.mono (h : DeepBefore limit input p) (hpq : p.offset ≤ q.offset) :
    DeepBefore limit input q := by
  obtain ⟨o, ho, hle⟩ := h
  exact ⟨o, ho, hle.trans hpq⟩

theorem Consumes.offset_le {item : Phrase} (h : Consumes item) (ht : item p t q) :
    p.offset ≤ q.offset := by
  obtain ⟨text, -, hspan⟩ := h _ _ _ ht
  exact hspan.offset_le

def Surveyed (limit : Nat) (input : String) (n : Nat) (item : Phrase) : Prop :=
  ∀ p t q, OperandWithin limit input n p → item p t q →
    Limited (limit - n) item p t q ∨ DeepBefore limit input q

theorem surveyed_operands {op : Tag} {separator item : Phrase} (hop : op ≠ .paren)
    (hnesting : ∀ p t q, separator p t q → t.nesting = 0)
    (hseparator : ∀ p t q, separator p t q → Separator p t q)
    (hconsumes : Consumes separator) (hitems : Consumes item)
    (hend : ∀ p t q, OperandWithin limit input n p → Limited (limit - n) item p t q →
      AfterOperand limit input n q)
    (h : Surveyed limit input n item) :
    Surveyed limit input n (Operands op separator item) := by
  intro p t r hp ht
  obtain ⟨head, pairs, _, rfl, hhead, hpairs⟩ := ht.exists_chain
  rw [← operands_limited hop hnesting]
  have hpair : Consumes (Pair op separator item) := hconsumes.pair hitems
  -- Every further operand is surveyed from the end of the one before it.
  have hrest : ∀ {q ts r}, Star (Pair op separator item) q ts r → AfterOperand limit input n q →
      Star (Pair op separator (Limited (limit - n) item)) q ts r ∨ DeepBefore limit input r := by
    intro q ts r hts hq
    induction hts with
    | nil q => exact .inl (.nil q)
    | cons hpair' hts ih =>
      obtain ⟨hmark, hright⟩ := hpair'
      have hplace := hq.pass (hseparator _ _ _ hmark)
      rcases h _ _ _ hplace hright with hfits | hdeep
      · exact (ih (hend _ _ _ hplace hfits)).imp_left (.cons ⟨hmark, hfits⟩)
      · obtain ⟨text, -, hspan⟩ := hpair.star hts
        exact .inr (hdeep.mono hspan.offset_le)
  rcases h _ _ _ hp hhead with hfits | hdeep
  · exact (hrest hpairs (hend _ _ _ hp hfits)).imp_left (.of_star hfits)
  · obtain ⟨text, -, hspan⟩ := hpair.star hpairs
    exact .inr (hdeep.mono hspan.offset_le)

theorem surveyed_andExpr (h : Surveyed limit input n Primary) : Surveyed limit input n AndExpr :=
  surveyed_operands (by decide) AndSeparator.nesting_eq (fun _ _ _ => .and) AndSeparator.consumes
    Primary.consumes (fun p t _ hp ht => ⟨p, t, hp, ht⟩) h

theorem surveyed_orExpr (h : Surveyed limit input n Primary) : Surveyed limit input n OrExpr :=
  surveyed_operands (by decide) OrSeparator.nesting_eq (fun _ _ _ => .or) OrSeparator.consumes
    (AndSeparator.consumes.operands Primary.consumes) (fun _ _ _ => afterOperand_of_andExpr)
    (surveyed_andExpr h)

theorem surveyed_primary (n : Nat) : Surveyed limit input n Primary := by
  intro p t q hp ht
  cases ht with
  | word hword => exact .inl ⟨.word hword, by rw [hword.nesting_eq]; omega⟩
  | group hopen hbefore hinner hafter hclose =>
    rcases hp.le.eq_or_lt with rfl | hlt
    · have hle := Primary.consumes.offset_le (.group hopen hbefore hinner hafter hclose)
      exact .inr ⟨p.offset, ⟨p, hp, by simp [hopen.rest_eq], rfl⟩, hle⟩
    · have hplace := hp.enter hlt hopen hbefore
      rcases surveyed_orExpr (surveyed_primary (n + 1)) _ _ _ hplace hinner with ⟨-, hfits⟩ | hdeep
      · refine .inl ⟨.group hopen hbefore hinner hafter hclose, ?_⟩
        rw [SyntaxTree.nesting_tagged_one, if_pos rfl]
        omega
      · exact .inr (hdeep.mono (hafter.offset_le.trans hclose.offset_le))
termination_by limit - n

theorem OperandAt.within_or_deep (h : OperandAt (fun _ => Primary) input n p) :
    OperandWithin limit input n p ∨ DeepBefore limit input p := by
  refine h.induct (motive := fun n p =>
    OperandWithin limit input n p ∨ DeepBefore limit input p) ?_ ?_ ?_
  · intro gap p hgap
    exact .inl (.start limit hgap)
  · intro n p t q mark r _ ih ht hmark
    have hle := Separator.consumes.offset_le hmark
    rcases ih with hp | hdeep
    · rcases surveyed_primary _ _ _ _ hp ht with hfits | hdeep
      · exact .inl (hp.step hp.le (.pass hfits hmark))
      · exact .inr (hdeep.mono hle)
    · exact .inr (hdeep.mono ((Primary.consumes.offset_le ht).trans hle))
  · intro n p q gap r _ ih hopen hgap
    have hle := hopen.offset_le.trans hgap.offset_le
    rcases ih with hp | hdeep
    · rcases hp.le.lt_or_eq with hlt | rfl
      · exact .inl (hp.enter hlt hopen hgap)
      · exact .inr ⟨p.offset, ⟨p, hp, by simp [hopen.rest_eq], rfl⟩, hle⟩
    · exact .inr (hdeep.mono hle)

theorem GroupAt.exists_tooDeepAt {o : Nat} (h : GroupAt input limit o) :
    ∃ o', TooDeepAt limit input o' ∧ o' ≤ o := by
  obtain ⟨p, hp, hhead, rfl⟩ := h
  rcases hp.within_or_deep with hp | hdeep
  · exact ⟨p.offset, ⟨p, hp, hhead, rfl⟩, le_rfl⟩
  · exact hdeep

theorem TooDeepAt.groupAt {o : Nat} (h : TooDeepAt limit input o) : GroupAt input limit o := by
  obtain ⟨p, hp, hhead, rfl⟩ := h
  exact ⟨p, hp.reached.mono fun _ _ _ _ ht => ht.1, hhead, rfl⟩

theorem TooDeepAt.unique {o o' : Nat} (h : TooDeepAt limit input o) (h' : TooDeepAt limit input o') :
    o = o' := by
  obtain ⟨s, hs⟩ := Grammar.query_halts h (Scanner.start input.toList) rfl
  obtain ⟨s', hs'⟩ := Grammar.query_halts h' (Scanner.start input.toList) rfl
  rw [hs] at hs'
  cases hs'
  rfl

theorem tooDeepAt_iff_isLeast {o : Nat} :
    TooDeepAt limit input o ↔ IsLeast {o | GroupAt input limit o} o := by
  constructor
  · refine fun h => ⟨h.groupAt, fun o' ho' => ?_⟩
    obtain ⟨first, hfirst, hle⟩ := GroupAt.exists_tooDeepAt ho'
    exact (h.unique hfirst).trans_le hle
  · rintro ⟨hgroup, hleast⟩
    obtain ⟨first, hfirst, hle⟩ := GroupAt.exists_tooDeepAt hgroup
    obtain rfl : first = o := le_antisymm hle (hleast hfirst.groupAt)
    exact hfirst

end FirstDeep
end SearchFilter.Query

namespace SearchFilter

open Query

theorem parse_eq_tooDeep_iff {input : String} {d : Nat} (hd : d ≤ depthLimit) {o : Nat} :
    parse input d = .error (.tooDeep o d) ↔ IsLeast {o | GroupAt input d o} o := by
  rw [← tooDeepAt_iff_isLeast]
  constructor
  · intro h
    have hrun := Grammar.faithful_query d input (Scanner.start input.toList) rfl
      (Scanner.noted_start _ _)
    rcases parse_cases input hd with ⟨t, s, -, hparse⟩ | ⟨s, -, hparse⟩ | ⟨o', s, hs, hparse⟩
    · cases hparse.symm.trans h
    · cases hparse.symm.trans h
    · cases hparse.symm.trans h
      rw [hs] at hrun
      exact hrun
  · intro h
    obtain ⟨s, hs⟩ := Grammar.query_halts h (Scanner.start input.toList) rfl
    rw [parse, if_neg (Nat.not_lt.mpr hd), hs]

theorem parse_eq_or_tooDeep {input : String} {d d' : Nat} (hle : d ≤ d') (hd : d' ≤ depthLimit) :
    parse input d = parse input d' ∨ ∃ o, parse input d = .error (.tooDeep o d) := by
  rcases parse_cases input (hle.trans hd) with ⟨t, s, hs, hparse⟩ | ⟨s, hs, hparse⟩ | ⟨o, s, -, hparse⟩
  · left
    have hsame := (Grammar.query_refines hle).eq_of_ok hs
    rw [hparse, parse, if_neg (Nat.not_lt.mpr hd), hsame]
  · left
    have hsame := (Grammar.query_refines hle).eq_of_miss hs
    rw [hparse, parse, if_neg (Nat.not_lt.mpr hd), hsame]
  · exact .inr ⟨o, hparse⟩

/-- A smaller limit replaces a result only by an error that names the first group inside as many open
groups as it allows, and it accepts exactly the queries that nest no deeper. -/
theorem parse_depth (input : String) :
    (∀ d d', d ≤ d' → d' ≤ depthLimit → parse input d = parse input d' ∨
      ∃ o, parse input d = .error (.tooDeep o d) ∧ IsLeast {o | GroupAt input d o} o) ∧
    (∀ d t, d ≤ depthLimit →
      (parse input d = .ok t ↔ parse input depthLimit = .ok t ∧ t.nesting ≤ d)) ∧
    ∀ d, depthLimit < d → parse input d = .error (.depthLimitTooHigh d) := by
  refine ⟨fun d d' hle hd => ?_, fun d t hd => ?_, fun d => parse_of_lt⟩
  · refine (parse_eq_or_tooDeep hle hd).imp_right ?_
    rintro ⟨o, ho⟩
    exact ⟨o, ho, (parse_eq_tooDeep_iff (hle.trans hd)).mp ho⟩
  · rw [parse_eq_ok_iff_derives hd, parse_eq_ok_iff_derives le_rfl, and_assoc]
    exact and_congr_right fun _ => ⟨fun hn => ⟨hn.trans hd, hn⟩, And.right⟩

theorem parse_depth_two_levels :
    1 ≤ 2 ∧ 2 ≤ depthLimit ∧ parse "(a (b) )" 1 = .error (.tooDeep 3 1) ∧
      IsLeast {o | GroupAt "(a (b) )" 1 o} 3 ∧
      (∃ t, parse "(a (b) )" 2 = .ok t ∧ parse "(a (b) )" depthLimit = .ok t ∧ t.nesting ≤ 2) ∧
      depthLimit < 257 ∧ parse "(a (b) )" 257 = .error (.depthLimitTooHigh 257) := by
  obtain ⟨htwo, hok, hhigh⟩ := parse_depth "(a (b) )"
  have hread : (parse "(a (b) )" 2).isOk = true := by decide +kernel
  obtain ⟨t, ht⟩ := exists_eq_ok hread
  have hdeep : (parse "(a (b) )" 1) = .error (.tooDeep 3 1) := by decide +kernel
  refine ⟨by decide, by decide, hdeep, ?_, ⟨t, ht, (hok 2 t (by decide)).mp ht⟩, by decide,
    hhigh 257 (by decide)⟩
  rcases htwo 1 2 (by decide) (by decide) with heq | ⟨o, ho, hleast⟩
  · rw [hdeep, ht] at heq
    cases heq
  · rw [hdeep] at ho
    cases ho
    exact hleast

end SearchFilter
