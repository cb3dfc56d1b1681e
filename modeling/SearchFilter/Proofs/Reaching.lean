import SearchFilter.Proofs.Noting

/-! How far the parser gets. It comes to every place where an operand may start within the limit, and what
becomes of the run there is what becomes of the whole run, as long as later notes do not change it. -/

namespace SearchFilter.Query

open Text Phrase

theorem Between.length_lt {p q : Position} {text : List Char} (h : Between p text q) (hne : text ≠ []) :
    q.rest.length < p.rest.length := by
  rw [h.rest_eq, List.length_append]
  exact Nat.lt_add_of_pos_left (List.length_pos_iff.mpr hne)

namespace Scan

variable {α β : Type} {x item : Scan α} {f : α → Scan β} {p q r : Position}
  {P Q : Option Nat → Option Failure → Prop}

def halted : EStateM.Result Halt Scanner α → Option Nat
  | .error (.tooDeep offset) _ => some offset
  | _ => none

def Arrives (x : Scan α) (p : Position) (P : Option Nat → Option Failure → Prop) : Prop :=
  ∀ s : Scanner, s.position = p → P (halted (x s)) (final (x s)).furthest

/-- An outcome that further notes and a later halt do not change. -/
def Lasting (P : Option Nat → Option Failure → Prop) : Prop :=
  ∀ furthest, P none furthest → ∀ (notes : List Note) (halt : Option Nat),
    P halt (notes.foldl record furthest)

/-- The run stopped for depth, or it remembers a place at the offset or after it. -/
def Touches (offset : Nat) (halt : Option Nat) (furthest : Option Failure) : Prop :=
  halt ≠ none ∨ Reached offset furthest

def Halts (x : Scan α) (p : Position) (o : Nat) : Prop :=
  ∀ s : Scanner, s.position = p → ∃ s', x s = .error (.tooDeep o) s'

theorem halts_iff_arrives {o : Nat} : x.Halts p o ↔ x.Arrives p fun halt _ => halt = some o := by
  refine forall₂_congr fun s _ => ?_
  cases x s with
  | ok a s₁ => simp [halted]
  | error halt s₁ => cases halt <;> simp [halted]

theorem lasting_touches (offset : Nat) : Lasting (Touches offset) := by
  rintro furthest (h | h) notes halt
  · exact absurd rfl h
  · exact .inr h.foldl

theorem Arrives.mono (h : x.Arrives p P) (himp : ∀ halt furthest, P halt furthest → Q halt furthest) :
    x.Arrives p Q :=
  fun s hs => himp _ _ (h s hs)

theorem Arrives.within (h : x.Arrives p P) (rule : Rule) : (within rule x).Arrives p P := by
  intro s hs
  have hrun := h (s.enter rule) hs
  unfold Scan.within
  cases hx : x (s.enter rule) with
  | ok a s₁ =>
    rw [hx] at hrun
    exact hrun
  | error halt s₁ =>
    rw [hx] at hrun
    cases halt <;> exact hrun

theorem Arrives.attempt (h : x.Arrives p P) : (attempt x).Arrives p P := by
  intro s hs
  have hrun := h s hs
  unfold Scan.attempt
  cases hx : x s with
  | ok a s₁ =>
    rw [hx] at hrun
    exact hrun
  | error halt s₁ =>
    rw [hx] at hrun
    cases halt <;> exact hrun

theorem Reads.bind_arrives {a : α} (hx : x.Reads p a q) (hf : (f a).Arrives q P) :
    (x >>= f).Arrives p P := by
  intro s hs
  obtain ⟨s₁, hs₁, hq⟩ := hx s hs
  have hrun := hf s₁ hq
  change P (halted (EStateM.bind x f s)) (final (EStateM.bind x f s)).furthest
  simpa only [EStateM.bind, hs₁] using hrun

theorem Reads.of_sound {a : α} {R : Position → α → Position → Prop} (h : x.Reads p a q)
    (hsound : Sound x R) : R p a q := by
  obtain ⟨s, hs, rfl⟩ := h { position := p } rfl
  exact hsound _ _ _ hs

section Lasting

variable (hP : Lasting P)

include hP

theorem Arrives.bind (h : x.Arrives p P) (hf : ∀ a, Grows (f a)) : (x >>= f).Arrives p P := by
  intro s hs
  have hrun := h s hs
  change P (halted (EStateM.bind x f s)) (final (EStateM.bind x f s)).furthest
  unfold EStateM.bind
  cases hx : x s with
  | ok a s₁ =>
    rw [hx] at hrun
    obtain ⟨notes, -, hnotes, -⟩ := hf a s₁.rules s₁.position s₁ rfl rfl
    dsimp only
    rw [hnotes]
    exact hP _ hrun notes _
  | error halt s₁ =>
    rw [hx] at hrun
    cases halt <;> exact hrun

def LoopArrives (item : Scan α) (q : Position) (P : Option Nat → Option Failure → Prop) : Prop :=
  ∀ (bound : List Char) (found : List α), q.rest.length ≤ bound.length →
    (manyWithin item bound found).Arrives q P

omit hP in
theorem LoopArrives.many (h : LoopArrives item q P) : (many item).Arrives q P :=
  fun s hs => h s.position.rest [] (by rw [hs]) s hs

omit hP in
theorem LoopArrives.cons {a : α} (hitem : item.Reads q a r) (hlt : r.rest.length < q.rest.length)
    (h : LoopArrives item r P) : LoopArrives item q P := by
  intro bound found hbound
  cases bound with
  | nil => exact absurd hlt (Nat.not_lt.mpr (hbound.trans (Nat.zero_le _)))
  | cons c bound =>
    rw [manyWithin_cons]
    exact hitem.attempt.bind_arrives (h bound (a :: found) (Nat.le_of_lt_succ (hlt.trans_le hbound)))

theorem loopArrives_of_item (hgrows : Grows item) (h : item.Arrives q P) : LoopArrives item q P := by
  intro bound found _
  cases bound with
  | nil =>
    rw [manyWithin_nil]
    refine h.attempt.bind hP fun result rules => ?_
    cases result with
    | none => exact traced_pure _
    | some a => exact traced_pure _
  | cons c bound =>
    rw [manyWithin_cons]
    refine h.attempt.bind hP fun result rules => ?_
    cases result with
    | none => exact traced_pure _
    | some a => exact traced_manyWithin (hgrows rules) bound _

end Lasting

theorem loopArrives_touches {R : Position → α → Position → Prop} (hmarks : Grammar.Marks item)
    (hsound : Sound item R) (hconsumes : ∀ p a q, R p a q → ∃ text, text ≠ [] ∧ Between p text q)
    (q : Position) : LoopArrives item q (Touches q.offset) := by
  intro bound found hbound
  -- The loop ends with an item that is missed, and the miss is noted at its start or after it.
  induction bound generalizing found q with
  | nil =>
    rintro s rfl
    simp only [manyWithin, Scan.attempt]
    cases hitem : item s with
    | ok a s₁ =>
      obtain ⟨text, hne, hspan⟩ := hconsumes _ _ _ (hsound _ _ _ hitem)
      exact absurd (hspan.length_lt hne) (Nat.not_lt.mpr (hbound.trans (Nat.zero_le _)))
    | error halt s₁ =>
      cases halt with
      | miss => exact .inr (hmarks s s₁ hitem)
      | tooDeep offset => exact .inl (by simp [halted])
  | cons c bound ih =>
    rintro s rfl
    simp only [manyWithin, Scan.attempt]
    cases hitem : item s with
    | ok a s₁ =>
      obtain ⟨text, hne, hspan⟩ := hconsumes _ _ _ (hsound _ _ _ hitem)
      have hlater := ih s₁.position (a :: found)
        (Nat.le_of_lt_succ ((hspan.length_lt hne).trans_le hbound)) s₁ rfl
      exact hlater.imp_right fun h => h.mono hspan.offset_le
    | error halt s₁ =>
      cases halt with
      | miss => exact .inr (hmarks s s₁ hitem)
      | tooDeep offset => exact .inl (by simp [halted])

end Scan

namespace Grammar

open Scan

/-- Operands with separators between them, up to a place where the search for them ends. -/
inductive Chain (separator operand : Phrase) (stop : Position → Prop) : Position → Prop
  | here {p : Position} : stop p → Chain separator operand stop p
  | pass {p q r : Position} {t mark : SyntaxTree} :
    operand p t q → separator q mark r → Chain separator operand stop r →
    Chain separator operand stop p

def pairOf (op : Tag) (separator operand : Scan SyntaxTree) : Scan SyntaxTree := do
  let mark ← separator
  let right ← operand
  pure (SyntaxTree.pair op mark right)

theorem operands_eq (op : Tag) (separator operand : Scan SyntaxTree) :
    operands op separator operand = operand >>= fun head =>
      many (pairOf op separator operand) >>= fun pairs => pure (.chain head pairs) := rfl

section Chains

variable {P : Option Nat → Option Failure → Prop} {p q r : Position} {t mark : SyntaxTree}

theorem Chain.clear {separator operand : Phrase} {stop : Position → Prop}
    (h : Chain separator operand stop p) (hoperand : ∀ p t q, operand p t q → Clear p)
    (hstop : ∀ p, stop p → Clear p) : Clear p := by
  cases h with
  | here h => exact hstop p h
  | pass ht => exact hoperand _ _ _ ht

theorem Chain.arrives {op : Tag} {separator operand : Scan SyntaxTree} {S R : Phrase}
    {stop : Position → Prop} (hP : Lasting P) (hgrows : Grows separator) (hgrows' : Grows operand)
    (hsound : Sound operand R) (hconsumes : Consumes S) (hconsumes' : Consumes R)
    (hreads : ∀ {p t q mark r}, R p t q → S q mark r → Chain S R stop r →
      operand.Reads p t q ∧ separator.Reads q mark r)
    (hstop : ∀ p, stop p → operand.Arrives p P ∨
      ∃ t q, operand.Reads p t q ∧ LoopArrives (pairOf op separator operand) q P)
    (h : Chain S R stop p) : (operands op separator operand).Arrives p P := by
  have hpair : Grows (pairOf op separator operand) := fun rules =>
    (hgrows rules).bind fun _ => (hgrows' rules).bind fun _ => traced_pure _
  have hfirst : operand.Arrives p P ∨
      ∃ t q, operand.Reads p t q ∧ LoopArrives (pairOf op separator operand) q P := by
    induction h with
    | here h => exact hstop _ h
    | pass ht hmark hchain ih =>
      obtain ⟨hleft, hsep⟩ := hreads ht hmark hchain
      refine .inr ⟨_, _, hleft, ?_⟩
      rcases ih with harrives | ⟨t', q', hright, hloop⟩
      · exact loopArrives_of_item hP hpair
          (hsep.bind_arrives (harrives.bind hP fun _ _ => traced_pure _))
      · have hitem : (pairOf op separator operand).Reads _ (.pair op _ t') q' :=
          hsep.bind (hright.bind (reads_pure _ q'))
        obtain ⟨text, hne, hspan⟩ := hconsumes.pair hconsumes' _ _ _
          (show Pair op _ _ _ _ _ from .mk hmark (hright.of_sound hsound))
        exact hloop.cons hitem (hspan.length_lt hne)
  rw [operands_eq]
  rcases hfirst with harrives | ⟨t, q, hread, hloop⟩
  · exact harrives.bind hP fun _ rules => (hpair rules).many.bind fun _ => traced_pure _
  · exact hread.bind_arrives (hloop.many.bind hP fun _ _ => traced_pure _)

/-- Why a run that comes to the operand at `p`, with room for `room` levels, ends with `P`: what is found
at `p`, or the place where the operand ends. -/
inductive Ending (room : Nat) (P : Option Nat → Option Failure → Prop) (p : Position) : Prop
  | start : Clear p → (primary (inside room)).Arrives p P → Ending room P p
  | stop {q : Position} {t : SyntaxTree} : Limited room Primary p t q →
    (∀ halt furthest, Touches q.offset halt furthest → P halt furthest) → Ending room P p

def AndChain (room : Nat) (P : Option Nat → Option Failure → Prop) : Position → Prop :=
  Chain AndSeparator (Limited room Primary) (Ending room P)

def OrChain (room : Nat) (P : Option Nat → Option Failure → Prop) : Position → Prop :=
  Chain OrSeparator (Limited room AndExpr) (AndChain room P)

variable {room : Nat} {gap : List Char}

theorem grows_of_traced {α : Type} {x : Scan α} (h : ∀ rules, Traced literalRules rules x) : Grows x :=
  fun rules => (h rules).mono List.nil_prefix

theorem grows_primary (room : Nat) : Grows (primary (inside room)) :=
  grows_of_traced (traced_primary (traced_inside room))

theorem consumes_limited {item : Phrase} (h : Consumes item) (n : Nat) : Consumes (Limited n item) :=
  fun p t q ht => h p t q ht.1

theorem AndChain.clear (h : AndChain room P p) : Clear p := by
  refine Chain.clear h (fun _ _ _ ht => ht.1.clear) fun p hend => ?_
  cases hend with
  | start hclear => exact hclear
  | stop ht => exact ht.1.clear

theorem OrChain.clear (h : OrChain room P p) : Clear p :=
  Chain.clear h (fun _ _ _ ht => AndExpr.clear ht.1) fun _ => AndChain.clear

theorem AndChain.arrives (hP : Lasting P) (h : AndChain room P p) :
    (andExpr (inside room)).Arrives p P := by
  apply Arrives.within
  have hconsumes := consumes_limited Primary.consumes room
  refine Chain.arrives hP (fun rules => traced_andSeparator rules) (grows_primary room)
    (primary_inside_sound room) AndSeparator.consumes hconsumes ?_ ?_ h
  · intro p t q mark r ht hmark hchain
    exact ⟨reads_primary room _ _ _ ht, reads_andSeparator hmark (AndChain.clear hchain)⟩
  · intro p hend
    cases hend with
    | start _ harrives => exact .inl harrives
    | @stop q t ht himp =>
      refine .inr ⟨t, q, reads_primary room _ _ _ ht, ?_⟩
      have hmarks : Marks (pairOf .and andSeparator (primary (inside room))) := by
        refine marks_andSeparator.bind andSeparator_sound fun _ _ _ hmark => .inr ⟨?_, ?_⟩
        · obtain ⟨text, -, hspan⟩ := AndSeparator.consumes _ _ _ hmark
          exact hspan.offset_le
        · exact (marks_primary _).bind (sound_true _) fun _ _ _ _ => .inl (neverMisses_pure _)
      have hsound : Sound (pairOf .and andSeparator (primary (inside room)))
          (Pair .and AndSeparator (Limited room Primary)) := by
        intro s t s' h
        obtain ⟨mark, s₁, hmark, h⟩ := bind_eq_ok.mp h
        obtain ⟨right, s₂, hright, h⟩ := bind_eq_ok.mp h
        obtain ⟨rfl, rfl⟩ := pure_eq_ok.mp h
        exact ⟨andSeparator_sound _ _ _ hmark, primary_inside_sound room _ _ _ hright⟩
      intro bound found hbound
      exact (loopArrives_touches hmarks hsound (AndSeparator.consumes.pair hconsumes) q bound found
        hbound).mono himp

theorem OrChain.arrives (hP : Lasting P) (h : OrChain room P p) : (orExpr room).Arrives p P := by
  rw [orExpr_eq]
  apply Arrives.within
  have hsound : Sound (andExpr (inside room)) (Limited room AndExpr) := by
    rw [← operands_limited (by decide) AndSeparator.nesting_eq]
    exact (operands_sound andSeparator_sound (primary_inside_sound room)).within .andExpr
  refine Chain.arrives hP (fun rules => traced_orSeparator rules)
    (grows_of_traced (traced_andExpr (traced_inside room))) hsound OrSeparator.consumes
    (consumes_limited (AndSeparator.consumes.operands Primary.consumes) room) ?_ ?_ h
  · intro p t q mark r ht hmark hchain
    have hclear := OrChain.clear hchain
    exact ⟨reads_andExpr (reads_primary room) ht (noAnd_of_orSeparator hmark hclear),
      reads_orSeparator hmark hclear⟩
  · exact fun p hand => .inl (AndChain.arrives hP hand)

theorem OrChain.cons (h : OrChain room P r) (ht : Limited room Primary p t q)
    (hmark : Separator q mark r) : OrChain room P p := by
  cases hmark with
  | or hmark =>
    have hsingle : Limited room AndExpr p (.chain t []) q := by
      rw [← operands_limited (by decide) AndSeparator.nesting_eq]
      exact .of_star ht (.nil q)
    exact .pass hsingle hmark h
  | and hmark =>
    -- The operand joins the first operands of `and`, which may end before an `or`.
    cases h with
    | here hand => exact .here (.pass ht hmark hand)
    | pass hfirst hor hrest =>
      rw [← operands_limited (by decide) AndSeparator.nesting_eq] at hfirst
      obtain ⟨left, rights, _, rfl, hleft, hrights⟩ := hfirst.exists_chain
      have hjoined := Operands.of_star ht (.cons ⟨hmark, hleft⟩ hrights)
      rw [operands_limited (by decide) AndSeparator.nesting_eq] at hjoined
      exact .pass hjoined hor hrest

theorem primary_arrives (hP : Lasting P) (hopen : Between p ['('] q)
    (h : (inside room p.offset).Arrives q P) : (primary (inside room)).Arrives p P := by
  apply Arrives.within
  refine Arrives.bind hP (Arrives.attempt ?_) fun grouped rules => ?_
  · apply Arrives.within
    exact (reads_offset p).bind_arrives ((reads_char hopen).bind_arrives
      (h.bind hP fun _ _ => traced_pure _))
  · cases grouped with
    | some tree => exact traced_pure _
    | none => exact (traced_word rules).mono List.nil_prefix

theorem OrChain.enter (hP : Lasting P) (h : OrChain room P r) (hopen : Between p ['('] q)
    (hgap : Gap q gap r) : OrChain (room + 1) P p := by
  refine .here (.here (.start (clear_of_opening (by simp [hopen.rest_eq])) (primary_arrives hP hopen ?_)))
  refine (reads_blanks hgap h.clear.not_blank).bind_arrives ((h.arrives hP).bind hP fun _ rules => ?_)
  exact traced_blanks.bind fun _ => (traced_char ')').bind fun _ => traced_pure _

theorem query_arrives {limit n : Nat} {input : String} (hP : Lasting P)
    (h : OperandWithin limit input n p) (hend : Ending (limit - n) P p) :
    (query limit).Arrives ⟨0, input.toList⟩ P := by
  obtain ⟨hn, gap, q, hgap, hsteps⟩ := h
  obtain ⟨-, hchain⟩ := steps_induct (motive := fun n q => OrChain (limit - n) P q) hsteps hn
    (.here (.here hend)) (fun ht hmark h => h.cons ht hmark) fun {n} _ _ _ _ hn hopen hgap h => by
      rw [show limit - n = limit - (n + 1) + 1 by omega]
      exact h.enter hP hopen hgap
  apply Arrives.within
  refine (reads_blanks hgap (OrChain.clear hchain).not_blank).bind_arrives
    ((OrChain.arrives hP hchain).bind hP fun _ rules => ?_)
  exact traced_blanks.bind fun _ => traced_endOfInput.bind fun _ => traced_pure _

theorem query_touches {limit n : Nat} {input : String} (h : AfterOperand limit input n q) :
    (query limit).Arrives ⟨0, input.toList⟩ (Touches q.offset) := by
  obtain ⟨p, t, hp, ht⟩ := h
  exact query_arrives (lasting_touches _) hp (.stop ht fun _ _ h => h)

theorem query_halts {limit o : Nat} {input : String} (h : TooDeepAt limit input o) :
    (query limit).Halts ⟨0, input.toList⟩ o := by
  obtain ⟨p, hp, hhead, rfl⟩ := h
  obtain ⟨rest, hrest⟩ := List.head?_eq_some_iff.mp hhead
  have hopen : Between p ['('] (p.advance ['(']) := between_advance ⟨rest, by simp [hrest]⟩
  -- No alternative is tried after a group that is too deep, so nothing later changes the halt.
  have hlasting : Lasting fun halt _ => halt = some p.offset := fun _ h => nomatch h
  rw [halts_iff_arrives]
  refine query_arrives hlasting hp (.start (clear_of_opening hhead) (primary_arrives hlasting hopen ?_))
  rw [Nat.sub_self]
  exact fun _ _ => rfl

end Chains
end Grammar
end SearchFilter.Query
