import SearchFilter.Proofs.Places
import SearchFilter.Proofs.Tracing

/-! What a run of the parser notes. A scanner notes an expectation only where the grammar awaits it:
where an operand may start, at the end of one, after the blanks that follow it, after an `and`, or at
the end of a text that leaves a literal open. -/

namespace SearchFilter.Query

open Text Phrase

def Scanner.Noted (G : Nat → Expectation → Prop) (s : Scanner) : Prop :=
  ∀ f ∈ s.furthest, f.expected ≠ [] ∧ ∀ what ∈ f.expected, G f.offset what

theorem Scanner.noted_start (G : Nat → Expectation → Prop) (input : List Char) :
    (Scanner.start input).Noted G := by
  intro f hf
  cases hf

theorem Scanner.Noted.expect {G : Nat → Expectation → Prop} {s : Scanner} {what : Expectation}
    (h : s.Noted G) (hwhat : G s.position.offset what) : (s.expect what).Noted G := by
  rw [s.expect_eq]
  intro g hg
  rcases record_cases s.furthest ⟨s.position.offset, what, s.rules⟩ with
    ⟨hrecord, -⟩ | ⟨f, hf, -, -, hrecord⟩ | ⟨f, hf, hoffset, -, hrecord⟩
  all_goals obtain rfl := Option.mem_unique hg hrecord
  · exact ⟨List.cons_ne_nil _ _, List.forall_mem_singleton.mpr hwhat⟩
  · exact h g hf
  · refine ⟨by simp, fun w hw => ?_⟩
    rcases List.mem_append.mp hw with hw | hw
    · exact (h f hf).2 w hw
    · rw [List.mem_singleton.mp hw]
      exact hoffset ▸ hwhat

namespace Scan

section Keeps

variable {α β : Type} {x : Scan α} {f : α → Scan β} {p q : Position}
  {G : Nat → Expectation → Prop} {D : Nat → Prop}

/-- The notes at the end of a run satisfy `G`, or it stopped for the depth of a group whose offset
satisfies `D`. -/
def Allowed (G : Nat → Expectation → Prop) (D : Nat → Prop) : EStateM.Result Halt Scanner α → Prop
  | .ok _ s => s.Noted G
  | .error .miss s => s.Noted G
  | .error (.tooDeep offset) _ => D offset

def Keeps (G : Nat → Expectation → Prop) (D : Nat → Prop) (x : Scan α) (p : Position) : Prop :=
  ∀ s : Scanner, s.position = p → s.Noted G → Allowed G D (x s)

theorem keeps_pure (a : α) (p : Position) : Keeps G D (pure a : Scan α) p :=
  fun _ _ hs => hs

theorem keeps_missing {what : Expectation} (h : G p.offset what) :
    Keeps G D (missing what : Scan α) p := by
  rintro s rfl hs
  exact hs.expect h

theorem Keeps.bind {item : Position → α → Position → Prop} (hx : Keeps G D x p)
    (hsound : Sound x item) (hf : ∀ a q, item p a q → Keeps G D (f a) q) :
    Keeps G D (x >>= f) p := by
  rintro s rfl hs
  have hrun := hx s rfl hs
  change Allowed G D (EStateM.bind x f s)
  unfold EStateM.bind
  cases hxs : x s with
  | ok a s₁ =>
    rw [hxs] at hrun
    exact hf a s₁.position (hsound _ _ _ hxs) s₁ rfl hrun
  | error halt s₁ =>
    rw [hxs] at hrun
    cases halt <;> exact hrun

theorem Keeps.within (h : Keeps G D x p) (rule : Rule) : Keeps G D (within rule x) p := by
  intro s hs hnoted
  have hrun := h (s.enter rule) hs hnoted
  unfold Scan.within
  cases hx : x (s.enter rule) with
  | ok a s₁ =>
    rw [hx] at hrun
    exact hrun
  | error halt s₁ =>
    rw [hx] at hrun
    cases halt <;> exact hrun

theorem Keeps.attempt (h : Keeps G D x p) : Keeps G D (attempt x) p := by
  intro s hs hnoted
  have hrun := h s hs hnoted
  unfold Scan.attempt
  cases hx : x s with
  | ok a s₁ =>
    rw [hx] at hrun
    exact hrun
  | error halt s₁ =>
    rw [hx] at hrun
    cases halt <;> exact hrun

section Many

variable {item : Scan α} {R : Position → α → Position → Prop} {I : Position → Prop}

theorem manyWithin_keeps (hsound : Sound item R) (hkeeps : ∀ q, I q → Keeps G D item q)
    (hstep : ∀ q a r, I q → R q a r → I r) (bound : List Char) (found : List α) (hp : I p) :
    Keeps G D (manyWithin item bound found) p := by
  induction bound generalizing found p with
  | nil =>
    rw [manyWithin_nil]
    refine (hkeeps p hp).attempt.bind (attempt_sound hsound) fun result q _ => ?_
    cases result with
    | none => exact keeps_pure _ q
    | some a => exact keeps_pure _ q
  | cons c bound ih =>
    rw [manyWithin_cons]
    refine (hkeeps p hp).attempt.bind (attempt_sound hsound) fun result q hresult => ?_
    cases result with
    | none => exact keeps_pure _ q
    | some a => exact ih (a :: found) (hstep p a q hp hresult)

theorem many_keeps (hsound : Sound item R) (hkeeps : ∀ q, I q → Keeps G D item q)
    (hstep : ∀ q a r, I q → R q a r → I r) (hp : I p) : Keeps G D (many item) p := by
  rintro s rfl hs
  exact manyWithin_keeps hsound hkeeps hstep s.position.rest [] hp s rfl hs

end Many

theorem keeps_offset_bind {f : Nat → Scan β} (h : Keeps G D (f p.offset) p) :
    Keeps G D (offset >>= f) p := by
  rintro s rfl hs
  exact h s rfl hs

theorem keeps_blanks (p : Position) : Keeps G D blanks p :=
  fun _ _ hs => hs

theorem keeps_whitespace (h : G p.offset .whitespace) : Keeps G D whitespace p := by
  rw [whitespace_eq]
  -- Blanks that are missed were to start here.
  refine (keeps_blanks p).bind blanks_sound fun run q hrun => ?_
  split
  · next hnil =>
    subst hnil
    rw [hrun.toBetween.eq_advance]
    exact keeps_missing h
  · exact keeps_pure run q

theorem keeps_char {c : Char} (h : G p.offset (.char c)) : Keeps G D (char c) p := by
  rintro s rfl hs
  by_cases hc : s.position.rest.head? = some c
  · rw [char, if_pos hc]
    exact hs
  · rw [char, if_neg hc]
    exact hs.expect h

theorem keeps_keyword {op : Connective} (h : G p.offset (.keyword op)) :
    Keeps G D (keyword op) p := by
  rintro s rfl hs
  by_cases hrun : bareRun s.position.rest = op.keyword.toList
  · simp only [keyword, if_pos hrun]
    exact hs
  · simp only [keyword, if_neg hrun]
    exact hs.expect h

theorem keeps_bareWord (h : G p.offset .word) : Keeps G D bareWord p := by
  rintro s rfl hs
  by_cases hword : isWord (bareRun s.position.rest) = true
  · simp only [bareWord, if_pos hword]
    exact hs
  · simp only [bareWord, if_neg hword]
    exact hs.expect h

theorem keeps_endOfInput (h : G p.offset .endOfInput) : Keeps G D endOfInput p := by
  rintro s rfl hs
  by_cases hrest : s.position.rest.isEmpty = true
  · rw [endOfInput, if_pos hrest]
    exact hs
  · rw [endOfInput, if_neg hrest]
    exact hs.expect h

theorem keeps_literal (h : ∀ quote rest, p.rest = quote :: rest → isQuote quote = true →
    literalBody quote [] rest = none → G (p.advance p.rest).offset (.closingQuote quote)) :
    Keeps G D literal p := by
  rintro s rfl hs
  rcases literal_cases s with ⟨-, hscan⟩ |
    ⟨quote, text, hquote, hrest, ⟨body, rest, -, -, hscan⟩ | ⟨hopen, hscan⟩⟩
  all_goals rw [hscan]
  · exact hs
  · exact hs
  · exact Scanner.Noted.expect hs (h quote text hrest hquote hopen)

end Keeps
end Scan

/-- Where the parser, with no more than `limit` groups open at once, notes an expectation: the offset
of the place and what the grammar awaits there. -/
inductive Awaited (limit : Nat) (input : String) : Nat → Expectation → Prop
  | group {n : Nat} {p : Position} :
    OperandWithin limit input n p → Awaited limit input p.offset (.char '(')
  | word {n : Nat} {p : Position} :
    OperandWithin limit input n p → Awaited limit input p.offset .word
  | closingQuote {n : Nat} {p : Position} {quote : Char} {rest : List Char} :
    OperandWithin limit input n p → p.rest = quote :: rest → isQuote quote = true →
    Scan.literalBody quote [] rest = none →
    Awaited limit input (p.advance p.rest).offset (.closingQuote quote)
  | separator {n : Nat} {q : Position} :
    AfterOperand limit input n q → Awaited limit input q.offset .whitespace
  | or {n : Nat} {q r : Position} {gap : List Char} :
    AfterOperand limit input n q → Gap q gap r → Awaited limit input r.offset (.keyword .or)
  | and {n : Nat} {q r : Position} {gap : List Char} :
    AfterOperand limit input n q → Gap q gap r → gap ≠ [] →
    Awaited limit input r.offset (.keyword .and)
  | afterAnd {n : Nat} {q r s : Position} {gap : List Char} :
    AfterOperand limit input n q → Gap q gap r → gap ≠ [] →
    BareRun r Connective.and.keyword.toList s → Awaited limit input s.offset .whitespace
  | close {n : Nat} {q r : Position} {gap : List Char} :
    AfterOperand limit input (n + 1) q → Gap q gap r → Awaited limit input r.offset (.char ')')
  | endOfInput {q r : Position} {gap : List Char} :
    AfterOperand limit input 0 q → Gap q gap r → Awaited limit input r.offset .endOfInput

/-- A group starts at `offset` inside `limit` open groups, and none before it did. -/
def TooDeepAt (limit : Nat) (input : String) (offset : Nat) : Prop :=
  ∃ p, OperandWithin limit input limit p ∧ p.rest.head? = some '(' ∧ p.offset = offset

namespace Grammar

open Scan

abbrev Faithful {α : Type} (limit : Nat) (input : String) (x : Scan α) (p : Position) : Prop :=
  Keeps (Awaited limit input) (TooDeepAt limit input) x p

section Faithful

variable {limit n room : Nat} {input : String} {p q : Position}

theorem faithful_word (hp : OperandWithin limit input n p) : Faithful limit input word p := by
  apply Keeps.within
  apply keeps_offset_bind
  have hliteral : Faithful limit input literal p := keeps_literal fun _ _ => .closingQuote hp
  refine (hliteral.within .quotedString).attempt.bind (attempt_sound (sound_true _))
    fun quoted q hq => ?_
  cases quoted with
  | some body => exact keeps_pure _ q
  | none =>
    obtain rfl : q = p := hq
    exact ((keeps_bareWord (.word hp)).within .rawWord).bind (sound_true _)
      fun _ r _ => keeps_pure _ r

theorem faithful_primary {inside : Nat → Scan SyntaxTree} (hp : OperandWithin limit input n p)
    (hinside : ∀ q, Between p ['('] q → Faithful limit input (inside p.offset) q) :
    Faithful limit input (primary inside) p := by
  apply Keeps.within
  have hgroup : Faithful limit input (group inside) p := by
    apply Keeps.within
    apply keeps_offset_bind
    refine (keeps_char (.group hp)).bind (char_sound '(') fun _ q hq => ?_
    exact (hinside q hq).bind (sound_true _) fun _ r _ => keeps_pure _ r
  refine hgroup.attempt.bind (attempt_sound (sound_true _)) fun grouped q hq => ?_
  cases grouped with
  | some tree => exact keeps_pure _ q
  | none =>
    obtain rfl : q = p := hq
    exact faithful_word hp

theorem faithful_andSeparator (hq : AfterOperand limit input n q) :
    Faithful limit input andSeparator q := by
  apply Keeps.within
  apply keeps_offset_bind
  refine (keeps_whitespace (.separator hq)).bind whitespace_sound fun _ r hr => ?_
  refine (keeps_keyword (.and hq hr.1 hr.2)).bind (keyword_sound .and) fun _ s hs => ?_
  obtain ⟨hname, rfl⟩ := hs
  exact (keeps_whitespace (.afterAnd hq hr.1 hr.2 hname)).bind (sound_true _)
    fun _ u _ => keeps_pure _ u

theorem faithful_orSeparator (hq : AfterOperand limit input n q) :
    Faithful limit input orSeparator q := by
  apply Keeps.within
  apply keeps_offset_bind
  refine Keeps.bind (Keeps.attempt ?_) (attempt_sound (sound_true _)) fun spelled r hr => ?_
  · refine (keeps_blanks q).bind blanks_sound fun _ r hr => ?_
    refine (keeps_keyword (.or hq hr)).bind (sound_true _) fun _ s _ => ?_
    exact (keeps_blanks s).bind (sound_true _) fun _ u _ => keeps_pure _ u
  · cases spelled with
    | some text => exact keeps_pure _ r
    | none =>
      obtain rfl : r = q := hr
      exact (keeps_whitespace (.separator hq)).bind (sound_true _) fun _ u _ => keeps_pure _ u

theorem faithful_operands {op : Tag} {separator operand : Scan SyntaxTree} {S R : Phrase}
    (hS : Sound separator S) (hR : Sound operand R)
    (hpass : ∀ p t q, S p t q → Separator p t q)
    (hend : ∀ p t q, OperandWithin limit input n p → R p t q → AfterOperand limit input n q)
    (hseparator : ∀ q, AfterOperand limit input n q → Faithful limit input separator q)
    (hoperand : ∀ p, OperandWithin limit input n p → Faithful limit input operand p)
    (hp : OperandWithin limit input n p) :
    Faithful limit input (operands op separator operand) p := by
  refine (hoperand p hp).bind hR fun head q hq => ?_
  have hitem : Sound (separator >>= fun mark => operand >>= fun right =>
      pure (SyntaxTree.pair op mark right)) (Pair op S R) := by
    intro s t s' h
    obtain ⟨mark, s₁, hmark, h⟩ := bind_eq_ok.mp h
    obtain ⟨right, s₂, hright, h⟩ := bind_eq_ok.mp h
    obtain ⟨rfl, rfl⟩ := pure_eq_ok.mp h
    exact ⟨hS _ _ _ hmark, hR _ _ _ hright⟩
  refine (many_keeps (I := AfterOperand limit input n) hitem ?_ ?_ (hend p head q hp hq)).bind
    (sound_true _) fun _ r _ => keeps_pure _ r
  · intro q hq
    refine (hseparator q hq).bind hS fun _ r hr => ?_
    exact (hoperand r (hq.pass (hpass _ _ _ hr))).bind (sound_true _) fun _ s _ => keeps_pure _ s
  · rintro q t r hq ⟨hmark, hright⟩
    exact hend _ _ _ (hq.pass (hpass _ _ _ hmark)) hright

theorem faithful_orExprWith {inside : Nat → Scan SyntaxTree}
    (hsound : Sound (primary inside) (limited limit n))
    (hprimary : ∀ p, OperandWithin limit input n p → Faithful limit input (primary inside) p)
    (hp : OperandWithin limit input n p) : Faithful limit input (orExprWith inside) p := by
  have hand : ∀ p, OperandWithin limit input n p → Faithful limit input (andExpr inside) p := by
    intro p hp
    apply Keeps.within
    exact faithful_operands andSeparator_sound hsound (fun _ _ _ => .and)
      (fun p t _ hp ht => ⟨p, t, hp, ht⟩) (fun _ => faithful_andSeparator) hprimary hp
  have handSound : Sound (andExpr inside) (Limited (limit - n) AndExpr) := by
    rw [← operands_limited (by decide) AndSeparator.nesting_eq]
    exact (operands_sound andSeparator_sound hsound).within .andExpr
  apply Keeps.within
  exact faithful_operands orSeparator_sound handSound (fun _ _ _ => .or)
    (fun _ _ _ => afterOperand_of_andExpr) (fun _ => faithful_orSeparator) hand hp

theorem faithful_orExpr (hroom : n + room = limit) (hp : OperandWithin limit input n p) :
    Faithful limit input (orExpr room) p := by
  induction room generalizing n p with
  | zero =>
    rw [orExpr_eq]
    have hsound : Sound (primary (inside 0)) (limited limit n) := by
      rw [limited, show limit - n = 0 by omega]
      exact primary_inside_sound 0
    refine faithful_orExprWith hsound (fun p hp => faithful_primary hp fun q hopen => ?_) hp
    obtain rfl : n = limit := hroom
    exact fun _ _ _ => ⟨p, hp, by simp [hopen.rest_eq], rfl⟩
  | succ room ih =>
    rw [orExpr_eq]
    have hsound : Sound (primary (inside (room + 1))) (limited limit n) := by
      rw [limited, show limit - n = room + 1 by omega]
      exact primary_inside_sound (room + 1)
    refine faithful_orExprWith hsound (fun p hp => faithful_primary hp fun q hopen => ?_) hp
    refine (keeps_blanks q).bind blanks_sound fun _ r hr => ?_
    have hwithin := hp.enter (by omega) hopen hr
    refine (ih (by omega) hwithin).bind (orExpr_sound room) fun _ s hs => ?_
    rw [show room = limit - (n + 1) by omega] at hs
    have hafter := afterOperand_of_orExpr hwithin hs
    refine (keeps_blanks s).bind blanks_sound fun _ u hu => ?_
    exact (keeps_char (.close hafter hu)).bind (sound_true _) fun _ v _ => keeps_pure _ v

theorem faithful_query (limit : Nat) (input : String) :
    Faithful limit input (query limit) ⟨0, input.toList⟩ := by
  apply Keeps.within
  refine (keeps_blanks _).bind blanks_sound fun _ p hp => ?_
  have hwithin := OperandWithin.start limit hp
  refine (faithful_orExpr (Nat.zero_add limit) hwithin).bind (orExpr_sound limit) fun _ q hq => ?_
  have hafter := afterOperand_of_orExpr hwithin hq
  refine (keeps_blanks q).bind blanks_sound fun _ r hr => ?_
  exact (keeps_endOfInput (.endOfInput hafter hr)).bind (sound_true _) fun _ s _ => keeps_pure _ s

end Faithful

section Marks

variable {α β : Type} {x : Scan α} {f : α → Scan β}

/-- A miss leaves a note where the scan began or after it. -/
def Marks (x : Scan α) : Prop :=
  ∀ s s', x s = .error .miss s' → Reached s.position.offset s'.furthest

def NeverMisses (x : Scan α) : Prop :=
  ∀ s s', x s ≠ .error .miss s'

theorem NeverMisses.marks (h : NeverMisses x) : Marks x :=
  fun s s' hs => absurd hs (h s s')

theorem neverMisses_pure (a : α) : NeverMisses (pure a : Scan α) := by
  rintro s s' ⟨⟩

theorem neverMisses_attempt (x : Scan α) : NeverMisses (attempt x) := by
  intro s s' hs
  unfold attempt at hs
  split at hs <;> cases hs

theorem bind_eq_miss {s s' : Scanner} (h : (x >>= f) s = .error .miss s') :
    x s = .error .miss s' ∨ ∃ a s₁, x s = .ok a s₁ ∧ f a s₁ = .error .miss s' := by
  change EStateM.bind x f s = _ at h
  unfold EStateM.bind at h
  cases hxs : x s with
  | ok a s₁ =>
    rw [hxs] at h
    exact .inr ⟨a, s₁, rfl, h⟩
  | error halt s₁ =>
    rw [hxs] at h
    cases h
    exact .inl rfl

theorem NeverMisses.bind (hx : NeverMisses x) (hf : ∀ a, NeverMisses (f a)) : NeverMisses (x >>= f) := by
  intro s s' hs
  rcases bind_eq_miss hs with hs | ⟨a, s₁, -, hs⟩
  · exact hx s s' hs
  · exact hf a s₁ s' hs

theorem neverMisses_many (x : Scan α) : NeverMisses (many x) := by
  suffices h : ∀ bound found, NeverMisses (manyWithin x bound found) from
    fun s => h s.position.rest [] s
  intro bound
  induction bound with
  | nil =>
    intro found
    rw [manyWithin_nil]
    refine (neverMisses_attempt x).bind fun result => ?_
    cases result with
    | none => exact neverMisses_pure _
    | some a => exact neverMisses_pure _
  | cons c bound ih =>
    intro found
    rw [manyWithin_cons]
    refine (neverMisses_attempt x).bind fun result => ?_
    cases result with
    | none => exact neverMisses_pure _
    | some a => exact ih (a :: found)

theorem Marks.bind {item : Position → α → Position → Prop} (hx : Marks x) (hsound : Sound x item)
    (hf : ∀ p a q, item p a q → NeverMisses (f a) ∨ p.offset ≤ q.offset ∧ Marks (f a)) :
    Marks (x >>= f) := by
  intro s s' hs
  rcases bind_eq_miss hs with hs | ⟨a, s₁, hok, hs⟩
  · exact hx s s' hs
  · rcases hf _ _ _ (hsound s a s₁ hok) with hnever | ⟨hle, hmarks⟩
    · exact absurd hs (hnever s₁ s')
    · exact (hmarks s₁ s' hs).mono hle

theorem Marks.within (h : Marks x) (rule : Rule) : Marks (within rule x) := by
  intro s s' hs
  unfold Scan.within at hs
  cases hx : x (s.enter rule) with
  | ok a s₁ => simp [hx] at hs
  | error halt s₁ =>
    rw [hx] at hs
    cases hs
    exact h (s.enter rule) s₁ hx

theorem marks_offset_bind {f : Nat → Scan β} (h : ∀ start, Marks (f start)) : Marks (offset >>= f) :=
  fun s s' hs => h s.position.offset s s' hs

theorem marks_missing (what : Expectation) : Marks (missing what : Scan α) := by
  rintro s s' ⟨⟩
  rw [s.expect_eq]
  exact reached_record _ _

theorem neverMisses_blanks : NeverMisses blanks := by
  rintro s s' ⟨⟩

theorem marks_whitespace : Marks whitespace := by
  rw [whitespace_eq]
  refine neverMisses_blanks.marks.bind blanks_sound fun p run q hgap => ?_
  split
  · exact .inr ⟨hgap.offset_le, marks_missing _⟩
  · exact .inl (neverMisses_pure _)

theorem marks_keyword (op : Connective) : Marks (keyword op) := by
  intro s s' hs
  simp only [keyword] at hs
  split at hs
  · cases hs
  · exact marks_missing (.keyword op) s s' hs

theorem marks_bareWord : Marks bareWord := by
  intro s s' hs
  simp only [bareWord] at hs
  split at hs
  · cases hs
  · exact marks_missing .word s s' hs

theorem marks_endOfInput : Marks endOfInput := by
  intro s s' hs
  unfold endOfInput at hs
  split at hs
  · cases hs
  · exact marks_missing .endOfInput s s' hs

theorem marks_operands {op : Tag} {separator operand : Scan SyntaxTree} (h : Marks operand) :
    Marks (operands op separator operand) :=
  h.bind (sound_true _) fun _ _ _ _ =>
    .inl ((neverMisses_many _).bind fun _ => neverMisses_pure _)

theorem marks_andSeparator : Marks andSeparator := by
  apply Marks.within
  refine marks_offset_bind fun start => ?_
  refine marks_whitespace.bind whitespace_sound fun _ _ _ hbefore => .inr ⟨hbefore.1.offset_le, ?_⟩
  refine (marks_keyword .and).bind (keyword_sound .and) fun _ _ _ hname =>
    .inr ⟨hname.1.offset_le, ?_⟩
  exact marks_whitespace.bind (sound_true _) fun _ _ _ _ => .inl (neverMisses_pure _)

theorem marks_word : Marks word := by
  apply Marks.within
  refine marks_offset_bind fun start => ?_
  refine (neverMisses_attempt _).marks.bind (attempt_sound (sound_true _)) fun p quoted q hq => ?_
  cases quoted with
  | some body => exact .inl (neverMisses_pure _)
  | none =>
    -- A literal may be missed without a note, but then a bare word is tried.
    obtain rfl : q = p := hq
    exact .inr ⟨le_rfl, (marks_bareWord.within .rawWord).bind (sound_true _) fun _ _ _ _ =>
      .inl (neverMisses_pure _)⟩

theorem marks_primary (inside : Nat → Scan SyntaxTree) : Marks (primary inside) := by
  apply Marks.within
  refine (neverMisses_attempt _).marks.bind (attempt_sound (sound_true _)) fun p grouped q hq => ?_
  cases grouped with
  | some tree => exact .inl (neverMisses_pure _)
  | none =>
    obtain rfl : q = p := hq
    exact .inr ⟨le_rfl, marks_word⟩

theorem marks_orExpr (room : Nat) : Marks (orExpr room) := by
  rw [orExpr_eq]
  exact (marks_operands ((marks_operands (marks_primary _)).within .andExpr)).within .orExpr

theorem marks_query (room : Nat) : Marks (query room) := by
  apply Marks.within
  refine neverMisses_blanks.marks.bind blanks_sound fun _ _ _ hbefore => .inr ⟨hbefore.offset_le, ?_⟩
  refine (marks_orExpr room).bind (orExpr_sound room) fun _ _ _ htree => .inr ⟨?_, ?_⟩
  · obtain ⟨text, -, hspan⟩ := OrSeparator.consumes.operands
      (AndSeparator.consumes.operands Primary.consumes) _ _ _ htree.1
    exact hspan.offset_le
  · refine neverMisses_blanks.marks.bind blanks_sound fun _ _ _ hafter => .inr ⟨hafter.offset_le, ?_⟩
    exact marks_endOfInput.bind (sound_true _) fun _ _ _ _ => .inl (neverMisses_pure _)

end Marks
end Grammar
end SearchFilter.Query
