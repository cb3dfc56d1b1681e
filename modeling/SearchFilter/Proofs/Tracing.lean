import Mathlib.Data.List.Nodup
import SearchFilter.Proofs.Parsing

/-! The notes of a run. All that a scan does to what the scanner remembers is to record notes one after
the other, and the rules being read are the same afterwards. So the remembered place only moves forward,
it lists no expectation twice, and its rules are those of the first note there. -/

namespace SearchFilter.Query

open Text

structure Note where
  offset : Nat
  what : Expectation
  rules : List Rule

def record (furthest : Option Failure) (note : Note) : Option Failure :=
  match furthest with
  | none => some ⟨note.offset, [note.what], note.rules⟩
  | some f =>
    if note.offset < f.offset then some f
    else if f.offset < note.offset then some ⟨note.offset, [note.what], note.rules⟩
    else if note.what ∈ f.expected then some f
    else some { f with expected := f.expected ++ [note.what] }

theorem Scanner.expect_eq (s : Scanner) (what : Expectation) :
    s.expect what =
      { s with furthest := record s.furthest ⟨s.position.offset, what, s.rules⟩ } := by
  obtain ⟨position, rules, furthest⟩ := s
  unfold Scanner.expect record
  cases furthest with
  | none => rfl
  | some f =>
    dsimp only
    split_ifs <;> rfl

def Stamped (outer : List Rule) (note : Note) : Prop :=
  ∀ quote, note.what = .closingQuote quote → outer <+: note.rules

def Reached (offset : Nat) (furthest : Option Failure) : Prop :=
  ∃ f ∈ furthest, offset ≤ f.offset

/-- No expectation is listed twice, and the note of the first one, with the rules that are remembered,
satisfies `N`. -/
structure Failure.Filed (N : Note → Prop) (f : Failure) : Prop where
  nodup : f.expected.Nodup
  first : ∃ what ∈ f.expected.head?, N ⟨f.offset, what, f.rules⟩

section Record

variable {offset : Nat} {furthest : Option Failure} {note : Note} {notes : List Note}
  {N : Note → Prop}

theorem record_cases (furthest : Option Failure) (note : Note) :
    record furthest note = some ⟨note.offset, [note.what], note.rules⟩ ∧
        (∀ f ∈ furthest, f.offset < note.offset) ∨
      (∃ f ∈ furthest, note.offset ≤ f.offset ∧ (note.offset = f.offset → note.what ∈ f.expected) ∧
        record furthest note = some f) ∨
      ∃ f ∈ furthest, note.offset = f.offset ∧ note.what ∉ f.expected ∧
        record furthest note = some { f with expected := f.expected ++ [note.what] } := by
  unfold record
  cases furthest with
  | none => exact .inl ⟨rfl, by simp⟩
  | some f =>
    dsimp only
    split_ifs with hlt hgt hmem
    · exact .inr (.inl ⟨f, rfl, hlt.le, fun heq => absurd heq hlt.ne, rfl⟩)
    · exact .inl ⟨rfl, by simpa using hgt⟩
    · exact .inr (.inl ⟨f, rfl, Nat.not_lt.mp hgt, fun _ => hmem, rfl⟩)
    · exact .inr (.inr ⟨f, rfl, by omega, hmem, rfl⟩)

theorem reached_record (furthest : Option Failure) (note : Note) :
    Reached note.offset (record furthest note) := by
  rcases record_cases furthest note with
    ⟨hrecord, -⟩ | ⟨f, -, hle, -, hrecord⟩ | ⟨f, -, heq, -, hrecord⟩
  · exact ⟨_, hrecord, le_rfl⟩
  · exact ⟨f, hrecord, hle⟩
  · exact ⟨_, hrecord, heq.le⟩

theorem listed_record (h : ∀ f ∈ furthest, f.offset ≤ note.offset) :
    ∃ f ∈ record furthest note, f.offset = note.offset ∧ note.what ∈ f.expected := by
  rcases record_cases furthest note with
    ⟨hrecord, -⟩ | ⟨f, hf, hle, hknown, hrecord⟩ | ⟨f, -, hoffset, -, hrecord⟩
  · exact ⟨_, hrecord, rfl, List.mem_singleton_self _⟩
  · have hoffset := hle.antisymm (h f hf)
    exact ⟨f, hrecord, hoffset.symm, hknown hoffset⟩
  · exact ⟨_, hrecord, hoffset.symm, List.mem_append_right _ (List.mem_singleton_self _)⟩

theorem Reached.record (h : Reached offset furthest) : Reached offset (record furthest note) := by
  obtain ⟨g, hg, hoffset⟩ := h
  rcases record_cases furthest note with
    ⟨hrecord, hlt⟩ | ⟨f, hf, -, -, hrecord⟩ | ⟨f, hf, -, -, hrecord⟩
  · exact ⟨_, hrecord, hoffset.trans (hlt g hg).le⟩
  · obtain rfl : g = f := Option.mem_unique hg hf
    exact ⟨g, hrecord, hoffset⟩
  · obtain rfl : g = f := Option.mem_unique hg hf
    exact ⟨_, hrecord, hoffset⟩

theorem Reached.foldl (h : Reached offset furthest) :
    Reached offset (notes.foldl Query.record furthest) := by
  induction notes generalizing furthest with
  | nil => exact h
  | cons note notes ih => exact ih h.record

theorem Reached.mono {offset' : Nat} (h : Reached offset furthest) (hle : offset' ≤ offset) :
    Reached offset' furthest := by
  obtain ⟨f, hf, hoffset⟩ := h
  exact ⟨f, hf, hle.trans hoffset⟩

theorem filed_record (h : ∀ f ∈ furthest, f.Filed N) (hnote : N note) :
    ∀ f ∈ record furthest note, f.Filed N := by
  intro g hg
  rcases record_cases furthest note with
    ⟨hrecord, -⟩ | ⟨f, hf, -, -, hrecord⟩ | ⟨f, hf, -, hfresh, hrecord⟩
  all_goals obtain rfl := Option.mem_unique hg hrecord
  · exact ⟨List.nodup_singleton _, note.what, rfl, hnote⟩
  · exact h g hf
  · obtain ⟨hnodup, what, hwhat, hfirst⟩ := h f hf
    refine ⟨List.nodup_append.mpr ⟨hnodup, List.nodup_singleton _, ?_⟩, what, ?_, hfirst⟩
    · intro a ha b hb heq
      rw [List.mem_singleton.mp hb] at heq
      exact hfresh (heq ▸ ha)
    · rw [List.head?_append_of_ne_nil _ (List.ne_nil_of_mem (List.mem_of_mem_head? hwhat))]
      exact hwhat

theorem filed_foldl (h : ∀ f ∈ furthest, f.Filed N) (hnotes : ∀ note ∈ notes, N note) :
    ∀ f ∈ notes.foldl record furthest, f.Filed N := by
  induction notes generalizing furthest with
  | nil => exact h
  | cons note notes ih =>
    exact ih (filed_record h (hnotes note List.mem_cons_self)) fun n hn =>
      hnotes n (List.mem_cons_of_mem note hn)

end Record

namespace Scan

variable {α β : Type} {x : Scan α} {f : α → Scan β} {p : Position} {N N' : Note → Prop}
  {outer outer' rules : List Rule} {what : Expectation}

def final : EStateM.Result Halt Scanner α → Scanner
  | .ok _ s => s
  | .error _ s => s

/-- Run from `p` while `rules` are being read, the scan records notes that satisfy `N` and leaves the
rules as they are. -/
def Records (N : Note → Prop) (rules : List Rule) (x : Scan α) (p : Position) : Prop :=
  ∀ s : Scanner, s.position = p → s.rules = rules → ∃ notes : List Note, (∀ note ∈ notes, N note) ∧
    (final (x s)).furthest = notes.foldl record s.furthest ∧ (final (x s)).rules = rules

section Records

theorem Records.mono (h : Records N rules x p) (himp : ∀ note, N note → N' note) :
    Records N' rules x p := by
  intro s hp hs
  obtain ⟨notes, hnotes, hrest⟩ := h s hp hs
  exact ⟨notes, fun note hnote => himp note (hnotes note hnote), hrest⟩

theorem Records.bind {item : Position → α → Position → Prop} (hx : Records N rules x p)
    (hsound : Sound x item) (hf : ∀ a q, item p a q → Records N rules (f a) q) :
    Records N rules (x >>= f) p := by
  rintro s rfl hs
  obtain ⟨notes, hnotes, hfurthest, hrules⟩ := hx s rfl hs
  change ∃ notes : List Note, _ ∧ (final (EStateM.bind x f s)).furthest = _ ∧
    (final (EStateM.bind x f s)).rules = _
  unfold EStateM.bind
  cases hxs : x s with
  | error halt s₁ =>
    rw [hxs] at hfurthest hrules
    exact ⟨notes, hnotes, hfurthest, hrules⟩
  | ok a s₁ =>
    rw [hxs] at hfurthest hrules
    obtain ⟨more, hmore, hfurthest', hrules'⟩ := hf a s₁.position (hsound _ _ _ hxs) s₁ rfl hrules
    refine ⟨notes ++ more, ?_, ?_, hrules'⟩
    · exact fun note hnote => (List.mem_append.mp hnote).elim (hnotes note) (hmore note)
    · rw [List.foldl_append, ← hfurthest]
      exact hfurthest'

theorem Records.within {rule : Rule} (h : Records N (rule :: rules) x p) :
    Records N rules (within rule x) p := by
  intro s hp hs
  obtain ⟨notes, hnotes, hfurthest, hrules⟩ := h (s.enter rule) hp (by rw [Scanner.enter, hs])
  refine ⟨notes, hnotes, ?_⟩
  unfold Scan.within
  cases hxs : x (s.enter rule) with
  | ok a s₁ =>
    rw [hxs] at hfurthest hrules
    exact ⟨hfurthest, congrArg List.tail hrules⟩
  | error halt s₁ =>
    rw [hxs] at hfurthest hrules
    exact ⟨hfurthest, congrArg List.tail hrules⟩

theorem Records.attempt (h : Records N rules x p) : Records N rules (attempt x) p := by
  intro s hp hs
  obtain ⟨notes, hnotes, hrest⟩ := h s hp hs
  refine ⟨notes, hnotes, ?_⟩
  unfold Scan.attempt
  cases hxs : x s with
  | ok a s₁ =>
    rw [hxs] at hrest
    exact hrest
  | error halt s₁ =>
    rw [hxs] at hrest
    cases halt <;> exact hrest

theorem records_of_quiet (h : ∀ s, (final (x s)).furthest = s.furthest ∧ (final (x s)).rules = s.rules) :
    Records N rules x p :=
  fun s _ hs => ⟨[], by simp, (h s).1, (h s).2.trans hs⟩

theorem records_pure (a : α) : Records N rules (pure a : Scan α) p :=
  records_of_quiet fun _ => ⟨rfl, rfl⟩

theorem records_throw (halt : Halt) : Records N rules (throw halt : Scan α) p :=
  records_of_quiet fun _ => ⟨rfl, rfl⟩

theorem records_offset_bind {f : Nat → Scan β} (h : Records N rules (f p.offset) p) :
    Records N rules (offset >>= f) p := by
  rintro s rfl hs
  exact h s rfl hs

theorem records_blanks : Records N rules blanks p :=
  records_of_quiet fun _ => ⟨rfl, rfl⟩

section Many

variable {R : Position → α → Position → Prop} {I : Position → Prop}

theorem records_manyWithin (hsound : Sound x R) (hitem : ∀ q, I q → Records N rules x q)
    (hstep : ∀ q a r, I q → R q a r → I r) (bound : List Char) (found : List α) (hp : I p) :
    Records N rules (manyWithin x bound found) p := by
  induction bound generalizing found p with
  | nil =>
    rw [manyWithin_nil]
    refine (hitem p hp).attempt.bind (attempt_sound hsound) fun result q _ => ?_
    cases result with
    | none => exact records_pure _
    | some a => exact records_pure _
  | cons c bound ih =>
    rw [manyWithin_cons]
    refine (hitem p hp).attempt.bind (attempt_sound hsound) fun result q hresult => ?_
    cases result with
    | none => exact records_pure _
    | some a => exact ih (a :: found) (hstep p a q hp hresult)

theorem records_many (hsound : Sound x R) (hitem : ∀ q, I q → Records N rules x q)
    (hstep : ∀ q a r, I q → R q a r → I r) (hp : I p) : Records N rules (many x) p := by
  rintro s rfl hs
  exact records_manyWithin hsound hitem hstep s.position.rest [] hp s rfl hs

end Many

theorem records_note {s : Scanner} (hs : s.rules = rules) (h : N ⟨s.position.offset, what, rules⟩) :
    ∃ notes : List Note, (∀ note ∈ notes, N note) ∧
      (s.expect what).furthest = notes.foldl record s.furthest ∧ (s.expect what).rules = rules := by
  rw [s.expect_eq]
  subst hs
  exact ⟨[⟨s.position.offset, what, s.rules⟩], List.forall_mem_singleton.mpr h, rfl, rfl⟩

theorem records_missing (h : N ⟨p.offset, what, rules⟩) :
    Records N rules (missing what : Scan α) p := by
  rintro s rfl hs
  exact records_note hs h

theorem records_whitespace
    (h : (∀ c ∈ p.rest.head?, isBlank c = false) → N ⟨p.offset, .whitespace, rules⟩) :
    Records N rules whitespace p := by
  rw [whitespace_eq]
  refine records_blanks.bind (blanks_sound.and blanks_end) fun run q hrun => ?_
  obtain ⟨hgap, hend⟩ := hrun
  split
  · next hnil =>
    subst hnil
    have hsame : q = p := hgap.toBetween.eq_advance
    rw [hsame] at hend ⊢
    exact records_missing (h hend)
  · exact records_pure run

theorem records_of_missing (what : Expectation) (hnote : N ⟨p.offset, what, rules⟩)
    (h : ∀ s, ((final (x s)).furthest = s.furthest ∧ (final (x s)).rules = s.rules) ∨
      x s = missing what s) : Records N rules x p := by
  intro s hp hs
  rcases h s with ⟨hfurthest, hrules⟩ | hmissing
  · exact ⟨[], by simp, hfurthest, hrules.trans hs⟩
  · rw [hmissing]
    exact records_missing (α := α) hnote s hp hs

theorem records_char {c : Char} (h : N ⟨p.offset, .char c, rules⟩) : Records N rules (char c) p := by
  refine records_of_missing (.char c) h fun s => ?_
  unfold char
  split
  · exact .inl ⟨rfl, rfl⟩
  · exact .inr rfl

theorem records_keyword {op : Connective} (h : N ⟨p.offset, .keyword op, rules⟩) :
    Records N rules (keyword op) p := by
  refine records_of_missing (.keyword op) h fun s => ?_
  simp only [keyword]
  split
  · exact .inl ⟨rfl, rfl⟩
  · exact .inr rfl

theorem records_bareWord (h : N ⟨p.offset, .word, rules⟩) : Records N rules bareWord p := by
  refine records_of_missing .word h fun s => ?_
  simp only [bareWord]
  split
  · exact .inl ⟨rfl, rfl⟩
  · exact .inr rfl

theorem records_endOfInput (h : N ⟨p.offset, .endOfInput, rules⟩) : Records N rules endOfInput p := by
  refine records_of_missing .endOfInput h fun s => ?_
  unfold endOfInput
  split
  · exact .inl ⟨rfl, rfl⟩
  · exact .inr rfl

theorem records_literal (h : ∀ quote, N ⟨(p.advance p.rest).offset, .closingQuote quote, rules⟩) :
    Records N rules literal p := by
  rintro s rfl hs
  rcases literal_cases s with ⟨-, hscan⟩ |
    ⟨quote, text, -, -, ⟨body, rest, -, -, hscan⟩ | ⟨-, hscan⟩⟩
  all_goals rw [hscan]
  · exact ⟨[], by simp, rfl, hs⟩
  · exact ⟨[], by simp, rfl, hs⟩
  · have hend : (s.advance s.position.rest).rules = rules := hs
    exact records_note hend (h quote)

end Records

def Traced (outer rules : List Rule) (x : Scan α) : Prop :=
  ∀ p, Records (Stamped outer) rules x p

abbrev Grows (x : Scan α) : Prop :=
  ∀ rules, Traced [] rules x

theorem Traced.mono (h : Traced outer rules x) (houter : outer' <+: outer) : Traced outer' rules x :=
  fun p => (h p).mono fun _ hnote quote hquote => houter.trans (hnote quote hquote)

theorem Traced.bind (hx : Traced outer rules x) (hf : ∀ a, Traced outer rules (f a)) :
    Traced outer rules (x >>= f) :=
  fun p => (hx p).bind (sound_true x) fun a q _ => hf a q

theorem Traced.within {rule : Rule} (h : Traced outer (rule :: rules) x) :
    Traced outer rules (within rule x) :=
  fun p => (h p).within

theorem Traced.attempt (h : Traced outer rules x) : Traced outer rules (attempt x) :=
  fun p => (h p).attempt

theorem traced_pure (a : α) : Traced outer rules (pure a : Scan α) :=
  fun _ => records_pure a

theorem traced_offset : Traced outer rules offset :=
  fun _ => records_of_quiet fun _ => ⟨rfl, rfl⟩

theorem traced_throw (halt : Halt) : Traced outer rules (throw halt : Scan α) :=
  fun _ => records_throw halt

theorem traced_blanks : Traced outer rules blanks :=
  fun _ => records_blanks

theorem traced_manyWithin (h : Traced outer rules x) (bound : List Char) (found : List α) :
    Traced outer rules (manyWithin x bound found) :=
  fun _ => records_manyWithin (I := fun _ => True) (sound_true x) (fun q _ => h q)
    (fun _ _ _ _ _ => trivial) bound found trivial

theorem Traced.many (h : Traced outer rules x) : Traced outer rules (many x) :=
  fun _ => records_many (I := fun _ => True) (sound_true x) (fun q _ => h q)
    (fun _ _ _ _ _ => trivial) trivial

section Lexical

theorem stamped_of_ne {note : Note} (h : ∀ quote, note.what ≠ .closingQuote quote) :
    Stamped outer note :=
  fun quote hquote => absurd hquote (h quote)

theorem traced_whitespace : Traced outer rules whitespace :=
  fun _ => records_whitespace fun _ => stamped_of_ne nofun

theorem traced_char (c : Char) : Traced outer rules (char c) :=
  fun _ => records_char (stamped_of_ne nofun)

theorem traced_keyword (op : Connective) : Traced outer rules (keyword op) :=
  fun _ => records_keyword (stamped_of_ne nofun)

theorem traced_bareWord : Traced outer rules bareWord :=
  fun _ => records_bareWord (stamped_of_ne nofun)

theorem traced_endOfInput : Traced outer rules endOfInput :=
  fun _ => records_endOfInput (stamped_of_ne nofun)

theorem traced_literal (rules : List Rule) : Traced rules rules literal :=
  fun _ => records_literal fun _ _ _ => List.prefix_rfl

end Lexical
end Scan

namespace Grammar

open Scan

variable {outer : List Rule} {inside : Nat → Scan SyntaxTree}

theorem traced_orSeparator (rules : List Rule) : Traced outer rules orSeparator := by
  apply Traced.within
  refine traced_offset.bind fun start => ?_
  refine Traced.bind (Traced.attempt ?_) fun spelled => ?_
  · exact traced_blanks.bind fun _ => (traced_keyword .or).bind fun _ =>
      traced_blanks.bind fun _ => traced_pure _
  · cases spelled with
    | some text => exact traced_pure _
    | none => exact traced_whitespace.bind fun _ => traced_pure _

theorem traced_andSeparator (rules : List Rule) : Traced outer rules andSeparator := by
  apply Traced.within
  exact traced_offset.bind fun _ => traced_whitespace.bind fun _ => (traced_keyword .and).bind fun _ =>
    traced_whitespace.bind fun _ => traced_pure _

theorem traced_word (rules : List Rule) : Traced (.quotedString :: .word :: rules) rules word := by
  apply Traced.within
  refine traced_offset.bind fun start => ?_
  refine (traced_literal _).within.attempt.bind fun quoted => ?_
  cases quoted with
  | some body => exact traced_pure _
  | none => exact traced_bareWord.within.bind fun _ => traced_pure _

theorem traced_operands {op : Tag} {separator operand : Scan SyntaxTree} {rules : List Rule}
    (hs : Traced outer rules separator) (ho : Traced outer rules operand) :
    Traced outer rules (operands op separator operand) := by
  refine ho.bind fun head => (Traced.many ?_).bind fun pairs => traced_pure _
  exact hs.bind fun mark => ho.bind fun right => traced_pure _

def literalRules : List Rule := [.quotedString, .word, .primary]

theorem traced_primary (h : ∀ opening rules, Traced literalRules rules (inside opening))
    (rules : List Rule) : Traced literalRules rules (primary inside) := by
  have hgroup : ∀ rules, Traced literalRules rules (group inside) := fun rules =>
    Traced.within (traced_offset.bind fun opening => (traced_char '(').bind fun _ =>
      (h opening _).bind fun _ => traced_pure _)
  apply Traced.within
  refine (hgroup _).attempt.bind fun grouped => ?_
  cases grouped with
  | some tree => exact traced_pure _
  | none => exact (traced_word _).mono ⟨rules, rfl⟩

theorem traced_andExpr (h : ∀ opening rules, Traced literalRules rules (inside opening))
    (rules : List Rule) : Traced literalRules rules (andExpr inside) :=
  (traced_operands (traced_andSeparator _) (traced_primary h _)).within

theorem traced_orExprWith (h : ∀ opening rules, Traced literalRules rules (inside opening))
    (rules : List Rule) : Traced literalRules rules (orExprWith inside) :=
  (traced_operands (traced_orSeparator _) (traced_andExpr h _)).within

theorem traced_inside (room opening : Nat) (rules : List Rule) :
    Traced literalRules rules (Grammar.inside room opening) := by
  induction room generalizing opening rules with
  | zero => exact traced_throw _
  | succ room ih =>
    refine traced_blanks.bind fun _ => Traced.bind ?_ fun _ => traced_blanks.bind fun _ =>
      (traced_char ')').bind fun _ => traced_pure _
    rw [orExpr_eq]
    exact traced_orExprWith ih rules

theorem traced_orExpr (room : Nat) (rules : List Rule) : Traced literalRules rules (orExpr room) := by
  rw [orExpr_eq]
  exact traced_orExprWith (traced_inside room) rules

theorem traced_query (room : Nat) (rules : List Rule) : Traced literalRules rules (query room) := by
  apply Traced.within
  exact traced_blanks.bind fun _ => (traced_orExpr room _).bind fun _ => traced_blanks.bind fun _ =>
    traced_endOfInput.bind fun _ => traced_pure _

end Grammar
end SearchFilter.Query
