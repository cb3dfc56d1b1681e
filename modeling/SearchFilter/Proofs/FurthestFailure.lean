import Mathlib.Data.List.Induction
import Mathlib.Order.Bounds.Defs
import SearchFilter.Proofs.Tracing

/-! What a scanner reports, whatever was done to it. Rules are entered and left, the scanner goes forth
and back, and on the way expectations are noted. Its report can be read off that history: the notes at the
greatest offset give the expectations, the first of them gives the rules, and no note before that offset
counts, whenever it was made. -/

namespace SearchFilter.Query

inductive Operation where
  | enter (rule : Rule)
  | leave
  | reset (position : Position)
  | expect (what : Expectation)
  deriving DecidableEq

namespace Operation

def apply (s : Scanner) : Operation → Scanner
  | enter rule => s.enter rule
  | leave => s.leave
  | reset position => s.reset position
  | expect what => s.expect what

def target? : Operation → Option Nat
  | reset position => some position.offset
  | _ => none

def stack (rules : List Rule) : Operation → List Rule
  | enter rule => rule :: rules
  | leave => rules.tail
  | _ => rules

def note? (offset : Nat) (rules : List Rule) : Operation → Option Note
  | expect what => some ⟨offset, what, rules⟩
  | _ => none

section Apply

variable (s : Scanner) (op : Operation)

theorem offset_apply : (op.apply s).position.offset = op.target?.getD s.position.offset := by
  cases op with
  | expect what =>
    change (s.expect what).position.offset = s.position.offset
    rw [s.expect_eq]
  | enter rule | leave | reset position => rfl

theorem rules_apply : (op.apply s).rules = op.stack s.rules := by
  cases op with
  | expect what =>
    change (s.expect what).rules = s.rules
    rw [s.expect_eq]
  | enter rule | leave | reset position => rfl

theorem furthest_apply : (op.apply s).furthest =
    (op.note? s.position.offset s.rules).toList.foldl record s.furthest := by
  cases op with
  | expect what =>
    change (s.expect what).furthest = record s.furthest ⟨s.position.offset, what, s.rules⟩
    rw [s.expect_eq]
  | enter rule | leave | reset position => rfl

end Apply
end Operation

abbrev History := List Operation

namespace History

/-- Where a new scanner stands afterwards: the last place to which it was reset, or the start. -/
def offset (ops : History) : Nat :=
  (ops.filterMap Operation.target?).getLastD 0

def rules (ops : History) : List Rule :=
  ops.foldl Operation.stack []

def note? (ops : History) (i : Nat) : Option Note :=
  ops[i]?.bind (Operation.note? (offset (ops.take i)) (rules (ops.take i)))

def notes (ops : History) : List Note :=
  (List.range ops.length).filterMap (note? ops)

def scanner (input : String) (ops : History) : Scanner :=
  ops.foldl Operation.apply (.start input.toList)

def report (input : String) (ops : History) : SyntaxError :=
  (scanner input ops).diagnose input

section Concat

variable (ops : History) (op : Operation)

theorem offset_concat : offset (ops ++ [op]) = op.target?.getD (offset ops) := by
  unfold offset
  rw [List.filterMap_append]
  cases h : op.target? with
  | none => simp [h]
  | some n => simp [h]

theorem rules_concat : rules (ops ++ [op]) = op.stack (rules ops) := by
  simp [rules]

theorem scanner_concat (input : String) :
    scanner input (ops ++ [op]) = op.apply (scanner input ops) := by
  simp [scanner]

theorem notes_concat :
    notes (ops ++ [op]) = notes ops ++ (op.note? (offset ops) (rules ops)).toList := by
  have hold : ∀ i ∈ List.range ops.length, note? (ops ++ [op]) i = note? ops i := by
    intro i hi
    have hlt : i < ops.length := List.mem_range.mp hi
    unfold note?
    rw [List.getElem?_append_left hlt, List.take_append_of_le_length hlt.le]
  have hnew : note? (ops ++ [op]) ops.length = op.note? (offset ops) (rules ops) := by
    unfold note?
    rw [List.getElem?_concat_length, List.take_left, Option.bind_some]
  unfold notes
  rw [List.length_append, List.length_singleton, List.range_succ, List.filterMap_append,
    List.filterMap_congr hold, List.filterMap_cons, hnew]
  cases op.note? (offset ops) (rules ops) <;> rfl

end Concat

theorem scanner_state (input : String) (ops : History) :
    (scanner input ops).position.offset = offset ops ∧ (scanner input ops).rules = rules ops ∧
      (scanner input ops).furthest = (notes ops).foldl record none := by
  -- What an operation notes depends on those before it, so the last one is taken off.
  induction ops using List.reverseRecOn with
  | nil => exact ⟨rfl, rfl, rfl⟩
  | append_singleton ops op ih =>
    obtain ⟨hoffset, hrules, hfurthest⟩ := ih
    rw [scanner_concat]
    refine ⟨?_, ?_, ?_⟩
    · rw [Operation.offset_apply, offset_concat, hoffset]
    · rw [Operation.rules_apply, rules_concat, hrules]
    · rw [Operation.furthest_apply, notes_concat, List.foldl_append, hoffset, hrules, hfurthest]

section Insert

variable (before : History) (what : Expectation) (after : History)

theorem offset_insert : offset (before ++ .expect what :: after) = offset (before ++ after) := by
  unfold offset
  rw [List.filterMap_append, List.filterMap_append]
  rfl

theorem rules_insert : rules (before ++ .expect what :: after) = rules (before ++ after) := by
  unfold rules
  rw [List.foldl_append, List.foldl_append]
  rfl

theorem notes_insert : ∃ more, notes (before ++ after) = notes before ++ more ∧
    notes (before ++ .expect what :: after) =
      notes before ++ ⟨offset before, what, rules before⟩ :: more := by
  induction after using List.reverseRecOn with
  | nil =>
    refine ⟨[], by simp, ?_⟩
    rw [notes_concat]
    rfl
  | append_singleton after op ih =>
    obtain ⟨more, hwithout, hwith⟩ := ih
    refine ⟨more ++ (op.note? (offset (before ++ after)) (rules (before ++ after))).toList, ?_, ?_⟩
    · rw [← List.append_assoc, notes_concat, hwithout, List.append_assoc]
    · have hsnoc : before ++ .expect what :: (after ++ [op]) =
          (before ++ .expect what :: after) ++ [op] := by simp
      rw [hsnoc, notes_concat, hwith, offset_insert, rules_insert, List.append_assoc]
      rfl

end Insert

theorem notes_ne_nil {ops : History} {what : Expectation} (h : .expect what ∈ ops) :
    notes ops ≠ [] := by
  obtain ⟨before, after, rfl⟩ := List.append_of_mem h
  obtain ⟨more, -, hnotes⟩ := notes_insert before what after
  simp [hnotes]

end History

def notesAt (offset : Nat) (notes : List Note) : List Note :=
  notes.filter (·.offset == offset)

def notesFrom (offset : Nat) (notes : List Note) : List Note :=
  notes.filter (offset ≤ ·.offset)

/-- What notes come to: the greatest of their offsets, the expectations noted there, each once and in the
order in which they were first noted, and the rules of the first note there. -/
structure Summary (notes : List Note) (offset : Nat) (expected : List Expectation)
    (rules : List Rule) : Prop where
  greatest : IsGreatest {n | ∃ note ∈ notes, note.offset = n} offset
  expected_eq : expected = ((notesAt offset notes).map Note.what).eraseDups
  first : ∃ note ∈ (notesAt offset notes).head?, note.rules = rules

section Summary

variable {notes notes' : List Note} {note : Note} {f : Failure} {offset offset' : Nat}
  {expected expected' : List Expectation} {rules rules' : List Rule}

theorem eraseDups_concat {α : Type} [DecidableEq α] (as : List α) (a : α) :
    (as ++ [a]).eraseDups = if a ∈ as then as.eraseDups else as.eraseDups ++ [a] := by
  rw [List.eraseDups_append]
  split_ifs with h
  · simp [List.removeAll, h]
  · simp [List.removeAll, h, List.eraseDups_cons]

theorem notesAt_concat_self (notes : List Note) (note : Note) :
    notesAt note.offset (notes ++ [note]) = notesAt note.offset notes ++ [note] := by
  simp [notesAt]

theorem notesAt_concat_of_ne (h : note.offset ≠ offset) :
    notesAt offset (notes ++ [note]) = notesAt offset notes := by
  simp [notesAt, h]

theorem notesAt_notesFrom (offset : Nat) (notes : List Note) :
    notesAt offset (notesFrom offset notes) = notesAt offset notes := by
  unfold notesAt notesFrom
  rw [List.filter_filter]
  refine List.filter_congr fun note _ => ?_
  by_cases h : note.offset = offset
  · simp [h]
  · simp [h]

theorem Summary.le (h : Summary notes offset expected rules) (hnote : note ∈ notes) :
    note.offset ≤ offset :=
  h.greatest.2 ⟨note, hnote, rfl⟩

theorem isGreatest_concat (hle : ∀ n ∈ notes, n.offset ≤ offset) (hnote : note.offset ≤ offset)
    (hmem : ∃ n ∈ notes ++ [note], n.offset = offset) :
    IsGreatest {n | ∃ note' ∈ notes ++ [note], note'.offset = n} offset := by
  refine ⟨hmem, ?_⟩
  rintro _ ⟨n, hn, rfl⟩
  rcases List.mem_append.mp hn with hold | hnew
  · exact hle n hold
  · rw [List.mem_singleton.mp hnew]
    exact hnote

theorem summary_of_lt (h : ∀ n ∈ notes, n.offset < note.offset) :
    Summary (notes ++ [note]) note.offset [note.what] note.rules := by
  have hnone : notesAt note.offset notes = [] :=
    List.filter_eq_nil_iff.mpr fun n hn => by simp [(h n hn).ne]
  have hone : notesAt note.offset (notes ++ [note]) = [note] := by
    rw [notesAt_concat_self, hnone, List.nil_append]
  refine ⟨isGreatest_concat (fun n hn => (h n hn).le) le_rfl ⟨note, by simp, rfl⟩, ?_, note, ?_, rfl⟩
  · rw [hone]
    rfl
  · rw [hone]
    rfl

theorem Summary.concat_of_lt (h : Summary notes offset expected rules) (hlt : note.offset < offset) :
    Summary (notes ++ [note]) offset expected rules := by
  obtain ⟨n, hn, hoffset⟩ := h.greatest.1
  have hgreatest := isGreatest_concat (fun _ => h.le) hlt.le ⟨n, List.mem_append_left _ hn, hoffset⟩
  have hsame : notesAt offset (notes ++ [note]) = notesAt offset notes := notesAt_concat_of_ne hlt.ne
  refine ⟨hgreatest, ?_, ?_⟩
  · rw [hsame]
    exact h.expected_eq
  · rw [hsame]
    exact h.first

theorem Summary.concat_of_eq (h : Summary notes offset expected rules) (heq : note.offset = offset) :
    Summary (notes ++ [note]) offset
      (if note.what ∈ expected then expected else expected ++ [note.what]) rules := by
  subst heq
  obtain ⟨n, hn, hoffset⟩ := h.greatest.1
  have hgreatest := isGreatest_concat (fun _ => h.le) le_rfl ⟨n, List.mem_append_left _ hn, hoffset⟩
  refine ⟨hgreatest, ?_, ?_⟩
  · rw [notesAt_concat_self, List.map_append, List.map_singleton, eraseDups_concat, h.expected_eq]
    simp only [List.mem_eraseDups]
  · obtain ⟨first, hfirst, hrules⟩ := h.first
    refine ⟨first, ?_, hrules⟩
    rw [notesAt_concat_self, List.head?_append, Option.mem_def.mp hfirst]
    rfl

theorem Summary.record (h : Summary notes f.offset f.expected f.rules) (note : Note) :
    ∃ g, record (some f) note = some g ∧ Summary (notes ++ [note]) g.offset g.expected g.rules := by
  rcases record_cases (some f) note with
    ⟨hrecord, hlt⟩ | ⟨g, hg, hle, hknown, hrecord⟩ | ⟨g, hg, hoffset, hfresh, hrecord⟩
  · have hahead : ∀ n ∈ notes, n.offset < note.offset := fun n hn => (h.le hn).trans_lt (hlt f rfl)
    exact ⟨_, hrecord, summary_of_lt hahead⟩
  · obtain rfl : f = g := Option.some.inj hg
    refine ⟨f, hrecord, ?_⟩
    rcases hle.lt_or_eq with hbehind | hoffset
    · exact h.concat_of_lt hbehind
    · have hat := h.concat_of_eq hoffset
      rwa [if_pos (hknown hoffset)] at hat
  · obtain rfl : f = g := Option.some.inj hg
    have hat := h.concat_of_eq hoffset
    rw [if_neg hfresh] at hat
    exact ⟨_, hrecord, hat⟩

theorem exists_summary (h : notes ≠ []) : ∃ f, notes.foldl Query.record none = some f ∧
    Summary notes f.offset f.expected f.rules := by
  induction notes using List.reverseRecOn with
  | nil => exact absurd rfl h
  | append_singleton notes note ih =>
    rw [List.foldl_append, List.foldl_cons, List.foldl_nil]
    by_cases hnil : notes = []
    · subst hnil
      have hahead : ∀ n ∈ ([] : List Note), n.offset < note.offset := by simp
      exact ⟨_, rfl, summary_of_lt hahead⟩
    · obtain ⟨f, hfold, hsummary⟩ := ih hnil
      rw [hfold]
      exact hsummary.record note

theorem Summary.eq_of_notesFrom (h : Summary notes offset expected rules)
    (h' : Summary notes' offset' expected' rules')
    (hsame : notesFrom offset notes' = notesFrom offset notes) :
    offset' = offset ∧ expected' = expected ∧ rules' = rules := by
  have hmem : ∀ n, offset ≤ n.offset → (n ∈ notes' ↔ n ∈ notes) := by
    intro n hn
    have hiff : n ∈ notesFrom offset notes' ↔ n ∈ notesFrom offset notes := by rw [hsame]
    simpa [notesFrom, hn] using hiff
  obtain ⟨n, hn, hoffset⟩ := h.greatest.1
  obtain ⟨n', hn', hoffset'⟩ := h'.greatest.1
  have hle : offset ≤ offset' := hoffset ▸ h'.le ((hmem n hoffset.ge).mpr hn)
  have hge : offset' ≤ offset := hoffset' ▸ h.le ((hmem n' (hoffset'.symm ▸ hle)).mp hn')
  obtain rfl : offset' = offset := hge.antisymm hle
  have hat : notesAt offset' notes' = notesAt offset' notes := by
    rw [← notesAt_notesFrom, hsame, notesAt_notesFrom]
  refine ⟨rfl, ?_, ?_⟩
  · rw [h'.expected_eq, h.expected_eq, hat]
  · obtain ⟨first, hfirst, rfl⟩ := h.first
    obtain ⟨first', hfirst', rfl⟩ := h'.first
    rw [hat] at hfirst'
    rw [Option.mem_unique hfirst' hfirst]

end Summary

namespace History

variable {input : String} {ops other : History}

theorem exists_report (input : String) (h : notes ops ≠ []) : ∃ f : Failure,
    report input ops = ⟨input, f.offset, f.expected, f.rules.reverse⟩ ∧
      Summary (notes ops) f.offset f.expected f.rules := by
  obtain ⟨f, hfold, hsummary⟩ := exists_summary h
  have hfurthest : (scanner input ops).furthest = some f :=
    (scanner_state input ops).2.2.trans hfold
  refine ⟨f, ?_, hsummary⟩
  unfold report Scanner.diagnose
  rw [hfurthest]

theorem report_eq_of_notesFrom (h : notes ops ≠ [])
    (hsame : notesFrom (report input ops).offset (notes other) =
      notesFrom (report input ops).offset (notes ops)) : report input other = report input ops := by
  obtain ⟨f, hreport, hsummary⟩ := exists_report input h
  rw [hreport] at hsame ⊢
  have hother : notes other ≠ [] := by
    intro hnil
    obtain ⟨n, hn, hoffset⟩ := hsummary.greatest.1
    have hfound : n ∈ notesFrom f.offset (notes ops) := by simp [notesFrom, hn, hoffset]
    rw [← hsame, hnil] at hfound
    simp [notesFrom] at hfound
  obtain ⟨g, hreport', hsummary'⟩ := exists_report input hother
  obtain ⟨hoffset, hexpected, hrules⟩ := hsummary.eq_of_notesFrom hsummary' hsame
  rw [hreport', hoffset, hexpected, hrules]

theorem notesFrom_insert {n : Nat} {before : History} (hlt : offset before < n) (what : Expectation)
    (after : History) :
    notesFrom n (notes (before ++ .expect what :: after)) = notesFrom n (notes (before ++ after)) := by
  obtain ⟨more, hwithout, hwith⟩ := notes_insert before what after
  rw [hwithout, hwith]
  simp [notesFrom, hlt.not_ge]

/-- After any history with a note in it the report is the summary of its notes. An expectation noted at
a smaller offset may be left out or put in anywhere, and the report stays the same. -/
theorem report_summary (input : String) (ops : History) (h : ∃ what, Operation.expect what ∈ ops) :
    (report input ops).input = input ∧
    Summary (notes ops) (report input ops).offset (report input ops).expected
      (report input ops).rules.reverse ∧
    ∀ before what after, offset before < (report input ops).offset →
      (ops = before ++ .expect what :: after → report input (before ++ after) = report input ops) ∧
      (ops = before ++ after → report input (before ++ .expect what :: after) = report input ops) := by
  obtain ⟨what, hwhat⟩ := h
  have hnotes : notes ops ≠ [] := notes_ne_nil hwhat
  obtain ⟨f, hreport, hsummary⟩ := exists_report input hnotes
  refine ⟨by rw [hreport], ?_, fun before what after hlt => ⟨?_, ?_⟩⟩
  · rw [hreport, List.reverse_reverse]
    exact hsummary
  · rintro rfl
    exact report_eq_of_notesFrom hnotes (notesFrom_insert hlt what after).symm
  · rintro rfl
    exact report_eq_of_notesFrom hnotes (notesFrom_insert hlt what after)

def rewound : History :=
  [.enter .query, .expect .word, .reset ⟨2, []⟩, .enter .group, .expect (.char ')'), .leave,
    .reset ⟨0, ['a', 'b']⟩, .expect .whitespace, .reset ⟨2, []⟩, .enter .word, .expect .endOfInput,
    .expect (.char ')'), .reset ⟨1, ['b']⟩, .expect .word]

theorem report_summary_rewound : (∃ what, Operation.expect what ∈ rewound) ∧
    Summary (notes rewound) 2 [.char ')', .endOfInput] [.group, .query] ∧
    report "ab" (rewound.eraseIdx 7) = ⟨"ab", 2, [.char ')', .endOfInput], [.query, .group]⟩ := by
  have hnoted : ∃ what, Operation.expect what ∈ rewound := ⟨.word, by decide⟩
  obtain ⟨-, hsummary, hignored⟩ := report_summary "ab" rewound hnoted
  have hbehind : offset (rewound.take 7) < (report "ab" rewound).offset := by decide
  have herased : report "ab" (rewound.eraseIdx 7) = report "ab" rewound :=
    (hignored (rewound.take 7) .whitespace (rewound.drop 8) hbehind).1 rfl
  exact ⟨hnoted, hsummary, herased.trans rfl⟩

end History
end SearchFilter.Query
