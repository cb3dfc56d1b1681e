import SearchFilter.Proofs.Reports
import SearchFilter.Proofs.StrayParentheses

/-! The hints about groups to close or to fill, keywords and missing words. They are chosen by what an error
expects and by a text trimmed of all white space, which is more than the blanks of the grammar. What they
say is true of the grammar all the same, since the places where something can be expected are few. -/

namespace SearchFilter.Query

open Text Phrase

def Zone.Quoted : Zone → Prop
  | between | bare => True
  | literal quote | escaped quote => isQuote quote = true

/-- The parenthesis between `outer` and `inner` opens the innermost group that is open after them. -/
structure Innermost (outer inner : List Char) : Prop where
  stays : ∀ part, part <+: inner → openGroups outer < openGroups (outer ++ '(' :: part)
  last : openGroups (outer ++ '(' :: inner) = openGroups outer + 1

section Innermost

variable {zone : Zone} {state : Nat × Zone} {c : Char} {text outer gap : List Char}

theorem Zone.Quoted.next (h : zone.Quoted) (c : Char) : (zone.next c).Quoted := by
  cases zone with
  | between =>
    simp only [Zone.next]
    split_ifs with hquote
    · exact hquote
    · trivial
    · trivial
  | bare =>
    simp only [Zone.next]
    split_ifs <;> trivial
  | literal quote =>
    simp only [Zone.next]
    split_ifs
    · exact h
    · trivial
    · exact h
  | escaped quote => exact h

theorem quoted_foldl (h : state.2.Quoted) (text : List Char) :
    (text.foldl countStep state).2.Quoted := by
  induction text generalizing state with
  | nil => exact h
  | cons c cs ih => exact ih (h.next c)

theorem Zone.Quoted.outside_of_next (h : zone.Quoted) (hc : isQuote c = false)
    (hnext : (zone.next c).outside = true) : zone.outside = true := by
  cases zone with
  | between | bare => rfl
  | escaped quote => cases hnext
  | literal quote =>
    have hne : c ≠ quote := by
      rintro rfl
      exact absurd h (by simp [Zone.Quoted, hc])
    simp only [Zone.next, if_neg hne] at hnext
    split_ifs at hnext <;> cases hnext

theorem outside_of_foldl (h : state.2.Quoted) (htext : ∀ c ∈ text, isQuote c = false)
    (hend : (text.foldl countStep state).2.outside = true) : state.2.outside = true := by
  induction text generalizing state with
  | nil => exact hend
  | cons c cs ih =>
    have hnext : (state.2.next c).outside = true :=
      ih (h.next c) (fun d hd => htext d (List.mem_cons_of_mem c hd)) hend
    exact h.outside_of_next (htext c List.mem_cons_self) hnext

theorem fst_foldl_countStep (htext : ∀ c ∈ text, c ≠ '(' ∧ c ≠ ')') (state : Nat × Zone) :
    (text.foldl countStep state).1 = state.1 := by
  induction text generalizing state with
  | nil => rfl
  | cons c cs ih =>
    obtain ⟨hopen, hclose⟩ := htext c List.mem_cons_self
    rw [List.foldl_cons, ih fun d hd => htext d (List.mem_cons_of_mem c hd),
      countStep_of_ne hopen hclose]

theorem plain_of_isWhiteSpace (h : isWhiteSpace c = true) :
    isQuote c = false ∧ c ≠ '(' ∧ c ≠ ')' := by
  refine ⟨?_, ?_, ?_⟩
  · by_contra hquote
    rw [Bool.not_eq_false, isQuote_iff] at hquote
    rcases hquote with rfl | rfl <;> exact absurd h (by decide)
  · rintro rfl
    exact absurd h (by decide)
  · rintro rfl
    exact absurd h (by decide)

theorem innermost_of_outside
    (hend : ((outer ++ '(' :: gap).foldl countStep (0, .between)).2.outside = true)
    (hgap : ∀ c ∈ gap, isWhiteSpace c = true) : Innermost outer gap := by
  have hplain := fun c hc => plain_of_isWhiteSpace (hgap c hc)
  have houtside : (outer.foldl countStep (0, .between)).2.outside = true := by
    rw [List.foldl_append] at hend
    refine outside_of_foldl (quoted_foldl (by trivial) outer) ?_ hend
    exact List.forall_mem_cons.mpr ⟨by decide, fun c hc => (hplain c hc).1⟩
  have hdeeper : ∀ part, part <+: gap →
      openGroups (outer ++ '(' :: part) = openGroups outer + 1 := by
    intro part hpart
    rw [openGroups, List.foldl_append, List.foldl_cons,
      fst_foldl_countStep fun c hc => (hplain c (hpart.subset hc)).2]
    simp [countStep, houtside, openGroups]
  refine ⟨fun part hpart => ?_, hdeeper gap List.prefix_rfl⟩
  rw [hdeeper part hpart]
  exact Nat.lt_succ_self _

theorem eq_append_of_getLast?_trimEnd (h : (trimEnd text).getLast? = some c) :
    ∃ outer gap, text = outer ++ c :: gap ∧ ∀ d ∈ gap, isWhiteSpace d = true := by
  rw [trimEnd, List.getLast?_reverse] at h
  obtain ⟨outer, houter⟩ := List.head?_eq_some_iff.mp h
  refine ⟨outer.reverse, (text.reverse.takeWhile isWhiteSpace).reverse, ?_, fun d hd => ?_⟩
  · have hsplit := List.takeWhile_append_dropWhile (p := isWhiteSpace) (l := text.reverse)
    rw [houter] at hsplit
    simpa using (congrArg List.reverse hsplit).symm
  · exact List.mem_takeWhile_imp (List.mem_reverse.mp hd)

end Innermost

section Places

variable {limit n offset : Nat} {input : String} {p q : Position} {before text gap : List Char}
  {quote : Char}

theorem not_bare_getLast?_append (text : List Char) (hgap : ∀ c ∈ gap, isBlank c = true)
    (htext : gap = [] → ∀ c ∈ text.getLast?, isBare c = false) :
    ∀ c ∈ (text ++ gap).getLast?, isBare c = false := by
  intro c hc
  by_cases hne : gap = []
  · subst hne
    rw [List.append_nil] at hc
    exact htext rfl c hc
  · obtain ⟨d, hd, hblank⟩ := getLast?_append_gap (a := text) hne hgap
    obtain rfl : d = c := by simpa [hd] using hc
    exact not_bare_of_isBlank hblank

theorem OperandWithin.boundary (h : OperandWithin limit input n p)
    (hbefore : Between ⟨0, input.toList⟩ before p) :
    (∀ c ∈ before.getLast?, isBare c = false) ∨ ∀ c ∈ p.rest.head?, isBare c = false := by
  refine h.reached.induct (motive := fun n p => n ≤ limit → ∀ before,
    Between ⟨0, input.toList⟩ before p → (∀ c ∈ before.getLast?, isBare c = false) ∨
      ∀ c ∈ p.rest.head?, isBare c = false) ?_ ?_ ?_ h.le before hbefore
  · intro gap p hgap _ before hbefore
    obtain rfl := hbefore.text_eq hgap.toBetween rfl
    exact .inl (not_bare_getLast?_append [] hgap.blank (by simp))
  · intro n p t q mark r hp _ ht hmark hn before hbefore
    have hq : AfterOperand limit input n q := ⟨p, t, ⟨hn, hp⟩, ht⟩
    obtain ⟨text, htext, -⟩ := hq.counts
    rcases hmark.free_or_spelled with ⟨lead, gap, hne, hblank, hfree⟩ | ⟨gap, s, -, hname⟩
    · obtain rfl := hbefore.text_eq (htext.trans hfree.toBetween) rfl
      rw [← List.append_assoc]
      exact .inl (not_bare_getLast?_append _ hblank fun heq => absurd heq hne)
    · -- A keyword ends where its run does.
      exact .inr hname.maximal
  · intro n p q gap r hp _ hopen hgap hn before hbefore
    obtain ⟨text, htext⟩ := OperandWithin.begins ⟨Nat.le_of_succ_le hn, hp⟩
    obtain rfl := hbefore.text_eq ((htext.toBetween.trans hopen).trans hgap.toBetween) rfl
    refine .inl (not_bare_getLast?_append _ hgap.blank fun _ c hc => ?_)
    obtain rfl : '(' = c := by simpa using hc
    decide

theorem Wanting.getLast?_ne (h : Wanting limit input n p)
    (hbefore : Between ⟨0, input.toList⟩ before p) : (trimEnd before).getLast? ≠ some '(' := by
  obtain ⟨op, hq, hgap, hname, hafter, -⟩ := h
  obtain ⟨text, htext, -⟩ := hq.counts
  obtain ⟨letters, c, hletters, hspace, hne⟩ : ∃ letters c, op.keyword.toList = letters ++ [c] ∧
      isWhiteSpace c = false ∧ c ≠ '(' := by
    cases op with
    | and => exact ⟨['a', 'n'], 'd', rfl, by decide, by decide⟩
    | or => exact ⟨['o'], 'r', rfl, by decide, by decide⟩
  rw [hletters] at hname
  have hspan := ((htext.trans hgap.toBetween).trans hname.toBetween).trans hafter.toBetween
  obtain rfl := hbefore.text_eq hspan rfl
  rw [← List.append_assoc, List.append_assoc, List.singleton_append,
    getLast?_trimEnd hspace hafter.blank]
  exact fun heq => hne (Option.some.inj heq)

theorem Awaited.afterOperand (h : Awaited limit input offset (.char ')')) :
    ∃ n q gap r, AfterOperand limit input (n + 1) q ∧ Gap q gap r ∧ r.offset = offset := by
  generalize hwhat : Expectation.char ')' = what at h
  cases h with
  | close hq hgap => exact ⟨_, _, _, _, hq, hgap, rfl⟩
  | group => exact absurd hwhat (by decide)
  | word | closingQuote | separator | or | and | afterAnd | endOfInput => cases hwhat

theorem Awaited.operandWithin (h : Awaited limit input offset .word) :
    ∃ n p, OperandWithin limit input n p ∧ p.offset = offset := by
  cases h with
  | word hp => exact ⟨_, _, hp, rfl⟩

theorem Awaited.quote_mem (h : Awaited limit input offset (.closingQuote quote)) :
    quote ∈ input.toList ∧ isQuote quote = true := by
  cases h with
  | closingQuote hp hrest hquote =>
    obtain ⟨text, htext⟩ := hp.begins
    have hinput : input.toList = text ++ _ := htext.toBetween.rest_eq
    rw [hinput, hrest]
    exact ⟨by simp, hquote⟩

theorem Between.mem_of_mem {c : Char} (h : Between p text q) (hc : c ∈ q.rest) : c ∈ p.rest := by
  rw [h.rest_eq]
  exact List.mem_append_right text hc

theorem exists_gap (p : Position) :
    ∃ gap q, Gap p gap q ∧ ∀ c ∈ q.rest.head?, isBlank c = false :=
  ⟨_, _, gap_takeWhile p, fun _ => not_of_mem_head?_drop_takeWhile⟩

theorem isBare_of_isWhiteSpace {c : Char} (h : isWhiteSpace c = true) (hblank : isBlank c = false) :
    isBare c = true := by
  obtain ⟨-, hopen, hclose⟩ := plain_of_isWhiteSpace h
  simp [isBare, hblank, hopen, hclose]

theorem bareWord_of_isWhiteSpace (hne : text ≠ []) (hbare : ∀ c ∈ text, isBare c = true)
    (hwhite : ∀ c ∈ text, isWhiteSpace c = true) : BareWord text := by
  refine ⟨hne, hbare, fun c hc => ?_, fun op heq => ?_⟩
  · exact (plain_of_isWhiteSpace (hwhite c (List.mem_of_mem_head? hc))).1
  · subst heq
    cases op with
    | and => exact absurd (hwhite 'a' (by decide)) (by decide)
    | or => exact absurd (hwhite 'o' (by decide)) (by decide)

theorem OperandWithin.derives_of_isWhiteSpace (h : OperandWithin limit input 0 p)
    (hwhite : ∀ c ∈ p.rest, isWhiteSpace c = true) (hne : p.rest ≠ [])
    (hstart : ∀ c ∈ p.rest.head?, isBlank c = false) :
    ∃ t, Derives input t ∧ t.nesting ≤ limit := by
  -- Each round passes a word and the blanks after it.
  induction hlength : p.rest.length using Nat.strong_induction_on generalizing p with
  | _ length ih =>
    subst hlength
    obtain ⟨q, hrun⟩ : ∃ q, BareRun p (bareRun p.rest) q := ⟨_, bareRun_maximal p⟩
    obtain ⟨gap, r, hgap, hsolid⟩ := exists_gap q
    have hspan := hrun.toBetween.trans hgap.toBetween
    have hsome : bareRun p.rest ≠ [] := by
      obtain ⟨c, cs, hp⟩ := List.exists_cons_of_ne_nil hne
      have hbare : isBare c = true :=
        isBare_of_isWhiteSpace (hwhite c (by simp [hp])) (hstart c (by simp [hp]))
      simp [bareRun, hp, hbare]
    have hword : BareWord (bareRun p.rest) := bareWord_of_isWhiteSpace hsome hrun.bare
      fun c hc => hwhite c (List.takeWhile_subset _ hc)
    have hq : AfterOperand limit input 0 q :=
      ⟨p, _, h, .word (.bare hrun hword), Nat.zero_le _⟩
    by_cases hend : r.rest = []
    · exact hq.derives hgap hend
    · have hrest : ∀ c ∈ r.rest, isWhiteSpace c = true := fun c hc => hwhite c (hspan.mem_of_mem hc)
      have hblanks : gap ≠ [] := by
        rintro rfl
        have hsame : q.rest = r.rest := hgap.rest_eq
        obtain ⟨c, cs, hr⟩ := List.exists_cons_of_ne_nil hend
        have hbare : isBare c = true :=
          isBare_of_isWhiteSpace (hrest c (by simp [hr])) (hsolid c (by simp [hr]))
        rw [hrun.maximal c (by simp [hsame, hr])] at hbare
        cases hbare
      exact ih _ (hspan.length_lt (by simp [hsome])) (hq.pass (.or (.blanks hgap hblanks))) hrest
        hend hsolid rfl

end Places
end SearchFilter.Query

namespace SearchFilter

open Query Text

section Hints

variable {input : String} {maxDepth : Nat} {e : SyntaxError}

theorem open_of_closeGroup (h : parse input maxDepth = .error (.syntaxError e))
    (hhint : e.hint = some .closeGroup) : openGroups e.split.1 ≠ 0 ∧ e.found ≠ some ')' := by
  obtain ⟨hclose, -⟩ := SyntaxError.applies_of_hint hhint
  obtain ⟨-, -, hawaited⟩ := awaited_of_syntaxError h
  obtain ⟨n, q, gap, r, hq, hgap, hoffset⟩ := (hawaited _ hclose).afterOperand
  have hcounts := hq.counts.trans (hgap.counts _)
  obtain ⟨before, hbefore, -⟩ := id hcounts
  have hsplit := split_of_syntaxError h hbefore hoffset
  rw [SyntaxError.found, hsplit]
  constructor
  · rw [hcounts.openGroups_eq hbefore rfl]
    exact Nat.succ_ne_zero n
  · intro hfound
    obtain ⟨rest, hrest⟩ := List.head?_eq_some_iff.mp hfound
    exact absurd hoffset (hq.lt_offset hgap hrest h).ne

theorem innermost_of_fillGroup (h : parse input maxDepth = .error (.syntaxError e))
    (hhint : e.hint = some .fillGroup) :
    ∃ outer gap rest, e.split = (outer ++ '(' :: gap, ')' :: rest) ∧ Innermost outer gap ∧
      ∀ c ∈ gap, isBlank c = true := by
  obtain ⟨⟨hfound, hlast⟩, hquote⟩ := SyntaxError.applies_of_hint hhint
  obtain ⟨-, hne, hawaited⟩ := awaited_of_syntaxError h
  obtain ⟨what, hwhat⟩ := List.exists_mem_of_ne_nil _ hne
  obtain ⟨n, r, hoffset, hcounts, hstanding⟩ := (hawaited what hwhat).standing
    fun quote heq => hquote nofun quote (heq ▸ hwhat)
  obtain ⟨before, hbefore, -⟩ := id hcounts
  have hsplit := split_of_syntaxError h hbefore hoffset
  rw [hsplit] at hlast
  rw [SyntaxError.found, hsplit] at hfound
  obtain ⟨rest, hrest⟩ := List.head?_eq_some_iff.mp hfound
  have houtside : (before.foldl countStep (0, .between)).2.outside = true := by
    obtain ⟨zone, hzone, heq⟩ := hcounts.foldl_eq hbefore rfl
    rw [heq]
    exact hzone.outside
  -- The text alone shows that a group is open, whatever white space has been trimmed.
  have hopen : n ≠ 0 := by
    obtain ⟨outer, gap, rfl, hgap⟩ := eq_append_of_getLast?_trimEnd hlast
    rw [← hcounts.openGroups_eq hbefore rfl, (innermost_of_outside houtside hgap).last]
    exact Nat.succ_ne_zero _
  obtain ⟨m, rfl⟩ := Nat.exists_eq_succ_of_ne_zero hopen
  -- After an operand of the group its parenthesis would have been read.
  cases hstanding with
  | start hzero => exact absurd hzero hopen
  | wanting hwanting => exact absurd hlast (hwanting.getLast?_ne hbefore)
  | ended hq hgap => exact absurd hoffset (hq.lt_offset hgap hrest h).ne
  | @opened outer gap htext hgap =>
    obtain rfl := hbefore.text_eq htext rfl
    refine ⟨outer, gap, rest, hsplit.trans (congrArg _ hrest), ?_, hgap⟩
    exact innermost_of_outside houtside fun c hc => isWhiteSpace_of_isBlank (hgap c hc)

theorem keyword_of_quoteKeyword (h : parse input maxDepth = .error (.syntaxError e))
    (hhint : e.hint = some .quoteKeyword) :
    (∃ op : Connective, bareRun e.split.2 = op.keyword.toList) ∧
      (∀ c ∈ e.split.1.getLast?, isBare c = false) ∧ .word ∈ e.expected := by
  obtain ⟨⟨⟨op, hrun⟩, hword⟩, -⟩ := SyntaxError.applies_of_hint hhint
  obtain ⟨-, -, hawaited⟩ := awaited_of_syntaxError h
  obtain ⟨n, p, hp, hoffset⟩ := (hawaited _ hword).operandWithin
  obtain ⟨before, hbefore⟩ := hp.begins
  have hsplit := split_of_syntaxError h hbefore.toBetween hoffset
  refine ⟨⟨op, hrun⟩, ?_, hword⟩
  rw [hsplit] at hrun ⊢
  rcases hp.boundary hbefore.toBetween with hend | hstop
  · exact hend
  · -- Nothing bare follows, and a keyword is not empty.
    rw [bareRun_eq_nil hstop] at hrun
    cases op <;> cases hrun

theorem enterWord_iff_blank (h : parse input maxDepth = .error (.syntaxError e)) :
    e.hint = some .enterWord ↔ ∀ c ∈ input.toList, isBlank c = true := by
  obtain ⟨hle, -, hawaited⟩ := awaited_of_syntaxError h
  constructor
  · intro hhint
    obtain ⟨hwhite, -⟩ := SyntaxError.applies_of_hint hhint
    have hwhite : ∀ c ∈ input.toList, isWhiteSpace c = true := input_of_syntaxError h ▸ hwhite
    obtain ⟨gap, p, hgap, hsolid⟩ := exists_gap ⟨0, input.toList⟩
    by_cases hend : p.rest = []
    · have hinput : input.toList = gap ++ p.rest := hgap.rest_eq
      rw [hinput, hend, List.append_nil]
      exact hgap.blank
    · have hrest : ∀ c ∈ p.rest, isWhiteSpace c = true :=
        fun c hc => hwhite c (hgap.toBetween.mem_of_mem hc)
      obtain ⟨t, ht⟩ :=
        (OperandWithin.start maxDepth hgap).derives_of_isWhiteSpace hrest hend hsolid
      cases h.symm.trans ((parse_eq_ok_iff_derives hle).mpr ht)
  · intro hblank
    have hwhite : ∀ c ∈ input.toList, isWhiteSpace c = true :=
      fun c hc => isWhiteSpace_of_isBlank (hblank c hc)
    have hquote : ∀ quote, .closingQuote quote ∉ e.expected := by
      intro quote hmem
      obtain ⟨hinput, hquote⟩ := (hawaited _ hmem).quote_mem
      rw [(plain_of_isWhiteSpace (hwhite quote hinput)).1] at hquote
      cases hquote
    rw [SyntaxError.hint_unquoted hquote, if_pos]
    rw [input_of_syntaxError h]
    exact List.all_eq_true.mpr hwhite

end Hints

/-- A group to be closed is open, and not closed there. A group to be filled is the innermost one and
holds blanks only. A keyword to be quoted is a whole bare run where a word is expected. A word is asked for
just where the text is blank. -/
theorem hints_truthful {input : String} {maxDepth : Nat} {e : SyntaxError}
    (h : parse input maxDepth = .error (.syntaxError e)) :
    ∃ before after, input.toList = before ++ after ∧ byteLength before = e.offset ∧
      (e.hint = some .closeGroup → openGroups before ≠ 0 ∧ after.head? ≠ some ')') ∧
      (e.hint = some .fillGroup → ∃ outer gap rest, before = outer ++ '(' :: gap ∧
        after = ')' :: rest ∧ Innermost outer gap ∧ ∀ c ∈ gap, isBlank c = true) ∧
      (e.hint = some .quoteKeyword → (∃ op : Connective, bareRun after = op.keyword.toList) ∧
        (∀ c ∈ before.getLast?, isBare c = false) ∧ .word ∈ e.expected) ∧
      (e.hint = some .enterWord ↔ ∀ c ∈ input.toList, isBlank c = true) := by
  obtain ⟨before, after, hinput, hlength, hsplit, -⟩ := solid_of_syntaxError h
  refine ⟨before, after, hinput, hlength, fun hhint => ?_, fun hhint => ?_, fun hhint => ?_,
    enterWord_iff_blank h⟩
  · have hopen := open_of_closeGroup h hhint
    rwa [SyntaxError.found, hsplit] at hopen
  · obtain ⟨outer, gap, rest, heq, hinner, hgap⟩ := innermost_of_fillGroup h hhint
    obtain ⟨rfl, rfl⟩ := Prod.mk.inj (hsplit.symm.trans heq)
    exact ⟨outer, gap, rest, rfl, rfl, hinner, hgap⟩
  · have hkeyword := keyword_of_quoteKeyword h hhint
    rwa [hsplit] at hkeyword

theorem hints_truthful_empty_group :
    ∃ e, parse "('(' (b) ( \n)" 3 = .error (.syntaxError e) ∧ e.hint = some .fillGroup ∧
      ∃ outer gap rest, "('(' (b) ( \n)".toList = (outer ++ '(' :: gap) ++ ')' :: rest ∧
        byteLength (outer ++ '(' :: gap) = e.offset ∧ Innermost outer gap ∧
        ∀ c ∈ gap, isBlank c = true := by
  have herror : parse "('(' (b) ( \n)" 3 = .error (.syntaxError ⟨"('(' (b) ( \n)", 12,
      [.char '(', .word], [.query, .orExpr, .andExpr, .primary, .group, .orExpr, .andExpr, .primary,
        .group, .orExpr, .andExpr, .primary, .group]⟩) := by decide +kernel
  obtain ⟨before, after, hinput, hlength, -, hfill, -⟩ := hints_truthful herror
  have hhint : SyntaxError.hint ⟨"('(' (b) ( \n)", 12, [.char '(', .word], [.query, .orExpr, .andExpr,
      .primary, .group, .orExpr, .andExpr, .primary, .group, .orExpr, .andExpr, .primary, .group]⟩ =
        some .fillGroup := by decide +kernel
  obtain ⟨outer, gap, rest, rfl, rfl, hinner, hgap⟩ := hfill hhint
  exact ⟨_, herror, hhint, outer, gap, rest, hinput, hlength, hinner, hgap⟩

end SearchFilter
