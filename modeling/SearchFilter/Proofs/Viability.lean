import SearchFilter.Proofs.Completion
import SearchFilter.Proofs.Prefixes

/-! What can stand at a place, by completing the text there. Whatever the grammar awaits can be followed
by enough text to make a query, with one exception: an `or` directly after a parenthesis or a quote is a
separator only as long as no bare character follows it. -/

namespace SearchFilter.Query

open Text Phrase

def Extendable (P : String → Prop) (text : List Char) : Prop :=
  ∃ longer : String, text <+: longer.toList ∧ P longer

def Fits (limit : Nat) (input : String) : Prop :=
  ∃ t, Derives input t ∧ t.nesting ≤ limit

section Extendable

variable {limit : Nat} {input : String} {before token : List Char}

theorem Extendable.imp {P Q : String → Prop} (h : Extendable P before) (hPQ : ∀ s, P s → Q s) :
    Extendable Q before := by
  obtain ⟨longer, hlonger, hP⟩ := h
  exact ⟨longer, hlonger, hPQ longer hP⟩

theorem Extendable.of_append {P : String → Prop} (h : Extendable P (before ++ token)) :
    Extendable P before := by
  obtain ⟨longer, hlonger, hP⟩ := h
  exact ⟨longer, (List.prefix_append before token).trans hlonger, hP⟩

theorem Fits.derives (h : Fits limit input) : ∃ t, Derives input t := by
  obtain ⟨t, ht, -⟩ := h
  exact ⟨t, ht⟩

end Extendable

/-- The text ends with an `or` that stands directly after a parenthesis or a quote. -/
def Tight (text : List Char) : Prop :=
  ∃ before, text = before ++ Connective.or.keyword.toList ∧
    ∃ c ∈ before.getLast?, c = ')' ∨ isQuote c = true

section Tight

variable {a b : List Char}

theorem tight_append_or : Tight (a ++ Connective.or.keyword.toList) ↔
    ∃ c ∈ a.getLast?, c = ')' ∨ isQuote c = true := by
  constructor
  · rintro ⟨before, heq, hc⟩
    rwa [List.append_cancel_right heq]
  · exact fun hc => ⟨a, rfl, hc⟩

theorem getLast?_of_tight (h : Tight a) : a.getLast? = some 'r' := by
  obtain ⟨before, rfl, -⟩ := h
  rw [List.getLast?_append]
  rfl

theorem not_tight_nil : ¬ Tight [] := fun h => absurd (getLast?_of_tight h) (by simp)

theorem getLast?_append_gap {gap : List Char} (hne : gap ≠ []) (hgap : ∀ c ∈ gap, isBlank c = true) :
    ∃ c, (a ++ gap).getLast? = some c ∧ isBlank c = true := by
  refine ⟨gap.getLast hne, ?_, hgap _ (List.getLast_mem hne)⟩
  rw [List.getLast?_append, List.getLast?_eq_some_getLast hne]
  rfl

theorem not_tight_append_gap {gap : List Char} (hne : gap ≠ [])
    (hgap : ∀ c ∈ gap, isBlank c = true) : ¬ Tight (a ++ gap) := by
  intro h
  obtain ⟨c, hc, hblank⟩ := getLast?_append_gap (a := a) hne hgap
  obtain rfl : c = 'r' := by simpa [getLast?_of_tight h] using hc.symm
  exact absurd hblank (by decide)

theorem not_tight_append_gap_or {gap : List Char} (hne : gap ≠ [])
    (hgap : ∀ c ∈ gap, isBlank c = true) : ¬ Tight (a ++ gap ++ Connective.or.keyword.toList) := by
  rw [tight_append_or]
  rintro ⟨c, hc, hend⟩
  obtain ⟨d, hd, hblank⟩ := getLast?_append_gap (a := a) hne hgap
  obtain rfl : d = c := by simpa [hd] using hc
  rcases hend with rfl | hquote
  · exact absurd hblank (by decide)
  · rcases isQuote_iff.mp hquote with rfl | rfl <;> exact absurd hblank (by decide)

end Tight

section Landing

variable {limit n m : Nat} {input : String} {p q r : Position} {t mark : SyntaxTree}
  {text gap : List Char}

theorem Separator.free_or_spelled (h : Separator p mark q) :
    (∃ text gap, gap ≠ [] ∧ (∀ c ∈ gap, isBlank c = true) ∧
      Free (Separator · mark ·) p (text ++ gap) q) ∨
    ∃ before r, Gap p before r ∧ BareRun r Connective.or.keyword.toList q := by
  cases h with
  | and h =>
    obtain ⟨hbefore, hne, hname, hafter, hne'⟩ := h
    have hfree := ((Moves.of_free hbefore.free).trans hname.moves).trans_free hafter.free hne'
    refine .inl ⟨_, _, hne', hafter.blank, hfree.imp ?_⟩
    rintro p' s' hp ⟨r', ⟨q', hbefore, hname⟩, hafter⟩
    rw [← hp]
    exact .and (.mk hbefore hne hname hafter hne')
  | or h =>
    cases h with
    | blanks hgap hne =>
      refine .inl ⟨[], _, hne, hgap.blank, hgap.free.imp fun p' q' hp hgap => ?_⟩
      rw [← hp]
      exact .or (.blanks hgap hne)
    | @spelled _ q r _ before after hbefore hname hafter =>
      by_cases hne : after = []
      · subst hne
        rw [hafter.toBetween.eq_advance]
        exact .inr ⟨before, q, hbefore, hname⟩
      · have hfree := ((Moves.of_free hbefore.free).trans hname.moves).trans_free hafter.free hne
        refine .inl ⟨_, _, hne, hafter.blank, hfree.imp ?_⟩
        rintro p' s' hp ⟨r', ⟨q', hbefore, hname⟩, hafter⟩
        rw [← hp]
        exact .or (.spelled hbefore hname hafter)

/-- Before `p`, whatever follows it, an operand may start at `p` or before the `or` that ends there. -/
inductive Landing (limit : Nat) (input : String) (n : Nat) (p : Position) : Prop
  | loose {q : Position} {text lead : List Char} :
    Begins (fun _ => True) (OperandWithin limit · n ·) input text q → Between q lead p →
    lead = [] ∨ lead = Connective.or.keyword.toList → ¬ Tight (text ++ lead) →
    Landing limit input n p
  | tight {q : Position} {text : List Char} :
    Begins (fun _ => True) (AfterOperand limit · n ·) input text q →
    Between q Connective.or.keyword.toList p → Tight (text ++ Connective.or.keyword.toList) →
    Landing limit input n p

theorem Landing.here (h : Begins (fun _ => True) (OperandWithin limit · n ·) input text p)
    (htight : ¬ Tight text) : Landing limit input n p :=
  .loose h (.refl p) (.inl rfl) (by rwa [List.append_nil])

theorem AfterOperand.landing (h : AfterOperand limit input n q) (hmark : Separator q mark r) :
    Landing limit input n r := by
  obtain ⟨a, ha⟩ := h.begins
  rcases hmark.free_or_spelled with ⟨c, gap, hne, hblank, hc⟩ | ⟨before, s, hbefore, hname⟩
  · have hfree := ha.trans_free hc (by simp [hne])
    rw [← List.append_assoc] at hfree
    refine .here (hfree.imp ?_) (not_tight_append_gap hne hblank)
    rintro p' r' - ⟨q', hq', hmark⟩
    exact hq'.pass hmark
  · by_cases hne : before = []
    · subst hne
      obtain rfl := hbefore.toBetween.eq_advance
      rcases h.free_or_bare with ⟨text, c, hfree, hc⟩ | ⟨p, text, w, -, hrun, -⟩
      · exact .tight hfree hname.toBetween (tight_append_or.mpr ⟨c, by simp, hc⟩)
      · -- A bare word would have gone on into the keyword.
        exact absurd (hrun.maximal 'o' (hname.head?_eq (by decide))) (by decide)
    · -- The blanks before the keyword are a separator too, and the keyword starts a word.
      have hfree := ha.trans_free hbefore.free hne
      refine .loose (hfree.imp ?_) hname.toBetween (.inr rfl)
        (not_tight_append_gap_or hne hbefore.blank)
      rintro p' r' - ⟨q', hq', hgap⟩
      exact hq'.pass (.or (.blanks hgap hne))

theorem OperandWithin.landing (h : OperandWithin limit input n p) : Landing limit input n p := by
  refine h.reached.induct (motive := fun n p => n ≤ limit → Landing limit input n p) ?_ ?_ ?_ h.le
  · intro gap p hgap _
    refine .here (hgap.begins limit) ?_
    by_cases hne : gap = []
    · rw [hne]
      exact not_tight_nil
    · exact not_tight_append_gap (a := []) hne hgap.blank
  · intro n p t q mark r hp _ ht hmark hn
    exact AfterOperand.landing ⟨p, t, ⟨hn, hp⟩, ht⟩ hmark
  · intro n p q gap r hp _ hopen hgap hn
    obtain ⟨a, ha⟩ := OperandWithin.begins ⟨Nat.le_of_succ_le hn, hp⟩
    have hparen := hopen.free.comp hgap.free fun _ _ => trivial
    refine .here ((ha.trans_free hparen (by simp)).imp ?_) ?_
    · rintro p' r' - ⟨q', hq', s', hopen, hgap⟩
      exact hq'.enter hn hopen hgap
    · by_cases hne : gap = []
      · subst hne
        intro htight
        simpa using getLast?_of_tight htight
      · rw [← List.append_assoc]
        exact not_tight_append_gap hne hgap.blank

end Landing

section Extension

variable {limit n : Nat} {input : String} {p q r : Position} {t mark : SyntaxTree}
  {text gap : List Char}

theorem bareWord_a : BareWord ['a'] := by
  refine ⟨by simp, List.forall_mem_singleton.mpr rfl, by simp [isQuote], fun op => ?_⟩
  cases op <;> decide

theorem not_bare_of_isBlank {c : Char} (h : isBlank c = true) : isBare c = false := by
  simp [isBare, h]

theorem not_bare_replicate (n : Nat) : ∀ c ∈ (List.replicate n ')').head?, isBare c = false := by
  intro c hc
  rw [List.eq_of_mem_replicate (List.mem_of_mem_head? hc)]
  decide

theorem not_bare_gap_append (hne : gap ≠ []) (hgap : ∀ c ∈ gap, isBlank c = true)
    (rest : List Char) : ∀ c ∈ (gap ++ rest).head?, isBare c = false := by
  obtain ⟨d, ds, rfl⟩ := List.exists_cons_of_ne_nil hne
  intro c hc
  obtain rfl : d = c := by simpa using hc
  exact not_bare_of_isBlank (hgap d (by simp))

theorem not_bare_gap_replicate (hgap : ∀ c ∈ gap, isBlank c = true) (n : Nat) :
    ∀ c ∈ (gap ++ List.replicate n ')').head?, isBare c = false := by
  by_cases hne : gap = []
  · rw [hne]
    exact not_bare_replicate n
  · exact not_bare_gap_append hne hgap _

theorem between_append (offset : Nat) (text rest : List Char) :
    Between ⟨offset, text ++ rest⟩ text ⟨offset + byteLength text, rest⟩ :=
  ⟨rfl, rfl⟩

theorem gap_append (offset : Nat) (rest : List Char) (hgap : ∀ c ∈ gap, isBlank c = true) :
    Gap ⟨offset, gap ++ rest⟩ gap ⟨offset + byteLength gap, rest⟩ :=
  ⟨between_append offset gap rest, hgap⟩

theorem fits_of_word {w : List Char} {offset : Nat} (hw : BareWord w)
    (h : OperandWithin limit input n ⟨offset, w ++ List.replicate n ')'⟩) : Fits limit input := by
  have hrun : BareRun _ w _ := ⟨between_append offset w _, hw.bare, not_bare_replicate n⟩
  exact h.derives (.bare hrun hw) rfl

theorem fits_of_after {offset : Nat} (hgap : ∀ c ∈ gap, isBlank c = true)
    (h : AfterOperand limit input n ⟨offset, gap ++ List.replicate n ')'⟩) : Fits limit input :=
  h.derives (gap_append offset _ hgap) rfl

def ending (n : Nat) : List Char :=
  ['a'] ++ List.replicate n ')'

theorem bareRun_keyword (op : Connective) (offset n : Nat) :
    BareRun ⟨offset, op.keyword.toList ++ ([' '] ++ ending n)⟩ op.keyword.toList
      ⟨offset + byteLength op.keyword.toList, [' '] ++ ending n⟩ :=
  ⟨between_append _ _ _, bare_keyword op, not_bare_gap_append (by simp) blank_space _⟩

def CanFollow (limit : Nat) (input : String) (p : Position) (token : List Char) : Prop :=
  ∃ text, Between ⟨0, input.toList⟩ text p ∧ Extendable (Fits limit) (text ++ token)

theorem OperandWithin.fits_blank (h : OperandWithin limit input n p) :
    ∃ text, Between ⟨0, input.toList⟩ text p ∧
      Fits limit (String.ofList (text ++ ([' '] ++ ending n))) := by
  obtain ⟨text, htext⟩ := h.begins
  have hplace := htext.moved ([' '] ++ ending n) fun _ =>
    not_bare_gap_append (by simp) blank_space _
  exact ⟨text, htext.toBetween, fits_of_word bareWord_a (hplace.skip (gap_append _ _ blank_space))⟩

theorem OperandWithin.canFollow_blank (h : OperandWithin limit input n p) :
    CanFollow limit input p [' '] := by
  obtain ⟨text, htext, hfits⟩ := h.fits_blank
  exact ⟨text, htext, _, by simp, hfits⟩

theorem OperandWithin.canFollow_group (h : OperandWithin limit input n p) :
    CanFollow (limit + 1) input p ['('] := by
  obtain ⟨text, htext⟩ := h.begins
  have hplace := htext.moved (['('] ++ ending (n + 1)) fun _ c hc => by
    obtain rfl : '(' = c := by simpa using hc
    decide
  have hinner := (hplace.mono (Nat.le_succ limit)).enter (Nat.lt_succ_of_le h.le)
    (between_append _ ['('] _) (.refl _)
  exact ⟨text, htext.toBetween, _, by simp, fits_of_word bareWord_a hinner⟩

theorem AfterOperand.canFollow_blank (h : AfterOperand limit input n q) :
    CanFollow limit input q [' '] := by
  obtain ⟨text, htext⟩ := h.begins
  have hplace := htext.moved ([' '] ++ ending n) fun _ =>
    not_bare_gap_append (by simp) blank_space _
  exact ⟨text, htext.toBetween, _, by simp, fits_of_word bareWord_a
    (hplace.pass (.or (.blanks (gap_append _ _ blank_space) (by simp))))⟩

theorem AfterOperand.fits_and (h : AfterOperand limit input n q) (hgap : Gap q gap r)
    (hne : gap ≠ []) : ∃ text, Between ⟨0, input.toList⟩ text r ∧
      Fits limit (String.ofList (text ++ (Connective.and.keyword.toList ++ ([' '] ++ ending n)))) := by
  obtain ⟨text, htext⟩ := h.begins
  have hplace := htext.moved (gap ++ (Connective.and.keyword.toList ++ ([' '] ++ ending n)))
    fun _ => not_bare_gap_append hne hgap.blank _
  have hmark := AndSeparator.mk (gap_append q.offset _ hgap.blank) hne (bareRun_keyword .and _ n)
    (gap_append _ _ blank_space) (by simp)
  have hfits := fits_of_word bareWord_a (hplace.pass (.and hmark))
  rw [← List.append_assoc] at hfits
  exact ⟨text ++ gap, htext.toBetween.trans hgap.toBetween, hfits⟩

theorem AfterOperand.canFollow_and (h : AfterOperand limit input n q) (hgap : Gap q gap r)
    (hne : gap ≠ []) : CanFollow limit input r (Connective.and.keyword.toList ++ [' ']) := by
  obtain ⟨text, htext, hfits⟩ := h.fits_and hgap hne
  exact ⟨text, htext, _, by simp, hfits⟩

theorem extendable_or {follow : List Char → Prop}
    (h : Begins follow (AfterOperand limit · n ·) input text q) (hgap : Gap q gap r)
    (hfollow : ∀ rest, follow (gap ++ (Connective.or.keyword.toList ++ rest))) :
    Extendable (Fits limit) (text ++ gap ++ Connective.or.keyword.toList) := by
  have hplace := h.moved _ (hfollow ([' '] ++ ending n))
  have hmark := OrSeparator.spelled (gap_append q.offset _ hgap.blank) (bareRun_keyword .or _ n)
    (gap_append _ _ blank_space)
  exact ⟨_, by simp, fits_of_word bareWord_a (hplace.pass (.or hmark))⟩

theorem bareWord_append_or {w : List Char} (hw : BareWord w) :
    BareWord (w ++ Connective.or.keyword.toList) := by
  obtain ⟨c, cs, rfl⟩ := List.exists_cons_of_ne_nil hw.nonempty
  refine ⟨by simp, fun d hd => ?_, hw.unquoted, fun op heq => ?_⟩
  · exact (List.mem_append.mp hd).elim (hw.bare d) (bare_keyword .or d)
  · have hreverse := congrArg List.reverse heq
    cases op <;> simp [Connective.keyword] at hreverse

theorem bareWord_or_append {w : List Char} (hw : BareWord w) :
    BareWord (Connective.or.keyword.toList ++ w) := by
  refine ⟨by simp [Connective.keyword], fun d hd => ?_, ?_, fun op heq => ?_⟩
  · exact (List.mem_append.mp hd).elim (bare_keyword .or d) (hw.bare d)
  · simp [Connective.keyword, isQuote]
  · cases op with
    | and => simp [Connective.keyword] at heq
    | or => exact hw.nonempty (by simpa using heq)

theorem AfterOperand.canFollow_or (h : AfterOperand limit input n q) (hgap : Gap q gap r) :
    CanFollow limit input r Connective.or.keyword.toList := by
  by_cases hne : gap = []
  · subst hne
    rcases h.free_or_bare with ⟨text, c, hfree, -⟩ | ⟨p, text, w, htext, hrun, hw⟩
    · exact ⟨_, hfree.toBetween.trans hgap.toBetween, extendable_or hfree hgap fun _ => trivial⟩
    · -- The keyword becomes the end of the word.
      have hplace := htext.moved (w ++ Connective.or.keyword.toList ++ List.replicate n ')') (by
        rw [hrun.rest_eq, List.append_assoc]
        exact stopsLike_of_ne_nil hw.nonempty _ _)
      exact ⟨_, (htext.toBetween.trans hrun.toBetween).trans hgap.toBetween, _, by simp,
        fits_of_word (bareWord_append_or hw) hplace⟩
  · obtain ⟨text, htext⟩ := h.begins
    exact ⟨text ++ gap, htext.toBetween.trans hgap.toBetween, extendable_or htext hgap
      fun _ _ => not_bare_gap_append hne hgap.blank _⟩

theorem AfterOperand.fits_close (h : AfterOperand limit input n q) (hgap : Gap q gap r) :
    ∃ text, Between ⟨0, input.toList⟩ text r ∧
      Fits limit (String.ofList (text ++ List.replicate n ')')) := by
  obtain ⟨text, htext⟩ := h.begins
  have hplace := htext.moved (gap ++ List.replicate n ')') fun _ =>
    not_bare_gap_replicate hgap.blank _
  have hfits := fits_of_after hgap.blank hplace
  rw [← List.append_assoc] at hfits
  exact ⟨text ++ gap, htext.toBetween.trans hgap.toBetween, hfits⟩

theorem AfterOperand.canFollow_close (h : AfterOperand limit input (n + 1) q) (hgap : Gap q gap r) :
    CanFollow limit input r [')'] := by
  obtain ⟨text, htext, hfits⟩ := h.fits_close hgap
  exact ⟨text, htext, _, by simp [List.replicate_succ], hfits⟩

theorem AfterOperand.fits_prefix (h : AfterOperand limit input 0 q) (hgap : Gap q gap r) :
    ∃ text, Between ⟨0, input.toList⟩ text r ∧ Fits limit (String.ofList text) := by
  obtain ⟨text, htext, hfits⟩ := h.fits_close hgap
  rw [List.replicate_zero, List.append_nil] at hfits
  exact ⟨text, htext, hfits⟩

theorem literalBody_of_eq_none {quote : Char} {seen rest : List Char}
    (h : Scan.literalBody quote seen rest = none) :
    ∃ more, LiteralBody quote (rest ++ more) ∧ (more = [] ∨ more = [quote]) := by
  fun_induction Scan.literalBody quote seen rest with
  | case1 seen => exact ⟨[], .nil, .inl rfl⟩
  | case2 seen => exact ⟨[quote], .escaped quote .nil, .inr rfl⟩
  | case3 seen c rest ih =>
    obtain ⟨more, hbody, hmore⟩ := ih h
    exact ⟨more, .escaped c hbody, hmore⟩
  | case4 => cases h
  | case5 seen c rest hone hpair hc ih =>
    obtain ⟨more, hbody, hmore⟩ := ih h
    have hslash : c ≠ '\\' := by
      rintro rfl
      cases rest with
      | nil => exact hone rfl rfl
      | cons d ds => exact hpair _ _ rfl rfl
    exact ⟨more, .plain hc hslash hbody, hmore⟩

theorem OperandWithin.fits_quote (h : OperandWithin limit input n p) {quote : Char}
    {rest : List Char} (hrest : p.rest = quote :: rest) (hquote : isQuote quote = true)
    (hbody : Scan.literalBody quote [] rest = none) :
    ∃ text more, Between ⟨0, input.toList⟩ text (p.advance p.rest) ∧ (more = [] ∨ more = [quote]) ∧
      Fits limit (String.ofList (text ++ (more ++ [quote] ++ List.replicate n ')'))) := by
  obtain ⟨text, htext⟩ := h.begins
  obtain ⟨more, hliteral, hmore⟩ := literalBody_of_eq_none hbody
  have hplace := htext.moved (quote :: (rest ++ more) ++ [quote] ++ List.replicate n ')') (by
    rw [hrest]
    exact id)
  have hword := Word.quoted hquote hliteral (between_append p.offset _ (List.replicate n ')'))
  refine ⟨text ++ p.rest, more, htext.toBetween.trans (between_advance List.prefix_rfl), hmore, ?_⟩
  have hfits : Fits limit _ := hplace.derives hword rfl
  rw [hrest]
  simpa using hfits

theorem OperandWithin.canFollow_quote (h : OperandWithin limit input n p) {quote : Char}
    {rest : List Char} (hrest : p.rest = quote :: rest) (hquote : isQuote quote = true)
    (hbody : Scan.literalBody quote [] rest = none) :
    CanFollow limit input (p.advance p.rest) [quote] := by
  obtain ⟨text, more, htext, hmore, hfits⟩ := h.fits_quote hrest hquote hbody
  refine ⟨text, htext, _, ?_, hfits⟩
  rcases hmore with rfl | rfl <;> simp

theorem clear_or_append {w : List Char} (hw : BareWord w) (offset : Nat) (rest : List Char) :
    Clear ⟨offset, Connective.or.keyword.toList ++ (w ++ rest)⟩ := by
  obtain ⟨c, cs, rfl⟩ := List.exists_cons_of_ne_nil hw.nonempty
  have hc : isBare c = true := hw.bare c (by simp)
  have hrun : bareRun (Connective.or.keyword.toList ++ (c :: cs ++ rest)) =
      Connective.or.keyword.toList ++ c :: bareRun (cs ++ rest) := by
    rw [bareRun, List.takeWhile_append_of_pos (bare_keyword .or)]
    simp [bareRun, hc]
  -- Neither keyword is the whole run: `or` is only its beginning.
  refine ⟨by simp [Connective.keyword, isBlank], fun op => ?_⟩
  rw [hrun]
  cases op <;> simp [Connective.keyword]

theorem OperandWithin.extendable_word (h : OperandWithin limit input n p) :
    ∃ text, Between ⟨0, input.toList⟩ text p ∧ ∀ w, BareWord w →
      (Extendable (fun longer => ∃ t, Derives longer t) (text ++ w) ↔ ¬ Tight text) := by
  cases h.landing with
  | @loose q text lead htext hlead hcases htight =>
    refine ⟨text ++ lead, htext.toBetween.trans hlead, fun w hw => iff_of_true ?_ htight⟩
    have hlong : BareWord (lead ++ w) := by
      rcases hcases with rfl | rfl
      · exact hw
      · exact bareWord_or_append hw
    obtain ⟨t, ht, -⟩ := fits_of_word hlong (htext.moved (lead ++ w ++ List.replicate n ')') trivial)
    exact ⟨_, by simp, t, ht⟩
  | @tight q text htext hlead htight =>
    refine ⟨_, htext.toBetween.trans hlead, fun w hw => iff_of_false ?_ (not_not_intro htight)⟩
    rintro ⟨longer, ⟨rest, hrest⟩, t, ht⟩
    have hafter := htext.moved (Connective.or.keyword.toList ++ (w ++ rest)) trivial
    rw [← List.append_assoc, ← List.append_assoc, hrest, String.ofList_toList] at hafter
    have hclose := hafter.atClose ht (clear_or_append hw _ _)
    exact absurd (hclose 'o' (by simp [Connective.keyword])) (by decide)

end Extension

end SearchFilter.Query
