import SearchFilter.Proofs.Diagnostics

/-! The hint to remove a closing parenthesis. Groups are counted in the text alone, by a scan that knows
literals from bare runs, and the count agrees with the groups that are open at a place of the grammar. At
a parenthesis that is to be removed no group is open, except where an operand is missing after a
connective. -/

namespace SearchFilter.Query

open Text Phrase

inductive Zone where
  | between
  | bare
  | literal (quote : Char)
  | escaped (quote : Char)

/-- The zone after one more character. A quote inside a bare run does not start a literal. -/
def Zone.next : Zone → Char → Zone
  | between, c => if isQuote c then literal c else if isBare c then bare else between
  | bare, c => if isBare c then bare else between
  | literal quote, c =>
    if c = '\\' then escaped quote else if c = quote then between else literal quote
  | escaped quote, _ => literal quote

def Zone.outside : Zone → Bool
  | between | bare => true
  | literal _ | escaped _ => false

def countStep (state : Nat × Zone) (c : Char) : Nat × Zone :=
  let count :=
    if !state.2.outside then state.1
    else if c = '(' then state.1 + 1
    else if c = ')' then state.1 - 1
    else state.1
  (count, state.2.next c)

/-- The number of groups that a text opens and does not close. -/
def openGroups (text : List Char) : Nat :=
  (text.foldl countStep (0, .between)).1

inductive Settled : Zone → List Char → Prop
  | between (rest : List Char) : Settled .between rest
  | bare {rest : List Char} : (∀ c ∈ rest.head?, isBare c = false) → Settled .bare rest

def Counts (n : Nat) (p : Position) (m : Nat) (q : Position) : Prop :=
  ∃ text, Between p text q ∧ ∀ zone, Settled zone p.rest →
    ∃ zone', Settled zone' q.rest ∧ text.foldl countStep (n, zone) = (m, zone')

section Counting

variable {n m k : Nat} {p q r : Position} {c : Char} {zone : Zone} {text gap rest : List Char}
  {t mark : SyntaxTree}

theorem Counts.trans (h : Counts n p m q) (h' : Counts m q k r) : Counts n p k r := by
  obtain ⟨a, ha, hcount⟩ := h
  obtain ⟨b, hb, hcount'⟩ := h'
  refine ⟨a ++ b, ha.trans hb, fun zone hzone => ?_⟩
  obtain ⟨zone', hzone', heq⟩ := hcount zone hzone
  obtain ⟨zone'', hzone'', heq'⟩ := hcount' zone' hzone'
  exact ⟨zone'', hzone'', by rw [List.foldl_append, heq, heq']⟩

theorem Settled.outside (h : Settled zone rest) : zone.outside = true := by
  cases h <;> rfl

theorem Settled.eq_between (h : Settled zone rest) (hc : c ∈ rest.head?) (hbare : isBare c = true) :
    zone = .between := by
  cases h with
  | between => rfl
  | bare hstop =>
    rw [hstop c hc] at hbare
    cases hbare

theorem foldl_countStep_eq {state : Nat × Zone} (h : ∀ c ∈ text, countStep state c = state) :
    text.foldl countStep state = state := by
  induction text with
  | nil => rfl
  | cons c cs ih =>
    rw [List.foldl_cons, h c List.mem_cons_self]
    exact ih fun d hd => h d (List.mem_cons_of_mem c hd)

theorem Zone.next_eq_between (hzone : zone.outside = true) (hc : isBare c = false) :
    zone.next c = .between := by
  have hquote : isQuote c = false := by
    by_contra hquote
    rw [Bool.not_eq_false] at hquote
    rw [isBare_of_isQuote hquote] at hc
    cases hc
  cases zone with
  | between => simp [next, hquote, hc]
  | bare => simp [next, hc]
  | literal quote | escaped quote => cases hzone

theorem countStep_of_ne (hopen : c ≠ '(') (hclose : c ≠ ')') (n : Nat) (zone : Zone) :
    countStep (n, zone) c = (n, zone.next c) := by
  simp [countStep, hopen, hclose]

theorem countStep_blank (hzone : zone.outside = true) (hc : isBlank c = true) (n : Nat) :
    countStep (n, zone) c = (n, .between) := by
  have hne : c ≠ '(' ∧ c ≠ ')' := by
    constructor <;> (rintro rfl; exact absurd hc (by decide))
  rw [countStep_of_ne hne.1 hne.2, Zone.next_eq_between hzone (by simp [isBare, hc])]

theorem Gap.counts (h : Gap p gap q) (n : Nat) : Counts n p n q := by
  refine ⟨gap, h.toBetween, fun zone hzone => ?_⟩
  cases gap with
  | nil =>
    have hsame : p.rest = q.rest := h.rest_eq
    exact ⟨zone, hsame ▸ hzone, rfl⟩
  | cons c cs =>
    have hfirst := countStep_blank hzone.outside (h.blank c List.mem_cons_self) n
    have hothers : cs.foldl countStep (n, .between) = (n, .between) :=
      foldl_countStep_eq fun d hd => countStep_blank rfl (h.blank d (List.mem_cons_of_mem c hd)) n
    exact ⟨.between, .between _, by rw [List.foldl_cons, hfirst, hothers]⟩

theorem BareRun.counts (h : BareRun p text q) (hne : text ≠ [])
    (hquote : ∀ c ∈ text.head?, isQuote c = false) (n : Nat) : Counts n p n q := by
  obtain ⟨c, cs, rfl⟩ := List.exists_cons_of_ne_nil hne
  refine ⟨c :: cs, h.toBetween, fun zone hzone => ?_⟩
  have hbare : ∀ d ∈ c :: cs, countStep (n, .bare) d = (n, .bare) := by
    intro d hd
    have hd := h.bare d hd
    have hparens := ne_parens_of_isBare hd
    rw [countStep_of_ne hparens.1 hparens.2]
    simp [Zone.next, hd]
  have hc := h.bare c List.mem_cons_self
  have hparens := ne_parens_of_isBare hc
  obtain rfl := hzone.eq_between (by rw [h.rest_eq]; rfl) hc
  have hfirst : countStep (n, .between) c = (n, .bare) := by
    rw [countStep_of_ne hparens.1 hparens.2]
    simp [Zone.next, hquote c rfl, hc]
  refine ⟨.bare, .bare h.maximal, ?_⟩
  rw [List.foldl_cons, hfirst]
  exact foldl_countStep_eq fun d hd => hbare d (List.mem_cons_of_mem c hd)

theorem countStep_literal (n : Nat) (quote c : Char) :
    countStep (n, .literal quote) c = (n, (Zone.literal quote).next c) := rfl

theorem foldl_countStep_literalBody {quote : Char} (h : LiteralBody quote text) (n : Nat) :
    text.foldl countStep (n, .literal quote) = (n, .literal quote) := by
  induction h with
  | nil => rfl
  | escaped c _ ih => exact ih
  | plain hc hslash _ ih =>
    rw [List.foldl_cons, countStep_literal]
    simpa [Zone.next, hc, hslash] using ih

theorem counts_literal {quote : Char} {body : List Char} (hquote : isQuote quote = true)
    (hbody : LiteralBody quote body) (h : Between p (quote :: body ++ [quote]) q) (n : Nat) :
    Counts n p n q := by
  refine ⟨_, h, fun zone hzone => ⟨.between, .between _, ?_⟩⟩
  have hbare := isBare_of_isQuote hquote
  have hparens := ne_parens_of_isBare hbare
  obtain rfl := hzone.eq_between (by rw [h.rest_eq]; rfl) hbare
  have hopen : countStep (n, .between) quote = (n, .literal quote) := by
    rw [countStep_of_ne hparens.1 hparens.2]
    simp [Zone.next, hquote]
  have hclose : countStep (n, .literal quote) quote = (n, .between) := by
    rw [countStep_literal]
    simp [Zone.next, Scan.ne_backslash_of_isQuote hquote]
  rw [List.cons_append, List.foldl_cons, hopen, List.foldl_append,
    foldl_countStep_literalBody hbody, List.foldl_cons, hclose]
  rfl

theorem counts_open (h : Between p ['('] q) (n : Nat) : Counts n p (n + 1) q := by
  refine ⟨_, h, fun zone hzone => ⟨.between, .between _, ?_⟩⟩
  have hnext : zone.next '(' = .between := Zone.next_eq_between hzone.outside (by decide)
  simp [countStep, hzone.outside, hnext]

theorem counts_close (h : Between p [')'] q) (n : Nat) : Counts (n + 1) p n q := by
  refine ⟨_, h, fun zone hzone => ⟨.between, .between _, ?_⟩⟩
  have hnext : zone.next ')' = .between := Zone.next_eq_between hzone.outside (by decide)
  simp [countStep, hzone.outside, hnext]

theorem BareRun.counts_keyword {op : Connective} (h : BareRun p op.keyword.toList q) (n : Nat) :
    Counts n p n q := by
  refine h.counts ?_ ?_ n
  · cases op <;> decide
  · cases op <;> simp [Connective.keyword, isQuote]

theorem Separator.counts (h : Separator p mark q) (n : Nat) : Counts n p n q := by
  cases h with
  | or h =>
    cases h with
    | spelled hbefore hname hafter =>
      exact (hbefore.counts n).trans ((hname.counts_keyword n).trans (hafter.counts n))
    | blanks hgap => exact hgap.counts n
  | and h =>
    obtain ⟨hbefore, -, hname, hafter, -⟩ := h
    exact (hbefore.counts n).trans ((hname.counts_keyword n).trans (hafter.counts n))

theorem counts_operands {op : Tag} {separator item : Phrase}
    (hs : ∀ p t q, separator p t q → Counts n p n q) (hi : ∀ p t q, item p t q → Counts n p n q)
    (h : Operands op separator item p t q) : Counts n p n q := by
  obtain ⟨head, pairs, _, rfl, hhead, hpairs⟩ := h.exists_chain
  refine (hi _ _ _ hhead).trans ?_
  clear h hhead
  induction hpairs with
  | nil q => exact (Gap.refl q).counts n
  | cons hpair _ ih =>
    obtain ⟨hmark, hright⟩ := hpair
    exact (hs _ _ _ hmark).trans ((hi _ _ _ hright).trans ih)

theorem Phrase.Primary.counts (h : Primary p t q) (n : Nat) : Counts n p n q := by
  refine h.induct (motive := fun p _ q => ∀ n, Counts n p n q) ?_ ?_ n
  · intro p q r s u v before after t hopen hbefore ht hafter hclose n
    have hinner : Counts (n + 1) r (n + 1) s :=
      counts_operands (fun _ _ _ h => (Separator.or h).counts _)
        (fun _ _ _ => counts_operands (fun _ _ _ h => (Separator.and h).counts _)
          fun _ _ _ h => h _) ht
    exact (counts_open hopen n).trans ((hbefore.counts _).trans (hinner.trans
      ((hafter.counts _).trans (counts_close hclose n))))
  · intro p q t hword n
    cases hword with
    | quoted hquote hbody hspan => exact counts_literal hquote hbody hspan n
    | bare hrun hbare => exact hrun.counts hbare.nonempty hbare.unquoted n

end Counting

section Places

variable {limit n : Nat} {input : String} {p q r : Position} {gap before : List Char}

theorem OperandWithin.counts (h : OperandWithin limit input n p) :
    Counts 0 ⟨0, input.toList⟩ n p := by
  refine h.reached.induct (motive := fun n p => Counts 0 ⟨0, input.toList⟩ n p) ?_ ?_ ?_
  · exact fun hgap => hgap.counts 0
  · intro n p t q mark r _ ih ht hmark
    exact ih.trans ((ht.1.counts n).trans (hmark.counts n))
  · intro n p q gap r _ ih hopen hgap
    exact ih.trans ((counts_open hopen n).trans (hgap.counts _))

theorem AfterOperand.counts (h : AfterOperand limit input n q) : Counts 0 ⟨0, input.toList⟩ n q := by
  obtain ⟨p, t, hp, ht⟩ := h
  exact hp.counts.trans (ht.1.counts n)

theorem Counts.foldl_eq (h : Counts 0 ⟨0, input.toList⟩ n p)
    (hbefore : Between ⟨0, input.toList⟩ before q) (hoffset : p.offset = q.offset) :
    ∃ zone, Settled zone p.rest ∧ before.foldl countStep (0, .between) = (n, zone) := by
  obtain ⟨text, htext, hcount⟩ := h
  obtain rfl := htext.text_eq hbefore hoffset
  exact hcount .between (.between _)

theorem Counts.openGroups_eq (h : Counts 0 ⟨0, input.toList⟩ n p)
    (hbefore : Between ⟨0, input.toList⟩ before q) (hoffset : p.offset = q.offset) :
    openGroups before = n := by
  obtain ⟨zone, -, heq⟩ := h.foldl_eq hbefore hoffset
  rw [openGroups, heq]

/-- An operand is wanted at `p`, after a connective that is written out. -/
inductive Wanting (limit : Nat) (input : String) (n : Nat) (p : Position) : Prop
  | mk {q r s : Position} {before after : List Char} (op : Connective) :
    AfterOperand limit input n q → Gap q before r → BareRun r op.keyword.toList s → Gap s after p →
    (op = .and → before ≠ []) → Wanting limit input n p

theorem Wanting.counts (h : Wanting limit input n p) : Counts 0 ⟨0, input.toList⟩ n p := by
  obtain ⟨op, hq, hbefore, hname, hafter, -⟩ := h
  exact hq.counts.trans ((hbefore.counts n).trans ((hname.counts_keyword n).trans (hafter.counts n)))

inductive Standing (limit : Nat) (input : String) (n : Nat) (p : Position) : Prop
  | start : n = 0 → Standing limit input n p
  | opened {text gap : List Char} : Between ⟨0, input.toList⟩ (text ++ '(' :: gap) p →
    (∀ c ∈ gap, isBlank c = true) → Standing limit input n p
  | wanting : Wanting limit input n p → Standing limit input n p
  | ended {q : Position} {gap : List Char} :
    AfterOperand limit input n q → Gap q gap p → Standing limit input n p

theorem OperandWithin.standing (h : OperandWithin limit input n p) : Standing limit input n p := by
  refine h.reached.induct (motive := fun n p => n ≤ limit → Standing limit input n p) ?_ ?_ ?_ h.le
  · exact fun _ _ => .start rfl
  · intro n p t q mark r hp _ ht hmark hn
    have hq : AfterOperand limit input n q := ⟨p, t, ⟨hn, hp⟩, ht⟩
    cases hmark with
    | or hmark =>
      cases hmark with
      | spelled hbefore hname hafter => exact .wanting (.mk .or hq hbefore hname hafter nofun)
      | blanks hgap => exact .ended hq hgap
    | and hmark =>
      obtain ⟨hbefore, hne, hname, hafter, -⟩ := hmark
      exact .wanting (.mk .and hq hbefore hname hafter fun _ => hne)
  · intro n p q gap r hp _ hopen hgap hn
    obtain ⟨text, htext⟩ := OperandWithin.begins ⟨Nat.le_of_succ_le hn, hp⟩
    exact .opened (htext.toBetween.trans (hopen.trans hgap.toBetween)) hgap.blank

theorem Awaited.standing {offset : Nat} {what : Expectation} (h : Awaited limit input offset what)
    (hquote : ∀ quote, what ≠ .closingQuote quote) :
    ∃ n p, p.offset = offset ∧ Counts 0 ⟨0, input.toList⟩ n p ∧ Standing limit input n p := by
  cases h with
  | group hp | word hp => exact ⟨_, _, rfl, hp.counts, hp.standing⟩
  | closingQuote => exact absurd rfl (hquote _)
  | separator hq => exact ⟨_, _, rfl, hq.counts, .ended hq (.refl _)⟩
  | or hq hgap | and hq hgap | close hq hgap | endOfInput hq hgap =>
    exact ⟨_, _, rfl, hq.counts.trans (hgap.counts _), .ended hq hgap⟩
  | afterAnd hq hgap hne hname =>
    have hwanting := Wanting.mk .and hq hgap hname (.refl _) fun _ => hne
    exact ⟨_, _, rfl, hwanting.counts, .wanting hwanting⟩

theorem AfterOperand.close (h : AfterOperand limit input (n + 1) q) (hgap : Gap q gap r)
    {v : Position} (hclose : Between r [')'] v) : AfterOperand limit input n v := by
  obtain ⟨p, t, ⟨hle, hp⟩, ht⟩ := h
  -- From every place inside the group, an expression up to `q` belongs to it.
  refine hp.induct (motive := fun m p => m = n + 1 → ∀ t, Limited (limit - m) OrExpr p t q →
    AfterOperand limit input n v) nofun ?_ ?_ rfl _ (orExpr_single ht)
  · intro m p t q' mark r' _ ih ht hmark hm u hu
    have ht : Limited (limit - m) Primary p t q' := ht
    rw [← orExpr_limited] at hu
    obtain ⟨u', hu'⟩ := orExpr_cons ht hmark hu
    rw [orExpr_limited] at hu'
    exact ih hm u' hu'
  · rintro m g q' gap' r' hg - hopen hinner hm u ⟨hu, hnesting⟩
    obtain rfl := Nat.succ.inj hm
    refine ⟨g, _, ⟨Nat.le_of_succ_le hle, hg⟩, .group hopen hinner hu hgap hclose, ?_⟩
    rw [SyntaxTree.nesting_tagged_one, if_pos rfl]
    omega

end Places

theorem isWhiteSpace_of_isBlank {c : Char} (h : isBlank c = true) : isWhiteSpace c = true := by
  simp [isWhiteSpace, h]

theorem getLast?_trimEnd {text gap : List Char} {c : Char} (hc : isWhiteSpace c = false)
    (h : ∀ d ∈ gap, isBlank d = true) : (trimEnd (text ++ c :: gap)).getLast? = some c := by
  have hspace : ∀ d ∈ gap.reverse, isWhiteSpace d = true := by
    intro d hd
    exact isWhiteSpace_of_isBlank (h d (List.mem_reverse.mp hd))
  have hdrop : (text ++ c :: gap).reverse.dropWhile isWhiteSpace = c :: text.reverse := by
    rw [List.reverse_append, List.reverse_cons, List.append_assoc, List.singleton_append,
      List.dropWhile_append_of_pos hspace]
    exact List.dropWhile_cons_of_neg (by simp [hc])
  rw [trimEnd, hdrop, List.getLast?_reverse]
  rfl

theorem getLast?_trimEnd_open {text gap : List Char} (h : ∀ c ∈ gap, isBlank c = true) :
    (trimEnd (text ++ '(' :: gap)).getLast? = some '(' :=
  getLast?_trimEnd (by decide) h

section Hints

variable {limit n : Nat} {input : String} {e : SyntaxError} {q r : Position}
  {before gap rest : List Char}

theorem SyntaxError.of_dropParenthesis (h : e.hint = some .dropParenthesis) :
    (∀ quote, .closingQuote quote ∉ e.expected) ∧ e.found = some ')' ∧
      (trimEnd e.split.1).getLast? ≠ some '(' := by
  obtain ⟨happlies, hquote⟩ := applies_of_hint h
  exact ⟨hquote nofun, happlies⟩

theorem AfterOperand.lt_offset (h : AfterOperand limit input (n + 1) q) (hgap : Gap q gap r)
    (hrest : r.rest = ')' :: rest) (he : parse input limit = .error (.syntaxError e)) :
    r.offset < e.offset := by
  have hclose : Between r [')'] (r.advance [')']) := between_advance ⟨rest, by simp [hrest]⟩
  have hnext : r.offset < (r.advance [')']).offset := Nat.lt_succ_self _
  -- The group that it closes is an operand, and something is noted at its end or after it.
  exact hnext.trans_le (le_offset_of_touches he (Grammar.query_touches (h.close hgap hclose)))

end Hints
end SearchFilter.Query

namespace SearchFilter

open Query

/-- At a parenthesis that is to be removed a group is open only if an operand is missing after a
connective. -/
theorem dropParenthesis_iff_wanting {input : String} {maxDepth : Nat} {e : SyntaxError}
    (h : parse input maxDepth = .error (.syntaxError e)) (hhint : e.hint = some .dropParenthesis) :
    ∃ before after, input.toList = before ++ ')' :: after ∧ Text.byteLength before = e.offset ∧
      (openGroups before ≠ 0 ↔
        ∃ n p, p.offset = e.offset ∧ Wanting maxDepth input (n + 1) p) := by
  obtain ⟨hquote, hfound, hfill⟩ := SyntaxError.of_dropParenthesis hhint
  obtain ⟨-, hne, hawaited⟩ := awaited_of_syntaxError h
  obtain ⟨what, hwhat⟩ := List.exists_mem_of_ne_nil _ hne
  obtain ⟨n, r, hoffset, hcounts, hstanding⟩ := (hawaited what hwhat).standing
    fun quote heq => hquote quote (heq ▸ hwhat)
  obtain ⟨before, hbefore, -⟩ := id hcounts
  have hsplit := split_of_syntaxError h hbefore hoffset
  rw [hsplit] at hfill
  rw [SyntaxError.found, hsplit] at hfound
  obtain ⟨after, hafter⟩ := List.head?_eq_some_iff.mp hfound
  have hlength : Text.byteLength before = e.offset := by
    rw [← hoffset, hbefore.offset_eq, Nat.zero_add]
  refine ⟨before, after, hafter ▸ hbefore.rest_eq, hlength, ?_, ?_⟩
  · rw [hcounts.openGroups_eq hbefore rfl]
    intro hopen
    obtain ⟨m, rfl⟩ := Nat.exists_eq_succ_of_ne_zero hopen
    -- After an operand the parenthesis would have been read; after an opening one the hint is another.
    cases hstanding with
    | start hzero => exact absurd hzero hopen
    | wanting hwanting => exact ⟨m, r, hoffset, hwanting⟩
    | ended hq hgap => exact absurd hoffset (hq.lt_offset hgap hafter h).ne
    | opened htext hgap =>
      obtain rfl := hbefore.text_eq htext rfl
      exact absurd (getLast?_trimEnd_open hgap) hfill
  · rintro ⟨m, p, hp, hwanting⟩
    rw [hwanting.counts.openGroups_eq hbefore (hp.trans hoffset.symm)]
    exact Nat.succ_ne_zero m

theorem dropParenthesis_iff_wanting_closed :
    ∃ e, parse "('(' or a) b)" 1 = .error (.syntaxError e) ∧ e.hint = some .dropParenthesis ∧
      e.offset = 12 ∧ openGroups "('(' or a) b".toList = 0 ∧
      ¬ ∃ n p, p.offset = 12 ∧ Wanting 1 "('(' or a) b)" (n + 1) p := by
  have herror : parse "('(' or a) b)" 1 = .error (.syntaxError ⟨"('(' or a) b)", 12,
      [.whitespace, .keyword .or, .endOfInput], [.query, .orExpr, .andExpr, .andSeparator]⟩) := by
    decide +kernel
  have hhint : SyntaxError.hint ⟨"('(' or a) b)", 12, [.whitespace, .keyword .or, .endOfInput],
      [.query, .orExpr, .andExpr, .andSeparator]⟩ = some .dropParenthesis := by decide +kernel
  obtain ⟨before, after, hinput, hlength, hiff⟩ := dropParenthesis_iff_wanting herror hhint
  have hbefore : before = "('(' or a) b".toList := by
    have hsplit := splitAtByte_append before (')' :: after)
    have hwhole : Text.splitAtByte 12 "('(' or a) b)".toList =
        some ("('(' or a) b".toList, [')']) := by decide +kernel
    rw [← hinput, hlength, hwhole] at hsplit
    exact (congrArg Prod.fst (Option.some.inj hsplit)).symm
  have hclosed : openGroups "('(' or a) b".toList = 0 := by decide +kernel
  rw [hbefore, hclosed] at hiff
  exact ⟨_, herror, hhint, rfl, hclosed, fun hwanting => hiff.mpr hwanting rfl⟩

/-- The parenthesis closes the group, but the hint is to remove it. -/
theorem dropParenthesis_in_group :
    ∃ e, parse "(a or )" 128 = .error (.syntaxError e) ∧ e.hint = some .dropParenthesis ∧
      e.offset = Text.byteLength "(a or ".toList ∧ openGroups "(a or ".toList = 1 := by
  have herror : parse "(a or )" 128 = .error (.syntaxError ⟨"(a or )", 6, [.char '(', .word],
      [.query, .orExpr, .andExpr, .primary, .group, .orExpr, .andExpr, .primary, .group]⟩) := by
    decide +kernel
  exact ⟨_, herror, by decide +kernel, by decide +kernel, by decide +kernel⟩

end SearchFilter
