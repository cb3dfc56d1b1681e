import SearchFilter.Proofs.Places

/-! Going on from a place. Where an operand has ended, the query can be ended too, by closing the groups
that are open. Conversely a text of the grammar goes on, from every place where an operand starts, with
an expression that ends where a group or the text does. -/

namespace SearchFilter.Query

open Text Phrase Relation

variable {limit n m : Nat} {input : String} {p q r s : Position} {t u mark : SyntaxTree}
  {gap gap' : List Char}

theorem Gap.trans (h : Gap p gap q) (h' : Gap q gap' r) : Gap p (gap ++ gap') r := by
  refine ⟨h.toBetween.trans h'.toBetween, fun c hc => ?_⟩
  rcases List.mem_append.mp hc with hc | hc
  · exact h.blank c hc
  · exact h'.blank c hc

theorem Separator.skip (h : Separator p mark q) (hgap : Gap q gap r) : ∃ mark', Separator p mark' r := by
  cases h with
  | or h =>
    cases h with
    | spelled hbefore hname hafter => exact ⟨_, .or (.spelled hbefore hname (hafter.trans hgap))⟩
    | blanks hblanks hne => exact ⟨_, .or (.blanks (hblanks.trans hgap) (by simp [hne]))⟩
  | and h =>
    obtain ⟨hbefore, hne, hname, hafter, hne'⟩ := h
    exact ⟨_, .and (.mk hbefore hne hname (hafter.trans hgap) (by simp [hne']))⟩

theorem OperandWithin.skip (h : OperandWithin limit input n p) (hgap : Gap p gap q) :
    OperandWithin limit input n q := by
  refine ⟨h.le, h.reached.induct (motive := fun n p =>
    ∀ {gap q}, Gap p gap q → OperandAt (limited limit) input n q) ?_ ?_ ?_ hgap⟩
  · intro start p hstart gap q hgap
    exact ⟨_, q, hstart.trans hgap, .refl⟩
  · intro n p t q mark r hp _ ht hmark gap s hgap
    obtain ⟨mark', hmark'⟩ := hmark.skip hgap
    exact hp.step (.pass ht hmark')
  · intro n p q inner r hp _ hopen hinner gap s hgap
    exact hp.step (.enter hopen (hinner.trans hgap))

theorem orExpr_cons {operand : Phrase} (ht : operand p t q) (hmark : Separator q mark r)
    (hu : Operands .or OrSeparator (Operands .and AndSeparator operand) r u s) :
    ∃ u', Operands .or OrSeparator (Operands .and AndSeparator operand) p u' s := by
  obtain ⟨first, ors, _, rfl, hfirst, hors⟩ := hu.exists_chain
  cases hmark with
  | or hmark => exact ⟨_, .of_star (.of_star ht (.nil q)) (.cons ⟨hmark, hfirst⟩ hors)⟩
  | and hmark =>
    obtain ⟨head, ands, _, rfl, hhead, hands⟩ := hfirst.exists_chain
    exact ⟨_, .of_star (.of_star ht (.cons ⟨hmark, hhead⟩ hands)) hors⟩

theorem orExpr_single (h : Limited n Primary p t q) :
    Limited n OrExpr p (.chain (.chain t []) []) q := by
  rw [← orExpr_limited]
  exact .of_star (.of_star h (.nil q)) (.nil q)

/-- From `p`, inside `n` groups, an expression and only the `n` closing parentheses follow. -/
def Completes (limit n : Nat) (p : Position) : Prop :=
  ∃ t q gap r, Limited (limit - n) OrExpr p t q ∧ Gap q gap r ∧ r.rest = List.replicate n ')'

theorem Completes.pass (h : Completes limit n r) (ht : Limited (limit - n) Primary p t q)
    (hmark : Separator q mark r) : Completes limit n p := by
  obtain ⟨u, q', gap, r', hu, hgap, hr'⟩ := h
  rw [← orExpr_limited] at hu
  obtain ⟨u', hu'⟩ := orExpr_cons ht hmark hu
  rw [orExpr_limited] at hu'
  exact ⟨u', q', gap, r', hu', hgap, hr'⟩

theorem Completes.enter (h : Completes limit (n + 1) r) (hn : n + 1 ≤ limit)
    (hopen : Between p ['('] q) (hgap : Gap q gap r) : Completes limit n p := by
  obtain ⟨t, s, gap', u, ⟨ht, hnesting⟩, hgap', hu⟩ := h
  have hclose : Between u [')'] (u.advance [')']) :=
    between_advance ⟨List.replicate n ')', by simp [hu, List.replicate_succ]⟩
  have hgroup : Limited (limit - n) Primary p (.tagged [(.paren, t)]) (u.advance [')']) := by
    refine ⟨.group hopen hgap ht hgap' hclose, ?_⟩
    rw [SyntaxTree.nesting_tagged_one, if_pos rfl]
    omega
  refine ⟨_, _, [], _, orExpr_single hgroup, .refl _, ?_⟩
  simp [Position.advance, hu, List.replicate_succ]

theorem AfterOperand.derives (h : AfterOperand limit input n q) (hgap : Gap q gap r)
    (hr : r.rest = List.replicate n ')') : ∃ t, Derives input t ∧ t.nesting ≤ limit := by
  obtain ⟨p, t, ⟨hn, start, s, hstart, hsteps⟩, ht⟩ := h
  have hlast : Completes limit n p := ⟨_, q, gap, r, orExpr_single ht, hgap, hr⟩
  obtain ⟨-, u, q', gap', r', ⟨hu, hnesting⟩, hgap', hr'⟩ := steps_induct hsteps hn hlast
    (fun ht hmark h => h.pass ht hmark) fun hn hopen hgap h => h.enter hn hopen hgap
  exact ⟨u, ⟨r', .mk hstart hu hgap' hr'⟩, hnesting⟩

theorem OperandWithin.derives (h : OperandWithin limit input n p) (hword : Word p t q)
    (hq : q.rest = List.replicate n ')') : ∃ t, Derives input t ∧ t.nesting ≤ limit := by
  have ht : limited limit n p t q := ⟨.word hword, by rw [hword.nesting_eq]; omega⟩
  exact AfterOperand.derives ⟨p, t, h, ht⟩ (.refl q) hq

section Unique

theorem Gap.end_eq (h : Gap p gap q) (hq : ∀ c ∈ q.rest.head?, isBlank c = false)
    (h' : Gap p gap' r) (hr : ∀ c ∈ r.rest.head?, isBlank c = false) : q = r := by
  rw [h.toBetween.eq_advance, h'.toBetween.eq_advance, ← h.takeWhile_eq hq, ← h'.takeWhile_eq hr]

theorem Scan.Reads.unique {α : Type} {x : Scan α} {a b : α} (h : x.Reads p a q)
    (h' : x.Reads p b r) : a = b ∧ q = r := by
  obtain ⟨s, hs, rfl⟩ := h { position := p } rfl
  obtain ⟨s', hs', rfl⟩ := h' { position := p } rfl
  rw [hs] at hs'
  cases hs'
  exact ⟨rfl, rfl⟩

theorem Scan.Reads.not_misses {α : Type} {x : Scan α} {a : α} (h : x.Reads p a q) : ¬ x.Misses p := by
  intro h'
  obtain ⟨s, hs, -⟩ := h { position := p } rfl
  obtain ⟨s', hs'⟩ := h' { position := p } rfl
  rw [hs] at hs'
  cases hs'

theorem Phrase.Primary.unique (ht : Primary p t q) (hu : Primary p u r) : q = r := by
  have hreads := Grammar.reads_primary (max t.nesting u.nesting)
  exact ((hreads _ _ _ ⟨ht, le_max_left ..⟩).unique (hreads _ _ _ ⟨hu, le_max_right ..⟩)).2

theorem Phrase.Primary.not_atClose (h : Primary p t q) : ¬ AtClose p := fun hclose =>
  (Grammar.reads_primary t.nesting _ _ _ ⟨h, le_rfl⟩).not_misses (Grammar.misses_primary hclose)

theorem Separator.unique (h : Separator p t q) (hq : Clear q) (h' : Separator p u r) (hr : Clear r) :
    q = r := by
  cases h with
  | or h =>
    cases h' with
    | or h' => exact ((Grammar.reads_orSeparator h hq).unique (Grammar.reads_orSeparator h' hr)).2
    | and h' =>
      have hmiss := Grammar.misses_andSeparator (Grammar.noAnd_of_orSeparator h hq)
      exact absurd hmiss (Grammar.reads_andSeparator h' hr).not_misses
  | and h =>
    cases h' with
    | or h' =>
      have hmiss := Grammar.misses_andSeparator (Grammar.noAnd_of_orSeparator h' hr)
      exact absurd hmiss (Grammar.reads_andSeparator h hq).not_misses
    | and h' => exact ((Grammar.reads_andSeparator h hq).unique (Grammar.reads_andSeparator h' hr)).2

theorem Separator.not_clear (h : Separator p t q) (hq : Clear q) : ¬ Clear p := by
  intro hp
  cases h with
  | or h => exact (Grammar.reads_orSeparator h hq).not_misses (Grammar.misses_orSeparator hp)
  | and h =>
    have hnoAnd : Grammar.NoAnd p := ⟨[], p, .refl p, hp.not_blank, hp.not_keyword .and⟩
    exact (Grammar.reads_andSeparator h hq).not_misses (Grammar.misses_andSeparator hnoAnd)

theorem Separator.not_closes (h : Separator p mark q) (hq : Clear q) (hopen : ¬ AtClose q) :
    ¬ Grammar.Closes p := by
  rintro ⟨gap, r, hgap, hclose⟩
  have hr := hclose.clear.not_blank
  -- The gap ends where the separator goes on, and that is not a parenthesis.
  have hkeyword : ∀ {before op s' s}, Gap p before s → BareRun s (Connective.keyword op).toList s' →
      False := by
    intro before op s' s hbefore hname
    have hne : op.keyword.toList ≠ [] := by cases op <;> decide
    obtain rfl := hbefore.end_eq (hname.not_blank hne) hgap hr
    refine hclose.clear.not_keyword op ?_
    exact hname.bareRun_eq
  cases h with
  | or h =>
    cases h with
    | spelled hbefore hname => exact hkeyword hbefore hname
    | blanks hblanks =>
      obtain rfl := hblanks.end_eq hq.not_blank hgap hr
      exact hopen hclose
  | and h =>
    obtain ⟨hbefore, -, hname, -⟩ := h
    exact hkeyword hbefore hname

end Unique

section Continuation

theorem Phrase.OrExpr.after (h : OrExpr p u q) (hq : Grammar.Closes q) (ht : Primary p t r) :
    Grammar.Closes r ∨ ∃ mark s u', Separator r mark s ∧ OrExpr s u' q := by
  obtain ⟨first, ors, _, rfl, hfirst, hors⟩ := h.exists_chain
  obtain ⟨head, ands, _, rfl, hhead, hands⟩ := hfirst.exists_chain
  clear h hfirst
  obtain rfl := ht.unique hhead
  cases hands with
  | cons hpair hands =>
    obtain ⟨hmark, hright⟩ := hpair
    exact .inr ⟨_, _, _, .and hmark, .of_star (.of_star hright hands) hors⟩
  | nil =>
    cases hors with
    | nil => exact .inl hq
    | cons hpair hors =>
      obtain ⟨hmark, hright⟩ := hpair
      exact .inr ⟨_, _, _, .or hmark, .of_star hright hors⟩

theorem OperandAt.continues (h : OperandAt (fun _ => Primary) input n p) (hd : Derives input t)
    (hp : Clear p) (hopen : ¬ AtClose p) : ∃ u q, OrExpr p u q ∧ Grammar.Closes q := by
  -- At each step on the way, the query can only go on as the step does.
  refine h.induct (motive := fun _ p => Clear p → ¬ AtClose p →
    ∃ u q, OrExpr p u q ∧ Grammar.Closes q) ?_ ?_ ?_ hp hopen
  · intro gap p hgap hp _
    obtain ⟨s, hbefore, ht, hafter, hs⟩ := hd
    obtain rfl := hgap.end_eq hp.not_blank hbefore (OrExpr.clear ht).not_blank
    exact ⟨_, _, ht, _, _, hafter, atClose_of_rest_eq_nil hs⟩
  · intro n p t q mark r _ ih ht hmark hr hopen
    obtain ⟨u, s, hu, hs⟩ := ih ht.clear ht.not_atClose
    rcases OrExpr.after hu hs ht with hcloses | ⟨mark', r', u', hmark', hu'⟩
    · exact absurd hcloses (hmark.not_closes hr hopen)
    · obtain rfl := hmark.unique hr hmark' (OrExpr.clear hu')
      exact ⟨u', s, hu', hs⟩
  · intro n p q gap r _ ih hparen hinner hr _
    have hhead := hparen.head?_eq (List.cons_ne_nil _ _)
    obtain ⟨u, s, hu, -⟩ := ih (clear_of_opening hhead)
      fun hclose => absurd (hclose '(' hhead) (by decide)
    obtain ⟨first, _, hfirst⟩ := OrExpr.exists_primary hu
    cases hfirst with
    | word hword => exact absurd hhead hword.head?_ne
    | group hparen' hbefore hu hafter hclose =>
      obtain rfl := hparen.eq_advance.trans hparen'.eq_advance.symm
      obtain rfl := hinner.end_eq hr.not_blank hbefore (OrExpr.clear hu).not_blank
      exact ⟨_, _, hu, _, _, hafter, atClose_of_between hclose⟩

theorem AfterOperand.atClose (h : AfterOperand limit input n q) (hd : Derives input t)
    (hq : Clear q) : AtClose q := by
  obtain ⟨p, u, hp, hu, -⟩ := h
  have hplace : OperandAt (fun _ => Primary) input n p := hp.reached.mono fun _ _ _ _ ht => ht.1
  obtain ⟨v, r, hv, hr⟩ := hplace.continues hd hu.clear hu.not_atClose
  rcases OrExpr.after hv hr hu with ⟨gap, s, hgap, hs⟩ | ⟨mark, s, v', hmark, hv'⟩
  · rwa [(Gap.refl q).end_eq hq.not_blank hgap hs.clear.not_blank]
  · exact absurd hq (hmark.not_clear (OrExpr.clear hv'))

end Continuation

end SearchFilter.Query
