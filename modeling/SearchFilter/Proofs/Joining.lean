import SearchFilter.Proofs.Respelling

/-! Queries made of queries. Two queries with blanks or a spelled `or` between them are read as the
alternatives of both, and a query in parentheses is a group, whatever the queries end and start with. -/

namespace SearchFilter

namespace Condition

/-- The operands of the `or`s on the left spine of an expression. -/
def Expr.alternatives : Expr → List Expr
  | binary .or left right => left.alternatives ++ [right]
  | e => [e]

namespace Expr

theorem alternatives_of_level_lt {e : Expr} (h : e.level < Connective.or.level) :
    e.alternatives = [e] := by
  cases e with
  | binary op left right =>
    cases op with
    | and => rfl
    | or => exact absurd h (by simp)
  | _ => rfl

theorem alternatives_foldl (es : List Expr) (left : Expr) :
    (es.foldl (binary .or) left).alternatives = left.alternatives ++ es := by
  induction es generalizing left with
  | nil => simp
  | cons e es ih => rw [List.foldl_cons, ih, alternatives, List.append_assoc, List.singleton_append]

theorem nesting_alternatives_le (e : Expr) : ∀ x ∈ e.alternatives, x.nesting ≤ e.nesting := by
  fun_induction alternatives e with
  | case1 left right ih =>
    intro x hx
    rcases List.mem_append.mp hx with hx | hx
    · exact (ih x hx).trans (le_max_left _ _)
    · rw [List.mem_singleton.mp hx]
      exact le_max_right _ _
  | case2 e => exact fun x hx => (congrArg nesting (List.mem_singleton.mp hx)).le

theorem nesting_foldl_le {n : Nat} {op : Connective} {es : List Expr} {left : Expr}
    (hleft : left.nesting ≤ n) (hes : ∀ e ∈ es, e.nesting ≤ n) :
    (es.foldl (binary op) left).nesting ≤ n := by
  induction es generalizing left with
  | nil => exact hleft
  | cons e es ih =>
    exact ih (max_le hleft (hes e List.mem_cons_self)) fun x hx => hes x (List.mem_cons_of_mem e hx)

end Expr
end Condition

namespace Query

open Text Phrase Condition

variable {input input' : String} {t t' : SyntaxTree} {e e' : Expr}
  {before before' after after' : List Char} {xs xs' : List Lexeme} {p q r s : Position}

theorem Phrase.AndExpr.level_lt (h : AndExpr p t q) (he : Denotes t e) :
    e.level < Connective.or.level := by
  have hoperands : Operands .and AndSeparator (TighterThan .and) p t q :=
    h.mono fun _ _ _ => Primary.reading
  obtain ⟨e', hreading, hlevel⟩ := reading_operands .and AndSeparator.eq_leaf hoperands
  obtain rfl := hreading.denotes.unique he
  exact Nat.lt_succ_of_le hlevel

theorem written_join (h : WrittenList .or OrSeparator AndExpr p e q)
    (hmark : ∃ start text, OrSeparator q (.leaf start text) r)
    (h' : WrittenList .or OrSeparator AndExpr r e' s) :
    WrittenList .or OrSeparator AndExpr p (e'.alternatives.foldl (.binary .or) e) s := by
  obtain ⟨mid, first, es, head, pairs, hhead, hfirst, hpairs, hes, rfl⟩ := h
  obtain ⟨start, text, hmark⟩ := hmark
  obtain ⟨mid', first', es', head', pairs', hhead', hfirst', hpairs', hes', rfl⟩ := h'
  have halternatives : (es'.foldl (.binary .or) first').alternatives = first' :: es' := by
    rw [Expr.alternatives_foldl, Expr.alternatives_of_level_lt (AndExpr.level_lt hhead' hfirst')]
    rfl
  refine ⟨mid, first, es ++ first' :: es', head,
    pairs ++ .pair Connective.or.tag (.leaf start text) head' :: pairs', hhead, hfirst,
    hpairs.append (.cons ⟨hmark, hhead'⟩ hpairs'), ?_, ?_⟩
  · exact List.rel_append hes (.cons (hfirst'.pair .or) hes')
  · rw [halternatives, List.foldl_append]

theorem Spells.extend {op : Connective} {text a b : List Char} (h : Spells op text)
    (ha : ∀ c ∈ a, isBlank c = true) (hb : ∀ c ∈ b, isBlank c = true) :
    Spells op (a ++ text ++ b) := by
  cases h with
  | blanks hne hgap => exact .blanks (by simp [hne]) (blank_append (blank_append ha hgap) hb)
  | @spelled before after _ hne hbefore hne' hafter =>
    have hne₁ : a ++ before ≠ [] := by simp [hne]
    have hne₂ : after ++ b ≠ [] := by simp [hne']
    have hspelled := Spells.spelled op hne₁ (blank_append ha hbefore) hne₂ (blank_append hafter hb)
    simpa using hspelled

theorem Row.join (h : Row input t e before xs after) (h' : Row input' t' e' before' xs' after')
    {mark : List Char} (hmark : Spells .or mark) :
    ∃ u, Derives (String.ofList (input.toList ++ mark ++ input'.toList)) u ∧
      Denotes u (e'.alternatives.foldl (.binary .or) e) := by
  -- The blanks at the ends that meet become part of the separator.
  have hlong := hmark.extend h.after_blank h'.before_blank
  generalize hmid : after ++ mark ++ before' = mid at hlong
  let q : Position := ⟨byteLength before + byteLength (spellRow xs), mid ++ (spellRow xs' ++ after')⟩
  let r : Position := ⟨q.offset + byteLength mid, spellRow xs' ++ after'⟩
  have hleft : WrittenList .or OrSeparator AndExpr
      ⟨byteLength before, spellRow xs ++ (mid ++ (spellRow xs' ++ after'))⟩ e q :=
    h.respells xs (alike_refl xs) _ _ (between_append _ _ _) fun _ => hlong.not_bare _
  have hright : WrittenList .or OrSeparator AndExpr r e'
      ⟨r.offset + byteLength (spellRow xs'), after'⟩ :=
    h'.respells xs' (alike_refl xs') _ _ (between_append _ _ _) id
  have hlist := written_join hleft (hlong.orSeparator (between_append _ _ _)) hright
  have htext : input.toList ++ mark ++ input'.toList =
      before ++ (spellRow xs ++ mid ++ spellRow xs' ++ after') := by
    simp [h.input_eq, h'.input_eq, ← hmid]
  rw [htext]
  refine derives_of_written h.before_blank h'.after_blank ?_
  simpa [q, r, byteLength_append, Nat.add_assoc] using hlist

theorem Row.group (h : Row input t e before xs after)
    (hspan : Between p ('(' :: input.toList ++ [')']) q) : Written Primary p (.group e) q := by
  obtain ⟨r, hopen, hrest⟩ := Between.split (a := ['(']) hspan
  obtain ⟨v, hinner, hclose⟩ := hrest.split
  rw [h.input_eq] at hinner
  obtain ⟨s, hbefore, hinner⟩ := hinner.split
  obtain ⟨u, hrow, hafter⟩ := hinner.split
  have hstop : StopsLike after u.rest := by
    intro _
    rw [hafter.rest_eq, hclose.rest_eq]
    exact not_bare_gap_close h.after_blank _
  obtain ⟨t', ht', he⟩ := (h.respells xs (alike_refl xs) s u hrow hstop).written
  exact ⟨_, .group hopen ⟨hbefore, h.before_blank⟩ ht' ⟨hafter, h.after_blank⟩ hclose, he.group⟩

end Query

open Query Text Condition

theorem Query.Row.of_expression {c : Compiler} {input : String} {e : Expr}
    (h : c.expression input = .ok e) :
    e.nesting ≤ c.maxDepth ∧ ∃ t before xs after, Row input t e before xs after := by
  obtain ⟨t, e', -, hderives, hnesting, hreading, he⟩ | ⟨error, -, he⟩ := c.expression_cases input
  · obtain rfl : e' = e := by simpa [he] using h
    rw [← hreading.nesting_eq] at hnesting
    obtain ⟨e₁, before, xs, after, hrow⟩ := hderives.row
    obtain rfl := hreading.denotes.unique (hrow.denotes hderives)
    exact ⟨hnesting, t, before, xs, after, hrow⟩
  · simp [he] at h

theorem Compiler.expression_of_written (c : Compiler) {input : String} {e : Expr}
    (h : ∀ p q, Between p input.toList q →
      WrittenList .and Phrase.AndSeparator Phrase.Primary p e q) (hnesting : e.nesting ≤ c.maxDepth) :
    c.expression input = .ok e := by
  have hlist : WrittenList .or Phrase.OrSeparator Phrase.AndExpr ⟨0, input.toList ++ []⟩ e
      ⟨0 + byteLength input.toList, []⟩ :=
    (h _ _ (between_append 0 input.toList [])).written.single
  have hnil : ∀ c ∈ ([] : List Char), isBlank c = true := by simp
  obtain ⟨t, ht, he⟩ := derives_of_written hnil hnil hlist
  rw [List.nil_append, List.append_nil, String.ofList_toList] at ht
  exact (c.expression_of_derives ht he hnesting).2

theorem expression_joined (c : Compiler) {i₁ i₂ : String} {e₁ e₂ : Expr}
    (h₁ : c.expression i₁ = .ok e₁) (h₂ : c.expression i₂ = .ok e₂) :
    (∀ w : String, w ≠ "" → (∀ ch ∈ w.toList, isBlank ch = true) →
      c.expression (i₁ ++ w ++ i₂) = .ok (e₂.alternatives.foldl (.binary .or) e₁) ∧
      c.expression (i₁ ++ w ++ "or" ++ w ++ i₂) =
        .ok (e₂.alternatives.foldl (.binary .or) e₁)) ∧
    ∀ c' : Compiler, c'.maxDepth = c.maxDepth + 1 →
      c'.expression ("(" ++ i₁ ++ ")") = .ok (.group e₁) ∧
      c'.expression ("(" ++ i₁ ++ ") and (" ++ i₂ ++ ")") =
        .ok (.binary .and (.group e₁) (.group e₂)) := by
  obtain ⟨hn₁, t₁, before₁, xs₁, after₁, hrow₁⟩ := Query.Row.of_expression h₁
  obtain ⟨hn₂, t₂, before₂, xs₂, after₂, hrow₂⟩ := Query.Row.of_expression h₂
  refine ⟨fun w hw hblank => ?_, fun c' hdepth => ⟨?_, ?_⟩⟩
  · have hnesting : (e₂.alternatives.foldl (.binary .or) e₁).nesting ≤ c.maxDepth :=
      Expr.nesting_foldl_le hn₁ fun x hx => (e₂.nesting_alternatives_le x hx).trans hn₂
    have hread : ∀ mark : String, Spells .or mark.toList →
        c.expression (i₁ ++ mark ++ i₂) = .ok (e₂.alternatives.foldl (.binary .or) e₁) := by
      intro mark hmark
      obtain ⟨u, hu, he⟩ := hrow₁.join hrow₂ hmark
      rw [← String.toList_append, ← String.toList_append, String.ofList_toList] at hu
      exact (c.expression_of_derives hu he hnesting).2
    have hne : w.toList ≠ [] := by simpa using hw
    have hspelled := hread (w ++ "or" ++ w) (by
      rw [String.toList_append, String.toList_append]
      exact .spelled .or hne hblank hne hblank)
    rw [← String.append_assoc, ← String.append_assoc] at hspelled
    exact ⟨hread w (.blanks hne hblank), hspelled⟩
  · refine c'.expression_of_written (fun p q hspan => ?_) (by rw [hdepth]; exact Nat.succ_le_succ hn₁)
    exact (hrow₁.group (by simpa using hspan)).single
  · refine c'.expression_of_written (fun p q hspan => ?_) (by
      rw [hdepth]
      exact max_le (Nat.succ_le_succ hn₁) (Nat.succ_le_succ hn₂))
    have hparts : ("(" ++ i₁ ++ ") and (" ++ i₂ ++ ")").toList = ('(' :: i₁.toList ++ [')']) ++
        (Connective.and.link ++ ('(' :: i₂.toList ++ [')'])) := by
      simp [Connective.link, Connective.keyword]
    rw [hparts] at hspan
    obtain ⟨r, hleft, hspan⟩ := hspan.split
    obtain ⟨s, hlink, hright⟩ := hspan.split
    exact (hrow₁.group hleft).single.snoc (andSeparator_of_link hlink) (hrow₂.group hright)

theorem expression_joined_mixed :
    (default : Compiler).expression "a and 'b' " = .ok (.binary .and (.word "a") (.word "b")) ∧
    (default : Compiler).expression "\tc (d) e" =
      .ok (.binary .or (.binary .or (.word "c") (.group (.word "d"))) (.word "e")) ∧
    (default : Compiler).expression "a and 'b' \n\tc (d) e" =
      .ok (.binary .or (.binary .or (.binary .or (.binary .and (.word "a") (.word "b")) (.word "c"))
        (.group (.word "d"))) (.word "e")) ∧
    ∀ c' : Compiler, c'.maxDepth = 129 → c'.expression ("(" ++ "a and 'b' " ++ ")") =
      .ok (.group (.binary .and (.word "a") (.word "b"))) := by
  have h₁ : (default : Compiler).expression "a and 'b' " =
      .ok (.binary .and (.word "a") (.word "b")) := by decide +kernel
  have h₂ : (default : Compiler).expression "\tc (d) e" =
      .ok (.binary .or (.binary .or (.word "c") (.group (.word "d"))) (.word "e")) := by
    decide +kernel
  obtain ⟨hjoined, hgrouped⟩ := expression_joined default h₁ h₂
  exact ⟨h₁, h₂, (hjoined "\n" (by decide) (List.forall_mem_singleton.mpr rfl)).1,
    fun c' hdepth => (hgrouped c' hdepth).1⟩

end SearchFilter
