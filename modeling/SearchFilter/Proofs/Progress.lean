import SearchFilter.Proofs.ByteLexemes

/-! The rules of the machine. Each of them ends as the rule of the scanner does: its loops because every
round reads a character, its recursion because an expression inside another one stands in a group that
could still be opened. So it cuts the query at boundaries only, it restores the rules and the count of
open groups, and it has moved forward where it matches. -/

namespace SearchFilter.Query

open Text

namespace Run

section Rules

variable {input : String} {depth maxDepth fuel : Nat}

theorem implements_orSeparator (hfuel : input.toList.length < fuel) :
    Implements input depth Same Grammar.orSeparator (orSeparator input fuel) := by
  apply Implements.within
  intro s hs
  have hspelled : Follows depth s (fun text run _ => run = text ∧ text ≠ [])
      ((Scan.blanks >>= fun before => Scan.keyword .or >>= fun name => Scan.blanks >>= fun after =>
        pure (before ++ name ++ after)) s)
      ((blanks input fuel >>= fun _ => keyword input .or >>= fun _ => blanks input fuel)
        (s.cursor depth)) := by
    refine (implements_blanks hfuel s hs).bind fun before _ _ s₁ hbefore hblanks => ?_
    subst hblanks
    have hs₁ := hs.between hbefore
    refine (implements_keyword .or s₁ hs₁).bind fun name _ _ s₂ hname hkeyword => ?_
    obtain ⟨rfl, hne⟩ := hkeyword
    have hs₂ := hs₁.between hname
    rw [blanks_eq hs₂ (hs₂.length_le.trans_lt hfuel)]
    exact .ok (between_advance (List.takeWhile_prefix _)) rfl ⟨by simp, by simp [hne]⟩
  rw [Scan.offset_bind]
  refine hspelled.attempt.bind fun text found _ s₁ hspan hfound => ?_
  cases hfound with
  | some hsame =>
    obtain ⟨rfl, hne⟩ := hsame
    exact follows_leaf hs hspan ⟨by simp [hne], rfl⟩
  | none =>
    change Follows depth s₁ _ _ ((whitespace input fuel >>= fun _ => pos >>= fun stop =>
      leaf input ⟨s.position.offset, stop⟩) (s₁.cursor depth))
    refine (implements_whitespace hfuel s₁ (hs.between hspan)).bind fun blanks _ _ s₂ hblanks hrun => ?_
    obtain ⟨rfl, hne⟩ := hrun
    exact follows_leaf hs (hspan.trans hblanks) ⟨by simp [hne], rfl⟩

theorem implements_andSeparator (hfuel : input.toList.length < fuel) :
    Implements input depth Same Grammar.andSeparator (andSeparator input fuel) := by
  apply Implements.within
  intro s hs
  rw [Scan.offset_bind]
  change Follows depth s _ _ ((whitespace input fuel >>= fun _ => keyword input .and >>= fun _ =>
    whitespace input fuel >>= fun _ => pos >>= fun stop => leaf input ⟨s.position.offset, stop⟩)
    (s.cursor depth))
  refine (implements_whitespace hfuel s hs).bind fun before _ _ s₁ hbefore hblanks => ?_
  obtain ⟨rfl, hne⟩ := hblanks
  have hs₁ := hs.between hbefore
  refine (implements_keyword .and s₁ hs₁).bind fun name _ _ s₂ hname hkeyword => ?_
  obtain ⟨rfl, -⟩ := hkeyword
  have hs₂ := hs₁.between hname
  refine (implements_whitespace hfuel s₂ hs₂).bind fun after _ _ s₃ hafter hblanks => ?_
  obtain ⟨rfl, -⟩ := hblanks
  exact follows_leaf hs ((hbefore.trans hname).trans hafter) ⟨by simp [hne], rfl⟩

theorem implements_word (hfuel : input.toList.length < fuel) :
    Implements input depth Same Grammar.word (word input fuel) := by
  apply Implements.within
  intro s hs
  rw [Scan.offset_bind]
  refine (follows_literal (s := s.enter .quotedString) hs hfuel).within.attempt.bind
    fun text quoted span s₁ hspan hfound => ?_
  cases hfound with
  | some hshows =>
    obtain ⟨hne, hleaf⟩ := hshows
    dsimp only
    rw [hleaf]
    exact follows_pure ⟨by simp [hne], rfl⟩
  | none =>
    have hs₁ := hs.between hspan
    have hsame : (s₁.enter .rawWord).position.offset = s.position.offset := hspan.offset_eq
    refine (follows_bareWord (s := s₁.enter .rawWord) hs₁).within.bind
      fun text run span s₂ _ hshows => ?_
    obtain ⟨hne, hleaf⟩ := hshows
    rw [hleaf, hsame]
    exact follows_pure ⟨by simp [hne], rfl⟩

theorem implements_operands {op : Tag} {separator operand : Scan SyntaxTree}
    {separator' operand' : Run SyntaxTree} (hfuel : input.toList.length < fuel)
    (hs : Implements input depth Same separator separator')
    (ho : Implements input depth Same operand operand') :
    Implements input depth Same (Grammar.operands op separator operand)
      (operands fuel op separator' operand') := by
  refine ho.bind fun text head _ hhead => ?_
  obtain ⟨hne, rfl⟩ := hhead
  refine Implements.bind (Implements.many ?_ hfuel) fun _ pairs _ hpairs => ?_
  · refine hs.bind fun before mark _ hmark => ho.bind fun after right _ hright => ?_
    obtain ⟨hbefore, rfl⟩ := hmark
    obtain ⟨-, rfl⟩ := hright
    exact implements_pure ⟨by simp [hbefore], rfl⟩
  · subst hpairs
    exact implements_pure ⟨by simp [hne], rfl⟩

theorem implements_inside {x : Scan SyntaxTree} {expr : Run SyntaxTree}
    (hfuel : input.toList.length < fuel) (h : Implements input depth Same x expr) :
    Implements input depth Same
      (do let _ ← Scan.blanks; let tree ← x; let _ ← Scan.blanks; Scan.char ')'; pure tree)
      (inside input fuel expr) := by
  refine (implements_blanks hfuel).bind fun before _ _ _ => h.bind fun text tree _ htree =>
    (implements_blanks hfuel).bind fun after _ _ _ => (implements_char ')').bind fun close _ _ _ =>
      implements_pure ?_
  exact ⟨by simp [htree.1], htree.2⟩

def ReadsInner (input : String) (maxDepth depth : Nat) (expr : Run SyntaxTree) : Prop :=
  depth < maxDepth →
    Implements input (depth + 1) Same (Grammar.orExpr (maxDepth - (depth + 1))) expr

section Groups

variable {expr : Run SyntaxTree}

theorem implements_group (hfuel : input.toList.length < fuel)
    (h : ReadsInner input maxDepth depth expr) :
    Implements input depth Same (Grammar.group (Grammar.inside (maxDepth - depth)))
      (group input maxDepth fuel expr) := by
  apply Implements.within
  intro s hs
  rw [Scan.offset_bind]
  refine (implements_char '(' s hs).bind fun opening _ _ s₁ hspan hopening => ?_
  change Follows depth s₁ _ _ ((if maxDepth ≤ depth then _ else _ : Run SyntaxTree) (s₁.cursor depth))
  by_cases hfull : maxDepth ≤ depth
  · rw [if_pos hfull, Nat.sub_eq_zero_of_le hfull]
    exact .error rfl
  · have hroom : maxDepth - depth = maxDepth - (depth + 1) + 1 := by omega
    have hinside := implements_inside hfuel (h (Nat.not_le.mp hfull))
    rw [if_neg hfull, hroom]
    refine (hinside.deeper s₁ (hs.between hspan)).bind fun text tree _ s₂ _ htree => ?_
    exact follows_pure ⟨by simp [htree.1], by rw [htree.2]⟩

theorem implements_primary (hfuel : input.toList.length < fuel)
    (h : ReadsInner input maxDepth depth expr) :
    Implements input depth Same (Grammar.primary (Grammar.inside (maxDepth - depth)))
      (primary input maxDepth fuel expr) := by
  apply Implements.within
  intro s hs
  refine (implements_group hfuel h s hs).attempt.bind fun text grouped _ s₁ hspan hfound => ?_
  cases hfound with
  | some htree => exact follows_pure ⟨by simp [htree.1], htree.2⟩
  | none => exact implements_word hfuel s₁ (hs.between hspan)

theorem implements_andExpr (hfuel : input.toList.length < fuel)
    (h : ReadsInner input maxDepth depth expr) :
    Implements input depth Same (Grammar.andExpr (Grammar.inside (maxDepth - depth)))
      (andExpr input maxDepth fuel expr) :=
  (implements_operands hfuel (implements_andSeparator hfuel) (implements_primary hfuel h)).within

end Groups

theorem implements_orExpr {calls : Nat} (hfuel : input.toList.length < fuel)
    (hcalls : maxDepth - depth < calls) :
    Implements input depth Same (Grammar.orExpr (maxDepth - depth))
      (orExpr input maxDepth fuel calls) := by
  -- Each call takes one of the groups that may still be opened, so the calls do not run out first.
  induction calls generalizing depth with
  | zero => omega
  | succ calls ih =>
    have hinner : ReadsInner input maxDepth depth (orExpr input maxDepth fuel calls) :=
      fun hdepth => ih (by omega)
    rw [Grammar.orExpr_eq]
    exact (implements_operands hfuel (implements_orSeparator hfuel)
      (implements_andExpr hfuel hinner)).within

theorem implements_query (hfuel : input.toList.length < fuel) (hcalls : maxDepth - depth < fuel) :
    Implements input depth Same (Grammar.query (maxDepth - depth)) (query input maxDepth fuel) := by
  apply Implements.within
  refine (implements_blanks hfuel).bind fun before _ _ _ => (implements_orExpr hfuel hcalls).bind
    fun text tree _ htree => (implements_blanks hfuel).bind fun after _ _ _ =>
      implements_endOfInput.bind fun rest _ _ _ => implements_pure ?_
  exact ⟨by simp [htree.1], htree.2⟩

end Rules
end Run

namespace Rule

def scan (room : Nat) : Rule → Scan SyntaxTree
  | query => Grammar.query room
  | orExpr => Grammar.orExpr room
  | andExpr => Grammar.andExpr (Grammar.inside room)
  | orSeparator => Grammar.orSeparator
  | andSeparator => Grammar.andSeparator
  | primary => Grammar.primary (Grammar.inside room)
  | group => Grammar.group (Grammar.inside room)
  | word => Grammar.word
  | quotedString => do
    let start ← Scan.offset
    return .leaf (start + 1) (← Scan.within .quotedString Scan.literal)
  | rawWord => do
    let start ← Scan.offset
    return .leaf start (← Scan.within .rawWord Scan.bareWord)

def run (input : String) (maxDepth fuel : Nat) : Rule → Run SyntaxTree
  | query => Run.query input maxDepth fuel
  | orExpr => Run.orExpr input maxDepth fuel fuel
  | andExpr => Run.andExpr input maxDepth fuel (Run.orExpr input maxDepth fuel fuel)
  | orSeparator => Run.orSeparator input fuel
  | andSeparator => Run.andSeparator input fuel
  | primary => Run.primary input maxDepth fuel (Run.orExpr input maxDepth fuel fuel)
  | group => Run.group input maxDepth fuel (Run.orExpr input maxDepth fuel fuel)
  | word => Run.word input fuel
  | quotedString => do Run.leaf input (← Run.within .quotedString (Run.literal input fuel))
  | rawWord => do Run.leaf input (← Run.within .rawWord (Run.bareWord input))

end Rule

open Run

theorem implements_rule {input : String} {depth maxDepth fuel : Nat}
    (hfuel : input.toList.length < fuel) (hcalls : maxDepth - depth < fuel) (rule : Rule) :
    Implements input depth Same (rule.scan (maxDepth - depth)) (rule.run input maxDepth fuel) := by
  have hinner : ReadsInner input maxDepth depth (orExpr input maxDepth fuel fuel) :=
    fun hdepth => implements_orExpr hfuel (by omega)
  cases rule with
  | query => exact implements_query hfuel hcalls
  | orExpr => exact implements_orExpr hfuel hcalls
  | andExpr => exact implements_andExpr hfuel hinner
  | orSeparator => exact implements_orSeparator hfuel
  | andSeparator => exact implements_andSeparator hfuel
  | primary => exact implements_primary hfuel hinner
  | group => exact implements_group hfuel hinner
  | word => exact implements_word hfuel
  | quotedString =>
    intro s hs
    refine (follows_literal (s := s.enter .quotedString) hs hfuel).within.bind
      fun text body span s₁ _ h => ?_
    obtain ⟨hne, hleaf⟩ := h
    rw [hleaf]
    exact follows_pure ⟨by simp [hne], rfl⟩
  | rawWord =>
    intro s hs
    refine (follows_bareWord (s := s.enter .rawWord) hs).within.bind fun text run span s₁ _ h => ?_
    obtain ⟨hne, hleaf⟩ := h
    rw [hleaf]
    exact follows_pure ⟨by simp [hne], rfl⟩

/-- A character of `input` starts at the offset, or `input` ends there. -/
def Boundary (input : String) (offset : Nat) : Prop :=
  ∃ rest, PlaceOf input ⟨offset, rest⟩

/-- How a rule ends that starts with the cursor `σ`: no slice was off the boundaries, the rules and the
count of open groups are those of `σ`, and a match has moved the cursor forward to a boundary. -/
structure Restores (input : String) (σ : Cursor) (result : Except Fault SyntaxTree) (τ : Cursor) :
    Prop where
  sliced : result ≠ .error .slice
  rules_eq : τ.rules = σ.rules
  depth_eq : τ.depth = σ.depth
  progress : ∀ tree, result = .ok tree → Boundary input τ.pos ∧ σ.pos < τ.pos

def outcome (depth : Nat) : EStateM.Result Halt Scanner SyntaxTree → Except Fault SyntaxTree × Cursor
  | .ok tree s => (.ok tree, s.cursor depth)
  | .error halt s => (.error (.halt halt), s.cursor depth)

section Outcome

variable {input : String} {depth : Nat} {s : Scanner}
  {result : EStateM.Result Halt Scanner SyntaxTree} {ending : Option (Except Fault SyntaxTree × Cursor)}

theorem Run.Follows.eq_outcome (h : Follows depth s Same result ending) :
    ending = some (outcome depth result) := by
  cases h with
  | ok _ _ hsame => rw [← hsame.2, outcome]
  | error => rfl

theorem Run.Follows.restores (h : Follows depth s Same result ending) (hs : PlaceOf input s.position) :
    Restores input (s.cursor depth) (outcome depth result).1 (outcome depth result).2 := by
  cases h with
  | @ok text tree _ s' hspan hrules hsame =>
    refine ⟨by simp [outcome], hrules, rfl, fun _ _ => ⟨?_, hspan.offset_lt hsame.1⟩⟩
    exact ⟨s'.position.rest, hs.between hspan⟩
  | error hrules =>
    refine ⟨by simp [outcome], hrules, rfl, fun _ htree => ?_⟩
    simp [outcome] at htree

end Outcome

theorem pos_of_attempt {α : Type} {alternative : Run α} {σ τ : Cursor}
    (h : attempt alternative σ = some (.ok none, τ)) : τ.pos = σ.pos := by
  unfold attempt at h
  obtain ⟨ending, -, hnone⟩ := Option.map_eq_some_iff.mp h
  split at hnone
  · simp at hnone
  · simp only [Prod.mk.injEq, true_and] at hnone
    rw [← hnone]
  · simp at hnone

/-- At every boundary each rule ends, whatever the fuel, if only it exceeds the characters of the query
and the groups that may still be opened. It ends as the rule of the scanner does, restores what it has
to and moves forward if it matches; an attempt that finds nothing leaves the cursor in its place. -/
theorem rule_restores (input : String) (maxDepth : Nat) (rule : Rule) (σ : Cursor)
    (hσ : Boundary input σ.pos) :
    (∃ result τ,
      (∀ fuel, max input.toList.length (maxDepth - σ.depth) < fuel →
        rule.run input maxDepth fuel σ = some (result, τ)) ∧
      (∀ rest, PlaceOf input ⟨σ.pos, rest⟩ → (result, τ) = outcome σ.depth
        (rule.scan (maxDepth - σ.depth) ⟨⟨σ.pos, rest⟩, σ.rules, σ.furthest⟩)) ∧
      Restores input σ result τ) ∧
    ∀ (α : Type) (alternative : Run α) (τ : Cursor),
      attempt alternative σ = some (.ok none, τ) → τ.pos = σ.pos := by
  refine ⟨?_, fun _ _ _ => pos_of_attempt⟩
  obtain ⟨rest, hplace⟩ := hσ
  have hrun : ∀ fuel, max input.toList.length (maxDepth - σ.depth) < fuel →
      Follows σ.depth ⟨⟨σ.pos, rest⟩, σ.rules, σ.furthest⟩ Same
        (rule.scan (maxDepth - σ.depth) ⟨⟨σ.pos, rest⟩, σ.rules, σ.furthest⟩)
        (rule.run input maxDepth fuel σ) := by
    intro fuel hfuel
    exact implements_rule (by omega) (by omega) rule _ hplace
  refine ⟨_, _, fun fuel hfuel => (hrun fuel hfuel).eq_outcome, fun rest' hplace' => ?_,
    (hrun _ (Nat.lt_succ_self _)).restores hplace⟩
  rw [hplace'.rest_unique hplace]
  rfl

theorem rule_restores_too_deep : Boundary "ä (b" 3 ∧
    ∃ result τ, (∀ fuel, 4 < fuel →
        Rule.primary.run "ä (b" 2 fuel ⟨3, 2, [.andExpr], none⟩ = some (result, τ)) ∧
      result = .error (.halt (.tooDeep 3)) ∧ τ = ⟨4, 2, [.andExpr], none⟩ ∧
      Restores "ä (b" ⟨3, 2, [.andExpr], none⟩ result τ := by
  have hplace : PlaceOf "ä (b" ⟨3, ['(', 'b']⟩ := ⟨['ä', ' '], rfl, rfl⟩
  obtain ⟨⟨result, τ, hends, hscan, hrestores⟩, -⟩ :=
    rule_restores "ä (b" 2 .primary ⟨3, 2, [.andExpr], none⟩ ⟨_, hplace⟩
  have hsame := Prod.mk.inj (hscan _ hplace)
  exact ⟨⟨_, hplace⟩, result, τ, hends, hsame.1, hsame.2, hrestores⟩

end SearchFilter.Query
