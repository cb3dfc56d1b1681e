import SearchFilter.Compiler
import SearchFilter.Proofs.Scanning

/-! The parser and the grammar. Every rule of the parser is sound for its phrase, and it reads each
derivation of its phrase that is followed by something which cannot continue it. -/

namespace SearchFilter.Query.Grammar

open Text Scan Phrase

variable {p q r : Position} {t : SyntaxTree}

theorem orSeparator_sound : Sound orSeparator OrSeparator := by
  apply Sound.within
  intro s t s' hs
  rw [offset_bind] at hs
  obtain ⟨spelled, s₁, hattempt, hs⟩ := bind_eq_ok.mp hs
  cases spelled with
  | some text =>
    obtain ⟨rfl, rfl⟩ := pure_eq_ok.mp hs
    obtain ⟨before, s₂, hbefore, hrest⟩ := bind_eq_ok.mp (attempt_eq_some.mp hattempt)
    obtain ⟨name, s₃, hname, hrest⟩ := bind_eq_ok.mp hrest
    obtain ⟨after, s₄, hafter, hrest⟩ := bind_eq_ok.mp hrest
    obtain ⟨rfl, rfl⟩ := pure_eq_ok.mp hrest
    obtain ⟨hrun, rfl⟩ := keyword_sound .or _ _ _ hname
    exact .spelled (blanks_sound _ _ _ hbefore) hrun (blanks_sound _ _ _ hafter)
  | none =>
    obtain ⟨text, s₂, hblanks, hs⟩ := bind_eq_ok.mp hs
    obtain ⟨rfl, rfl⟩ := pure_eq_ok.mp hs
    obtain ⟨hgap, hne⟩ := whitespace_sound _ _ _ hblanks
    rw [position_of_attempt_eq_none hattempt] at hgap
    exact .blanks hgap hne

theorem andSeparator_sound : Sound andSeparator AndSeparator := by
  apply Sound.within
  intro s t s' hs
  rw [offset_bind] at hs
  obtain ⟨before, s₁, hbefore, hs⟩ := bind_eq_ok.mp hs
  obtain ⟨name, s₂, hname, hs⟩ := bind_eq_ok.mp hs
  obtain ⟨after, s₃, hafter, hs⟩ := bind_eq_ok.mp hs
  obtain ⟨rfl, rfl⟩ := pure_eq_ok.mp hs
  obtain ⟨hgap, hne⟩ := whitespace_sound _ _ _ hbefore
  obtain ⟨hrun, rfl⟩ := keyword_sound .and _ _ _ hname
  obtain ⟨hgap', hne'⟩ := whitespace_sound _ _ _ hafter
  exact .mk hgap hne hrun hgap' hne'

theorem word_sound : Sound word Word := by
  apply Sound.within
  intro s t s' hs
  rw [offset_bind] at hs
  obtain ⟨quoted, s₁, hattempt, hs⟩ := bind_eq_ok.mp hs
  cases quoted with
  | some body =>
    obtain ⟨rfl, rfl⟩ := pure_eq_ok.mp hs
    obtain ⟨quote, hquote, hbody, hspan⟩ :=
      literal_sound.within _ _ _ _ (attempt_eq_some.mp hattempt)
    exact .quoted hquote hbody hspan
  | none =>
    obtain ⟨text, s₂, hbare, hs⟩ := bind_eq_ok.mp hs
    obtain ⟨rfl, rfl⟩ := pure_eq_ok.mp hs
    obtain ⟨hrun, hword⟩ := bareWord_sound.within _ _ _ _ hbare
    rw [position_of_attempt_eq_none hattempt] at hrun
    exact .bare hrun hword

theorem operands_sound {op : Tag} {separator operand : Scan SyntaxTree} {S R : Phrase}
    (hs : Sound separator S) (ho : Sound operand R) :
    Sound (operands op separator operand) (Operands op S R) := by
  intro s t s' h
  obtain ⟨head, s₁, hhead, h⟩ := bind_eq_ok.mp h
  obtain ⟨pairs, s₂, hpairs, h⟩ := bind_eq_ok.mp h
  obtain ⟨rfl, rfl⟩ := pure_eq_ok.mp h
  refine .of_star (ho _ _ _ hhead) (many_sound ?_ _ _ _ hpairs)
  intro s t s' h
  obtain ⟨mark, s₁, hmark, h⟩ := bind_eq_ok.mp h
  obtain ⟨right, s₂, hright, h⟩ := bind_eq_ok.mp h
  obtain ⟨rfl, rfl⟩ := pure_eq_ok.mp h
  exact ⟨hs _ _ _ hmark, ho _ _ _ hright⟩

inductive Enclosed (item : Phrase) : Phrase
  | mk {p q r s : Position} {before after : List Char} {t : SyntaxTree} :
    Gap p before q → item q t r → ∀ {u}, Gap r after u → Between u [')'] s → Enclosed item p t s

theorem group_sound {inside : Nat → Scan SyntaxTree} (body : Phrase) {item : Phrase}
    (hinside : ∀ opening, Sound (inside opening) body)
    (hgroup : ∀ {p q r t}, Between p ['('] q → body q t r → item p (.tagged [(.paren, t)]) r) :
    Sound (group inside) item := by
  apply Sound.within
  intro s t s' hs
  rw [offset_bind] at hs
  obtain ⟨u, s₁, hopen, hs⟩ := bind_eq_ok.mp hs
  obtain ⟨inner, s₂, hbody, hs⟩ := bind_eq_ok.mp hs
  obtain ⟨rfl, rfl⟩ := pure_eq_ok.mp hs
  exact hgroup (char_sound '(' _ _ _ hopen) (hinside _ _ _ _ hbody)

theorem primary_sound {inside : Nat → Scan SyntaxTree} {n : Nat}
    (hgroup : Sound (group inside) (Limited n Primary)) :
    Sound (primary inside) (Limited n Primary) := by
  apply Sound.within
  intro s t s' hs
  obtain ⟨grouped, s₁, hattempt, hs⟩ := bind_eq_ok.mp hs
  cases grouped with
  | some tree =>
    obtain ⟨rfl, rfl⟩ := pure_eq_ok.mp hs
    exact hgroup _ _ _ (attempt_eq_some.mp hattempt)
  | none =>
    have hword := word_sound _ _ _ hs
    rw [position_of_attempt_eq_none hattempt] at hword
    exact ⟨.word hword, by rw [hword.nesting_eq]; omega⟩

theorem orExprWith_sound {inside : Nat → Scan SyntaxTree} {n : Nat}
    (h : Sound (primary inside) (Limited n Primary)) :
    Sound (orExprWith inside) (Limited n OrExpr) := by
  rw [← orExpr_limited]
  exact (operands_sound orSeparator_sound
    ((operands_sound andSeparator_sound h).within .andExpr)).within .orExpr

def inside : Nat → Nat → Scan SyntaxTree
  | 0, opening => throw (.tooDeep opening)
  | room + 1, _ => do
    let _ ← blanks
    let tree ← orExpr room
    let _ ← blanks
    char ')'
    pure tree

theorem orExpr_eq (room : Nat) : orExpr room = orExprWith (inside room) := by
  cases room <;> rfl

theorem primary_inside_sound (room : Nat) : Sound (primary (inside room)) (Limited room Primary) := by
  induction room with
  | zero =>
    apply primary_sound
    refine group_sound (fun _ _ _ => False) ?_ ?_
    · intro opening s t s' hs
      cases hs
    · exact fun _ h => h.elim
  | succ room ih =>
    apply primary_sound
    refine group_sound (Enclosed (Limited room OrExpr)) ?_ ?_
    · intro opening s t s' hs
      obtain ⟨before, s₁, hbefore, hs⟩ := bind_eq_ok.mp hs
      obtain ⟨tree, s₂, htree, hs⟩ := bind_eq_ok.mp hs
      obtain ⟨after, s₃, hafter, hs⟩ := bind_eq_ok.mp hs
      obtain ⟨u, s₄, hclose, hs⟩ := bind_eq_ok.mp hs
      obtain ⟨rfl, rfl⟩ := pure_eq_ok.mp hs
      rw [orExpr_eq] at htree
      exact .mk (blanks_sound _ _ _ hbefore) (orExprWith_sound ih _ _ _ htree)
        (blanks_sound _ _ _ hafter) (char_sound ')' _ _ _ hclose)
    · rintro p q r t hopen ⟨hbefore, ⟨ht, hn⟩, hafter, hclose⟩
      exact ⟨.group hopen hbefore ht hafter hclose, by simpa using hn⟩

theorem orExpr_sound (room : Nat) : Sound (orExpr room) (Limited room OrExpr) := by
  rw [orExpr_eq]
  exact orExprWith_sound (primary_inside_sound room)

theorem reads_orSeparator (h : OrSeparator p t q) (hq : Clear q) : orSeparator.Reads p t q := by
  apply Reads.within
  apply (reads_offset p).bind
  cases h with
  | spelled hbefore hname hafter =>
    exact Reads.bind (Reads.attempt (Reads.bind (reads_blanks hbefore (hname.not_blank (by decide)))
      (Reads.bind (reads_keyword hname) (Reads.bind (reads_blanks hafter hq.not_blank)
        (reads_pure _ q))))) (reads_pure _ q)
  | blanks hgap hne =>
    -- The spelled separator is tried first, and no keyword stands after the blanks.
    refine Reads.bind (Misses.attempt ?_)
      (Reads.bind (reads_whitespace hgap hne hq.not_blank) (reads_pure _ q))
    exact (reads_blanks hgap hq.not_blank).bind_misses
      (Misses.bind (misses_keyword (hq.not_keyword .or)))

theorem misses_orSeparator (h : Clear p) : orSeparator.Misses p := by
  apply Misses.within
  apply (reads_offset p).bind_misses
  refine Reads.bind_misses (Misses.attempt ?_) (Misses.bind (misses_whitespace h.not_blank))
  exact (reads_blanks (.refl p) h.not_blank).bind_misses
    (Misses.bind (misses_keyword (h.not_keyword .or)))

theorem reads_andSeparator (h : AndSeparator p t q) (hq : Clear q) : andSeparator.Reads p t q := by
  apply Reads.within
  apply (reads_offset p).bind
  obtain ⟨hbefore, hne, hname, hafter, hne'⟩ := h
  exact (reads_whitespace hbefore hne (hname.not_blank (by decide))).bind
    ((reads_keyword hname).bind
      ((reads_whitespace hafter hne' hq.not_blank).bind (reads_pure _ q)))

def NoAnd (p : Position) : Prop :=
  ∃ gap q, Gap p gap q ∧ (∀ c ∈ q.rest.head?, isBlank c = false) ∧
    bareRun q.rest ≠ Connective.and.keyword.toList

theorem misses_andSeparator (h : NoAnd p) : andSeparator.Misses p := by
  apply Misses.within
  apply (reads_offset p).bind_misses
  obtain ⟨gap, q, hgap, hblank, hand⟩ := h
  by_cases hne : gap = []
  · subst hne
    rw [hgap.toBetween.eq_advance] at hblank
    exact Misses.bind (misses_whitespace hblank)
  · exact (reads_whitespace hgap hne hblank).bind_misses (Misses.bind (misses_keyword hand))

theorem reads_word (h : Word p t q) : word.Reads p t q := by
  apply Reads.within
  apply (reads_offset p).bind
  cases h with
  | quoted hquote hbody hspan =>
    exact Reads.bind (((reads_literal hquote hbody hspan).within .quotedString).attempt)
      (reads_pure _ q)
  | @bare _ _ text hrun hword =>
    have hhead : ∀ c ∈ p.rest.head?, isQuote c = false := by
      rw [hrun.head?_eq hword.nonempty]
      exact hword.unquoted
    exact Reads.bind (((misses_literal hhead).within .quotedString).attempt)
      (Reads.bind ((reads_bareWord hrun hword).within .rawWord) (reads_pure _ q))

theorem misses_word (h : AtClose p) : word.Misses p := by
  apply Misses.within
  apply (reads_offset p).bind_misses
  have hquote : ∀ c ∈ p.rest.head?, isQuote c = false := fun c hc => by rw [h c hc]; decide
  have hbare : ∀ c ∈ p.rest.head?, isBare c = false := fun c hc => by rw [h c hc]; decide
  exact Reads.bind_misses (((misses_literal hquote).within .quotedString).attempt)
    (Misses.bind ((misses_bareWord hbare).within .rawWord))

section Inside

variable {inside : Nat → Scan SyntaxTree}

theorem misses_group (h : p.rest.head? ≠ some '(') : (group inside).Misses p := by
  apply Misses.within
  exact (reads_offset p).bind_misses (Misses.bind (misses_char h))

theorem misses_primary (h : AtClose p) : (primary inside).Misses p := by
  apply Misses.within
  have hgroup : p.rest.head? ≠ some '(' := fun hc => absurd (h '(' hc) (by decide)
  exact Reads.bind_misses (misses_group hgroup).attempt (misses_word h)

theorem reads_primary_word (h : Word p t q) : (primary inside).Reads p t q := by
  apply Reads.within
  exact Reads.bind (misses_group h.head?_ne).attempt (reads_word h)

theorem reads_primary_group (hopen : Between p ['('] q) (hinside : (inside p.offset).Reads q t r) :
    (primary inside).Reads p (.tagged [(.paren, t)]) r := by
  apply Reads.within
  refine Reads.bind (Reads.attempt ?_) (reads_pure _ r)
  apply Reads.within
  exact (reads_offset p).bind (Reads.bind (reads_char hopen)
    (Reads.bind hinside (reads_pure _ r)))

end Inside

theorem reads_operands {op : Tag} {separator operand : Scan SyntaxTree} {head : SyntaxTree}
    {pairs : List SyntaxTree} (hhead : operand.Reads p head q)
    (hpairs : Star (Pair op separator.Reads operand.Reads) q pairs r)
    (hlength : pairs.length ≤ q.rest.length)
    (hend : separator.Misses r ∨ ∃ mark s, separator.Reads r mark s ∧ operand.Misses s) :
    (operands op separator operand).Reads p (.chain head pairs) r := by
  refine Reads.bind hhead (Reads.bind (many_reads (hpairs.mono ?_) ?_ hlength) (reads_pure _ r))
  · rintro p t q ⟨hmark, hright⟩
    exact Reads.bind hmark (Reads.bind hright (reads_pure _ q))
  · rcases hend with hmiss | ⟨mark, s, hmark, hmiss⟩
    · exact Misses.bind hmiss
    · exact Reads.bind_misses hmark (Misses.bind hmiss)

theorem noAnd_of_orSeparator (h : OrSeparator p t q) (hq : Clear q) : NoAnd p := by
  cases h with
  | spelled hbefore hname hafter =>
    refine ⟨_, _, hbefore, hname.not_blank (by decide), ?_⟩
    rw [hname.bareRun_eq]
    decide
  | blanks hgap hne => exact ⟨_, _, hgap, hq.not_blank, hq.not_keyword .and⟩

def Closes (p : Position) : Prop :=
  ∃ gap q, Gap p gap q ∧ AtClose q

theorem Closes.noAnd (h : Closes p) : NoAnd p := by
  obtain ⟨gap, q, hgap, hclose⟩ := h
  exact ⟨gap, q, hgap, hclose.clear.not_blank, hclose.clear.not_keyword .and⟩

section Tiers

variable {inside : Nat → Scan SyntaxTree} {n : Nat}

def ReadsPrimaries (inside : Nat → Scan SyntaxTree) (n : Nat) : Prop :=
  ∀ p t q, Limited n Primary p t q → (primary inside).Reads p t q

theorem reads_andExpr (hp : ReadsPrimaries inside n) (h : Limited n AndExpr p t q)
    (hq : NoAnd q) : (andExpr inside).Reads p t q := by
  apply Reads.within
  rw [← operands_limited (by decide) AndSeparator.nesting_eq] at h
  obtain ⟨head, pairs, _, rfl, hhead, hpairs⟩ := h.exists_chain
  have hconsumes : Consumes (Limited n Primary) := fun _ _ _ h => Primary.consumes _ _ _ h.1
  refine reads_operands (hp _ _ _ hhead) (hpairs.mono ?_)
    ((AndSeparator.consumes.pair hconsumes).length_le hpairs) (.inl (misses_andSeparator hq))
  rintro p t q ⟨hmark, hright⟩
  exact ⟨reads_andSeparator hmark hright.1.clear, hp _ _ _ hright⟩

theorem reads_orPairs (hp : ReadsPrimaries inside n) {pairs : List SyntaxTree}
    (h : Star (Pair .or OrSeparator (Limited n AndExpr)) p pairs q) (hq : NoAnd q) :
    Star (Pair .or orSeparator.Reads (andExpr inside).Reads) p pairs q ∧ NoAnd p := by
  induction h with
  | nil p => exact ⟨.nil p, hq⟩
  | cons hpair _ ih =>
    obtain ⟨hmark, hright⟩ := hpair
    obtain ⟨hpairs, hnoAnd⟩ := ih hq
    have hclear := AndExpr.clear hright.1
    exact ⟨.cons ⟨reads_orSeparator hmark hclear, reads_andExpr hp hright hnoAnd⟩ hpairs,
      noAnd_of_orSeparator hmark hclear⟩

theorem misses_andExpr (h : AtClose p) : (andExpr inside).Misses p :=
  (Misses.bind (misses_primary h)).within .andExpr

theorem reads_orExprWith (hp : ReadsPrimaries inside n) (h : Limited n OrExpr p t q)
    (hq : Closes q) : (orExprWith inside).Reads p t q := by
  apply Reads.within
  rw [← operands_limited (by decide) OrSeparator.nesting_eq] at h
  obtain ⟨head, pairs, _, rfl, hhead, hpairs⟩ := h.exists_chain
  have hconsumes : Consumes (Limited n AndExpr) := fun _ _ _ h =>
    AndSeparator.consumes.operands Primary.consumes _ _ _ h.1
  have hlength := (OrSeparator.consumes.pair hconsumes).length_le hpairs
  obtain ⟨hreads, hnoAnd⟩ := reads_orPairs hp hpairs hq.noAnd
  refine reads_operands (reads_andExpr hp hhead hnoAnd) hreads hlength ?_
  -- Blanks before the end are read as a separator first, and then no operand follows.
  obtain ⟨gap, r, hgap, hclose⟩ := hq
  by_cases hne : gap = []
  · subst hne
    rw [hgap.toBetween.eq_advance] at hclose
    exact .inl (misses_orSeparator hclose.clear)
  · exact .inr ⟨_, r, reads_orSeparator (.blanks hgap hne) hclose.clear, misses_andExpr hclose⟩

end Tiers

theorem reads_primary (room : Nat) : ReadsPrimaries (inside room) room := by
  induction room with
  | zero =>
    rintro p t q ⟨h, hn⟩
    cases h with
    | group => simp at hn
    | word h => exact reads_primary_word h
  | succ room ih =>
    rintro p t q ⟨h, hn⟩
    cases h with
    | word h => exact reads_primary_word h
    | group hopen hbefore ht hafter hclose =>
      have hlimited : Limited room OrExpr _ _ _ := ⟨ht, by simpa using hn⟩
      have hatClose := atClose_of_between hclose
      have hexpr := reads_orExprWith ih hlimited ⟨_, _, hafter, hatClose⟩
      rw [← orExpr_eq] at hexpr
      exact reads_primary_group hopen
        (Reads.bind (reads_blanks hbefore (OrExpr.clear ht).not_blank)
          (Reads.bind hexpr
            (Reads.bind (reads_blanks hafter hatClose.clear.not_blank)
              (Reads.bind (reads_char hclose) (reads_pure _ _)))))

theorem reads_orExpr (room : Nat) (h : Limited room OrExpr p t q) (hq : Closes q) :
    (orExpr room).Reads p t q := by
  rw [orExpr_eq]
  exact reads_orExprWith (reads_primary room) h hq

theorem query_sound (room : Nat) : Sound (query room) (Limited room Phrase.Whole) := by
  apply Sound.within
  intro s t s' hs
  obtain ⟨before, s₁, hbefore, hs⟩ := bind_eq_ok.mp hs
  obtain ⟨tree, s₂, htree, hs⟩ := bind_eq_ok.mp hs
  obtain ⟨after, s₃, hafter, hs⟩ := bind_eq_ok.mp hs
  obtain ⟨u, s₄, hend, hs⟩ := bind_eq_ok.mp hs
  obtain ⟨rfl, rfl⟩ := pure_eq_ok.mp hs
  obtain ⟨hsame, hrest⟩ := endOfInput_sound _ _ _ hend
  obtain ⟨htree, hn⟩ := orExpr_sound room _ _ _ htree
  rw [hsame]
  exact ⟨.mk (blanks_sound _ _ _ hbefore) htree (blanks_sound _ _ _ hafter) hrest, hn⟩

theorem reads_query (room : Nat) (h : Limited room Phrase.Whole p t q) :
    (query room).Reads p t q := by
  apply Reads.within
  obtain ⟨⟨hbefore, ht, hafter, hrest⟩, hn⟩ := h
  have hatClose := atClose_of_rest_eq_nil hrest
  exact Reads.bind (reads_blanks hbefore (OrExpr.clear ht).not_blank)
    (Reads.bind (reads_orExpr room ⟨ht, hn⟩ ⟨_, _, hafter, hatClose⟩)
      (Reads.bind (reads_blanks hafter hatClose.clear.not_blank)
        (Reads.bind (reads_endOfInput hrest) (reads_pure _ _))))

theorem derives_unique {input : String} {t u : SyntaxTree} (ht : Derives input t)
    (hu : Derives input u) : t = u := by
  obtain ⟨p, ht⟩ := ht
  obtain ⟨q, hu⟩ := hu
  -- One run reads both, given room for the deeper one.
  obtain ⟨s, hs, -⟩ := reads_query (max t.nesting u.nesting) ⟨ht, le_max_left ..⟩
    (Scanner.start input.toList) rfl
  obtain ⟨s', hs', -⟩ := reads_query (max t.nesting u.nesting) ⟨hu, le_max_right ..⟩
    (Scanner.start input.toList) rfl
  rw [hs] at hs'
  exact (EStateM.Result.ok.inj hs').1

end SearchFilter.Query.Grammar

namespace SearchFilter

open Query

theorem eq_ok_of_toOption {ε α : Type} {x : Except ε α} {a : α} (h : x.toOption = some a) :
    x = .ok a := by
  cases x with
  | ok b => exact congrArg Except.ok (Option.some.inj h)
  | error _ => cases h

theorem exists_eq_ok {ε α : Type} {x : Except ε α} (h : x.isOk = true) : ∃ a, x = .ok a := by
  cases x with
  | ok a => exact ⟨a, rfl⟩
  | error _ => cases h

theorem parse_of_lt {input : String} {d : Nat} (h : depthLimit < d) :
    parse input d = .error (.depthLimitTooHigh d) := by
  rw [parse, if_pos h]

theorem le_depthLimit_of_parse {input : String} {d : Nat} {result : Except QueryError SyntaxTree}
    (h : parse input d = result) (hresult : result ≠ .error (.depthLimitTooHigh d)) :
    d ≤ depthLimit := by
  by_contra hgt
  exact hresult (h.symm.trans (parse_of_lt (Nat.not_le.mp hgt)))

theorem parse_cases (input : String) {maxDepth : Nat} (h : maxDepth ≤ depthLimit) :
    (∃ t s, Grammar.query maxDepth (Scanner.start input.toList) = .ok t s ∧
      parse input maxDepth = .ok t) ∨
    (∃ s, Grammar.query maxDepth (Scanner.start input.toList) = .error .miss s ∧
      parse input maxDepth = .error (.syntaxError (s.diagnose input))) ∨
    ∃ offset s, Grammar.query maxDepth (Scanner.start input.toList) = .error (.tooDeep offset) s ∧
      parse input maxDepth = .error (.tooDeep offset maxDepth) := by
  rw [parse, if_neg (Nat.not_lt.mpr h)]
  cases Grammar.query maxDepth (Scanner.start input.toList) with
  | ok t s => exact .inl ⟨t, s, rfl, rfl⟩
  | error halt s =>
    cases halt with
    | miss => exact .inr (.inl ⟨s, rfl, rfl⟩)
    | tooDeep offset => exact .inr (.inr ⟨offset, s, rfl, rfl⟩)

theorem parse_eq_ok_iff_derives {input : String} {maxDepth : Nat} (h : maxDepth ≤ depthLimit)
    {t : SyntaxTree} :
    parse input maxDepth = .ok t ↔ Derives input t ∧ t.nesting ≤ maxDepth := by
  rw [parse, if_neg (Nat.not_lt.mpr h)]
  constructor
  · intro hparse
    split at hparse
    · next tree s hs =>
      obtain rfl : tree = t := by simpa using hparse
      obtain ⟨ht, hn⟩ := Grammar.query_sound maxDepth _ _ _ hs
      exact ⟨⟨_, ht⟩, hn⟩
    · simp at hparse
    · simp at hparse
  · rintro ⟨⟨q, ht⟩, hn⟩
    obtain ⟨s, hs, -⟩ := Grammar.reads_query maxDepth ⟨ht, hn⟩ (Scanner.start input.toList) rfl
    simp only [hs]

/-- The parser accepts exactly the texts of the grammar and builds their one derivation. -/
theorem parse_exact (input : String) (maxDepth : Nat) (h : maxDepth ≤ depthLimit) :
    (∀ t, parse input maxDepth = .ok t ↔ Derives input t ∧ t.nesting ≤ maxDepth) ∧
      ∀ t u, Derives input t → Derives input u → t = u :=
  ⟨fun _ => parse_eq_ok_iff_derives h, fun _ _ => Grammar.derives_unique⟩

/-- The tree of `"a"or (b and ( c) )`. -/
def twoLevels : SyntaxTree :=
  .sequence [.tagged [(.left, .tagged [(.left, .tagged [(.word, .tagged [(.str, .text "a" ⟨1, 2⟩)])])])],
    .tagged [(.or, .text "or " ⟨3, 6⟩),
      (.right, .tagged [(.left, .tagged [(.paren, .tagged [(.left,
        .sequence [.tagged [(.left, .tagged [(.word, .text "b" ⟨7, 8⟩)])],
          .tagged [(.and, .text " and " ⟨8, 13⟩),
            (.right, .tagged [(.paren, .tagged [(.left, .tagged [(.left,
              .tagged [(.word, .text "c" ⟨15, 16⟩)])])])])]])])])])]]

theorem parse_exact_two_levels : 2 ≤ depthLimit ∧
    parse "\"a\"or (b and ( c) )" 2 = .ok twoLevels ∧ Derives "\"a\"or (b and ( c) )" twoLevels ∧
      twoLevels.nesting ≤ 2 ∧ ∀ u, Derives "\"a\"or (b and ( c) )" u → u = twoLevels := by
  have hparse : parse "\"a\"or (b and ( c) )" 2 = .ok twoLevels :=
    eq_ok_of_toOption (by decide +kernel)
  obtain ⟨hiff, hunique⟩ := parse_exact "\"a\"or (b and ( c) )" 2 (by decide)
  obtain ⟨hderives, hnesting⟩ := (hiff twoLevels).mp hparse
  exact ⟨by decide, hparse, hderives, hnesting, fun u hu => hunique u _ hu hderives⟩

end SearchFilter
