import SearchFilter.Proofs.Derivation

/-! What the scanner reads, by places alone. A scan is sound for a relation if it holds between the
places before and after every match; it reads a result from one place to another, or misses at a
place, whatever rules and failures the scanner carries. -/

namespace SearchFilter.Query

open Text

namespace Scan

variable {α β : Type} {x : Scan α} {f : α → Scan β} {s s' : Scanner} {p q r : Position}

def Sound (x : Scan α) (item : Position → α → Position → Prop) : Prop :=
  ∀ s a s', x s = .ok a s' → item s.position a s'.position

def Reads (x : Scan α) (p : Position) (a : α) (q : Position) : Prop :=
  ∀ s : Scanner, s.position = p → ∃ s', x s = .ok a s' ∧ s'.position = q

def Misses (x : Scan α) (p : Position) : Prop :=
  ∀ s : Scanner, s.position = p → ∃ s', x s = .error .miss s'

theorem bind_eq_ok {b : β} :
    (x >>= f) s = .ok b s' ↔ ∃ a s₁, x s = .ok a s₁ ∧ f a s₁ = .ok b s' := by
  change EStateM.bind x f s = _ ↔ _
  unfold EStateM.bind
  cases x s with
  | ok a s₁ => simp [and_assoc]
  | error halt s₁ => simp

theorem offset_bind (f : Nat → Scan β) (s : Scanner) :
    (offset >>= f) s = f s.position.offset s := rfl

theorem pure_eq_ok {a b : α} : (pure a : Scan α) s = .ok b s' ↔ a = b ∧ s = s' := by
  simp [pure, EStateM.pure]

theorem within_eq_ok {rule : Rule} {a : α} :
    within rule x s = .ok a s' ↔ ∃ s₁, x (s.enter rule) = .ok a s₁ ∧ s₁.leave = s' := by
  unfold within
  cases x (s.enter rule) with
  | ok b s₁ => simp [and_assoc]
  | error halt s₁ => simp

theorem attempt_eq_some {a : α} : attempt x s = .ok (some a) s' ↔ x s = .ok a s' := by
  unfold attempt
  cases x s with
  | ok b s₁ => simp
  | error halt s₁ => cases halt <;> simp

theorem position_of_attempt_eq_none (h : attempt x s = .ok none s') : s'.position = s.position := by
  unfold attempt at h
  cases hx : x s with
  | ok b s₁ => simp [hx] at h
  | error halt s₁ =>
    cases halt with
    | miss =>
      obtain rfl : s₁.reset s.position = s' := by simpa [hx] using h
      rfl
    | tooDeep offset => simp [hx] at h

theorem sound_true (x : Scan α) : Sound x fun _ _ _ => True :=
  fun _ _ _ _ => trivial

theorem attempt_sound {item : Position → α → Position → Prop} (h : Sound x item) :
    Sound (attempt x) fun p result q => result.elim (q = p) fun a => item p a q := by
  intro s result s' hs
  cases result with
  | none => exact position_of_attempt_eq_none hs
  | some a => exact h _ _ _ (attempt_eq_some.mp hs)

theorem Sound.and {item item' : Position → α → Position → Prop} (h : Sound x item)
    (h' : Sound x item') : Sound x fun p a q => item p a q ∧ item' p a q :=
  fun s a s' hs => ⟨h s a s' hs, h' s a s' hs⟩

theorem Sound.within {item : Position → α → Position → Prop} (h : Sound x item) (rule : Rule) :
    Sound (within rule x) item := by
  intro s a s' hs
  obtain ⟨s₁, hx, rfl⟩ := within_eq_ok.mp hs
  exact h (s.enter rule) a s₁ hx

theorem Reads.bind {a : α} {b : β} (hx : x.Reads p a q) (hf : (f a).Reads q b r) :
    (x >>= f).Reads p b r := by
  intro s hs
  obtain ⟨s₁, hs₁, hq⟩ := hx s hs
  obtain ⟨s₂, hs₂, hr⟩ := hf s₁ hq
  exact ⟨s₂, bind_eq_ok.mpr ⟨a, s₁, hs₁, hs₂⟩, hr⟩

theorem reads_pure (a : α) (p : Position) : (pure a : Scan α).Reads p a p :=
  fun s hs => ⟨s, rfl, hs⟩

theorem reads_offset (p : Position) : offset.Reads p p.offset p :=
  fun s hs => ⟨s, by rw [offset, hs], hs⟩

theorem Reads.within {a : α} (h : x.Reads p a q) (rule : Rule) : (within rule x).Reads p a q := by
  intro s hs
  obtain ⟨s₁, hx, hq⟩ := h (s.enter rule) hs
  exact ⟨s₁.leave, within_eq_ok.mpr ⟨s₁, hx, rfl⟩, hq⟩

theorem Reads.attempt {a : α} (h : x.Reads p a q) : (attempt x).Reads p (some a) q := by
  intro s hs
  obtain ⟨s₁, hx, hq⟩ := h s hs
  exact ⟨s₁, attempt_eq_some.mpr hx, hq⟩

theorem Misses.attempt (h : x.Misses p) : (attempt x).Reads p none p := by
  intro s hs
  obtain ⟨s₁, hx⟩ := h s hs
  exact ⟨s₁.reset s.position, by simp only [Scan.attempt, hx], hs⟩

theorem Misses.within (h : x.Misses p) (rule : Rule) : (within rule x).Misses p := by
  intro s hs
  obtain ⟨s₁, hx⟩ := h (s.enter rule) hs
  exact ⟨s₁.leave, by simp only [Scan.within, hx]⟩

theorem Misses.bind (h : x.Misses p) : (x >>= f).Misses p := by
  intro s hs
  obtain ⟨s₁, hx⟩ := h s hs
  exact ⟨s₁, by change EStateM.bind x f s = _; simp only [EStateM.bind, hx]⟩

theorem Reads.bind_misses {a : α} (hx : x.Reads p a q) (hf : (f a).Misses q) :
    (x >>= f).Misses p := by
  intro s hs
  obtain ⟨s₁, hs₁, hq⟩ := hx s hs
  obtain ⟨s₂, hs₂⟩ := hf s₁ hq
  exact ⟨s₂, by change EStateM.bind x f s = _; simp only [EStateM.bind, hs₁, hs₂]⟩

theorem misses_missing (what : Expectation) (p : Position) : (missing what : Scan α).Misses p :=
  fun s _ => ⟨s.expect what, rfl⟩

section Many

variable {item : Scan α} {R : Position → α → Position → Prop}

theorem manyWithin_sound (h : Sound item R) {bound : List Char} {found as : List α}
    (hs : manyWithin item bound found s = .ok as s') :
    ∃ new, as = found.reverse ++ new ∧ Star R s.position new s'.position := by
  induction bound generalizing found s with
  | nil =>
    rw [manyWithin] at hs
    cases hitem : attempt item s with
    | error halt s₁ => simp [hitem] at hs
    | ok result s₁ =>
      cases result with
      | none =>
        obtain ⟨rfl, rfl⟩ : found.reverse = as ∧ s₁ = s' := by simpa [hitem] using hs
        exact ⟨[], by simp, position_of_attempt_eq_none hitem ▸ .nil _⟩
      | some a =>
        obtain ⟨rfl, rfl⟩ : (a :: found).reverse = as ∧ s₁ = s' := by simpa [hitem] using hs
        exact ⟨[a], by simp, .cons (h _ _ _ (attempt_eq_some.mp hitem)) (.nil _)⟩
  | cons c bound ih =>
    rw [manyWithin] at hs
    cases hitem : attempt item s with
    | error halt s₁ => simp [hitem] at hs
    | ok result s₁ =>
      cases result with
      | none =>
        obtain ⟨rfl, rfl⟩ : found.reverse = as ∧ s₁ = s' := by simpa [hitem] using hs
        exact ⟨[], by simp, position_of_attempt_eq_none hitem ▸ .nil _⟩
      | some a =>
        simp only [hitem] at hs
        obtain ⟨new, rfl, hnew⟩ := ih hs
        exact ⟨a :: new, by simp, .cons (h _ _ _ (attempt_eq_some.mp hitem)) hnew⟩

theorem many_sound (h : Sound item R) : Sound (many item) (Star R) := by
  intro s as s' hs
  obtain ⟨new, rfl, hnew⟩ := manyWithin_sound h hs
  exact hnew

theorem manyWithin_nil {α : Type} (item : Scan α) (found : List α) :
    manyWithin item [] found = attempt item >>= fun
      | none => pure found.reverse
      | some a => pure (a :: found).reverse := by
  funext s
  change manyWithin item [] found s = EStateM.bind _ _ s
  simp only [manyWithin, EStateM.bind]
  cases attempt item s with
  | ok result s' => cases result <;> rfl
  | error halt s' => rfl

theorem manyWithin_cons {α : Type} (item : Scan α) (c : Char) (bound : List Char)
    (found : List α) :
    manyWithin item (c :: bound) found = attempt item >>= fun
      | none => pure found.reverse
      | some a => manyWithin item bound (a :: found) := by
  funext s
  change manyWithin item (c :: bound) found s = EStateM.bind _ _ s
  simp only [manyWithin, EStateM.bind]
  cases attempt item s with
  | ok result s' => cases result <;> rfl
  | error halt s' => rfl

theorem manyWithin_reads {as : List α} (h : Star item.Reads p as q) (hq : item.Misses q)
    {bound : List Char} (hbound : as.length ≤ bound.length) (found : List α) :
    (manyWithin item bound found).Reads p (found.reverse ++ as) q := by
  induction h generalizing bound found with
  | nil p =>
    intro s hs
    obtain ⟨s₁, hs₁, hp⟩ := hq.attempt s hs
    refine ⟨s₁, ?_, hp⟩
    cases bound <;> simp [manyWithin, hs₁]
  | @cons p p₁ q a as hitem _ ih =>
    -- There are no more items than characters, so the bound is not used up before them.
    cases bound with
    | nil => simp at hbound
    | cons c bound =>
      intro s hs
      obtain ⟨s₁, hs₁, hp⟩ := hitem.attempt s hs
      obtain ⟨s₂, hs₂, hr⟩ := ih hq (by simpa using hbound) (a :: found) s₁ hp
      exact ⟨s₂, by simpa [manyWithin, hs₁] using hs₂, hr⟩

theorem many_reads {as : List α} (h : Star item.Reads p as q) (hq : item.Misses q)
    (hlength : as.length ≤ p.rest.length) : (many item).Reads p as q := by
  intro s hs
  exact manyWithin_reads h hq (by rwa [hs]) [] s hs

end Many

theorem blanks_sound : Sound blanks Gap := by
  rintro s run s' ⟨⟩
  exact gap_takeWhile s.position

theorem blanks_end : Sound blanks fun _ _ q => ∀ c ∈ q.rest.head?, isBlank c = false := by
  rintro s run s' ⟨⟩
  exact fun _ => not_of_mem_head?_drop_takeWhile

theorem reads_blanks {text : List Char} (h : Gap p text q)
    (hq : ∀ c ∈ q.rest.head?, isBlank c = false) : blanks.Reads p text q := by
  rintro s rfl
  have hrun := h.takeWhile_eq hq
  exact ⟨s.advance text, by simp only [blanks, hrun], h.eq_advance.symm⟩

theorem whitespace_eq :
    whitespace = blanks >>= fun run => if run = [] then missing .whitespace else pure run := by
  unfold whitespace
  congr 1
  funext run
  cases run <;> rfl

theorem whitespace_sound : Sound whitespace fun p text q => Gap p text q ∧ text ≠ [] := by
  intro s run s' hs
  rw [whitespace_eq] at hs
  obtain ⟨text, s₁, hblanks, hs⟩ := bind_eq_ok.mp hs
  split at hs
  · simp [missing] at hs
  · next hne =>
    obtain ⟨rfl, rfl⟩ := pure_eq_ok.mp hs
    exact ⟨blanks_sound _ _ _ hblanks, hne⟩

theorem reads_whitespace {text : List Char} (h : Gap p text q) (hne : text ≠ [])
    (hq : ∀ c ∈ q.rest.head?, isBlank c = false) : whitespace.Reads p text q := by
  rw [whitespace_eq]
  apply (reads_blanks h hq).bind
  rw [if_neg hne]
  exact reads_pure text q

theorem misses_whitespace (h : ∀ c ∈ p.rest.head?, isBlank c = false) : whitespace.Misses p := by
  rw [whitespace_eq]
  exact (reads_blanks (.refl p) h).bind_misses (misses_missing _ _)

theorem char_sound (c : Char) : Sound (char c) fun p _ q => Between p [c] q := by
  intro s u s' hs
  unfold char at hs
  split at hs
  · next hhead =>
    obtain ⟨rest, hrest⟩ := List.head?_eq_some_iff.mp hhead
    obtain rfl : s.advance [c] = s' := by simpa using hs
    exact between_advance ⟨rest, by simp [hrest]⟩
  · simp [missing] at hs

theorem reads_char {c : Char} (h : Between p [c] q) : (char c).Reads p () q := by
  rintro s rfl
  refine ⟨s.advance [c], ?_, h.eq_advance.symm⟩
  simp [char, h.rest_eq]

theorem misses_char {c : Char} (h : p.rest.head? ≠ some c) : (char c).Misses p := by
  rintro s rfl
  exact ⟨_, by rw [char, if_neg h]; rfl⟩

theorem keyword_sound (op : Connective) :
    Sound (keyword op) fun p text q => BareRun p text q ∧ text = op.keyword.toList := by
  intro s run s' hs
  simp only [keyword] at hs
  split at hs
  · next hrun =>
    cases hs
    exact ⟨bareRun_maximal s.position, hrun⟩
  · simp [missing] at hs

theorem reads_keyword {op : Connective} (h : BareRun p op.keyword.toList q) :
    (keyword op).Reads p op.keyword.toList q := by
  rintro s rfl
  refine ⟨s.advance op.keyword.toList, ?_, h.eq_advance.symm⟩
  simp [keyword, h.bareRun_eq]

theorem misses_keyword {op : Connective} (h : bareRun p.rest ≠ op.keyword.toList) :
    (keyword op).Misses p := by
  rintro s rfl
  exact ⟨_, by simp only [keyword, if_neg h]; rfl⟩

theorem literalBody_cons {quote c : Char} (hc : c ≠ '\\') (seen rest : List Char) :
    literalBody quote seen (c :: rest) =
      if c = quote then some seen.reverse else literalBody quote (c :: seen) rest := by
  cases rest <;> simp [literalBody, hc]

theorem literalBody_sound {quote : Char} {seen cs body : List Char}
    (h : literalBody quote seen cs = some body) :
    ∃ text rest, body = seen.reverse ++ text ∧ LiteralBody quote text ∧
      cs = text ++ quote :: rest := by
  fun_induction literalBody quote seen cs with
  | case1 | case2 => simp at h
  | case3 seen c rest ih =>
    obtain ⟨text, rest', rfl, htext, rfl⟩ := ih h
    exact ⟨'\\' :: c :: text, rest', by simp, .escaped c htext, by simp⟩
  | case4 seen rest hone hpair =>
    obtain rfl : seen.reverse = body := by simpa using h
    exact ⟨[], rest, by simp, .nil, by simp⟩
  | case5 seen c rest hone hpair hc ih =>
    obtain ⟨text, rest', rfl, htext, rfl⟩ := ih h
    have hslash : c ≠ '\\' := by
      rintro rfl
      cases text with
      | nil => exact hpair _ _ rfl rfl
      | cons d ds => exact hpair _ _ rfl rfl
    exact ⟨c :: text, rest', by simp, .plain hc hslash htext, by simp⟩

theorem literalBody_append {quote : Char} (hq : quote ≠ '\\') {text : List Char}
    (h : LiteralBody quote text) (seen rest : List Char) :
    literalBody quote seen (text ++ quote :: rest) = some (seen.reverse ++ text) := by
  induction h generalizing seen with
  | nil => simp [literalBody_cons hq]
  | escaped c _ ih => simp [literalBody, ih]
  | plain hc hslash _ ih => simp [literalBody_cons hslash, hc, ih]

theorem ne_backslash_of_isQuote {quote : Char} (h : isQuote quote = true) : quote ≠ '\\' := by
  rintro rfl
  exact absurd h (by decide)

section Literals

variable {quote : Char} {body text rest : List Char}

theorem literal_eq_error (h : ∀ c ∈ s.position.rest.head?, isQuote c = false) :
    literal s = .error .miss s := by
  unfold literal
  split
  · rfl
  · next quote rest hrest =>
    have hquote : isQuote quote = false := h quote (by simp [hrest])
    simp [hquote]

theorem literal_eq_ok (hquote : isQuote quote = true) (hbody : LiteralBody quote body)
    (hrest : s.position.rest = quote :: (body ++ quote :: rest)) :
    literal s = .ok body (s.advance (quote :: body ++ [quote])) := by
  have hscan := literalBody_append (ne_backslash_of_isQuote hquote) hbody [] rest
  simp only [literal, hrest, if_pos hquote, hscan, List.reverse_nil, List.nil_append]

theorem literal_eq_missing (hquote : isQuote quote = true) (hrest : s.position.rest = quote :: text)
    (hopen : literalBody quote [] text = none) :
    literal s = missing (.closingQuote quote) (s.advance s.position.rest) := by
  simp only [literal, hrest, if_pos hquote, hopen]

theorem literal_cases (s : Scanner) :
    ((∀ c ∈ s.position.rest.head?, isQuote c = false) ∧ literal s = .error .miss s) ∨
    ∃ quote text, isQuote quote = true ∧ s.position.rest = quote :: text ∧
      ((∃ body rest, LiteralBody quote body ∧ text = body ++ quote :: rest ∧
          literal s = .ok body (s.advance (quote :: body ++ [quote]))) ∨
        literalBody quote [] text = none ∧
          literal s = missing (.closingQuote quote) (s.advance s.position.rest)) := by
  by_cases hnone : ∀ c ∈ s.position.rest.head?, isQuote c = false
  · exact .inl ⟨hnone, literal_eq_error hnone⟩
  · simp only [not_forall, Bool.not_eq_false] at hnone
    obtain ⟨quote, hhead, hquote⟩ := hnone
    obtain ⟨text, hrest⟩ := List.head?_eq_some_iff.mp hhead
    refine .inr ⟨quote, text, hquote, hrest, ?_⟩
    cases hbody : literalBody quote [] text with
    | none => exact .inr ⟨rfl, literal_eq_missing hquote hrest hbody⟩
    | some body =>
      obtain ⟨text', rest, hsame, htext, rfl⟩ := literalBody_sound hbody
      obtain rfl : body = text' := by simpa using hsame
      exact .inl ⟨body, rest, htext, rfl, literal_eq_ok hquote htext hrest⟩

end Literals

theorem literal_sound : Sound literal fun p body q => ∃ quote, isQuote quote = true ∧
    LiteralBody quote body ∧ Between p (quote :: body ++ [quote]) q := by
  intro s body s' hs
  rcases literal_cases s with ⟨-, hscan⟩ |
    ⟨quote, text, hquote, hrest, ⟨body', rest, hbody, rfl, hscan⟩ | ⟨-, hscan⟩⟩
  all_goals rw [hscan] at hs
  · cases hs
  · obtain ⟨rfl, rfl⟩ := EStateM.Result.ok.inj hs
    exact ⟨quote, hquote, hbody, between_advance ⟨rest, by simp [hrest]⟩⟩
  · cases hs

theorem reads_literal {quote : Char} {body : List Char} (hquote : isQuote quote = true)
    (hbody : LiteralBody quote body) (h : Between p (quote :: body ++ [quote]) q) :
    literal.Reads p body q := by
  rintro s rfl
  have hrest : s.position.rest = quote :: (body ++ quote :: q.rest) := by simp [h.rest_eq]
  exact ⟨_, literal_eq_ok hquote hbody hrest, h.eq_advance.symm⟩

theorem misses_literal (h : ∀ c ∈ p.rest.head?, isQuote c = false) : literal.Misses p := by
  rintro s rfl
  exact ⟨s, literal_eq_error h⟩

theorem ofKeyword?_eq_none_iff {text : List Char} :
    Connective.ofKeyword? text = none ↔ ∀ op : Connective, text ≠ op.keyword.toList := by
  constructor
  · rintro h op rfl
    rw [Connective.ofKeyword?_keyword] at h
    exact absurd h (by simp)
  · intro h
    have hand : text ≠ ['a', 'n', 'd'] := h .and
    have hor : text ≠ ['o', 'r'] := h .or
    simp [Connective.ofKeyword?, hand, hor]

theorem isWord_iff {text : List Char} : isWord text = true ↔
    text ≠ [] ∧ (∀ c ∈ text.head?, isQuote c = false) ∧
      ∀ op : Connective, text ≠ op.keyword.toList := by
  cases text with
  | nil => simp [isWord]
  | cons c cs => simp [isWord, ofKeyword?_eq_none_iff]

theorem bareWord_sound : Sound bareWord fun p text q => BareRun p text q ∧ BareWord text := by
  intro s run s' hs
  simp only [bareWord] at hs
  split at hs
  · next hword =>
    cases hs
    have hrun := bareRun_maximal s.position
    obtain ⟨hne, hquote, hkeyword⟩ := isWord_iff.mp hword
    exact ⟨hrun, hne, hrun.bare, hquote, hkeyword⟩
  · simp [missing] at hs

theorem reads_bareWord {text : List Char} (h : BareRun p text q) (hword : BareWord text) :
    bareWord.Reads p text q := by
  rintro s rfl
  have hisWord := isWord_iff.mpr ⟨hword.nonempty, hword.unquoted, hword.unreserved⟩
  refine ⟨s.advance text, ?_, h.eq_advance.symm⟩
  simp [bareWord, h.bareRun_eq, hisWord]

theorem misses_bareWord (h : ∀ c ∈ p.rest.head?, isBare c = false) : bareWord.Misses p := by
  rintro s rfl
  exact ⟨_, by simp only [bareWord, bareRun_eq_nil h]; rfl⟩

theorem endOfInput_sound : Sound endOfInput fun p _ q => q = p ∧ p.rest = [] := by
  intro s u s' hs
  unfold endOfInput at hs
  split at hs
  · next hrest =>
    obtain rfl : s = s' := by simpa using hs
    exact ⟨rfl, by simpa using hrest⟩
  · simp [missing] at hs

theorem reads_endOfInput (h : p.rest = []) : endOfInput.Reads p () p := by
  rintro s rfl
  exact ⟨s, by simp [endOfInput, h], rfl⟩

end Scan
end SearchFilter.Query
