import SearchFilter.Proofs.Reaching
import SearchFilter.Proofs.Viability

/-! What a diagnostic promises. The text before the offset of a syntax error can be extended to a query
within the same limit, and everything that is listed as expected can stand there, except for a bare word
directly after an `or` that itself stands directly after a parenthesis or a quote. -/

namespace SearchFilter.Query

inductive Token : Expectation → List Char → Prop
  | char (c : Char) : Token (.char c) [c]
  | whitespace : Token .whitespace [' ']
  | keyword (op : Connective) : Token (.keyword op) op.keyword.toList
  | word {text : List Char} : BareWord text → Token .word text
  | closingQuote (quote : Char) : Token (.closingQuote quote) [quote]

section Justification

variable {limit offset : Nat} {input : String} {what : Expectation} {before token : List Char}

structure Justified (limit : Nat) (before : List Char) (what : Expectation) : Prop where
  viable : Extendable (Fits limit) before
  token : ∀ token, Token what token →
    (Extendable (fun longer => ∃ t, Derives longer t) (before ++ token) ↔
      ¬ (what = .word ∧ Tight before))
  whole : what = .endOfInput → Fits limit (String.ofList before)

theorem justified_of_canFollow {p : Position} (h : CanFollow limit input p token)
    (htoken : ∀ text, Token what text → text = token) (hword : what ≠ .word)
    (hend : what ≠ .endOfInput) : ∃ before, Between ⟨0, input.toList⟩ before p ∧
      Justified limit before what := by
  obtain ⟨before, hspan, hextendable⟩ := h
  refine ⟨before, hspan, hextendable.of_append, fun text htext => ?_, fun heq => absurd heq hend⟩
  rw [htoken text htext]
  exact iff_of_true (hextendable.imp fun _ => Fits.derives) fun hboth => hword hboth.1

theorem Awaited.justified (h : Awaited limit input offset what) :
    ∃ p : Position, p.offset = offset ∧
      ∃ before, Between ⟨0, input.toList⟩ before p ∧ Justified limit before what := by
  cases h with
  | group hp =>
    obtain ⟨text, htext, hviable⟩ := hp.canFollow_blank
    obtain ⟨text', htext', hgroup⟩ := hp.canFollow_group
    obtain rfl := htext.text_eq htext' rfl
    refine ⟨_, rfl, text, htext, hviable.of_append, ?_, nofun⟩
    rintro _ ⟨⟩
    exact iff_of_true (hgroup.imp fun _ => Fits.derives) (by simp)
  | word hp =>
    obtain ⟨text, htext, hviable⟩ := hp.canFollow_blank
    obtain ⟨text', htext', hword⟩ := hp.extendable_word
    obtain rfl := htext.text_eq htext' rfl
    refine ⟨_, rfl, text, htext, hviable.of_append, ?_, nofun⟩
    intro token htoken
    cases htoken with
    | word hbare => simpa using hword token hbare
  | closingQuote hp hrest hquote hbody =>
    exact ⟨_, rfl, justified_of_canFollow (hp.canFollow_quote hrest hquote hbody)
      (by rintro _ ⟨⟩; rfl) nofun nofun⟩
  | separator hq =>
    exact ⟨_, rfl, justified_of_canFollow hq.canFollow_blank (by rintro _ ⟨⟩; rfl) nofun nofun⟩
  | or hq hgap =>
    exact ⟨_, rfl, justified_of_canFollow (hq.canFollow_or hgap) (by rintro _ ⟨⟩; rfl) nofun nofun⟩
  | and hq hgap hne =>
    obtain ⟨text, htext, hviable⟩ := hq.canFollow_and hgap hne
    rw [← List.append_assoc] at hviable
    exact ⟨_, rfl, justified_of_canFollow ⟨text, htext, hviable.of_append⟩ (by rintro _ ⟨⟩; rfl)
      nofun nofun⟩
  | afterAnd hq hgap hne hname =>
    obtain ⟨text, htext, hviable⟩ := hq.canFollow_and hgap hne
    rw [← List.append_assoc] at hviable
    exact ⟨_, rfl, justified_of_canFollow ⟨_, htext.trans hname.toBetween, hviable⟩
      (by rintro _ ⟨⟩; rfl) nofun nofun⟩
  | close hq hgap =>
    exact ⟨_, rfl, justified_of_canFollow (hq.canFollow_close hgap) (by rintro _ ⟨⟩; rfl)
      nofun nofun⟩
  | endOfInput hq hgap =>
    obtain ⟨text, htext, hfits⟩ := hq.fits_prefix hgap
    exact ⟨_, rfl, text, htext, ⟨_, by simp, hfits⟩, nofun, fun _ => hfits⟩

end Justification

def Hint.Applies (e : SyntaxError) : Hint → Prop
  | closeQuote => ∃ quote, .closingQuote quote ∈ e.expected
  | enterWord => ∀ c ∈ e.input.toList, Text.isWhiteSpace c = true
  | quoteKeyword => (∃ op : Connective, bareRun e.split.2 = op.keyword.toList) ∧ .word ∈ e.expected
  | closeGroup => .char ')' ∈ e.expected
  | fillGroup => e.found = some ')' ∧ (Text.trimEnd e.split.1).getLast? = some '('
  | dropParenthesis => e.found = some ')' ∧ (Text.trimEnd e.split.1).getLast? ≠ some '('

theorem SyntaxError.hint_unquoted {e : SyntaxError}
    (h : ∀ quote, .closingQuote quote ∉ e.expected) : e.hint =
      if e.input.toList.all Text.isWhiteSpace then some .enterWord
      else if e.foundKeyword.isSome && e.expected.contains .word then some .quoteKeyword
      else if e.expected.contains (.char ')') then some .closeGroup
      else if e.found = some ')' then
        if (Text.trimEnd e.split.1).getLast? = some '(' then some .fillGroup
        else some .dropParenthesis
      else none := by
  refine if_neg fun hany => ?_
  obtain ⟨what, hwhat, htrue⟩ := List.any_eq_true.mp hany
  cases what with
  | closingQuote quote => exact h quote hwhat
  | char | whitespace | keyword | word | endOfInput => cases htrue

theorem SyntaxError.applies_of_hint {e : SyntaxError} {hint : Hint} (h : e.hint = some hint) :
    hint.Applies e ∧ (hint ≠ .closeQuote → ∀ quote, .closingQuote quote ∉ e.expected) := by
  by_cases hquote : ∃ quote, .closingQuote quote ∈ e.expected
  · obtain ⟨quote, hmem⟩ := hquote
    have hfirst : e.hint = some .closeQuote := if_pos (List.any_eq_true.mpr ⟨_, hmem, rfl⟩)
    obtain rfl := Option.some.inj (hfirst.symm.trans h)
    exact ⟨⟨quote, hmem⟩, fun hne => absurd rfl hne⟩
  · have hnone := not_exists.mp hquote
    refine ⟨?_, fun _ => hnone⟩
    rw [hint_unquoted hnone] at h
    split_ifs at h with hspace hkeyword hgroup hfound hfill
    all_goals cases h
    · exact List.all_eq_true.mp hspace
    · rw [Bool.and_eq_true, List.contains_iff_mem, Option.isSome_iff_ne_none] at hkeyword
      obtain ⟨hfound, hword⟩ := hkeyword
      rw [foundKeyword, Ne, Scan.ofKeyword?_eq_none_iff] at hfound
      exact ⟨by simpa using hfound, hword⟩
    · exact List.contains_iff_mem.mp hgroup
    · exact ⟨hfound, hfill⟩
    · exact ⟨hfound, hfill⟩

end SearchFilter.Query

namespace SearchFilter

open Query

theorem run_of_syntaxError {input : String} {maxDepth : Nat} {e : SyntaxError}
    (h : parse input maxDepth = .error (.syntaxError e)) :
    maxDepth ≤ depthLimit ∧ ∃ s f,
      Grammar.query maxDepth (Scanner.start input.toList) = .error .miss s ∧ s.furthest = some f ∧
        e = ⟨input, f.offset, f.expected, f.rules.reverse⟩ := by
  have hle := le_depthLimit_of_parse h nofun
  refine ⟨hle, ?_⟩
  rcases parse_cases input hle with ⟨t, s, -, hparse⟩ | ⟨s, hs, hparse⟩ | ⟨o, s, -, hparse⟩
  · cases hparse.symm.trans h
  · cases hparse.symm.trans h
    obtain ⟨f, hf, -⟩ := Grammar.marks_query maxDepth _ _ hs
    have hf : s.furthest = some f := hf
    exact ⟨s, f, hs, hf, by simp [Scanner.diagnose, hf]⟩
  · cases hparse.symm.trans h

theorem input_of_syntaxError {input : String} {maxDepth : Nat} {e : SyntaxError}
    (h : parse input maxDepth = .error (.syntaxError e)) : e.input = input := by
  obtain ⟨-, s, f, -, -, rfl⟩ := run_of_syntaxError h
  rfl

theorem split_of_syntaxError {input : String} {maxDepth : Nat} {e : SyntaxError} {before : List Char}
    {p : Position} (h : parse input maxDepth = .error (.syntaxError e))
    (hbefore : Between ⟨0, input.toList⟩ before p) (hoffset : p.offset = e.offset) :
    e.split = (before, p.rest) := by
  obtain ⟨-, s, f, -, -, rfl⟩ := run_of_syntaxError h
  have hrest : input.toList = before ++ p.rest := hbefore.rest_eq
  have hlength : f.offset = Text.byteLength before := by
    rw [← Nat.zero_add (Text.byteLength before)]
    exact hoffset.symm.trans hbefore.offset_eq
  simp only [SyntaxError.split, hrest, hlength, splitAtByte_append]
  rfl

theorem le_offset_of_touches {input : String} {maxDepth offset : Nat} {e : SyntaxError}
    (h : parse input maxDepth = .error (.syntaxError e))
    (htouches : (Grammar.query maxDepth).Arrives ⟨0, input.toList⟩ (Scan.Touches offset)) :
    offset ≤ e.offset := by
  obtain ⟨-, s, f, hs, hf, rfl⟩ := run_of_syntaxError h
  have hrun := htouches (Scanner.start input.toList) rfl
  rw [hs] at hrun
  rcases hrun with hhalt | ⟨g, hg, hle⟩
  · exact absurd rfl hhalt
  · obtain rfl : f = g := Option.mem_unique hf hg
    exact hle

theorem awaited_of_syntaxError {input : String} {maxDepth : Nat} {e : SyntaxError}
    (h : parse input maxDepth = .error (.syntaxError e)) :
    maxDepth ≤ depthLimit ∧ e.expected ≠ [] ∧
      ∀ what ∈ e.expected, Awaited maxDepth input e.offset what := by
  obtain ⟨hle, s, f, hs, hf, rfl⟩ := run_of_syntaxError h
  have hrun := Grammar.faithful_query maxDepth input (Scanner.start input.toList) rfl
    (Scanner.noted_start _ _)
  rw [hs] at hrun
  exact ⟨hle, hrun f hf⟩

/-- The text before a syntax error can be extended to a query within the limit. Each expectation can be
met there, except that a bare word cannot follow a tight `or`. -/
theorem syntaxError_extendable {input : String} {maxDepth : Nat} {e : SyntaxError}
    (h : parse input maxDepth = .error (.syntaxError e)) :
    ∃ before after, input.toList = before ++ after ∧ Text.byteLength before = e.offset ∧
      e.expected ≠ [] ∧
      Extendable (fun longer => ∃ t, parse longer maxDepth = .ok t) before ∧
      (∀ what ∈ e.expected, ∀ token, Token what token →
        (Extendable (fun longer => ∃ t, Derives longer t) (before ++ token) ↔
          ¬ (what = .word ∧ Tight before))) ∧
      (.endOfInput ∈ e.expected → ∃ t, parse (String.ofList before) maxDepth = .ok t) := by
  obtain ⟨hle, hne, hawaited⟩ := awaited_of_syntaxError h
  obtain ⟨first, hfirst⟩ := List.exists_mem_of_ne_nil _ hne
  obtain ⟨p, hoffset, before, hspan, hviable, -⟩ := (hawaited first hfirst).justified
  -- Every expectation belongs to the same place, so to the same text before it.
  have hall : ∀ what ∈ e.expected, Justified maxDepth before what := by
    intro what hwhat
    obtain ⟨p', hoffset', before', hspan', hjustified⟩ := (hawaited what hwhat).justified
    rwa [hspan.text_eq hspan' (hoffset.trans hoffset'.symm)]
  have hparse : ∀ s, Fits maxDepth s → ∃ t, parse s maxDepth = .ok t := by
    rintro s ⟨t, ht⟩
    exact ⟨t, (parse_eq_ok_iff_derives hle).mpr ht⟩
  refine ⟨before, p.rest, hspan.rest_eq, ?_, hne, hviable.imp hparse,
    fun what hwhat => (hall what hwhat).token, fun hend => hparse _ ((hall _ hend).whole rfl)⟩
  rw [← hoffset, hspan.offset_eq, Nat.zero_add]

theorem syntaxError_extendable_open_group :
    ∃ e, parse "(a or " 1 = .error (.syntaxError e) ∧ .char '(' ∈ e.expected ∧
      ∃ before after, "(a or ".toList = before ++ after ∧ Text.byteLength before = e.offset ∧
        Extendable (fun longer => ∃ t, parse longer 1 = .ok t) before ∧
        Extendable (fun longer => ∃ t, Derives longer t) (before ++ ['(']) := by
  have herror : parse "(a or " 1 = .error (.syntaxError ⟨"(a or ", 6, [.char '(', .word],
      [.query, .orExpr, .andExpr, .primary, .group, .orExpr, .andExpr, .primary, .group]⟩) := by
    decide +kernel
  obtain ⟨before, after, hinput, hoffset, -, hviable, htoken, -⟩ := syntaxError_extendable herror
  refine ⟨_, herror, by simp, before, after, hinput, hoffset, hviable, ?_⟩
  exact (htoken (.char '(') (by simp) _ (.char '(')).mpr (by simp)

/-- A word is expected after a tight `or`, but none can stand there. -/
theorem not_extendable_of_tight_or :
    ∃ e, parse "\"x\"or" 128 = .error (.syntaxError e) ∧ .word ∈ e.expected ∧
      e.offset = Text.byteLength "\"x\"or".toList ∧ ∀ token, Token .word token →
        ¬ Extendable (fun longer => ∃ t, Derives longer t) ("\"x\"or".toList ++ token) := by
  have herror : parse "\"x\"or" 128 = .error (.syntaxError ⟨"\"x\"or", 5, [.char '(', .word],
      [.query, .orExpr, .andExpr, .primary, .group]⟩) := by
    decide +kernel
  refine ⟨_, herror, by simp, by decide +kernel, fun token htoken => ?_⟩
  obtain ⟨-, -, hawaited⟩ := awaited_of_syntaxError herror
  obtain ⟨p, hoffset, before, hspan, hjustified⟩ := (hawaited .word (by simp)).justified
  have hwhole : Between ⟨0, "\"x\"or".toList⟩ "\"x\"or".toList ⟨5, []⟩ :=
    ⟨by simp, by decide +kernel⟩
  obtain rfl := hspan.text_eq hwhole hoffset
  rw [hjustified.token token htoken, not_not]
  exact ⟨rfl, "\"x\"".toList, by decide +kernel, '"', by simp, .inr rfl⟩

end SearchFilter
