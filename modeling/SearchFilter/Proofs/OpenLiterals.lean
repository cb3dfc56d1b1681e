import SearchFilter.Proofs.DepthLimit
import SearchFilter.Proofs.Diagnostics

/-! Literals without their closing quote. A text that leaves a literal open can only be completed by the
quote that is missing, so a parser that comes to the end of the text awaits that quote and nothing else. -/

namespace SearchFilter.Query

open Text Phrase

namespace SyntaxTree

def wordStartAt : Tag → SyntaxTree → Option Nat
  | .word, text _ span => some span.start
  | .word, tagged [(.str, text _ span)] => some (span.start - 1)
  | _, _ => none

def wordStarts (t : SyntaxTree) : List Nat :=
  t.collect wordStartAt

end SyntaxTree

section Words

variable {limit n : Nat} {input : String} {p q : Position} {t : SyntaxTree}

theorem Phrase.Word.wordStarts_eq (h : Word p t q) : t.wordStarts = [p.offset] := by
  cases h <;> rw [SyntaxTree.wordStarts, SyntaxTree.collect_tagged_one] <;> rfl

def WordWithin (limit : Nat) (input : String) (start : Nat) : Prop :=
  ∃ n p t q, OperandWithin limit input n p ∧ Word p t q ∧ p.offset = start

def Sited (limit : Nat) (input : String) (n : Nat) (item : Phrase) : Prop :=
  ∀ p t q, OperandWithin limit input n p → Limited (limit - n) item p t q →
    ∀ start ∈ t.wordStarts, WordWithin limit input start

theorem sited_operands {op : Tag} {separator item : Phrase} (hop : op ≠ .paren)
    (hnesting : ∀ p t q, separator p t q → t.nesting = 0)
    (hmarks : ∀ p t q, separator p t q → (SyntaxTree.tagged [(op, t)]).wordStarts = [])
    (hseparator : ∀ p t q, separator p t q → Separator p t q)
    (hend : ∀ p t q, OperandWithin limit input n p → Limited (limit - n) item p t q →
      AfterOperand limit input n q)
    (h : Sited limit input n item) : Sited limit input n (Operands op separator item) := by
  intro p t r hp ht
  rw [← operands_limited hop hnesting] at ht
  obtain ⟨head, pairs, _, rfl, hhead, hpairs⟩ := ht.exists_chain
  have hrest : ∀ {q ts r}, Star (Pair op separator (Limited (limit - n) item)) q ts r →
      AfterOperand limit input n q →
      ∀ start ∈ SyntaxTree.collectItems SyntaxTree.wordStartAt ts, WordWithin limit input start := by
    intro q ts r hts hq
    induction hts with
    | nil q => exact fun _ hmem => nomatch hmem
    | cons hpair hts ih =>
      obtain ⟨hmark, hright⟩ := hpair
      have hplace := hq.pass (hseparator _ _ _ hmark)
      have hnone : SyntaxTree.collect SyntaxTree.wordStartAt _ = [] := hmarks _ _ _ hmark
      intro start hmem
      rw [SyntaxTree.collectItems, SyntaxTree.collect_pair _ _ rfl, hnone, List.nil_append] at hmem
      rcases List.mem_append.mp hmem with hmem | hmem
      · exact h _ _ _ hplace hright start hmem
      · exact ih (hend _ _ _ hplace hright) start hmem
  intro start hmem
  rw [SyntaxTree.wordStarts, SyntaxTree.collect_chain rfl] at hmem
  rcases List.mem_append.mp hmem with hmem | hmem
  · exact h _ _ _ hp hhead start hmem
  · exact hrest hpairs (hend _ _ _ hp hhead) start hmem

theorem sited_orExpr (h : Sited limit input n Primary) : Sited limit input n OrExpr := by
  refine sited_operands (by decide) OrSeparator.nesting_eq ?_ (fun _ _ _ => .or)
    (fun _ _ _ => afterOperand_of_andExpr) (sited_operands (by decide) AndSeparator.nesting_eq ?_
      (fun _ _ _ => .and) (fun p t _ hp ht => ⟨p, t, hp, ht⟩) h)
  · rintro p t q (_ | _) <;> rw [SyntaxTree.wordStarts, SyntaxTree.collect_tagged_one] <;> rfl
  · rintro p t q ⟨⟩
    rw [SyntaxTree.wordStarts, SyntaxTree.collect_tagged_one]
    rfl

theorem sited_primary (n : Nat) : Sited limit input n Primary := by
  rintro p t q hp ⟨ht, hnesting⟩ start hmem
  cases ht with
  | word hword =>
    rw [hword.wordStarts_eq] at hmem
    exact ⟨n, p, t, q, hp, hword, (List.mem_singleton.mp hmem).symm⟩
  | group hopen hbefore hinner hafter hclose =>
    rw [SyntaxTree.nesting_tagged_one, if_pos rfl] at hnesting
    rw [SyntaxTree.wordStarts, SyntaxTree.collect_tagged_one] at hmem
    have hlt : n < limit := by omega
    have hplace := hp.enter hlt hopen hbefore
    exact sited_orExpr (sited_primary (n + 1)) _ _ _ hplace ⟨hinner, by omega⟩ start hmem
termination_by limit - n

theorem wordWithin_of_derives (h : Derives input t) (hnesting : t.nesting ≤ limit) {start : Nat}
    (hmem : start ∈ t.wordStarts) : WordWithin limit input start := by
  obtain ⟨s, hbefore, ht, -, -⟩ := h
  exact sited_orExpr (sited_primary 0) _ _ _ (.start limit hbefore) ⟨ht, hnesting⟩ start hmem

theorem Phrase.Word.stopsLike (h : Word p t q) (cs : List Char) : StopsLike p.rest cs := by
  have hbare : ∃ c ∈ p.rest.head?, isBare c = true := by
    cases h with
    | @quoted _ _ quote body hquote _ hspan =>
      exact ⟨quote, by simp [hspan.rest_eq], isBare_of_isQuote hquote⟩
    | @bare _ _ text hrun hword =>
      obtain ⟨c, cs, rfl⟩ := List.exists_cons_of_ne_nil hword.nonempty
      exact ⟨c, by simp [hrun.rest_eq], hrun.bare c List.mem_cons_self⟩
  intro hstop
  obtain ⟨c, hc, hbare⟩ := hbare
  rw [hstop c hc] at hbare
  cases hbare

theorem OperandWithin.begins_word (h : OperandWithin limit input n p) (hword : Word p t q) :
    ∃ text, Begins (fun _ => True) (OperandWithin limit · n ·) input text p := by
  obtain ⟨text, htext⟩ := h.begins
  exact ⟨text, htext.toBetween, fun rest _ => htext.moved rest (hword.stopsLike rest)⟩

end Words

/-- In a literal with this quote, no character of `text` is its end. A last backslash may lack the
character after it. -/
def LeavesOpen (quote : Char) (text : List Char) : Prop :=
  LiteralBody quote text ∨ ∃ whole, LiteralBody quote whole ∧ text = whole ++ ['\\']

section Bodies

variable {quote : Char} {text rest : List Char}

theorem literalBody_of_body (h : LiteralBody quote text) (seen rest : List Char) :
    Scan.literalBody quote seen (text ++ rest) =
      Scan.literalBody quote (text.reverse ++ seen) rest := by
  induction h generalizing seen with
  | nil => rfl
  | escaped c _ ih => simp [Scan.literalBody, ih]
  | plain hc hslash _ ih => simp [Scan.literalBody_cons hslash, hc, ih]

theorem literalBody_eq_none (h : quote ∉ text) (seen : List Char) :
    Scan.literalBody quote seen text = none := by
  fun_induction Scan.literalBody quote seen text with
  | case1 | case2 => rfl
  | case3 seen c rest ih => exact ih fun hmem => h (by simp [hmem])
  | case4 => exact absurd List.mem_cons_self h
  | case5 seen c rest _ _ _ ih => exact ih fun hmem => h (List.mem_cons_of_mem c hmem)

theorem LeavesOpen.literalBody_eq (h : LeavesOpen quote text) (hquote : isQuote quote = true)
    (hrest : quote ∉ rest) : Scan.literalBody quote [] (text ++ rest) = none := by
  rcases h with hbody | ⟨whole, hbody, rfl⟩
  · rw [literalBody_of_body hbody]
    exact literalBody_eq_none hrest _
  · have hslash : quote ∉ '\\' :: rest := List.not_mem_cons_of_ne_of_not_mem
      (Scan.ne_backslash_of_isQuote hquote) hrest
    rw [List.append_assoc, literalBody_of_body hbody]
    exact literalBody_eq_none hslash _

end Bodies

section Completion

variable {limit n offset : Nat} {input : String} {p q : Position} {t : SyntaxTree} {quote : Char}
  {what : Expectation} {text body rest more gap : List Char}

theorem clear_of_quote (hrest : p.rest = quote :: rest) (hquote : isQuote quote = true) : Clear p := by
  refine ⟨?_, fun op heq => ?_⟩
  · rintro c hc
    obtain rfl : quote = c := by simpa [hrest] using hc
    exact not_blank_of_isBare (isBare_of_isQuote hquote)
  · rw [hrest, bareRun, List.takeWhile_cons_of_pos (isBare_of_isQuote hquote)] at heq
    rcases isQuote_iff.mp hquote with rfl | rfl <;> cases op <;> simp [Connective.keyword] at heq

theorem OperandWithin.literalBody_ne (h : OperandWithin limit input n p)
    (hrest : p.rest = quote :: rest) (hquote : isQuote quote = true) (ht : Derives input t) :
    Scan.literalBody quote [] rest ≠ none := by
  have hplace : OperandAt (fun _ => Primary) input n p := h.reached.mono fun _ _ _ _ ht => ht.1
  have hhead : p.rest.head? = some quote := by rw [hrest]; rfl
  have hparens := ne_parens_of_isBare (isBare_of_isQuote hquote)
  have hopen : ¬ AtClose p := fun hclose => hparens.2 (hclose quote hhead)
  -- The query goes on with an operand, and of the operands only a literal starts with a quote.
  obtain ⟨u, q, hu, -⟩ := hplace.continues ht (clear_of_quote hrest hquote) hopen
  obtain ⟨first, _, hfirst⟩ := OrExpr.exists_primary hu
  cases hfirst with
  | group hparen =>
    have hparen := hhead.symm.trans (hparen.head?_eq (List.cons_ne_nil _ _))
    exact absurd (Option.some.inj hparen) hparens.1
  | word hword =>
    cases hword with
    | @quoted _ _ quote' body hquote' hbody hspan =>
      have heq := hrest.symm.trans hspan.rest_eq
      obtain ⟨rfl, rfl⟩ : quote = quote' ∧ rest = body ++ quote' :: _ := by simpa using heq
      rw [Scan.literalBody_append (Scan.ne_backslash_of_isQuote hquote') hbody]
      nofun
    | bare hrun hword =>
      have hfirst := hword.unquoted quote (by rw [← hrun.head?_eq hword.nonempty]; exact hhead)
      rw [hquote] at hfirst
      cases hfirst

theorem OperandWithin.extend (h : OperandWithin limit input n p) (hne : p.rest ≠ [])
    (more : List Char) :
    OperandWithin limit (String.ofList (input.toList ++ more)) n ⟨p.offset, p.rest ++ more⟩ := by
  obtain ⟨text, htext⟩ := h.begins
  have hsplit : input.toList = text ++ p.rest := htext.rest_eq
  rw [hsplit, List.append_assoc]
  refine htext.moved (p.rest ++ more) ?_
  simpa using stopsLike_of_ne_nil hne [] more

theorem TooDeepAt.extend (h : TooDeepAt limit input offset) (more : List Char) :
    TooDeepAt limit (String.ofList (input.toList ++ more)) offset := by
  obtain ⟨p, hp, hhead, rfl⟩ := h
  obtain ⟨rest, hrest⟩ := List.head?_eq_some_iff.mp hhead
  exact ⟨_, hp.extend (by simp [hrest]) more, by simp [hrest], rfl⟩

structure OpenLiteral (limit : Nat) (input : String) (p : Position) (quote : Char) : Prop where
  place : ∃ n, OperandWithin limit input n p
  rest_eq : ∃ body, p.rest = quote :: body ∧ LeavesOpen quote body
  isQuote : isQuote quote = true

theorem OpenLiteral.not_fits (h : OpenLiteral limit input p quote) (hmore : quote ∉ more) :
    ¬ Fits limit (String.ofList (input.toList ++ more)) := by
  rintro ⟨t, ht, -⟩
  obtain ⟨⟨n, hp⟩, ⟨body, hrest, hbody⟩, hquote⟩ := h
  have hplace := hp.extend (by simp [hrest]) more
  have hlonger : p.rest ++ more = quote :: (body ++ more) := by rw [hrest, List.cons_append]
  exact hplace.literalBody_ne hlonger hquote ht (hbody.literalBody_eq hquote hmore)

theorem not_mem_of_isQuote (hquote : isQuote quote = true) (n : Nat) :
    quote ∉ List.replicate n ')' ∧ quote ∉ [' '] ++ ending n := by
  rcases isQuote_iff.mp hquote with rfl | rfl <;> simp [ending]

def Completable (limit : Nat) (input : String) (what : Expectation) (p : Position) : Prop :=
  ∃ text rest, Between ⟨0, input.toList⟩ text p ∧ Fits limit (String.ofList (text ++ rest)) ∧
    ∀ quote, isQuote quote = true → what ≠ .closingQuote quote → quote ∉ rest

theorem OperandWithin.completable (h : OperandWithin limit input n p) (what : Expectation) :
    Completable limit input what p := by
  obtain ⟨text, htext, hfits⟩ := h.fits_blank
  exact ⟨text, _, htext, hfits, fun quote hquote _ => (not_mem_of_isQuote hquote n).2⟩

theorem AfterOperand.completable (h : AfterOperand limit input n q) (hgap : Gap q gap p)
    (what : Expectation) : Completable limit input what p := by
  obtain ⟨text, htext, hfits⟩ := h.fits_close hgap
  exact ⟨text, _, htext, hfits, fun quote hquote _ => (not_mem_of_isQuote hquote n).1⟩

theorem Awaited.completable (h : Awaited limit input offset what) :
    ∃ p : Position, p.offset = offset ∧ Completable limit input what p := by
  cases h with
  | group hp | word hp => exact ⟨_, rfl, hp.completable _⟩
  | separator hq => exact ⟨_, rfl, hq.completable (.refl _) _⟩
  | or hq hgap | and hq hgap | close hq hgap | endOfInput hq hgap =>
    exact ⟨_, rfl, hq.completable hgap _⟩
  | @afterAnd n q r s gap hq hgap hne hname =>
    obtain ⟨text, htext, hfits⟩ := hq.fits_and hgap hne
    rw [← List.append_assoc] at hfits
    exact ⟨s, rfl, _, _, htext.trans hname.toBetween, hfits,
      fun quote hquote _ => (not_mem_of_isQuote hquote n).2⟩
  | @closingQuote n p quote rest hp hrest hquote hbody =>
    obtain ⟨text, more, htext, hmore, hfits⟩ := hp.fits_quote hrest hquote hbody
    refine ⟨_, rfl, text, _, htext, hfits, fun other hother hne hmem => ?_⟩
    have hne : other ≠ quote := by
      rintro rfl
      exact hne rfl
    rcases List.mem_append.mp hmem with hmem | hmem
    · rcases hmore with rfl | rfl <;> simp [hne] at hmem
    · exact (not_mem_of_isQuote hother n).1 hmem

theorem Fits.not_tooDeepAt (h : Fits limit input) : ¬ TooDeepAt limit input offset := by
  intro hdeep
  obtain ⟨t, ⟨q, ht⟩, hnesting⟩ := h
  obtain ⟨s, hs, -⟩ := Grammar.reads_query limit ⟨ht, hnesting⟩ (Scanner.start input.toList) rfl
  obtain ⟨s', hs'⟩ := Grammar.query_halts hdeep (Scanner.start input.toList) rfl
  cases hs.symm.trans hs'

end Completion

namespace Grammar

open Scan

variable {limit n room : Nat} {input : String} {p : Position} {quote : Char} {rest : List Char}

theorem literal_touches (hrest : p.rest = quote :: rest) (hquote : isQuote quote = true)
    (hbody : literalBody quote [] rest = none) :
    literal.Arrives p (Touches (p.advance p.rest).offset) := by
  rintro s rfl
  rw [literal_eq_missing hquote hrest hbody, missing, Scanner.expect_eq]
  exact .inr (reached_record _ _)

theorem query_touches_end (h : OperandWithin limit input n p) (hrest : p.rest = quote :: rest)
    (hquote : isQuote quote = true) (hbody : literalBody quote [] rest = none) :
    (query limit).Arrives ⟨0, input.toList⟩ (Touches (p.advance p.rest).offset) := by
  have hlasting := lasting_touches (p.advance p.rest).offset
  refine query_arrives hlasting h (.start (clear_of_quote hrest hquote) ?_)
  apply Arrives.within
  have hnogroup : p.rest.head? ≠ some '(' := by
    simpa [hrest] using (ne_parens_of_isBare (isBare_of_isQuote hquote)).1
  refine (misses_group hnogroup).attempt.bind_arrives (Arrives.within ?_ .word)
  -- What is tried in the place of the literal adds notes and takes none away.
  refine (reads_offset p).bind_arrives (Arrives.bind hlasting ?_ fun quoted rules => ?_)
  · exact ((literal_touches hrest hquote hbody).within .quotedString).attempt
  · cases quoted with
    | some body => exact traced_pure _
    | none => exact (traced_bareWord.within).bind fun _ => traced_pure _

end Grammar

section Reports

variable {limit : Nat} {input : String} {p : Position} {quote : Char} {e : SyntaxError}

theorem OpenLiteral.literalBody_eq (h : OpenLiteral limit input p quote) :
    ∃ body, p.rest = quote :: body ∧ Scan.literalBody quote [] body = none := by
  obtain ⟨body, hrest, hbody⟩ := h.rest_eq
  have hnone := hbody.literalBody_eq h.isQuote List.not_mem_nil
  rw [List.append_nil] at hnone
  exact ⟨body, hrest, hnone⟩

theorem OpenLiteral.not_tooDeepAt (h : OpenLiteral limit input p quote) (offset : Nat) :
    ¬ TooDeepAt limit input offset := by
  intro hdeep
  obtain ⟨n, hp⟩ := h.place
  obtain ⟨body, hrest, hbody⟩ := h.literalBody_eq
  obtain ⟨text, more, htext, -, hfits⟩ := hp.fits_quote hrest h.isQuote hbody
  have hwhole : input.toList = text := by
    have hsplit : input.toList = text ++ (p.advance p.rest).rest := htext.rest_eq
    simpa [Position.advance] using hsplit
  rw [← hwhole] at hfits
  exact hfits.not_tooDeepAt (hdeep.extend _)

theorem OpenLiteral.end_offset (h : OpenLiteral limit input p quote) :
    (p.advance p.rest).offset = byteLength input.toList := by
  obtain ⟨n, hp⟩ := h.place
  obtain ⟨text, htext⟩ := hp.begins
  have hend := htext.toBetween.trans (between_advance List.prefix_rfl)
  rw [hend.offset_eq, Nat.zero_add]
  have hsplit : input.toList = text ++ p.rest := htext.rest_eq
  rw [hsplit]

theorem OpenLiteral.awaited_eq (h : OpenLiteral limit input p quote) {offset : Nat}
    {what : Expectation} (hwhat : Awaited limit input offset what)
    (hoffset : byteLength input.toList ≤ offset) :
    offset = byteLength input.toList ∧ what = .closingQuote quote := by
  obtain ⟨q, rfl, text, rest, htext, hfits, hrest⟩ := hwhat.completable
  have hlength : q.offset = 0 + byteLength text := htext.offset_eq
  have hsplit : input.toList = text ++ q.rest := htext.rest_eq
  have hwhole : byteLength input.toList = byteLength text + byteLength q.rest := by
    rw [hsplit, byteLength_append]
  have hend : q.offset = byteLength input.toList := by omega
  refine ⟨hend, ?_⟩
  -- The whole text would be completed without the quote.
  by_contra hne
  have hall : Between ⟨0, input.toList⟩ input.toList ⟨q.offset, []⟩ := ⟨by simp, by simp [hend]⟩
  obtain rfl := htext.text_eq hall rfl
  exact h.not_fits (hrest quote h.isQuote hne) hfits

theorem OpenLiteral.fails (h : OpenLiteral limit input p quote) (hle : limit ≤ depthLimit) :
    ∃ e, parse input limit = .error (.syntaxError e) := by
  rcases parse_cases input hle with ⟨t, s, -, hparse⟩ | ⟨s, -, hparse⟩ | ⟨o, s, -, hparse⟩
  · have hfits : Fits limit (String.ofList (input.toList ++ [])) := by
      rw [List.append_nil, String.ofList_toList]
      exact ⟨t, (parse_eq_ok_iff_derives hle).mp hparse⟩
    exact absurd hfits (h.not_fits List.not_mem_nil)
  · exact ⟨_, hparse⟩
  · rw [parse_eq_tooDeep_iff hle, ← tooDeepAt_iff_isLeast] at hparse
    exact absurd hparse (h.not_tooDeepAt o)

theorem OpenLiteral.reported (h : OpenLiteral limit input p quote) {e : SyntaxError}
    (he : parse input limit = .error (.syntaxError e)) :
    e.offset = byteLength input.toList ∧ e.expected = [.closingQuote quote] ∧
      [.primary, .word, .quotedString] <:+ e.rules := by
  obtain ⟨-, hne, hawaited⟩ := awaited_of_syntaxError he
  obtain ⟨-, s, f, hs, hf, rfl⟩ := run_of_syntaxError he
  obtain ⟨n, hp⟩ := h.place
  obtain ⟨body, hrest, hbody⟩ := h.literalBody_eq
  -- The run came to the end of the text, so that is where the furthest failure is.
  have hend : byteLength input.toList ≤ f.offset := by
    rw [← h.end_offset]
    exact le_offset_of_touches he (Grammar.query_touches_end hp hrest h.isQuote hbody)
  have hall : ∀ what ∈ f.expected, f.offset = byteLength input.toList ∧ what = .closingQuote quote :=
    fun what hwhat => h.awaited_eq (hawaited what hwhat) hend
  obtain ⟨hnodup, first, hfirst, hstamped⟩ : f.Filed (Stamped Grammar.literalRules) := by
    obtain ⟨notes, hnotes, hfurthest, -⟩ :=
      Grammar.traced_query limit _ _ (Scanner.start input.toList) rfl rfl
    rw [hs] at hfurthest
    exact filed_foldl (by simp [Scanner.start]) hnotes f (hfurthest ▸ hf)
  obtain ⟨hoffset, rfl⟩ := hall first (List.mem_of_mem_head? hfirst)
  refine ⟨hoffset, ?_, List.reverse_suffix.mpr (hstamped quote rfl)⟩
  have hrepeated := List.eq_replicate_of_mem fun what hwhat => (hall what hwhat).2
  rw [hrepeated, List.nodup_replicate] at hnodup
  have hone : f.expected.length = 1 := Nat.le_antisymm hnodup (List.length_pos_iff.mpr hne)
  rw [hrepeated, hone]
  rfl

end Reports
end SearchFilter.Query

namespace SearchFilter

open Query

/-- Put in the place of a word, a literal that is not closed is reported at the end of the text. -/
theorem unclosed_literal_awaits_quote {input : String} {maxDepth : Nat} {t : SyntaxTree} {start : Nat}
    {quote : Char} {body : List Char} (h : parse input maxDepth = .ok t) (hstart : start ∈ t.wordStarts)
    (hquote : isQuote quote = true) (hbody : LeavesOpen quote body) :
    ∃ before after, input.toList = before ++ after ∧ Text.byteLength before = start ∧
      ∃ e, parse (String.ofList (before ++ quote :: body)) maxDepth = .error (.syntaxError e) ∧
        e.offset = Text.byteLength (before ++ quote :: body) ∧ e.expected = [.closingQuote quote] ∧
        [.primary, .word, .quotedString] <:+ e.rules ∧ e.hint = some .closeQuote := by
  have hle := le_depthLimit_of_parse h nofun
  obtain ⟨hderives, hnesting⟩ := (parse_eq_ok_iff_derives hle).mp h
  obtain ⟨n, p, _, _, hp, hword, hoffset⟩ := wordWithin_of_derives hderives hnesting hstart
  obtain ⟨before, hbefore⟩ := hp.begins_word hword
  have hopen : OpenLiteral maxDepth (String.ofList (before ++ quote :: body)) ⟨p.offset, _⟩ quote :=
    ⟨⟨n, hbefore.moved (quote :: body) trivial⟩, ⟨body, rfl, hbody⟩, hquote⟩
  obtain ⟨e, he⟩ := hopen.fails hle
  obtain ⟨hend, hexpected, hrules⟩ := hopen.reported he
  rw [String.toList_ofList] at hend
  have hlength := hbefore.offset_eq
  refine ⟨before, p.rest, hbefore.rest_eq, ?_, e, he, hend, hexpected, hrules, ?_⟩
  · rw [← hoffset, hlength, Nat.zero_add]
  · simp [SyntaxError.hint, hexpected]

theorem unclosed_literal_awaits_quote_group :
    ∃ t, parse "(x or 'y z') and w" 1 = .ok t ∧ 6 ∈ t.wordStarts ∧ isQuote '"' = true ∧
      LeavesOpen '"' "a\\\"(\\".toList ∧
      ∃ before after, "(x or 'y z') and w".toList = before ++ after ∧ Text.byteLength before = 6 ∧
        ∃ e, parse (String.ofList (before ++ '"' :: "a\\\"(\\".toList)) 1 = .error (.syntaxError e) ∧
          e.offset = Text.byteLength (before ++ '"' :: "a\\\"(\\".toList) ∧
          e.expected = [.closingQuote '"'] ∧ [.primary, .word, .quotedString] <:+ e.rules ∧
          e.hint = some .closeQuote := by
  have hok : (parse "(x or 'y z') and w" 1).isOk = true := by decide +kernel
  obtain ⟨t, ht⟩ := exists_eq_ok hok
  have hstarts : (parse "(x or 'y z') and w" 1).toOption.map SyntaxTree.wordStarts =
      some [1, 6, 17] := by decide +kernel
  rw [ht] at hstarts
  have hmem : 6 ∈ t.wordStarts := by
    rw [Option.some.inj hstarts]
    decide
  have hbody : LeavesOpen '"' "a\\\"(\\".toList :=
    .inr ⟨_, .plain (by decide) (by decide)
      (.escaped '"' (.plain (c := '(') (by decide) (by decide) .nil)), rfl⟩
  exact ⟨t, ht, hmem, rfl, hbody, unclosed_literal_awaits_quote ht hmem rfl hbody⟩

end SearchFilter
