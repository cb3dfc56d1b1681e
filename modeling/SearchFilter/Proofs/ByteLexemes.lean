import SearchFilter.Proofs.ByteCursor

/-! The lexemes of the machine. At every place of the query it looks at the characters that the scanner
has before it, so that its loops end and each lexeme ends as that of the scanner does. -/

namespace SearchFilter.Query

open Text

theorem Scanner.offset_advance (s : Scanner) (text : List Char) :
    (s.advance text).position.offset = s.position.offset + byteLength text := rfl

theorem Scanner.advance_advance (s : Scanner) (a b : List Char) :
    (s.advance a).advance b = s.advance (a ++ b) := by
  simp [Scanner.advance, Scanner.reset, Position.advance, byteLength_append, Nat.add_assoc]

def Scanner.literalSpan (s : Scanner) (body : List Char) : Span :=
  ⟨s.position.offset + 1, s.position.offset + 1 + byteLength body⟩

namespace Run

variable {input : String} {depth fuel : Nat} {s : Scanner} {p : Position}

theorem placeOf_advance (hs : PlaceOf input s.position) {a b : List Char}
    (h : s.position.rest = a ++ b) : PlaceOf input (s.advance a).position :=
  hs.between (between_advance ⟨b, h.symm⟩)

theorem rest_advance {a b : List Char} (h : s.position.rest = a ++ b) :
    (s.advance a).position.rest = b := by
  simp [Scanner.advance, Scanner.reset, Position.advance, h]

theorem rest_eq (hs : PlaceOf input s.position) :
    rest input (s.cursor depth) = some (.ok s.position.rest, s.cursor depth) := by
  obtain ⟨before, hinput, hoffset⟩ := hs.exists_before
  have hsplit : splitAtByte s.position.offset input.toList = some (before, s.position.rest) := by
    rw [hinput, hoffset, splitAtByte_append]
  have hpos : pos (s.cursor depth) = some (.ok s.position.offset, s.cursor depth) := rfl
  unfold rest
  rw [bind_ok hpos, hsplit]
  rfl

theorem peek_eq (hs : PlaceOf input s.position) :
    peek input (s.cursor depth) = some (.ok s.position.rest.head?, s.cursor depth) := by
  unfold peek
  rw [bind_ok (rest_eq hs)]
  rfl

theorem bump_cons (hs : PlaceOf input s.position) {c : Char} {cs : List Char}
    (hrest : s.position.rest = c :: cs) :
    bump input (s.cursor depth) = some (.ok (some c), (s.advance [c]).cursor depth) := by
  unfold bump
  rw [bind_ok (peek_eq hs), hrest]
  rfl

theorem bump_nil (hs : PlaceOf input s.position) (hrest : s.position.rest = []) :
    bump input (s.cursor depth) = some (.ok none, s.cursor depth) := by
  unfold bump
  rw [bind_ok (peek_eq hs), hrest]
  rfl

theorem blanks_eq (hs : PlaceOf input s.position)
    (hfuel : s.position.rest.length < fuel) :
    blanks input fuel (s.cursor depth) =
      some (.ok (), (s.advance (s.position.rest.takeWhile isBlank)).cursor depth) := by
  generalize hrest : s.position.rest = rest at hfuel
  induction fuel generalizing s rest with
  | zero => omega
  | succ fuel ih =>
    rw [blanks, bind_ok (peek_eq hs), hrest]
    cases rest with
    | nil => rfl
    | cons c cs =>
      dsimp only [List.head?]
      split
      · next hc =>
        have hnext := ih (placeOf_advance (a := [c]) hs hrest) cs (rest_advance (a := [c]) hrest)
          (Nat.lt_of_succ_lt_succ hfuel)
        rw [bind_ok (bump_cons hs hrest), hnext, Scanner.advance_advance,
          List.takeWhile_cons_of_pos hc]
        rfl
      · next hc =>
        rw [List.takeWhile_cons_of_neg hc]
        rfl

theorem find?_eq (P : Char → Bool) (cs : List Char) :
    (find? (fun c => !P c) cs).getD (byteLength cs) = byteLength (cs.takeWhile P) := by
  induction cs with
  | nil => rfl
  | cons c cs ih =>
    unfold find?
    cases hc : P c with
    | false => simp [hc, byteLength]
    | true =>
      rw [List.takeWhile_cons_of_pos hc]
      change ((find? (fun c => !P c) cs).map (c.utf8Size + ·)).getD (c.utf8Size + byteLength cs) = _
      rw [Option.getD_map, ih]
      rfl

theorem bareRun_eq (hs : PlaceOf input s.position) :
    bareRun input (s.cursor depth) =
      some (.ok (Query.bareRun s.position.rest), s.cursor depth) := by
  have hsplit := splitAtByte_append (s.position.rest.takeWhile isBare) (s.position.rest.dropWhile isBare)
  rw [List.takeWhile_append_dropWhile] at hsplit
  unfold bareRun
  rw [bind_ok (rest_eq hs)]
  simp only [find?_eq, hsplit]
  rfl

theorem leaf_eq (hp : PlaceOf input p) {text : List Char} {q : Position} (h : Between p text q) :
    leaf input ⟨p.offset, q.offset⟩ = pure (.leaf p.offset text) := by
  obtain ⟨before, hinput, hoffset⟩ := hp.exists_before
  rw [h.rest_eq] at hinput
  rw [leaf, if_pos h.offset_le, h.offset_eq, hoffset, slice_eq hinput]
  rfl

theorem follows_leaf {S : List Char → SyntaxTree → SyntaxTree → Prop} (hp : PlaceOf input p)
    {text : List Char} (h : Between p text s.position)
    (hleaf : S [] (.leaf p.offset text) (.leaf p.offset text)) :
    Follows depth s S ((pure (.leaf p.offset text) : Scan SyntaxTree) s)
      ((pos >>= fun stop => leaf input ⟨p.offset, stop⟩) (s.cursor depth)) := by
  change Follows depth s S _ (leaf input ⟨p.offset, s.position.offset⟩ (s.cursor depth))
  rw [leaf_eq hp h]
  exact follows_pure hleaf

section Closing

variable {quote c : Char} {start : Nat} {seen text rest : List Char}

theorem closing_escaped (hs : PlaceOf input s.position) (hrest : s.position.rest = '\\' :: c :: rest) :
    closing input quote start (fuel + 1) (s.cursor depth) =
      closing input quote start fuel ((s.advance ['\\', c]).cursor depth) := by
  have hone := placeOf_advance (a := ['\\']) hs hrest
  rw [closing, bind_ok (peek_eq hs), hrest]
  simp only [List.head?_cons, if_pos]
  rw [bind_ok (bump_cons hs hrest), bind_ok (bump_cons hone (rest_advance (a := ['\\']) hrest)),
    Scanner.advance_advance]
  rfl

theorem closing_plain (hs : PlaceOf input s.position) (hrest : s.position.rest = c :: rest)
    (hslash : c ≠ '\\') (hc : c ≠ quote) :
    closing input quote start (fuel + 1) (s.cursor depth) =
      closing input quote start fuel ((s.advance [c]).cursor depth) := by
  rw [closing, bind_ok (peek_eq hs), hrest]
  simp only [List.head?_cons, if_neg hslash, if_neg hc]
  rw [bind_ok (bump_cons hs hrest)]

theorem closing_eq_ok (hquote : quote ≠ '\\') (htext : LiteralBody quote text)
    (hs : PlaceOf input s.position) (hrest : s.position.rest = text ++ quote :: rest)
    (hfuel : text.length < fuel) :
    closing input quote start fuel (s.cursor depth) =
      some (.ok ⟨start, s.position.offset + byteLength text⟩,
        (s.advance (text ++ [quote])).cursor depth) := by
  induction htext generalizing s fuel with
  | nil =>
    obtain ⟨fuel, rfl⟩ := Nat.exists_eq_add_one.mpr hfuel
    rw [closing, bind_ok (peek_eq hs), hrest]
    simp only [List.nil_append, List.head?_cons, if_neg hquote, if_pos]
    change (bump input >>= _) (s.cursor depth) = _
    rw [bind_ok (bump_cons hs hrest)]
    rfl
  | @escaped c cs _ ih =>
    obtain ⟨fuel, rfl⟩ := Nat.exists_eq_add_one.mpr (Nat.zero_lt_of_lt hfuel)
    simp only [List.length_cons] at hfuel
    rw [closing_escaped hs hrest, ih (placeOf_advance (a := ['\\', c]) hs hrest)
        (rest_advance (a := ['\\', c]) hrest) (by omega),
      Scanner.advance_advance, Scanner.offset_advance, Nat.add_assoc, ← byteLength_append]
    rfl
  | @plain c cs hc hslash _ ih =>
    obtain ⟨fuel, rfl⟩ := Nat.exists_eq_add_one.mpr (Nat.zero_lt_of_lt hfuel)
    simp only [List.length_cons] at hfuel
    rw [closing_plain hs hrest hslash hc, ih (placeOf_advance (a := [c]) hs hrest)
        (rest_advance (a := [c]) hrest) (by omega),
      Scanner.advance_advance, Scanner.offset_advance, Nat.add_assoc, ← byteLength_append]
    rfl

theorem closing_eq_missing (hopen : Scan.literalBody quote seen rest = none)
    (hs : PlaceOf input s.position) (hrest : s.position.rest = rest) (hfuel : rest.length < fuel) :
    closing input quote start fuel (s.cursor depth) =
      missing (.closingQuote quote) ((s.advance rest).cursor depth) := by
  fun_induction Scan.literalBody quote seen rest generalizing s fuel with
  | case1 seen =>
    obtain ⟨fuel, rfl⟩ := Nat.exists_eq_add_one.mpr hfuel
    rw [closing, bind_ok (peek_eq hs), hrest]
    rfl
  | case2 seen =>
    obtain ⟨fuel, rfl⟩ := Nat.exists_eq_add_one.mpr (Nat.zero_lt_of_lt hfuel)
    have hone := placeOf_advance (a := ['\\']) hs hrest
    rw [closing, bind_ok (peek_eq hs), hrest]
    simp only [List.head?_cons, if_pos]
    rw [bind_ok (bump_cons hs hrest), bind_ok (bump_nil hone (rest_advance (a := ['\\']) hrest))]
  | case3 seen c rest ih =>
    obtain ⟨fuel, rfl⟩ := Nat.exists_eq_add_one.mpr (Nat.zero_lt_of_lt hfuel)
    simp only [List.length_cons] at hfuel
    rw [closing_escaped hs hrest, ih hopen (placeOf_advance (a := ['\\', c]) hs hrest)
      (rest_advance (a := ['\\', c]) hrest) (by omega), Scanner.advance_advance]
    rfl
  | case4 seen rest => simp at hopen
  | case5 seen c rest hone hpair hc ih =>
    have hslash : c ≠ '\\' := by
      rintro rfl
      cases rest with
      | nil => exact hone rfl rfl
      | cons d ds => exact hpair d ds rfl rfl
    obtain ⟨fuel, rfl⟩ := Nat.exists_eq_add_one.mpr (Nat.zero_lt_of_lt hfuel)
    rw [closing_plain hs hrest hslash hc, ih hopen (placeOf_advance (a := [c]) hs hrest)
      (rest_advance (a := [c]) hrest) (Nat.lt_of_succ_lt_succ hfuel), Scanner.advance_advance]
    rfl

end Closing

theorem implements_blanks (hfuel : input.toList.length < fuel) :
    Implements input depth (fun text run _ => run = text) Scan.blanks (blanks input fuel) := by
  intro s hs
  rw [blanks_eq hs (hs.length_le.trans_lt hfuel)]
  exact .ok (between_advance (List.takeWhile_prefix _)) rfl rfl

theorem implements_whitespace (hfuel : input.toList.length < fuel) :
    Implements input depth (fun text run _ => run = text ∧ text ≠ []) Scan.whitespace
      (whitespace input fuel) := by
  intro s hs
  rw [Scan.whitespace_eq]
  change Follows depth s _ _ ((blanks input fuel >>= fun _ => pos >>= fun stop =>
    if stop = s.position.offset then missing .whitespace else pure ()) (s.cursor depth))
  refine (implements_blanks hfuel s hs).bind fun text run _ s₁ hspan hrun => ?_
  subst hrun
  change Follows depth s₁ _ _ ((if s₁.position.offset = s.position.offset then missing .whitespace
    else pure ()) (s₁.cursor depth))
  by_cases hnil : run = []
  · subst hnil
    have hsame : s₁.position.offset = s.position.offset := hspan.offset_eq
    rw [if_pos rfl, if_pos hsame]
    exact follows_missing _ rfl
  · have hlt := hspan.offset_lt hnil
    rw [if_neg hnil, if_neg hlt.ne']
    exact follows_pure (by simpa using hnil)

theorem implements_char (c : Char) :
    Implements input depth (fun text _ _ => text = [c]) (Scan.char c) (char input c) := by
  intro s hs
  unfold char Scan.char
  rw [bind_ok (peek_eq hs)]
  split
  · next hhead =>
    obtain ⟨rest, hrest⟩ := List.head?_eq_some_iff.mp hhead
    rw [bind_ok (bump_cons hs hrest)]
    exact .ok (between_advance ⟨rest, hrest.symm⟩) rfl rfl
  · exact follows_missing _ rfl

theorem implements_keyword (op : Connective) :
    Implements input depth (fun text run _ => run = text ∧ text ≠ []) (Scan.keyword op)
      (keyword input op) := by
  intro s hs
  unfold keyword Scan.keyword
  rw [bind_ok (bareRun_eq hs)]
  dsimp only
  split
  · next hrun =>
    have hspan := (bareRun_maximal s.position).toBetween
    rw [hrun] at hspan ⊢
    exact .ok hspan rfl ⟨rfl, by cases op <;> decide⟩
  · exact follows_missing _ rfl

theorem implements_endOfInput :
    Implements input depth (fun _ _ _ => True) Scan.endOfInput (endOfInput input) := by
  intro s hs
  have hend : byteLength input.toList = s.position.offset + byteLength s.position.rest := by
    obtain ⟨before, hinput, hoffset⟩ := hs.exists_before
    rw [hinput, hoffset, byteLength_append]
  unfold Scan.endOfInput
  change Follows depth s _ _ ((if s.position.offset = byteLength input.toList then pure ()
    else missing .endOfInput) (s.cursor depth))
  rw [hend]
  cases hrest : s.position.rest with
  | nil =>
    have hlast : s.position.offset = s.position.offset + byteLength [] := rfl
    rw [if_pos hlast]
    exact .ok (.refl _) rfl trivial
  | cons c cs =>
    have hpos : s.position.offset ≠ s.position.offset + byteLength (c :: cs) := by
      have hsize := c.utf8Size_pos
      simp only [byteLength, List.foldr_cons]
      omega
    rw [if_neg hpos]
    exact follows_missing _ rfl

def spanned (depth : Nat) (s : Scanner) :
    EStateM.Result Halt Scanner (List Char) → Except Fault Span × Cursor
  | .ok body s' => (.ok (s.literalSpan body), s'.cursor depth)
  | .error halt s' => (.error (.halt halt), s'.cursor depth)

theorem literal_eq_spanned (hs : PlaceOf input s.position) (hfuel : input.toList.length < fuel) :
    literal input fuel (s.cursor depth) = some (spanned depth s (Scan.literal s)) := by
  unfold literal
  rw [bind_ok (peek_eq hs)]
  rcases Scan.literal_cases s with ⟨hnone, hscan⟩ | ⟨quote, text, hquote, hrest, hcases⟩
  · have hfilter : s.position.rest.head?.filter isQuote = none :=
      Option.filter_eq_none_iff.mpr fun c hc => by simp [hnone c hc]
    rw [hfilter, hscan]
    rfl
  · have hone := placeOf_advance (a := [quote]) hs hrest
    have hrest' := rest_advance (a := [quote]) hrest
    have hstart : (s.advance [quote]).position.offset = s.position.offset + 1 := by
      rw [Scanner.offset_advance, byteLength_quote hquote]
    have hlength := hone.length_le.trans_lt hfuel
    rw [hrest'] at hlength
    rw [hrest, List.head?_cons, Option.filter_some, if_pos hquote]
    change (bump input >>= fun _ => pos >>= fun start => closing input quote start fuel)
      (s.cursor depth) = _
    rw [bind_ok (bump_cons hs hrest)]
    change closing input quote (s.advance [quote]).position.offset fuel
      ((s.advance [quote]).cursor depth) = _
    rcases hcases with ⟨body, rest, hbody, rfl, hscan⟩ | ⟨hopen, hscan⟩
    · have hshort : body.length < fuel := by
        rw [List.length_append] at hlength
        omega
      rw [closing_eq_ok (Scan.ne_backslash_of_isQuote hquote) hbody hone hrest' hshort,
        Scanner.advance_advance, hstart, hscan]
      rfl
    · rw [closing_eq_missing hopen hone hrest' hlength, Scanner.advance_advance, hscan, hrest,
        Scan.missing, Scanner.expect_eq]
      rfl

theorem follows_literal (hs : PlaceOf input s.position) (hfuel : input.toList.length < fuel) :
    Follows depth s
      (fun text body span => text ≠ [] ∧ leaf input span = pure (.leaf (s.position.offset + 1) body))
      (Scan.literal s) (literal input fuel (s.cursor depth)) := by
  obtain ⟨-, -, -, hrules⟩ := Scan.traced_literal s.rules s.position s rfl rfl
  rw [literal_eq_spanned hs hfuel]
  cases hscan : Scan.literal s with
  | error halt s' =>
    rw [hscan] at hrules
    exact .error hrules
  | ok body s' =>
    rw [hscan] at hrules
    obtain ⟨quote, hquote, -, hspan⟩ := Scan.literal_sound s body s' hscan
    have hrest : s.position.rest = [quote] ++ (body ++ quote :: s'.position.rest) := by
      simpa using hspan.rest_eq
    have hone := placeOf_advance hs hrest
    have hbody : Between (s.advance [quote]).position body
        ((s.advance [quote]).advance body).position :=
      between_advance ⟨quote :: s'.position.rest, (rest_advance hrest).symm⟩
    have hleaf := leaf_eq hone hbody
    rw [hbody.offset_eq, Scanner.offset_advance, byteLength_quote hquote] at hleaf
    exact .ok hspan hrules ⟨by simp, hleaf⟩

theorem follows_bareWord (hs : PlaceOf input s.position) :
    Follows depth s
      (fun text run span => text ≠ [] ∧ leaf input span = pure (.leaf s.position.offset run))
      (Scan.bareWord s) (bareWord input (s.cursor depth)) := by
  unfold bareWord Scan.bareWord
  rw [bind_ok (bareRun_eq hs)]
  dsimp only
  split
  · next hword =>
    have hspan := (bareRun_maximal s.position).toBetween
    exact .ok hspan rfl ⟨(Scan.isWord_iff.mp hword).1, leaf_eq hs hspan⟩
  · exact follows_missing _ rfl

end Run
end SearchFilter.Query
