import SearchFilter.Proofs.ByteLexemes

/-! Where a literal ends. The text behind a quote is divided into units, a backslash with the character
after it or a single character that is neither a backslash nor the quote, and the literal ends with the
first byte of the quote that no unit covers. There is at most one such byte; if there is none, the whole
text has been read and the closing quote is noted at its end. -/

namespace SearchFilter.Query

open Text

section Bytes

variable {input : String} {p : Position}

def bytes (cs : List Char) : List UInt8 :=
  cs.flatMap String.utf8EncodeChar

theorem length_bytes (cs : List Char) : (bytes cs).length = byteLength cs := by
  induction cs with
  | nil => rfl
  | cons c cs ih =>
    have hcons : bytes (c :: cs) = String.utf8EncodeChar c ++ bytes cs := rfl
    rw [hcons, List.length_append, String.length_utf8EncodeChar, ih]
    rfl

theorem toUTF8_eq (input : String) : input.toUTF8.data = (bytes input.toList).toArray := by
  have hencode : input.toUTF8 = (bytes input.toList).toByteArray := by
    calc input.toUTF8 = (String.ofList input.toList).toByteArray := by
          rw [String.ofList_toList, String.toUTF8_eq_toByteArray]
      _ = (bytes input.toList).toByteArray := String.toByteArray_ofList
  rw [hencode, List.data_toByteArray]

theorem utf8ByteSize_eq (input : String) : input.utf8ByteSize = byteLength input.toList := by
  have hsize : input.utf8ByteSize = input.toUTF8.data.size := rfl
  rw [hsize, toUTF8_eq, List.size_toArray, length_bytes]

theorem exists_head?_utf8EncodeChar (c : Char) : ∃ b, (String.utf8EncodeChar c).head? = some b ∧
    (c.toNat < 128 ∧ b.toNat = c.toNat ∨ 128 ≤ c.toNat ∧ 192 ≤ b.toNat) := by
  have hencode : String.utf8EncodeChar c =
      if c.toNat ≤ 127 then [UInt8.ofNat c.toNat]
      else if c.toNat ≤ 2047 then
        [UInt8.ofNat (c.toNat / 64 % 32 + 192), UInt8.ofNat (c.toNat % 64 + 128)]
      else if c.toNat ≤ 65535 then
        [UInt8.ofNat (c.toNat / 4096 % 16 + 224), UInt8.ofNat (c.toNat / 64 % 64 + 128),
          UInt8.ofNat (c.toNat % 64 + 128)]
      else
        [UInt8.ofNat (c.toNat / 262144 % 8 + 240), UInt8.ofNat (c.toNat / 4096 % 64 + 128),
          UInt8.ofNat (c.toNat / 64 % 64 + 128), UInt8.ofNat (c.toNat % 64 + 128)] := rfl
  rw [hencode]
  split_ifs with hone htwo hthree
  · exact ⟨_, rfl, .inl ⟨by omega, by rw [UInt8.toNat_ofNat']; omega⟩⟩
  · exact ⟨_, rfl, .inr ⟨by omega, by rw [UInt8.toNat_ofNat']; omega⟩⟩
  · exact ⟨_, rfl, .inr ⟨by omega, by rw [UInt8.toNat_ofNat']; omega⟩⟩
  · exact ⟨_, rfl, .inr ⟨by omega, by rw [UInt8.toNat_ofNat']; omega⟩⟩

theorem head?_utf8EncodeChar_iff {c d : Char} (hd : d.toNat < 128) :
    (String.utf8EncodeChar c).head? = some d.toUInt8 ↔ c = d := by
  have hbyte : d.toUInt8.toNat = d.toNat := Nat.mod_eq_of_lt (hd.trans (by decide))
  obtain ⟨b, hhead, hb⟩ := exists_head?_utf8EncodeChar c
  rw [hhead, Option.some.injEq, ← UInt8.toNat_inj, hbyte]
  constructor
  · intro hsame
    have hcode : c.toNat = d.toNat := by omega
    exact Char.toNat_inj.mp hcode
  · rintro rfl
    omega

theorem PlaceOf.byte_eq (hp : PlaceOf input p) :
    input.toUTF8.data[p.offset]? = (bytes p.rest).head? := by
  obtain ⟨before, hinput, hoffset⟩ := hp.exists_before
  have hsplit : bytes input.toList = bytes before ++ bytes p.rest := by
    rw [hinput, bytes, List.flatMap_append]
    rfl
  rw [toUTF8_eq, List.getElem?_toArray, hsplit, hoffset, ← length_bytes,
    List.getElem?_append_right le_rfl, Nat.sub_self, List.head?_eq_getElem?]

theorem PlaceOf.byte_iff (hp : PlaceOf input p) {c : Char} (hc : c.toNat < 128) :
    input.toUTF8.data[p.offset]? = some c.toUInt8 ↔ p.rest.head? = some c := by
  rw [hp.byte_eq]
  cases p.rest with
  | nil => simp [bytes]
  | cons d ds =>
    have hfirst : (bytes (d :: ds)).head? = (String.utf8EncodeChar d).head? :=
      List.head?_append_of_ne_nil _ String.utf8EncodeChar_ne_nil
    rw [hfirst, head?_utf8EncodeChar_iff hc, List.head?_cons, Option.some.injEq]

end Bytes

section Splitting

theorem splitAtByte_go_eq_some {n : Nat} {before cs a b : List Char}
    (h : splitAtByte.go before n cs = some (a, b)) :
    ∃ text, a = before.reverse ++ text ∧ cs = text ++ b ∧ n = byteLength text := by
  fun_induction splitAtByte.go before n cs with
  | case1 before cs =>
    obtain ⟨rfl, rfl⟩ : before.reverse = a ∧ cs = b := by simpa using h
    exact ⟨[], by simp, rfl, rfl⟩
  | case2 => simp at h
  | case3 before n c cs hle ih =>
    obtain ⟨text, rfl, rfl, hn⟩ := ih h
    refine ⟨c :: text, by simp, rfl, ?_⟩
    simp only [byteLength, List.foldr_cons] at hn ⊢
    omega
  | case4 => simp at h

theorem splitAtByte_eq_some {n : Nat} {cs a b : List Char} (h : splitAtByte n cs = some (a, b)) :
    cs = a ++ b ∧ n = byteLength a := by
  obtain ⟨text, ha, hcs, hn⟩ := splitAtByte_go_eq_some h
  obtain rfl : a = text := ha
  exact ⟨hcs, hn⟩

theorem PlaceOf.slice_iff {input : String} {p : Position} (hp : PlaceOf input p) {stop : Nat}
    (hle : p.offset ≤ stop) {text : List Char} :
    Span.slice input ⟨p.offset, stop⟩ = some (String.ofList text) ↔
      text <+: p.rest ∧ stop = p.offset + byteLength text := by
  obtain ⟨before, hinput, hoffset⟩ := hp.exists_before
  constructor
  · intro hslice
    have hsplit : splitAtByte p.offset input.toList = some (before, p.rest) := by
      rw [hinput, hoffset, splitAtByte_append]
    simp only [Span.slice, hsplit, Option.bind_eq_bind, Option.bind_some] at hslice
    obtain ⟨⟨text', rest⟩, hcut, htext⟩ := Option.bind_eq_some_iff.mp hslice
    obtain rfl : text' = text := String.ofList_injective (Option.some.inj htext)
    obtain ⟨hrest, hlength⟩ := splitAtByte_eq_some hcut
    exact ⟨⟨rest, hrest.symm⟩, by omega⟩
  · rintro ⟨⟨rest, hrest⟩, rfl⟩
    rw [hoffset]
    rw [← hrest] at hinput
    exact slice_eq hinput

end Splitting

inductive LiteralUnit (quote : Char) : List Char → Prop
  | escaped (c : Char) : LiteralUnit quote ['\\', c]
  | plain {c : Char} : c ≠ quote → c ≠ '\\' → LiteralUnit quote [c]

/-- `body` stands at `span`, is divided into units, and is followed by the byte of the quote. -/
structure QuotedAt (input : String) (quote : Char) (span : Span) (body : List Char) : Prop where
  start_le : span.start ≤ span.stop
  slice_eq : span.slice input = some (String.ofList body)
  units : ∃ units : List (List Char), body = units.flatten ∧ ∀ u ∈ units, LiteralUnit quote u
  byte_eq : input.toUTF8.data[span.stop]? = some quote.toUInt8

section Units

variable {input : String} {p : Position} {quote : Char} {body : List Char}

theorem literalBody_of_units {units : List (List Char)} (h : ∀ u ∈ units, LiteralUnit quote u) :
    LiteralBody quote units.flatten := by
  induction units with
  | nil => exact .nil
  | cons u units ih =>
    have htail := ih fun v hv => h v (List.mem_cons_of_mem u hv)
    rw [List.flatten_cons]
    cases h u List.mem_cons_self with
    | escaped c => exact .escaped c htail
    | plain hc hslash => exact .plain hc hslash htail

theorem literalBody_iff_units : LiteralBody quote body ↔
    ∃ units : List (List Char), body = units.flatten ∧ ∀ u ∈ units, LiteralUnit quote u := by
  constructor
  · intro hbody
    induction hbody with
    | nil => exact ⟨[], rfl, by simp⟩
    | @escaped c cs _ ih =>
      obtain ⟨units, rfl, hunits⟩ := ih
      exact ⟨['\\', c] :: units, rfl, List.forall_mem_cons.mpr ⟨.escaped c, hunits⟩⟩
    | @plain c cs hc hslash _ ih =>
      obtain ⟨units, rfl, hunits⟩ := ih
      exact ⟨[c] :: units, rfl, List.forall_mem_cons.mpr ⟨.plain hc hslash, hunits⟩⟩
  · rintro ⟨units, rfl, hunits⟩
    exact literalBody_of_units hunits

theorem toNat_lt_of_isQuote (h : isQuote quote = true) : quote.toNat < 128 := by
  rcases isQuote_iff.mp h with rfl | rfl <;> decide

theorem PlaceOf.quotedAt_iff (hp : PlaceOf input p) (hquote : isQuote quote = true) {stop : Nat} :
    QuotedAt input quote ⟨p.offset, stop⟩ body ↔ LiteralBody quote body ∧
      (∃ rest, p.rest = body ++ quote :: rest) ∧ stop = p.offset + byteLength body := by
  have hbyte : ∀ rest, p.rest = body ++ rest →
      (input.toUTF8.data[p.offset + byteLength body]? = some quote.toUInt8 ↔ rest.head? = some quote) :=
    fun rest hrest => PlaceOf.byte_iff (p := ⟨p.offset + byteLength body, rest⟩)
      (hp.between ⟨hrest, rfl⟩) (toNat_lt_of_isQuote hquote)
  constructor
  · intro h
    obtain ⟨⟨rest, hrest⟩, rfl⟩ := (hp.slice_iff h.start_le).mp h.slice_eq
    have hhead := (hbyte rest hrest.symm).mp h.byte_eq
    obtain ⟨rest', rfl⟩ := List.head?_eq_some_iff.mp hhead
    exact ⟨literalBody_iff_units.mpr h.units, ⟨rest', hrest.symm⟩, rfl⟩
  · rintro ⟨hbody, ⟨rest, hrest⟩, rfl⟩
    have hle := Nat.le_add_right p.offset (byteLength body)
    refine ⟨hle, (hp.slice_iff hle).mpr ⟨⟨quote :: rest, hrest.symm⟩, rfl⟩, ?_, ?_⟩
    · exact literalBody_iff_units.mp hbody
    · exact (hbyte (quote :: rest) hrest).mpr rfl

end Units

section Literals

variable {input : String} {s s' : Scanner} {quote : Char} {body text : List Char}

theorem literal_ok_iff (hquote : isQuote quote = true) (hrest : s.position.rest = quote :: text) :
    (∃ s', Scan.literal s = .ok body s') ↔
      LiteralBody quote body ∧ ∃ rest, text = body ++ quote :: rest := by
  constructor
  · rintro ⟨s', hok⟩
    obtain ⟨quote', -, hbody, hspan⟩ := Scan.literal_sound s body s' hok
    have hsame : quote :: text = quote' :: (body ++ quote' :: s'.position.rest) := by
      rw [← hrest, hspan.rest_eq]
      simp
    obtain ⟨rfl, rfl⟩ := List.cons.inj hsame
    exact ⟨hbody, _, rfl⟩
  · rintro ⟨hbody, rest, rfl⟩
    exact ⟨_, Scan.literal_eq_ok hquote hbody hrest⟩

theorem literal_spans_iff (hs : PlaceOf input s.position) (hquote : isQuote quote = true)
    (hrest : s.position.rest = quote :: text) (span : Span) :
    (∃ s', Scan.literal s = .ok body s' ∧ span = s.literalSpan body) ↔
      span.start = s.position.offset + 1 ∧ QuotedAt input quote span body := by
  have hopen : PlaceOf input ⟨s.position.offset + 1, text⟩ :=
    hs.between ⟨hrest, by rw [byteLength_quote hquote]⟩
  obtain ⟨start, stop⟩ := span
  rw [exists_and_right, literal_ok_iff hquote hrest]
  constructor
  · rintro ⟨⟨hbody, htext⟩, hspan⟩
    obtain ⟨rfl, rfl⟩ := Span.mk.inj hspan
    exact ⟨rfl, (hopen.quotedAt_iff hquote).mpr ⟨hbody, htext, rfl⟩⟩
  · rintro ⟨rfl, hquoted⟩
    obtain ⟨hbody, htext, rfl⟩ := (hopen.quotedAt_iff hquote).mp hquoted
    exact ⟨⟨hbody, htext⟩, rfl⟩

theorem reset_of_literal (hs : PlaceOf input s.position) (h : Scan.literal s = .ok body s') :
    PlaceOf input s'.position ∧ s'.position.offset = (s.literalSpan body).stop + 1 ∧
      s' = s.reset s'.position := by
  obtain ⟨quote, hquote, hbody, hspan⟩ := Scan.literal_sound s body s' h
  have hrest : s.position.rest = quote :: (body ++ quote :: s'.position.rest) := by
    simpa using hspan.rest_eq
  have hend : s' = s.advance (quote :: body ++ [quote]) := by
    rw [Scan.literal_eq_ok hquote hbody hrest] at h
    exact (EStateM.Result.ok.inj h).2.symm
  have hlength : byteLength (quote :: body ++ [quote]) = 1 + byteLength body + 1 := by
    have hparts : quote :: body ++ [quote] = [quote] ++ body ++ [quote] := rfl
    rw [hparts, byteLength_append, byteLength_append, byteLength_quote hquote]
  refine ⟨hs.between hspan, ?_, ?_⟩
  · rw [hspan.offset_eq, hlength, ← Nat.add_assoc, ← Nat.add_assoc]
    rfl
  · rw [hend]
    rfl

theorem literal_eq_expect (hs : PlaceOf input s.position) (hquote : isQuote quote = true)
    (hrest : s.position.rest = quote :: text) (h : ∀ body s', Scan.literal s ≠ .ok body s') :
    Scan.literal s =
      .error .miss ((s.reset ⟨input.utf8ByteSize, []⟩).expect (.closingQuote quote)) := by
  have hend : s.position.advance s.position.rest = ⟨input.utf8ByteSize, []⟩ := by
    obtain ⟨before, hinput, hoffset⟩ := hs.exists_before
    rw [Position.advance, List.drop_length, utf8ByteSize_eq, hinput, byteLength_append, hoffset]
  rcases Scan.literal_cases s with ⟨hnone, -⟩ |
    ⟨quote', text', -, hrest', ⟨body, rest, -, -, hscan⟩ | ⟨-, hscan⟩⟩
  · have hfalse := hnone quote (by rw [hrest]; rfl)
    rw [hquote] at hfalse
    cases hfalse
  · exact absurd hscan (h _ _)
  · obtain ⟨rfl, rfl⟩ := List.cons.inj (hrest.symm.trans hrest')
    rw [hscan, Scanner.advance, hend]
    rfl

theorem listed_closingQuote (h : ∀ f ∈ s.furthest, f.offset ≤ input.utf8ByteSize) :
    ∃ f ∈ ((s.reset ⟨input.utf8ByteSize, []⟩).expect (.closingQuote quote)).furthest,
      f.offset = input.utf8ByteSize ∧ .closingQuote quote ∈ f.expected := by
  rw [Scanner.expect_eq]
  exact listed_record h

end Literals

/-- At a quote, a literal is read just if the text behind the quote is divided into units up to some byte
of the same quote; that byte is unique, and the scanner stops behind it. Otherwise the closing quote is
missed, and noted at the end of the text. The machine, which goes on from unit to unit, comes to the same
with the span of the text. -/
theorem literal_stops_at_quote (input : String) (s : Scanner) (quote : Char)
    (hs : PlaceOf input s.position) (hquote : isQuote quote = true)
    (hat : s.position.rest.head? = some quote) :
    (∀ span body, (∃ s', Scan.literal s = .ok body s' ∧ span = s.literalSpan body) ↔
      span.start = s.position.offset + 1 ∧ QuotedAt input quote span body) ∧
    (∀ body s', Scan.literal s = .ok body s' → PlaceOf input s'.position ∧
      s'.position.offset = (s.literalSpan body).stop + 1 ∧ s' = s.reset s'.position) ∧
    (∀ stop stop' body body', QuotedAt input quote ⟨s.position.offset + 1, stop⟩ body →
      QuotedAt input quote ⟨s.position.offset + 1, stop'⟩ body' → stop = stop') ∧
    ((∀ stop body, ¬ QuotedAt input quote ⟨s.position.offset + 1, stop⟩ body) →
      ∃ s', Scan.literal s = .error .miss s' ∧
        s' = (s.reset ⟨input.utf8ByteSize, []⟩).expect (.closingQuote quote) ∧
        ((∀ f ∈ s.furthest, f.offset ≤ input.utf8ByteSize) →
          ∃ f ∈ s'.furthest, f.offset = input.utf8ByteSize ∧ .closingQuote quote ∈ f.expected)) ∧
    ∀ depth fuel, input.toList.length < fuel →
      Run.literal input fuel (s.cursor depth) = some (Run.spanned depth s (Scan.literal s)) := by
  obtain ⟨text, hrest⟩ := List.head?_eq_some_iff.mp hat
  have hread : ∀ span body, (∃ s', Scan.literal s = .ok body s' ∧ span = s.literalSpan body) ↔
      span.start = s.position.offset + 1 ∧ QuotedAt input quote span body :=
    fun span _ => literal_spans_iff hs hquote hrest span
  refine ⟨hread, fun _ _ => reset_of_literal hs, ?_, ?_, ?_⟩
  · -- One scanner reads one literal, so that there are not two ends.
    intro stop stop' body body' h h'
    obtain ⟨s₁, hok, hspan⟩ := (hread ⟨_, stop⟩ body).mpr ⟨rfl, h⟩
    obtain ⟨s₂, hok', hspan'⟩ := (hread ⟨_, stop'⟩ body').mpr ⟨rfl, h'⟩
    obtain ⟨rfl, -⟩ := EStateM.Result.ok.inj (hok.symm.trans hok')
    exact congrArg Span.stop (hspan.trans hspan'.symm)
  · intro hnone
    have hnever : ∀ body s', Scan.literal s ≠ .ok body s' := by
      intro body s' hok
      exact hnone _ body ((hread (s.literalSpan body) body).mp ⟨s', hok, rfl⟩).2
    exact ⟨_, literal_eq_expect hs hquote hrest hnever, rfl, listed_closingQuote⟩
  · exact fun _ _ hfuel => Run.literal_eq_spanned hs hfuel

theorem literal_stops_at_quote_escapes :
    PlaceOf "ä 'é\\'\"\\\\' b" ⟨3, "'é\\'\"\\\\' b".toList⟩ ∧
    QuotedAt "ä 'é\\'\"\\\\' b" '\'' ⟨4, 11⟩ "é\\'\"\\\\".toList ∧
    (∀ stop body, ¬ QuotedAt "'ab\\" '\'' ⟨1, stop⟩ body) ∧
    ∃ s', Scan.literal (.start "'ab\\".toList) = .error .miss s' ∧
      ∃ f ∈ s'.furthest, f.offset = 4 ∧ .closingQuote '\'' ∈ f.expected := by
  have hplace : PlaceOf "ä 'é\\'\"\\\\' b" ⟨3, "'é\\'\"\\\\' b".toList⟩ := ⟨['ä', ' '], rfl, rfl⟩
  obtain ⟨hclosed, -⟩ := literal_stops_at_quote "ä 'é\\'\"\\\\' b"
    ⟨⟨3, "'é\\'\"\\\\' b".toList⟩, [], none⟩ '\'' hplace rfl rfl
  obtain ⟨hread, -, -, hmissed, -⟩ := literal_stops_at_quote "'ab\\" (.start "'ab\\".toList) '\''
    ⟨[], rfl, rfl⟩ rfl rfl
  have hnone : ∀ stop body, ¬ QuotedAt "'ab\\" '\'' ⟨1, stop⟩ body := by
    intro stop body hquoted
    obtain ⟨s', hok, -⟩ := (hread ⟨1, stop⟩ body).mpr ⟨rfl, hquoted⟩
    cases hok
  obtain ⟨s', hmiss, -, hlisted⟩ := hmissed hnone
  have hquoted := ((hclosed ⟨4, 11⟩ _).mp ⟨_, rfl, rfl⟩).2
  exact ⟨hplace, hquoted, hnone, s', hmiss, hlisted (by simp [Scanner.start])⟩

end SearchFilter.Query
