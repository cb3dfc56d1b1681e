import Mathlib.Data.List.Basic
import Mathlib.Tactic.SplitIfs
import SearchFilter.Toml.Quoted
import SearchFilter.Toml.Writer

/-! Texts in quotes. The writer takes one of four forms for a text, and the reader of strings gives the
text back from each of them, whatever follows the closing quotes. -/

namespace SearchFilter.Toml

variable {block : Bool} {quote c : Char} {run : Nat} {body cs rest seen : List Char}

def marks (quote : Char) (block : Bool) : List Char :=
  if block then [quote, quote, quote] else [quote]

section Closing

theorem closing_marks (hrest : rest.head? ≠ some quote) :
    ∃ tail, marks quote block ++ rest = quote :: tail ∧ closing quote block tail = some ([], rest) := by
  cases block with
  | false => exact ⟨rest, rfl, rfl⟩
  | true =>
    refine ⟨quote :: quote :: rest, rfl, ?_⟩
    cases rest with
    | nil => simp [closing, List.isPrefixOf]
    | cons d rest =>
      have hd : quote ≠ d := fun h => hrest (by simp [h])
      simp [closing, List.isPrefixOf, hd]

/-- At a quote in a block the reader looks ahead. The quote ends the string only if at most one more
stands between it and the closing ones. -/
theorem closing_body (hbody : ¬ [quote, quote] <+: body) (hrest : rest.head? ≠ some quote) :
    closing quote true (body ++ marks quote true ++ rest) =
      if body = [] then some ([quote], rest)
      else if body = [quote] then some ([quote, quote], rest)
      else none := by
  match body with
  | [] =>
    cases rest with
    | nil => simp [closing, marks, List.isPrefixOf]
    | cons d rest =>
      have hd : quote ≠ d := fun h => hrest (by simp [h])
      simp [closing, marks, List.isPrefixOf, hd]
  | [d] =>
    by_cases hd : d = quote
    · simp [closing, marks, List.isPrefixOf, hd]
    · simp [closing, marks, List.isPrefixOf, hd, Ne.symm hd]
  | d :: e :: body =>
    by_cases hd : d = quote
    · have he : quote ≠ e := by
        rintro rfl
        exact hbody ⟨body, by rw [hd]; rfl⟩
      simp [closing, marks, List.isPrefixOf, hd, he]
    · simp [closing, marks, List.isPrefixOf, Ne.symm hd]

end Closing

section Digits

variable {base n : Nat}

theorem value_digitChar : ∀ n < 16,
    isHexDigit n.digitChar = true ∧ digitValue n.digitChar = n := by
  decide

theorem numeral_toDigits (hbase : 1 < base) (hle : base ≤ 16) :
    (∀ c ∈ Nat.toDigits base n, isHexDigit c = true) ∧ numeral base (Nat.toDigits base n) = n := by
  induction n using Nat.strongRecOn with
  | ind n ih =>
    rcases Nat.lt_or_ge n base with hlt | hge
    · rw [Nat.toDigits_of_lt_base hlt]
      simpa [numeral] using value_digitChar n (Nat.lt_of_lt_of_le hlt hle)
    · have hsmall : n % base < base := Nat.mod_lt n (Nat.zero_lt_of_lt hbase)
      have hless : n / base < n := Nat.div_lt_self (by omega) hbase
      obtain ⟨hhigh, hvalue⟩ := ih (n / base) hless
      obtain ⟨hlow, hdigit⟩ := value_digitChar (n % base) (Nat.lt_of_lt_of_le hsmall hle)
      rw [Nat.toDigits_of_base_le hbase hge]
      refine ⟨List.forall_mem_append.mpr ⟨hhigh, by simpa using hlow⟩, ?_⟩
      rw [numeral] at hvalue ⊢
      rw [List.foldl_append, hvalue, List.foldl_cons, List.foldl_nil, hdigit, Nat.div_add_mod]

end Digits

section Escapes

theorem toNat_lt_of_isEscapeOnly (h : isEscapeOnly c = true) : c.toNat < 128 := by
  simp only [isEscapeOnly, Bool.or_eq_true, Bool.and_eq_true, decide_eq_true_eq, beq_iff_eq] at h
  obtain ⟨⟨hlt, -⟩, -⟩ | rfl := h
  · exact Nat.lt_trans hlt (by decide)
  · decide

theorem escapeCode_eq (h : isEscapeOnly c = true) :
    ∃ p q r s, escapeCode c = ['\\', 'u', p, q, r, s] ∧ [p, q, r, s].all isHexDigit = true ∧
      numeral 16 [p, q, r, s] = c.toNat := by
  have hall : ∀ n < 128, isEscapeOnly (Char.ofNat n) = true →
      (escapeCode (Char.ofNat n)).take 2 = ['\\', 'u'] ∧
        ((escapeCode (Char.ofNat n)).drop 2).length = 4 ∧
        ((escapeCode (Char.ofNat n)).drop 2).all isHexDigit = true ∧
        numeral 16 ((escapeCode (Char.ofNat n)).drop 2) = n := by
    decide +kernel
  have hc := hall c.toNat (toNat_lt_of_isEscapeOnly h)
  rw [Char.ofNat_toNat] at hc
  obtain ⟨hstart, hlength, hhex, hvalue⟩ := hc h
  obtain ⟨p, q, r, s, hdigits⟩ := List.length_eq_four.mp hlength
  rw [hdigits] at hhex hvalue
  refine ⟨p, q, r, s, ?_, hhex, hvalue⟩
  rw [← List.take_append_drop 2 (escapeCode c), hstart, hdigits]
  rfl

theorem escapeFor_cases {escaped : List Char} (h : escapeFor block c = some escaped) :
    (∃ d, escaped = ['\\', d] ∧ shortEscape d = some c) ∨
      escaped = escapeCode c ∧ isEscapeOnly c = true := by
  unfold escapeFor at h
  split_ifs at h <;> cases h
  all_goals subst_vars
  · exact .inl ⟨'\\', rfl, rfl⟩
  · exact .inl ⟨'b', rfl, rfl⟩
  · exact .inl ⟨'t', rfl, rfl⟩
  · exact .inl ⟨'n', rfl, rfl⟩
  · exact .inl ⟨'f', rfl, rfl⟩
  · exact .inl ⟨'r', rfl, rfl⟩
  · next honly => exact .inr ⟨rfl, honly⟩

theorem not_escapeOnly_iff : isEscapeOnly c = false ↔ c = '\n' ∨ isTextual c = true := by
  simp only [isEscapeOnly, isTextual, Bool.or_eq_false_iff, Bool.and_eq_false_imp, Bool.or_eq_true,
    Bool.and_eq_true, decide_eq_true_eq, beq_iff_eq, bne_iff_ne, beq_eq_false_iff_ne, bne_eq_false_iff_eq]
  by_cases hlt : c < ' '
  · have hge : ¬ ' ' ≤ c := Char.not_le.mpr hlt
    grind
  · have hge : ' ' ≤ c := Char.not_lt.mp hlt
    grind

theorem escapeFor_eq_none (h : escapeFor block c = none) :
    c ≠ '\\' ∧ c ≠ '\r' ∧ (isTextual c || (block && isLineEnd c)) = true := by
  unfold escapeFor at h
  split_ifs at h with hslash _ _ hnewline hblock _ hreturn honly
  · subst hnewline
    simp [hblock, isLineEnd]
  · have htext := not_escapeOnly_iff.mp (Bool.not_eq_true _ ▸ honly)
    simp [hslash, hreturn, htext.resolve_left hnewline]

end Escapes

section Basic

theorem readBasic_plain (hquote : c ≠ '"') (hslash : c ≠ '\\')
    (hc : (isTextual c || (block && isLineEnd c)) = true) :
    readBasic block .plain seen (c :: rest) = readBasic block .plain (c :: seen) rest := by
  rw [readBasic]
  simp only [unfold, hquote, hslash, hc, if_true, if_false]

theorem readBasic_quote (h : closing '"' block rest = none) :
    readBasic block .plain seen ('"' :: rest) = readBasic block .plain ('"' :: seen) rest := by
  rw [readBasic]
  simp only [unfold, h, if_true]

theorem readBasic_end {extra tail : List Char} (h : closing '"' block tail = some (extra, rest)) :
    readBasic block .plain seen ('"' :: tail) = some (seen.reverse ++ extra, rest) := by
  rw [readBasic]
  simp only [unfold, h, if_true]

theorem readBasic_backslash :
    readBasic block .plain seen ('\\' :: rest) = readBasic block .escape seen rest := by
  rw [readBasic]
  rfl

theorem readBasic_escape {place : Place} {d : Option Char}
    (h : afterEscape block c = some (place, d)) :
    readBasic block .escape seen (c :: rest) = readBasic block place (d.toList ++ seen) rest := by
  rw [readBasic]
  simp [unfold, h]

theorem readBasic_digit {left value : Nat} {place : Place} {d : Option Char}
    (h : afterDigit left value c = some (place, d)) :
    readBasic block (.code left value) seen (c :: rest) =
      readBasic block place (d.toList ++ seen) rest := by
  rw [readBasic]
  simp [unfold, h]

theorem readBasic_code {p q r s : Char} (hhex : [p, q, r, s].all isHexDigit = true)
    (hvalue : numeral 16 [p, q, r, s] = c.toNat) :
    readBasic block (.code 4 0) seen (p :: q :: r :: s :: rest) =
      readBasic block .plain (c :: seen) rest := by
  simp only [List.all_cons, List.all_nil, Bool.and_true, Bool.and_eq_true] at hhex
  obtain ⟨hp, hq, hr, hs⟩ := hhex
  have hscalar : scalarValue? (numeral 16 [p, q, r, s]) = some c := by
    have hvalid : c.toNat.isValidChar := c.valid
    rw [hvalue, scalarValue?, if_pos hvalid, Char.ofNat_toNat]
  have hlast : afterDigit 1 (numeral 16 [p, q, r]) s = some (.plain, some c) := by
    have hstep : 16 * numeral 16 [p, q, r] + digitValue s = numeral 16 [p, q, r, s] := rfl
    simp [afterDigit, hs, hstep, hscalar]
  have hmore : ∀ {left value : Nat} {e : Char}, isHexDigit e = true → 1 < left →
      afterDigit left value e = some (.code (left - 1) (16 * value + digitValue e), none) := by
    intro left value e he hleft
    simp [afterDigit, he, Nat.not_le.mpr hleft]
  rw [readBasic_digit (hmore hp (by decide)), readBasic_digit (hmore hq (by decide)),
    readBasic_digit (hmore hr (by decide))]
  exact readBasic_digit hlast

/-- `written` is how the character `c` is written where a quote of its own kind needs a backslash. -/
structure Stands (block : Bool) (written : List Char) (c : Char) : Prop where
  reads : ∀ seen rest,
    readBasic block .plain seen (written ++ rest) = readBasic block .plain (c :: seen) rest
  starts : ∃ first more, written = first :: more ∧ first ≠ '"'
  no_return : '\r' ∉ written
  newline : '\n' ∈ written → c = '\n'

theorem stands_self (hquote : c ≠ '"') (h : escapeFor block c = none) : Stands block [c] c := by
  obtain ⟨hslash, hreturn, htext⟩ := escapeFor_eq_none h
  exact ⟨fun _ _ => readBasic_plain hquote hslash htext, ⟨c, [], rfl, hquote⟩,
    fun hmem => hreturn (List.mem_singleton.mp hmem).symm,
    fun hmem => (List.mem_singleton.mp hmem).symm⟩

theorem stands_shortEscape {d : Char} (h : shortEscape d = some c) : Stands block ['\\', d] c := by
  have hplace : afterEscape block d = some (.plain, some c) := by simp [afterEscape, h]
  have hd : d ≠ '\r' ∧ d ≠ '\n' := by
    constructor <;> rintro rfl <;> cases h
  refine ⟨fun _ _ => readBasic_backslash.trans (readBasic_escape hplace),
    ⟨'\\', [d], rfl, by decide⟩, ?_, ?_⟩
  · simp [hd.1.symm]
  · simp [hd.2.symm]

theorem stands_escapeCode (h : isEscapeOnly c = true) : Stands block (escapeCode c) c := by
  obtain ⟨p, q, r, s, heq, hhex, hvalue⟩ := escapeCode_eq h
  have hplace : afterEscape block 'u' = some (.code 4 0, none) := rfl
  have hnot : ∀ d ∈ [p, q, r, s], d ≠ '\r' ∧ d ≠ '\n' := by
    intro d hd
    have hdigit := List.all_eq_true.mp hhex d hd
    constructor <;> rintro rfl <;> cases hdigit
  rw [heq]
  refine ⟨fun seen rest => ?_, ⟨'\\', _, rfl, by decide⟩, ?_, ?_⟩
  · exact readBasic_backslash.trans ((readBasic_escape hplace).trans (readBasic_code hhex hvalue))
  · intro hmem
    have hmem : '\r' ∈ [p, q, r, s] := by simpa using hmem
    exact absurd rfl (hnot _ hmem).1
  · intro hmem
    have hmem : '\n' ∈ [p, q, r, s] := by simpa using hmem
    exact absurd rfl (hnot _ hmem).2

theorem basicBody_cons (block : Bool) (run : Nat) (c : Char) (cs : List Char) :
    (c = '"' ∧ block = true ∧ run < 2 ∧
      basicBody block run (c :: cs) = '"' :: basicBody block (run + 1) cs) ∨
    ∃ written, Stands block written c ∧
      basicBody block run (c :: cs) = written ++ basicBody block 0 cs := by
  rw [basicBody]
  by_cases hquote : c = '"'
  · subst hquote
    by_cases hescaped : (!block || decide (2 ≤ run)) = true
    · exact .inr ⟨_, stands_shortEscape (d := '"') rfl, by simp [hescaped]⟩
    · simp only [Bool.or_eq_true, Bool.not_eq_true', decide_eq_true_eq, not_or, Bool.not_eq_false,
        Nat.not_le] at hescaped
      obtain ⟨rfl, hrun⟩ := hescaped
      exact .inl ⟨rfl, rfl, hrun, by simp [hrun]⟩
  · refine .inr ⟨_, ?_, if_neg hquote⟩
    cases hescape : escapeFor block c with
    | none => exact stands_self hquote hescape
    | some escaped =>
      obtain ⟨d, rfl, hd⟩ | ⟨rfl, honly⟩ := escapeFor_cases hescape
      · exact stands_shortEscape hd
      · exact stands_escapeCode honly

theorem basicBody_eq_nil (h : basicBody block run cs = []) : cs = [] := by
  cases cs with
  | nil => rfl
  | cons c cs =>
    obtain ⟨-, -, -, heq⟩ | ⟨written, hstands, heq⟩ := basicBody_cons block run c cs
    · cases heq.symm.trans h
    · obtain ⟨first, more, rfl, -⟩ := hstands.starts
      cases heq.symm.trans h

theorem basicBody_eq_quote_cons {tail : List Char} (h : basicBody block run cs = '"' :: tail) :
    block = true ∧ run < 2 ∧ ∃ more, cs = '"' :: more ∧ tail = basicBody block (run + 1) more := by
  cases cs with
  | nil => cases h
  | cons c cs =>
    obtain ⟨rfl, hblock, hrun, heq⟩ | ⟨written, hstands, heq⟩ := basicBody_cons block run c cs
    · exact ⟨hblock, hrun, cs, rfl, (List.cons.inj (h.symm.trans heq)).2⟩
    · obtain ⟨first, more, rfl, hfirst⟩ := hstands.starts
      exact absurd (List.cons.inj (heq.symm.trans h)).1 hfirst

theorem not_two_quotes_basicBody (hrun : 0 < run) :
    ¬ ['"', '"'] <+: basicBody block run cs := by
  rintro ⟨tail, htail⟩
  obtain ⟨-, -, more, rfl, hmore⟩ := basicBody_eq_quote_cons htail.symm
  obtain ⟨-, hlt, -⟩ := basicBody_eq_quote_cons hmore.symm
  omega

theorem readBasic_basicBody (hrun : run ≤ 2) (hrest : rest.head? ≠ some '"') :
    readBasic block .plain seen (basicBody block run cs ++ marks '"' block ++ rest) =
      some (seen.reverse ++ cs, rest) := by
  induction cs generalizing run seen with
  | nil =>
    obtain ⟨tail, heq, hclosing⟩ := @closing_marks block _ _ hrest
    rw [basicBody, List.nil_append, heq, readBasic_end hclosing]
  | cons c cs ih =>
    obtain ⟨rfl, rfl, hlt, heq⟩ | ⟨written, hstands, heq⟩ := basicBody_cons block run c cs
    · -- The quote may belong to the run that touches the closing quotes; then the string ends here.
      have hbody : ¬ ['"', '"'] <+: basicBody true (run + 1) cs :=
        not_two_quotes_basicBody (Nat.succ_pos run)
      have hclosing := closing_body hbody hrest
      rw [heq, List.cons_append, List.cons_append]
      by_cases hnil : basicBody true (run + 1) cs = []
      · rw [if_pos hnil] at hclosing
        rw [readBasic_end hclosing, basicBody_eq_nil hnil]
      by_cases hone : basicBody true (run + 1) cs = ['"']
      · obtain ⟨-, -, more, rfl, hmore⟩ := basicBody_eq_quote_cons hone
        rw [if_neg hnil, if_pos hone] at hclosing
        rw [readBasic_end hclosing, basicBody_eq_nil hmore.symm]
      rw [if_neg hnil, if_neg hone] at hclosing
      rw [readBasic_quote hclosing, ih (by omega), List.reverse_cons, List.append_assoc]
      rfl
    · rw [heq, List.append_assoc, List.append_assoc, hstands.reads, ← List.append_assoc,
        ih (Nat.zero_le 2), List.reverse_cons, List.append_assoc]
      rfl

theorem mem_basicBody (h : c ∈ basicBody block run cs) : c ≠ '\r' ∧ (c = '\n' → '\n' ∈ cs) := by
  induction cs generalizing run with
  | nil => cases h
  | cons d cs ih =>
    obtain ⟨rfl, rfl, -, heq⟩ | ⟨written, hstands, heq⟩ := basicBody_cons block run d cs
    · rw [heq, List.mem_cons] at h
      obtain rfl | h := h
      · exact ⟨by decide, fun hc => absurd hc (by decide)⟩
      · exact (ih h).imp_right fun himp hc => List.mem_cons_of_mem _ (himp hc)
    · rw [heq, List.mem_append] at h
      obtain h | h := h
      · refine ⟨fun hc => hstands.no_return (hc ▸ h), fun hc => ?_⟩
        rw [hstands.newline (hc ▸ h)]
        exact List.mem_cons_self
      · exact (ih h).imp_right fun himp hc => List.mem_cons_of_mem _ (himp hc)

end Basic

section Literal

theorem le_longestRun : run ≤ longestRun c run cs := by
  induction cs generalizing run with
  | nil => exact Nat.le_refl run
  | cons d cs ih =>
    rw [longestRun]
    split
    · exact Nat.le_trans (Nat.le_succ run) ih
    · exact Nat.le_max_left ..

theorem longestRun_mono {m n : Nat} (h : m ≤ n) : longestRun c m cs ≤ longestRun c n cs := by
  induction cs generalizing m n with
  | nil => exact h
  | cons d cs ih =>
    rw [longestRun, longestRun]
    split
    · exact ih (Nat.succ_le_succ h)
    · omega

theorem longestRun_tail_le {d : Char} : longestRun c 0 cs ≤ longestRun c 0 (d :: cs) := by
  rw [longestRun]
  split
  · exact longestRun_mono (Nat.zero_le 1)
  · exact Nat.le_max_right ..

theorem readLiteral_text (htext : ∀ c ∈ cs, (isTextual c || (block && isLineEnd c)) = true)
    (hquotes : longestRun '\'' 0 cs ≤ if block then 2 else 0) (hrest : rest.head? ≠ some '\'') :
    readLiteral block seen (cs ++ marks '\'' block ++ rest) = some (seen.reverse ++ cs, rest) := by
  induction cs generalizing seen with
  | nil =>
    obtain ⟨tail, heq, hclosing⟩ := @closing_marks block _ _ hrest
    rw [List.nil_append, heq, readLiteral, if_pos rfl, hclosing]
  | cons c cs ih =>
    have hread : ∀ seen, readLiteral block seen (cs ++ marks '\'' block ++ rest) =
        some (seen.reverse ++ cs, rest) :=
      fun _ => ih (fun d hd => htext d (List.mem_cons_of_mem c hd))
        (Nat.le_trans longestRun_tail_le hquotes)
    rw [List.cons_append, List.cons_append, readLiteral]
    by_cases hc : c = '\''
    · subst hc
      rw [longestRun, if_pos rfl] at hquotes
      obtain rfl : block = true := by
        have hpos := Nat.le_trans le_longestRun hquotes
        split at hpos
        · assumption
        · omega
      -- Three quotes in a row would be a longer run than the block may hold.
      have hbody : ¬ ['\'', '\''] <+: cs := by
        rintro ⟨more, rfl⟩
        have hlong : 3 ≤ longestRun '\'' 3 more := le_longestRun
        exact absurd (Nat.le_trans hlong hquotes) (by decide)
      rw [if_pos rfl, closing_body hbody hrest]
      by_cases hnil : cs = []
      · simp [hnil]
      by_cases hone : cs = ['\'']
      · simp [hone]
      rw [if_neg hnil, if_neg hone]
      show readLiteral true ('\'' :: seen) _ = _
      rw [hread, List.reverse_cons, List.append_assoc]
      rfl
    · rw [if_neg hc, if_pos (htext c List.mem_cons_self), hread, List.reverse_cons,
        List.append_assoc]
      rfl

end Literal

section Writer

theorem formFor_literal (h : formFor cs = .literal) :
    (∀ c ∈ cs, isEscapeOnly c = false) ∧ longestRun '\'' 0 cs = 0 ∧ '\n' ∉ cs := by
  unfold formFor at h
  simp only at h
  split_ifs at h with h₁ h₂
  simpa [and_assoc] using h₂

theorem formFor_literalBlock (h : formFor cs = .literalBlock) :
    (∀ c ∈ cs, isEscapeOnly c = false) ∧ longestRun '\'' 0 cs ≤ 2 := by
  unfold formFor at h
  simp only at h
  split_ifs at h with h₁ h₂ h₃ h₄
  simpa using h₄

theorem readString_line (hquote : quote = '"' ∨ quote = '\'') (hbody : body.head? ≠ some quote)
    (hrest : rest.head? ≠ some quote) :
    readString (quote :: (body ++ quote :: rest)) = readLine (quote :: (body ++ quote :: rest)) := by
  have hne : ∀ tail, quote :: (body ++ quote :: rest) ≠ quote :: quote :: quote :: tail := by
    rintro tail heq
    cases body with
    | nil =>
      cases rest with
      | nil => cases heq
      | cons d rest => exact hrest (by simp_all)
    | cons d body => exact hbody (by simp_all)
  unfold readString
  split
  · next heq => exact absurd heq (by obtain rfl | rfl := hquote <;> simp_all)
  · next heq => exact absurd heq (by obtain rfl | rfl := hquote <;> simp_all)
  · rfl

theorem dropLineEnd_start (hquote : quote = '"' ∨ quote = '\'')
    (hbody : ∀ d ∈ body, d ≠ '\r' ∧ (d = '\n' → '\n' ∈ cs)) :
    dropLineEnd ((if cs.contains '\n' then ['\n'] else []) ++ body ++ marks quote true ++ rest) =
      body ++ marks quote true ++ rest := by
  by_cases hnewline : '\n' ∈ cs
  · rw [if_pos (List.contains_iff_mem.mpr hnewline)]
    rfl
  · rw [if_neg (fun h => hnewline (List.contains_iff_mem.mp h)), List.nil_append]
    have hhead : ∀ d tail, body ++ marks quote true ++ rest = d :: tail → d ≠ '\r' ∧ d ≠ '\n' := by
      intro d tail heq
      cases body with
      | nil =>
        obtain ⟨rfl, -⟩ := List.cons.inj heq
        obtain rfl | rfl := hquote <;> decide
      | cons e body =>
        obtain ⟨rfl, -⟩ := List.cons.inj heq
        have he := hbody e List.mem_cons_self
        exact ⟨he.1, fun heq => hnewline (he.2 heq)⟩
    unfold dropLineEnd
    split
    · next heq => exact absurd rfl (hhead _ _ heq).2
    · next heq => exact absurd rfl (hhead _ _ heq).1
    · rfl

theorem readString_basic (hrest : rest.head? ≠ some '"') :
    readString (['"'] ++ basicBody false 0 cs ++ ['"'] ++ rest) = some (cs, rest) := by
  have hhead : (basicBody false 0 cs).head? ≠ some '"' := by
    intro h
    obtain ⟨tail, htail⟩ := List.head?_eq_some_iff.mp h
    cases (basicBody_eq_quote_cons htail).1
  have hread : readBasic false .plain [] (basicBody false 0 cs ++ marks '"' false ++ rest) =
      some (cs, rest) := readBasic_basicBody (Nat.zero_le 2) hrest
  rw [marks, if_neg Bool.false_ne_true, List.append_assoc] at hread
  simpa using (readString_line (.inl rfl) hhead hrest).trans hread

theorem readString_literal (honly : ∀ c ∈ cs, isEscapeOnly c = false)
    (hrun : longestRun '\'' 0 cs = 0) (hnewline : '\n' ∉ cs) (hrest : rest.head? ≠ some '\'') :
    readString (['\''] ++ cs ++ ['\''] ++ rest) = some (cs, rest) := by
  have hhead : cs.head? ≠ some '\'' := by
    intro h
    obtain ⟨tail, rfl⟩ := List.head?_eq_some_iff.mp h
    have hone : 1 ≤ longestRun '\'' 1 tail := le_longestRun
    exact absurd (Nat.le_trans hone (Nat.le_of_eq hrun)) (by decide)
  have htext : ∀ c ∈ cs, (isTextual c || (false && isLineEnd c)) = true := by
    intro c hc
    have hplain := not_escapeOnly_iff.mp (honly c hc)
    simp [hplain.resolve_left fun heq => hnewline (heq ▸ hc)]
  have hread : readLiteral false [] (cs ++ marks '\'' false ++ rest) = some (cs, rest) :=
    readLiteral_text htext (Nat.le_of_eq hrun) hrest
  rw [marks, if_neg Bool.false_ne_true, List.append_assoc] at hread
  simpa using (readString_line (.inr rfl) hhead hrest).trans hread

theorem readString_basicBlock (hrest : rest.head? ≠ some '"') :
    readString (['"', '"', '"'] ++ (if cs.contains '\n' then ['\n'] else []) ++
      basicBody true 0 cs ++ ['"', '"', '"'] ++ rest) = some (cs, rest) := by
  have hstart := @dropLineEnd_start '"' _ cs rest (.inl rfl) (fun d => @mem_basicBody true d 0 cs)
  have hread : readBasic true .plain [] (basicBody true 0 cs ++ marks '"' true ++ rest) =
      some (cs, rest) := readBasic_basicBody (Nat.zero_le 2) hrest
  rw [← hstart] at hread
  simpa [readString, marks] using hread

theorem readString_literalBlock (honly : ∀ c ∈ cs, isEscapeOnly c = false)
    (hrun : longestRun '\'' 0 cs ≤ 2) (hrest : rest.head? ≠ some '\'') :
    readString (['\'', '\'', '\''] ++ (if cs.contains '\n' then ['\n'] else []) ++
      cs ++ ['\'', '\'', '\''] ++ rest) = some (cs, rest) := by
  have htext : ∀ c ∈ cs, (isTextual c || (true && isLineEnd c)) = true := by
    intro c hc
    obtain rfl | htextual := not_escapeOnly_iff.mp (honly c hc)
    · rfl
    · simp [htextual]
  have hends : ∀ d ∈ cs, d ≠ '\r' ∧ (d = '\n' → '\n' ∈ cs) := by
    refine fun d hd => ⟨?_, fun heq => heq ▸ hd⟩
    rintro rfl
    cases honly _ hd
  have hstart := @dropLineEnd_start '\'' cs cs rest (.inr rfl) hends
  have hread : readLiteral true [] (cs ++ marks '\'' true ++ rest) = some (cs, rest) :=
    readLiteral_text htext hrun hrest
  rw [← hstart] at hread
  simpa [readString, marks] using hread

theorem readString_writeChars (hrest : ∀ d ∈ rest.head?, d ≠ '"' ∧ d ≠ '\'') :
    readString (writeChars cs ++ rest) = some (cs, rest) := by
  have hdouble : rest.head? ≠ some '"' := fun h => (hrest _ h).1 rfl
  have hsingle : rest.head? ≠ some '\'' := fun h => (hrest _ h).2 rfl
  unfold writeChars
  cases hform : formFor cs with
  | basic => exact readString_basic hdouble
  | literal =>
    obtain ⟨honly, hrun, hnewline⟩ := formFor_literal hform
    exact readString_literal honly hrun hnewline hsingle
  | basicBlock => exact readString_basicBlock hdouble
  | literalBlock =>
    obtain ⟨honly, hrun⟩ := formFor_literalBlock hform
    exact readString_literalBlock honly hrun hsingle

theorem return_not_mem_writeChars : '\r' ∉ writeChars cs := by
  have hbasic : ∀ block, '\r' ∉ basicBody block 0 cs := fun block h => (mem_basicBody h).1 rfl
  have hself : (∀ c ∈ cs, isEscapeOnly c = false) → '\r' ∉ cs := fun h hc => by cases h _ hc
  unfold writeChars
  cases hform : formFor cs with
  | basic => simp [hbasic]
  | literal => simp [hself (formFor_literal hform).1]
  | basicBlock => by_cases h : '\n' ∈ cs <;> simp [h, hbasic]
  | literalBlock => by_cases h : '\n' ∈ cs <;> simp [h, hself (formFor_literalBlock hform).1]

theorem writeChars_eq_cons (cs : List Char) :
    ∃ quote more, writeChars cs = quote :: more ∧ (quote = '"' ∨ quote = '\'') := by
  unfold writeChars
  cases formFor cs with
  | basic => exact ⟨_, _, rfl, .inl rfl⟩
  | literal => exact ⟨_, _, rfl, .inr rfl⟩
  | basicBlock => exact ⟨_, _, rfl, .inl rfl⟩
  | literalBlock => exact ⟨_, _, rfl, .inr rfl⟩

end Writer

end SearchFilter.Toml
