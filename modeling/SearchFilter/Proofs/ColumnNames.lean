import Mathlib.Computability.RegularExpressions
import SearchFilter.Proofs.Merging
import SearchFilter.Proofs.Paths
import SearchFilter.Proofs.SqlReading

/-! Column names as a regular language. The check goes through a name once, and its two states are the
languages that solve the equations of the pattern. What it accepts can bring none of the characters into a
condition by which SQL is taken apart. -/

namespace SearchFilter

namespace Condition

open RegularExpression (matches'_mul matches'_star matches'_add)

def nameStarts : String :=
  "ABCDEFGHIJKLMNOPQRSTUVWXYZabcdefghijklmnopqrstuvwxyz_"

def nameParts : String :=
  "ABCDEFGHIJKLMNOPQRSTUVWXYZabcdefghijklmnopqrstuvwxyz0123456789_"

def anyOf (text : String) : RegularExpression Char :=
  text.toList.foldr (fun c others => RegularExpression.char c + others) 0

def namePattern : RegularExpression Char :=
  anyOf nameStarts * (anyOf nameParts).star

/-- The pattern `[A-Za-z_][A-Za-z0-9_]*(\.[A-Za-z_][A-Za-z0-9_]*)*`. -/
def columnPattern : RegularExpression Char :=
  namePattern * (RegularExpression.char '.' * namePattern).star

section Characters

variable {c : Char}

theorem toNat_lt_of_val_le {n : UInt32} (h : c.val ≤ n) (hn : n.toNat < 128) : c.toNat < 128 :=
  Nat.lt_of_le_of_lt (UInt32.le_iff_toNat_le.mp h) hn

theorem toNat_lt_of_isNamePart (h : isNamePart c = true) : c.toNat < 128 := by
  have hcases : (((c.isUpper || c.isLower) || c.isDigit) || c == '_') = true := h
  simp only [Bool.or_eq_true, beq_iff_eq] at hcases
  obtain ((hupper | hlower) | hdigit) | rfl := hcases
  · exact toNat_lt_of_val_le (of_decide_eq_true hupper).2 (by decide)
  · exact toNat_lt_of_val_le (of_decide_eq_true (Bool.and_eq_true_iff.mp hlower).2) (by decide)
  · exact toNat_lt_of_val_le (of_decide_eq_true (Bool.and_eq_true_iff.mp hdigit).2) (by decide)
  · decide

theorem eq_of_ascii {p q : Char → Bool} (hp : ∀ c, p c = true → c.toNat < 128)
    (hq : ∀ c, q c = true → c.toNat < 128)
    (h : (List.range 128).all (fun n => p (Char.ofNat n) == q (Char.ofNat n)) = true) (c : Char) :
    p c = q c := by
  by_cases hc : c.toNat < 128
  · have hcode := List.all_eq_true.mp h c.toNat (List.mem_range.mpr hc)
    rw [Char.ofNat_toNat] at hcode
    exact eq_of_beq hcode
  · rw [Bool.eq_false_iff.mpr fun h => hc (hp c h), Bool.eq_false_iff.mpr fun h => hc (hq c h)]

theorem isNamePart_eq (c : Char) : isNamePart c = nameParts.toList.contains c := by
  have hbound : nameParts.toList.all (fun c => c.toNat < 128) = true := by decide +kernel
  refine eq_of_ascii (fun c => toNat_lt_of_isNamePart) (fun c hc => ?_) (by decide +kernel) c
  exact of_decide_eq_true (List.all_eq_true.mp hbound c (List.contains_iff_mem.mp hc))

theorem isNameStart_eq (c : Char) : isNameStart c = nameStarts.toList.contains c := by
  have hbound : nameStarts.toList.all (fun c => c.toNat < 128) = true := by decide +kernel
  refine eq_of_ascii (fun c hc => toNat_lt_of_isNamePart (isNamePart_of_isNameStart hc))
    (fun c hc => ?_) (by decide +kernel) c
  exact of_decide_eq_true (List.all_eq_true.mp hbound c (List.contains_iff_mem.mp hc))

end Characters

section Languages

open Computability

variable {c : Char} {cs : List Char} {text : String} {l : Language Char}

theorem mem_anyOf : cs ∈ (anyOf text).matches' ↔ ∃ c ∈ text.toList, cs = [c] := by
  unfold anyOf
  induction text.toList with
  | nil => simp
  | cons d ds ih =>
    have hchar : cs ∈ (RegularExpression.char d).matches' ↔ cs = [d] := Iff.rfl
    rw [List.foldr_cons, matches'_add, Language.mem_add, ih, hchar]
    simp

theorem nil_notMem_anyOf_mul : [] ∉ (anyOf text).matches' * l := by
  rintro h
  obtain ⟨first, hfirst, rest, -, happend⟩ := Language.mem_mul.mp h
  obtain ⟨c, -, rfl⟩ := mem_anyOf.mp hfirst
  simp at happend

theorem cons_mem_anyOf_mul : c :: cs ∈ (anyOf text).matches' * l ↔ c ∈ text.toList ∧ cs ∈ l := by
  constructor
  · intro h
    obtain ⟨first, hfirst, rest, hrest, happend⟩ := Language.mem_mul.mp h
    obtain ⟨d, hd, rfl⟩ := mem_anyOf.mp hfirst
    obtain ⟨rfl, rfl⟩ := List.cons.inj happend
    exact ⟨hd, hrest⟩
  · rintro ⟨hc, hcs⟩
    exact Language.append_mem_mul (mem_anyOf.mpr ⟨c, hc, rfl⟩) hcs

theorem matches'_dot : (RegularExpression.char '.').matches' = (anyOf ".").matches' := by
  ext cs
  have hchar : cs ∈ (RegularExpression.char '.').matches' ↔ cs = ['.'] := Iff.rfl
  rw [mem_anyOf, hchar]
  simp

def columnRest : Language Char :=
  (anyOf nameParts).matches'∗ * (RegularExpression.char '.' * namePattern).matches'∗

theorem columnPattern_eq : columnPattern.matches' = (anyOf nameStarts).matches' * columnRest := by
  rw [columnPattern, matches'_mul, matches'_star, columnRest, ← mul_assoc]
  rfl

theorem columnRest_eq : columnRest = (anyOf nameParts).matches' * columnRest +
    ((anyOf ".").matches' * columnPattern.matches' + 1) := by
  generalize hparts : (anyOf nameParts).matches' = parts
  generalize hmore : (RegularExpression.char '.' * namePattern).matches' = more
  have hdotted : (anyOf ".").matches' * columnPattern.matches' = more * more∗ := by
    rw [columnPattern, matches'_mul, matches'_star, hmore, ← mul_assoc, ← matches'_dot, ← matches'_mul,
      hmore]
  have hrest : columnRest = parts∗ * more∗ := by rw [columnRest, hparts, hmore]
  calc columnRest
      = (1 + parts * parts∗) * more∗ := by rw [hrest, Language.one_add_self_mul_kstar_eq_kstar]
    _ = parts * (parts∗ * more∗) + more∗ := by rw [add_mul, one_mul, mul_assoc, add_comm]
    _ = parts * columnRest + (1 + more * more∗) := by
      rw [hrest, Language.one_add_self_mul_kstar_eq_kstar]
    _ = parts * columnRest + ((anyOf ".").matches' * columnPattern.matches' + 1) := by
      rw [hdotted, add_comm 1]

theorem check_iff (cs : List Char) : (startsName cs = true ↔ cs ∈ columnPattern.matches') ∧
    (continuesName cs = true ↔ cs ∈ columnRest) := by
  induction cs with
  | nil =>
    constructor
    · rw [columnPattern_eq]
      simp [startsName, nil_notMem_anyOf_mul]
    · rw [columnRest_eq, Language.mem_add, Language.mem_add]
      simp [continuesName]
  | cons c cs ih =>
    constructor
    · rw [columnPattern_eq, cons_mem_anyOf_mul, ← ih.2, ← List.contains_iff_mem, ← isNameStart_eq]
      simp [startsName]
    · rw [columnRest_eq, Language.mem_add, Language.mem_add, cons_mem_anyOf_mul, cons_mem_anyOf_mul, ← ih.1,
        ← ih.2, ← List.contains_iff_mem, ← isNamePart_eq, continuesName]
      by_cases hdot : c = '.'
      · have hpart : isNamePart '.' = false := by decide
        simp [hdot, hpart]
      · simp [hdot]

theorem mem_kstar_anyOf : cs ∈ (anyOf text).matches'∗ ↔ ∀ c ∈ cs, c ∈ text.toList := by
  induction cs with
  | nil => simp [Language.nil_mem_kstar]
  | cons c cs ih =>
    rw [← Language.one_add_self_mul_kstar_eq_kstar, Language.mem_add, cons_mem_anyOf_mul, ih]
    simp

theorem cons_mem_namePattern :
    c :: cs ∈ namePattern.matches' ↔ isNameStart c = true ∧ ∀ d ∈ cs, isNamePart d = true := by
  rw [namePattern, matches'_mul, matches'_star, cons_mem_anyOf_mul, mem_kstar_anyOf]
  simp [isNameStart_eq, isNamePart_eq]

theorem nil_notMem_namePattern : [] ∉ namePattern.matches' :=
  nil_notMem_anyOf_mul

theorem check_iff_parts (cs : List Char) : (startsName cs = true ↔
      ∀ part ∈ Text.splitAt '.' cs, part ∈ namePattern.matches') ∧
    (continuesName cs = true ↔ ∃ first parts, Text.splitAt '.' cs = first :: parts ∧
      (∀ c ∈ first, isNamePart c = true) ∧ ∀ part ∈ parts, part ∈ namePattern.matches') := by
  induction cs with
  | nil => simp [startsName, continuesName, Text.splitAt, nil_notMem_namePattern]
  | cons c cs ih =>
    obtain ⟨first, parts, hsplit⟩ := List.exists_cons_of_ne_nil (@Text.splitAt_ne_nil '.' cs)
    have hstep : Text.splitAt '.' (c :: cs) =
        if c = '.' then [] :: first :: parts else (c :: first) :: parts := by
      rw [Text.splitAt, hsplit]
    have hfirst : continuesName cs = true ↔
        (∀ c ∈ first, isNamePart c = true) ∧ ∀ part ∈ parts, part ∈ namePattern.matches' := by
      simpa [hsplit] using ih.2
    have hparts : startsName cs = true ↔ ∀ part ∈ first :: parts, part ∈ namePattern.matches' := by
      simpa [hsplit] using ih.1
    rw [hstep, startsName, continuesName]
    by_cases hdot : c = '.'
    · have hstart : isNameStart '.' = false := by decide
      simp [hdot, hstart, hparts, nil_notMem_namePattern]
    · simp [hdot, hfirst, cons_mem_namePattern, and_assoc]

end Languages

section Sql

/-- A character by which SQL is taken apart, or one beyond ASCII. -/
def isBarred (c : Char) : Bool :=
  "'\"`();?".toList.contains c || Text.isWhiteSpace c || 128 ≤ c.toNat

theorem not_isBarred_of_isNamePart {c : Char} (h : isNamePart c = true) : isBarred c = false := by
  have hascii : (List.range 128).all (fun n => !isNamePart (Char.ofNat n) || !isBarred (Char.ofNat n)) =
      true := by
    decide +kernel
  have hcode := List.all_eq_true.mp hascii c.toNat (List.mem_range.mpr (toNat_lt_of_isNamePart h))
  rw [Char.ofNat_toNat] at hcode
  simpa [h] using hcode

theorem not_isBarred_of_isColumn {column : String} (h : isColumn column = true) :
    ∀ c ∈ column.toList, isBarred c = false := by
  intro c hc
  obtain hpart | rfl := isNamePart_or_dot h hc
  · exact not_isBarred_of_isNamePart hpart
  · decide

theorem filter_sql {column : String} {p : Char → Bool} (h : ∀ c ∈ column.toList, p c = false) (e : Expr) :
    (e.sql column).toList.filter p = (e.sql "").toList.filter p := by
  have hcolumn : column.toList.filter p = [] := by simpa [List.filter_eq_nil_iff] using h
  induction e with
  | word text => simp [Expr.sql, hcolumn]
  | binary op left right ihl ihr =>
    simp only [Expr.sql, String.toList_append, List.filter_append, ihl, ihr]
  | group inner ih => simp only [Expr.sql, String.toList_append, List.filter_append, ih]

end Sql

end Condition

open Condition

/-- A column is what matches the pattern as a whole, or what has a name between any two dots. In a condition
on a column that a compiler or a settings file accepts, all characters by which SQL is taken apart are
those of the fixed texts. -/
theorem isColumn_exact (column : String) :
    (isColumn column = true ↔ column.toList ∈ columnPattern.matches') ∧
    (isColumn column = true ↔
      ∀ part ∈ Text.splitAt '.' column.toList, part ∈ namePattern.matches') ∧
    (∀ maxDepth c, Compiler.ofOptions ⟨column, maxDepth⟩ = .ok c →
      ∀ input fragment, c.compile input = .ok fragment → ∃ e, c.expression input = .ok e ∧
        fragment.sql.toList.filter isBarred = (e.render "").sql.toList.filter isBarred) ∧
    ∀ sources config, Settings.Config.merge sources = .ok config →
      config.options.column = column ∨ (∃ source ∈ sources, source.column? = some column) →
      ∀ e : Expr, (e.render column).sql.toList.filter isBarred =
        (e.render "").sql.toList.filter isBarred := by
  have hrender : isColumn column = true → ∀ e : Expr, (e.render column).sql.toList.filter isBarred =
      (e.render "").sql.toList.filter isBarred := by
    intro h e
    rw [Expr.render_eq, Expr.render_eq]
    exact filter_sql (not_isBarred_of_isColumn h) e
  refine ⟨(check_iff column.toList).1, (check_iff_parts column.toList).1, ?_, ?_⟩
  · intro maxDepth c _ input fragment hcompile
    obtain ⟨t, e, -, -, -, he, hfragment⟩ | ⟨error, -, herror⟩ := c.compile_cases input
    · obtain rfl : ⟨e.sql c.column, e.words⟩ = fragment := by simpa [hfragment] using hcompile
      refine ⟨e, he, ?_⟩
      rw [Expr.render_eq]
      exact filter_sql (not_isBarred_of_isColumn c.isColumn_column) e
    · simp [herror] at hcompile
  · rintro sources config hmerge (rfl | ⟨source, hsource, hcolumn⟩)
    · exact hrender (Settings.sound_of_merge hmerge).isColumn
    · exact hrender ((Settings.proper_of_merge hmerge source hsource).column column hcolumn)

def dottedCompiler : Compiler :=
  ⟨⟨"docs.title_2", 4⟩, by decide, by decide +kernel⟩

theorem isColumn_exact_dotted :
    "docs.title_2".toList ∈ columnPattern.matches' ∧ "docs..title".toList ∉ columnPattern.matches' ∧
    (∃ c fragment e, Compiler.ofOptions ⟨"docs.title_2", 4⟩ = .ok c ∧
      c.compile "a (b)" = .ok fragment ∧ c.expression "a (b)" = .ok e ∧
      fragment.sql.toList.filter isBarred = (e.render "").sql.toList.filter isBarred) ∧
    ∃ config, Settings.Config.merge [.saying "/" (some "docs.title_2") none] = .ok config ∧
      ∀ e : Expr, (e.render "docs.title_2").sql.toList.filter isBarred =
        (e.render "").sql.toList.filter isBarred := by
  have hcolumn : isColumn "docs.title_2" = true := by decide +kernel
  have hdots : isColumn "docs..title" = false := by decide +kernel
  obtain ⟨hpattern, -, hcompiler, hmerge⟩ := isColumn_exact "docs.title_2"
  refine ⟨hpattern.mp hcolumn, fun h => ?_, ?_, ?_⟩
  · exact absurd ((isColumn_exact "docs..title").1.mpr h) (by simp [hdots])
  · have hoptions : Compiler.ofOptions ⟨"docs.title_2", 4⟩ = .ok dottedCompiler := by
      rw [Compiler.ofOptions, dif_pos (by decide), dif_pos hcolumn]
      rfl
    have hok : (dottedCompiler.compile "a (b)").isOk = true := by decide +kernel
    obtain ⟨fragment, hfragment⟩ := exists_eq_ok hok
    obtain ⟨e, he, hsql⟩ := hcompiler 4 dottedCompiler hoptions _ _ hfragment
    exact ⟨dottedCompiler, fragment, e, hoptions, hfragment, he, hsql⟩
  · have hok : (Settings.Config.merge [.saying "/" (some "docs.title_2") none]).isOk = true := by
      decide +kernel
    obtain ⟨config, hconfig⟩ := exists_eq_ok hok
    exact ⟨config, hconfig, hmerge _ config hconfig (.inr ⟨_, List.mem_singleton_self _, rfl⟩)⟩

end SearchFilter
