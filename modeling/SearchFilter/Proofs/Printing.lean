import SearchFilter.Condition.Expr
import SearchFilter.Proofs.Derivation
import SearchFilter.Proofs.Hierarchies
import SearchFilter.Proofs.QuotedText

/-! Printed expressions. A quoted text shows which text it is and holds no line end; so the lines of a
printed expression can be told apart, a line shows its level and what it says, the levels show what is below
what, and from that the expression is read back, runs of one connective included. -/

namespace SearchFilter

namespace Text

open Toml (isHexDigit numeral numeral_toDigits)

theorem append_inj_of_stop {P : Char → Bool} {a b r s : List Char} (ha : ∀ c ∈ a, P c = true)
    (hb : ∀ c ∈ b, P c = true) (hr : ∀ c ∈ r.head?, P c = false) (hs : ∀ c ∈ s.head?, P c = false)
    (h : a ++ r = b ++ s) : a = b ∧ r = s := by
  have hab : a = b := by
    rw [← Query.takeWhile_append_eq_left ha hr, h, Query.takeWhile_append_eq_left hb hs]
  subst hab
  exact ⟨rfl, List.append_cancel_left h⟩

def shortForms : List (Char × Char) :=
  [('"', '"'), ('\\', '\\'), ('\x00', '0'), ('\t', 't'), ('\n', 'n'), ('\r', 'r')]

theorem escape_cases (c : Char) :
    (∃ letter, (c, letter) ∈ shortForms ∧ escape '"' c = ['\\', letter]) ∨
    escape '"' c = codePoint c ∨
    (c ≠ '\\' ∧ c ≠ '\n' ∧ escape '"' c = [c]) := by
  unfold escape
  split_ifs with hquote hzero htab hnewline hreturn hcode
  · rcases hquote with rfl | rfl
    · exact .inl ⟨'"', by decide, rfl⟩
    · exact .inl ⟨'\\', by decide, rfl⟩
  · exact .inl ⟨'0', by rw [hzero]; decide, rfl⟩
  · exact .inl ⟨'t', by rw [htab]; decide, rfl⟩
  · exact .inl ⟨'n', by rw [hnewline]; decide, rfl⟩
  · exact .inl ⟨'r', by rw [hreturn]; decide, rfl⟩
  · exact .inr (.inl rfl)
  · exact .inr (.inr ⟨fun h => hquote (.inr h), hnewline, rfl⟩)

def readForm : List Char → Option (Char × List Char)
  | [] => none
  | c :: cs =>
    if c ≠ '\\' then some (c, cs)
    else if cs.headD ' ' = 'u' then
      let digits := (cs.drop 2).takeWhile isHexDigit
      some (Char.ofNat (numeral 16 digits), cs.drop (digits.length + 3))
    else (shortForms.find? (·.2 == cs.headD ' ')).map fun form => (form.1, cs.drop 1)

theorem find?_shortForms : ∀ form ∈ shortForms, form.2 ≠ 'u' ∧ form.2 ≠ '\n' ∧
    shortForms.find? (·.2 == form.2) = some form := by
  decide

theorem readForm_escape (c : Char) (rest : List Char) :
    readForm (escape '"' c ++ rest) = some (c, rest) := by
  rcases escape_cases c with ⟨letter, hletter, hc⟩ | hc | ⟨hne, -, hc⟩
  · obtain ⟨hcode, -, hfind⟩ := find?_shortForms _ hletter
    simp [hc, readForm, hcode, hfind]
  · obtain ⟨hhex, hvalue⟩ := @numeral_toDigits 16 c.toNat (by decide) (by decide)
    have hdigits : (Nat.toDigits 16 c.toNat ++ '\x7d' :: rest).takeWhile isHexDigit =
        Nat.toDigits 16 c.toNat :=
      Query.takeWhile_append_eq_left hhex (by rintro x ⟨⟩; decide)
    simp [hc, readForm, codePoint, hdigits, hvalue]
  · simp [hc, readForm, hne]

theorem newline_not_mem_escape (c : Char) : '\n' ∉ escape '"' c := by
  rcases escape_cases c with ⟨letter, hletter, hc⟩ | hc | ⟨-, hne, hc⟩
  · rw [hc]
    simp [(find?_shortForms _ hletter).2.1.symm]
  · obtain ⟨hhex, -⟩ := @numeral_toDigits 16 c.toNat (by decide) (by decide)
    have hdigits : '\n' ∉ Nat.toDigits 16 c.toNat := fun h => absurd (hhex _ h) (by decide)
    rw [hc]
    simp [codePoint, hdigits]
  · rw [hc]
    simpa using hne.symm

theorem newline_not_mem_quoted (text : String) : '\n' ∉ (quoted text).toList := by
  simp [quoted, newline_not_mem_escape]

theorem flatMap_injective {α : Type} {f : α → List Char} (hne : ∀ a, f a ≠ [])
    (hf : ∀ a b r s, f a ++ r = f b ++ s → a = b ∧ r = s) : Function.Injective (List.flatMap f) := by
  intro as
  induction as with
  | nil =>
    intro bs h
    cases bs with
    | nil => rfl
    | cons b bs => simp [hne] at h
  | cons a as ih =>
    intro bs h
    cases bs with
    | nil => simp [hne] at h
    | cons b bs =>
      rw [List.flatMap_cons, List.flatMap_cons] at h
      obtain ⟨rfl, hrest⟩ := hf a b _ _ h
      rw [ih hrest]

theorem quoted_injective : Function.Injective quoted := by
  intro a b h
  have hbody : a.toList.flatMap (escape '"') = b.toList.flatMap (escape '"') := by
    simpa [quoted, ← String.toList_inj] using h
  have hne : ∀ c, escape '"' c ≠ [] := by
    intro c hc
    have hread := readForm_escape c []
    rw [hc] at hread
    cases hread
  have hinj : ∀ c d r s, escape '"' c ++ r = escape '"' d ++ s → c = d ∧ r = s := by
    intro c d r s h
    have hread := readForm_escape c r
    rw [h, readForm_escape] at hread
    simpa [eq_comm] using hread
  exact String.toList_inj.mp (flatMap_injective hne hinj hbody)

end Text

namespace Condition

inductive Label where
  | word (text : String)
  | connective (op : Connective)
  | group

namespace Label

def text : Label → String
  | word text => "Word(" ++ Text.quoted text ++ ")"
  | connective op => op.title
  | group => "Group"

def line (level : Nat) (label : Label) : List Char :=
  List.replicate (2 * level) ' ' ++ (label.text.toList ++ ['\n'])

def initial : Label → Char
  | word _ => 'W'
  | connective .and => 'A'
  | connective .or => 'O'
  | group => 'G'

theorem head?_text (label : Label) : label.text.toList.head? = some label.initial := by
  cases label with
  | word s => simp [text, initial]
  | connective op => cases op <;> rfl
  | group => rfl

theorem text_injective : Function.Injective text := by
  intro a b h
  have hinitial : a.initial = b.initial := by
    have hhead := a.head?_text
    rw [h, b.head?_text] at hhead
    exact (Option.some.inj hhead).symm
  cases a with
  | word s =>
    cases b with
    | word s' =>
      have hquoted : Text.quoted s = Text.quoted s' := by simpa [text] using h
      rw [Text.quoted_injective hquoted]
    | connective op => cases op <;> cases hinitial
    | group => cases hinitial
  | connective op =>
    cases b with
    | word s => cases op <;> cases hinitial
    | connective op' => cases op <;> cases op' <;> simp_all [initial]
    | group => cases op <;> cases hinitial
  | group =>
    cases b with
    | word s => cases hinitial
    | connective op => cases op <;> cases hinitial
    | group => rfl

theorem newline_not_mem_text (label : Label) : '\n' ∉ label.text.toList := by
  cases label with
  | word s => simp [text, Text.newline_not_mem_quoted]
  | connective op => cases op <;> decide
  | group => decide

theorem head?_text_ne_space (label : Label) :
    ∀ c ∈ label.text.toList.head?, (c == ' ') = false := by
  intro c hc
  rw [head?_text, Option.mem_some] at hc
  subst hc
  rcases label with s | (_ | _) | _ <;> rfl

theorem line_ne_newline (level : Nat) (label : Label) :
    ∀ c ∈ List.replicate (2 * level) ' ' ++ label.text.toList, (c != '\n') = true := by
  intro c hc
  rcases List.mem_append.mp hc with hc | hc
  · rw [(List.mem_replicate.mp hc).2]
    decide
  · exact bne_iff_ne.mpr fun hnewline => label.newline_not_mem_text (hnewline ▸ hc)

theorem line_append_inj {p q : Nat × Label} {r s : List Char}
    (h : line p.1 p.2 ++ r = line q.1 q.2 ++ s) : p = q ∧ r = s := by
  have hend : ∀ rest : List Char, ∀ c ∈ ('\n' :: rest).head?, (c != '\n') = false := by
    rintro rest c ⟨⟩
    rfl
  have hmargin : ∀ n, ∀ c ∈ List.replicate n ' ', (c == ' ') = true := by
    intro n c hc
    rw [(List.mem_replicate.mp hc).2]
    rfl
  have hwhole : (List.replicate (2 * p.1) ' ' ++ p.2.text.toList) ++ '\n' :: r =
      (List.replicate (2 * q.1) ' ' ++ q.2.text.toList) ++ '\n' :: s := by
    simpa [line] using h
  obtain ⟨hsame, hrest⟩ := Text.append_inj_of_stop (p.2.line_ne_newline p.1)
    (q.2.line_ne_newline q.1) (hend r) (hend s) hwhole
  obtain ⟨hlevels, htext⟩ := Text.append_inj_of_stop (hmargin _) (hmargin _)
    p.2.head?_text_ne_space q.2.head?_text_ne_space hsame
  have hlevel : p.1 = q.1 := by
    have hlength := congrArg List.length hlevels
    simp only [List.length_replicate] at hlength
    omega
  exact ⟨Prod.ext hlevel (text_injective (String.toList_inj.mp htext)), (List.cons.inj hrest).2⟩

end Label

namespace Expr

/-- The lines of an expression and what is below each of them. The operands of a left-nested run of one
connective are below that connective; `run` is the connective of the run that the expression continues. -/
def rows (run : Option Connective) : Expr → List (Hierarchy Label)
  | word text => [.node (.word text) []]
  | binary op left right =>
    if run = some op then left.rows run ++ right.rows none
    else [.node (.connective op) (left.rows (some op) ++ right.rows none)]
  | group inner => [.node .group (inner.rows none)]

def row : Expr → Hierarchy Label
  | word text => .node (.word text) []
  | binary op left right => .node (.connective op) (left.rows (some op) ++ right.rows none)
  | group inner => .node .group (inner.rows none)

theorem rows_none (e : Expr) : e.rows none = [e.row] := by
  cases e with
  | word text => rfl
  | binary op left right => exact if_neg (by simp)
  | group inner => rfl

mutual

def ofRow : Hierarchy Label → Expr
  | .node (.word text) _ => word text
  | .node (.connective op) (first :: others) => ofOperands op (ofRow first) others
  | .node .group (inner :: _) => group (ofRow inner)
  | .node _ [] => default

def ofOperands (op : Connective) (left : Expr) : List (Hierarchy Label) → Expr
  | [] => left
  | operand :: others => ofOperands op (binary op left (ofRow operand)) others

end

theorem ofOperands_concat (op : Connective) (left : Expr) (others : List (Hierarchy Label))
    (last : Hierarchy Label) :
    ofOperands op left (others ++ [last]) = binary op (ofOperands op left others) (ofRow last) := by
  induction others generalizing left with
  | nil => simp only [List.nil_append, ofOperands]
  | cons operand others ih => rw [List.cons_append, ofOperands, ih, ofOperands]

theorem ofRow_row (e : Expr) : ofRow e.row = e ∧
    ∀ op, ∃ first others, e.rows (some op) = first :: others ∧
      ofOperands op (ofRow first) others = e := by
  -- Both parts are needed at once: a left operand may continue a run, a right one starts its own.
  induction e with
  | word text =>
    have hself : ofRow (word text).row = word text := by rw [row, ofRow]
    exact ⟨hself, fun op => ⟨_, [], rfl, by rw [ofOperands]; exact hself⟩⟩
  | binary op left right ihl ihr =>
    obtain ⟨first, others, hrows, hleft⟩ := ihl.2 op
    have hrun : left.rows (some op) ++ right.rows none = first :: (others ++ [right.row]) := by
      rw [hrows, rows_none, List.cons_append]
    have hboth : ofOperands op (ofRow first) (others ++ [right.row]) = binary op left right := by
      rw [ofOperands_concat, hleft, ihr.1]
    have hself : ofRow (binary op left right).row = binary op left right := by
      rw [row, hrun, ofRow, hboth]
    refine ⟨hself, fun op' => ?_⟩
    by_cases hop : some op' = some op
    · obtain rfl := Option.some.inj hop
      exact ⟨first, _, (if_pos rfl).trans hrun, hboth⟩
    · exact ⟨_, [], if_neg hop, by rw [ofOperands]; exact hself⟩
  | group inner ih =>
    have hself : ofRow (group inner).row = group inner := by rw [row, rows_none, ofRow, ih.1]
    exact ⟨hself, fun op => ⟨_, [], rfl, by rw [ofOperands]; exact hself⟩⟩

theorem row_injective : Function.Injective row := by
  intro a b h
  rw [← a.ofRow_row.1, h, b.ofRow_row.1]

theorem linesOnto_eq (e : Expr) (level : Nat) (run : Option Connective) (rest : List String) :
    e.linesOnto level run rest =
      (Hierarchy.listings level (e.rows run)).map (fun p => linesOnto.line p.1 p.2.text) ++ rest := by
  induction e generalizing level run rest with
  | word text => simp [linesOnto, rows, Hierarchy.listings, Hierarchy.listing, Label.text]
  | binary op left right ihl ihr =>
    rw [linesOnto, rows, ihl, ihr, ihl, ihr]
    split
    · rw [Hierarchy.listings_append, List.map_append, List.append_assoc]
    · rw [Hierarchy.listings_cons, Hierarchy.listings_append]
      simp [Hierarchy.listings, Label.text]
  | group inner ih => simp [linesOnto, rows, Hierarchy.listings, Hierarchy.listing, Label.text, ih]

theorem toList_pushn (c : Char) (n : Nat) : ("".pushn c n).toList = List.replicate n c := by
  induction n with
  | zero => rfl
  | succ n ih =>
    have hpush : "".pushn c (n + 1) = ("".pushn c n).push c := rfl
    rw [hpush, String.toList_push, ih, List.replicate_succ']

theorem toList_display (e : Expr) : e.display.toList =
    (Hierarchy.listings 0 (e.rows none)).flatMap fun p => p.2.line p.1 := by
  rw [display, linesOnto_eq, String.toList_join]
  simp [List.flatMap_map, linesOnto.line, Label.line, toList_pushn]

theorem display_injective : Function.Injective display := by
  intro a b h
  have hlines : (Hierarchy.listings 0 (a.rows none)).flatMap (fun p => p.2.line p.1) =
      (Hierarchy.listings 0 (b.rows none)).flatMap fun p => p.2.line p.1 := by
    rw [← toList_display, h, toList_display]
  have hne : ∀ p : Nat × Label, p.2.line p.1 ≠ [] := by
    intro p
    simp [Label.line]
  have hlistings := Text.flatMap_injective hne (fun _ _ _ _ => Label.line_append_inj) hlines
  have hclosed : Hierarchy.Closes 0 ([] : List (Nat × Label)) := by simp [Hierarchy.Closes]
  have hrows : a.rows none = b.rows none :=
    (Hierarchy.listings_append_inj hclosed hclosed (by simpa using hlistings)).1
  rw [rows_none, rows_none] at hrows
  exact row_injective (List.cons.inj hrows).1

theorem display_injective_nested : ∃! e : Expr, e.display =
    "Or\n  Word(\"a\")\n  Or\n    Word(\"b\")\n    Word(\"c\")\n" := by
  have hnested : (binary .or (word "a") (binary .or (word "b") (word "c"))).display =
      "Or\n  Word(\"a\")\n  Or\n    Word(\"b\")\n    Word(\"c\")\n" := by
    decide +kernel
  exact ⟨_, hnested, fun e h => display_injective (h.trans hnested.symm)⟩

end Expr
end Condition
end SearchFilter
