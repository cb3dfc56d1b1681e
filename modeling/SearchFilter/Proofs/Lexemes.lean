import Mathlib.Data.List.Chain
import SearchFilter.Proofs.Lossless

/-! Queries as rows of lexemes: words, separators, and parentheses with the blanks on their inner side.
A row determines the leaves of the tree and what they leave out, so a leaf or a parenthesis of a group is
found in the row by its offset. -/

namespace SearchFilter.Query

open Text

inductive Lexeme where
  | bare (text : List Char)
  | literal (quote : Char) (body : List Char)
  | mark (op : Connective) (text : List Char)
  | opening (gap : List Char)
  | closing (gap : List Char)

namespace Lexeme

def text : Lexeme → List Char
  | bare text => text
  | literal quote body => quote :: body ++ [quote]
  | mark _ text => text
  | opening gap => '(' :: gap
  | closing gap => gap ++ [')']

def begins : Lexeme → Bool
  | mark .. | closing _ => false
  | _ => true

def awaits : Lexeme → Bool
  | mark .. | opening _ => true
  | _ => false

inductive Proper : Lexeme → Prop
  | bare {text : List Char} : BareWord text → Proper (bare text)
  | literal {quote : Char} {body : List Char} :
    isQuote quote = true → LiteralBody quote body → Proper (literal quote body)
  | mark (op : Connective) (text : List Char) : Proper (mark op text)
  | opening {gap : List Char} : (∀ c ∈ gap, isBlank c = true) → Proper (opening gap)
  | closing {gap : List Char} : (∀ c ∈ gap, isBlank c = true) → Proper (closing gap)

def leaves (start : Nat) : Lexeme → List (String × Span)
  | bare text => [(String.ofList text, ⟨start, start + byteLength text⟩)]
  | literal _ body => [(String.ofList body, ⟨start + 1, start + 1 + byteLength body⟩)]
  | mark _ text => [(String.ofList text, ⟨start, start + byteLength text⟩)]
  | _ => []

def separators (start : Nat) : Lexeme → List (Connective × Span)
  | mark op text => [(op, ⟨start, start + byteLength text⟩)]
  | _ => []

def loose (start : Nat) : Lexeme → List (Nat × Char)
  | literal quote body => [(start, quote), (start + 1 + byteLength body, quote)]
  | opening gap => placed start ('(' :: gap)
  | closing gap => placed start (gap ++ [')'])
  | _ => []

end Lexeme

def spellRow (xs : List Lexeme) : List Char :=
  xs.flatMap Lexeme.text

def along {β : Type} (f : Nat → Lexeme → List β) (start : Nat) : List Lexeme → List β
  | [] => []
  | x :: xs => f start x ++ along f (start + byteLength x.text) xs

section Rows

variable {β : Type} {f : Nat → Lexeme → List β} {p q r : Position} {xs ys : List Lexeme}

theorem spellRow_append (xs ys : List Lexeme) : spellRow (xs ++ ys) = spellRow xs ++ spellRow ys :=
  List.flatMap_append

theorem spellRow_cons (x : Lexeme) (xs : List Lexeme) : spellRow (x :: xs) = x.text ++ spellRow xs :=
  List.flatMap_cons

theorem spellRow_single (x : Lexeme) : spellRow [x] = x.text :=
  List.flatMap_singleton _ _

theorem along_append (start : Nat) (xs ys : List Lexeme) :
    along f start (xs ++ ys) =
      along f start xs ++ along f (start + byteLength (spellRow xs)) ys := by
  induction xs generalizing start with
  | nil => rfl
  | cons x xs ih =>
    have hstart : start + byteLength x.text + byteLength (spellRow xs) =
        start + byteLength (spellRow (x :: xs)) := by
      rw [spellRow_cons, byteLength_append, Nat.add_assoc]
    rw [List.cons_append, along, along, ih, hstart, List.append_assoc]

theorem along_single (start : Nat) (x : Lexeme) : along f start [x] = f start x :=
  List.append_nil _

theorem exists_of_mem_along {start : Nat} {y : β} (h : y ∈ along f start xs) :
    ∃ before x after, xs = before ++ x :: after ∧
      y ∈ f (start + byteLength (spellRow before)) x := by
  induction xs generalizing start with
  | nil => cases h
  | cons x xs ih =>
    rcases List.mem_append.mp h with h | h
    · exact ⟨[], x, xs, rfl, h⟩
    · obtain ⟨before, x', after, rfl, hy⟩ := ih h
      refine ⟨x :: before, x', after, rfl, ?_⟩
      rwa [spellRow_cons, byteLength_append, ← Nat.add_assoc]

theorem Lexeme.pieces {x : Lexeme} (hx : x.Proper) (h : Between p x.text q) :
    Pieces p (x.leaves p.offset) (x.loose p.offset) q := by
  have hleaf : ∀ {p q : Position} {text : List Char}, Between p text q →
      Pieces p [(String.ofList text, ⟨p.offset, p.offset + byteLength text⟩)] [] q := by
    intro p q text hspan
    have hleaf : Between p (String.ofList text).toList q := by simpa using hspan
    rw [← hspan.offset_eq]
    exact .leaf hleaf (.nil q)
  cases hx with
  | bare => exact hleaf h
  | mark op text => exact hleaf h
  | opening => exact Pieces.of_between h
  | closing => exact Pieces.of_between h
  | @literal quote body hquote =>
    obtain ⟨r, hopen, hrest⟩ := Between.split (a := [quote]) h
    obtain ⟨s, hbody, hclose⟩ := hrest.split
    have hr : r.offset = p.offset + 1 := by rw [hopen.offset_eq, byteLength_quote hquote]
    have hs : s.offset = p.offset + 1 + byteLength body := by rw [hbody.offset_eq, hr]
    have hpieces := Pieces.mark hopen ((hleaf hbody).append (.mark hclose (.nil q)))
    rw [hr, hs] at hpieces
    exact hpieces

theorem pieces_along (hxs : ∀ x ∈ xs, x.Proper) (h : Between p (spellRow xs) q) :
    Pieces p (along Lexeme.leaves p.offset xs) (along Lexeme.loose p.offset xs) q := by
  induction xs generalizing p with
  | nil =>
    obtain rfl : q = p := by simpa [spellRow, Position.advance, byteLength] using h.eq_advance
    exact .nil q
  | cons x xs ih =>
    rw [spellRow_cons] at h
    obtain ⟨r, hx, hrest⟩ := h.split
    have hpieces := ih (fun y hy => hxs y (List.mem_cons_of_mem x hy)) hrest
    rw [hx.offset_eq] at hpieces
    exact (Lexeme.pieces (hxs x List.mem_cons_self) hx).append hpieces

theorem mem_of_mem_placed {start : Nat} {text : List Char} {o : Nat} {c : Char}
    (h : (o, c) ∈ placed start text) : c ∈ text := by
  induction text generalizing start with
  | nil => cases h
  | cons d ds ih =>
    rcases List.mem_cons.mp h with heq | h
    · rw [(Prod.mk.inj heq).2]
      exact List.mem_cons_self
    · exact List.mem_cons_of_mem d (ih h)

theorem not_mem_gap {gap : List Char} {c : Char} (hgap : ∀ c ∈ gap, isBlank c = true)
    (hc : isBlank c = false) : c ∉ gap := by
  intro hmem
  rw [hgap c hmem] at hc
  cases hc

theorem Lexeme.eq_opening {x : Lexeme} (hx : x.Proper) {start o : Nat}
    (h : (o, '(') ∈ x.loose start) : o = start ∧ ∃ gap, x = opening gap := by
  cases hx with
  | bare | mark => cases h
  | @literal quote body hquote =>
    have hne : '(' ≠ quote := by
      rintro rfl
      exact absurd hquote (by decide)
    simp [loose, hne] at h
  | @opening gap hgap =>
    rcases List.mem_cons.mp h with heq | hmem
    · exact ⟨(Prod.mk.inj heq).1, gap, rfl⟩
    · exact absurd (mem_of_mem_placed hmem) (not_mem_gap hgap (by decide))
  | closing hgap =>
    have hmem := mem_of_mem_placed h
    rcases List.mem_append.mp hmem with hmem | hmem
    · exact absurd hmem (not_mem_gap hgap (by decide))
    · simp at hmem

theorem Lexeme.eq_closing {x : Lexeme} (hx : x.Proper) {start o : Nat}
    (h : (o, ')') ∈ x.loose start) : ∃ gap, o = start + byteLength gap ∧ x = closing gap := by
  cases hx with
  | bare | mark => cases h
  | @literal quote body hquote =>
    have hne : ')' ≠ quote := by
      rintro rfl
      exact absurd hquote (by decide)
    simp [loose, hne] at h
  | opening hgap =>
    have hmem := mem_of_mem_placed h
    rcases List.mem_cons.mp hmem with heq | hmem
    · exact absurd heq (by decide)
    · exact absurd hmem (not_mem_gap hgap (by decide))
  | @closing gap hgap =>
    rw [loose, placed_append] at h
    rcases List.mem_append.mp h with hmem | hmem
    · exact absurd (mem_of_mem_placed hmem) (not_mem_gap hgap (by decide))
    · exact ⟨gap, (Prod.mk.inj (List.mem_singleton.mp hmem)).1, rfl⟩

theorem Lexeme.head_of_begins {x : Lexeme} (hx : x.Proper) (h : x.begins = true) :
    ∃ c cs, x.text = c :: cs ∧ isBlank c = false := by
  cases hx with
  | mark | closing => cases h
  | @bare text hword =>
    obtain ⟨c, cs, rfl⟩ := List.exists_cons_of_ne_nil hword.nonempty
    exact ⟨c, cs, rfl, not_blank_of_isBare (hword.bare c List.mem_cons_self)⟩
  | @literal quote body hquote =>
    refine ⟨quote, body ++ [quote], rfl, ?_⟩
    rcases isQuote_iff.mp hquote with rfl | rfl <;> decide
  | @opening gap => exact ⟨'(', gap, rfl, by decide⟩

theorem Lexeme.last_of_not_awaits {x : Lexeme} (hx : x.Proper) (h : x.awaits = false) :
    ∃ cs c, x.text = cs ++ [c] ∧ isBlank c = false := by
  cases hx with
  | mark | opening => cases h
  | @bare text hword =>
    obtain ⟨cs, c, rfl⟩ := (List.eq_nil_or_concat' text).resolve_left hword.nonempty
    exact ⟨cs, c, rfl, not_blank_of_isBare (hword.bare c (by simp))⟩
  | @literal quote body hquote =>
    refine ⟨quote :: body, quote, rfl, ?_⟩
    rcases isQuote_iff.mp hquote with rfl | rfl <;> decide
  | @closing gap => exact ⟨gap, ')', rfl, by decide⟩

end Rows
end SearchFilter.Query
