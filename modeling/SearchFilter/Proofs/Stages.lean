import SearchFilter.Proofs.Meaning

/-! Induction along the stages after the parser. A property of trees and their drafts follows from one
case for each shape that is read; a property of drafts and their expressions, from one case for each
kind of draft and one for each step along a chain. -/

namespace SearchFilter.Condition

open Query

theorem bind_eq_ok_iff {ε α β : Type} {x : Except ε α} {f : α → Except ε β} {b : β} :
    (x >>= f) = .ok b ↔ ∃ a, x = .ok a ∧ f a = .ok b := by
  cases x with
  | ok a => simp [bind, Except.bind]
  | error cause => simp [bind, Except.bind]

def cause? {ε α : Type} : Except ε α → Option ε
  | .ok _ => none
  | .error cause => some cause

theorem cause?_eq_some_iff {ε α : Type} {x : Except ε α} {cause : ε} :
    cause? x = some cause ↔ x = .error cause := by
  cases x with
  | ok a => simp [cause?]
  | error e => simp [cause?]

theorem cause?_bind {ε α β : Type} {x : Except ε α} {f : α → Except ε β} {rest : Option ε}
    (h : ∀ a, x = .ok a → cause? (f a) = rest) : cause? (x >>= f) = (cause? x).or rest := by
  cases x with
  | ok a => exact h a rfl
  | error cause => rfl

theorem cause?_bind_pure {ε α β : Type} {x : Except ε α} {f : α → β} :
    cause? (x >>= fun a => pure (f a)) = cause? x := by
  cases x with
  | ok a => rfl
  | error cause => rfl

theorem assemble_cases {parts : List (Tag × Draft)} {d : Draft} (h : Draft.assemble parts = .ok d) :
    (∃ s, parts = [(.str, .text s)] ∧ d = .text s) ∨
    (∃ s, parts = [(.word, .text s)] ∧ d = .word s) ∨
    parts = [(.left, d)] ∨
    (∃ inner, parts = [(.paren, inner)] ∧ d = .group inner) ∨
    ∃ op s operand, parts = [(Connective.tag op, .text s), (.right, operand)] ∧
      d = .pending op operand := by
  fun_cases Draft.assemble parts with
  | case1 s => exact .inl ⟨s, rfl, (Except.ok.inj h).symm⟩
  | case2 s => exact .inr (.inl ⟨s, rfl, (Except.ok.inj h).symm⟩)
  | case3 draft => exact .inr (.inr (.inl (by rw [Except.ok.inj h])))
  | case4 inner => exact .inr (.inr (.inr (.inl ⟨inner, rfl, (Except.ok.inj h).symm⟩)))
  | case5 s operand =>
    exact .inr (.inr (.inr (.inr ⟨.and, s, operand, rfl, (Except.ok.inj h).symm⟩)))
  | case6 s operand =>
    exact .inr (.inr (.inr (.inr ⟨.or, s, operand, rfl, (Except.ok.inj h).symm⟩)))
  | case7 => simp [Draft.assemble] at h

/-- A relation between trees and drafts that every shape of tree preserves. -/
structure TreeInvariant (P : SyntaxTree → Draft → Prop) : Prop where
  text : ∀ s span, P (.text s span) (.text s)
  str : ∀ t s, P t (.text s) → P (.tagged [(.str, t)]) (.text s)
  word : ∀ t s, P t (.text s) → P (.tagged [(.word, t)]) (.word s)
  left : ∀ t d, P t d → P (.tagged [(.left, t)]) d
  paren : ∀ t d, P t d → P (.tagged [(.paren, t)]) (.group d)
  pair : ∀ op mark s t d, P mark (.text s) → P t d →
    P (.pair (Connective.tag op) mark t) (.pending op d)
  sequence : ∀ items drafts, List.Forall₂ P items drafts → P (.sequence items) (.chain drafts)

section Trees

variable {P : SyntaxTree → Draft → Prop}

theorem TreeInvariant.tagged (hP : TreeInvariant P) {fields : List (Tag × SyntaxTree)}
    {parts : List (Tag × Draft)} {d : Draft}
    (hparts : List.Forall₂ (fun f p => f.1 = p.1 ∧ P f.2 p.2) fields parts)
    (h : Draft.assemble parts = .ok d) : P (.tagged fields) d := by
  rcases assemble_cases h with ⟨s, rfl, rfl⟩ | ⟨s, rfl, rfl⟩ | rfl | ⟨inner, rfl, rfl⟩ |
    ⟨op, s, operand, rfl, rfl⟩
  all_goals
    obtain ⟨⟨tag, t⟩, fields, ⟨rfl, ht⟩, hfields, rfl⟩ := List.forall₂_cons_right_iff.mp hparts
  · obtain rfl := List.forall₂_nil_right_iff.mp hfields
    exact hP.str t s ht
  · obtain rfl := List.forall₂_nil_right_iff.mp hfields
    exact hP.word t s ht
  · obtain rfl := List.forall₂_nil_right_iff.mp hfields
    exact hP.left t d ht
  · obtain rfl := List.forall₂_nil_right_iff.mp hfields
    exact hP.paren t inner ht
  · obtain ⟨⟨tag, u⟩, rest, ⟨rfl, hu⟩, hrest, rfl⟩ := List.forall₂_cons_right_iff.mp hfields
    obtain rfl := List.forall₂_nil_right_iff.mp hrest
    exact hP.pair op t s u operand ht hu

mutual

theorem TreeInvariant.ofTree (hP : TreeInvariant P) {t : SyntaxTree} {d : Draft}
    (h : Draft.ofTree t = .ok d) : P t d := by
  cases t with
  | text s span =>
    rw [Draft.ofTree] at h
    obtain rfl : Draft.text s = d := Except.ok.inj h
    exact hP.text s span
  | tagged fields =>
    rw [Draft.ofTree] at h
    obtain ⟨parts, hparts, hd⟩ := bind_eq_ok_iff.mp h
    exact hP.tagged (hP.ofFields hparts) hd
  | sequence items =>
    rw [Draft.ofTree] at h
    obtain ⟨drafts, hdrafts, hd⟩ := bind_eq_ok_iff.mp h
    obtain rfl : Draft.chain drafts = d := Except.ok.inj hd
    exact hP.sequence items drafts (hP.ofItems hdrafts)

theorem TreeInvariant.ofFields (hP : TreeInvariant P) {fields : List (Tag × SyntaxTree)}
    {parts : List (Tag × Draft)} (h : Draft.ofFields fields = .ok parts) :
    List.Forall₂ (fun f p => f.1 = p.1 ∧ P f.2 p.2) fields parts := by
  cases fields with
  | nil =>
    rw [Draft.ofFields] at h
    obtain rfl : [] = parts := Except.ok.inj h
    exact .nil
  | cons field fields =>
    rw [Draft.ofFields] at h
    obtain ⟨d, hd, h⟩ := bind_eq_ok_iff.mp h
    obtain ⟨parts', hparts, h⟩ := bind_eq_ok_iff.mp h
    obtain rfl : (field.1, d) :: parts' = parts := Except.ok.inj h
    exact .cons ⟨rfl, hP.ofTree hd⟩ (hP.ofFields hparts)

theorem TreeInvariant.ofItems (hP : TreeInvariant P) {items : List SyntaxTree}
    {drafts : List Draft} (h : Draft.ofItems items = .ok drafts) :
    List.Forall₂ P items drafts := by
  cases items with
  | nil =>
    rw [Draft.ofItems] at h
    obtain rfl : [] = drafts := Except.ok.inj h
    exact .nil
  | cons tree items =>
    rw [Draft.ofItems] at h
    obtain ⟨d, hd, h⟩ := bind_eq_ok_iff.mp h
    obtain ⟨drafts', hdrafts, h⟩ := bind_eq_ok_iff.mp h
    obtain rfl : d :: drafts' = drafts := Except.ok.inj h
    exact .cons (hP.ofTree hd) (hP.ofItems hdrafts)

end

end Trees

/-- A relation `Q` between drafts and expressions that every kind of draft preserves, with a relation
`R` for the rest of a chain after the items that are resolved to its first argument. -/
structure DraftInvariant (Q : Draft → Expr → Prop) (R : Expr → List Draft → Expr → Prop) : Prop where
  word : ∀ s, Q (.word s) (.word s)
  group : ∀ d e, Q d e → Q (.group d) (.group e)
  chain : ∀ head left items e, Q head left → R left items e → Q (.chain (head :: items)) e
  done : ∀ left, R left [] left
  step : ∀ left op operand right items e, Q operand right → R (.binary op left right) items e →
    R left (.pending op operand :: items) e

section Drafts

variable {Q : Draft → Expr → Prop} {R : Expr → List Draft → Expr → Prop}

theorem resolveChain_cons_eq_ok {head : Draft} {items : List Draft} {e : Expr}
    (h : Draft.resolveChain (head :: items) = .ok e) :
    ∃ left, head.resolve = .ok left ∧ Draft.resolveAfter left 1 items = .ok e := by
  cases head with
  | pending op operand => simp [Draft.resolveChain] at h
  | _ => simpa only [Draft.resolveChain, bind_eq_ok_iff] using h

mutual

theorem DraftInvariant.resolve (hQ : DraftInvariant Q R) {d : Draft} {e : Expr}
    (h : d.resolve = .ok e) : Q d e := by
  cases d with
  | text s => simp [Draft.resolve] at h
  | pending op operand => simp [Draft.resolve] at h
  | word s =>
    rw [Draft.resolve] at h
    obtain rfl : Expr.word s = e := Except.ok.inj h
    exact hQ.word s
  | chain items =>
    cases items with
    | nil => simp [Draft.resolve, Draft.resolveChain] at h
    | cons head items =>
      rw [Draft.resolve] at h
      obtain ⟨left, hleft, h⟩ := resolveChain_cons_eq_ok h
      exact hQ.chain head left items e (hQ.resolve hleft) (hQ.resolveAfter h)
  | group inner =>
    rw [Draft.resolve] at h
    obtain ⟨e', he, h⟩ := bind_eq_ok_iff.mp h
    obtain rfl : Expr.group e' = e := Except.ok.inj h
    exact hQ.group inner e' (hQ.resolve he)

theorem DraftInvariant.resolveAfter (hQ : DraftInvariant Q R) {items : List Draft} {left e : Expr}
    {index : Nat} (h : Draft.resolveAfter left index items = .ok e) : R left items e := by
  cases items with
  | nil =>
    rw [Draft.resolveAfter] at h
    obtain rfl : left = e := Except.ok.inj h
    exact hQ.done left
  | cons item items =>
    cases item with
    | pending op operand =>
      rw [Draft.resolveAfter] at h
      obtain ⟨right, hright, h⟩ := bind_eq_ok_iff.mp h
      exact hQ.step left op operand right items e (hQ.resolve hright) (hQ.resolveAfter h)
    | _ => simp [Draft.resolveAfter] at h

end

end Drafts
end SearchFilter.Condition
