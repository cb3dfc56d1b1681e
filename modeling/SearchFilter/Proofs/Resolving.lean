import SearchFilter.Proofs.Stages

/-! Which drafts resolve, to what, and what is reported of the others. A fault belongs to one part of a
draft at the place where it stands; a draft whose parts have none resolves to the tree in which every
chain leans to the left, and of several faults the one that is met first is reported. -/

namespace SearchFilter.Condition

inductive Symbol where
  | word (text : String)
  | connective (op : Connective)
  | opening
  | closing
  deriving DecidableEq, Repr

def Expr.symbols : Expr → List Symbol
  | word text => [.word text]
  | binary op left right => left.symbols ++ .connective op :: right.symbols
  | group inner => .opening :: inner.symbols ++ [.closing]

namespace Draft

mutual

def symbols : Draft → List Symbol
  | text _ => []
  | word s => [.word s]
  | pending op operand => .connective op :: operand.symbols
  | chain items => symbolsOfItems items
  | group inner => .opening :: inner.symbols ++ [.closing]

def symbolsOfItems : List Draft → List Symbol
  | [] => []
  | item :: items => item.symbols ++ symbolsOfItems items

end

inductive WellFormed : Draft → Prop
  | word (s : String) : WellFormed (.word s)
  | group {inner : Draft} : WellFormed inner → WellFormed (.group inner)
  | chain {head : Draft} {pairs : List (Connective × Draft)} :
    WellFormed head → (∀ pair ∈ pairs, WellFormed pair.2) →
    WellFormed (.chain (head :: pairs.map fun pair => .pending pair.1 pair.2))

/-- The expression has the words and groups of the draft, and every chain leans to the left: each of its
connectives takes all that stands before it. -/
inductive LeansLeft : Draft → Expr → Prop
  | word (s : String) : LeansLeft (.word s) (.word s)
  | group {inner : Draft} {e : Expr} : LeansLeft inner e → LeansLeft (.group inner) (.group e)
  | chain {head : Draft} {left : Expr} {steps : List (Connective × Draft × Expr)} :
    LeansLeft head left → (∀ step ∈ steps, LeansLeft step.2.1 step.2.2) →
    LeansLeft (.chain (head :: steps.map fun step => .pending step.1 step.2.1))
      (steps.foldl (fun left step => .binary step.1 left step.2.2) left)

/-- Where a part of a draft stands: in a chain, counted from zero, or on its own in a group, after a
connective or as the whole draft. -/
inductive Site where
  | alone
  | item (index : Nat)
  deriving DecidableEq, Repr

mutual

/-- The parts of a draft with their sites, depth first and from left to right; each part comes before
those that it holds. -/
def parts (site : Site) : Draft → List (Site × Draft)
  | text s => [(site, text s)]
  | word s => [(site, word s)]
  | pending op operand => (site, pending op operand) :: operand.parts .alone
  | chain items => (site, chain items) :: partsOfItems 0 items
  | group inner => (site, group inner) :: inner.parts .alone

def partsOfItems (index : Nat) : List Draft → List (Site × Draft)
  | [] => []
  | item :: items => item.parts (.item index) ++ partsOfItems (index + 1) items

end

def fault? : Site × Draft → Option StructureError
  | (.item (_ + 1), pending _ _) => none
  | (.item (index + 1), d) => some (.missingOperator (index + 1) d.kind)
  | (.item 0, pending op _) => some (.leadingOperator op)
  | (.alone, pending op _) => some (.danglingOperator op)
  | (_, text s) => some (.strayText s)
  | (_, chain []) => some .emptyChain
  | _ => none

def firstFault (d : Draft) : Option StructureError :=
  (d.parts .alone).findSome? fault?

theorem exists_parts (d : Draft) : ∃ inside, ∀ site, d.parts site = (site, d) :: inside := by
  cases d with
  | text s => exact ⟨[], fun site => by rw [parts]⟩
  | word s => exact ⟨[], fun site => by rw [parts]⟩
  | pending op operand => exact ⟨operand.parts .alone, fun site => by rw [parts]⟩
  | chain items => exact ⟨partsOfItems 0 items, fun site => by rw [parts]⟩
  | group inner => exact ⟨inner.parts .alone, fun site => by rw [parts]⟩

section Items

variable {d : Draft} {items : List Draft} (hd : d.kind ≠ .pending)

include hd

theorem resolveChain_operand :
    resolveChain (d :: items) = d.resolve >>= fun left => resolveAfter left 1 items := by
  cases d with
  | pending op operand => exact absurd rfl hd
  | _ => rw [resolveChain]; simp

theorem resolveAfter_operand (left : Expr) (index : Nat) :
    resolveAfter left index (d :: items) = .error (.missingOperator index d.kind) := by
  cases d with
  | pending op operand => exact absurd rfl hd
  | _ => rw [resolveAfter]; simp

theorem findSome?_parts_head : (d.parts (.item 0)).findSome? fault? = d.firstFault := by
  have hfault : fault? (.item 0, d) = fault? (.alone, d) := by
    cases d with
    | pending op operand => exact absurd rfl hd
    | chain items => cases items <;> rfl
    | _ => rfl
  obtain ⟨inside, hparts⟩ := d.exists_parts
  rw [firstFault, hparts, hparts, List.findSome?_cons, List.findSome?_cons, hfault]

theorem findSome?_parts_later (index : Nat) :
    (d.parts (.item (index + 1))).findSome? fault? = some (.missingOperator (index + 1) d.kind) := by
  have hfault : fault? (.item (index + 1), d) = some (.missingOperator (index + 1) d.kind) := by
    cases d with
    | pending op operand => exact absurd rfl hd
    | _ => rfl
  obtain ⟨inside, hparts⟩ := d.exists_parts
  rw [hparts, List.findSome?_cons, hfault]

end Items

mutual

theorem cause?_resolve (d : Draft) : cause? d.resolve = d.firstFault := by
  cases d with
  | text s => rw [resolve, firstFault, parts]; rfl
  | word s => rw [resolve, firstFault, parts]; rfl
  | pending op operand => rw [resolve, firstFault, parts]; rfl
  | chain items =>
    rw [resolve, firstFault, parts, List.findSome?_cons]
    cases items with
    | nil => rw [resolveChain]; rfl
    | cons head items =>
      rw [partsOfItems, List.findSome?_append]
      by_cases hhead : head.kind = .pending
      · cases head with
        | pending op operand => rw [resolveChain, parts]; rfl
        | _ => cases hhead
      · have hafter : ∀ left, head.resolve = .ok left →
            cause? (resolveAfter left 1 items) = (partsOfItems 1 items).findSome? fault? :=
          fun left _ => cause?_resolveAfter left 0 items
        rw [resolveChain_operand hhead, cause?_bind hafter, cause?_resolve head,
          findSome?_parts_head hhead]
        rfl
  | group inner =>
    rw [resolve, cause?_bind_pure, cause?_resolve inner, firstFault, firstFault, parts,
      List.findSome?_cons]
    rfl

theorem cause?_resolveAfter (left : Expr) (index : Nat) (items : List Draft) :
    cause? (resolveAfter left (index + 1) items) =
      (partsOfItems (index + 1) items).findSome? fault? := by
  cases items with
  | nil => rw [resolveAfter, partsOfItems]; rfl
  | cons item items =>
    rw [partsOfItems, List.findSome?_append]
    by_cases hitem : item.kind = .pending
    · cases item with
      | pending op operand =>
        have hafter : ∀ right, operand.resolve = .ok right →
            cause? (resolveAfter (.binary op left right) (index + 2) items) =
              (partsOfItems (index + 2) items).findSome? fault? :=
          fun right _ => cause?_resolveAfter (.binary op left right) (index + 1) items
        rw [resolveAfter, cause?_bind hafter, cause?_resolve operand, parts, List.findSome?_cons,
          firstFault]
        rfl
      | _ => cases hitem
    · rw [resolveAfter_operand hitem, findSome?_parts_later hitem]
      rfl

end

theorem leansLeft_draft : DraftInvariant LeansLeft fun left items e =>
    ∃ steps : List (Connective × Draft × Expr),
      items = steps.map (fun step => .pending step.1 step.2.1) ∧
      e = steps.foldl (fun left step => .binary step.1 left step.2.2) left ∧
      ∀ step ∈ steps, LeansLeft step.2.1 step.2.2 where
  word s := .word s
  group d e h := .group h
  chain head left items e hhead h := by
    obtain ⟨steps, rfl, rfl, hsteps⟩ := h
    exact .chain hhead hsteps
  done left := ⟨[], rfl, rfl, by simp⟩
  step left op operand right items e hright h := by
    obtain ⟨steps, rfl, rfl, hsteps⟩ := h
    exact ⟨(op, operand, right) :: steps, rfl, rfl, List.forall_mem_cons.mpr ⟨hright, hsteps⟩⟩

theorem resolveAfter_steps {steps : List (Connective × Draft × Expr)}
    (h : ∀ step ∈ steps, step.2.1.resolve = .ok step.2.2) (left : Expr) (index : Nat) :
    resolveAfter left index (steps.map fun step => .pending step.1 step.2.1) =
      .ok (steps.foldl (fun left step => .binary step.1 left step.2.2) left) := by
  induction steps generalizing left index with
  | nil => rw [List.map_nil, resolveAfter, List.foldl_nil]
  | cons step steps ih =>
    obtain ⟨hstep, hsteps⟩ := List.forall_mem_cons.mp h
    rw [List.map_cons, resolveAfter, hstep, List.foldl_cons]
    exact ih hsteps _ (index + 1)

theorem resolve_eq_ok_iff {d : Draft} {e : Expr} : d.resolve = .ok e ↔ LeansLeft d e := by
  refine ⟨leansLeft_draft.resolve, fun h => ?_⟩
  induction h with
  | word s => rw [resolve]
  | group _ ih =>
    rw [resolve, ih]
    rfl
  | chain _ _ ihhead ihsteps =>
    rw [resolve, resolveChain_cons ihhead]
    exact resolveAfter_steps ihsteps _ 1

theorem LeansLeft.wellFormed {d : Draft} {e : Expr} (h : LeansLeft d e) : d.WellFormed := by
  induction h with
  | word s => exact .word s
  | group _ ih => exact .group ih
  | @chain head left steps _ _ ihhead ihsteps =>
    have hpairs : ∀ pair ∈ steps.map (fun step => (step.1, step.2.1)), WellFormed pair.2 :=
      List.forall_mem_map.mpr ihsteps
    have hchain := WellFormed.chain ihhead hpairs
    rwa [List.map_map] at hchain

theorem exists_steps {pairs : List (Connective × Draft)}
    (h : ∀ pair ∈ pairs, ∃ e, LeansLeft pair.2 e) :
    ∃ steps : List (Connective × Draft × Expr),
      pairs = steps.map (fun step => (step.1, step.2.1)) ∧
      ∀ step ∈ steps, LeansLeft step.2.1 step.2.2 := by
  induction pairs with
  | nil => exact ⟨[], rfl, by simp⟩
  | cons pair pairs ih =>
    obtain ⟨⟨e, he⟩, hpairs⟩ := List.forall_mem_cons.mp h
    obtain ⟨steps, rfl, hsteps⟩ := ih hpairs
    exact ⟨(pair.1, pair.2, e) :: steps, rfl, List.forall_mem_cons.mpr ⟨he, hsteps⟩⟩

theorem WellFormed.exists_leansLeft {d : Draft} (h : d.WellFormed) : ∃ e, LeansLeft d e := by
  induction h with
  | word s => exact ⟨.word s, .word s⟩
  | group _ ih =>
    obtain ⟨e, he⟩ := ih
    exact ⟨.group e, .group he⟩
  | chain _ _ ihhead ihpairs =>
    obtain ⟨left, hleft⟩ := ihhead
    obtain ⟨steps, rfl, hsteps⟩ := exists_steps ihpairs
    rw [List.map_map]
    exact ⟨_, .chain hleft hsteps⟩

theorem symbols_draft : DraftInvariant (fun d e => e.symbols = d.symbols) fun left items e =>
    e.symbols = left.symbols ++ symbolsOfItems items where
  word s := by rw [symbols, Expr.symbols]
  group d e h := by rw [symbols, Expr.symbols, h]
  chain head left items e hhead h := by rw [symbols, symbolsOfItems, h, hhead]
  done left := by rw [symbolsOfItems, List.append_nil]
  step left op operand right items e hright h := by
    rw [symbolsOfItems, symbols, h, Expr.symbols, hright]
    simp

/-- A draft resolves if and only if it is well formed, to the expression in which its chains lean to the
left and its words, connectives and groups keep their order. Of any other draft the first fault is
reported. -/
theorem resolve_outcome (d : Draft) :
    ((∃ e, d.resolve = .ok e) ↔ d.WellFormed) ∧
    (∀ e, d.resolve = .ok e ↔ LeansLeft d e) ∧
    (∀ e, d.resolve = .ok e → e.symbols = d.symbols) ∧
    ∀ cause, d.resolve = .error cause ↔ d.firstFault = some cause := by
  refine ⟨⟨fun ⟨e, he⟩ => (resolve_eq_ok_iff.mp he).wellFormed, fun h => ?_⟩,
    fun e => resolve_eq_ok_iff, fun e => symbols_draft.resolve, fun cause => ?_⟩
  · obtain ⟨e, he⟩ := h.exists_leansLeft
    exact ⟨e, resolve_eq_ok_iff.mpr he⟩
  · rw [← cause?_resolve, cause?_eq_some_iff]

theorem resolve_outcome_mixed :
    (∃ e, resolve (.chain [.group (.chain [.word "a", .pending .or (.word "b")]),
        .pending .and (.word "c")]) = .ok e ∧
      e.symbols = [.opening, .word "a", .connective .or, .word "b", .closing, .connective .and,
        .word "c"]) ∧
    resolve (.group (.chain [.word "a", .chain [], .pending .or (.pending .and (.text "b"))])) =
      .error (.missingOperator 1 .chain) := by
  have hinner : WellFormed (.chain [.word "a", .pending .or (.word "b")]) :=
    @WellFormed.chain (.word "a") [(.or, .word "b")] (.word "a") (by simpa using WellFormed.word "b")
  have houter : WellFormed (.chain [.group (.chain [.word "a", .pending .or (.word "b")]),
      .pending .and (.word "c")]) :=
    @WellFormed.chain _ [(.and, .word "c")] (.group hinner) (by simpa using WellFormed.word "c")
  obtain ⟨e, he⟩ := (resolve_outcome _).1.mpr houter
  refine ⟨⟨e, he, ?_⟩, ((resolve_outcome _).2.2.2 _).mpr (by decide)⟩
  exact ((resolve_outcome _).2.2.1 e he).trans (by decide)

end Draft
end SearchFilter.Condition
