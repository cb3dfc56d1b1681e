import SearchFilter.Proofs.Hierarchies
import SearchFilter.Proofs.Lossless

/-! What drafts keep of their trees, and which trees have none. The rules that read a tree go by the
tags of each node and by what its parts have become. Whatever they leave out was a plain text, so no
word, group or connective is lost with it; and a tree without a draft is reported by the first of its
nodes that no rule is for, all parts of a node before the node itself. -/

namespace SearchFilter

namespace Condition

open Query (Tag)

/-- What a draft shows of a tree. A word has the texts of the leaves below it. -/
inductive Element where
  | word (texts : List String)
  | group
  | connective (op : Connective)
  | operand
  | chain

namespace Draft

mutual

def outline : Draft → List (Hierarchy Element)
  | text _ => []
  | word s => [.node (.word [s]) []]
  | pending op operand => [.node (.connective op) [], .node .operand operand.outline]
  | chain items => [.node .chain (outlineOfItems items)]
  | group inner => [.node .group inner.outline]

def outlineOfItems : List Draft → List (Hierarchy Element)
  | [] => []
  | item :: items => item.outline ++ outlineOfItems items

end

def hasRule : List (Tag × Option Kind) → Bool
  | [(.str, some .text)] => true
  | [(.word, some .text)] => true
  | [(.left, _)] => true
  | [(.paren, _)] => true
  | [(.and, some .text), (.right, _)] => true
  | [(.or, some .text), (.right, _)] => true
  | _ => false

end Draft
end Condition

namespace Query.SyntaxTree

open Condition

def texts (t : SyntaxTree) : List String :=
  t.leaves.map Prod.fst

mutual

def fieldsOf (tag : Tag) : SyntaxTree → List SyntaxTree
  | text _ _ => []
  | tagged fields => fieldsOfFields tag fields
  | sequence items => fieldsOfItems tag items

def fieldsOfFields (tag : Tag) : List (Tag × SyntaxTree) → List SyntaxTree
  | [] => []
  | (tag', t) :: fields =>
    (if tag' = tag then [t] else []) ++ t.fieldsOf tag ++ fieldsOfFields tag fields

def fieldsOfItems (tag : Tag) : List SyntaxTree → List SyntaxTree
  | [] => []
  | t :: items => t.fieldsOf tag ++ fieldsOfItems tag items

end

def element (tag : Tag) (texts : List String) (below : List (Hierarchy Element)) :
    List (Hierarchy Element) :=
  match tag with
  | .word => [.node (.word texts) below]
  | .paren => [.node .group below]
  | .and => [.node (.connective .and) below]
  | .or => [.node (.connective .or) below]
  | .right => [.node .operand below]
  | .left => below
  | .str => below

mutual

def outline : SyntaxTree → List (Hierarchy Element)
  | text _ _ => []
  | tagged fields => outlineOfFields fields
  | sequence items => [.node .chain (outlineOfItems items)]

def outlineOfFields : List (Tag × SyntaxTree) → List (Hierarchy Element)
  | [] => []
  | (tag, t) :: fields => element tag t.texts t.outline ++ outlineOfFields fields

def outlineOfItems : List SyntaxTree → List (Hierarchy Element)
  | [] => []
  | t :: items => t.outline ++ outlineOfItems items

end

def kind? : SyntaxTree → Option Draft.Kind
  | text _ _ => some .text
  | sequence _ => some .chain
  | tagged [(.str, _)] => some .text
  | tagged [(.word, _)] => some .word
  | tagged [(.left, t)] => t.kind?
  | tagged [(.paren, _)] => some .group
  | tagged [(.and, _), (.right, _)] => some .pending
  | tagged [(.or, _), (.right, _)] => some .pending
  | tagged _ => none

mutual

/-- The nodes of a tree: those below each part, from left to right, and then the node itself. -/
def nodes : SyntaxTree → List SyntaxTree
  | text s span => [text s span]
  | tagged fields => nodesOfFields fields ++ [tagged fields]
  | sequence items => nodesOfItems items ++ [sequence items]

def nodesOfFields : List (Tag × SyntaxTree) → List SyntaxTree
  | [] => []
  | (_, t) :: fields => t.nodes ++ nodesOfFields fields

def nodesOfItems : List SyntaxTree → List SyntaxTree
  | [] => []
  | t :: items => t.nodes ++ nodesOfItems items

end

def unread? : SyntaxTree → Option StructureError
  | tagged fields =>
    let shape := fields.map fun field => (field.1, field.2.kind?)
    if Draft.hasRule shape then none
    else some (.unexpectedShape (shape.map Prod.fst) (shape.head?.bind Prod.snd))
  | _ => none

section One

variable (t : SyntaxTree)

theorem texts_tagged_one (tag : Tag) : (tagged [(tag, t)]).texts = t.texts := by
  rw [texts, leaves_tagged_one, texts]

theorem fieldsOf_tagged_one {tag tag' : Tag} (h : tag' ≠ tag) :
    (tagged [(tag', t)]).fieldsOf tag = t.fieldsOf tag := by
  simp [fieldsOf, fieldsOfFields, h]

theorem outline_tagged_one (tag : Tag) :
    (tagged [(tag, t)]).outline = element tag t.texts t.outline := by
  simp [outline, outlineOfFields]

end One

end Query.SyntaxTree

namespace Condition

open Query

theorem kind_tree : TreeInvariant fun t d => t.kind? = some d.kind where
  text s span := by rw [SyntaxTree.kind?]; rfl
  str t s _ := by rw [SyntaxTree.kind?]; rfl
  word t s _ := by rw [SyntaxTree.kind?]; rfl
  left t d h := by rw [SyntaxTree.kind?]; exact h
  paren t d _ := by rw [SyntaxTree.kind?]; rfl
  pair op mark s t d _ _ := by
    cases op with
    | and => rw [SyntaxTree.pair, Connective.tag, SyntaxTree.kind?]; rfl
    | or => rw [SyntaxTree.pair, Connective.tag, SyntaxTree.kind?]; rfl
  sequence items drafts _ := by rw [SyntaxTree.kind?]; rfl

/-- The draft `d` holds what the tree `t` does; a text that is not yet a word is the only leaf. -/
structure Mirrors (t : SyntaxTree) (d : Draft) : Prop where
  words_eq : (t.fieldsOf .word).map SyntaxTree.texts = d.words.map fun s => [s]
  outline_eq : t.outline = d.outline
  text_eq : ∀ s, d = .text s → t.texts = [s]

section Mirrors

variable {t : SyntaxTree} {d : Draft} {s : String}

theorem Mirrors.fieldsOf_eq_nil (h : Mirrors t (.text s)) : t.fieldsOf .word = [] := by
  simpa [Draft.words] using h.words_eq

theorem Mirrors.outline_eq_nil (h : Mirrors t (.text s)) : t.outline = [] := by
  rw [h.outline_eq, Draft.outline]

theorem Mirrors.tagged {tag : Tag} (h : Mirrors t d) (hword : tag ≠ .word)
    (hhidden : ∀ texts below, SyntaxTree.element tag texts below = below) :
    Mirrors (.tagged [(tag, t)]) d := by
  refine ⟨?_, ?_, fun s hs => ?_⟩
  · rw [SyntaxTree.fieldsOf_tagged_one t hword, h.words_eq]
  · rw [SyntaxTree.outline_tagged_one, hhidden, h.outline_eq]
  · rw [SyntaxTree.texts_tagged_one, h.text_eq s hs]

theorem mirrors_items {items : List SyntaxTree} {drafts : List Draft}
    (h : List.Forall₂ Mirrors items drafts) :
    (SyntaxTree.fieldsOfItems .word items).map SyntaxTree.texts =
        (Draft.wordsOfItems drafts).map (fun s => [s]) ∧
      SyntaxTree.outlineOfItems items = Draft.outlineOfItems drafts := by
  induction h with
  | nil => exact ⟨rfl, rfl⟩
  | cons ht _ ih =>
    rw [SyntaxTree.fieldsOfItems, Draft.wordsOfItems, SyntaxTree.outlineOfItems, Draft.outlineOfItems,
      List.map_append, List.map_append, ht.words_eq, ht.outline_eq, ih.1, ih.2]
    exact ⟨rfl, rfl⟩

theorem mirrors_tree : TreeInvariant Mirrors where
  text s span := by
    refine ⟨?_, ?_, fun s' h => ?_⟩
    · rw [SyntaxTree.fieldsOf, Draft.words]; rfl
    · rw [SyntaxTree.outline, Draft.outline]
    · cases h
      rw [SyntaxTree.texts, leaves_text]
      rfl
  str t s h := h.tagged (by decide) fun _ _ => rfl
  word t s h := by
    refine ⟨?_, ?_, by simp⟩
    · have hinside : (SyntaxTree.tagged [(.word, t)]).fieldsOf .word = [t] := by
        simp [SyntaxTree.fieldsOf, SyntaxTree.fieldsOfFields, h.fieldsOf_eq_nil]
      rw [hinside, List.map_singleton, h.text_eq s rfl, Draft.words, List.map_singleton]
    · rw [SyntaxTree.outline_tagged_one, SyntaxTree.element, h.outline_eq_nil, h.text_eq s rfl,
        Draft.outline]
  left t d h := h.tagged (by decide) fun _ _ => rfl
  paren t d h := by
    refine ⟨?_, ?_, by simp⟩
    · rw [SyntaxTree.fieldsOf_tagged_one t (by decide), h.words_eq, Draft.words]
    · rw [SyntaxTree.outline_tagged_one, SyntaxTree.element, h.outline_eq, Draft.outline]
  pair op mark s t d hmark h := by
    have htag : op.tag ≠ .word := by cases op <;> decide
    refine ⟨?_, ?_, by simp⟩
    · have hright : (SyntaxTree.pair op.tag mark t).fieldsOf .word = t.fieldsOf .word := by
        simp [SyntaxTree.pair, SyntaxTree.fieldsOf, SyntaxTree.fieldsOfFields, htag,
          hmark.fieldsOf_eq_nil]
      rw [hright, h.words_eq, Draft.words]
    · rw [SyntaxTree.pair, SyntaxTree.outline, SyntaxTree.outlineOfFields, SyntaxTree.outlineOfFields,
        SyntaxTree.outlineOfFields, hmark.outline_eq_nil, h.outline_eq, Draft.outline]
      cases op <;> rfl
  sequence items drafts h := by
    obtain ⟨hwords, houtline⟩ := mirrors_items h
    refine ⟨?_, ?_, by simp⟩
    · rw [SyntaxTree.fieldsOf, hwords, Draft.words]
    · rw [SyntaxTree.outline, houtline, Draft.outline]

end Mirrors

section Unread

variable {fields : List (Tag × SyntaxTree)} {parts : List (Tag × Draft)}

theorem shape_eq (h : Draft.ofFields fields = .ok parts) :
    fields.map (fun field => (field.1, field.2.kind?)) =
      parts.map fun part => (part.1, some part.2.kind) := by
  have hkinds := kind_tree.ofFields h
  clear h
  induction hkinds with
  | nil => rfl
  | cons hpart _ ih => rw [List.map_cons, List.map_cons, ih, hpart.1, hpart.2]

theorem assemble_of_not_hasRule
    (h : Draft.hasRule (parts.map fun part => (part.1, some part.2.kind)) = false) :
    Draft.assemble parts =
      .error (.unexpectedShape (parts.map Prod.fst) (parts.head?.map fun part => part.2.kind)) := by
  fun_cases Draft.assemble parts with
  | case7 parts => rfl
  | _ => cases h

theorem eq_text_of_kind {d : Draft} (h : d.kind = .text) : ∃ s, d = .text s := by
  cases d with
  | text s => exact ⟨s, rfl⟩
  | _ => cases h

theorem hasRule_cases {shape : List (Tag × Option Draft.Kind)} (h : Draft.hasRule shape = true) :
    (∃ tag, (tag = .str ∨ tag = .word) ∧ shape = [(tag, some .text)]) ∨
    (∃ tag kind, (tag = .left ∨ tag = .paren) ∧ shape = [(tag, kind)]) ∨
    ∃ op kind, shape = [(Connective.tag op, some .text), (.right, kind)] := by
  fun_cases Draft.hasRule shape with
  | case1 => exact .inl ⟨.str, .inl rfl, rfl⟩
  | case2 => exact .inl ⟨.word, .inr rfl, rfl⟩
  | case3 kind => exact .inr (.inl ⟨.left, kind, .inl rfl, rfl⟩)
  | case4 kind => exact .inr (.inl ⟨.paren, kind, .inr rfl, rfl⟩)
  | case5 kind => exact .inr (.inr ⟨.and, kind, rfl⟩)
  | case6 kind => exact .inr (.inr ⟨.or, kind, rfl⟩)
  | case7 => simp [Draft.hasRule] at h

theorem assemble_of_hasRule
    (h : Draft.hasRule (parts.map fun part => (part.1, some part.2.kind)) = true) :
    ∃ d, Draft.assemble parts = .ok d := by
  rcases hasRule_cases h with ⟨tag, htag, hshape⟩ | ⟨tag, kind, htag, hshape⟩ | ⟨op, kind, hshape⟩
  · obtain ⟨⟨tag', d⟩, rfl, hpart⟩ := List.map_eq_singleton_iff.mp hshape
    obtain ⟨rfl, hkind⟩ := Prod.mk.inj hpart
    obtain ⟨s, rfl⟩ := eq_text_of_kind (Option.some.inj hkind)
    rcases htag with rfl | rfl
    · exact ⟨_, rfl⟩
    · exact ⟨_, rfl⟩
  · obtain ⟨⟨tag', d⟩, rfl, hpart⟩ := List.map_eq_singleton_iff.mp hshape
    obtain rfl := (Prod.mk.inj hpart).1
    rcases htag with rfl | rfl
    · exact ⟨_, rfl⟩
    · exact ⟨_, rfl⟩
  · obtain ⟨⟨tag, d⟩, rest, rfl, hpart, hrest⟩ := List.map_eq_cons_iff.mp hshape
    obtain ⟨rfl, hkind⟩ := Prod.mk.inj hpart
    obtain ⟨s, rfl⟩ := eq_text_of_kind (Option.some.inj hkind)
    obtain ⟨⟨tag', operand⟩, rfl, hright⟩ := List.map_eq_singleton_iff.mp hrest
    obtain rfl := (Prod.mk.inj hright).1
    cases op with
    | and => exact ⟨_, rfl⟩
    | or => exact ⟨_, rfl⟩

theorem cause?_assemble (h : Draft.ofFields fields = .ok parts) :
    cause? (Draft.assemble parts) = (SyntaxTree.tagged fields).unread? := by
  rw [SyntaxTree.unread?, shape_eq h]
  cases hrule : Draft.hasRule (parts.map fun part => (part.1, some part.2.kind)) with
  | true =>
    obtain ⟨d, hd⟩ := assemble_of_hasRule hrule
    rw [hd]
    rfl
  | false =>
    have hhead : (parts.head?.map fun part => (part.1, some part.2.kind)).bind Prod.snd =
        parts.head?.map fun part => part.2.kind := by
      cases parts <;> rfl
    rw [assemble_of_not_hasRule hrule]
    simp [cause?, hhead, Function.comp_def]

open Draft in
mutual

theorem cause?_ofTree (t : SyntaxTree) :
    cause? (ofTree t) = t.nodes.findSome? SyntaxTree.unread? := by
  cases t with
  | text s span => rw [ofTree, SyntaxTree.nodes]; rfl
  | tagged fields =>
    have hnode : ∀ parts, ofFields fields = .ok parts →
        cause? (assemble parts) = [SyntaxTree.tagged fields].findSome? SyntaxTree.unread? := by
      intro parts hparts
      rw [cause?_assemble hparts, List.findSome?_singleton]
    rw [ofTree, cause?_bind hnode, cause?_ofFields fields, SyntaxTree.nodes, List.findSome?_append]
  | sequence items =>
    rw [ofTree, cause?_bind_pure, cause?_ofItems items, SyntaxTree.nodes, List.findSome?_append,
      List.findSome?_singleton]
    exact (Option.or_none).symm

theorem cause?_ofFields (fields : List (Tag × SyntaxTree)) :
    cause? (ofFields fields) = (SyntaxTree.nodesOfFields fields).findSome? SyntaxTree.unread? := by
  cases fields with
  | nil => rw [ofFields, SyntaxTree.nodesOfFields]; rfl
  | cons field fields =>
    have hrest : ∀ d, ofTree field.2 = .ok d →
        cause? (do return (field.1, d) :: (← ofFields fields)) =
          (SyntaxTree.nodesOfFields fields).findSome? SyntaxTree.unread? := by
      intro d _
      rw [cause?_bind_pure, cause?_ofFields fields]
    rw [ofFields, cause?_bind hrest, cause?_ofTree field.2, SyntaxTree.nodesOfFields,
      List.findSome?_append]

theorem cause?_ofItems (items : List SyntaxTree) :
    cause? (ofItems items) = (SyntaxTree.nodesOfItems items).findSome? SyntaxTree.unread? := by
  cases items with
  | nil => rw [ofItems, SyntaxTree.nodesOfItems]; rfl
  | cons t items =>
    have hrest : ∀ d, ofTree t = .ok d →
        cause? (do return d :: (← ofItems items)) =
          (SyntaxTree.nodesOfItems items).findSome? SyntaxTree.unread? := by
      intro d _
      rw [cause?_bind_pure, cause?_ofItems items]
    rw [ofItems, cause?_bind hrest, cause?_ofTree t, SyntaxTree.nodesOfItems, List.findSome?_append]

end

end Unread

/-- The words of a draft are those of its tree, one for each part that is a word, with the text of the
one leaf below it, and its groups and connectives are nested as in the tree. A tree without a draft is
reported by the first node that no rule is for. -/
theorem ofTree_outcome (t : SyntaxTree) :
    (∀ d, Draft.ofTree t = .ok d →
      (t.fieldsOf .word).map SyntaxTree.texts = d.words.map (fun s => [s]) ∧
      t.outline = d.outline) ∧
    ∀ cause, Draft.ofTree t = .error cause ↔ t.nodes.findSome? SyntaxTree.unread? = some cause := by
  refine ⟨fun d hd => ?_, fun cause => ?_⟩
  · have hmirrors := mirrors_tree.ofTree hd
    exact ⟨hmirrors.words_eq, hmirrors.outline_eq⟩
  · rw [← cause?_ofTree, cause?_eq_some_iff]

def literalSeparator : SyntaxTree :=
  .sequence [.tagged [(.paren, .tagged [(.word, .tagged [(.left, .text "a" ⟨0, 1⟩)])])],
    .pair .or (.tagged [(.str, .text "b" ⟨1, 2⟩)]) (.tagged [(.word, .text "c" ⟨2, 3⟩)])]

theorem ofTree_outcome_strange :
    (∃ d, Draft.ofTree literalSeparator = .ok d ∧ [["a"], ["c"]] = d.words.map fun s => [s]) ∧
    Draft.ofTree (.sequence [.text "a" ⟨0, 1⟩,
        .tagged [(.word, .tagged [(.word, .sequence [])])], .tagged []]) =
      .error (.unexpectedShape [.word] (some .chain)) := by
  refine ⟨⟨.chain [.group (.word "a"), .pending .or (.word "c")], rfl, ?_⟩,
    ((ofTree_outcome _).2 _).mpr (by decide)⟩
  have hwords : (literalSeparator.fieldsOf .word).map SyntaxTree.texts = [["a"], ["c"]] := by decide
  exact hwords.symm.trans ((ofTree_outcome literalSeparator).1 _ rfl).1

end Condition
end SearchFilter
