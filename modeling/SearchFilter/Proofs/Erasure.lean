import SearchFilter.Proofs.Spelling
import SearchFilter.Proofs.SqlReading
import SearchFilter.Proofs.Stages

/-! Words and conditions. The stages from the tree to the condition look at tags and at the nesting of
parts, never at a text: a tree whose texts are erased stands for the same condition. -/

namespace SearchFilter

namespace Query.SyntaxTree

mutual

def erase : SyntaxTree → SyntaxTree
  | text _ _ => text "" ⟨0, 0⟩
  | tagged fields => tagged (eraseFields fields)
  | sequence items => sequence (eraseItems items)

def eraseFields : List (Tag × SyntaxTree) → List (Tag × SyntaxTree)
  | [] => []
  | (tag, tree) :: fields => (tag, tree.erase) :: eraseFields fields

def eraseItems : List SyntaxTree → List SyntaxTree
  | [] => []
  | tree :: items => tree.erase :: eraseItems items

end

end Query.SyntaxTree

namespace Condition

open Query (Tag SyntaxTree)

namespace Draft

mutual

def erase : Draft → Draft
  | text _ => text ""
  | word _ => word ""
  | pending op operand => pending op operand.erase
  | chain items => chain (eraseItems items)
  | group inner => group inner.erase

def eraseItems : List Draft → List Draft
  | [] => []
  | item :: items => item.erase :: eraseItems items

end

end Draft

def Expr.erase : Expr → Expr
  | word _ => word ""
  | binary op left right => binary op left.erase right.erase
  | group inner => group inner.erase

section Stages

theorem ofTree_erase_tagged {t : SyntaxTree} {d : Draft} (h : Draft.ofTree t.erase = .ok d)
    (tag : Tag) :
    Draft.ofTree (SyntaxTree.tagged [(tag, t)]).erase = Draft.assemble [(tag, d)] := by
  rw [SyntaxTree.erase, SyntaxTree.eraseFields, SyntaxTree.eraseFields, ofTree_tagged h]

theorem ofItems_erase {items : List SyntaxTree} {drafts : List Draft}
    (h : List.Forall₂ (fun t d => Draft.ofTree t.erase = .ok d.erase) items drafts) :
    Draft.ofItems (SyntaxTree.eraseItems items) = .ok (Draft.eraseItems drafts) := by
  induction h with
  | nil => simp only [SyntaxTree.eraseItems, Draft.eraseItems, Draft.ofItems]
  | cons ht _ ih =>
    rw [SyntaxTree.eraseItems, Draft.eraseItems, Draft.ofItems, ht, ih]
    rfl

theorem erases_tree : TreeInvariant fun t d => Draft.ofTree t.erase = .ok d.erase where
  text s span := by simp only [SyntaxTree.erase, Draft.erase, Draft.ofTree]
  str t s h := ofTree_erase_tagged h .str
  word t s h := ofTree_erase_tagged h .word
  left t d h := ofTree_erase_tagged h .left
  paren t d h := ofTree_erase_tagged h .paren
  pair op mark s t d hmark h := by
    simp only [SyntaxTree.pair, SyntaxTree.erase, SyntaxTree.eraseFields]
    rw [← SyntaxTree.pair, ofTree_pair hmark h]
    cases op <;> rfl
  sequence items drafts h := by
    rw [SyntaxTree.erase, Draft.erase, Draft.ofTree, ofItems_erase h]
    rfl

theorem erases_draft : DraftInvariant (fun d e => d.erase.resolve = .ok e.erase) fun left items e =>
    ∀ index, Draft.resolveAfter left.erase index (Draft.eraseItems items) = .ok e.erase where
  word s := by simp only [Draft.erase, Expr.erase, Draft.resolve]
  group d e h := by
    rw [Draft.erase, Draft.resolve, h]
    rfl
  chain head left items e hhead h := by
    rw [Draft.erase, Draft.eraseItems, Draft.resolve, resolveChain_cons hhead, h]
  done left index := by rw [Draft.eraseItems, Draft.resolveAfter]
  step left op operand right items e hright h index := by
    rw [Draft.eraseItems, Draft.erase, Draft.resolveAfter, hright]
    exact h (index + 1)

theorem Denotes.erase {t : SyntaxTree} {e : Expr} (h : Denotes t e) : Denotes t.erase e.erase := by
  obtain ⟨draft, hdraft, he⟩ := h
  exact ⟨draft.erase, erases_tree.ofTree hdraft, erases_draft.resolve he⟩

end Stages

section Sql

variable (column : String)

theorem Expr.sql_erase (e : Expr) : e.erase.sql column = e.sql column := by
  induction e with
  | word text => rfl
  | binary op left right ihl ihr => rw [erase, sql, sql, ihl, ihr]
  | group inner ih => rw [erase, sql, sql, ih]

theorem Denotes.sql_eq {t t' : SyntaxTree} {e e' : Expr} (h : Denotes t e) (h' : Denotes t' e')
    (hshape : t.erase = t'.erase) : e.sql column = e'.sql column := by
  have herase : e.erase = e'.erase := h.erase.unique (hshape ▸ h'.erase)
  rw [← e.sql_erase, herase, e'.sql_erase]

def Sql.vocabulary : List String :=
  [column, " LIKE ?", " and ", " or ", "(", ")"]

theorem Sql.spaced_keyword_mem (op : Connective) :
    " " ++ op.keyword ++ " " ∈ Sql.vocabulary column := by
  cases op <;> simp [Sql.vocabulary, Connective.keyword]

theorem Expr.sql_eq_join (e : Expr) :
    ∃ pieces : List String, (∀ p ∈ pieces, p ∈ Sql.vocabulary column) ∧
      e.sql column = String.join pieces := by
  induction e with
  | word text => exact ⟨[column, " LIKE ?"], by simp [Sql.vocabulary], by simp [sql]⟩
  | binary op left right ihl ihr =>
    obtain ⟨as, has, hl⟩ := ihl
    obtain ⟨bs, hbs, hr⟩ := ihr
    refine ⟨as ++ (" " ++ op.keyword ++ " ") :: bs, ?_, ?_⟩
    · simpa [or_imp, forall_and] using ⟨has, Sql.spaced_keyword_mem column op, hbs⟩
    · rw [sql, hl, hr]
      simp [String.append_assoc]
  | group inner ih =>
    obtain ⟨as, has, h⟩ := ih
    refine ⟨"(" :: as ++ [")"], ?_, ?_⟩
    · simpa [or_imp, forall_and, Sql.vocabulary] using has
    · rw [sql, h]
      simp [String.append_assoc]

end Sql
end Condition

open Condition

/-- The condition of a query depends on the shape of its tree alone and is made of fixed texts. -/
theorem compile_sql_of_shape (c : Compiler) :
    (∀ input input' t t', c.tree input = .ok t → c.tree input' = .ok t' → t.erase = t'.erase →
      ∃ fragment fragment', c.compile input = .ok fragment ∧ c.compile input' = .ok fragment' ∧
        fragment.sql = fragment'.sql) ∧
    ∀ input fragment, c.compile input = .ok fragment →
      ∃ pieces : List String, (∀ p ∈ pieces, p ∈ Sql.vocabulary c.column) ∧
        fragment.sql = String.join pieces := by
  refine ⟨fun input input' t t' ht ht' hshape => ?_, fun input fragment h => ?_⟩
  · obtain ⟨u, e, hu, -, hreading, -, hcompile⟩ | ⟨error, hu, -⟩ := c.compile_cases input
    · obtain ⟨u', e', hu', -, hreading', -, hcompile'⟩ | ⟨error, hu', -⟩ := c.compile_cases input'
      · obtain rfl : u = t := by simpa [hu] using ht
        obtain rfl : u' = t' := by simpa [hu'] using ht'
        exact ⟨_, _, hcompile, hcompile',
          hreading.denotes.sql_eq c.column hreading'.denotes hshape⟩
      · simp [hu'] at ht'
    · simp [hu] at ht
  · obtain ⟨t, e, -, -, -, -, hcompile⟩ | ⟨error, -, hcompile⟩ := c.compile_cases input
    · obtain rfl : ⟨e.sql c.column, e.words⟩ = fragment := by simpa [hcompile] using h
      exact e.sql_eq_join c.column
    · simp [hcompile] at h

theorem compile_sql_of_shape_two_queries : ∃ t t' fragment fragment',
    (default : Compiler).tree "a (b and 'x?')" = .ok t ∧
    (default : Compiler).tree "b or (c\tand \") or 1=1\")" = .ok t' ∧ t.erase = t'.erase ∧
    (default : Compiler).compile "a (b and 'x?')" = .ok fragment ∧
    (default : Compiler).compile "b or (c\tand \") or 1=1\")" = .ok fragment' ∧
    fragment.sql = fragment'.sql ∧
    ∃ pieces : List String, (∀ p ∈ pieces, p ∈ Sql.vocabulary "column_name") ∧
      fragment.sql = String.join pieces := by
  have hok : ((default : Compiler).tree "a (b and 'x?')").isOk = true := by decide +kernel
  have hok' : ((default : Compiler).tree "b or (c\tand \") or 1=1\")").isOk = true := by
    decide +kernel
  have hshape : ((default : Compiler).tree "a (b and 'x?')").toOption.map Query.SyntaxTree.erase =
      ((default : Compiler).tree "b or (c\tand \") or 1=1\")").toOption.map
        Query.SyntaxTree.erase := by decide +kernel
  obtain ⟨t, ht⟩ := exists_eq_ok hok
  obtain ⟨t', ht'⟩ := exists_eq_ok hok'
  have herase : t.erase = t'.erase := by simpa [ht, ht', Except.toOption] using hshape
  obtain ⟨fragment, fragment', h, h', hsql⟩ :=
    (compile_sql_of_shape default).1 _ _ t t' ht ht' herase
  exact ⟨t, t', fragment, fragment', ht, ht', herase, h, h', hsql,
    (compile_sql_of_shape default).2 _ _ h⟩

end SearchFilter
