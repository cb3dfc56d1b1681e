import Mathlib.Data.List.Forall2
import SearchFilter.Proofs.Parsing

/-! The expression that a parse tree stands for. Every tree of the grammar has one; its connectives
bind as the grammar says, and its words are those that a query can hold. -/

namespace SearchFilter

open Query

@[simp] def Connective.level : Connective → Nat
  | and => 1
  | or => 2

def Connective.tag : Connective → Tag
  | and => .and
  | or => .or

def Connective.link (op : Connective) : List Char :=
  ' ' :: op.keyword.toList ++ [' ']

def Writable (text : List Char) : Prop :=
  BareWord text ∨ ∃ quote, isQuote quote = true ∧ LiteralBody quote text

namespace Condition

namespace Expr

@[simp] def level : Expr → Nat
  | binary op _ _ => op.level
  | _ => 0

theorem level_le (e : Expr) : e.level ≤ Connective.or.level := by
  cases e with
  | binary op => cases op <;> simp
  | _ => simp

/-- No right operand binds as loosely as its connective, and no left operand more loosely. -/
def WellTiered : Expr → Prop
  | word _ => True
  | binary op left right =>
    left.level ≤ op.level ∧ right.level < op.level ∧ left.WellTiered ∧ right.WellTiered
  | group inner => inner.WellTiered

def nesting : Expr → Nat
  | word _ => 0
  | binary _ left right => max left.nesting right.nesting
  | group inner => inner.nesting + 1

theorem wordsOnto_eq (e : Expr) (rest : List String) : e.wordsOnto rest = e.words ++ rest := by
  unfold words
  induction e generalizing rest with
  | word text => rfl
  | binary op left right ihl ihr =>
    simp only [wordsOnto]
    rw [ihl (right.wordsOnto rest), ihl (right.wordsOnto []), ihr rest, List.append_assoc]
  | group inner ih => exact ih rest

theorem words_word (text : String) : (word text).words = [text] := rfl

theorem words_binary (op : Connective) (left right : Expr) :
    (binary op left right).words = left.words ++ right.words := by
  rw [words, wordsOnto, wordsOnto_eq, ← words]

theorem words_group (inner : Expr) : (group inner).words = inner.words := rfl

end Expr

def Denotes (t : SyntaxTree) (e : Expr) : Prop :=
  ∃ draft, Draft.ofTree t = .ok draft ∧ draft.resolve = .ok e

def PairDenotes (op : Connective) (t : SyntaxTree) (e : Expr) : Prop :=
  ∃ draft, Draft.ofTree t = .ok (.pending op draft) ∧ draft.resolve = .ok e

section Denotes

variable {t head : SyntaxTree} {e : Expr} {op : Connective} {pairs : List SyntaxTree}
  {es : List Expr} {start : Nat} {text : List Char}

theorem ofTree_leaf (start : Nat) (text : List Char) :
    Draft.ofTree (.leaf start text) = .ok (.text (String.ofList text)) := by
  rw [SyntaxTree.leaf, Draft.ofTree]

theorem ofTree_tagged {tag : Tag} {draft : Draft} (h : Draft.ofTree t = .ok draft) :
    Draft.ofTree (.tagged [(tag, t)]) = Draft.assemble [(tag, draft)] := by
  simp only [Draft.ofTree, Draft.ofFields, h]
  rfl

theorem ofTree_pair {tag : Tag} {mark right : SyntaxTree} {first second : Draft}
    (hm : Draft.ofTree mark = .ok first) (hr : Draft.ofTree right = .ok second) :
    Draft.ofTree (.pair tag mark right) = Draft.assemble [(tag, first), (.right, second)] := by
  simp only [SyntaxTree.pair, Draft.ofTree, Draft.ofFields, hm, hr]
  rfl

theorem denotes_bare :
    Denotes (.tagged [(.word, .leaf start text)]) (.word (String.ofList text)) :=
  ⟨.word (String.ofList text), ofTree_tagged (ofTree_leaf start text), rfl⟩

theorem denotes_quoted : Denotes (.tagged [(.word, .tagged [(.str, .leaf start text)])])
    (.word (String.ofList text)) := by
  have hstr : Draft.ofTree (.tagged [(.str, .leaf start text)]) =
      .ok (.text (String.ofList text)) := ofTree_tagged (ofTree_leaf start text)
  exact ⟨.word (String.ofList text), ofTree_tagged hstr, rfl⟩

theorem Denotes.group (h : Denotes t e) : Denotes (.tagged [(.paren, t)]) (.group e) := by
  obtain ⟨draft, hdraft, he⟩ := h
  refine ⟨.group draft, ofTree_tagged hdraft, ?_⟩
  simp only [Draft.resolve, he]
  rfl

theorem Denotes.pair (h : Denotes t e) (op : Connective) :
    PairDenotes op (.pair op.tag (.leaf start text) t) e := by
  obtain ⟨draft, hdraft, he⟩ := h
  refine ⟨draft, ?_, he⟩
  rw [ofTree_pair (ofTree_leaf start text) hdraft]
  cases op <;> rfl

theorem ofItems_pairs (h : List.Forall₂ (PairDenotes op) pairs es) :
    ∃ drafts, Draft.ofItems pairs = .ok drafts ∧
      ∀ left index, Draft.resolveAfter left index drafts = .ok (es.foldl (.binary op) left) := by
  induction h with
  | nil => exact ⟨[], by rw [Draft.ofItems], fun left index => by rw [Draft.resolveAfter]; rfl⟩
  | cons hpair _ ih =>
    obtain ⟨draft, hdraft, he⟩ := hpair
    obtain ⟨drafts, hdrafts, hresolve⟩ := ih
    refine ⟨.pending op draft :: drafts, ?_, fun left index => ?_⟩
    · simp only [Draft.ofItems, hdraft, hdrafts]
      rfl
    · simp only [Draft.resolveAfter, he]
      exact hresolve _ _

theorem resolveChain_cons {draft : Draft} {drafts : List Draft} (h : draft.resolve = .ok e) :
    Draft.resolveChain (draft :: drafts) = Draft.resolveAfter e 1 drafts := by
  cases draft with
  | pending op operand => simp [Draft.resolve] at h
  | _ => simp only [Draft.resolveChain, h]; rfl

theorem Denotes.chain (h : Denotes head e) (hs : List.Forall₂ (PairDenotes op) pairs es) :
    Denotes (.chain head pairs) (es.foldl (.binary op) e) := by
  obtain ⟨draft, hdraft, he⟩ := h
  cases hs with
  | nil => exact ⟨draft, ofTree_tagged hdraft, he⟩
  | cons hpair hpairs =>
    obtain ⟨drafts, hdrafts, hresolve⟩ := ofItems_pairs (.cons hpair hpairs)
    refine ⟨.chain (draft :: drafts), ?_, ?_⟩
    · simp only [SyntaxTree.chain, Draft.ofTree]
      rw [Draft.ofItems, ofTree_tagged hdraft, hdrafts]
      rfl
    · rw [Draft.resolve, resolveChain_cons he, hresolve]

end Denotes

/-- An expression that some query stands for. -/
structure Expr.Legal (e : Expr) : Prop where
  tiered : e.WellTiered
  writable : ∀ w ∈ e.words, Writable w.toList

theorem Expr.legal_binary_iff {op : Connective} {left right : Expr} :
    (Expr.binary op left right).Legal ↔
      left.level ≤ op.level ∧ right.level < op.level ∧ left.Legal ∧ right.Legal := by
  constructor
  · rintro ⟨⟨hll, hrl, hl, hr⟩, hw⟩
    simp only [words_binary, List.mem_append] at hw
    exact ⟨hll, hrl, ⟨hl, fun w h => hw w (.inl h)⟩, ⟨hr, fun w h => hw w (.inr h)⟩⟩
  · rintro ⟨hll, hrl, hl, hr⟩
    refine ⟨⟨hll, hrl, hl.tiered, hr.tiered⟩, fun w hw => ?_⟩
    rw [words_binary, List.mem_append] at hw
    exact hw.elim (hl.writable w) (hr.writable w)

structure Reading (t : SyntaxTree) (e : Expr) : Prop where
  denotes : Denotes t e
  legal : e.Legal
  nesting_eq : e.nesting = t.nesting

def TighterThan (op : Connective) : Phrase :=
  fun _ t _ => ∃ e, Reading t e ∧ e.level < op.level

section Reading

variable {p q : Position} {t : SyntaxTree} (op : Connective) {separator : Phrase}
  {pairs : List SyntaxTree}

theorem reading_pairs (hs : ∀ p t q, separator p t q → ∃ start text, t = .leaf start text)
    (hpairs : Star (Pair op.tag separator (TighterThan op)) p pairs q) {left : Expr}
    (hl : left.Legal) (hll : left.level ≤ op.level) :
    ∃ es, List.Forall₂ (PairDenotes op) pairs es ∧ (es.foldl (.binary op) left).Legal ∧
      (es.foldl (.binary op) left).level ≤ op.level ∧
      (es.foldl (.binary op) left).nesting = max left.nesting (SyntaxTree.nestingItems pairs) := by
  induction hpairs generalizing left with
  | nil p => exact ⟨[], .nil, hl, hll, by simp [SyntaxTree.nestingItems]⟩
  | cons hpair _ ih =>
    obtain ⟨hmark, e, he, hlevel⟩ := hpair
    obtain ⟨start, text, rfl⟩ := hs _ _ _ hmark
    have hbinary := Expr.legal_binary_iff.mpr ⟨hll, hlevel, hl, he.legal⟩
    obtain ⟨es, hes, hlegal, hleft, hnesting⟩ := ih hbinary le_rfl
    refine ⟨e :: es, .cons (he.denotes.pair op) hes, hlegal, hleft, ?_⟩
    have htag : op.tag ≠ .paren := by cases op <;> decide
    rw [List.foldl_cons, hnesting, SyntaxTree.nestingItems, SyntaxTree.nesting_pair htag,
      Expr.nesting, he.nesting_eq]
    simp [SyntaxTree.leaf, max_assoc]

theorem reading_operands (hs : ∀ p t q, separator p t q → ∃ start text, t = .leaf start text)
    (h : Operands op.tag separator (TighterThan op) p t q) :
    ∃ e, Reading t e ∧ e.level ≤ op.level := by
  obtain ⟨head, pairs, _, rfl, ⟨e, he, hlevel⟩, hpairs⟩ := h.exists_chain
  obtain ⟨es, hes, hlegal, hleft, hnesting⟩ := reading_pairs op hs hpairs he.legal hlevel.le
  refine ⟨_, ⟨he.denotes.chain hes, hlegal, ?_⟩, hleft⟩
  rw [hnesting, he.nesting_eq, SyntaxTree.nesting_chain]

end Reading
end Condition

namespace Query.Phrase

open Condition

variable {p q : Position} {t : SyntaxTree}

theorem OrSeparator.eq_leaf (p : Position) (t : SyntaxTree) (q : Position)
    (h : OrSeparator p t q) : ∃ start text, t = .leaf start text := by
  cases h <;> exact ⟨_, _, rfl⟩

theorem AndSeparator.eq_leaf (p : Position) (t : SyntaxTree) (q : Position)
    (h : AndSeparator p t q) : ∃ start text, t = .leaf start text := by
  obtain ⟨⟩ := h
  exact ⟨_, _, rfl⟩

theorem Word.reading (h : Word p t q) : TighterThan .and p t q := by
  cases h with
  | @quoted _ _ quote body hquote hbody hspan =>
    refine ⟨.word (String.ofList body), ⟨denotes_quoted, ⟨trivial, ?_⟩, ?_⟩, ?_⟩
    · simpa [Expr.words_word] using .inr ⟨quote, hquote, hbody⟩
    · simp [Expr.nesting]
    · simp
  | @bare _ _ text hrun hword =>
    refine ⟨.word (String.ofList text), ⟨denotes_bare, ⟨trivial, ?_⟩, ?_⟩, ?_⟩
    · simpa [Expr.words_word] using .inl hword
    · simp [Expr.nesting]
    · simp

theorem orExpr_reading (h : Operands .or OrSeparator
    (Operands .and AndSeparator (TighterThan .and)) p t q) : ∃ e, Reading t e := by
  have hand : ∀ p t q, Operands .and AndSeparator (TighterThan .and) p t q →
      TighterThan .or p t q := by
    intro p t q h
    obtain ⟨e, he, hlevel⟩ := reading_operands .and AndSeparator.eq_leaf h
    exact ⟨e, he, Nat.lt_succ_of_le hlevel⟩
  obtain ⟨e, he, -⟩ := reading_operands .or OrSeparator.eq_leaf (h.mono hand)
  exact ⟨e, he⟩

theorem Primary.reading (h : Primary p t q) : TighterThan .and p t q := by
  apply h.induct
  · intro p q r s u v before after t _ _ ht _ _
    obtain ⟨e, he⟩ := orExpr_reading ht
    refine ⟨.group e, ⟨he.denotes.group, ⟨he.legal.tiered, he.legal.writable⟩, ?_⟩, ?_⟩
    · simp [Expr.nesting, he.nesting_eq]
    · simp
  · exact Word.reading

theorem OrExpr.reading (h : OrExpr p t q) : ∃ e, Reading t e :=
  orExpr_reading (h.mono fun _ _ _ h => h.mono fun _ _ _ => Primary.reading)

end Query.Phrase

open Condition Phrase

theorem exists_reading {input : String} {t : SyntaxTree} (h : Derives input t) :
    ∃ e, Reading t e := by
  obtain ⟨q, -, ht, -, -⟩ := h
  exact OrExpr.reading ht

theorem derives_of_parse {input : String} {maxDepth : Nat} {t : SyntaxTree}
    (h : parse input maxDepth = .ok t) : Derives input t ∧ t.nesting ≤ maxDepth := by
  by_cases hdepth : maxDepth ≤ depthLimit
  · exact (parse_eq_ok_iff_derives hdepth).mp h
  · rw [parse, if_pos (Nat.not_le.mp hdepth)] at h
    cases h

theorem Condition.Denotes.stages {t : SyntaxTree} {e : Expr} (h : Denotes t e) :
    ∃ draft, draftOf t = .ok draft ∧ resolve draft = .ok e := by
  obtain ⟨draft, hdraft, he⟩ := h
  exact ⟨draft, by rw [draftOf, hdraft]; rfl, by rw [resolve, he]; rfl⟩

theorem parse_ne_internal (input : String) (maxDepth : Nat) (cause : StructureError) :
    parse input maxDepth ≠ .error (.internal cause) := by
  unfold parse
  split
  · simp
  · split <;> simp

namespace Compiler

variable (c : Compiler) {input : String}

theorem expression_eq_error {error : QueryError} (h : c.tree input = .error error) :
    c.expression input = .error error := by
  rw [expression, h]
  rfl

theorem expression_eq_ok {t : SyntaxTree} {e : Expr} (h : c.tree input = .ok t)
    (he : Denotes t e) : c.expression input = .ok e := by
  obtain ⟨draft, hdraft, he⟩ := he.stages
  rw [expression, h]
  change (draftOf t >>= resolve) = _
  rw [hdraft]
  exact he

theorem expression_cases (input : String) :
    (∃ t e, c.tree input = .ok t ∧ Derives input t ∧ t.nesting ≤ c.maxDepth ∧ Reading t e ∧
      c.expression input = .ok e) ∨
    ∃ error, c.tree input = .error error ∧ c.expression input = .error error := by
  cases h : c.tree input with
  | ok t =>
    obtain ⟨hderives, hnesting⟩ := derives_of_parse h
    obtain ⟨e, he⟩ := exists_reading hderives
    exact .inl ⟨t, e, rfl, hderives, hnesting, he, c.expression_eq_ok h he.denotes⟩
  | error error => exact .inr ⟨error, rfl, c.expression_eq_error h⟩

theorem compile_eq_map (input : String) :
    c.compile input = (c.expression input).map (Expr.render c.column) := by
  unfold compile
  cases c.expression input <;> rfl

end Compiler

/-- No query makes a stage fail for a reason that is not the query's. -/
theorem never_internal :
    (∀ input maxDepth t, parse input maxDepth = .ok t →
      ∃ draft e, draftOf t = .ok draft ∧ resolve draft = .ok e) ∧
    ∀ (c : Compiler) (input : String) (cause : StructureError),
      c.tree input ≠ .error (.internal cause) ∧ c.expression input ≠ .error (.internal cause) ∧
        c.compile input ≠ .error (.internal cause) := by
  refine ⟨fun input maxDepth t h => ?_, fun c input cause => ?_⟩
  · obtain ⟨e, he⟩ := exists_reading (derives_of_parse h).1
    obtain ⟨draft, hdraft, hresolve⟩ := he.denotes.stages
    exact ⟨draft, e, hdraft, hresolve⟩
  · have htree : c.tree input ≠ .error (.internal cause) := parse_ne_internal _ _ _
    rw [c.compile_eq_map]
    obtain ⟨t, e, -, -, -, -, he⟩ | ⟨error, herror, he⟩ := c.expression_cases input
    · simp [htree, he, Except.map]
    · rw [herror] at htree
      simpa [herror, he, Except.map] using htree

theorem never_internal_mixed : ∃ t draft e, parse "a \"or\" and (b c)" 1 = .ok t ∧
    draftOf t = .ok draft ∧ resolve draft = .ok e := by
  have hok : (parse "a \"or\" and (b c)" 1).isOk = true := by decide +kernel
  obtain ⟨t, ht⟩ := exists_eq_ok hok
  obtain ⟨draft, e, hdraft, he⟩ := never_internal.1 _ _ _ ht
  exact ⟨t, draft, e, ht, hdraft, he⟩

end SearchFilter
