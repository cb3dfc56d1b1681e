import SearchFilter.Proofs.SqlReading
import SearchFilter.Proofs.Stages

/-! Parameters and words. The leaves that a tree holds for its words lie in the query from left to
right; reading the tree and resolving the draft keep their texts in that order, and the question marks
of the condition stand in it too. -/

namespace SearchFilter

namespace Query

open Text Phrase

def Span.slice (input : String) (span : Span) : Option String := do
  let (_, rest) ← splitAtByte span.start input.toList
  let (text, _) ← splitAtByte (span.stop - span.start) rest
  return String.ofList text

namespace SyntaxTree

mutual

/-- The leaves of a tree from left to right: all of them `inside` a word, and otherwise those that
stand in a word of the tree. -/
def leavesFrom (inside : Bool) : SyntaxTree → List (String × Span)
  | text s span => if inside then [(s, span)] else []
  | tagged fields => leavesOfFields inside fields
  | sequence items => leavesOfItems inside items

def leavesOfFields (inside : Bool) : List (Tag × SyntaxTree) → List (String × Span)
  | [] => []
  | (tag, tree) :: fields =>
    tree.leavesFrom (inside || tag = .word) ++ leavesOfFields inside fields

def leavesOfItems (inside : Bool) : List SyntaxTree → List (String × Span)
  | [] => []
  | tree :: items => tree.leavesFrom inside ++ leavesOfItems inside items

end

def wordLeaves (t : SyntaxTree) : List (String × Span) :=
  t.leavesFrom false

def wordSpans (t : SyntaxTree) : List Span :=
  t.wordLeaves.map Prod.snd

theorem leavesFrom_tagged (inside : Bool) (tag : Tag) (t : SyntaxTree) :
    (tagged [(tag, t)]).leavesFrom inside = t.leavesFrom (inside || tag = .word) := by
  simp [leavesFrom, leavesOfFields]

theorem wordLeaves_leaf (start : Nat) (cs : List Char) : (leaf start cs).wordLeaves = [] := by
  simp [leaf, wordLeaves, leavesFrom]

theorem wordLeaves_pair {op : Tag} (hop : op ≠ .word) (mark t : SyntaxTree) :
    (tagged [(op, mark), (.right, t)]).wordLeaves = mark.wordLeaves ++ t.wordLeaves := by
  simp [wordLeaves, leavesFrom, leavesOfFields, hop]

theorem wordLeaves_chain (head : SyntaxTree) (pairs : List SyntaxTree) :
    (chain head pairs).wordLeaves = head.wordLeaves ++ leavesOfItems false pairs := by
  cases pairs with
  | nil => simp [chain, wordLeaves, leavesFrom_tagged, leavesOfItems]
  | cons t ts => simp [chain, wordLeaves, leavesFrom, leavesOfFields, leavesOfItems]

theorem wordLeaves_bare (content : String) (span : Span) :
    (tagged [(.word, .text content span)]).wordLeaves = [(content, span)] := by
  simp [wordLeaves, leavesFrom, leavesOfFields]

theorem wordLeaves_quoted (content : String) (span : Span) :
    (tagged [(.word, tagged [(.str, .text content span)])]).wordLeaves = [(content, span)] := by
  simp [wordLeaves, leavesFrom, leavesOfFields]

end SyntaxTree

/-- A word of the query, as the text that stands at a span: what is between two quotes, or a bare run
that nothing continues. -/
inductive WordAt (input : String) : Span → String → Prop
  | quoted {before body after : List Char} {quote : Char} :
    isQuote quote = true → LiteralBody quote body →
    input.toList = before ++ quote :: (body ++ quote :: after) →
    WordAt input ⟨byteLength before + 1, byteLength before + 1 + byteLength body⟩
      (String.ofList body)
  | bare {before text after : List Char} :
    BareWord text → (∀ c ∈ after.head?, isBare c = false) →
    input.toList = before ++ (text ++ after) →
    WordAt input ⟨byteLength before, byteLength before + byteLength text⟩ (String.ofList text)

theorem byteLength_quote {quote : Char} (h : isQuote quote = true) : byteLength [quote] = 1 := by
  rcases isQuote_iff.mp h with rfl | rfl <;> decide

theorem slice_eq {input : String} {before text after : List Char}
    (h : input.toList = before ++ (text ++ after)) :
    Span.slice input ⟨byteLength before, byteLength before + byteLength text⟩ =
      some (String.ofList text) := by
  simp only [Span.slice, h, splitAtByte_append, Nat.add_sub_cancel_left]
  simp [splitAtByte_append]

theorem WordAt.slice_eq {input : String} {span : Span} {w : String} (h : WordAt input span w) :
    Span.slice input span = some w := by
  cases h with
  | @quoted before body after quote hquote _ hinput =>
    have hstart : byteLength before + 1 = byteLength (before ++ [quote]) := by
      rw [byteLength_append, byteLength_quote hquote]
    rw [hstart]
    exact Query.slice_eq (by simpa using hinput)
  | bare _ _ hinput => exact Query.slice_eq hinput

def WordLeaf (p : Position) (leaf : String × Span) (q : Position) : Prop :=
  ∃ t, Word p t q ∧ t.wordLeaves = [leaf]

structure Layout (p : Position) (leaves : List (String × Span)) (q : Position) : Prop where
  between : ∃ text, Between p text q
  words : ∀ leaf ∈ leaves, ∃ before r s after,
    Between p before r ∧ WordLeaf r leaf s ∧ Between s after q
  apart : leaves.Pairwise fun a b => a.2.stop < b.2.start

section Layout

variable {p q r s : Position} {t : SyntaxTree} {text : List Char} {leaf : String × Span}
  {leaves leaves' : List (String × Span)}

theorem Between.offset_lt (h : Between p text q) (hne : text ≠ []) : p.offset < q.offset := by
  obtain ⟨c, cs, rfl⟩ := List.exists_cons_of_ne_nil hne
  have hc := c.utf8Size_pos
  rw [h.offset_eq]
  simp only [byteLength, List.foldr_cons]
  omega

theorem WordLeaf.inside (h : WordLeaf p leaf q) :
    p.offset ≤ leaf.2.start ∧ leaf.2.stop ≤ q.offset := by
  obtain ⟨t, ht, hleaf⟩ := h
  cases ht with
  | quoted hquote _ hspan =>
    rw [SyntaxTree.wordLeaves_quoted] at hleaf
    obtain rfl := (List.cons.inj hleaf).1
    have hstop := hspan.offset_eq
    rw [byteLength_append, ← List.singleton_append, byteLength_append, byteLength_quote hquote]
      at hstop
    simp only
    omega
  | bare hrun _ =>
    rw [SyntaxTree.wordLeaves_bare] at hleaf
    obtain rfl := (List.cons.inj hleaf).1
    exact ⟨le_rfl, hrun.offset_eq.ge⟩

theorem WordLeaf.wordAt {input : String} {before : List Char}
    (hp : Between ⟨0, input.toList⟩ before p) (h : WordLeaf p leaf q) :
    WordAt input leaf.2 leaf.1 := by
  have hinput : input.toList = before ++ p.rest := hp.rest_eq
  have hoffset : p.offset = byteLength before := by rw [hp.offset_eq, Nat.zero_add]
  obtain ⟨t, ht, hleaf⟩ := h
  cases ht with
  | quoted hquote hbody hspan =>
    rw [SyntaxTree.wordLeaves_quoted, hoffset] at hleaf
    obtain rfl := (List.cons.inj hleaf).1
    exact .quoted hquote hbody (by simpa [hspan.rest_eq] using hinput)
  | bare hrun hword =>
    rw [SyntaxTree.wordLeaves_bare, hoffset] at hleaf
    obtain rfl := (List.cons.inj hleaf).1
    exact .bare hword hrun.maximal (by rw [hinput, hrun.rest_eq])

theorem Layout.widen {a b : List Char} (hp : Between p a q) (h : Layout q leaves r)
    (hs : Between r b s) : Layout p leaves s := by
  obtain ⟨text, htext⟩ := h.between
  refine ⟨⟨_, hp.trans (htext.trans hs)⟩, fun leaf hleaf => ?_, h.apart⟩
  obtain ⟨before, u, v, after, hbefore, hword, hafter⟩ := h.words leaf hleaf
  exact ⟨_, u, v, _, hp.trans hbefore, hword, hafter.trans hs⟩

theorem Layout.append (h : Layout p leaves q) (hgap : Between q text r) (hne : text ≠ [])
    (h' : Layout r leaves' s) : Layout p (leaves ++ leaves') s := by
  obtain ⟨a, ha⟩ := h.between
  obtain ⟨b, hb⟩ := h'.between
  have hleft := h.widen (.refl p) (hgap.trans hb)
  have hright := h'.widen (ha.trans hgap) (.refl s)
  refine ⟨hleft.between, fun leaf hleaf => ?_, List.pairwise_append.mpr ⟨h.apart, h'.apart, ?_⟩⟩
  · rcases List.mem_append.mp hleaf with hleaf | hleaf
    · exact hleft.words leaf hleaf
    · exact hright.words leaf hleaf
  · intro x hx y hy
    obtain ⟨_, _, _, _, -, hwx, hafter⟩ := h.words x hx
    obtain ⟨_, _, _, _, hbefore, hwy, -⟩ := h'.words y hy
    calc x.2.stop ≤ q.offset := hwx.inside.2.trans hafter.offset_le
      _ < r.offset := hgap.offset_lt hne
      _ ≤ y.2.start := hbefore.offset_le.trans hwy.inside.1

theorem layout_word (h : Word p t q) : Layout p t.wordLeaves q := by
  obtain ⟨text, -, hspan⟩ := Word.consumes _ _ _ h
  obtain ⟨leaf, hleaf⟩ : ∃ leaf, t.wordLeaves = [leaf] := by
    cases h with
    | quoted => exact ⟨_, SyntaxTree.wordLeaves_quoted _ _⟩
    | bare => exact ⟨_, SyntaxTree.wordLeaves_bare _ _⟩
  rw [hleaf]
  refine ⟨⟨text, hspan⟩, ?_, List.pairwise_singleton _ _⟩
  intro leaf' hmem
  obtain rfl := List.mem_singleton.mp hmem
  exact ⟨[], p, q, [], .refl p, ⟨t, h, hleaf⟩, .refl q⟩

section Operands

variable {op : Tag} {separator : Phrase} (hop : op ≠ .word) (hconsumes : Consumes separator)
  (hleaf : ∀ p t q, separator p t q → ∃ start cs, t = .leaf start cs)

include hop hconsumes hleaf

theorem layout_pairs {pairs : List SyntaxTree} (h : Layout p leaves q)
    (hpairs : Star (Pair op separator fun p t q => Layout p t.wordLeaves q) q pairs r) :
    Layout p (leaves ++ SyntaxTree.leavesOfItems false pairs) r := by
  induction hpairs generalizing leaves with
  | nil q => simpa [SyntaxTree.leavesOfItems] using h
  | cons hpair _ ih =>
    obtain ⟨hmark, hright⟩ := hpair
    obtain ⟨text, hne, hspan⟩ := hconsumes _ _ _ hmark
    obtain ⟨start, cs, rfl⟩ := hleaf _ _ _ hmark
    have hall := ih (h.append hspan hne hright)
    rw [SyntaxTree.leavesOfItems, ← SyntaxTree.wordLeaves, SyntaxTree.wordLeaves_pair hop,
      SyntaxTree.wordLeaves_leaf, List.nil_append, ← List.append_assoc]
    exact hall

theorem layout_operands (h : Operands op separator (fun p t q => Layout p t.wordLeaves q) p t q) :
    Layout p t.wordLeaves q := by
  obtain ⟨head, pairs, _, rfl, hhead, hpairs⟩ := h.exists_chain
  rw [SyntaxTree.wordLeaves_chain]
  exact layout_pairs hop hconsumes hleaf hhead hpairs

end Operands

theorem Phrase.Primary.layout (h : Primary p t q) : Layout p t.wordLeaves q := by
  refine h.induct (motive := fun p t q => Layout p t.wordLeaves q) ?_ layout_word
  intro p q r s u v before after t hopen hbefore ht hafter hclose
  have hinside := layout_operands (by decide) OrSeparator.consumes OrSeparator.eq_leaf
    (ht.mono fun _ _ _ => layout_operands (by decide) AndSeparator.consumes AndSeparator.eq_leaf)
  rw [SyntaxTree.wordLeaves, SyntaxTree.leavesFrom_tagged]
  exact hinside.widen (hopen.trans hbefore.toBetween) (hafter.toBetween.trans hclose)

theorem Phrase.OrExpr.layout (h : OrExpr p t q) : Layout p t.wordLeaves q :=
  layout_operands (by decide) OrSeparator.consumes OrSeparator.eq_leaf <|
    h.mono fun _ _ _ hand =>
      layout_operands (by decide) AndSeparator.consumes AndSeparator.eq_leaf <|
        hand.mono fun _ _ _ => Primary.layout

theorem Derives.layout {input : String} (h : Derives input t) :
    (∀ leaf ∈ t.wordLeaves, WordAt input leaf.2 leaf.1) ∧
      t.wordSpans.Pairwise fun a b => a.stop < b.start := by
  obtain ⟨q, hbefore, ht, -, -⟩ := h
  have hlayout := OrExpr.layout ht
  refine ⟨fun leaf hleaf => ?_, List.pairwise_map.mpr hlayout.apart⟩
  obtain ⟨before, r, s, after, hr, hword, -⟩ := hlayout.words leaf hleaf
  exact hword.wordAt (hbefore.toBetween.trans hr)

end Layout
end Query

namespace Condition

open Query

namespace Draft

mutual

def words : Draft → List String
  | text _ => []
  | word s => [s]
  | pending _ operand => operand.words
  | chain items => wordsOfItems items
  | group inner => inner.words

def wordsOfItems : List Draft → List String
  | [] => []
  | item :: items => item.words ++ wordsOfItems items

end

end Draft

structure Retains (t : SyntaxTree) (d : Draft) : Prop where
  words_eq : t.wordLeaves.map Prod.fst = d.words
  text_eq : ∀ s, d = .text s → (t.leavesFrom true).map Prod.fst = [s]

theorem Retains.tagged {tag : Tag} {t : SyntaxTree} {d : Draft} (h : Retains t d)
    (htag : tag ≠ .word) : Retains (.tagged [(tag, t)]) d := by
  have hfrom : ∀ inside, (SyntaxTree.tagged [(tag, t)]).leavesFrom inside = t.leavesFrom inside := by
    intro inside
    simp [SyntaxTree.leavesFrom_tagged, htag]
  refine ⟨?_, fun s hs => ?_⟩
  · rw [SyntaxTree.wordLeaves, hfrom]
    exact h.words_eq
  · rw [hfrom]
    exact h.text_eq s hs

theorem leavesOfItems_retained {items : List SyntaxTree} {drafts : List Draft}
    (h : List.Forall₂ Retains items drafts) :
    (SyntaxTree.leavesOfItems false items).map Prod.fst = Draft.wordsOfItems drafts := by
  induction h with
  | nil => simp [SyntaxTree.leavesOfItems, Draft.wordsOfItems]
  | cons ht _ ih =>
    rw [SyntaxTree.leavesOfItems, Draft.wordsOfItems, List.map_append, ih, ← ht.words_eq,
      SyntaxTree.wordLeaves]

theorem retains_tree : TreeInvariant Retains where
  text s span := by
    refine ⟨?_, fun s' h => ?_⟩
    · simp [SyntaxTree.wordLeaves, SyntaxTree.leavesFrom, Draft.words]
    · simpa [SyntaxTree.leavesFrom] using h
  str t s h := h.tagged (by decide)
  word t s h := by
    refine ⟨?_, by simp⟩
    rw [SyntaxTree.wordLeaves, SyntaxTree.leavesFrom_tagged, Draft.words]
    exact h.text_eq s rfl
  left t d h := h.tagged (by decide)
  paren t d h := ⟨(h.tagged (by decide)).words_eq.trans (by rw [Draft.words]), by simp⟩
  pair op mark s t d hmark h := by
    have htag : op.tag ≠ .word := by cases op <;> decide
    refine ⟨?_, by simp⟩
    rw [SyntaxTree.pair, SyntaxTree.wordLeaves_pair htag, List.map_append, hmark.words_eq, h.words_eq,
      Draft.words, Draft.words, List.nil_append]
  sequence items drafts h := by
    refine ⟨?_, by simp⟩
    rw [SyntaxTree.wordLeaves, SyntaxTree.leavesFrom, Draft.words]
    exact leavesOfItems_retained h

theorem retains_draft : DraftInvariant (fun d e => e.words = d.words) fun left items e =>
    e.words = left.words ++ Draft.wordsOfItems items where
  word s := by rw [Draft.words, Expr.words_word]
  group d e h := by rw [Draft.words, Expr.words_group, h]
  chain head left items e hhead h := by rw [Draft.words, Draft.wordsOfItems, h, hhead]
  done left := by rw [Draft.wordsOfItems, List.append_nil]
  step left op operand right items e hright h := by
    rw [Draft.wordsOfItems, Draft.words, h, Expr.words_binary, hright, List.append_assoc]

theorem Denotes.words_eq {t : SyntaxTree} {e : Expr} (h : Denotes t e) :
    e.words = t.wordLeaves.map Prod.fst := by
  obtain ⟨draft, hdraft, he⟩ := h
  rw [retains_draft.resolve he, (retains_tree.ofTree hdraft).words_eq]

namespace Sql

/-- Puts texts in the places of the question marks, from left to right. There have to be as many of
the one as of the other. -/
def substitute : List Char → List (List Char) → Option (List Char)
  | [], [] => some []
  | [], _ :: _ => none
  | '?' :: _, [] => none
  | '?' :: cs, value :: values => (substitute cs values).map (value ++ ·)
  | c :: cs, values => (substitute cs values).map (c :: ·)

theorem substitute_cons {c : Char} (hc : c ≠ '?') (cs : List Char) (values : List (List Char)) :
    substitute (c :: cs) values = (substitute cs values).map (c :: ·) := by
  cases values <;> simp [substitute, hc]

theorem substitute_append {a : List Char} (h : '?' ∉ a) (cs : List Char)
    (values : List (List Char)) :
    substitute (a ++ cs) values = (substitute cs values).map (a ++ ·) := by
  induction a with
  | nil => simp
  | cons c a ih =>
    rw [List.mem_cons, not_or] at h
    rw [List.cons_append, substitute_cons (Ne.symm h.1), ih h.2, Option.map_map]
    rfl

theorem count_eq_of_substitute {cs out : List Char} {values : List (List Char)}
    (h : substitute cs values = some out) : cs.count '?' = values.length := by
  fun_induction substitute cs values generalizing out with
  | case1 => rfl
  | case2 | case3 => simp at h
  | case4 cs value values ih =>
    obtain ⟨out', hout, -⟩ := Option.map_eq_some_iff.mp h
    simp [ih hout]
  | case5 c cs values hnil hcons ih =>
    obtain ⟨out', hout, -⟩ := Option.map_eq_some_iff.mp h
    have hc : c ≠ '?' := by
      rintro rfl
      cases values with
      | nil => exact hnil rfl rfl
      | cons value values => exact hcons value values rfl rfl
    simp [ih hout, hc]

end Sql

def Expr.inPlace (column : String) (shown : String → List Char) : Expr → List Char
  | word text => column.toList ++ (" LIKE ".toList ++ shown text)
  | binary op left right => left.inPlace column shown ++ (op.link ++ right.inPlace column shown)
  | group inner => '(' :: (inner.inPlace column shown ++ [')'])

theorem Sql.substitute_sql {column : String} (hcolumn : '?' ∉ column.toList) (shown : String → List Char)
    (e : Expr) (cs : List Char) (values : List (List Char)) :
    substitute ((e.sql column).toList ++ cs) (e.words.map shown ++ values) =
      (substitute cs values).map (e.inPlace column shown ++ ·) := by
  induction e generalizing cs values with
  | word text =>
    have hword : ((Expr.word text).sql column).toList ++ cs =
        column.toList ++ (" LIKE ".toList ++ '?' :: cs) := by simp [Expr.sql]
    rw [hword, substitute_append hcolumn, substitute_append (by decide), Expr.words_word]
    simp [substitute, Expr.inPlace, Function.comp_def]
  | binary op left right ihl ihr =>
    have hlink : '?' ∉ op.link := by cases op <;> decide
    rw [toList_sql_binary, Expr.words_binary, List.map_append, List.append_assoc, ihl,
      substitute_append hlink, ihr]
    simp [Expr.inPlace, Function.comp_def]
  | group inner ih =>
    have hgroup : ((Expr.group inner).sql column).toList ++ cs =
        ['('] ++ ((inner.sql column).toList ++ ([')'] ++ cs)) := by simp [Expr.sql]
    rw [hgroup, Expr.words_group, substitute_append (by decide), ih, substitute_append (by decide)]
    simp [Expr.inPlace, Function.comp_def]

end Condition

open Query Condition

/-- The parameters of a condition are the words of the query from left to right, and its question
marks stand for them in that order. -/
theorem compile_params (c : Compiler) (input : String) (fragment : Fragment)
    (h : c.compile input = .ok fragment) :
    ∃ t e, c.tree input = .ok t ∧ c.expression input = .ok e ∧ fragment.params = e.words ∧
      t.wordSpans.map (Span.slice input) = fragment.params.map some ∧
      List.Forall₂ (WordAt input) t.wordSpans fragment.params ∧
      (t.wordSpans.Pairwise fun a b => a.stop < b.start) ∧
      fragment.sql.toList.count '?' = fragment.params.length ∧
      ∀ shown : String → List Char, Sql.substitute fragment.sql.toList (fragment.params.map shown) =
        some (e.inPlace c.column shown) := by
  obtain ⟨t, e, ht, hderives, hreading, he, hcompile⟩ | ⟨error, -, hcompile⟩ :=
    c.compile_cases input
  · obtain rfl : ⟨e.sql c.column, e.words⟩ = fragment := by simpa [hcompile] using h
    obtain ⟨hwords, hapart⟩ := hderives.layout
    have hparams : e.words = t.wordLeaves.map Prod.fst := hreading.denotes.words_eq
    -- No question mark belongs to the column, so each stands for a word.
    have hcolumn : '?' ∉ c.column.toList := fun hmark =>
      absurd (isNamePart_or_dot c.isColumn_column hmark) (by decide)
    have hplace : ∀ shown : String → List Char,
        Sql.substitute (e.sql c.column).toList (e.words.map shown) =
          some (e.inPlace c.column shown) := by
      intro shown
      simpa [Sql.substitute] using Sql.substitute_sql hcolumn shown e [] []
    have hcount := Sql.count_eq_of_substitute (hplace String.toList)
    refine ⟨t, e, ht, he, rfl, ?_, ?_, hapart, by simpa using hcount, hplace⟩
    · rw [hparams, SyntaxTree.wordSpans, List.map_map, List.map_map]
      exact List.map_congr_left fun leaf hleaf => (hwords leaf hleaf).slice_eq
    · rw [hparams, SyntaxTree.wordSpans, List.forall₂_map_left_iff, List.forall₂_map_right_iff,
        List.forall₂_same]
      exact hwords
  · simp [hcompile] at h

theorem compile_params_mixed : ∃ fragment,
    (default : Compiler).compile "''or (ü? and \"a\\\"b\" ) c" = .ok fragment ∧
      fragment.params = ["", "ü?", "a\\\"b", "c"] ∧
      ∃ t e, (default : Compiler).tree "''or (ü? and \"a\\\"b\" ) c" = .ok t ∧
        (default : Compiler).expression "''or (ü? and \"a\\\"b\" ) c" = .ok e ∧
        fragment.params = e.words ∧
        t.wordSpans.map (Span.slice "''or (ü? and \"a\\\"b\" ) c") = fragment.params.map some ∧
        List.Forall₂ (WordAt "''or (ü? and \"a\\\"b\" ) c") t.wordSpans fragment.params ∧
        (t.wordSpans.Pairwise fun a b => a.stop < b.start) ∧
        fragment.sql.toList.count '?' = fragment.params.length ∧
        ∀ shown : String → List Char, Sql.substitute fragment.sql.toList
          (fragment.params.map shown) = some (e.inPlace "column_name" shown) := by
  have hparams : ((default : Compiler).compile "''or (ü? and \"a\\\"b\" ) c").toOption.map
      Fragment.params = some ["", "ü?", "a\\\"b", "c"] := by decide +kernel
  have hok : ((default : Compiler).compile "''or (ü? and \"a\\\"b\" ) c").isOk = true := by
    decide +kernel
  obtain ⟨fragment, h⟩ := exists_eq_ok hok
  exact ⟨fragment, h, by simpa [h, Except.toOption] using hparams, compile_params _ _ _ h⟩

end SearchFilter
