import SearchFilter.Proofs.Meaning

/-! Writing expressions as queries. A legal expression has a canonical text, and reading that text
gives the expression back; so the legal expressions are exactly those that queries stand for. -/

namespace SearchFilter

namespace Query

open Text

variable {p q : Position} {text : List Char}

def isLiteralBody (quote : Char) : List Char → Bool
  | [] => true
  | ['\\'] => false
  | '\\' :: _ :: cs => isLiteralBody quote cs
  | c :: cs => c != quote && isLiteralBody quote cs

theorem isLiteralBody_iff {quote : Char} :
    isLiteralBody quote text = true ↔ LiteralBody quote text := by
  constructor
  · intro h
    fun_induction isLiteralBody quote text with
    | case1 => exact .nil
    | case2 => cases h
    | case3 c cs ih => exact .escaped c (ih h)
    | case4 c cs hone hpair ih =>
      simp only [Bool.and_eq_true, bne_iff_ne] at h
      refine .plain h.1 ?_ (ih h.2)
      rintro rfl
      cases cs with
      | nil => exact hone rfl rfl
      | cons d ds => exact hpair d ds rfl rfl
  · intro h
    induction h with
    | nil => rfl
    | escaped c _ ih => simpa [isLiteralBody] using ih
    | @plain c cs hc hslash _ ih => cases cs <;> simp_all [isLiteralBody]

instance (quote : Char) (text : List Char) : Decidable (LiteralBody quote text) :=
  decidable_of_iff _ isLiteralBody_iff

theorem bareWord_iff : (text.all isBare && isWord text) = true ↔ BareWord text := by
  rw [Bool.and_eq_true, List.all_eq_true, Scan.isWord_iff]
  exact ⟨fun ⟨hbare, hne, hquote, hkeyword⟩ => ⟨hne, hbare, hquote, hkeyword⟩,
    fun h => ⟨h.bare, h.nonempty, h.unquoted, h.unreserved⟩⟩

instance (text : List Char) : Decidable (BareWord text) :=
  decidable_of_iff _ bareWord_iff

/-- A word with quotes around it where it needs them, double ones if they will do. -/
def spell (text : List Char) : List Char :=
  if BareWord text then text
  else if LiteralBody '"' text then '"' :: text ++ ['"']
  else '\'' :: text ++ ['\'']

theorem word_of_spell (h : Writable text) (hspan : Between p (spell text) q)
    (hq : ∀ c ∈ q.rest.head?, isBare c = false) :
    ∃ t, Phrase.Word p t q ∧ Condition.Denotes t (.word (String.ofList text)) := by
  unfold spell at hspan
  split at hspan
  · next hword => exact ⟨_, .bare ⟨hspan, hword.bare, hq⟩ hword, Condition.denotes_bare⟩
  · next hword =>
    split at hspan
    · next hbody => exact ⟨_, .quoted (by decide) hbody hspan, Condition.denotes_quoted⟩
    · next hbody =>
      obtain ⟨quote, hquote, htext⟩ := h.resolve_left hword
      obtain rfl | rfl := isQuote_iff.mp hquote
      · exact absurd htext hbody
      · exact ⟨_, .quoted hquote htext hspan, Condition.denotes_quoted⟩

theorem Between.split {a b : List Char} (h : Between p (a ++ b) q) :
    ∃ r, Between p a r ∧ Between r b q := by
  have ha : Between p a (p.advance a) := between_advance ⟨b ++ q.rest, by simp [h.rest_eq]⟩
  have hrest : a ++ (p.advance a).rest = a ++ (b ++ q.rest) := by
    rw [← ha.rest_eq, h.rest_eq, List.append_assoc]
  refine ⟨p.advance a, ha, List.append_cancel_left hrest, ?_⟩
  rw [h.offset_eq, ha.offset_eq, byteLength_append, Nat.add_assoc]

theorem link_split {op : Connective} (h : Between p op.link q) :
    ∃ r s, Gap p [' '] r ∧ BareRun r op.keyword.toList s ∧ Gap s [' '] q := by
  obtain ⟨r, hbefore, h⟩ := Between.split (a := [' ']) h
  obtain ⟨s, hname, hafter⟩ := h.split
  exact ⟨r, s, ⟨hbefore, blank_space⟩, ⟨hname, bare_keyword op, hafter.forall_head? (by decide)⟩,
    ⟨hafter, blank_space⟩⟩

theorem orSeparator_of_link (h : Between p Connective.or.link q) :
    ∃ start text, Phrase.OrSeparator p (.leaf start text) q := by
  obtain ⟨r, s, hbefore, hname, hafter⟩ := link_split h
  exact ⟨_, _, .spelled hbefore hname hafter⟩

theorem andSeparator_of_link (h : Between p Connective.and.link q) :
    ∃ start text, Phrase.AndSeparator p (.leaf start text) q := by
  obtain ⟨r, s, hbefore, hname, hafter⟩ := link_split h
  exact ⟨_, _, .mk hbefore (by simp) hname hafter (by simp)⟩

end Query

namespace Condition

open Query Phrase

def Expr.canonical : Expr → List Char
  | word text => spell text.toList
  | binary op left right => left.canonical ++ op.link ++ right.canonical
  | group inner => '(' :: inner.canonical ++ [')']

def Written (item : Phrase) (p : Position) (e : Expr) (q : Position) : Prop :=
  ∃ t, item p t q ∧ Denotes t e

def WrittenList (op : Connective) (separator operand : Phrase) (p : Position) (e : Expr)
    (q : Position) : Prop :=
  ∃ r first es head pairs, operand p head r ∧ Denotes head first ∧
    Star (Pair op.tag separator operand) r pairs q ∧ List.Forall₂ (PairDenotes op) pairs es ∧
    es.foldl (.binary op) first = e

section Written

variable {op : Connective} {separator operand : Phrase} {p q r s : Position} {e left right : Expr}

theorem Written.single (h : Written operand p e q) : WrittenList op separator operand p e q := by
  obtain ⟨t, ht, he⟩ := h
  exact ⟨q, e, [], t, [], ht, he, .nil q, .nil, rfl⟩

theorem WrittenList.written (h : WrittenList op separator operand p e q) :
    Written (Operands op.tag separator operand) p e q := by
  obtain ⟨r, first, es, head, pairs, hhead, hfirst, hpairs, hes, rfl⟩ := h
  exact ⟨_, .of_star hhead hpairs, hfirst.chain hes⟩

theorem WrittenList.snoc (h : WrittenList op separator operand p left q)
    (hs : ∃ start text, separator q (.leaf start text) r) (hr : Written operand r right s) :
    WrittenList op separator operand p (.binary op left right) s := by
  obtain ⟨mid, first, es, head, pairs, hhead, hfirst, hpairs, hes, rfl⟩ := h
  obtain ⟨start, text, hmark⟩ := hs
  obtain ⟨t, ht, he⟩ := hr
  refine ⟨mid, first, es ++ [right], head, pairs ++ [.pair op.tag (.leaf start text) t], hhead,
    hfirst, hpairs.append (.cons ⟨hmark, ht⟩ (.nil s)), ?_, by simp⟩
  exact List.rel_append hes (.cons (he.pair op) .nil)

end Written

section Canonical

variable {p q : Position} {e : Expr}

/-- The expression `e` is written between two places so that it may be an operand on level `n`. -/
def WrittenAt : Nat → Position → Expr → Position → Prop
  | 0 => Written Primary
  | 1 => WrittenList .and AndSeparator Primary
  | _ => WrittenList .or OrSeparator AndExpr

theorem WrittenAt.mono {m n : Nat} (hmn : m ≤ n) (h : WrittenAt m p e q) : WrittenAt n p e q := by
  induction hmn with
  | refl => exact h
  | @step n _ ih =>
    match n, ih with
    | 0, ih => exact ih.single
    | 1, ih => exact ih.written.single
    | _ + 2, ih => exact ih

theorem written_canonical (h : e.Legal) (hspan : Between p e.canonical q)
    (hq : ∀ c ∈ q.rest.head?, isBare c = false) : WrittenAt e.level p e q := by
  induction e generalizing p q with
  | word text =>
    obtain ⟨t, ht, he⟩ := word_of_spell (h.writable text (by simp [Expr.words_word])) hspan hq
    rw [String.ofList_toList] at he
    exact ⟨t, .word ht, he⟩
  | binary op left right ihl ihr =>
    obtain ⟨hleft, hright, hl, hr⟩ := Expr.legal_binary_iff.mp h
    obtain ⟨s, hspan, hspanr⟩ := hspan.split
    obtain ⟨r, hspanl, hlink⟩ := hspan.split
    -- The connective has a blank on its left, where a bare word ends.
    have hwl := (ihl hl hspanl (hlink.forall_head? (by decide))).mono hleft
    have hwr := (ihr hr hspanr hq).mono (Nat.le_pred_of_lt hright)
    cases op with
    | and => exact WrittenList.snoc hwl (andSeparator_of_link hlink) hwr
    | or => exact WrittenList.snoc hwl (orSeparator_of_link hlink) (WrittenList.written hwr)
  | group inner ih =>
    obtain ⟨r, hopen, hspan⟩ := Between.split (a := ['(']) hspan
    obtain ⟨s, hinner, hclose⟩ := hspan.split
    have hwritten := ih ⟨h.tiered, h.writable⟩ hinner (hclose.forall_head? (by decide))
    have hlevel := hwritten.mono inner.level_le
    obtain ⟨t, ht, he⟩ := WrittenList.written hlevel
    exact ⟨_, .group hopen (.refl r) ht (.refl s) hclose, he.group⟩

theorem derives_canonical (h : e.Legal) :
    ∃ t, Derives (String.ofList e.canonical) t ∧ Denotes t e := by
  have hspan : Between ⟨0, e.canonical⟩ e.canonical ⟨Text.byteLength e.canonical, []⟩ :=
    ⟨by simp, by simp⟩
  have hlevel := (written_canonical h hspan (by simp)).mono e.level_le
  obtain ⟨t, ht, he⟩ := WrittenList.written hlevel
  exact ⟨t, ⟨_, .mk (by simpa using .refl _) ht (.refl _) rfl⟩, he⟩

theorem Denotes.unique {t : SyntaxTree} {e e' : Expr} (h : Denotes t e) (h' : Denotes t e') :
    e = e' := by
  obtain ⟨draft, hdraft, he⟩ := h
  obtain ⟨draft', hdraft', he'⟩ := h'
  obtain rfl : draft = draft' := by simpa [hdraft] using hdraft'
  simpa [he] using he'

end Canonical
end Condition

open Condition

theorem expression_image (c : Compiler) (e : Expr) :
    ((∃ input, c.expression input = .ok e) ↔
      e.WellTiered ∧ (∀ w ∈ e.words, Writable w.toList) ∧ e.nesting ≤ c.maxDepth) ∧
    (c.expression (String.ofList e.canonical) = .ok e ↔
      e.WellTiered ∧ (∀ w ∈ e.words, Writable w.toList) ∧ e.nesting ≤ c.maxDepth) := by
  have hread : ∀ input, c.expression input = .ok e →
      e.WellTiered ∧ (∀ w ∈ e.words, Writable w.toList) ∧ e.nesting ≤ c.maxDepth := by
    intro input h
    obtain ⟨t, e', -, -, hnesting, hreading, he⟩ | ⟨error, -, he⟩ := c.expression_cases input
    · obtain rfl : e' = e := by simpa [he] using h
      exact ⟨hreading.legal.tiered, hreading.legal.writable, hreading.nesting_eq.trans_le hnesting⟩
    · simp [he] at h
  have hwrite : e.WellTiered ∧ (∀ w ∈ e.words, Writable w.toList) ∧ e.nesting ≤ c.maxDepth →
      c.expression (String.ofList e.canonical) = .ok e := by
    rintro ⟨htiered, hwritable, hnesting⟩
    obtain ⟨t, ht, he⟩ := derives_canonical ⟨htiered, hwritable⟩
    obtain ⟨e', hreading⟩ := exists_reading ht
    obtain rfl := hreading.denotes.unique he
    rw [hreading.nesting_eq] at hnesting
    exact c.expression_eq_ok ((parse_eq_ok_iff_derives c.maxDepth_le).mpr ⟨ht, hnesting⟩) he
  exact ⟨⟨fun ⟨input, h⟩ => hread input h, fun h => ⟨_, hwrite h⟩⟩, hread _, hwrite⟩

end SearchFilter
