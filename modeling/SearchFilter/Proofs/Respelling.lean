import SearchFilter.Proofs.Lexemes
import SearchFilter.Proofs.Viability

/-! The spellings of one query. Another text for a separator, or other blanks at the ends of the query or
inside its parentheses, move what follows and change which rule reads a blank, but the row of lexemes
still stands for the same expression. -/

namespace SearchFilter

namespace Query

open Text Phrase Condition

namespace SyntaxTree

def separatorAt : Tag → SyntaxTree → Option (Connective × Span)
  | .and, text _ span => some (.and, span)
  | .or, text _ span => some (.or, span)
  | _, _ => none

def separators (t : SyntaxTree) : List (Connective × Span) :=
  t.collect separatorAt

theorem separators_tagged_one {tag : Tag} (hand : tag ≠ .and) (hor : tag ≠ .or) (t : SyntaxTree) :
    (tagged [(tag, t)]).separators = t.separators := by
  have hnone : separatorAt tag t = none := by
    cases tag <;> first | rfl | exact absurd rfl hand | exact absurd rfl hor
  rw [separators, collect_tagged_one, hnone]
  rfl

theorem separators_pair (op : Connective) (start : Nat) (cs : List Char) (t : SyntaxTree) :
    (pair op.tag (leaf start cs) t).separators =
      (op, ⟨start, start + byteLength cs⟩) :: t.separators := by
  rw [separators, pair, collect_pair _ _ rfl, collect_tagged_one]
  cases op <;> rfl

theorem separators_chain (head : SyntaxTree) (pairs : List SyntaxTree) :
    (chain head pairs).separators = head.separators ++ collectItems separatorAt pairs :=
  collect_chain rfl pairs

theorem leaves_pair (op : Tag) (mark t : SyntaxTree) :
    (pair op mark t).leaves = mark.leaves ++ t.leaves := by
  rw [pair, leaves_tagged]
  simp [leavesOfItems, leaves]

theorem leaves_chain (head : SyntaxTree) (pairs : List SyntaxTree) :
    (chain head pairs).leaves = head.leaves ++ leavesOfItems true pairs := by
  have hleft : (tagged [(.left, head)]).leaves = head.leaves := leaves_tagged_one .left head
  cases pairs with
  | nil => simp [chain, hleft, leavesOfItems]
  | cons t ts =>
    change leavesFrom true (sequence (tagged [(.left, head)] :: t :: ts)) = _
    rw [leavesFrom, leavesOfItems]
    exact congrArg (· ++ leavesOfItems true (t :: ts)) hleft

end SyntaxTree

inductive Spells : Connective → List Char → Prop
  | blanks {gap : List Char} : gap ≠ [] → (∀ c ∈ gap, isBlank c = true) → Spells .or gap
  | spelled {before after : List Char} (op : Connective) :
    before ≠ [] → (∀ c ∈ before, isBlank c = true) → after ≠ [] → (∀ c ∈ after, isBlank c = true) →
    Spells op (before ++ op.keyword.toList ++ after)

inductive Alike : Lexeme → Lexeme → Prop
  | refl (x : Lexeme) : Alike x x
  | mark {op : Connective} {text text' : List Char} :
    Spells op text' → Alike (.mark op text) (.mark op text')
  | opening {gap gap' : List Char} :
    (∀ c ∈ gap', isBlank c = true) → Alike (.opening gap) (.opening gap')
  | closing {gap gap' : List Char} :
    (∀ c ∈ gap', isBlank c = true) → Alike (.closing gap) (.closing gap')

section Alike

variable {x y : Lexeme} {xs ys : List Lexeme}

theorem alike_refl (xs : List Lexeme) : List.Forall₂ Alike xs xs :=
  List.forall₂_same.mpr fun x _ => .refl x

theorem forall₂_append_left {α β : Type} {R : α → β → Prop} {as bs : List α} {cs : List β}
    (h : List.Forall₂ R (as ++ bs) cs) :
    ∃ as' bs', cs = as' ++ bs' ∧ List.Forall₂ R as as' ∧ List.Forall₂ R bs bs' :=
  ⟨cs.take as.length, cs.drop as.length, (List.take_append_drop _ _).symm,
    (List.forall₂_take_append _ _ _ h.flip).flip, (List.forall₂_drop_append _ _ _ h.flip).flip⟩

theorem Alike.of_opening {gap : List Char} (h : Alike (.opening gap) y)
    (hgap : ∀ c ∈ gap, isBlank c = true) :
    ∃ gap', y = .opening gap' ∧ ∀ c ∈ gap', isBlank c = true := by
  cases h with
  | refl => exact ⟨gap, rfl, hgap⟩
  | opening hgap' => exact ⟨_, rfl, hgap'⟩

theorem Alike.of_closing {gap : List Char} (h : Alike (.closing gap) y)
    (hgap : ∀ c ∈ gap, isBlank c = true) :
    ∃ gap', y = .closing gap' ∧ ∀ c ∈ gap', isBlank c = true := by
  cases h with
  | refl => exact ⟨gap, rfl, hgap⟩
  | closing hgap' => exact ⟨_, rfl, hgap'⟩

theorem Alike.stopsLike (h : Alike x y) (hx : x.Proper) (hbegins : x.begins = true)
    (rest rest' : List Char) : StopsLike (x.text ++ rest) (y.text ++ rest') := by
  obtain ⟨c, cs, hc, -⟩ := Lexeme.head_of_begins hx hbegins
  cases h with
  | refl =>
    rw [hc]
    exact id
  | opening => exact id
  | mark | closing => cases hbegins

theorem Spells.not_bare {op : Connective} {text : List Char} (h : Spells op text) (rest : List Char) :
    ∀ c ∈ (text ++ rest).head?, isBare c = false := by
  cases h with
  | blanks hne hgap => exact not_bare_gap_append hne hgap rest
  | spelled op hne hgap =>
    rw [List.append_assoc, List.append_assoc]
    exact not_bare_gap_append hne hgap _

theorem blank_append {a b : List Char} (ha : ∀ c ∈ a, isBlank c = true)
    (hb : ∀ c ∈ b, isBlank c = true) : ∀ c ∈ a ++ b, isBlank c = true :=
  fun c hc => (List.mem_append.mp hc).elim (ha c) (hb c)

theorem not_bare_gap_close {gap : List Char} (hgap : ∀ c ∈ gap, isBlank c = true)
    (rest : List Char) : ∀ c ∈ (gap ++ ')' :: rest).head?, isBare c = false := by
  by_cases hne : gap = []
  · subst hne
    intro c hc
    obtain rfl : ')' = c := by simpa using hc
    decide
  · exact not_bare_gap_append hne hgap _

end Alike

/-- A row that stands between two places, with the leaves and separators of the trees there. Operands and
what stands between them take turns. -/
structure Lexed (p : Position) (leaves : List (String × Span)) (separators : List (Connective × Span))
    (xs : List Lexeme) (q : Position) : Prop where
  between : Between p (spellRow xs) q
  proper : ∀ x ∈ xs, x.Proper
  chained : xs.IsChain fun x y => x.awaits = y.begins
  leaves_eq : leaves = along Lexeme.leaves p.offset xs
  separators_eq : separators = along Lexeme.separators p.offset xs

structure Rounded (xs : List Lexeme) : Prop where
  nonempty : xs ≠ []
  first : ∀ x ∈ xs.head?, x.begins = true
  last : ∀ x ∈ xs.getLast?, x.awaits = false

/-- Every row like `xs` is a text for `e`, unless what follows continues a bare run at its end. -/
def Respells (R : Position → Expr → Position → Prop) (rest : List Char) (xs : List Lexeme)
    (e : Expr) : Prop :=
  ∀ ys, List.Forall₂ Alike xs ys → ∀ p q, Between p (spellRow ys) q → StopsLike rest q.rest → R p e q

def Woven (R : Position → Expr → Position → Prop) (p : Position) (leaves : List (String × Span))
    (separators : List (Connective × Span)) (q : Position) : Prop :=
  ∃ xs e, Lexed p leaves separators xs q ∧ Rounded xs ∧ Respells R q.rest xs e

section Rows

variable {p q r s : Position} {ls ls' : List (String × Span)} {ms ms' : List (Connective × Span)}
  {xs ys : List Lexeme} {x : Lexeme}

theorem Lexed.append (h : Lexed p ls ms xs q) (h' : Lexed q ls' ms' ys r)
    (hmeet : ∀ x ∈ xs.getLast?, ∀ y ∈ ys.head?, x.awaits = y.begins) :
    Lexed p (ls ++ ls') (ms ++ ms') (xs ++ ys) r := by
  have hq : q.offset = p.offset + byteLength (spellRow xs) := h.between.offset_eq
  refine ⟨?_, ?_, List.isChain_append.mpr ⟨h.chained, h'.chained, hmeet⟩, ?_, ?_⟩
  · rw [spellRow_append]
    exact h.between.trans h'.between
  · intro x hx
    exact (List.mem_append.mp hx).elim (h.proper x) (h'.proper x)
  · rw [along_append, ← hq, ← h.leaves_eq, ← h'.leaves_eq]
  · rw [along_append, ← hq, ← h.separators_eq, ← h'.separators_eq]

theorem lexed_single (hx : x.Proper) (h : Between p x.text q) :
    Lexed p (x.leaves p.offset) (x.separators p.offset) [x] q := by
  refine ⟨?_, ?_, List.isChain_singleton _, (along_single _ _).symm, (along_single _ _).symm⟩
  · rwa [spellRow_single]
  · exact List.forall_mem_singleton.mpr hx

theorem Rounded.append (h : Rounded xs) (h' : Rounded ys) (zs : List Lexeme) :
    Rounded (xs ++ (zs ++ ys)) := by
  refine ⟨by simp [h.nonempty], fun x hx => h.first x ?_, fun x hx => h'.last x ?_⟩
  · rwa [List.head?_append_of_ne_nil _ h.nonempty] at hx
  · have hne : zs ++ ys ≠ [] := by simp [h'.nonempty]
    rwa [List.getLast?_append_of_ne_nil _ hne, List.getLast?_append_of_ne_nil _ h'.nonempty] at hx

theorem Woven.mono {R R' : Position → Expr → Position → Prop} (hR : ∀ p e q, R p e q → R' p e q)
    (h : Woven R p ls ms q) : Woven R' p ls ms q := by
  obtain ⟨xs, e, hxs, hrounded, hrespells⟩ := h
  exact ⟨xs, e, hxs, hrounded, fun ys hys p q hspan hq => hR p e q (hrespells ys hys p q hspan hq)⟩

theorem Lexed.stopsLike (h : Lexed p ls ms xs q) (hrounded : Rounded xs)
    (hys : List.Forall₂ Alike xs ys) {r s : Position} (hspan : Between r (spellRow ys) s) :
    StopsLike p.rest r.rest := by
  cases hys with
  | nil => exact absurd rfl hrounded.nonempty
  | @cons x y xs ys hxy _ =>
    have hbegins : x.begins = true := hrounded.first x rfl
    rw [h.between.rest_eq, hspan.rest_eq, spellRow_cons, spellRow_cons, List.append_assoc,
      List.append_assoc]
    exact hxy.stopsLike (h.proper x List.mem_cons_self) hbegins _ _

end Rows

def Respellable (op : Connective) (separator : Phrase) : Prop :=
  ∀ p t q, separator p t q → ∃ text, t = .leaf p.offset text ∧ Between p text q ∧
    ∀ y, Alike (.mark op text) y → ∀ p' q', Between p' y.text q' → StopsLike q.rest q'.rest →
      (∃ start text', separator p' (.leaf start text') q') ∧ StopsLike p.rest p'.rest

section Separators

variable {p q r s : Position}

theorem keyword_respelled {op : Connective} {before after : List Char} {p' q' : Position}
    (h : Between p' (before ++ op.keyword.toList ++ after) q')
    (hbefore : ∀ c ∈ before, isBlank c = true) (hafter : ∀ c ∈ after, isBlank c = true)
    (hstop : ∀ c ∈ (after ++ q'.rest).head?, isBare c = false) :
    ∃ r' s', Gap p' before r' ∧ BareRun r' op.keyword.toList s' ∧ Gap s' after q' := by
  obtain ⟨s', hfirst, hlast⟩ := h.split
  obtain ⟨r', hbegin, hname⟩ := hfirst.split
  rw [← hlast.rest_eq] at hstop
  exact ⟨r', s', ⟨hbegin, hbefore⟩, ⟨hname, bare_keyword op, hstop⟩, hlast, hafter⟩

theorem stopsLike_between {text : List Char} {p' q' : Position} (h : Between p text q)
    (h' : Between p' text q') (hq : StopsLike q.rest q'.rest) : StopsLike p.rest p'.rest := by
  rw [h.rest_eq, h'.rest_eq]
  exact stopsLike_append hq text

theorem Spells.stopsLike {op : Connective} {text : List Char} {p' q' : Position}
    (h : Spells op text) (hspan : Between p' text q') (rest : List Char) :
    StopsLike rest p'.rest := by
  intro _
  rw [hspan.rest_eq]
  exact h.not_bare _

theorem Spells.orSeparator {text : List Char} (h : Spells .or text) (hspan : Between p text q) :
    ∃ start text', OrSeparator p (.leaf start text') q := by
  cases h with
  | blanks hne hgap => exact ⟨_, _, .blanks ⟨hspan, hgap⟩ hne⟩
  | spelled op _ hbefore hne hafter =>
    obtain ⟨r, s, hbefore', hname, hafter'⟩ := keyword_respelled hspan hbefore hafter
      (not_bare_gap_append hne hafter _)
    exact ⟨_, _, .spelled hbefore' hname hafter'⟩

theorem Spells.andSeparator {text : List Char} (h : Spells .and text) (hspan : Between p text q) :
    ∃ start text', AndSeparator p (.leaf start text') q := by
  cases h with
  | spelled op hne hbefore hne' hafter =>
    obtain ⟨r, s, hbefore', hname, hafter'⟩ := keyword_respelled hspan hbefore hafter
      (not_bare_gap_append hne' hafter _)
    exact ⟨_, _, .mk hbefore' hne hname hafter' hne'⟩

theorem orSeparator_respellable : Respellable .or OrSeparator := by
  intro p t q h
  obtain ⟨text, rfl, hspan, hsame⟩ : ∃ text, t = .leaf p.offset text ∧ Between p text q ∧
      ∀ p' q', Between p' text q' → StopsLike q.rest q'.rest →
        ∃ start text', OrSeparator p' (.leaf start text') q' := by
    cases h with
    | blanks hgap hne =>
      exact ⟨_, rfl, hgap.toBetween, fun p' q' hspan _ => ⟨_, _, .blanks ⟨hspan, hgap.blank⟩ hne⟩⟩
    | spelled hbefore hname hafter =>
      refine ⟨_, rfl, (hbefore.toBetween.trans hname.toBetween).trans hafter.toBetween,
        fun p' q' hspan hq => ?_⟩
      have hmaximal := hname.maximal
      rw [hafter.rest_eq] at hmaximal
      obtain ⟨r', s', hbefore', hname', hafter'⟩ := keyword_respelled hspan hbefore.blank hafter.blank
        (stopsLike_append hq _ hmaximal)
      exact ⟨_, _, .spelled hbefore' hname' hafter'⟩
  refine ⟨text, rfl, hspan, fun y hy p' q' hspan' hq => ?_⟩
  cases hy with
  | refl => exact ⟨hsame p' q' hspan' hq, stopsLike_between hspan hspan' hq⟩
  | mark hspells => exact ⟨hspells.orSeparator hspan', hspells.stopsLike hspan' _⟩

theorem andSeparator_respellable : Respellable .and AndSeparator := by
  rintro p t q ⟨hbefore, hne, hname, hafter, hne'⟩
  have hspan := (hbefore.toBetween.trans hname.toBetween).trans hafter.toBetween
  refine ⟨_, rfl, hspan, fun y hy p' q' hspan' hq => ?_⟩
  cases hy with
  | refl =>
    obtain ⟨r', s', hbefore', hname', hafter'⟩ := keyword_respelled hspan' hbefore.blank hafter.blank
      (not_bare_gap_append hne' hafter.blank _)
    exact ⟨⟨_, _, .mk hbefore' hne hname' hafter' hne'⟩, stopsLike_between hspan hspan' hq⟩
  | mark hspells => exact ⟨hspells.andSeparator hspan', hspells.stopsLike hspan' _⟩

end Separators

def WovenTree (item : Phrase) : Phrase :=
  fun p t q => Woven (Written item) p t.leaves t.separators q

section Weaving

variable {p q r s u v : Position} {t : SyntaxTree} {pairs : List SyntaxTree}
  {ls : List (String × Span)} {ms : List (Connective × Span)}

theorem woven_single {R : Position → Expr → Position → Prop} (e : Expr) {x : Lexeme} (hx : x.Proper)
    (hspan : Between p x.text q) (hbegins : x.begins = true) (hawaits : x.awaits = false)
    (h : ∀ y, Alike x y → ∀ p' q', Between p' y.text q' → StopsLike q.rest q'.rest → R p' e q') :
    Woven R p (x.leaves p.offset) (x.separators p.offset) q := by
  refine ⟨[x], e, lexed_single hx hspan, ⟨by simp, by simpa using hbegins, by simpa using hawaits⟩, ?_⟩
  intro ys hys p' q' hspan' hq
  obtain ⟨y, _, hy, hrest, rfl⟩ := List.forall₂_cons_left_iff.mp hys
  obtain rfl := List.forall₂_nil_left_iff.mp hrest
  rw [spellRow_single] at hspan'
  exact h y hy p' q' hspan' hq

theorem Phrase.Word.woven (h : Word p t q) : WovenTree Primary p t q := by
  unfold WovenTree
  cases h with
  | @quoted _ _ quote body hquote hbody hspan =>
    have hleaves : (SyntaxTree.tagged [(.word, .tagged [(.str, .text (String.ofList body)
        ⟨p.offset + 1, p.offset + 1 + byteLength body⟩)])]).leaves =
        (Lexeme.literal quote body).leaves p.offset := by
      rw [leaves_tagged_one, leaves_tagged_one, leaves_text]
      rfl
    have hseparators : ∀ span, (SyntaxTree.tagged [(.word,
        .tagged [(.str, .text (String.ofList body) span)])]).separators = [] := by
      intro span
      rw [SyntaxTree.separators_tagged_one (by decide) (by decide),
        SyntaxTree.separators_tagged_one (by decide) (by decide)]
      exact SyntaxTree.collect_text _ _
    rw [hleaves, hseparators]
    refine woven_single (.word (String.ofList body)) (.literal hquote hbody) hspan rfl rfl
      fun y hy p' q' hspan' _ => ?_
    cases hy
    exact ⟨_, .word (.quoted hquote hbody hspan'), denotes_quoted⟩
  | @bare _ _ text hrun hword =>
    have hleaves : (SyntaxTree.tagged [(.word, .text (String.ofList text)
        ⟨p.offset, p.offset + byteLength text⟩)]).leaves = (Lexeme.bare text).leaves p.offset := by
      rw [leaves_tagged_one, leaves_text]
      rfl
    have hseparators : ∀ span,
        (SyntaxTree.tagged [(.word, .text (String.ofList text) span)]).separators = [] := by
      intro span
      rw [SyntaxTree.separators_tagged_one (by decide) (by decide)]
      exact SyntaxTree.collect_text _ _
    rw [hleaves, hseparators]
    refine woven_single (.word (String.ofList text)) (.bare hword) hrun.toBetween rfl rfl
      fun y hy p' q' hspan' hq => ?_
    cases hy
    exact ⟨_, .word (.bare ⟨hspan', hword.bare, hq hrun.maximal⟩ hword), denotes_bare⟩

theorem woven_group {before after : List Char} (hopen : Between p ['('] q) (hbefore : Gap q before r)
    (h : WovenTree OrExpr r t s) (hafter : Gap s after u) (hclose : Between u [')'] v) :
    WovenTree Primary p (.tagged [(.paren, t)]) v := by
  obtain ⟨xs, e, hxs, hrounded, hrespells⟩ := h
  have hfirst := lexed_single (.opening hbefore.blank) (hopen.trans hbefore.toBetween)
  have hlast := lexed_single (.closing hafter.blank) (hafter.toBetween.trans hclose)
  have hrow := hfirst.append (hxs.append hlast (by simpa [Lexeme.begins] using hrounded.last)) (by
    intro x hx y hy
    obtain rfl : Lexeme.opening before = x := by simpa using hx
    rw [List.head?_append_of_ne_nil _ hrounded.nonempty] at hy
    exact (hrounded.first y hy).symm)
  refine ⟨.opening before :: (xs ++ [.closing after]), .group e, ?_,
    ⟨by simp, by simp [Lexeme.begins], ?_⟩, ?_⟩
  · rw [leaves_tagged_one, SyntaxTree.separators_tagged_one (by decide) (by decide)]
    simpa [Lexeme.leaves, Lexeme.separators] using hrow
  · rw [← List.cons_append, List.getLast?_concat]
    simp [Lexeme.awaits]
  · intro ys hys p' v' hspan _
    obtain ⟨first, rest, hfirst', hrest, rfl⟩ := List.forall₂_cons_left_iff.mp hys
    obtain ⟨xs', last, rfl, hxs', hlast'⟩ := forall₂_append_left hrest
    obtain ⟨final, _, hfinal, hnil, rfl⟩ := List.forall₂_cons_left_iff.mp hlast'
    obtain rfl := List.forall₂_nil_left_iff.mp hnil
    obtain ⟨gap, rfl, hgap⟩ := hfirst'.of_opening hbefore.blank
    obtain ⟨gap', rfl, hgap'⟩ := hfinal.of_closing hafter.blank
    rw [spellRow_cons, spellRow_append, spellRow_single] at hspan
    obtain ⟨r', hstart, hspan⟩ := hspan.split
    obtain ⟨s', hinner, hend⟩ := hspan.split
    obtain ⟨q', hopen', hbefore'⟩ := Between.split (a := ['(']) hstart
    obtain ⟨u', hafter', hclose'⟩ := hend.split
    -- The group is closed after its blanks, so no bare run at the end of the expression goes on.
    have hstop : StopsLike s.rest s'.rest := by
      intro _
      rw [hafter'.rest_eq, hclose'.rest_eq]
      exact not_bare_gap_close hgap' _
    obtain ⟨t', ht', he⟩ := hrespells xs' hxs' r' s' hinner hstop
    exact ⟨_, .group hopen' ⟨hbefore', hgap⟩ ht' ⟨hafter', hgap'⟩ hclose', he.group⟩

section Operands

variable (op : Connective) {separator operand : Phrase} (hseparator : Respellable op separator)

include hseparator

theorem Woven.snoc {mark : SyntaxTree} (h : Woven (WrittenList op separator operand) p ls ms q)
    (hmark : separator q mark r) (ht : WovenTree operand r t s) :
    Woven (WrittenList op separator operand) p (ls ++ (SyntaxTree.pair op.tag mark t).leaves)
      (ms ++ (SyntaxTree.pair op.tag mark t).separators) s := by
  obtain ⟨xs, e, hxs, hrounded, hrespells⟩ := h
  obtain ⟨ys, f, hys, hrounded', hrespells'⟩ := ht
  obtain ⟨text, rfl, hspan, hagain⟩ := hseparator _ _ _ hmark
  have hone := lexed_single (.mark op text) hspan
  have hpair := hone.append hys (by
    intro x hx y hy
    obtain rfl : Lexeme.mark op text = x := by simpa using hx
    exact (hrounded'.first y hy).symm)
  have hrow := hxs.append hpair (by simpa [Lexeme.begins] using hrounded.last)
  refine ⟨xs ++ ([.mark op text] ++ ys), .binary op e f, ?_, hrounded.append hrounded' _, ?_⟩
  · rw [SyntaxTree.leaves_pair, SyntaxTree.separators_pair, SyntaxTree.leaf, leaves_text]
    exact hrow
  · intro zs hzs p' s' hspan' hs
    obtain ⟨xs', rest, rfl, hxs', hrest⟩ := forall₂_append_left hzs
    obtain ⟨y, ys', hy, hys', rfl⟩ := List.forall₂_cons_left_iff.mp hrest
    rw [spellRow_append, spellRow_cons] at hspan'
    obtain ⟨q', hleft, hspan'⟩ := hspan'.split
    obtain ⟨r', hmiddle, hright⟩ := hspan'.split
    obtain ⟨hmark', hq⟩ := hagain y hy q' r' hmiddle (hys.stopsLike hrounded' hys' hright)
    exact WrittenList.snoc (hrespells xs' hxs' p' q' hleft hq) hmark'
      (hrespells' ys' hys' r' s' hright hs)

theorem woven_pairs (h : Woven (WrittenList op separator operand) p ls ms q)
    (hpairs : Star (Pair op.tag separator (WovenTree operand)) q pairs r) :
    Woven (WrittenList op separator operand) p (ls ++ SyntaxTree.leavesOfItems true pairs)
      (ms ++ SyntaxTree.collectItems SyntaxTree.separatorAt pairs) r := by
  induction hpairs generalizing ls ms with
  | nil q => simpa [SyntaxTree.leavesOfItems, SyntaxTree.collectItems] using h
  | cons hpair _ ih =>
    obtain ⟨hmark, hright⟩ := hpair
    have hall := ih (h.snoc op hseparator hmark hright)
    rw [List.append_assoc, List.append_assoc] at hall
    rw [SyntaxTree.leavesOfItems, SyntaxTree.collectItems]
    exact hall

theorem woven_operands (h : Operands op.tag separator (WovenTree operand) p t q) :
    Woven (WrittenList op separator operand) p t.leaves t.separators q := by
  obtain ⟨head, pairs, _, rfl, hhead, hpairs⟩ := h.exists_chain
  rw [SyntaxTree.leaves_chain, SyntaxTree.separators_chain]
  exact woven_pairs op hseparator (hhead.mono fun _ _ _ => Written.single) hpairs

end Operands

theorem woven_orExpr (h : Operands .or OrSeparator (Operands .and AndSeparator (WovenTree Primary)) p t q) :
    Woven (WrittenList .or OrSeparator AndExpr) p t.leaves t.separators q := by
  refine woven_operands .or orSeparator_respellable (h.mono fun _ _ _ hand => ?_)
  exact (woven_operands .and andSeparator_respellable hand).mono fun _ _ _ => WrittenList.written

theorem Phrase.Primary.woven (h : Primary p t q) : WovenTree Primary p t q := by
  refine h.induct (motive := WovenTree Primary) ?_ Word.woven
  intro p q r s u v before after t hopen hbefore ht hafter hclose
  exact woven_group hopen hbefore ((woven_orExpr ht).mono fun _ _ _ => WrittenList.written) hafter hclose

theorem Phrase.OrExpr.woven (h : OrExpr p t q) :
    Woven (WrittenList .or OrSeparator AndExpr) p t.leaves t.separators q :=
  woven_orExpr (h.mono fun _ _ _ h => h.mono fun _ _ _ => Primary.woven)

end Weaving

/-- A query as a row of lexemes between blanks, with the expression that all rows like it stand for. -/
structure Row (input : String) (t : SyntaxTree) (e : Expr) (before : List Char) (xs : List Lexeme)
    (after : List Char) : Prop where
  input_eq : input.toList = before ++ (spellRow xs ++ after)
  before_blank : ∀ c ∈ before, isBlank c = true
  after_blank : ∀ c ∈ after, isBlank c = true
  lexed : Lexed ⟨byteLength before, spellRow xs ++ after⟩ t.leaves t.separators xs
    ⟨byteLength before + byteLength (spellRow xs), after⟩
  rounded : Rounded xs
  respells : Respells (WrittenList .or OrSeparator AndExpr) after xs e

theorem Derives.row {input : String} {t : SyntaxTree} (h : Derives input t) :
    ∃ e before xs after, Row input t e before xs after := by
  obtain ⟨stop, @⟨_, q, r, _, before, after, _, hbefore, ht, hafter, hstop⟩⟩ := h
  obtain ⟨xs, e, hxs, hrounded, hrespells⟩ := Phrase.OrExpr.woven ht
  have hr : r.rest = after := by rw [hafter.rest_eq, hstop, List.append_nil]
  have hq : q.rest = spellRow xs ++ after := by rw [hxs.between.rest_eq, hr]
  have hoffset : q.offset = byteLength before := by rw [hbefore.offset_eq, Nat.zero_add]
  obtain rfl : q = ⟨byteLength before, spellRow xs ++ after⟩ := by rw [← hq, ← hoffset]
  obtain rfl : r = ⟨byteLength before + byteLength (spellRow xs), after⟩ := by
    rw [← hr]
    exact congrArg (Position.mk · r.rest) hxs.between.offset_eq
  exact ⟨e, before, xs, after, hbefore.rest_eq, hbefore.blank, hafter.blank, hxs, hrounded, hrespells⟩

theorem derives_of_written {e : Expr} {before text after : List Char}
    (hbefore : ∀ c ∈ before, isBlank c = true) (hafter : ∀ c ∈ after, isBlank c = true)
    (h : WrittenList .or OrSeparator AndExpr ⟨byteLength before, text ++ after⟩ e
      ⟨byteLength before + byteLength text, after⟩) :
    ∃ t, Derives (String.ofList (before ++ (text ++ after))) t ∧ Denotes t e := by
  obtain ⟨t, ht, he⟩ := h.written
  have hgap := gap_append 0 (text ++ after) hbefore
  have hgap' := gap_append (byteLength before + byteLength text) [] hafter
  rw [Nat.zero_add] at hgap
  rw [List.append_nil] at hgap'
  exact ⟨t, ⟨_, .mk (by rwa [String.toList_ofList]) ht hgap' rfl⟩, he⟩

section Edits

variable {input : String} {t : SyntaxTree} {e : Expr} {before after : List Char} {xs : List Lexeme}

theorem alike_at {x y : Lexeme} (h : Alike x y) (pre post : List Lexeme) :
    List.Forall₂ Alike (pre ++ x :: post) (pre ++ y :: post) :=
  List.rel_append (alike_refl pre) (.cons h (alike_refl post))

theorem Row.respelled (h : Row input t e before xs after) {before' after' : List Char}
    {ys : List Lexeme} (hbefore : ∀ c ∈ before', isBlank c = true) (hys : List.Forall₂ Alike xs ys)
    (hafter : ∀ c ∈ after', isBlank c = true) :
    ∃ t', Derives (String.ofList (before' ++ (spellRow ys ++ after'))) t' ∧ Denotes t' e := by
  have hend : ∀ c ∈ after'.head?, isBare c = false := fun c hc =>
    not_bare_of_isBlank (hafter c (List.mem_of_mem_head? hc))
  exact derives_of_written hbefore hafter
    (h.respells ys hys _ _ (between_append (byteLength before') _ after') fun _ => hend)

theorem Row.denotes (h : Row input t e before xs after) (ht : Derives input t) : Denotes t e := by
  obtain ⟨t', ht', he⟩ := h.respelled h.before_blank (alike_refl xs) h.after_blank
  rw [← h.input_eq, String.ofList_toList] at ht'
  rwa [Grammar.derives_unique ht ht']

theorem Row.mem_loose (h : Row input t e before xs after) {o : Nat} {c : Char}
    (hc : isBlank c = false) (hmem : (o, c) ∈ uncovered t.leaves (placed 0 input.toList)) :
    (o, c) ∈ along Lexeme.loose (byteLength before) xs := by
  have hstart := between_append 0 before (spellRow xs ++ after)
  have hend := between_append (byteLength before + byteLength (spellRow xs)) after []
  rw [Nat.zero_add] at hstart
  rw [List.append_nil] at hend
  have hpieces := ((Pieces.of_between hstart).append
    (pieces_along h.lexed.proper h.lexed.between)).append (Pieces.of_between hend)
  rw [List.nil_append, List.append_nil, ← h.lexed.leaves_eq] at hpieces
  have huncovered := hpieces.uncovered_eq ((hstart.trans h.lexed.between).trans hend)
  rw [List.append_assoc, ← h.input_eq] at huncovered
  rw [huncovered, List.mem_append, List.mem_append] at hmem
  rcases hmem with (hmem | hmem) | hmem
  · exact absurd (mem_of_mem_placed hmem) (not_mem_gap h.before_blank hc)
  · exact hmem
  · exact absurd (mem_of_mem_placed hmem) (not_mem_gap h.after_blank hc)

theorem eq_of_byteLength_eq {a a' b b' : List Char} (h : a ++ b = a' ++ b')
    (hlength : byteLength a = byteLength a') : a = a' ∧ b = b' := by
  have hsplit := splitAtByte_append a b
  rw [h, hlength, splitAtByte_append] at hsplit
  exact ⟨congrArg Prod.fst (Option.some.inj hsplit).symm, congrArg Prod.snd (Option.some.inj hsplit).symm⟩

theorem blanks_of_append_eq {gap gap' u v : List Char} {c : Char}
    (h : gap ++ u = gap' ++ c :: v) (hgap : ∀ c ∈ gap, isBlank c = true) (hc : isBlank c = false) :
    ∃ more, gap' = gap ++ more ∧ u = more ++ c :: v := by
  rcases List.append_eq_append_iff.mp h with ⟨more, hmore, hu⟩ | ⟨more, hmore, hv⟩
  · exact ⟨more, hmore, hu⟩
  · cases more with
    | nil => exact ⟨[], by simpa using hmore.symm, by simpa using hv.symm⟩
    | cons d more =>
      obtain rfl : c = d := (List.cons.inj hv).1
      exact absurd (by simp [hmore]) (not_mem_gap hgap hc)

theorem blanks_of_eq_append {gap gap' u v : List Char} {c : Char}
    (h : u ++ gap = v ++ [c] ++ gap') (hgap : ∀ c ∈ gap, isBlank c = true) (hc : isBlank c = false) :
    ∃ more, gap' = more ++ gap ∧ u = v ++ [c] ++ more := by
  have hreverse := congrArg List.reverse h
  simp only [List.reverse_append, List.reverse_cons, List.reverse_nil, List.nil_append,
    List.singleton_append] at hreverse
  obtain ⟨more, hmore, hu⟩ := blanks_of_append_eq hreverse (by simpa using hgap) hc
  refine ⟨more.reverse, ?_, ?_⟩
  · simpa using congrArg List.reverse hmore
  · simpa using congrArg List.reverse hu

theorem spellRow_head (hxs : ∀ x ∈ xs, x.Proper) (hne : xs ≠ [])
    (hfirst : ∀ x ∈ xs.head?, x.begins = true) :
    ∃ c cs, spellRow xs = c :: cs ∧ isBlank c = false := by
  obtain ⟨x, xs, rfl⟩ := List.exists_cons_of_ne_nil hne
  obtain ⟨c, cs, htext, hc⟩ := Lexeme.head_of_begins (hxs x List.mem_cons_self) (hfirst x rfl)
  exact ⟨c, cs ++ spellRow xs, by rw [spellRow_cons, htext, List.cons_append], hc⟩

theorem spellRow_last (hxs : ∀ x ∈ xs, x.Proper) (hne : xs ≠ [])
    (hlast : ∀ x ∈ xs.getLast?, x.awaits = false) :
    ∃ cs c, spellRow xs = cs ++ [c] ∧ isBlank c = false := by
  obtain ⟨xs, x, rfl⟩ := (List.eq_nil_or_concat' xs).resolve_left hne
  obtain ⟨cs, c, htext, hc⟩ := Lexeme.last_of_not_awaits (hxs x (by simp))
    (hlast x List.getLast?_concat)
  exact ⟨spellRow xs ++ cs, c, by
    rw [spellRow_append, spellRow_single, htext, List.append_assoc], hc⟩

def Span.replace (input : String) (span : Span) (text : List Char) : Option String := do
  let (before, rest) ← splitAtByte span.start input.toList
  let (_, after) ← splitAtByte (span.stop - span.start) rest
  return String.ofList (before ++ text ++ after)

theorem replace_eq (text' : List Char) {text : List Char}
    (h : input.toList = before ++ (text ++ after)) :
    Span.replace input ⟨byteLength before, byteLength before + byteLength text⟩ text' =
      some (String.ofList (before ++ text' ++ after)) := by
  simp only [Span.replace, h, splitAtByte_append, Nat.add_sub_cancel_left]
  simp [splitAtByte_append]

/-- Blanks outside the leaves: at an end of the query, or on the inner side of a parenthesis. -/
inductive Margin (outside : List (Nat × Char)) : (before gap after : List Char) → Prop
  | first (gap after : List Char) : Margin outside [] gap after
  | last (before gap : List Char) : Margin outside before gap []
  | opening {before gap after : List Char} :
    (byteLength before, '(') ∈ outside → Margin outside (before ++ ['(']) gap after
  | closing {before gap after : List Char} :
    (byteLength (before ++ gap), ')') ∈ outside → Margin outside before gap (')' :: after)

theorem Row.replace_mark (h : Row input t e before xs after) {op : Connective} {span : Span}
    {text : List Char} (hmem : (op, span) ∈ t.separators) (htext : Spells op text) :
    ∃ ys, List.Forall₂ Alike xs ys ∧
      Span.replace input span text = some (String.ofList (before ++ (spellRow ys ++ after))) := by
  rw [h.lexed.separators_eq] at hmem
  obtain ⟨pre, x, post, rfl, hx⟩ := exists_of_mem_along hmem
  cases x with
  | mark op' old =>
    obtain ⟨rfl, rfl⟩ := Prod.mk.inj (List.mem_singleton.mp hx)
    refine ⟨_, alike_at (.mark htext) pre post, ?_⟩
    have hinput : input.toList = (before ++ spellRow pre) ++ (old ++ (spellRow post ++ after)) := by
      simp [h.input_eq, spellRow_append, spellRow_cons, Lexeme.text]
    have hreplace := replace_eq text hinput
    rw [byteLength_append] at hreplace
    simpa [spellRow_append, spellRow_cons, Lexeme.text] using hreplace
  | _ => cases hx

theorem Row.at_opening (h : Row input t e before xs after) {a rest : List Char}
    (hinput : input.toList = a ++ '(' :: rest)
    (hmem : (byteLength a, '(') ∈ uncovered t.leaves (placed 0 input.toList)) :
    ∃ pre gap post, xs = pre ++ .opening gap :: post ∧ a = before ++ spellRow pre ∧
      rest = gap ++ (spellRow post ++ after) ∧ (∀ c ∈ gap, isBlank c = true) ∧
      ∃ c cs, spellRow post = c :: cs ∧ isBlank c = false := by
  obtain ⟨pre, x, post, rfl, hx⟩ := exists_of_mem_along (h.mem_loose (by decide) hmem)
  obtain ⟨ho, gap, rfl⟩ := Lexeme.eq_opening (h.lexed.proper x (by simp)) hx
  have hsame := hinput.symm.trans h.input_eq
  rw [spellRow_append, spellRow_cons, Lexeme.text, List.append_assoc, ← List.append_assoc] at hsame
  obtain ⟨ha, hrest⟩ := eq_of_byteLength_eq hsame (by rw [ho, byteLength_append])
  obtain ⟨-, hchain, -⟩ := List.isChain_append.mp h.lexed.chained
  have hproper : ∀ y ∈ post, y.Proper := fun y hy => h.lexed.proper y (by simp [hy])
  have hgap : Lexeme.Proper (.opening gap) := h.lexed.proper _ (by simp)
  refine ⟨pre, gap, post, rfl, ha, by simpa using hrest, ?_, spellRow_head hproper ?_ ?_⟩
  · cases hgap with
    | opening hblank => exact hblank
  · rintro rfl
    exact absurd (h.rounded.last _ List.getLast?_concat) (by simp [Lexeme.awaits])
  · exact fun y hy => ((List.isChain_cons.mp hchain).1 y hy).symm

theorem Row.at_closing (h : Row input t e before xs after) {a rest : List Char}
    (hinput : input.toList = a ++ ')' :: rest)
    (hmem : (byteLength a, ')') ∈ uncovered t.leaves (placed 0 input.toList)) :
    ∃ pre gap post, xs = pre ++ .closing gap :: post ∧ a = before ++ spellRow pre ++ gap ∧
      rest = spellRow post ++ after ∧ (∀ c ∈ gap, isBlank c = true) ∧
      ∃ cs c, spellRow pre = cs ++ [c] ∧ isBlank c = false := by
  obtain ⟨pre, x, post, rfl, hx⟩ := exists_of_mem_along (h.mem_loose (by decide) hmem)
  obtain ⟨gap, ho, rfl⟩ := Lexeme.eq_closing (h.lexed.proper x (by simp)) hx
  have hsame : a ++ ')' :: rest = (before ++ spellRow pre ++ gap) ++ ')' :: (spellRow post ++ after) := by
    rw [← hinput, h.input_eq, spellRow_append, spellRow_cons, Lexeme.text]
    simp
  obtain ⟨ha, hrest⟩ := eq_of_byteLength_eq hsame (by rw [ho, byteLength_append, byteLength_append])
  obtain ⟨-, -, hmeet⟩ := List.isChain_append.mp h.lexed.chained
  have hproper : ∀ y ∈ pre, y.Proper := fun y hy => h.lexed.proper y (by simp [hy])
  have hgap : Lexeme.Proper (.closing gap) := h.lexed.proper _ (by simp)
  refine ⟨pre, gap, post, rfl, ha, by simpa using hrest, ?_, spellRow_last hproper ?_ ?_⟩
  · cases hgap with
    | closing hblank => exact hblank
  · rintro rfl
    exact absurd (h.rounded.first _ rfl) (by simp [Lexeme.begins])
  · exact fun y hy => hmeet y hy _ rfl

theorem Row.replace_margin (h : Row input t e before xs after) {a gap b gap' : List Char}
    (hmargin : Margin (uncovered t.leaves (placed 0 input.toList)) a gap b)
    (hinput : input.toList = a ++ gap ++ b) (hgap : ∀ c ∈ gap, isBlank c = true)
    (hgap' : ∀ c ∈ gap', isBlank c = true) :
    ∃ before' ys after', (∀ c ∈ before', isBlank c = true) ∧ List.Forall₂ Alike xs ys ∧
      (∀ c ∈ after', isBlank c = true) ∧ a ++ gap' ++ b = before' ++ (spellRow ys ++ after') := by
  have hsame := hinput.symm.trans h.input_eq
  cases hmargin with
  | first =>
    obtain ⟨c, cs, hc, hblank⟩ := spellRow_head h.lexed.proper h.rounded.nonempty h.rounded.first
    obtain ⟨more, rfl, hb⟩ := blanks_of_append_eq (v := cs ++ after) (by simpa [hc] using hsame) hgap
      hblank
    exact ⟨gap' ++ more, xs, after, blank_append hgap' fun c hmem => h.before_blank c (by simp [hmem]),
      alike_refl xs, h.after_blank, by simp [hb, hc]⟩
  | last =>
    obtain ⟨cs, c, hc, hblank⟩ := spellRow_last h.lexed.proper h.rounded.nonempty h.rounded.last
    obtain ⟨more, rfl, ha⟩ := blanks_of_eq_append (v := before ++ cs) (by simpa [hc] using hsame) hgap
      hblank
    exact ⟨before, xs, more ++ gap', h.before_blank, alike_refl xs,
      blank_append (fun c hmem => h.after_blank c (by simp [hmem])) hgap', by simp [ha, hc]⟩
  | @opening a _ _ hmem =>
    have hopen : input.toList = a ++ '(' :: (gap ++ b) := by simpa using hinput
    obtain ⟨pre, old, post, rfl, rfl, hrest, hold, c, cs, hc, hblank⟩ := h.at_opening hopen hmem
    obtain ⟨more, rfl, hb⟩ := blanks_of_append_eq (v := cs ++ after) (by simpa [hc] using hrest) hgap
      hblank
    have hmore := blank_append hgap' fun c hmem => hold c (List.mem_append_right gap hmem)
    refine ⟨before, _, after, h.before_blank, alike_at (.opening hmore) pre post, h.after_blank, ?_⟩
    simp [hb, hc, spellRow_append, spellRow_cons, Lexeme.text]
  | @closing _ _ b hmem =>
    obtain ⟨pre, old, post, rfl, hwhole, hrest, hold, cs, c, hc, hblank⟩ := h.at_closing hinput hmem
    obtain ⟨more, rfl, ha⟩ := blanks_of_eq_append (v := before ++ cs) (by simpa [hc] using hwhole) hgap
      hblank
    have hmore := blank_append (fun c hmem => hold c (List.mem_append_left gap hmem)) hgap'
    refine ⟨before, _, after, h.before_blank, alike_at (.closing hmore) pre post, h.after_blank, ?_⟩
    simp [ha, hc, hrest, spellRow_append, spellRow_cons, Lexeme.text]

end Edits
end Query

open Query Text Condition

section Spellings

variable {c : Compiler} {input : String} {t : SyntaxTree} {e : Expr} {before after : List Char}
  {xs : List Lexeme}

theorem Compiler.expression_of_derives (c : Compiler) (ht : Derives input t) (he : Denotes t e)
    (hnesting : e.nesting ≤ c.maxDepth) : c.tree input = .ok t ∧ c.expression input = .ok e := by
  obtain ⟨e', hreading⟩ := exists_reading ht
  obtain rfl := hreading.denotes.unique he
  rw [hreading.nesting_eq] at hnesting
  have htree : c.tree input = .ok t := (parse_eq_ok_iff_derives c.maxDepth_le).mpr ⟨ht, hnesting⟩
  exact ⟨htree, c.expression_eq_ok htree he⟩

theorem Query.Row.accepted (h : Row input t e before xs after) (ht : c.tree input = .ok t)
    {before' after' : List Char} {ys : List Lexeme} (hbefore : ∀ c ∈ before', isBlank c = true)
    (hys : List.Forall₂ Alike xs ys) (hafter : ∀ c ∈ after', isBlank c = true) :
    ∃ t', c.tree (String.ofList (before' ++ (spellRow ys ++ after'))) = .ok t' ∧
      c.expression (String.ofList (before' ++ (spellRow ys ++ after'))) = .ok e := by
  obtain ⟨hderives, hnesting⟩ := derives_of_parse ht
  obtain ⟨e', hreading⟩ := exists_reading hderives
  obtain rfl := hreading.denotes.unique (h.denotes hderives)
  rw [← hreading.nesting_eq] at hnesting
  obtain ⟨t', ht', he⟩ := h.respelled hbefore hys hafter
  exact ⟨t', c.expression_of_derives ht' he hnesting⟩

/-- Neither the spelling of a separator nor the blanks at a margin change what a query stands for. -/
theorem expression_respelled (c : Compiler) {input : String} {t : SyntaxTree}
    (ht : c.tree input = .ok t) : ∃ e, c.expression input = .ok e ∧
      (∀ op span, (op, span) ∈ t.separators → ∀ text, Spells op text →
        ∃ input' t', Span.replace input span text = some input' ∧ c.tree input' = .ok t' ∧
          c.expression input' = .ok e) ∧
      ∀ before gap after gap', input.toList = before ++ gap ++ after →
        (∀ c ∈ gap, isBlank c = true) → (∀ c ∈ gap', isBlank c = true) →
        Margin (uncovered t.leaves (placed 0 input.toList)) before gap after →
        ∃ t', c.tree (String.ofList (before ++ gap' ++ after)) = .ok t' ∧
          c.expression (String.ofList (before ++ gap' ++ after)) = .ok e := by
  obtain ⟨hderives, -⟩ := derives_of_parse ht
  obtain ⟨e, before, xs, after, hrow⟩ := hderives.row
  refine ⟨e, c.expression_eq_ok ht (hrow.denotes hderives), ?_, ?_⟩
  · intro op span hspan text htext
    obtain ⟨ys, hys, hreplace⟩ := hrow.replace_mark hspan htext
    obtain ⟨t', ht', he⟩ := hrow.accepted ht hrow.before_blank hys hrow.after_blank
    exact ⟨_, t', hreplace, ht', he⟩
  · intro a gap b gap' hinput hgap hgap' hmargin
    obtain ⟨before', ys, after', hbefore, hys, hafter, htext⟩ :=
      hrow.replace_margin hmargin hinput hgap hgap'
    obtain ⟨t', ht', he⟩ := hrow.accepted ht hbefore hys hafter
    rw [← htext] at ht' he
    exact ⟨t', ht', he⟩

theorem expression_respelled_group : ∃ t e,
    (default : Compiler).tree "( a or \"b\") and c" = .ok t ∧
    t.separators = [(.or, ⟨3, 7⟩), (.and, ⟨11, 16⟩)] ∧
    (default : Compiler).expression "( a or \"b\") and c" = .ok e ∧
    (default : Compiler).expression "( a\t\"b\") and c" = .ok e ∧
    (default : Compiler).expression "(a or \"b\") and c" = .ok e := by
  have hok : ((default : Compiler).tree "( a or \"b\") and c").isOk = true := by decide +kernel
  obtain ⟨t, ht⟩ := exists_eq_ok hok
  have hparts : ((default : Compiler).tree "( a or \"b\") and c").toOption.map (fun t =>
      (t.separators, uncovered t.leaves (placed 0 "( a or \"b\") and c".toList))) =
      some ([(.or, ⟨3, 7⟩), (.and, ⟨11, 16⟩)],
        [(0, '('), (1, ' '), (7, '"'), (9, '"'), (10, ')')]) := by decide +kernel
  rw [ht] at hparts
  obtain ⟨hseparators, houtside⟩ := Prod.mk.inj (Option.some.inj hparts)
  obtain ⟨e, he, hmarks, hmargins⟩ := expression_respelled default ht
  have hreplace : Span.replace "( a or \"b\") and c" ⟨3, 7⟩ ['\t'] = some "( a\t\"b\") and c" := by
    decide +kernel
  obtain ⟨input', t', hinput', -, he'⟩ := hmarks .or ⟨3, 7⟩ (by simp [hseparators]) ['\t']
    (.blanks (by simp) (List.forall_mem_singleton.mpr rfl))
  obtain rfl : "( a\t\"b\") and c" = input' := Option.some.inj (hreplace.symm.trans hinput')
  obtain ⟨t'', -, he''⟩ := hmargins ([] ++ ['(']) [' '] "a or \"b\") and c".toList [] (by decide +kernel)
    blank_space (by simp) (.opening (by rw [houtside]; exact List.mem_cons_self))
  have hedited : String.ofList ([] ++ ['('] ++ [] ++ "a or \"b\") and c".toList) =
      "(a or \"b\") and c" := by decide +kernel
  rw [hedited] at he''
  exact ⟨t, e, ht, hseparators, he, he', he''⟩

end Spellings
end SearchFilter
