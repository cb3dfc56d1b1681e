import Mathlib.Data.List.TakeWhile
import SearchFilter.Query.Grammar

/-! The grammar of queries as a relation between places of a text. A rule relates the place where a
part starts, its tree and the place where it ends. Alternatives are not ordered, repetitions may
stop anywhere and blanks may be divided in any way. -/

namespace SearchFilter.Query

open Text

theorem byteLength_append (a b : List Char) :
    byteLength (a ++ b) = byteLength a + byteLength b := by
  induction a with
  | nil => simp [byteLength]
  | cons c cs ih => simpa [byteLength, Nat.add_assoc] using ih

theorem splitAtByte_go_append (a b before : List Char) :
    splitAtByte.go before (byteLength a) (a ++ b) = some (before.reverse ++ a, b) := by
  induction a generalizing before with
  | nil => simp [byteLength, splitAtByte.go]
  | cons c cs ih =>
    obtain ⟨n, hn⟩ : ∃ n, c.utf8Size = n + 1 := Nat.exists_eq_add_one.mpr c.utf8Size_pos
    have hlength : byteLength (c :: cs) = n + byteLength cs + 1 := by
      simp only [byteLength, List.foldr_cons, hn]
      omega
    have hrest : n + byteLength cs + 1 - c.utf8Size = byteLength cs := by omega
    rw [hlength, List.cons_append, splitAtByte.go, if_pos (by omega), hrest, ih]
    simp

theorem splitAtByte_append (a b : List Char) :
    splitAtByte (byteLength a) (a ++ b) = some (a, b) :=
  splitAtByte_go_append a b []

theorem takeWhile_append_eq_left {P : Char → Bool} {a b : List Char} (ha : ∀ c ∈ a, P c = true)
    (hb : ∀ c ∈ b.head?, P c = false) : (a ++ b).takeWhile P = a := by
  rw [List.takeWhile_append_of_pos ha]
  cases b with
  | nil => simp
  | cons c cs => simp [hb c rfl]

theorem not_of_mem_head?_drop_takeWhile {P : Char → Bool} {cs : List Char} {c : Char}
    (hc : c ∈ (cs.drop (cs.takeWhile P).length).head?) : P c = false := by
  have hdrop : cs.drop (cs.takeWhile P).length = cs.dropWhile P := by
    have h : (cs.takeWhile P ++ cs.dropWhile P).drop (cs.takeWhile P).length = cs.dropWhile P :=
      List.drop_left
    rwa [List.takeWhile_append_dropWhile] at h
  have hhead := List.head?_dropWhile_not P cs
  rw [← hdrop, Option.mem_def.mp hc] at hhead
  exact hhead

namespace SyntaxTree

mutual

/-- The greatest number of groups around one place. -/
def nesting : SyntaxTree → Nat
  | text _ _ => 0
  | tagged fields => nestingFields fields
  | sequence items => nestingItems items

def nestingFields : List (Tag × SyntaxTree) → Nat
  | [] => 0
  | (tag, tree) :: fields =>
    max (if tag = .paren then tree.nesting + 1 else tree.nesting) (nestingFields fields)

def nestingItems : List SyntaxTree → Nat
  | [] => 0
  | tree :: items => max tree.nesting (nestingItems items)

end

mutual

/-- What `f` takes of the fields of a tree, from left to right. A field that it takes is not searched. -/
def collect {β : Type} (f : Tag → SyntaxTree → Option β) : SyntaxTree → List β
  | text _ _ => []
  | tagged fields => collectFields f fields
  | sequence items => collectItems f items

def collectFields {β : Type} (f : Tag → SyntaxTree → Option β) : List (Tag × SyntaxTree) → List β
  | [] => []
  | (tag, tree) :: fields =>
    (f tag tree).elim (tree.collect f) ([·]) ++ collectFields f fields

def collectItems {β : Type} (f : Tag → SyntaxTree → Option β) : List SyntaxTree → List β
  | [] => []
  | tree :: items => tree.collect f ++ collectItems f items

end

mutual

def decEq : (t u : SyntaxTree) → Decidable (t = u)
  | text s span, text s' span' => decidable_of_iff (s = s' ∧ span = span') (by simp)
  | tagged fields, tagged fields' =>
    @decidable_of_iff _ (fields = fields') (by simp) (decEqFields fields fields')
  | sequence items, sequence items' =>
    @decidable_of_iff _ (items = items') (by simp) (decEqItems items items')
  | text .., tagged _ | text .., sequence _ | tagged _, text .. | tagged _, sequence _
  | sequence _, text .. | sequence _, tagged _ => .isFalse (by simp)

def decEqFields : (fields fields' : List (Tag × SyntaxTree)) → Decidable (fields = fields')
  | [], [] => .isTrue rfl
  | (tag, t) :: fields, (tag', u) :: fields' =>
    have := decEq t u
    have := decEqFields fields fields'
    decidable_of_iff ((tag = tag' ∧ t = u) ∧ fields = fields') (by simp)
  | [], _ :: _ | _ :: _, [] => .isFalse (by simp)

def decEqItems : (items items' : List SyntaxTree) → Decidable (items = items')
  | [], [] => .isTrue rfl
  | t :: items, u :: items' =>
    have := decEq t u
    have := decEqItems items items'
    decidable_of_iff (t = u ∧ items = items') (by simp)
  | [], _ :: _ | _ :: _, [] => .isFalse (by simp)

end

instance : DecidableEq SyntaxTree := decEq

end SyntaxTree

/-- The characters of `text` stand between the places `p` and `q`. -/
structure Between (p : Position) (text : List Char) (q : Position) : Prop where
  rest_eq : p.rest = text ++ q.rest
  offset_eq : q.offset = p.offset + byteLength text

structure Gap (p : Position) (text : List Char) (q : Position) : Prop extends Between p text q where
  blank : ∀ c ∈ text, isBlank c = true

/-- A bare run that cannot be continued to the right. -/
structure BareRun (p : Position) (text : List Char) (q : Position) : Prop
    extends Between p text q where
  bare : ∀ c ∈ text, isBare c = true
  maximal : ∀ c ∈ q.rest.head?, isBare c = false

structure BareWord (text : List Char) : Prop where
  nonempty : text ≠ []
  bare : ∀ c ∈ text, isBare c = true
  unquoted : ∀ c ∈ text.head?, isQuote c = false
  unreserved : ∀ op : Connective, text ≠ op.keyword.toList

/-- A text that may stand between two quotes: units of a backslash and any character, and
characters other than the quote and the backslash. -/
inductive LiteralBody (quote : Char) : List Char → Prop
  | nil : LiteralBody quote []
  | escaped (c : Char) {cs : List Char} : LiteralBody quote cs → LiteralBody quote ('\\' :: c :: cs)
  | plain {c : Char} {cs : List Char} :
    c ≠ quote → c ≠ '\\' → LiteralBody quote cs → LiteralBody quote (c :: cs)

/-- A part of a query: where it starts, its tree and where it ends. -/
abbrev Phrase := Position → SyntaxTree → Position → Prop

inductive Star {σ α : Type} (item : σ → α → σ → Prop) : σ → List α → σ → Prop
  | nil (p : σ) : Star item p [] p
  | cons {p q r : σ} {a : α} {as : List α} :
    item p a q → Star item q as r → Star item p (a :: as) r

inductive Pair (op : Tag) (separator operand : Phrase) : Phrase
  | mk {p q r : Position} {mark right : SyntaxTree} :
    separator p mark q → operand q right r →
    Pair op separator operand p (.tagged [(op, mark), (.right, right)]) r

inductive Operands (op : Tag) (separator operand : Phrase) : Phrase
  | one {p q : Position} {head : SyntaxTree} :
    operand p head q → Operands op separator operand p (.tagged [(.left, head)]) q
  | many {p q r s : Position} {head first : SyntaxTree} {others : List SyntaxTree} :
    operand p head q → Pair op separator operand q first r →
    Star (Pair op separator operand) r others s →
    Operands op separator operand p (.sequence (.tagged [(.left, head)] :: first :: others)) s

namespace Phrase

inductive OrSeparator : Phrase
  | spelled {p q r s : Position} {before after : List Char} :
    Gap p before q → BareRun q Connective.or.keyword.toList r → Gap r after s →
    OrSeparator p (.text (String.ofList (before ++ Connective.or.keyword.toList ++ after))
      ⟨p.offset, p.offset + byteLength (before ++ Connective.or.keyword.toList ++ after)⟩) s
  | blanks {p q : Position} {gap : List Char} :
    Gap p gap q → gap ≠ [] →
    OrSeparator p (.text (String.ofList gap) ⟨p.offset, p.offset + byteLength gap⟩) q

inductive AndSeparator : Phrase
  | mk {p q r s : Position} {before after : List Char} :
    Gap p before q → before ≠ [] → BareRun q Connective.and.keyword.toList r →
    Gap r after s → after ≠ [] →
    AndSeparator p (.text (String.ofList (before ++ Connective.and.keyword.toList ++ after))
      ⟨p.offset, p.offset + byteLength (before ++ Connective.and.keyword.toList ++ after)⟩) s

inductive Word : Phrase
  | quoted {p q : Position} {quote : Char} {body : List Char} :
    isQuote quote = true → LiteralBody quote body → Between p (quote :: body ++ [quote]) q →
    Word p (.tagged [(.word, .tagged [(.str,
      .text (String.ofList body) ⟨p.offset + 1, p.offset + 1 + byteLength body⟩)])]) q
  | bare {p q : Position} {text : List Char} :
    BareRun p text q → BareWord text →
    Word p (.tagged [(.word,
      .text (String.ofList text) ⟨p.offset, p.offset + byteLength text⟩)]) q

inductive Primary : Position → SyntaxTree → Position → Prop
  | group {p q r s u v : Position} {before after : List Char} {t : SyntaxTree} :
    Between p ['('] q → Gap q before r →
    Operands .or OrSeparator (Operands .and AndSeparator Primary) r t s →
    Gap s after u → Between u [')'] v → Primary p (.tagged [(.paren, t)]) v
  | word {p q : Position} {t : SyntaxTree} : Word p t q → Primary p t q

abbrev AndExpr : Phrase := Operands .and AndSeparator Primary

abbrev OrExpr : Phrase := Operands .or OrSeparator AndExpr

inductive Whole : Phrase
  | mk {p q r s : Position} {before after : List Char} {t : SyntaxTree} :
    Gap p before q → OrExpr q t r → Gap r after s → s.rest = [] → Whole p t s

end Phrase

/-- The whole of `input` is a query with the tree `t`. -/
def Derives (input : String) (t : SyntaxTree) : Prop :=
  ∃ q, Phrase.Whole ⟨0, input.toList⟩ t q

variable {p q r : Position} {a b text : List Char} {t : SyntaxTree}

theorem Between.refl (p : Position) : Between p [] p := ⟨rfl, rfl⟩

theorem Between.trans (h : Between p a q) (h' : Between q b r) : Between p (a ++ b) r := by
  constructor
  · rw [h.rest_eq, h'.rest_eq, List.append_assoc]
  · rw [h'.offset_eq, h.offset_eq, byteLength_append, Nat.add_assoc]

theorem Between.offset_le (h : Between p text q) : p.offset ≤ q.offset := by
  rw [h.offset_eq]
  exact Nat.le_add_right _ _

theorem Between.eq_advance (h : Between p text q) : q = p.advance text := by
  cases q
  simp only [Position.advance, h.rest_eq, List.drop_left, ← h.offset_eq]

theorem Between.text_eq {q' : Position} (h : Between p a q) (h' : Between p b q')
    (hoffset : q.offset = q'.offset) : a = b := by
  have hlength : byteLength a = byteLength b := by
    have ha := h.offset_eq
    have hb := h'.offset_eq
    omega
  have hsplit := splitAtByte_append b q'.rest
  rw [← h'.rest_eq, h.rest_eq, ← hlength, splitAtByte_append] at hsplit
  exact congrArg Prod.fst (Option.some.inj hsplit)

theorem between_advance (h : text <+: p.rest) : Between p text (p.advance text) := by
  obtain ⟨rest, hrest⟩ := h
  refine ⟨?_, rfl⟩
  rw [Position.advance, ← hrest, List.drop_left]

theorem Between.head?_eq (h : Between p text q) (hne : text ≠ []) :
    p.rest.head? = text.head? := by
  obtain ⟨c, cs, rfl⟩ := List.exists_cons_of_ne_nil hne
  simp [h.rest_eq]

theorem Between.forall_head? {c : Char} {P : Char → Prop} (h : Between p (c :: text) q) (hc : P c) :
    ∀ d ∈ p.rest.head?, P d := by
  intro d hd
  rw [h.head?_eq (List.cons_ne_nil c text)] at hd
  obtain rfl : c = d := by simpa using hd
  exact hc

theorem Gap.refl (p : Position) : Gap p [] p := ⟨.refl p, by simp⟩

theorem Gap.takeWhile_eq (h : Gap p text q) (hq : ∀ c ∈ q.rest.head?, isBlank c = false) :
    p.rest.takeWhile isBlank = text := by
  rw [h.rest_eq, takeWhile_append_eq_left h.blank hq]

theorem gap_takeWhile (p : Position) :
    Gap p (p.rest.takeWhile isBlank) (p.advance (p.rest.takeWhile isBlank)) :=
  ⟨between_advance (List.takeWhile_prefix _), fun _ => List.mem_takeWhile_imp⟩

theorem BareRun.bareRun_eq (h : BareRun p text q) : bareRun p.rest = text := by
  rw [bareRun, h.rest_eq, takeWhile_append_eq_left h.bare h.maximal]

theorem not_blank_of_isBare {c : Char} (h : isBare c = true) : isBlank c = false := by
  simp only [isBare, Bool.and_eq_true, Bool.not_eq_true'] at h
  exact h.1.1

theorem isQuote_iff {c : Char} : isQuote c = true ↔ c = '"' ∨ c = '\'' := by
  simp [isQuote]

theorem isBare_of_isQuote {c : Char} (h : isQuote c = true) : isBare c = true := by
  rcases isQuote_iff.mp h with rfl | rfl <;> decide

theorem ne_parens_of_isBare {c : Char} (h : isBare c = true) : c ≠ '(' ∧ c ≠ ')' := by
  constructor <;> (rintro rfl; exact absurd h (by decide))

theorem bare_keyword (op : Connective) : ∀ c ∈ op.keyword.toList, isBare c = true := by
  cases op <;> simp [Connective.keyword, isBare, isBlank]

theorem blank_space : ∀ c ∈ [' '], isBlank c = true :=
  List.forall_mem_singleton.mpr rfl

theorem BareRun.not_blank (h : BareRun p text q) (hne : text ≠ []) :
    ∀ c ∈ p.rest.head?, isBlank c = false := by
  intro c hc
  rw [h.head?_eq hne] at hc
  exact not_blank_of_isBare (h.bare c (List.mem_of_mem_head? hc))

theorem bareRun_eq_nil {cs : List Char} (h : ∀ c ∈ cs.head?, isBare c = false) :
    bareRun cs = [] :=
  takeWhile_append_eq_left (a := []) (by simp) h

theorem bareRun_maximal (p : Position) :
    BareRun p (bareRun p.rest) (p.advance (bareRun p.rest)) :=
  ⟨between_advance (List.takeWhile_prefix _), fun _ => List.mem_takeWhile_imp,
    fun _ => not_of_mem_head?_drop_takeWhile⟩

theorem Star.mono {σ α : Type} {item item' : σ → α → σ → Prop}
    (h : ∀ p a q, item p a q → item' p a q) {p q : σ} {as : List α} (hs : Star item p as q) :
    Star item' p as q := by
  induction hs with
  | nil p => exact .nil p
  | cons ha _ ih => exact .cons (h _ _ _ ha) ih

theorem Star.append {σ α : Type} {item : σ → α → σ → Prop} {p q r : σ} {as bs : List α}
    (ha : Star item p as q) (hb : Star item q bs r) : Star item p (as ++ bs) r := by
  induction ha with
  | nil p => exact hb
  | cons hitem _ ih => exact .cons hitem (ih hb)

theorem Operands.of_star {op : Tag} {separator operand : Phrase} {head : SyntaxTree}
    {pairs : List SyntaxTree} (hhead : operand p head q)
    (hpairs : Star (Pair op separator operand) q pairs r) :
    Operands op separator operand p (.chain head pairs) r := by
  cases hpairs with
  | nil => exact .one hhead
  | cons hfirst hothers => exact .many hhead hfirst hothers

theorem Operands.exists_chain {op : Tag} {separator operand : Phrase}
    (h : Operands op separator operand p t r) :
    ∃ head pairs q, t = .chain head pairs ∧ operand p head q ∧
      Star (Pair op separator operand) q pairs r := by
  cases h with
  | one hhead => exact ⟨_, [], _, rfl, hhead, .nil _⟩
  | many hhead hfirst hothers => exact ⟨_, _ :: _, _, rfl, hhead, .cons hfirst hothers⟩

theorem Operands.mono {op : Tag} {separator operand operand' : Phrase}
    (h : ∀ p t q, operand p t q → operand' p t q) (ht : Operands op separator operand p t q) :
    Operands op separator operand' p t q := by
  obtain ⟨head, pairs, _, rfl, hhead, hpairs⟩ := ht.exists_chain
  refine .of_star (h _ _ _ hhead) (hpairs.mono ?_)
  rintro p t q ⟨hmark, hright⟩
  exact ⟨hmark, h _ _ _ hright⟩

namespace Phrase

/-- Induction on groups: inside a group all operands already have the property. -/
theorem Primary.induct {motive : Phrase}
    (group : ∀ {p q r s u v : Position} {before after : List Char} {t : SyntaxTree},
      Between p ['('] q → Gap q before r →
      Operands .or OrSeparator (Operands .and AndSeparator motive) r t s →
      Gap s after u → Between u [')'] v → motive p (.tagged [(.paren, t)]) v)
    (word : ∀ {p q : Position} {t : SyntaxTree}, Word p t q → motive p t q)
    (h : Primary p t q) : motive p t q := by
  refine @Primary.rec (fun p t q _ => motive p t q)
    (fun p t q _ => Operands .or OrSeparator (Operands .and AndSeparator motive) p t q)
    (fun p t q _ => Operands .and AndSeparator motive p t q)
    (fun p t q _ => Pair .or OrSeparator (Operands .and AndSeparator motive) p t q)
    (fun p ts q _ => Star (Pair .or OrSeparator (Operands .and AndSeparator motive)) p ts q)
    (fun p t q _ => Pair .and AndSeparator motive p t q)
    (fun p ts q _ => Star (Pair .and AndSeparator motive) p ts q)
    ?_ ?_ ?_ ?_ ?_ ?_ ?_ ?_ ?_ ?_ ?_ ?_ p t q h
  · intro p q r s u v before after t hopen hbefore _ hafter hclose ih
    exact group hopen hbefore ih hafter hclose
  · intro p q t h
    exact word h
  · intro p q head _ hhead
    exact .one hhead
  · intro p q r s head first others _ _ _ hhead hfirst hothers
    exact .many hhead hfirst hothers
  · intro p q head _ hhead
    exact .one hhead
  · intro p q r s head first others _ _ _ hhead hfirst hothers
    exact .many hhead hfirst hothers
  · intro p q r mark right hmark _ hright
    exact ⟨hmark, hright⟩
  · exact .nil
  · intro p q r t ts _ _ hitem hitems
    exact .cons hitem hitems
  · intro p q r mark right hmark _ hright
    exact ⟨hmark, hright⟩
  · exact .nil
  · intro p q r t ts _ _ hitem hitems
    exact .cons hitem hitems

end Phrase

def Consumes (item : Phrase) : Prop :=
  ∀ p t q, item p t q → ∃ text, text ≠ [] ∧ Between p text q

theorem Consumes.pair {op : Tag} {separator operand : Phrase} (hs : Consumes separator)
    (ho : Consumes operand) : Consumes (Pair op separator operand) := by
  rintro p t q ⟨hmark, hright⟩
  obtain ⟨a, ha, hpa⟩ := hs _ _ _ hmark
  obtain ⟨b, -, hb⟩ := ho _ _ _ hright
  exact ⟨a ++ b, by simp [ha], hpa.trans hb⟩

theorem Consumes.star {item : Phrase} (hi : Consumes item) {ts : List SyntaxTree}
    (h : Star item p ts q) : ∃ text, ts.length ≤ text.length ∧ Between p text q := by
  induction h with
  | nil p => exact ⟨[], by simp, .refl p⟩
  | cons hitem _ ih =>
    obtain ⟨a, ha, hpa⟩ := hi _ _ _ hitem
    obtain ⟨b, hlength, hb⟩ := ih
    have hpos := List.length_pos_iff.mpr ha
    refine ⟨a ++ b, ?_, hpa.trans hb⟩
    simp only [List.length_cons, List.length_append]
    omega

theorem Consumes.length_le {item : Phrase} (hi : Consumes item) {ts : List SyntaxTree}
    (h : Star item p ts q) : ts.length ≤ p.rest.length := by
  obtain ⟨text, hlength, hspan⟩ := hi.star h
  rw [hspan.rest_eq, List.length_append]
  omega

theorem Consumes.operands {op : Tag} {separator operand : Phrase} (hs : Consumes separator)
    (ho : Consumes operand) : Consumes (Operands op separator operand) := by
  intro p t q h
  obtain ⟨head, pairs, _, rfl, hhead, hpairs⟩ := h.exists_chain
  obtain ⟨a, ha, hpa⟩ := ho _ _ _ hhead
  obtain ⟨b, -, hb⟩ := (hs.pair ho).star hpairs
  exact ⟨a ++ b, by simp [ha], hpa.trans hb⟩

structure Clear (p : Position) : Prop where
  not_blank : ∀ c ∈ p.rest.head?, isBlank c = false
  not_keyword : ∀ op : Connective, bareRun p.rest ≠ op.keyword.toList

theorem clear_of_not_bare (hb : ∀ c ∈ p.rest.head?, isBlank c = false)
    (hn : ∀ c ∈ p.rest.head?, isBare c = false) : Clear p := by
  refine ⟨hb, fun op => ?_⟩
  rw [bareRun_eq_nil hn]
  cases op <;> decide

theorem clear_of_opening (h : p.rest.head? = some '(') : Clear p := by
  refine clear_of_not_bare ?_ ?_ <;>
  · intro c hc
    obtain rfl : '(' = c := by simpa [h] using hc
    decide

def AtClose (p : Position) : Prop :=
  ∀ c ∈ p.rest.head?, c = ')'

theorem AtClose.clear (h : AtClose p) : Clear p := by
  apply clear_of_not_bare
  all_goals
    intro c hc
    rw [h c hc]
    decide

theorem atClose_of_between (h : Between p [')'] q) : AtClose p :=
  h.forall_head? rfl

theorem atClose_of_rest_eq_nil (h : p.rest = []) : AtClose p := by
  simp [AtClose, h]

namespace Phrase

theorem OrSeparator.consumes : Consumes OrSeparator := by
  intro p t q h
  cases h with
  | spelled hbefore hname hafter =>
    refine ⟨_, ?_, (hbefore.toBetween.trans hname.toBetween).trans hafter.toBetween⟩
    simp [Connective.keyword]
  | blanks hgap hne => exact ⟨_, hne, hgap.toBetween⟩

theorem AndSeparator.consumes : Consumes AndSeparator := by
  rintro p t q ⟨hbefore, hne, hname, hafter, -⟩
  exact ⟨_, by simp [hne], (hbefore.toBetween.trans hname.toBetween).trans hafter.toBetween⟩

theorem Word.consumes : Consumes Word := by
  intro p t q h
  cases h with
  | quoted _ _ hspan => exact ⟨_, by simp, hspan⟩
  | bare hrun hword => exact ⟨_, hword.nonempty, hrun.toBetween⟩

theorem Primary.consumes : Consumes Primary := by
  intro p t q h
  refine h.induct (motive := fun p _ q => ∃ text, text ≠ [] ∧ Between p text q) ?_ ?_
  · intro p q r s u v before after t hopen hbefore ht hafter hclose
    have hinside : Consumes (Operands .and AndSeparator
        fun p _ q => ∃ text, text ≠ [] ∧ Between p text q) :=
      AndSeparator.consumes.operands fun _ _ _ => id
    obtain ⟨text, -, hspan⟩ := OrSeparator.consumes.operands hinside _ _ _ ht
    exact ⟨_, by simp, hopen.trans (hbefore.toBetween.trans
      (hspan.trans (hafter.toBetween.trans hclose)))⟩
  · exact Word.consumes _ _ _

theorem Primary.clear (h : Primary p t q) : Clear p := by
  cases h with
  | group hopen =>
    exact clear_of_not_bare (hopen.forall_head? (by decide)) (hopen.forall_head? (by decide))
  | word h =>
    cases h with
    | @quoted _ _ quote body hquote _ hspan =>
      have hhead : p.rest = quote :: (body ++ [quote] ++ q.rest) := by simp [hspan.rest_eq]
      refine ⟨hspan.forall_head? ?_, fun op => ?_⟩
      · rcases isQuote_iff.mp hquote with rfl | rfl <;> decide
      · rw [hhead, bareRun]
        rcases isQuote_iff.mp hquote with rfl | rfl <;> cases op <;>
          simp [Connective.keyword, isBare, isBlank]
    | bare hrun hword =>
      refine ⟨hrun.not_blank hword.nonempty, fun op => ?_⟩
      rw [hrun.bareRun_eq]
      exact hword.unreserved op

theorem Word.head?_ne (h : Word p t q) : p.rest.head? ≠ some '(' := by
  cases h with
  | quoted hquote _ hspan =>
    rw [hspan.head?_eq (by simp)]
    rintro ⟨⟩
    exact absurd hquote (by decide)
  | bare hrun hword =>
    rw [hrun.head?_eq hword.nonempty]
    intro hhead
    exact absurd (hword.bare _ (List.mem_of_mem_head? hhead)) (by decide)

theorem AndExpr.clear (h : AndExpr p t q) : Clear p := by
  obtain ⟨head, pairs, _, rfl, hhead, -⟩ := h.exists_chain
  exact hhead.clear

theorem OrExpr.exists_primary (h : OrExpr p t q) : ∃ u r, Primary p u r := by
  obtain ⟨head, pairs, _, rfl, hhead, -⟩ := h.exists_chain
  obtain ⟨first, others, r, rfl, hfirst, -⟩ := hhead.exists_chain
  exact ⟨first, r, hfirst⟩

theorem OrExpr.clear (h : OrExpr p t q) : Clear p := by
  obtain ⟨u, r, hfirst⟩ := h.exists_primary
  exact hfirst.clear

end Phrase

namespace SyntaxTree

@[simp] theorem nesting_text (content : String) (span : Span) :
    (SyntaxTree.text content span).nesting = 0 := by
  rw [nesting]

@[simp] theorem nesting_tagged_one (tag : Tag) (t : SyntaxTree) :
    (tagged [(tag, t)]).nesting = if tag = .paren then t.nesting + 1 else t.nesting := by
  simp [nesting, nestingFields]

theorem nesting_pair {op : Tag} (hop : op ≠ .paren) (mark right : SyntaxTree) :
    (tagged [(op, mark), (.right, right)]).nesting = max mark.nesting right.nesting := by
  simp [nesting, nestingFields, hop]

@[simp] theorem nesting_chain (head : SyntaxTree) (pairs : List SyntaxTree) :
    (chain head pairs).nesting = max head.nesting (nestingItems pairs) := by
  cases pairs with
  | nil => simp [chain, nestingItems]
  | cons t ts => simp [chain, nesting, nestingItems, nestingFields]

section Collect

variable {β : Type} {f : Tag → SyntaxTree → Option β} {tag : Tag} {t : SyntaxTree}

theorem collect_text (content : String) (span : Span) :
    (SyntaxTree.text content span).collect f = [] := by
  rw [collect]

theorem collect_tagged_one (tag : Tag) (t : SyntaxTree) :
    (tagged [(tag, t)]).collect f = (f tag t).elim (t.collect f) ([·]) := by
  simp [collect, collectFields]

theorem collect_pair (op : Tag) (mark : SyntaxTree) (h : f .right t = none) :
    (tagged [(op, mark), (.right, t)]).collect f =
      (tagged [(op, mark)]).collect f ++ t.collect f := by
  simp [collect, collectFields, h]

theorem collect_chain (h : f .left t = none) (pairs : List SyntaxTree) :
    (chain t pairs).collect f = t.collect f ++ collectItems f pairs := by
  have hleft : (tagged [(.left, t)]).collect f = t.collect f := by rw [collect_tagged_one, h]; rfl
  cases pairs with
  | nil => simp [chain, hleft, collectItems]
  | cons u us =>
    change (sequence (tagged [(.left, t)] :: u :: us)).collect f = _
    rw [collect, collectItems, hleft]

end Collect

end SyntaxTree

/-- The texts of one kind whose groups nest at most `n` levels. -/
def Limited (n : Nat) (item : Phrase) : Phrase :=
  fun p t q => item p t q ∧ t.nesting ≤ n

section Limited

variable {n : Nat} {op : Tag} {separator operand : Phrase}

theorem star_limited_iff (hop : op ≠ .paren) (hs : ∀ p t q, separator p t q → t.nesting = 0)
    {ts : List SyntaxTree} :
    Star (Pair op separator (Limited n operand)) p ts q ↔
      Star (Pair op separator operand) p ts q ∧ SyntaxTree.nestingItems ts ≤ n := by
  constructor
  · intro h
    induction h with
    | nil p => exact ⟨.nil p, by simp [SyntaxTree.nestingItems]⟩
    | cons hitem _ ih =>
      obtain ⟨hmark, hright, hn⟩ := hitem
      refine ⟨.cons ⟨hmark, hright⟩ ih.1, ?_⟩
      rw [SyntaxTree.nestingItems, SyntaxTree.nesting_pair hop, hs _ _ _ hmark]
      have := ih.2
      omega
  · rintro ⟨h, hn⟩
    induction h with
    | nil p => exact .nil p
    | cons hitem _ ih =>
      obtain ⟨hmark, hright⟩ := hitem
      rw [SyntaxTree.nestingItems, SyntaxTree.nesting_pair hop] at hn
      exact .cons ⟨hmark, hright, by omega⟩ (ih (by omega))

theorem operands_limited (hop : op ≠ .paren) (hs : ∀ p t q, separator p t q → t.nesting = 0) :
    Operands op separator (Limited n operand) = Limited n (Operands op separator operand) := by
  funext p t q
  apply propext
  constructor
  · intro h
    obtain ⟨head, pairs, _, rfl, ⟨hhead, hn⟩, hpairs⟩ := h.exists_chain
    obtain ⟨hpairs, hm⟩ := (star_limited_iff hop hs).mp hpairs
    exact ⟨.of_star hhead hpairs, by simp only [SyntaxTree.nesting_chain]; omega⟩
  · rintro ⟨h, hn⟩
    obtain ⟨head, pairs, _, rfl, hhead, hpairs⟩ := h.exists_chain
    rw [SyntaxTree.nesting_chain] at hn
    exact .of_star ⟨hhead, by omega⟩ ((star_limited_iff hop hs).mpr ⟨hpairs, by omega⟩)

end Limited

namespace Phrase

theorem OrSeparator.nesting_eq (p : Position) (t : SyntaxTree) (q : Position)
    (h : OrSeparator p t q) : t.nesting = 0 := by
  cases h <;> exact SyntaxTree.nesting_text _ _

theorem AndSeparator.nesting_eq (p : Position) (t : SyntaxTree) (q : Position)
    (h : AndSeparator p t q) : t.nesting = 0 := by
  obtain ⟨⟩ := h
  exact SyntaxTree.nesting_text _ _

theorem Word.nesting_eq (h : Word p t q) : t.nesting = 0 := by
  cases h <;> simp

theorem orExpr_limited (n : Nat) :
    Operands .or OrSeparator (Operands .and AndSeparator (Limited n Primary)) =
      Limited n OrExpr := by
  rw [operands_limited (by decide) AndSeparator.nesting_eq,
    operands_limited (by decide) OrSeparator.nesting_eq]

end Phrase
end SearchFilter.Query
