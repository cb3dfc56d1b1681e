import SearchFilter.Proofs.Parameters
import SearchFilter.Proofs.Spelling

/-! Parse trees lose nothing. The leaves of a tree lie in the query from left to right, each with the
text at its span, and all that lies in none of them are the blanks around the query, the parentheses
of groups with the blanks inside them, and the quotes around literals. -/

namespace SearchFilter.Query

open Text Phrase

def placed (offset : Nat) : List Char → List (Nat × Char)
  | [] => []
  | c :: cs => (offset, c) :: placed (offset + c.utf8Size) cs

def Span.covers (span : Span) (offset : Nat) : Bool :=
  span.start ≤ offset && offset < span.stop

def uncovered (leaves : List (String × Span)) (chars : List (Nat × Char)) : List (Nat × Char) :=
  chars.filter fun x => !leaves.any (·.2.covers x.1)

def bounds (leaves : List (String × Span)) : List Nat :=
  leaves.flatMap fun leaf => [leaf.2.start, leaf.2.stop]

def SyntaxTree.leaves (t : SyntaxTree) : List (String × Span) :=
  t.leavesFrom true

def LeafAt (input : String) (leaf : String × Span) : Prop :=
  ∃ before after, input.toList = before ++ (leaf.1.toList ++ after) ∧
    leaf.2 = ⟨byteLength before, byteLength before + byteLength leaf.1.toList⟩

mutual

/-- The tree stands between two places, and `marks` is all that its leaves leave out there: one quote
on each side of a literal, and the parentheses of a group with the blanks inside them. The parts of any
other node stand directly after each other. -/
inductive Frame : Position → SyntaxTree → (marks : List (Nat × Char)) → Position → Prop
  | text {p q : Position} {s : String} :
    Between p s.toList q → Frame p (.text s ⟨p.offset, q.offset⟩) [] q
  | str {p q r u : Position} {quote : Char} {s : String} :
    isQuote quote = true → Between p [quote] q → Between q s.toList r → Between r [quote] u →
    Frame p (.tagged [(.str, .text s ⟨q.offset, r.offset⟩)])
      [(p.offset, quote), (r.offset, quote)] u
  | paren {p q r s u v : Position} {before after : List Char} {t : SyntaxTree}
      {marks : List (Nat × Char)} :
    Between p ['('] q → Gap q before r → Frame r t marks s → Gap s after u → Between u [')'] v →
    Frame p (.tagged [(.paren, t)])
      ((p.offset, '(') :: placed q.offset before ++ marks ++ placed s.offset after ++
        [(u.offset, ')')]) v
  | tagged {p q : Position} {fields : List (Tag × SyntaxTree)} {marks : List (Nat × Char)} :
    (∀ field ∈ fields, field.1 ≠ .str ∧ field.1 ≠ .paren) →
    Frames p (fields.map Prod.snd) marks q → Frame p (.tagged fields) marks q
  | sequence {p q : Position} {items : List SyntaxTree} {marks : List (Nat × Char)} :
    Frames p items marks q → Frame p (.sequence items) marks q

inductive Frames : Position → List SyntaxTree → (marks : List (Nat × Char)) → Position → Prop
  | nil (p : Position) : Frames p [] [] p
  | cons {p q r : Position} {t : SyntaxTree} {ts : List SyntaxTree}
      {marks more : List (Nat × Char)} :
    Frame p t marks q → Frames q ts more r → Frames p (t :: ts) (marks ++ more) r

end

inductive Pieces : Position → List (String × Span) → List (Nat × Char) → Position → Prop
  | nil (p : Position) : Pieces p [] [] p
  | leaf {p q r : Position} {s : String} {leaves : List (String × Span)}
      {marks : List (Nat × Char)} :
    Between p s.toList q → Pieces q leaves marks r →
    Pieces p ((s, ⟨p.offset, q.offset⟩) :: leaves) marks r
  | mark {p q r : Position} {c : Char} {leaves : List (String × Span)}
      {marks : List (Nat × Char)} :
    Between p [c] q → Pieces q leaves marks r → Pieces p leaves ((p.offset, c) :: marks) r

variable {p q r : Position} {t : SyntaxTree} {ts : List SyntaxTree} {text : List Char}
  {leaves leaves' : List (String × Span)} {marks marks' : List (Nat × Char)}

section Placed

theorem placed_append (offset : Nat) (a b : List Char) :
    placed offset (a ++ b) = placed offset a ++ placed (offset + byteLength a) b := by
  induction a generalizing offset with
  | nil => rfl
  | cons c cs ih =>
    have hoffset : offset + c.utf8Size + byteLength cs = offset + byteLength (c :: cs) := by
      simp only [byteLength, List.foldr_cons]
      omega
    rw [List.cons_append, placed, placed, ih, hoffset, List.cons_append]

theorem mem_placed {offset : Nat} {x : Nat × Char} (h : x ∈ placed offset text) :
    offset ≤ x.1 ∧ x.1 < offset + byteLength text := by
  induction text generalizing offset with
  | nil => cases h
  | cons c cs ih =>
    have hpos := c.utf8Size_pos
    have hlength : byteLength (c :: cs) = c.utf8Size + byteLength cs := rfl
    rcases List.mem_cons.mp h with rfl | h
    · omega
    · have hrest := ih h
      omega

theorem uncovered_append (leaves : List (String × Span)) (a b : List (Nat × Char)) :
    uncovered leaves (a ++ b) = uncovered leaves a ++ uncovered leaves b :=
  List.filter_append a b

theorem uncovered_inside {s : String} (h : Between p s.toList q) :
    uncovered ((s, ⟨p.offset, q.offset⟩) :: leaves) (placed p.offset s.toList) = [] := by
  refine List.filter_eq_nil_iff.mpr fun x hx => ?_
  have hbounds := mem_placed hx
  rw [← h.offset_eq] at hbounds
  simp [Span.covers, hbounds.1, hbounds.2]

theorem uncovered_after {s : String} {start stop : Nat} :
    uncovered ((s, ⟨start, stop⟩) :: leaves) (placed stop text) =
      uncovered leaves (placed stop text) := by
  refine List.filter_congr fun x hx => ?_
  have hle := (mem_placed hx).1
  simp [Span.covers, Nat.not_lt.mpr hle]

theorem uncovered_before {offset : Nat} {c : Char} (h : ∀ leaf ∈ leaves, offset < leaf.2.start) :
    uncovered leaves [(offset, c)] = [(offset, c)] := by
  have hfree : (leaves.any fun leaf => leaf.2.covers offset) = false := by
    refine List.any_eq_false.mpr fun leaf hleaf => ?_
    simp [Span.covers, Nat.not_le.mpr (h leaf hleaf)]
  simp [uncovered, hfree]

end Placed

namespace Pieces

theorem append (h : Pieces p leaves marks q) (h' : Pieces q leaves' marks' r) :
    Pieces p (leaves ++ leaves') (marks ++ marks') r := by
  induction h with
  | nil p => exact h'
  | leaf hleaf _ ih => exact .leaf hleaf (ih h')
  | mark hmark _ ih => exact .mark hmark (ih h')

theorem of_between (h : Between p text q) : Pieces p [] (placed p.offset text) q := by
  induction text generalizing p with
  | nil =>
    obtain rfl : p = q := by rw [h.eq_advance, Position.advance]; simp [byteLength]
    exact .nil p
  | cons c cs ih =>
    obtain ⟨r, hc, hcs⟩ := Between.split (a := [c]) h
    have hoffset : r.offset = p.offset + c.utf8Size := hc.offset_eq
    have hrest := ih hcs
    rw [hoffset] at hrest
    exact .mark hc hrest

theorem between (h : Pieces p leaves marks q) : ∃ text, Between p text q := by
  induction h with
  | nil p => exact ⟨[], .refl p⟩
  | leaf hleaf _ ih =>
    obtain ⟨text, htext⟩ := ih
    exact ⟨_, hleaf.trans htext⟩
  | mark hmark _ ih =>
    obtain ⟨text, htext⟩ := ih
    exact ⟨_, hmark.trans htext⟩

theorem bounds_sorted (h : Pieces p leaves marks q) :
    (p.offset :: (bounds leaves ++ [q.offset])).Pairwise (· ≤ ·) := by
  have hlower : ∀ {a b : Nat} {l : List Nat}, a ≤ b → (b :: l).Pairwise (· ≤ ·) →
      (a :: l).Pairwise (· ≤ ·) := by
    intro a b l hab hl
    obtain ⟨hb, hl⟩ := List.pairwise_cons.mp hl
    exact List.pairwise_cons.mpr ⟨fun x hx => hab.trans (hb x hx), hl⟩
  have hrepeat : ∀ {b : Nat} {l : List Nat}, (b :: l).Pairwise (· ≤ ·) →
      (b :: b :: l).Pairwise (· ≤ ·) := by
    intro b l hl
    refine List.pairwise_cons.mpr ⟨fun x hx => ?_, hl⟩
    rcases List.mem_cons.mp hx with rfl | hx
    · exact le_rfl
    · exact (List.pairwise_cons.mp hl).1 x hx
  induction h with
  | nil p => simp [bounds]
  | leaf hleaf _ ih => exact hrepeat (hlower hleaf.offset_le (hrepeat ih))
  | mark hmark _ ih => exact hlower hmark.offset_le ih

theorem offset_le_start (h : Pieces p leaves marks q) {leaf : String × Span} (hleaf : leaf ∈ leaves) :
    p.offset ≤ leaf.2.start := by
  have hmem : leaf.2.start ∈ bounds leaves ++ [q.offset] :=
    List.mem_append_left _ (List.mem_flatMap.mpr ⟨leaf, hleaf, List.mem_cons_self⟩)
  exact (List.pairwise_cons.mp h.bounds_sorted).1 _ hmem

theorem leafAt {input : String} {before : List Char} (hp : Between ⟨0, input.toList⟩ before p)
    (h : Pieces p leaves marks q) : ∀ leaf ∈ leaves, LeafAt input leaf := by
  induction h generalizing before with
  | nil p => simp
  | @leaf p q r s leaves marks hleaf _ ih =>
    intro leaf hmem
    rcases List.mem_cons.mp hmem with rfl | hmem
    · have hinput : input.toList = before ++ p.rest := hp.rest_eq
      have hoffset : p.offset = byteLength before := by rw [hp.offset_eq, Nat.zero_add]
      refine ⟨before, q.rest, ?_, ?_⟩
      · rw [hinput, hleaf.rest_eq]
      · rw [hleaf.offset_eq, hoffset]
    · exact ih (hp.trans hleaf) leaf hmem
  | mark hmark _ ih => exact ih (hp.trans hmark)

theorem uncovered_eq (h : Pieces p leaves marks q) (htext : Between p text q) :
    uncovered leaves (placed p.offset text) = marks := by
  induction h generalizing text with
  | nil p =>
    obtain rfl : [] = text := (Between.refl p).text_eq htext rfl
    rfl
  | @leaf p q r s leaves marks hleaf hrest ih =>
    obtain ⟨text', htext'⟩ := hrest.between
    obtain rfl := htext.text_eq (hleaf.trans htext') rfl
    have happend : placed p.offset (s.toList ++ text') =
        placed p.offset s.toList ++ placed q.offset text' := by
      rw [placed_append, hleaf.offset_eq]
    rw [happend, uncovered_append, uncovered_inside hleaf, uncovered_after, List.nil_append]
    exact ih htext'
  | @mark p q r c leaves marks hmark hrest ih =>
    obtain ⟨text', htext'⟩ := hrest.between
    obtain rfl := htext.text_eq (hmark.trans htext') rfl
    have happend : placed p.offset ([c] ++ text') = [(p.offset, c)] ++ placed q.offset text' := by
      rw [placed_append, hmark.offset_eq]
      rfl
    have hlt : p.offset < q.offset := by
      have hnext : q.offset = p.offset + c.utf8Size := hmark.offset_eq
      have hpos := c.utf8Size_pos
      omega
    have hbefore : ∀ leaf ∈ leaves, p.offset < leaf.2.start :=
      fun leaf hleaf => hlt.trans_le (hrest.offset_le_start hleaf)
    rw [happend, uncovered_append, uncovered_before hbefore]
    exact congrArg _ (ih htext')

end Pieces

section Frames

theorem leavesOfFields_true (fields : List (Tag × SyntaxTree)) :
    SyntaxTree.leavesOfFields true fields = SyntaxTree.leavesOfItems true (fields.map Prod.snd) := by
  induction fields with
  | nil => simp [SyntaxTree.leavesOfFields, SyntaxTree.leavesOfItems]
  | cons field fields ih =>
    simp [SyntaxTree.leavesOfFields, SyntaxTree.leavesOfItems, ih]

theorem leaves_text (s : String) (span : Span) : (SyntaxTree.text s span).leaves = [(s, span)] := by
  simp [SyntaxTree.leaves, SyntaxTree.leavesFrom]

theorem leaves_tagged (fields : List (Tag × SyntaxTree)) :
    (SyntaxTree.tagged fields).leaves = SyntaxTree.leavesOfItems true (fields.map Prod.snd) := by
  rw [SyntaxTree.leaves, SyntaxTree.leavesFrom, leavesOfFields_true]

theorem leaves_tagged_one (tag : Tag) (t : SyntaxTree) :
    (SyntaxTree.tagged [(tag, t)]).leaves = t.leaves := by
  rw [SyntaxTree.leaves, SyntaxTree.leavesFrom_tagged]
  rfl

theorem Frame.pieces (h : Frame p t marks q) : Pieces p t.leaves marks q := by
  refine @Frame.rec (fun p t marks q _ => Pieces p t.leaves marks q)
    (fun p ts marks q _ => Pieces p (SyntaxTree.leavesOfItems true ts) marks q)
    ?_ ?_ ?_ ?_ ?_ ?_ ?_ p t marks q h
  · intro p q s hs
    rw [leaves_text]
    exact .leaf hs (.nil q)
  · intro p q r u quote s _ hopen hs hclose
    rw [leaves_tagged_one, leaves_text]
    exact .mark hopen (.leaf hs (.mark hclose (.nil u)))
  · intro p q r s u v before after t marks hopen hbefore _ hafter hclose ih
    have hinside := ((Pieces.of_between hbefore.toBetween).append ih).append
      ((Pieces.of_between hafter.toBetween).append (.mark hclose (.nil v)))
    rw [leaves_tagged_one]
    simpa using Pieces.mark hopen hinside
  · intro p q fields marks _ _ ih
    rw [leaves_tagged]
    exact ih
  · intro p q items marks _ ih
    rw [SyntaxTree.leaves, SyntaxTree.leavesFrom]
    exact ih
  · intro p
    rw [SyntaxTree.leavesOfItems]
    exact .nil p
  · intro p q r t ts marks more _ _ hhead htail
    rw [SyntaxTree.leavesOfItems]
    exact hhead.append htail

theorem frame_leaf (h : Between p text q) : Frame p (.leaf p.offset text) [] q := by
  rw [SyntaxTree.leaf, ← h.offset_eq]
  exact .text (by simpa using h)

theorem Frame.tagged_one {tag : Tag} (hstr : tag ≠ .str) (hparen : tag ≠ .paren)
    (h : Frame p t marks q) : Frame p (.tagged [(tag, t)]) marks q := by
  refine .tagged (by simp [hstr, hparen]) ?_
  have hone := Frames.cons h (.nil q)
  rwa [List.append_nil] at hone

def Framed : Phrase :=
  fun p t q => ∃ marks, Frame p t marks q

variable {op : Tag} {separator : Phrase} {pairs : List SyntaxTree}

theorem framed_pairs (hstr : op ≠ .str) (hparen : op ≠ .paren)
    (hmark : ∀ p t q, separator p t q → Frame p t [] q)
    (h : Star (Pair op separator Framed) p pairs q) : ∃ marks, Frames p pairs marks q := by
  induction h with
  | nil p => exact ⟨[], .nil p⟩
  | @cons p q r t pairs hpair _ ih =>
    obtain ⟨hseparator, marks, hright⟩ := hpair
    obtain ⟨more, hmore⟩ := ih
    have hparts := Frames.cons (hmark _ _ _ hseparator) (.cons hright (.nil q))
    exact ⟨_, .cons (.tagged (by simp [hstr, hparen]) hparts) hmore⟩

theorem framed_operands (hstr : op ≠ .str) (hparen : op ≠ .paren)
    (hmark : ∀ p t q, separator p t q → Frame p t [] q)
    (h : Operands op separator Framed p t q) : Framed p t q := by
  obtain ⟨head, pairs, _, rfl, ⟨marks, hhead⟩, hpairs⟩ := h.exists_chain
  obtain ⟨more, hmore⟩ := framed_pairs hstr hparen hmark hpairs
  have hleft : Frame _ (.tagged [(.left, _)]) marks _ := hhead.tagged_one (by decide) (by decide)
  cases hmore with
  | nil => exact ⟨marks, hleft⟩
  | cons hpair hrest => exact ⟨_, .sequence (.cons hleft (.cons hpair hrest))⟩

end Frames

namespace Phrase

theorem OrSeparator.frame (p : Position) (t : SyntaxTree) (q : Position) (h : OrSeparator p t q) :
    Frame p t [] q := by
  cases h with
  | spelled hbefore hname hafter =>
    exact frame_leaf ((hbefore.toBetween.trans hname.toBetween).trans hafter.toBetween)
  | blanks hgap _ => exact frame_leaf hgap.toBetween

theorem AndSeparator.frame (p : Position) (t : SyntaxTree) (q : Position) (h : AndSeparator p t q) :
    Frame p t [] q := by
  obtain ⟨hbefore, -, hname, hafter, -⟩ := h
  exact frame_leaf ((hbefore.toBetween.trans hname.toBetween).trans hafter.toBetween)

theorem Word.framed (h : Word p t q) : Framed p t q := by
  cases h with
  | @quoted _ _ quote body hquote _ hspan =>
    obtain ⟨r, hopen, hrest⟩ := Between.split (a := [quote]) hspan
    obtain ⟨u, hbody, hclose⟩ := hrest.split
    have hstart : p.offset + 1 = r.offset := by rw [hopen.offset_eq, byteLength_quote hquote]
    have hstop : r.offset + byteLength body = u.offset := hbody.offset_eq.symm
    rw [hstart, hstop]
    have hstr := Frame.str (s := String.ofList body) hquote hopen (by simpa using hbody) hclose
    exact ⟨_, hstr.tagged_one (by decide) (by decide)⟩
  | bare hrun _ => exact ⟨[], (frame_leaf hrun.toBetween).tagged_one (by decide) (by decide)⟩

theorem Primary.framed (h : Primary p t q) : Framed p t q := by
  refine h.induct (motive := Framed) ?_ Word.framed
  intro p q r s u v before after t hopen hbefore ht hafter hclose
  obtain ⟨marks, hinside⟩ := framed_operands (by decide) (by decide) OrSeparator.frame
    (ht.mono fun _ _ _ => framed_operands (by decide) (by decide) AndSeparator.frame)
  exact ⟨_, .paren hopen hbefore hinside hafter hclose⟩

theorem OrExpr.framed (h : OrExpr p t q) : Framed p t q := by
  refine framed_operands (by decide) (by decide) OrSeparator.frame (h.mono fun p t q hand => ?_)
  exact framed_operands (by decide) (by decide) AndSeparator.frame
    (hand.mono fun _ _ _ => Primary.framed)

end Phrase
end Query

open Query Text

theorem parse_lossless {input : String} {maxDepth : Nat} {t : SyntaxTree}
    (h : parse input maxDepth = .ok t) :
    (0 :: (bounds t.leaves ++ [byteLength input.toList])).Pairwise (· ≤ ·) ∧
    (∀ leaf ∈ t.leaves, LeafAt input leaf ∧ Span.slice input leaf.2 = some leaf.1) ∧
    ∃ before after marks p q, Gap ⟨0, input.toList⟩ before p ∧ Frame p t marks q ∧
      Gap q after ⟨byteLength input.toList, []⟩ ∧
      uncovered t.leaves (placed 0 input.toList) =
        placed 0 before ++ marks ++ placed q.offset after := by
  obtain ⟨⟨stop, hbefore, ht, hafter, hrest⟩, -⟩ := derives_of_parse h
  obtain ⟨marks, hframe⟩ := Phrase.OrExpr.framed ht
  have hpieces := ((Pieces.of_between hbefore.toBetween).append hframe.pieces).append
    (Pieces.of_between hafter.toBetween)
  rw [List.nil_append, List.append_nil] at hpieces
  -- The query ends where its last piece does, after all of its bytes.
  obtain ⟨text, htext⟩ := hpieces.between
  have hinput : input.toList = text := by simpa [hrest] using htext.rest_eq
  have hoffset : stop.offset = byteLength input.toList := by
    rw [htext.offset_eq, hinput, Nat.zero_add]
  obtain rfl : stop = ⟨byteLength input.toList, []⟩ := by rw [← hoffset, ← hrest]
  subst hinput
  refine ⟨hpieces.bounds_sorted, fun leaf hleaf => ?_,
    _, _, marks, _, _, hbefore, hframe, hafter, hpieces.uncovered_eq htext⟩
  have hat := hpieces.leafAt (.refl _) leaf hleaf
  obtain ⟨before, after, hinput, hspan⟩ := hat
  refine ⟨⟨before, after, hinput, hspan⟩, ?_⟩
  rw [hspan, slice_eq hinput, String.ofList_toList]

theorem parse_lossless_mixed : ∃ t, parse " (a or\t\"é\\\"\" ) and ''" 1 = .ok t ∧
    bounds t.leaves = [2, 3, 3, 7, 8, 12, 15, 20, 21, 21] ∧
    (0 :: (bounds t.leaves ++ [22])).Pairwise (· ≤ ·) ∧
    (∀ leaf ∈ t.leaves, LeafAt " (a or\t\"é\\\"\" ) and ''" leaf) ∧
    ∃ before after marks p q, Gap ⟨0, " (a or\t\"é\\\"\" ) and ''".toList⟩ before p ∧
      Frame p t marks q ∧ Gap q after ⟨22, []⟩ ∧
      placed 0 before ++ marks ++ placed q.offset after = [(0, ' '), (1, '('), (7, '"'), (12, '"'),
        (13, ' '), (14, ')'), (20, '\''), (21, '\'')] := by
  have hok : (parse " (a or\t\"é\\\"\" ) and ''" 1).isOk = true := by decide +kernel
  obtain ⟨t, ht⟩ := exists_eq_ok hok
  have hleaves : ((parse " (a or\t\"é\\\"\" ) and ''" 1).toOption.map fun t => (bounds t.leaves,
      uncovered t.leaves (placed 0 " (a or\t\"é\\\"\" ) and ''".toList))) =
      some ([2, 3, 3, 7, 8, 12, 15, 20, 21, 21], [(0, ' '), (1, '('), (7, '"'), (12, '"'),
        (13, ' '), (14, ')'), (20, '\''), (21, '\'')]) := by decide +kernel
  rw [ht] at hleaves
  obtain ⟨hbounds, huncovered⟩ := Prod.mk.inj (Option.some.inj hleaves)
  obtain ⟨hsorted, hat, before, after, marks, p, q, hbefore, hframe, hafter, hmarks⟩ :=
    parse_lossless ht
  exact ⟨t, ht, hbounds, hsorted, fun leaf hleaf => (hat leaf hleaf).1, before, after, marks, p, q,
    hbefore, hframe, hafter, hmarks.symm.trans huncovered⟩

end SearchFilter
