import SearchFilter.Proofs.Places

/-! Texts with a common beginning. What the grammar finds between two places is found between the same
offsets of every text that agrees with this one up to the second place, provided that a bare run which
ends there is not continued. -/

namespace SearchFilter.Query

open Text Phrase Relation

/-- If the first text goes on with something other than a bare character, so does the second. -/
def StopsLike (cs cs' : List Char) : Prop :=
  (∀ c ∈ cs.head?, isBare c = false) → ∀ c ∈ cs'.head?, isBare c = false

theorem stopsLike_append {cs cs' : List Char} (h : StopsLike cs cs') (text : List Char) :
    StopsLike (text ++ cs) (text ++ cs') := by
  cases text with
  | nil => exact h
  | cons c text => exact id

theorem stopsLike_of_ne_nil {text : List Char} (h : text ≠ []) (cs cs' : List Char) :
    StopsLike (text ++ cs) (text ++ cs') := by
  obtain ⟨c, text, rfl⟩ := List.exists_cons_of_ne_nil h
  exact id

/-- The characters of `text` stand between `p` and `q`, and `P` holds between the same offsets of every
text that goes on after them with one of the texts `follow`. -/
structure Moves (follow : List Char → Prop) (P : Position → Position → Prop) (p : Position)
    (text : List Char) (q : Position) : Prop extends Between p text q where
  moved : ∀ rest, follow rest → P ⟨p.offset, text ++ rest⟩ ⟨q.offset, rest⟩

abbrev Free : (Position → Position → Prop) → Position → List Char → Position → Prop :=
  Moves fun _ => True

/-- An item at `p` that ends at `q` can be moved unless the bare run at its end is continued. -/
def Movable {α : Type} (item item' : Position → α → Position → Prop) : Prop :=
  ∀ p a q, item p a q → ∃ text, Moves (StopsLike q.rest) (item' · a ·) p text q

section Moves

variable {follow follow' : List Char → Prop} {P Q : Position → Position → Prop}
  {p q r : Position} {a b text : List Char} {t : SyntaxTree}

theorem Moves.imp (h : Moves follow P p text q)
    (himp : ∀ p' q', p'.offset = p.offset → P p' q' → Q p' q') : Moves follow Q p text q :=
  ⟨h.toBetween, fun rest hrest => himp _ _ rfl (h.moved rest hrest)⟩

theorem Moves.comp (hP : Moves follow P p a q) (hQ : Moves follow' Q q b r)
    (hfollow : ∀ rest, follow' rest → follow (b ++ rest)) :
    Moves follow' (Comp P Q) p (a ++ b) r := by
  refine ⟨hP.toBetween.trans hQ.toBetween, fun rest hrest => ?_⟩
  have hfirst := hP.moved (b ++ rest) (hfollow rest hrest)
  rw [← List.append_assoc] at hfirst
  exact ⟨_, hfirst, hQ.moved rest hrest⟩

theorem Moves.trans (hP : Moves (StopsLike q.rest) P p a q) (hQ : Moves (StopsLike r.rest) Q q b r) :
    Moves (StopsLike r.rest) (Comp P Q) p (a ++ b) r := by
  refine hP.comp hQ fun rest hrest => ?_
  rw [hQ.rest_eq]
  exact stopsLike_append hrest b

theorem Moves.trans_free (hP : Moves (StopsLike q.rest) P p a q) (hQ : Free Q q b r)
    (hb : b ≠ []) : Free (Comp P Q) p (a ++ b) r := by
  refine hP.comp hQ fun rest _ => ?_
  rw [hQ.rest_eq]
  exact stopsLike_of_ne_nil hb _ _

theorem Between.free (h : Between p text q) : Free (Between · text ·) p text q :=
  ⟨h, fun _ _ => ⟨rfl, h.offset_eq⟩⟩

theorem Gap.free (h : Gap p text q) : Free (Gap · text ·) p text q :=
  ⟨h.toBetween, fun _ _ => ⟨⟨rfl, h.offset_eq⟩, h.blank⟩⟩

theorem Moves.of_free (h : Free P p text q) : Moves follow P p text q :=
  ⟨h.toBetween, fun rest _ => h.moved rest trivial⟩

theorem BareRun.moves (h : BareRun p text q) : Moves (StopsLike q.rest) (BareRun · text ·) p text q :=
  ⟨h.toBetween, fun _ hrest => ⟨⟨rfl, h.offset_eq⟩, h.bare, hrest h.maximal⟩⟩

theorem Phrase.OrSeparator.movable : Movable OrSeparator OrSeparator := by
  intro p t q h
  cases h with
  | spelled hbefore hname hafter =>
    refine ⟨_, ((Moves.of_free hbefore.free).trans (hname.moves.trans (.of_free hafter.free))).imp ?_⟩
    rintro p' s' hp ⟨q', hbefore, r', hname, hafter⟩
    rw [← hp]
    exact .spelled hbefore hname hafter
  | blanks hgap hne =>
    refine ⟨_, (Moves.of_free hgap.free).imp fun p' q' hp hgap => ?_⟩
    rw [← hp]
    exact .blanks hgap hne

theorem Phrase.AndSeparator.movable : Movable AndSeparator AndSeparator := by
  rintro p t q ⟨hbefore, hne, hname, hafter, hne'⟩
  refine ⟨_, ((Moves.of_free hbefore.free).trans (hname.moves.trans (.of_free hafter.free))).imp ?_⟩
  rintro p' s' hp ⟨q', hbefore, r', hname, hafter⟩
  rw [← hp]
  exact .mk hbefore hne hname hafter hne'

theorem Separator.movable : Movable Separator Separator := by
  rintro p t q (h | h)
  · obtain ⟨text, hmoves⟩ := OrSeparator.movable _ _ _ h
    exact ⟨text, hmoves.imp fun _ _ _ => .or⟩
  · obtain ⟨text, hmoves⟩ := AndSeparator.movable _ _ _ h
    exact ⟨text, hmoves.imp fun _ _ _ => .and⟩

theorem Phrase.Word.movable : Movable Word Word := by
  intro p t q h
  cases h with
  | quoted hquote hbody hspan =>
    refine ⟨_, (Moves.of_free hspan.free).imp fun p' q' hp hspan => ?_⟩
    rw [← hp]
    exact .quoted hquote hbody hspan
  | bare hrun hword =>
    refine ⟨_, hrun.moves.imp fun p' q' hp hrun => ?_⟩
    rw [← hp]
    exact .bare hrun hword

theorem star_movable {σ : Type} {item item' : Position → σ → Position → Prop} (h : Movable item item') :
    Movable (Star item) (Star item') := by
  intro p ts q hts
  induction hts with
  | nil p => exact ⟨[], (Moves.of_free (Between.refl p).free).imp fun p' q' _ hsame => by
      rw [hsame.eq_advance]
      exact .nil p'⟩
  | cons hitem _ ih =>
    obtain ⟨a, ha⟩ := h _ _ _ hitem
    obtain ⟨b, hb⟩ := ih
    refine ⟨a ++ b, (ha.trans hb).imp ?_⟩
    rintro p' r' - ⟨q', hitem, hitems⟩
    exact .cons hitem hitems

theorem operands_movable {op : Tag} {separator item item' : Phrase} (hs : Movable separator separator)
    (hi : Movable item item') :
    Movable (Operands op separator item) (Operands op separator item') := by
  have hpair : Movable (Pair op separator item) (Pair op separator item') := by
    rintro p t r ⟨hmark, hright⟩
    obtain ⟨a, ha⟩ := hs _ _ _ hmark
    obtain ⟨b, hb⟩ := hi _ _ _ hright
    refine ⟨a ++ b, (ha.trans hb).imp ?_⟩
    rintro p' r' - ⟨q', hmark, hright⟩
    exact ⟨hmark, hright⟩
  intro p t r h
  obtain ⟨head, pairs, _, rfl, hhead, hpairs⟩ := h.exists_chain
  obtain ⟨a, ha⟩ := hi _ _ _ hhead
  obtain ⟨b, hb⟩ := star_movable hpair _ _ _ hpairs
  refine ⟨a ++ b, (ha.trans hb).imp ?_⟩
  rintro p' r' - ⟨q', hhead, hpairs⟩
  exact .of_star hhead hpairs

theorem group_free {s u v : Position} {before after : List Char} (hopen : Between p ['('] q)
    (hbefore : Gap q before r) (ht : ∃ text, Moves (StopsLike s.rest) (OrExpr · t ·) r text s)
    (hafter : Gap s after u) (hclose : Between u [')'] v) :
    ∃ text, Free (Primary · (.tagged [(.paren, t)]) ·) p (text ++ [')']) v := by
  obtain ⟨text, ht⟩ := ht
  have hinner := (Moves.of_free hopen.free).trans ((Moves.of_free hbefore.free).trans
    (ht.trans (.of_free hafter.free)))
  refine ⟨_, (hinner.trans_free hclose.free (List.cons_ne_nil _ _)).imp ?_⟩
  rintro p' v' - ⟨u', ⟨q', hopen, r', hbefore, s', ht, hafter⟩, hclose⟩
  exact .group hopen hbefore ht hafter hclose

theorem Phrase.Primary.movable : Movable Primary Primary := by
  intro p t q h
  refine h.induct (motive := fun p t q => ∃ text, Moves (StopsLike q.rest) (Primary · t ·) p text q)
    ?_ ?_
  · intro p q r s u v before after t hopen hbefore ht hafter hclose
    have hinner := operands_movable OrSeparator.movable
      (operands_movable AndSeparator.movable fun _ _ _ h => h) _ _ _ ht
    obtain ⟨text, hfree⟩ := group_free hopen hbefore hinner hafter hclose
    exact ⟨_, .of_free hfree⟩
  · intro p q t hword
    obtain ⟨text, hmoves⟩ := Word.movable _ _ _ hword
    exact ⟨text, hmoves.imp fun _ _ _ => .word⟩

theorem Phrase.Primary.free_or_bare (h : Primary p t q) :
    (∃ text c, Free (Primary · t ·) p (text ++ [c]) q ∧ (c = ')' ∨ isQuote c = true)) ∨
      ∃ text, BareRun p text q ∧ BareWord text := by
  cases h with
  | group hopen hbefore ht hafter hclose =>
    have hinner := operands_movable OrSeparator.movable
      (operands_movable AndSeparator.movable Primary.movable) _ _ _ ht
    obtain ⟨text, hfree⟩ := group_free hopen hbefore hinner hafter hclose
    exact .inl ⟨text, ')', hfree, .inl rfl⟩
  | word hword =>
    cases hword with
    | @quoted _ _ quote body hquote hbody hspan =>
      refine .inl ⟨quote :: body, quote, hspan.free.imp fun p' q' hp hspan => ?_, .inr hquote⟩
      rw [← hp]
      exact .word (.quoted hquote hbody hspan)
    | @bare _ _ text hrun hbare => exact .inr ⟨text, hrun, hbare⟩

end Moves

section Places

variable {limit n m : Nat} {input : String} {p q r : Position} {text gap : List Char}
  {t mark : SyntaxTree}

theorem limited_movable (limit n : Nat) : Movable (limited limit n) (limited limit n) := by
  rintro p t q ⟨h, hn⟩
  obtain ⟨text, hmoves⟩ := Primary.movable _ _ _ h
  exact ⟨text, hmoves.imp fun _ _ _ h => ⟨h, hn⟩⟩

abbrev Begins (follow : List Char → Prop) (P : String → Position → Prop) (input : String) :
    List Char → Position → Prop :=
  Moves follow (fun p q => P (String.ofList p.rest) q) ⟨0, input.toList⟩

theorem Begins.moved {follow : List Char → Prop} {P : String → Position → Prop}
    (h : Begins follow P input text p) (rest : List Char) (hrest : follow rest) :
    P (String.ofList (text ++ rest)) ⟨p.offset, rest⟩ :=
  Moves.moved h rest hrest

theorem Gap.begins (limit : Nat) (h : Gap ⟨0, input.toList⟩ gap p) :
    Begins (fun _ => True) (OperandWithin limit · 0 ·) input gap p := by
  refine h.free.imp ?_
  rintro ⟨offset, rest⟩ q hp hgap
  obtain rfl : offset = 0 := hp
  have hstart : Gap ⟨0, (String.ofList rest).toList⟩ gap q := by rwa [String.toList_ofList]
  exact .start limit hstart

theorem OperandAt.begins (h : OperandAt (limited limit) input n p) : ∃ text,
    Begins (StopsLike p.rest) (OperandAt (limited limit) · n ·) input text p := by
  refine h.induct (motive := fun n p => ∃ text,
    Begins (StopsLike p.rest) (OperandAt (limited limit) · n ·) input text p) ?_ ?_ ?_
  · intro gap p hgap
    exact ⟨gap, .of_free ((hgap.begins limit).imp fun _ _ _ h => h.reached)⟩
  · rintro n p t q mark r - ⟨a, ha⟩ ht hmark
    obtain ⟨b, hb⟩ := limited_movable _ _ _ _ _ ht
    obtain ⟨c, hc⟩ := Separator.movable _ _ _ hmark
    refine ⟨_, (ha.trans (hb.trans hc)).imp ?_⟩
    rintro p' r' - ⟨q', hq', s', ht, hmark⟩
    exact hq'.step (.pass ht hmark)
  · rintro n p q gap r - ⟨a, ha⟩ hopen hgap
    have hparen := (Moves.of_free hopen.free).trans (.of_free hgap.free)
    refine ⟨_, (ha.trans hparen).imp ?_⟩
    rintro p' r' - ⟨q', hq', s', hopen, hgap⟩
    exact hq'.step (.enter hopen hgap)

theorem OperandWithin.begins (h : OperandWithin limit input n p) : ∃ text,
    Begins (StopsLike p.rest) (OperandWithin limit · n ·) input text p := by
  obtain ⟨text, htext⟩ := h.reached.begins
  exact ⟨text, htext.imp fun _ _ _ hreached => ⟨h.le, hreached⟩⟩

theorem AfterOperand.begins (h : AfterOperand limit input n q) : ∃ text,
    Begins (StopsLike q.rest) (AfterOperand limit · n ·) input text q := by
  obtain ⟨p, t, hp, ht⟩ := h
  obtain ⟨a, ha⟩ := hp.begins
  obtain ⟨b, hb⟩ := limited_movable _ _ _ _ _ ht
  refine ⟨a ++ b, (ha.trans hb).imp ?_⟩
  rintro p' r' - ⟨q', hq', ht⟩
  exact ⟨q', t, hq', ht⟩

theorem AfterOperand.free_or_bare (h : AfterOperand limit input n q) :
    (∃ text c, Begins (fun _ => True) (AfterOperand limit · n ·) input (text ++ [c]) q ∧
      (c = ')' ∨ isQuote c = true)) ∨
    ∃ p text w, Begins (StopsLike p.rest) (OperandWithin limit · n ·) input text p ∧
      BareRun p w q ∧ BareWord w := by
  obtain ⟨p, t, hp, ht, hn⟩ := h
  obtain ⟨a, ha⟩ := hp.begins
  rcases ht.free_or_bare with ⟨b, c, hfree, hc⟩ | ⟨w, hrun, hw⟩
  · have hafter := ha.trans_free hfree (by simp)
    rw [← List.append_assoc] at hafter
    refine .inl ⟨a ++ b, c, hafter.imp ?_, hc⟩
    rintro p' r' - ⟨q', hq', ht'⟩
    exact ⟨q', t, hq', ht', hn⟩
  · exact .inr ⟨p, a, w, ha, hrun, hw⟩

end Places
end SearchFilter.Query
