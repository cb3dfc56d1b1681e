import Mathlib.Data.List.Chain
import SearchFilter.Proofs.Diagnostics

/-! What a syntax error reports. Every note of a run is made at a place of the text where no blank stands,
and the rules being read at that moment call each other, from the whole query inwards, with no more groups
among them than the limit allows and one that is only tried. So the note that the error is made from
names a place of the text and a path of rules. -/

namespace SearchFilter.Query

open Text Phrase

def Rule.calls : Rule → List Rule
  | query => [orExpr]
  | orExpr => [andExpr, orSeparator]
  | andExpr => [primary, andSeparator]
  | primary => [group, word]
  | group => [orExpr]
  | word => [quotedString, rawWord]
  | orSeparator | andSeparator | quotedString | rawWord => []

/-- Rules that are being read, `top` the innermost of them and the first in the list, `n` of them groups. -/
structure RuleStack (n : Nat) (top : Rule) (rules : List Rule) : Prop where
  head?_eq : rules.head? = some top
  isChain : rules.IsChain fun callee caller => callee ∈ caller.calls
  getLast?_eq : rules.getLast? = some .query
  count_eq : rules.count .group = n

section Stacks

variable {n : Nat} {top callee : Rule} {rules : List Rule}

theorem ruleStack_query : RuleStack 0 .query [.query] :=
  ⟨rfl, .singleton _, rfl, by decide⟩

theorem RuleStack.isChain_cons (h : RuleStack n top rules) (hcall : callee ∈ top.calls) :
    (callee :: rules).IsChain fun callee caller => callee ∈ caller.calls := by
  refine h.isChain.cons fun caller hcaller => ?_
  rw [h.head?_eq] at hcaller
  obtain rfl := Option.some.inj hcaller
  exact hcall

theorem RuleStack.getLast?_cons (h : RuleStack n top rules) :
    (callee :: rules).getLast? = some .query := by
  rw [List.getLast?_cons, h.getLast?_eq, Option.getD_some]

theorem RuleStack.push (h : RuleStack n top rules) (hcall : callee ∈ top.calls)
    (hne : callee ≠ .group) : RuleStack n callee (callee :: rules) :=
  ⟨rfl, h.isChain_cons hcall, h.getLast?_cons, by rw [List.count_cons_of_ne hne, h.count_eq]⟩

theorem RuleStack.push_group (h : RuleStack n .primary rules) :
    RuleStack (n + 1) .group (.group :: rules) :=
  ⟨rfl, h.isChain_cons (by decide), h.getLast?_cons, by rw [List.count_cons_self, h.count_eq]⟩

end Stacks

def PlaceOf (input : String) (p : Position) : Prop :=
  ∃ before, Between ⟨0, input.toList⟩ before p

structure Solid (input : String) (p : Position) : Prop where
  place : PlaceOf input p
  not_blank : ∀ c ∈ p.rest.head?, isBlank c = false

structure Reported (limit : Nat) (input : String) (note : Note) : Prop where
  solid : ∃ p, Solid input p ∧ p.offset = note.offset
  stack : ∃ n top, n ≤ limit + 1 ∧ RuleStack n top note.rules

section Places

variable {limit n : Nat} {input : String} {p q : Position} {text : List Char} {top : Rule}
  {rules : List Rule}

theorem PlaceOf.between (h : PlaceOf input p) (hspan : Between p text q) : PlaceOf input q := by
  obtain ⟨before, hbefore⟩ := h
  exact ⟨before ++ text, hbefore.trans hspan⟩

theorem PlaceOf.solid_end (h : PlaceOf input p) : Solid input (p.advance p.rest) := by
  refine ⟨h.between (between_advance List.prefix_rfl), ?_⟩
  simp [Position.advance]

theorem Solid.reported (h : Solid input p) (hstack : RuleStack n top rules) (hn : n ≤ limit + 1)
    (what : Expectation) : Reported limit input ⟨p.offset, what, rules⟩ :=
  ⟨⟨p, h, rfl⟩, n, top, hn, hstack⟩

end Places

namespace Scan

variable {α β : Type} {x : Scan α} {f : α → Scan β} {input : String} {E : Position → Prop}

theorem Sound.bind_end (h : ∀ a, Sound (f a) fun _ _ q => E q) : Sound (x >>= f) fun _ _ q => E q := by
  intro s b s' hs
  obtain ⟨a, s₁, -, hf⟩ := bind_eq_ok.mp hs
  exact h a s₁ b s' hf

theorem Sound.bind_pure_end {g : α → β} (h : Sound x fun _ _ q => E q) :
    Sound (x >>= fun a => pure (g a)) fun _ _ q => E q := by
  intro s b s' hs
  obtain ⟨a, s₁, hx, hpure⟩ := bind_eq_ok.mp hs
  obtain ⟨-, rfl⟩ := pure_eq_ok.mp hpure
  exact h s a s₁ hx

theorem whitespace_end : Sound whitespace fun _ _ q => ∀ c ∈ q.rest.head?, isBlank c = false := by
  rw [whitespace_eq]
  intro s run s' hs
  obtain ⟨text, s₁, hblanks, hs⟩ := bind_eq_ok.mp hs
  split at hs
  · cases hs
  · obtain ⟨-, rfl⟩ := pure_eq_ok.mp hs
    exact blanks_end _ _ _ hblanks

theorem Sound.place {item : Phrase} {x : Scan SyntaxTree} (h : Sound x item) (hconsumes : Consumes item)
    (input : String) : Sound x fun p _ q => PlaceOf input p → PlaceOf input q := by
  intro s t s' hs hp
  obtain ⟨text, -, hspan⟩ := hconsumes _ _ _ (h s t s' hs)
  exact hp.between hspan

theorem Sound.lands {item : Phrase} {x : Scan SyntaxTree} (h : Sound x item) (hconsumes : Consumes item)
    (hend : Sound x fun _ _ q => ∀ c ∈ q.rest.head?, isBlank c = false) (input : String) :
    Sound x fun p _ q => PlaceOf input p → Solid input q :=
  fun s t s' hs hp => ⟨h.place hconsumes input s t s' hs hp, hend s t s' hs⟩

end Scan

namespace Grammar

open Scan

theorem orSeparator_end : Sound orSeparator fun _ _ q => ∀ c ∈ q.rest.head?, isBlank c = false := by
  apply Sound.within
  refine Sound.bind_end fun start => ?_
  intro s t s' hs
  obtain ⟨spelled, s₁, hattempt, hs⟩ := bind_eq_ok.mp hs
  cases spelled with
  | some text =>
    obtain ⟨-, rfl⟩ := pure_eq_ok.mp hs
    have hspelled := attempt_eq_some.mp hattempt
    exact Sound.bind_end (fun before => Sound.bind_end fun name => blanks_end.bind_pure_end) _ _ _ hspelled
  | none => exact whitespace_end.bind_pure_end _ _ _ hs

theorem andSeparator_end : Sound andSeparator fun _ _ q => ∀ c ∈ q.rest.head?, isBlank c = false := by
  apply Sound.within
  exact Sound.bind_end fun _ => Sound.bind_end fun _ => Sound.bind_end fun _ =>
    whitespace_end.bind_pure_end

section Recorded

variable {limit n room : Nat} {input : String} {p q : Position} {top : Rule} {rules : List Rule}
  {inside : Nat → Scan SyntaxTree}

abbrev Reporting {α : Type} (limit : Nat) (input : String) (rules : List Rule) (x : Scan α)
    (p : Position) : Prop :=
  Records (Reported limit input) rules x p

theorem reporting_word (hp : Solid input p) (hstack : RuleStack n .primary rules) (hn : n ≤ limit + 1) :
    Reporting limit input rules word p := by
  have hword : RuleStack n .word (.word :: rules) := hstack.push (by decide) (by decide)
  have hquoted : RuleStack n .quotedString (.quotedString :: .word :: rules) :=
    hword.push (by decide) (by decide)
  have hraw : RuleStack n .rawWord (.rawWord :: .word :: rules) := hword.push (by decide) (by decide)
  have hliteral : Reporting limit input (.quotedString :: .word :: rules) literal p :=
    records_literal fun _ => hp.place.solid_end.reported hquoted hn _
  apply Records.within
  apply records_offset_bind
  refine hliteral.within.attempt.bind (attempt_sound (sound_true _)) fun quoted q hq => ?_
  cases quoted with
  | some body => exact records_pure _
  | none =>
    obtain rfl : q = p := hq
    exact (records_bareWord (hp.reported hraw hn _)).within.bind (sound_true _) fun _ _ _ => records_pure _

theorem reporting_andSeparator (hq : PlaceOf input q) (hstack : RuleStack n .andExpr rules)
    (hn : n ≤ limit + 1) : Reporting limit input rules andSeparator q := by
  have hseparator : RuleStack n .andSeparator (.andSeparator :: rules) :=
    hstack.push (by decide) (by decide)
  apply Records.within
  apply records_offset_bind
  have hfirst : Reporting limit input (.andSeparator :: rules) whitespace q :=
    records_whitespace fun hblank => Solid.reported ⟨hq, hblank⟩ hseparator hn _
  refine hfirst.bind (whitespace_sound.and whitespace_end) fun _ r hr => ?_
  have hplace := hq.between hr.1.1.toBetween
  have hname := Solid.reported ⟨hplace, hr.2⟩ hseparator hn (.keyword .and)
  refine (records_keyword hname).bind (keyword_sound .and) fun _ s hs => ?_
  have hplace' := hplace.between hs.1.toBetween
  have hlast : Reporting limit input (.andSeparator :: rules) whitespace s :=
    records_whitespace fun hblank => Solid.reported ⟨hplace', hblank⟩ hseparator hn _
  exact hlast.bind (sound_true _) fun _ _ _ => records_pure _

theorem reporting_orSeparator (hq : PlaceOf input q) (hstack : RuleStack n .orExpr rules)
    (hn : n ≤ limit + 1) : Reporting limit input rules orSeparator q := by
  have hseparator : RuleStack n .orSeparator (.orSeparator :: rules) :=
    hstack.push (by decide) (by decide)
  apply Records.within
  apply records_offset_bind
  refine Records.bind (Records.attempt ?_) (attempt_sound (sound_true _)) fun spelled r hr => ?_
  · refine records_blanks.bind (blanks_sound.and blanks_end) fun _ r hr => ?_
    have hname := Solid.reported ⟨hq.between hr.1.toBetween, hr.2⟩ hseparator hn (.keyword .or)
    exact (records_keyword hname).bind (sound_true _) fun _ _ _ =>
      records_blanks.bind (sound_true _) fun _ _ _ => records_pure _
  · cases spelled with
    | some text => exact records_pure _
    | none =>
      obtain rfl : r = q := hr
      exact (records_whitespace fun hblank => Solid.reported ⟨hq, hblank⟩ hseparator hn _).bind
        (sound_true _) fun _ _ _ => records_pure _

theorem reporting_operands {op : Tag} {separator operand : Scan SyntaxTree}
    (hsound : Sound separator fun p _ q => PlaceOf input p → Solid input q)
    (hsound' : Sound operand fun p _ q => PlaceOf input p → PlaceOf input q)
    (hseparator : ∀ q, PlaceOf input q → Reporting limit input rules separator q)
    (hoperand : ∀ p, Solid input p → Reporting limit input rules operand p) (hp : Solid input p) :
    Reporting limit input rules (operands op separator operand) p := by
  refine (hoperand p hp).bind hsound' fun head q hq => ?_
  have hpair : Sound (pairOf op separator operand) fun p _ q => PlaceOf input p → PlaceOf input q := by
    intro s t s' hs hplace
    obtain ⟨mark, s₁, hmark, hs⟩ := bind_eq_ok.mp hs
    obtain ⟨right, s₂, hright, hs⟩ := bind_eq_ok.mp hs
    obtain ⟨-, rfl⟩ := pure_eq_ok.mp hs
    exact hsound' _ _ _ hright (hsound _ _ _ hmark hplace).place
  -- The separator takes all blanks, so no operand starts with one.
  have hitem : ∀ q, PlaceOf input q → Reporting limit input rules (pairOf op separator operand) q := by
    intro q hplace
    refine (hseparator q hplace).bind hsound fun mark r hr => ?_
    exact (hoperand r (hr hplace)).bind (sound_true _) fun _ _ _ => records_pure _
  exact (records_many hpair hitem (fun _ _ _ hplace hstep => hstep hplace) (hq hp.place)).bind
    (sound_true _) fun _ _ _ => records_pure _

theorem reporting_primary (hinside : ∀ opening rules q, RuleStack (n + 1) .group rules →
      PlaceOf input q → Reporting limit input rules (inside opening) q)
    (hp : Solid input p) (hstack : RuleStack n .andExpr rules) (hn : n ≤ limit) :
    Reporting limit input rules (primary inside) p := by
  have hprimary : RuleStack n .primary (.primary :: rules) := hstack.push (by decide) (by decide)
  have hgroup : Reporting limit input (.primary :: rules) (group inside) p := by
    apply Records.within
    apply records_offset_bind
    have hopening := hp.reported hprimary.push_group (Nat.succ_le_succ hn) (.char '(')
    refine (records_char hopening).bind (char_sound '(') fun _ q hq => ?_
    exact (hinside _ _ q hprimary.push_group (hp.place.between hq)).bind (sound_true _)
      fun _ _ _ => records_pure _
  apply Records.within
  refine hgroup.attempt.bind (attempt_sound (sound_true _)) fun grouped q hq => ?_
  cases grouped with
  | some tree => exact records_pure _
  | none =>
    obtain rfl : q = p := hq
    exact reporting_word hp hprimary (Nat.le_succ_of_le hn)

theorem reporting_orExprWith {size : Nat} (hsound : Sound (primary inside) (Limited size Primary))
    (hinside : ∀ opening rules q, RuleStack (n + 1) .group rules →
      PlaceOf input q → Reporting limit input rules (inside opening) q)
    (hp : Solid input p) (hstack : RuleStack n top rules) (hcall : .orExpr ∈ top.calls)
    (hn : n ≤ limit) : Reporting limit input rules (orExprWith inside) p := by
  have hor : RuleStack n .orExpr (.orExpr :: rules) := hstack.push hcall (by decide)
  have hand : RuleStack n .andExpr (.andExpr :: .orExpr :: rules) := hor.push (by decide) (by decide)
  have hle := Nat.le_succ_of_le hn
  have hconsumes := consumes_limited Primary.consumes size
  have handExpr : Sound (andExpr inside) (Operands .and AndSeparator (Limited size Primary)) :=
    (operands_sound andSeparator_sound hsound).within .andExpr
  apply Records.within
  refine reporting_operands (orSeparator_sound.lands OrSeparator.consumes orSeparator_end input)
    (handExpr.place (AndSeparator.consumes.operands hconsumes) input)
    (fun q hq => reporting_orSeparator hq hor hle) (fun p hp => ?_) hp
  apply Records.within
  exact reporting_operands (andSeparator_sound.lands AndSeparator.consumes andSeparator_end input)
    (hsound.place hconsumes input) (fun q hq => reporting_andSeparator hq hand hle)
    (fun p hp => reporting_primary hinside hp hand hn) hp

theorem orExpr_place (room : Nat) (input : String) :
    Sound (orExpr room) fun p _ q => PlaceOf input p → PlaceOf input q :=
  (orExpr_sound room).place (consumes_limited (OrSeparator.consumes.operands
    (AndSeparator.consumes.operands Primary.consumes)) room) input

theorem reporting_orExpr (hroom : n + room = limit) (hp : Solid input p)
    (hstack : RuleStack n top rules) (hcall : .orExpr ∈ top.calls) :
    Reporting limit input rules (orExpr room) p := by
  induction room generalizing n p top rules with
  | zero =>
    rw [orExpr_eq]
    exact reporting_orExprWith (primary_inside_sound 0) (fun _ _ _ _ _ => records_throw _) hp hstack
      hcall (Nat.le_of_eq hroom)
  | succ room ih =>
    rw [orExpr_eq]
    refine reporting_orExprWith (primary_inside_sound (room + 1)) (fun _ rules q hgroup hq => ?_) hp
      hstack hcall (by omega)
    refine records_blanks.bind (blanks_sound.and blanks_end) fun _ r hr => ?_
    have hinner : Solid input r := ⟨hq.between hr.1.toBetween, hr.2⟩
    refine (ih (by omega) hinner hgroup (by decide)).bind (orExpr_place room input) fun _ s hs => ?_
    refine records_blanks.bind (blanks_sound.and blanks_end) fun _ u hu => ?_
    have hclosing : Solid input u := ⟨(hs hinner.place).between hu.1.toBetween, hu.2⟩
    exact (records_char (hclosing.reported hgroup (by omega) _)).bind (sound_true _)
      fun _ _ _ => records_pure _

theorem reporting_query (limit : Nat) (input : String) :
    Reporting limit input [] (query limit) ⟨0, input.toList⟩ := by
  have hstart : PlaceOf input ⟨0, input.toList⟩ := ⟨[], .refl _⟩
  apply Records.within
  refine records_blanks.bind (blanks_sound.and blanks_end) fun _ p hp => ?_
  have hfirst : Solid input p := ⟨hstart.between hp.1.toBetween, hp.2⟩
  refine (reporting_orExpr (Nat.zero_add limit) hfirst ruleStack_query (by decide)).bind
    (orExpr_place limit input) fun _ q hq => ?_
  refine records_blanks.bind (blanks_sound.and blanks_end) fun _ r hr => ?_
  have hlast : Solid input r := ⟨(hq hfirst.place).between hr.1.toBetween, hr.2⟩
  exact (records_endOfInput (hlast.reported ruleStack_query (Nat.zero_le _) _)).bind (sound_true _)
    fun _ _ _ => records_pure _

end Recorded
end Grammar
end SearchFilter.Query

namespace SearchFilter

open Query

theorem reported_of_syntaxError {input : String} {maxDepth : Nat} {e : SyntaxError}
    (h : parse input maxDepth = .error (.syntaxError e)) :
    e.expected.Nodup ∧ ∃ what ∈ e.expected.head?,
      Reported maxDepth input ⟨e.offset, what, e.rules.reverse⟩ := by
  obtain ⟨-, s, f, hs, hf, rfl⟩ := run_of_syntaxError h
  obtain ⟨notes, hnotes, hfurthest, -⟩ :=
    Grammar.reporting_query maxDepth input (Scanner.start input.toList) rfl rfl
  rw [hs] at hfurthest
  have hfiled : f.Filed (Reported maxDepth input) :=
    filed_foldl (by simp [Scanner.start]) hnotes f (hfurthest ▸ hf)
  rw [List.reverse_reverse]
  exact ⟨hfiled.nodup, hfiled.first⟩

theorem solid_of_syntaxError {input : String} {maxDepth : Nat} {e : SyntaxError}
    (h : parse input maxDepth = .error (.syntaxError e)) :
    ∃ before after, input.toList = before ++ after ∧ Text.byteLength before = e.offset ∧
      e.split = (before, after) ∧ ∀ c ∈ after.head?, Text.isBlank c = false := by
  obtain ⟨-, what, -, ⟨p, ⟨⟨before, hbefore⟩, hblank⟩, hoffset⟩, -⟩ := reported_of_syntaxError h
  have hlength : Text.byteLength before = p.offset := by
    rw [hbefore.offset_eq, Nat.zero_add]
  exact ⟨before, p.rest, hbefore.rest_eq, hlength.trans hoffset,
    split_of_syntaxError h hbefore hoffset, hblank⟩

/-- A syntax error is at a place of its text, lists its expectations once each, and names a path of rules
from the whole query inwards. It is always made from a note. -/
theorem syntaxError_wellFormed {input : String} {maxDepth : Nat} {e : SyntaxError}
    (h : parse input maxDepth = .error (.syntaxError e)) :
    e.input = input ∧
      (∃ before after, input.toList = before ++ after ∧ Text.byteLength before = e.offset) ∧
      e.expected ≠ [] ∧ e.expected.Nodup ∧
      e.rules.head? = some .query ∧ e.rules.IsChain (fun caller callee => callee ∈ caller.calls) ∧
      e.rules.count .group ≤ maxDepth + 1 ∧
      ∀ s, Grammar.query maxDepth (Scanner.start input.toList) = .error .miss s →
        s.furthest ≠ none := by
  obtain ⟨before, after, hinput, hlength, -⟩ := solid_of_syntaxError h
  obtain ⟨hnodup, what, hwhat, -, n, top, hn, hstack⟩ := reported_of_syntaxError h
  have hchain := hstack.isChain
  have hfirst := hstack.getLast?_eq
  have hgroups := hstack.count_eq
  dsimp only at hchain hfirst hgroups
  rw [List.isChain_reverse] at hchain
  rw [List.getLast?_reverse] at hfirst
  rw [List.count_reverse] at hgroups
  obtain ⟨-, s, f, hs, hf, rfl⟩ := run_of_syntaxError h
  refine ⟨rfl, ⟨before, after, hinput, hlength⟩, List.ne_nil_of_mem (List.mem_of_mem_head? hwhat),
    hnodup, hfirst, hchain, hgroups ▸ hn, fun s' hs' => ?_⟩
  obtain rfl : s = s' := by
    rw [hs] at hs'
    exact (EStateM.Result.error.inj hs').2
  rw [hf]
  exact Option.some_ne_none f

theorem syntaxError_wellFormed_second_group :
    ∃ e, parse "(é or )" 1 = .error (.syntaxError e) ∧ e.offset = 7 ∧ e.rules.count .group = 1 + 1 ∧
      (∃ before after, "(é or )".toList = before ++ after ∧ Text.byteLength before = 7) ∧
      e.expected ≠ [] ∧ e.expected.Nodup ∧ e.rules.head? = some .query ∧
      e.rules.IsChain (fun caller callee => callee ∈ caller.calls) := by
  have herror : parse "(é or )" 1 = .error (.syntaxError ⟨"(é or )", 7, [.char '(', .word],
      [.query, .orExpr, .andExpr, .primary, .group, .orExpr, .andExpr, .primary, .group]⟩) := by
    decide +kernel
  obtain ⟨-, hplace, hne, hnodup, hfirst, hchain, -, -⟩ := syntaxError_wellFormed herror
  exact ⟨_, herror, rfl, by decide, hplace, hne, hnodup, hfirst, hchain⟩

end SearchFilter
