import Mathlib.Logic.Relation
import SearchFilter.Command.Arguments
import SearchFilter.Proofs.Stages

/-! Reading the command line. An argument can change the options given so far in a few ways only, and it
turns no switch but those that it asks for. What every such change keeps holds of the options in the end:
a limit fits in 64 bits, and a switch that no argument asks for is as it was. -/

namespace SearchFilter.Command

open Condition (bind_eq_ok_iff)
open Relation (ReflTransGen)

variable {g g' : Given} {side : Side} {text : String} {n : Nat}

theorem number_lt {digits : List Char} (h : depth?.number digits = .ok n) : n < Nat.pow 2 64 := by
  unfold depth?.number at h
  have hstart : 0 < Nat.pow 2 64 := by decide
  -- The bound is kept at every digit, so the start is any number below it.
  generalize 0 = start at h hstart
  induction digits generalizing start with
  | nil =>
    cases h
    exact hstart
  | cons c digits ih =>
    rw [List.foldlM_cons] at h
    obtain ⟨next, hnext, h⟩ := bind_eq_ok_iff.mp h
    refine ih next h ?_
    split at hnext
    · cases hnext
    · dsimp only at hnext
      split at hnext
      · next hlt =>
        cases hnext
        exact hlt
      · cases hnext

theorem depth?_lt (h : depth? text = .ok n) : n < Nat.pow 2 64 := by
  unfold depth? at h
  split at h
  · cases h
  · cases h
  · exact number_lt h
  · exact number_lt h

def Given.read (g : Given) (side : Side) (trailing : Bool) (argument : String) :
    Except Notice (Given × Bool) :=
  if trailing then do return (← g.readPlain side true argument, true)
  else match Shape.of argument, g.waiting? with
    | .escape, _ => .ok (g, true)
    | .long name value, _ => do return (← g.readLong side name value, false)
    | .short letters, _ => do return (← g.readShort side letters, false)
    | .plain, some parameter => .ok ({ g with pending := some (parameter, some argument) }, false)
    | .plain, none => do return (← g.readPlain side false argument, false)

theorem readSide_eq_read {trailing : Bool} {argument : String}
    (h : trailing = true ∨ side ≠ none ∨ g.waiting? ≠ none ∨
      (argument == "help") = false ∧ Subcommand.ofName? argument = none)
    (arguments : List String) : readSide side trailing g (argument :: arguments) =
      g.read side trailing argument >>= fun x => readSide side x.2 x.1 arguments := by
  conv_lhs => unfold readSide
  unfold Given.read
  cases trailing with
  | true =>
    rw [if_pos rfl, if_pos rfl, bind_assoc]
    rfl
  | false =>
    rw [if_neg Bool.false_ne_true, if_neg Bool.false_ne_true]
    split
    · simp_all
    · simp_all
    · cases Shape.of argument with
      | escape => rfl
      | long name value => simp only [bind_assoc, pure_bind]
      | short letters => simp only [bind_assoc, pure_bind]
      | plain =>
        cases g.waiting? with
        | none => simp only [bind_assoc, pure_bind]
        | some parameter => rfl

theorem readSide_cons_cases (side : Side) (trailing : Bool) (g : Given) (argument : String) :
    (∀ arguments, readSide side trailing g (argument :: arguments) = .error (helpFor arguments)) ∨
    (∃ command, ∀ arguments, readSide side trailing g (argument :: arguments) =
      .ok (g, some (command, arguments))) ∨
    ∀ arguments, readSide side trailing g (argument :: arguments) =
      g.read side trailing argument >>= fun x => readSide side x.2 x.1 arguments := by
  by_cases h : trailing = true ∨ side ≠ none ∨ g.waiting? ≠ none ∨
      (argument == "help") = false ∧ Subcommand.ofName? argument = none
  · exact .inr (.inr (readSide_eq_read h))
  · simp only [not_or, not_not, not_and] at h
    obtain ⟨htrailing, rfl, hwaiting, hname⟩ := h
    cases hhelp : argument == "help" with
    | true =>
      refine .inl fun arguments => ?_
      unfold readSide
      rw [if_neg htrailing, hwaiting, hhelp]
    | false =>
      obtain ⟨command, hcommand⟩ := Option.ne_none_iff_exists'.mp (hname hhelp)
      refine .inr (.inl ⟨command, fun arguments => ?_⟩)
      unfold readSide
      rw [if_neg htrailing, hwaiting, hhelp, hcommand]

def Shape.asks (switch : Switch) : Shape → Bool
  | .long name _ => name = switch.name
  | .short letters => letters.any fun c => switch.short? = some c
  | _ => false

def Asked (side : Side) (arguments : List String) (switch : Switch) : Prop :=
  switch ∈ switches side ∧ ∃ argument ∈ arguments, (Shape.of argument).asks switch = true

theorem Asked.cons {argument : String} {arguments : List String} {switch : Switch}
    (h : Asked side arguments switch) : Asked side (argument :: arguments) switch := by
  obtain ⟨hswitch, asking, hmem, hasks⟩ := h
  exact ⟨hswitch, asking, List.mem_cons_of_mem _ hmem, hasks⟩

namespace Given

/-- What an argument can change in the options given so far, if it asks for these switches. -/
inductive Change (asked : Switch → Prop) : Given → Given → Prop
  | pending (g : Given) (option : Option (Parameter × Option String)) :
    Change asked g { g with pending := option }
  | color (g : Given) (mode : ColorMode) : Change asked g { g with color := some mode }
  | column (g : Given) (text : String) : Change asked g { g with column := some text }
  | maxDepth (g : Given) {n : Nat} :
    n < Nat.pow 2 64 → Change asked g { g with maxDepth := some n }
  | query (g : Given) (text : String) : Change asked g { g with query := some text }
  | verbose (g : Given) :
    asked .verbose → Change asked g { g with verbose := min 255 (g.verbose + 1) }
  | noConfig (g : Given) : asked .noConfig → Change asked g { g with noConfig := true }
  | json (g : Given) : asked .json → Change asked g { g with json := true }

abbrev Changes (asked : Switch → Prop) : Given → Given → Prop :=
  ReflTransGen (Change asked)

section Steps

variable {asked : Switch → Prop}

theorem set_changes {parameter : Parameter} {value : String} (h : g.set parameter value = .ok g') :
    Changes asked g g' := by
  cases parameter with
  | color =>
    replace h : (if g.color.isSome then _ else _) = Except.ok g' := h
    split at h
    · cases h
    split at h
    · cases h
      exact .single (.color g _)
    · cases h
  | column =>
    replace h : (if g.column.isSome then _ else _) = Except.ok g' := h
    split at h
    · cases h
    · cases h
      exact .single (.column g value)
  | maxDepth =>
    replace h : (if g.maxDepth.isSome then _ else _) = Except.ok g' := h
    split at h
    · cases h
    split at h
    · next depth hdepth =>
      cases h
      exact .single (.maxDepth g (depth?_lt hdepth))
    · cases h

theorem settle_changes (h : g.settle = .ok g') : Changes asked g g' := by
  unfold settle at h
  split at h
  · cases h
    exact .refl
  · cases h
  · exact (ReflTransGen.single (.pending g none)).trans (set_changes h)

theorem flip_changes {switch : Switch} {long : Bool} (hasked : asked switch)
    (h : g.flip side switch long = .ok g') : Changes asked g g' := by
  obtain ⟨settled, hsettled, h⟩ := bind_eq_ok_iff.mp h
  have hchanges : Changes asked g settled := settle_changes hsettled
  cases switch with
  | verbose =>
    cases h
    exact hchanges.tail (.verbose settled hasked)
  | noConfig =>
    dsimp only at h
    split at h
    · cases h
    · cases h
      exact hchanges.tail (.noConfig settled hasked)
  | json =>
    dsimp only at h
    split at h
    · cases h
    · cases h
      exact hchanges.tail (.json settled hasked)
  | help => cases h
  | version => cases h

theorem readLong_changes {name : String} {value : Option String}
    (hasked : ∀ switch ∈ switches side, switch.name = name → asked switch)
    (h : g.readLong side name value = .ok g') : Changes asked g g' := by
  unfold readLong at h
  split at h
  · obtain ⟨settled, hsettled, h⟩ := bind_eq_ok_iff.mp h
    cases h
    exact (settle_changes hsettled).tail (.pending settled _)
  · obtain ⟨settled, hsettled, h⟩ := bind_eq_ok_iff.mp h
    exact (settle_changes hsettled).trans (set_changes h)
  · next switch _ hfind =>
    have hname : switch.name = name := by simpa using List.find?_some hfind
    exact flip_changes (hasked switch (List.mem_of_find?_eq_some hfind) hname) h
  · cases h
  · cases h

theorem readShort_changes {letters : List Char}
    (hasked : ∀ switch ∈ switches side, ∀ c ∈ letters, switch.short? = some c → asked switch)
    (h : g.readShort side letters = .ok g') : Changes asked g g' := by
  induction letters generalizing g with
  | nil =>
    cases h
    exact .refl
  | cons c letters ih =>
    unfold readShort at h
    split at h
    · next switch hfind =>
      obtain ⟨flipped, hflipped, h⟩ := bind_eq_ok_iff.mp h
      have hshort : switch.short? = some c := by simpa using List.find?_some hfind
      have hfirst := hasked switch (List.mem_of_find?_eq_some hfind) c List.mem_cons_self hshort
      refine (flip_changes hfirst hflipped).trans (ih (fun switch hswitch d hd => ?_) h)
      exact hasked switch hswitch d (List.mem_cons_of_mem c hd)
    · cases h

theorem readPlain_changes {trailing : Bool} {argument : String}
    (h : g.readPlain side trailing argument = .ok g') : Changes asked g g' := by
  unfold readPlain at h
  split at h
  · split at h <;> cases h
  · split at h
    · cases h
    · obtain ⟨settled, hsettled, h⟩ := bind_eq_ok_iff.mp h
      cases h
      exact (settle_changes hsettled).tail (.query settled argument)

end Steps

theorem read_changes {asked : Switch → Prop} {trailing trailing' : Bool} {argument : String}
    (hasked : ∀ switch ∈ switches side, (Shape.of argument).asks switch = true → asked switch)
    (h : g.read side trailing argument = .ok (g', trailing')) : Changes asked g g' := by
  unfold read at h
  split at h
  · obtain ⟨read, hread, h⟩ := bind_eq_ok_iff.mp h
    cases h
    exact readPlain_changes hread
  split at h
  · cases h
    exact .refl
  · next name value _ hshape =>
    obtain ⟨read, hread, h⟩ := bind_eq_ok_iff.mp h
    cases h
    refine readLong_changes (fun switch hswitch hname => hasked switch hswitch ?_) hread
    rw [hshape]
    simp [Shape.asks, hname]
  · next letters _ hshape =>
    obtain ⟨read, hread, h⟩ := bind_eq_ok_iff.mp h
    cases h
    refine readShort_changes (fun switch hswitch c hc hshort => hasked switch hswitch ?_) hread
    rw [hshape]
    exact List.any_eq_true.mpr ⟨c, hc, by simp [hshort]⟩
  · cases h
    exact .single (.pending g _)
  · obtain ⟨read, hread, h⟩ := bind_eq_ok_iff.mp h
    cases h
    exact readPlain_changes hread

theorem readSide_changes {asked : Switch → Prop} {trailing : Bool} {arguments : List String}
    {rest : Option (Subcommand × List String)}
    (hasked : ∀ switch, Asked side arguments switch → asked switch)
    (h : readSide side trailing g arguments = .ok (g', rest)) : Changes asked g g' := by
  induction arguments generalizing trailing g with
  | nil =>
    cases h
    exact .refl
  | cons argument arguments ih =>
    rcases readSide_cons_cases side trailing g argument with hhelp | ⟨command, hname⟩ | hread
    · rw [hhelp] at h
      cases h
    · rw [hname] at h
      cases h
      exact .refl
    · rw [hread] at h
      obtain ⟨⟨read, trailing'⟩, hstep, h⟩ := bind_eq_ok_iff.mp h
      refine (read_changes (fun switch hswitch hasks => ?_) hstep).trans
        (ih (fun switch hswitch => hasked switch hswitch.cons) h)
      exact hasked switch ⟨hswitch, argument, List.mem_cons_self, hasks⟩

section Kept

variable {asked : Switch → Prop}

theorem Changes.keeps {P : Given → Prop} (h : Changes asked g g')
    (hstep : ∀ {g g' : Given}, Change asked g g' → P g → P g') (hg : P g) : P g' := by
  induction h with
  | refl => exact hg
  | tail _ hchange ih => exact hstep hchange ih

def Fits (g : Given) : Prop :=
  ∀ n, g.maxDepth = some n → n < Nat.pow 2 64

theorem Fits.changes (hg : g.Fits) (h : Changes asked g g') : g'.Fits := by
  refine h.keeps (fun hchange hfits => ?_) hg
  cases hchange with
  | maxDepth hlt =>
    rintro n ⟨⟩
    exact hlt
  | _ => exact hfits

theorem Changes.verbose_eq (h : Changes asked g g') (hasked : ¬ asked .verbose) :
    g'.verbose = g.verbose := by
  refine h.keeps (P := fun x => x.verbose = g.verbose) (fun hchange heq => ?_) rfl
  cases hchange with
  | verbose hverbose => exact absurd hverbose hasked
  | _ => exact heq

end Kept

end Given

theorem suffix_of_readSide {trailing : Bool} {command : Subcommand} {arguments rest : List String}
    (h : readSide side trailing g arguments = .ok (g', some (command, rest))) :
    rest <:+ arguments := by
  induction arguments generalizing trailing g with
  | nil => cases h
  | cons argument arguments ih =>
    rcases readSide_cons_cases side trailing g argument with hhelp | ⟨command, hname⟩ | hread
    · rw [hhelp] at h
      cases h
    · rw [hname] at h
      cases h
      exact List.suffix_cons argument _
    · rw [hread] at h
      obtain ⟨x, -, h⟩ := bind_eq_ok_iff.mp h
      exact (ih h).trans (List.suffix_cons argument arguments)

theorem parse_eq_ok_iff {arguments : List String} {call : Call} :
    Call.parse arguments = .ok call ↔ ∃ before command rest after more before' after',
      readSide none false {} arguments = .ok (before, some (command, rest)) ∧
      readSide (some command) false {} rest = .ok (after, more) ∧
      after.settle = .ok after' ∧ before.settle = .ok before' ∧
      Call.join command before' after' = call := by
  constructor
  · intro h
    obtain ⟨⟨before, rest⟩, hbefore, h⟩ := bind_eq_ok_iff.mp h
    cases rest with
    | none =>
      obtain ⟨before, -, h⟩ := bind_eq_ok_iff.mp h
      split at h <;> cases h
    | some rest =>
      obtain ⟨⟨after, more⟩, hafter, h⟩ := bind_eq_ok_iff.mp h
      obtain ⟨after', hsettled, h⟩ := bind_eq_ok_iff.mp h
      obtain ⟨before', hbefore', h⟩ := bind_eq_ok_iff.mp h
      cases h
      exact ⟨before, rest.1, rest.2, after, more, before', after', hbefore, hafter, hsettled,
        hbefore', rfl⟩
  · rintro ⟨before, command, rest, after, more, before', after', hbefore, hafter, hsettled,
      hbefore', rfl⟩
    refine bind_eq_ok_iff.mpr ⟨_, hbefore, ?_⟩
    refine bind_eq_ok_iff.mpr ⟨_, hafter, ?_⟩
    refine bind_eq_ok_iff.mpr ⟨_, hsettled, ?_⟩
    exact bind_eq_ok_iff.mpr ⟨_, hbefore', rfl⟩

theorem parse_changes {arguments : List String} {call : Call}
    (h : Call.parse arguments = .ok call) : ∃ before after,
      Given.Changes (Asked none arguments) {} before ∧
      Given.Changes (Asked (some call.command) arguments) {} after ∧
      Call.join call.command before after = call := by
  obtain ⟨before, command, rest, after, more, before', after', hbefore, hafter, hsettled, hbefore',
    rfl⟩ := parse_eq_ok_iff.mp h
  have hrest : ∀ switch, Asked (some command) rest switch → Asked (some command) arguments switch := by
    rintro switch ⟨hswitch, argument, hmem, hasks⟩
    exact ⟨hswitch, argument, (suffix_of_readSide hbefore).mem hmem, hasks⟩
  exact ⟨before', after',
    (Given.readSide_changes (fun _ => id) hbefore).trans (Given.settle_changes hbefore'),
    (Given.readSide_changes hrest hafter).trans (Given.settle_changes hsettled), rfl⟩

theorem maxDepth_lt_of_parse {arguments : List String} {call : Call}
    (h : Call.parse arguments = .ok call) (hn : call.maxDepth = some n) : n < Nat.pow 2 64 := by
  have hnone : Given.Fits {} := fun _ h => nomatch h
  obtain ⟨before, after, hbefore, hafter, hcall⟩ := parse_changes h
  rw [← hcall] at hn
  obtain hn | hn : after.maxDepth = some n ∨ before.maxDepth = some n := by
    simp only [Call.join] at hn
    cases hdepth : after.maxDepth <;> simp_all
  · exact hnone.changes hafter n hn
  · exact hnone.changes hbefore n hn

theorem verbose_eq_zero {arguments : List String} {call : Call}
    (h : Call.parse arguments = .ok call)
    (hquiet : ∀ argument ∈ arguments, (Shape.of argument).asks .verbose = false) :
    call.verbose = 0 := by
  have hnever : ∀ side, ¬ Asked side arguments .verbose := by
    rintro side ⟨-, argument, hmem, hasks⟩
    rw [hquiet argument hmem] at hasks
    cases hasks
  obtain ⟨before, after, hbefore, hafter, hcall⟩ := parse_changes h
  have hb : before.verbose = 0 := hbefore.verbose_eq (hnever none)
  have ha : after.verbose = 0 := hafter.verbose_eq (hnever _)
  rw [← hcall, Call.join, ha, hb]
  rfl

end SearchFilter.Command
