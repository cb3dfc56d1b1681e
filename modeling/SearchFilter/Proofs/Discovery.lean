import SearchFilter.Proofs.Ancestry
import SearchFilter.Proofs.Loading

/-! Which settings files are found, and in which order. The search takes the files on the way up to the
first one that ends it; if none does, the file of the home directory comes after them, unless the way has
passed it. Then it stands where it was passed, before the files of the directories above it. -/

namespace SearchFilter.Settings

open Files
open Files.Path (Climb)

variable {disk : Disk} {home : Option Path} {directory file path : Path} {paths : List Path}

section Search

def EndsSearch (disk : Disk) (path : Path) : Prop :=
  ∃ text layer, disk.read path = .ok text ∧ Layer.parse text = .ok layer ∧ layer.root = some true

theorem isRoot_iff : isRoot disk path = true ↔ EndsSearch disk path := by
  unfold isRoot readSource parseSource EndsSearch
  cases disk.read path with
  | error fault => simp
  | ok text =>
    cases hlayer : Layer.parse text with
    | error cause => simp [hlayer]
    | ok layer => simp [hlayer]

theorem isRoot_eq_false_iff : isRoot disk path = false ↔ ¬ EndsSearch disk path := by
  rw [← isRoot_iff, Bool.not_eq_true]

def Passes (disk : Disk) (paths : List Path) : Prop :=
  ∀ p ∈ paths, disk.isFile p = true → ¬ EndsSearch disk p

theorem walk_passes (h : Passes disk paths) : walk disk paths = (paths.filter disk.isFile, false) := by
  have hwalk := @walk_append disk paths [] fun p hp hfile => isRoot_eq_false_iff.mpr (h p hp hfile)
  simpa [walk] using hwalk

theorem walk_ends {before after : List Path} (hbefore : Passes disk before)
    (hfile : disk.isFile file = true) (hends : EndsSearch disk file) :
    walk disk (before ++ file :: after) = (before.filter disk.isFile ++ [file], true) := by
  have hhere : walk disk (file :: after) = ([file], true) := by
    rw [walk, hfile, isRoot_iff.mpr hends]
    rfl
  rw [walk_append fun p hp hfile => isRoot_eq_false_iff.mpr (hbefore p hp hfile), hhere]

theorem passes_or_ends (disk : Disk) (paths : List Path) : Passes disk paths ∨
    ∃ before file after, paths = before ++ file :: after ∧ Passes disk before ∧
      disk.isFile file = true ∧ EndsSearch disk file := by
  induction paths with
  | nil => exact .inl fun p hp => absurd hp (by simp)
  | cons p paths ih =>
    by_cases hp : disk.isFile p = true ∧ EndsSearch disk p
    · exact .inr ⟨[], p, paths, rfl, fun q hq => absurd hq (by simp), hp⟩
    have hpass : ∀ {more : List Path}, Passes disk more → Passes disk (p :: more) := by
      intro more hmore q hq hfile hends
      obtain rfl | hq := List.mem_cons.mp hq
      · exact hp ⟨hfile, hends⟩
      · exact hmore q hq hfile hends
    obtain hpaths | ⟨before, file, after, rfl, hbefore, hfile⟩ := ih
    · exact .inl (hpass hpaths)
    · exact .inr ⟨p :: before, file, after, rfl, hpass hbefore, hfile⟩

def unlistedGlobal (disk : Disk) (home : Option Path) (files : List Path) : List Path :=
  (globalFile home).toList.filter fun path => disk.isFile path && !files.any path.Same

theorem mem_unlistedGlobal : path ∈ unlistedGlobal disk home paths ↔ globalFile home = some path ∧
    disk.isFile path = true ∧ ∀ p ∈ paths, path.Same p = false := by
  rw [unlistedGlobal, List.mem_filter, Option.mem_toList]
  simp

theorem eq_singleton_of_mem_unlistedGlobal (h : path ∈ unlistedGlobal disk home paths) :
    unlistedGlobal disk home paths = [path] := by
  obtain ⟨hhome, hfile, hunlisted⟩ := mem_unlistedGlobal.mp h
  have hany : paths.any path.Same = false := by simpa using hunlisted
  rw [unlistedGlobal, hhome, Option.toList_some, List.filter_cons_of_pos (by simp [hfile, hany]),
    List.filter_nil]

theorem discover_ends {before after : List Path}
    (hcandidates : candidates directory = before ++ file :: after) (hbefore : Passes disk before)
    (hfile : disk.isFile file = true) (hends : EndsSearch disk file) :
    discover disk home directory = before.filter disk.isFile ++ [file] := by
  rw [discover, hcandidates, walk_ends hbefore hfile hends]
  cases globalFile home <;> rfl

theorem discover_passes (h : Passes disk (candidates directory)) :
    discover disk home directory = (candidates directory).filter disk.isFile ++
      unlistedGlobal disk home ((candidates directory).filter disk.isFile) := by
  rw [discover, walk_passes h, unlistedGlobal]
  generalize (candidates directory).filter disk.isFile = files
  cases globalFile home with
  | none => simp
  | some path => cases hfile : disk.isFile path <;> cases hlisted : files.any path.Same <;> simp_all

end Search

section Order

theorem components_candidate (p : Path) : (p.join fileName).components = p.components ++ [fileName] :=
  Path.components_join (by decide) (by decide)

theorem candidates_pairwise (directory : Path) :
    (candidates directory).Pairwise fun p q => q.components.length < p.components.length := by
  refine List.pairwise_map.mpr ((Path.ancestors_pairwise directory).imp fun h => ?_)
  simpa [components_candidate] using h

theorem same_comm (p q : Path) : p.Same q = q.Same p := by
  rw [Path.Same, Path.Same, Bool.beq_comm, Bool.beq_comm (a := p.components)]

theorem not_same_of_length_lt {p q : Path} (h : q.components.length < p.components.length) :
    p.Same q = false := by
  have hne : p.components ≠ q.components := fun heq => h.ne (by rw [heq])
  simp [Path.Same, hne]

theorem pairwise_not_same (h : paths.Sublist (candidates directory)) :
    paths.Pairwise fun p q => p.Same q = false :=
  ((candidates_pairwise directory).sublist h).imp not_same_of_length_lt

theorem discover_pairwise (disk : Disk) (home : Option Path) (directory : Path) :
    (discover disk home directory).Pairwise fun p q => p.Same q = false := by
  obtain hpass | ⟨before, file, after, hcandidates, hbefore, hfile, hends⟩ :=
    passes_or_ends disk (candidates directory)
  · rw [discover_passes hpass]
    have hfiles := pairwise_not_same (@List.filter_sublist _ disk.isFile (candidates directory))
    generalize (candidates directory).filter disk.isFile = files at hfiles
    refine List.pairwise_append.mpr ⟨hfiles, ?_, fun p hp q hq => ?_⟩
    · refine List.Pairwise.filter _ ?_
      cases globalFile home <;> simp
    · obtain ⟨-, -, hunlisted⟩ := mem_unlistedGlobal.mp hq
      rw [same_comm]
      exact hunlisted p hp
  · rw [discover_ends hcandidates hbefore hfile hends]
    have hsublist : (before.filter disk.isFile ++ [file]).Sublist (candidates directory) := by
      rw [hcandidates]
      exact List.Sublist.append List.filter_sublist (by simp)
    exact pairwise_not_same hsublist

end Order

section Global

variable {p q : Path}

theorem same_iff : p.Same q = true ↔ p.isAbsolute = q.isAbsolute ∧ p.components = q.components := by
  simp [Path.Same]

theorem isGlobal_iff :
    isGlobal home p = true ↔ ∃ path, globalFile home = some path ∧ p.Same path = true := by
  simp [isGlobal, Option.any_eq_true]

theorem same_of_isGlobal (hp : isGlobal home p = true) (hq : isGlobal home q = true) :
    p.Same q = true := by
  obtain ⟨path, hpath, hp⟩ := isGlobal_iff.mp hp
  obtain ⟨path', hpath', hq⟩ := isGlobal_iff.mp hq
  obtain rfl : path = path' := Option.some.inj (hpath.symm.trans hpath')
  obtain ⟨habsolute, hcomponents⟩ := same_iff.mp hp
  obtain ⟨habsolute', hcomponents'⟩ := same_iff.mp hq
  exact same_iff.mpr ⟨habsolute.trans habsolute'.symm, hcomponents.trans hcomponents'.symm⟩

theorem length_filter_isGlobal (disk : Disk) (home : Option Path) (directory : Path) :
    ((discover disk home directory).filter (isGlobal home)).length ≤ 1 := by
  have hpairwise := (discover_pairwise disk home directory).filter (isGlobal home)
  have hglobal : ∀ p ∈ (discover disk home directory).filter (isGlobal home), isGlobal home p = true :=
    fun p hp => (List.mem_filter.mp hp).2
  generalize (discover disk home directory).filter (isGlobal home) = found at hpairwise hglobal
  match found with
  | [] => exact Nat.zero_le 1
  | [_] => exact le_rfl
  | p :: q :: more =>
    have hsame := same_of_isGlobal (hglobal p (by simp)) (hglobal q (by simp))
    have hdiffer : p.Same q = false := (List.pairwise_cons.mp hpairwise).1 q (by simp)
    exact absurd hsame (by simp [hdiffer])

theorem unlistedGlobal_of_listed (hp : p ∈ paths) (hglobal : isGlobal home p = true) :
    unlistedGlobal disk home paths = [] := by
  refine List.eq_nil_iff_forall_not_mem.mpr fun path hpath => ?_
  obtain ⟨hhome, -, hunlisted⟩ := mem_unlistedGlobal.mp hpath
  have hself : isGlobal home path = true := isGlobal_iff.mpr ⟨path, hhome, same_iff.mpr ⟨rfl, rfl⟩⟩
  exact absurd (same_of_isGlobal hself hglobal) (by simp [hunlisted p hp])

/-- On the way up, the file of the home directory is passed and then a file above it, and neither it nor
any file before that one ends the search. -/
def Overtakes (disk : Disk) (home : Option Path) (directory : Path) : Prop :=
  ∃ below file between top above,
    candidates directory = below ++ file :: (between ++ top :: above) ∧ isGlobal home file = true ∧
    disk.isFile file = true ∧ disk.isFile top = true ∧ Passes disk (below ++ file :: between)

theorem overtakes_of_ends {before after : List Path}
    (hcandidates : candidates directory = before ++ file :: after) (hbefore : Passes disk before)
    (hfile : disk.isFile file = true) (hp : p ∈ before.filter disk.isFile)
    (hglobal : isGlobal home p = true) : Overtakes disk home directory := by
  obtain ⟨hp, hpfile⟩ := List.mem_filter.mp hp
  obtain ⟨below, between, rfl⟩ := List.append_of_mem hp
  exact ⟨below, p, between, file, after, by simpa using hcandidates, hglobal, hpfile, hfile, hbefore⟩

theorem overtakes_of_passes (hpass : Passes disk (candidates directory))
    (hp : p ∈ (candidates directory).filter disk.isFile) (hglobal : isGlobal home p = true)
    (hlast : ((candidates directory).filter disk.isFile).getLast? ≠ some p) :
    Overtakes disk home directory := by
  obtain ⟨hp, hpfile⟩ := List.mem_filter.mp hp
  obtain ⟨below, rest, hcandidates⟩ := List.append_of_mem hp
  have hmore : rest.filter disk.isFile ≠ [] := by
    intro hnone
    rw [hcandidates, List.filter_append, List.filter_cons_of_pos hpfile, hnone] at hlast
    exact hlast (by simp)
  obtain ⟨top, htop⟩ := List.exists_mem_of_ne_nil _ hmore
  obtain ⟨htop, htopfile⟩ := List.mem_filter.mp htop
  obtain ⟨between, above, rfl⟩ := List.append_of_mem htop
  refine ⟨below, p, between, top, above, hcandidates, hglobal, hpfile, htopfile, fun q hq => hpass q ?_⟩
  rw [hcandidates]
  have hsublist : (below ++ p :: between).Sublist (below ++ p :: (between ++ top :: above)) := by simp
  exact hsublist.mem hq

theorem mem_of_passes {before after passed rest : List Path}
    (h : before ++ file :: after = passed ++ rest) (hpassed : Passes disk passed)
    (hfile : disk.isFile file = true) (hends : EndsSearch disk file) (hp : p ∈ passed) : p ∈ before := by
  obtain ⟨more, rfl, hrest⟩ | ⟨more, rfl, -⟩ := List.append_eq_append_iff.mp h
  · cases more with
    | nil => simpa using hp
    | cons first more =>
      -- The file that ends the search cannot have been passed.
      obtain ⟨rfl, -⟩ := List.cons.inj hrest
      exact absurd hends (hpassed file (by simp) hfile)
  · exact List.mem_append_left more hp

theorem Overtakes.exists_not_last (h : Overtakes disk home directory) :
    ∃ p ∈ discover disk home directory, isGlobal home p = true ∧
      (discover disk home directory).getLast? ≠ some p := by
  obtain ⟨below, p, between, top, above, hcandidates, hglobal, hpfile, htopfile, hpassed⟩ := h
  obtain hpass | ⟨before, file, after, hends⟩ := passes_or_ends disk (candidates directory)
  · have hp : p ∈ (candidates directory).filter disk.isFile := by simp [hcandidates, hpfile]
    refine ⟨p, ?_, hglobal, ?_⟩
    · exact discover_passes hpass ▸ List.mem_append_left _ hp
    rw [discover_passes hpass, unlistedGlobal_of_listed hp hglobal, List.append_nil]
    intro hlast
    have hdescends := (candidates_pairwise directory).filter disk.isFile
    rw [hcandidates, List.filter_append, List.filter_cons_of_pos hpfile] at hlast hdescends
    have hbelow := (List.pairwise_cons.mp (List.pairwise_append.mp hdescends).2.1).1
    have hmore : (between ++ top :: above).filter disk.isFile ≠ [] :=
      List.ne_nil_of_mem (List.mem_filter.mpr ⟨by simp, htopfile⟩)
    rw [List.getLast?_append_cons, List.getLast?_cons_of_ne_nil hmore] at hlast
    exact (hbelow p (List.mem_of_getLast? hlast)).false
  · obtain ⟨hsplit, hbefore, hfile, hends⟩ := hends
    have hsame : before ++ file :: after = (below ++ p :: between) ++ top :: above := by
      rw [← hsplit, hcandidates]
      simp
    have hp : p ∈ before := mem_of_passes hsame hpassed hfile hends (by simp)
    refine ⟨p, ?_, hglobal, ?_⟩
    · rw [discover_ends hsplit hbefore hfile hends]
      exact List.mem_append_left _ (List.mem_filter.mpr ⟨hp, hpfile⟩)
    · rw [discover_ends hsplit hbefore hfile hends, List.getLast?_concat]
      rintro ⟨⟩
      exact hbefore p hp hfile hends

/-- At most one file that is found is the one of the home directory. It is not the last one exactly if
the way up passes it and then a file above it. -/
theorem global_last_unless_overtakes (disk : Disk) (home : Option Path) (directory : Path) :
    ((discover disk home directory).filter (isGlobal home)).length ≤ 1 ∧
    ((∃ p ∈ discover disk home directory, isGlobal home p = true ∧
        (discover disk home directory).getLast? ≠ some p) ↔ Overtakes disk home directory) := by
  refine ⟨length_filter_isGlobal disk home directory, ?_, Overtakes.exists_not_last⟩
  rintro ⟨p, hp, hglobal, hlast⟩
  obtain hpass | ⟨before, file, after, hcandidates, hbefore, hfile, hends⟩ :=
    passes_or_ends disk (candidates directory)
  · rw [discover_passes hpass] at hp hlast
    obtain hp | hp := List.mem_append.mp hp
    · rw [unlistedGlobal_of_listed hp hglobal, List.append_nil] at hlast
      exact overtakes_of_passes hpass hp hglobal hlast
    · rw [eq_singleton_of_mem_unlistedGlobal hp] at hlast
      exact absurd List.getLast?_concat hlast
  · rw [discover_ends hcandidates hbefore hfile hends] at hp hlast
    obtain hp | hp := List.mem_append.mp hp
    · exact overtakes_of_ends hcandidates hbefore hfile hp hglobal
    · obtain rfl := List.mem_singleton.mp hp
      exact absurd List.getLast?_concat hlast

def homeBelowFile : Entry :=
  .directory [(".qsql.toml", .file "[query]\ncolumn = \"team\"\n".toUTF8),
    ("home", .directory [(".qsql.toml", .file "[query]\ncolumn = \"own\"\n".toUTF8)])]

/-- Below the home directory, a file above it is found after the one of the home directory, whose column
covers the other one. -/
theorem global_not_last :
    discover homeBelowFile.disk (some ⟨"/home"⟩) ⟨"/home/notes"⟩ =
      [⟨"/home/.qsql.toml"⟩, ⟨"/.qsql.toml"⟩] ∧
    isGlobal (some ⟨"/home"⟩) ⟨"/home/.qsql.toml"⟩ = true ∧
    isGlobal (some ⟨"/home"⟩) ⟨"/.qsql.toml"⟩ = false ∧
    (Config.load homeBelowFile.disk (some ⟨"/home"⟩) ⟨"/home/notes"⟩).toOption.map (·.options.column) =
      some "own" := by
  refine ⟨by decide +kernel, by decide +kernel, by decide +kernel, by decide +kernel⟩

end Global

end SearchFilter.Settings
