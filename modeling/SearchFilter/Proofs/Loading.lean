import SearchFilter.Command.Run
import SearchFilter.Proofs.Stages

/-! Loading settings. Files beyond the one that ends the search, or that fails, have no say in what is
loaded, and whatever is loaded makes a compiler. -/

namespace SearchFilter.Settings

open Files
open Condition (bind_eq_ok_iff)

section Files

variable {disk : Disk} {home : Option Path} {directory path : Path} {paths : List Path}

theorem mem_of_mem_walk (h : path ∈ (walk disk paths).1) :
    path ∈ paths := by
  induction paths with
  | nil => cases h
  | cons first paths ih =>
    rw [walk] at h
    split at h
    · exact List.mem_cons_of_mem first (ih h)
    split at h
    · exact List.mem_singleton.mp h ▸ List.mem_cons_self
    · obtain rfl | h := List.mem_cons.mp h
      · exact List.mem_cons_self
      · exact List.mem_cons_of_mem first (ih h)

theorem mem_discover (h : path ∈ discover disk home directory) :
    path ∈ candidates directory ∨ globalFile home = some path := by
  unfold discover at h
  dsimp only at h
  split at h
  · exact .inl (mem_of_mem_walk h)
  · next file hfile =>
    split at h
    · exact .inl (mem_of_mem_walk h)
    · obtain h | h := List.mem_append.mp h
      · exact .inl (mem_of_mem_walk h)
      · exact .inr (List.mem_singleton.mp h ▸ hfile)

theorem path_readSource {source : Source} (h : readSource disk path = .ok source) :
    source.path = path := by
  unfold readSource parseSource at h
  split at h
  · split at h
    · cases h
      rfl
    · cases h
  · cases h

theorem map_path_mapM {sources : List Source}
    (h : paths.mapM (readSource disk) = .ok sources) : sources.map Source.path = paths := by
  induction paths generalizing sources with
  | nil =>
    cases h
    rfl
  | cons path paths ih =>
    rw [List.mapM_cons] at h
    obtain ⟨source, hsource, h⟩ := bind_eq_ok_iff.mp h
    obtain ⟨rest, hrest, h⟩ := bind_eq_ok_iff.mp h
    cases h
    rw [List.map_cons, path_readSource hsource, ih hrest]

theorem load_files {config : Config}
    (h : Config.load disk home directory = .ok config) :
    config.files = discover disk home directory := by
  obtain ⟨sources, hsources, h⟩ := bind_eq_ok_iff.mp h
  obtain ⟨options, -, h⟩ := bind_eq_ok_iff.mp h
  cases h
  exact map_path_mapM hsources

end Files

section Isolation

variable {disk disk' : Disk} {home home' : Option Path} {directory path : Path}
  {before after paths : List Path}

/-- A file that settles a load: it ends the search, or it cannot be read or parsed. -/
def Settles (disk : Disk) (path : Path) : Prop :=
  disk.isFile path = true ∧
    ∀ source, readSource disk path = .ok source → source.layer.root = some true

theorem isRoot_eq_false (hfile : disk.isFile path = true) (h : ¬ Settles disk path) :
    isRoot disk path = false := by
  refine Bool.eq_false_iff.mpr fun hroot => h ⟨hfile, fun source hsource => ?_⟩
  rw [isRoot, hsource] at hroot
  exact eq_of_beq hroot

theorem walk_append (h : ∀ p ∈ before, disk.isFile p = true → isRoot disk p = false) :
    walk disk (before ++ paths) =
      (before.filter disk.isFile ++ (walk disk paths).1, (walk disk paths).2) := by
  induction before with
  | nil => rfl
  | cons p before ih =>
    have htail := ih fun q hq => h q (List.mem_cons_of_mem p hq)
    rw [List.cons_append, walk]
    cases hfile : disk.isFile p with
    | false => simp [hfile, htail]
    | true => simp [hfile, h p List.mem_cons_self hfile, htail]

theorem discover_settled (hcandidates : candidates directory = before ++ path :: after)
    (hpath : Settles disk path) (hbefore : ∀ p ∈ before, ¬ Settles disk p) :
    ∃ more, discover disk home directory = before.filter disk.isFile ++ path :: more ∧
      (isRoot disk path = true → more = []) := by
  have hwalk : walk disk (candidates directory) =
      (before.filter disk.isFile ++ (walk disk (path :: after)).1, (walk disk (path :: after)).2) := by
    rw [hcandidates]
    exact walk_append fun p hp hfile => isRoot_eq_false hfile (hbefore p hp)
  have hhere : walk disk (path :: after) =
      if isRoot disk path then ([path], true)
      else (path :: (walk disk after).1, (walk disk after).2) := by
    rw [walk, hpath.1]
    rfl
  unfold discover
  rw [hwalk, hhere]
  cases isRoot disk path with
  | true =>
    refine ⟨[], ?_, fun _ => rfl⟩
    cases globalFile home <;> rfl
  | false =>
    simp only [Bool.false_eq_true, if_false, false_implies, and_true]
    cases globalFile home with
    | none => exact ⟨_, rfl⟩
    | some file =>
      dsimp only
      split
      · exact ⟨_, rfl⟩
      · exact ⟨(walk disk after).1 ++ [file], by simp⟩

theorem mapM_append_error {α β ε : Type} {f : α → Except ε β} {x : α} {e : ε} {xs ys : List α}
    (h : f x = .error e) : (xs ++ x :: ys).mapM f = (xs ++ [x]).mapM f := by
  induction xs with
  | nil =>
    rw [List.nil_append, List.nil_append, List.mapM_cons, List.mapM_cons, h]
    rfl
  | cons y xs ih => rw [List.cons_append, List.cons_append, List.mapM_cons, List.mapM_cons, ih]

theorem load_settled (hcandidates : candidates directory = before ++ path :: after)
    (hpath : Settles disk path) (hbefore : ∀ p ∈ before, ¬ Settles disk p) :
    Config.load disk home directory = Config.ofFiles disk (before.filter disk.isFile ++ [path]) := by
  obtain ⟨more, hdiscover, hmore⟩ := @discover_settled disk home directory path before after
    hcandidates hpath hbefore
  rw [Config.load, hdiscover]
  cases hsource : readSource disk path with
  | ok source =>
    have hroot : isRoot disk path = true := by
      rw [isRoot, hsource]
      exact beq_iff_eq.mpr (hpath.2 source hsource)
    rw [hmore hroot]
  | error e =>
    -- A file that fails does not end the search, but the files after it are never read.
    rw [Config.ofFiles, mapM_append_error hsource, Config.ofFiles]

theorem isFile_congr (h : disk' path = disk path) : disk'.isFile path = disk.isFile path := by
  rw [Disk.isFile, h, Disk.isFile]

theorem readSource_congr (h : disk' path = disk path) :
    readSource disk' path = readSource disk path := by
  rw [readSource, Disk.read, h, readSource, Disk.read]

theorem ofFiles_congr (h : ∀ p ∈ paths, disk' p = disk p) :
    Config.ofFiles disk' paths = Config.ofFiles disk paths := by
  have hread : paths.mapM (readSource disk') = paths.mapM (readSource disk) := by
    induction paths with
    | nil => rfl
    | cons p paths ih =>
      rw [List.mapM_cons, List.mapM_cons, readSource_congr (h p List.mem_cons_self),
        ih fun q hq => h q (List.mem_cons_of_mem p hq)]
  rw [Config.ofFiles, hread, Config.ofFiles]

theorem settles_congr (h : disk' path = disk path) : Settles disk' path ↔ Settles disk path := by
  rw [Settles, isFile_congr h, readSource_congr h, Settles]

/-- Two disks that agree up to the file that settles a load give the same settings, or fail in the same
way, whatever they hold elsewhere. -/
theorem load_eq_of_agree (hcandidates : candidates directory = before ++ path :: after)
    (hpath : Settles disk path) (hbefore : ∀ p ∈ before, ¬ Settles disk p)
    (hagree : ∀ p ∈ before ++ [path], disk' p = disk p) :
    Config.load disk' home' directory = Config.load disk home directory := by
  have hsame : ∀ p ∈ before, disk' p = disk p :=
    fun p hp => hagree p (List.mem_append_left _ hp)
  have hlast : disk' path = disk path := hagree path (by simp)
  have hfiles : before.filter disk'.isFile = before.filter disk.isFile :=
    List.filter_congr fun p hp => isFile_congr (hsame p hp)
  rw [load_settled hcandidates hpath hbefore,
    load_settled hcandidates ((settles_congr hlast).mpr hpath)
      fun p hp hsettles => hbefore p hp ((settles_congr (hsame p hp)).mp hsettles), hfiles]
  refine ofFiles_congr fun p hp => hagree p ?_
  exact List.mem_append.mpr ((List.mem_append.mp hp).imp_left List.mem_of_mem_filter)

def rootedTree (others : List (String × Entry)) : Entry :=
  .directory (("p", .directory [(".qsql.toml", .file "root = true\n".toUTF8)]) :: others)

theorem load_eq_of_agree_root :
    candidates ⟨"/p/q"⟩ = [⟨"/p/q/.qsql.toml"⟩] ++ ⟨"/p/.qsql.toml"⟩ :: [⟨"/.qsql.toml"⟩] ∧
    Settles (rootedTree []).disk ⟨"/p/.qsql.toml"⟩ ∧
    ¬ Settles (rootedTree []).disk ⟨"/p/q/.qsql.toml"⟩ ∧
    Config.load (rootedTree [(".qsql.toml", .file "broken".toUTF8)]).disk (some ⟨"/"⟩) ⟨"/p/q"⟩ =
      Config.load (rootedTree []).disk none ⟨"/p/q"⟩ := by
  have hcandidates : candidates ⟨"/p/q"⟩ =
      [⟨"/p/q/.qsql.toml"⟩] ++ ⟨"/p/.qsql.toml"⟩ :: [⟨"/.qsql.toml"⟩] := by
    decide +kernel
  have hsource : (readSource (rootedTree []).disk ⟨"/p/.qsql.toml"⟩).toOption =
      some ⟨⟨"/p/.qsql.toml"⟩, some true, none⟩ := by
    decide +kernel
  have hsettles : Settles (rootedTree []).disk ⟨"/p/.qsql.toml"⟩ := by
    refine ⟨by decide +kernel, fun source h => ?_⟩
    rw [eq_ok_of_toOption hsource] at h
    cases h
    rfl
  have hnot : ¬ Settles (rootedTree []).disk ⟨"/p/q/.qsql.toml"⟩ :=
    fun h => absurd h.1 (by decide +kernel)
  refine ⟨hcandidates, hsettles, hnot,
    load_eq_of_agree hcandidates hsettles (by simpa using hnot) fun p hp => ?_⟩
  obtain rfl | rfl : p = ⟨"/p/q/.qsql.toml"⟩ ∨ p = ⟨"/p/.qsql.toml"⟩ := by simpa using hp
  · rfl
  · rfl

end Isolation

section Validity

open Command (Call)

variable {source : Source} {sources : List Source} {options options' : Options} {config : Config}

structure Sound (options : Options) : Prop where
  isColumn : Condition.isColumn options.column = true
  one_le : 1 ≤ options.maxDepth
  le_limit : options.maxDepth ≤ depthLimit

def Source.settings (source : Source) : List Setting :=
  match source.layer.query with
  | none => []
  | some layer =>
    (layer.column.map Setting.column).toList ++ (layer.maxDepth.map Setting.maxDepth).toList

def Source.over (source : Source) (options : Options) : Options :=
  match source.layer.query with
  | none => options
  | some layer => ⟨layer.column.getD options.column, layer.maxDepth.getD options.maxDepth⟩

theorem Source.cover_eq (source : Source) (options : Options) :
    source.cover options = match source.settings.find? (!·.IsValid) with
      | some setting => .error (.invalidSetting source.path setting)
      | none => .ok (source.over options) := by
  unfold Source.cover Source.settings Source.over check
  cases source.layer.query with
  | none => rfl
  | some layer =>
    obtain ⟨column, maxDepth⟩ := layer
    cases column with
    | none =>
      cases maxDepth with
      | none => rfl
      | some depth =>
        cases hdepth : Setting.IsValid (.maxDepth depth) <;>
          simp [hdepth, bind, Except.bind, pure, Except.pure]
    | some name =>
      cases maxDepth with
      | none =>
        cases hname : Setting.IsValid (.column name) <;>
          simp [hname, bind, Except.bind, pure, Except.pure]
      | some depth =>
        cases hname : Setting.IsValid (.column name) <;>
          cases hdepth : Setting.IsValid (.maxDepth depth) <;>
            simp [hname, hdepth, bind, Except.bind, pure, Except.pure]

theorem Sound.over (hoptions : Sound options) (h : ∀ s ∈ source.settings, s.IsValid = true) :
    Sound (source.over options) := by
  obtain ⟨path, root, query⟩ := source
  cases query with
  | none => exact hoptions
  | some layer =>
    obtain ⟨column, maxDepth⟩ := layer
    have hcolumn : Condition.isColumn (column.getD options.column) = true := by
      cases column with
      | none => exact hoptions.isColumn
      | some name => exact h (.column name) (by simp [Source.settings])
    have hdepth : 1 ≤ maxDepth.getD options.maxDepth ∧
        maxDepth.getD options.maxDepth ≤ depthLimit := by
      cases maxDepth with
      | none => exact ⟨hoptions.one_le, hoptions.le_limit⟩
      | some depth =>
        have hvalid := h (.maxDepth depth) (by simp [Source.settings])
        simpa [Setting.IsValid] using hvalid
    exact ⟨hcolumn, hdepth.1, hdepth.2⟩

theorem Sound.cover (hoptions : Sound options) (h : source.cover options = .ok options') :
    Sound options' := by
  rw [Source.cover_eq] at h
  split at h
  · cases h
  · next hnone =>
    cases h
    exact hoptions.over (by simpa using hnone)

theorem foldrM_sound (h : sources.foldrM Source.cover {} = .ok options) : Sound options := by
  induction sources generalizing options with
  | nil =>
    cases h
    exact ⟨by decide +kernel, by decide, by decide⟩
  | cons source sources ih =>
    rw [List.foldrM_cons] at h
    obtain ⟨below, hbelow, hcover⟩ := bind_eq_ok_iff.mp h
    exact (ih hbelow).cover hcover

theorem load_sound {disk : Disk} {home : Option Path} {directory : Path}
    (h : Config.load disk home directory = .ok config) : Sound config.options := by
  obtain ⟨sources, -, h⟩ := bind_eq_ok_iff.mp h
  obtain ⟨options, hoptions, h⟩ := bind_eq_ok_iff.mp h
  cases h
  exact foldrM_sound hoptions

theorem ofOptions_eq_error_iff {e : QueryError} :
    Compiler.ofOptions options = .error e ↔
      (depthLimit < options.maxDepth ∧ e = .depthLimitTooHigh options.maxDepth) ∨
      (options.maxDepth ≤ depthLimit ∧ Condition.isColumn options.column = false ∧
        e = .invalidColumn options.column) := by
  unfold Compiler.ofOptions
  split
  · next hdepth =>
    split
    · next hcolumn => simp [hcolumn, Nat.not_lt.mpr hdepth]
    · next hcolumn =>
      have hinvalid : Condition.isColumn options.column = false := by simpa using hcolumn
      simp [hdepth, hinvalid, Nat.not_lt.mpr hdepth, @eq_comm _ e]
  · next hdepth => simp [hdepth, Nat.not_le.mp hdepth, @eq_comm _ e]

/-- What was loaded makes a compiler, and it is only by its own mistakes that the command line can keep
it from that: by its limit, or else by its column. -/
theorem ofOptions_load {disk : Disk} {home : Option Path} {directory : Path}
    (h : Config.load disk home directory = .ok config) (call : Call) :
    1 ≤ config.options.maxDepth ∧ config.options.maxDepth ≤ depthLimit ∧
    (∃ c, Compiler.ofOptions config.options = .ok c ∧ c.toOptions = config.options) ∧
    ∀ e, Compiler.ofOptions (call.cover config.options) = .error e ↔
      (∃ depth, call.maxDepth = some depth ∧ depthLimit < depth ∧ e = .depthLimitTooHigh depth) ∨
      ((∀ depth, call.maxDepth = some depth → depth ≤ depthLimit) ∧
        ∃ column, call.column = some column ∧ Condition.isColumn column = false ∧
          e = .invalidColumn column) := by
  have hsound := load_sound h
  have hoptions : Compiler.ofOptions config.options =
      .ok ⟨config.options, hsound.le_limit, hsound.isColumn⟩ := by
    rw [Compiler.ofOptions, dif_pos hsound.le_limit, dif_pos hsound.isColumn]
  refine ⟨hsound.one_le, hsound.le_limit, ⟨_, hoptions, rfl⟩, fun e => ?_⟩
  rw [ofOptions_eq_error_iff]
  refine or_congr ?_ (and_congr ?_ ?_)
  · cases hdepth : call.maxDepth with
    | none => simp [Call.cover, hdepth, Nat.not_lt.mpr hsound.le_limit]
    | some depth => simp [Call.cover, hdepth]
  · cases hdepth : call.maxDepth with
    | none => simp [Call.cover, hdepth, hsound.le_limit]
    | some depth => simp [Call.cover, hdepth]
  · cases hcolumn : call.column with
    | none => simp [Call.cover, hcolumn, hsound.isColumn]
    | some column => simp [Call.cover, hcolumn]

theorem ofOptions_load_deep :
    ∃ config, Config.load (Entry.directory [(".qsql.toml",
        .file "[query]\nmax_depth = 9\n".toUTF8)]).disk none ⟨"/"⟩ = .ok config ∧
      config.options = ⟨"column_name", 9⟩ ∧
      Compiler.ofOptions (Call.cover { command := .compile, column := some "a b", maxDepth := some 300 }
        config.options) = .error (.depthLimitTooHigh 300) ∧
      Compiler.ofOptions (Call.cover { command := .compile, column := some "a b", maxDepth := some 0 }
        config.options) = .error (.invalidColumn "a b") := by
  have hload := eq_ok_of_toOption (show (Config.load (Entry.directory [(".qsql.toml",
      .file "[query]\nmax_depth = 9\n".toUTF8)]).disk none ⟨"/"⟩).toOption =
        some ⟨⟨"column_name", 9⟩, [⟨"/.qsql.toml"⟩]⟩ by decide +kernel)
  refine ⟨_, hload, rfl, ?_, ?_⟩
  · exact ((ofOptions_load hload _).2.2.2 _).mpr (.inl ⟨300, rfl, by decide, rfl⟩)
  · refine ((ofOptions_load hload _).2.2.2 _).mpr (.inr ⟨?_, "a b", rfl, by decide +kernel, rfl⟩)
    rintro depth ⟨⟩
    decide

end Validity

end SearchFilter.Settings
