import SearchFilter.Proofs.Loading

/-! Merging settings. Files are laid over each other from the last one on, so a mistake in a later file is
met first, and every setting of every file is checked, also one that a closer file covers. -/

namespace SearchFilter.Settings

namespace Source

def column? (source : Source) : Option String :=
  source.layer.query.bind QueryLayer.column

def maxDepth? (source : Source) : Option Nat :=
  source.layer.query.bind QueryLayer.maxDepth

structure Proper (source : Source) : Prop where
  column : ∀ name, source.column? = some name → Condition.isColumn name = true
  maxDepth : ∀ depth, source.maxDepth? = some depth → 1 ≤ depth ∧ depth ≤ depthLimit

def mistake? (source : Source) : Option Setting :=
  source.settings.find? (!·.IsValid)

theorem settings_eq (source : Source) : source.settings =
    (source.column?.map Setting.column).toList ++ (source.maxDepth?.map Setting.maxDepth).toList := by
  unfold settings column? maxDepth?
  cases source.layer.query with
  | none => rfl
  | some layer => rfl

theorem over_eq (source : Source) (options : Options) : source.over options =
    ⟨source.column?.getD options.column, source.maxDepth?.getD options.maxDepth⟩ := by
  unfold Source.over column? maxDepth?
  cases source.layer.query with
  | none => rfl
  | some layer => rfl

theorem proper_iff (source : Source) :
    source.Proper ↔ ∀ setting ∈ source.settings, setting.IsValid = true := by
  rw [settings_eq]
  constructor
  · rintro ⟨hcolumn, hdepth⟩ setting hsetting
    rcases List.mem_append.mp hsetting with h | h
    · obtain ⟨name, hname, rfl⟩ :
          ∃ name, source.column? = some name ∧ Setting.column name = setting := by
        simpa using h
      exact hcolumn name hname
    · obtain ⟨depth, hdepth', rfl⟩ :
          ∃ depth, source.maxDepth? = some depth ∧ Setting.maxDepth depth = setting := by
        simpa using h
      simpa [Setting.IsValid] using hdepth depth hdepth'
  · intro h
    refine ⟨fun name hname => h (.column name) (by simp [hname]), fun depth hdepth => ?_⟩
    simpa [Setting.IsValid] using h (.maxDepth depth) (by simp [hdepth])

instance (source : Source) : Decidable source.Proper :=
  decidable_of_iff (source.settings.all Setting.IsValid = true) (by rw [List.all_eq_true, proper_iff])

theorem mistake?_eq_none_iff (source : Source) : source.mistake? = none ↔ source.Proper := by
  simp [mistake?, proper_iff]

theorem mistake?_eq_some_iff (source : Source) (setting : Setting) :
    source.mistake? = some setting ↔ setting ∈ source.settings ∧ setting.IsValid = false ∧
      setting.key = if source.column?.all Condition.isColumn then "query.max_depth"
        else "query.column" := by
  have hcolumn : ∀ name, setting = .column name → setting.key = "query.column" := by
    rintro name rfl
    rfl
  have hdepth : ∀ depth, setting = .maxDepth depth → setting.key = "query.max_depth" := by
    rintro depth rfl
    rfl
  have hvalid : ∀ name, Setting.IsValid (.column name) = Condition.isColumn name := fun _ => rfl
  rw [mistake?, settings_eq]
  cases source.column? with
  | none => cases source.maxDepth? <;> grind
  | some name =>
    -- A column that is not valid hides the limit, and one that is valid is passed over.
    cases hname : Condition.isColumn name with
    | false => cases source.maxDepth? <;> grind
    | true => cases source.maxDepth? <;> grind

end Source

section Merging

variable {sources : List Source}

theorem foldr_over (sources : List Source) (options : Options) :
    sources.foldr Source.over options =
      ⟨(sources.findSome? Source.column?).getD options.column,
        (sources.findSome? Source.maxDepth?).getD options.maxDepth⟩ := by
  induction sources with
  | nil => rfl
  | cons source sources ih =>
    rw [List.foldr_cons, ih, Source.over_eq, List.findSome?_cons, List.findSome?_cons]
    cases source.column? <;> cases source.maxDepth? <;> rfl

theorem foldrM_proper (h : ∀ source ∈ sources, source.Proper) (options : Options) :
    sources.foldrM Source.cover options = .ok (sources.foldr Source.over options) := by
  induction sources with
  | nil => rfl
  | cons source sources ih =>
    obtain ⟨hsource, hsources⟩ := List.forall_mem_cons.mp h
    have hmistake : source.settings.find? (!·.IsValid) = none :=
      source.mistake?_eq_none_iff.mpr hsource
    have hcover : source.cover (sources.foldr Source.over options) =
        .ok (source.over (sources.foldr Source.over options)) := by
      rw [Source.cover_eq, hmistake]
    rw [List.foldrM_cons, ih hsources, List.foldr_cons]
    exact hcover

theorem merge_proper (h : ∀ source ∈ sources, source.Proper) : Config.merge sources =
    .ok ⟨⟨(sources.findSome? Source.column?).getD ({} : Options).column,
      (sources.findSome? Source.maxDepth?).getD ({} : Options).maxDepth⟩,
      sources.map Source.path⟩ := by
  rw [Config.merge, foldrM_proper h, foldr_over]
  rfl

theorem merge_mistake {before after : List Source} {source : Source} {setting : Setting}
    (hafter : ∀ later ∈ after, later.Proper) (h : source.mistake? = some setting) :
    Config.merge (before ++ source :: after) = .error (.invalidSetting source.path setting) := by
  have hmistake : source.settings.find? (!·.IsValid) = some setting := h
  have hcover : ∀ options, source.cover options = .error (.invalidSetting source.path setting) := by
    intro options
    rw [Source.cover_eq, hmistake]
  have hlast : (source :: after).foldrM Source.cover {} =
      .error (.invalidSetting source.path setting) := by
    rw [List.foldrM_cons, foldrM_proper hafter]
    exact hcover _
  rw [Config.merge, List.foldrM_append, hlast]
  rfl

theorem proper_or_last_mistake (sources : List Source) :
    (∀ source ∈ sources, source.Proper) ∨
    ∃ before source after setting, sources = before ++ source :: after ∧
      (∀ later ∈ after, later.Proper) ∧ source.mistake? = some setting := by
  induction sources with
  | nil => exact .inl (by simp)
  | cons source sources ih =>
    rcases ih with hsources | ⟨before, last, after, setting, rfl, hafter, hlast⟩
    · cases hmistake : source.mistake? with
      | none =>
        have hsource := source.mistake?_eq_none_iff.mp hmistake
        exact .inl (List.forall_mem_cons.mpr ⟨hsource, hsources⟩)
      | some setting => exact .inr ⟨[], source, sources, setting, rfl, hsources, hmistake⟩
    · exact .inr ⟨source :: before, last, after, setting, rfl, hafter, hlast⟩

theorem proper_of_merge {config : Config} (h : Config.merge sources = .ok config) :
    ∀ source ∈ sources, source.Proper := by
  obtain hproper | ⟨before, source, after, setting, rfl, hafter, hmistake⟩ :=
    proper_or_last_mistake sources
  · exact hproper
  · rw [merge_mistake hafter hmistake] at h
    cases h

theorem sound_of_merge {config : Config} (h : Config.merge sources = .ok config) :
    Sound config.options := by
  obtain ⟨options, hoptions, h⟩ := Condition.bind_eq_ok_iff.mp h
  cases h
  exact foldrM_sound hoptions

/-- Files merge if and only if everything in them is valid, covered or not. Then each setting is the first
that is defined, apart from the other one. Otherwise the last file with a mistake is reported, by its
column if that is one. -/
theorem merge_outcome (sources : List Source) :
    (∀ config, Config.merge sources = .ok config ↔ (∀ source ∈ sources, source.Proper) ∧
      config = ⟨⟨(sources.findSome? Source.column?).getD ({} : Options).column,
        (sources.findSome? Source.maxDepth?).getD ({} : Options).maxDepth⟩,
        sources.map Source.path⟩) ∧
    ∀ e, Config.merge sources = .error e ↔ ∃ before source after setting,
      sources = before ++ source :: after ∧ (∀ later ∈ after, later.Proper) ∧
      setting ∈ source.settings ∧ setting.IsValid = false ∧
      setting.key = (if source.column?.all Condition.isColumn then "query.max_depth"
        else "query.column") ∧
      e = .invalidSetting source.path setting := by
  refine ⟨fun config => ⟨fun h => ?_, ?_⟩, fun e => ⟨fun h => ?_, ?_⟩⟩
  · rcases proper_or_last_mistake sources with
      hproper | ⟨before, source, after, setting, rfl, hafter, hmistake⟩
    · rw [merge_proper hproper] at h
      exact ⟨hproper, (Except.ok.inj h).symm⟩
    · rw [merge_mistake hafter hmistake] at h
      cases h
  · rintro ⟨hproper, rfl⟩
    exact merge_proper hproper
  · rcases proper_or_last_mistake sources with
      hproper | ⟨before, source, after, setting, rfl, hafter, hmistake⟩
    · rw [merge_proper hproper] at h
      cases h
    · rw [merge_mistake hafter hmistake] at h
      obtain ⟨hmem, hinvalid, hkey⟩ := (source.mistake?_eq_some_iff setting).mp hmistake
      exact ⟨before, source, after, setting, rfl, hafter, hmem, hinvalid, hkey,
        (Except.error.inj h).symm⟩
  · rintro ⟨before, source, after, setting, rfl, hafter, hmem, hinvalid, hkey, rfl⟩
    exact merge_mistake hafter ((source.mistake?_eq_some_iff setting).mpr ⟨hmem, hinvalid, hkey⟩)

def Source.saying (path : String) (column : Option String) (maxDepth : Option Nat) : Source :=
  ⟨⟨path⟩, none, some ⟨column, maxDepth⟩⟩

theorem merge_outcome_covered :
    Config.merge [.saying "/p/q" (some "title") none, ⟨⟨"/p"⟩, none, none⟩,
        .saying "/" (some "body") (some 8)] =
      .ok ⟨⟨"title", 8⟩, [⟨"/p/q"⟩, ⟨"/p"⟩, ⟨"/"⟩]⟩ ∧
    Config.merge [.saying "/p/q" (some "title") (some 0), .saying "/p" (some "a b") (some 257),
        .saying "/" none (some 1)] =
      .error (.invalidSetting ⟨"/p"⟩ (.column "a b")) := by
  constructor
  · refine ((merge_outcome _).1 _).mpr ⟨?_, rfl⟩
    simp only [List.forall_mem_cons, List.not_mem_nil, false_implies, implies_true, and_true]
    exact ⟨by decide +kernel, by decide +kernel, by decide +kernel⟩
  · have hlast : (Source.saying "/" none (some 1)).Proper := by decide +kernel
    refine ((merge_outcome _).2 _).mpr ⟨[.saying "/p/q" (some "title") (some 0)],
      .saying "/p" (some "a b") (some 257), [.saying "/" none (some 1)], .column "a b", rfl,
      by simpa using hlast, by decide, by decide +kernel, by decide +kernel, rfl⟩

end Merging
end SearchFilter.Settings
