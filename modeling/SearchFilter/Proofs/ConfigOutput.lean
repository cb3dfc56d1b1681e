import SearchFilter.Proofs.Outcomes
import SearchFilter.Proofs.Paths
import SearchFilter.Proofs.SettingsText

/-! The output of `config` as a settings file. It shows the files that were read in comments, so it reads
back as the settings in effect as long as their names hold no control characters. A name with a line end
breaks its comment. -/

namespace SearchFilter.Toml

open Reader

variable {c : Char} {cs body rest before : List Char} {comments : List (List Char)}

section Returns

theorem returnsEndLines_tail (h : returnsEndLines (c :: cs) = true) : returnsEndLines cs = true := by
  unfold returnsEndLines at h
  split at h
  · next heq => cases heq
  · cases h
  · next next rest heq =>
    obtain ⟨rfl, rfl⟩ := List.cons.inj heq
    rw [Bool.and_eq_true, beq_iff_eq] at h
    obtain ⟨rfl, h⟩ := h
    exact h
  · next heq =>
    obtain ⟨rfl, rfl⟩ := List.cons.inj heq
    exact h

theorem eq_newline_of_returnsEndLines
    (h : returnsEndLines (before ++ '\r' :: c :: rest) = true) : c = '\n' := by
  induction before with
  | nil =>
    rw [List.nil_append, returnsEndLines, Bool.and_eq_true, beq_iff_eq] at h
    exact h.1
  | cons d before ih => exact ih (returnsEndLines_tail h)

end Returns

section Comments

structure IsComment (line : List Char) : Prop where
  starts : ∃ body, line = '#' :: body
  oneLine : '\n' ∉ line
  ends : line.getLast? ≠ some '\r'

theorem document_cons {line : List Char} :
    document (line :: comments) ++ rest = line ++ '\n' :: (document comments ++ rest) := by
  simp [document]

theorem dropTrivia_comment (h : '\n' ∉ body) :
    dropTrivia true (body ++ '\n' :: rest) =
      if body.all fun c => isTextual c || c = '\r' then dropTrivia false rest else none := by
  induction body with
  | nil => simp [dropTrivia]
  | cons c body ih =>
    rw [List.mem_cons, not_or] at h
    rw [List.cons_append, dropTrivia, if_neg (Ne.symm h.1), if_pos rfl, ih h.2, List.all_cons]
    cases isTextual c || c = '\r' <;> simp

theorem dropTrivia_comments (h : ∀ line ∈ comments, IsComment line) :
    dropTrivia false (document comments ++ rest) =
      if comments.all (·.all fun c => isTextual c || c = '\r') then dropTrivia false rest
      else none := by
  induction comments with
  | nil => rfl
  | cons line comments ih =>
    have htail := ih fun line hmem => h line (List.mem_cons_of_mem _ hmem)
    obtain ⟨⟨body, rfl⟩, hline, -⟩ := h line List.mem_cons_self
    have hbody : '\n' ∉ body := fun hmem => hline (List.mem_cons_of_mem _ hmem)
    have hstart : dropTrivia false ('#' :: body ++ '\n' :: (document comments ++ rest)) =
        dropTrivia true (body ++ '\n' :: (document comments ++ rest)) := rfl
    have hmark : isTextual '#' = true := rfl
    rw [document_cons, hstart, dropTrivia_comment hbody, htail, List.all_cons, List.all_cons, hmark]
    cases body.all fun c => isTextual c || c = '\r' <;> simp

theorem return_not_mem_comments (h : ∀ line ∈ comments, IsComment line)
    (hreturns : returnsEndLines (document comments ++ rest) = true) :
    ∀ line ∈ comments, '\r' ∉ line := by
  intro line hline hmem
  obtain ⟨before, after, rfl⟩ := List.append_of_mem hline
  obtain ⟨start, stop, rfl⟩ := List.append_of_mem hmem
  obtain ⟨-, honeLine, hends⟩ := h _ hline
  cases stop with
  | nil => exact hends (by simp)
  | cons c stop =>
    -- The character after the return stands in the same line, so it is no newline.
    have htext : document (before ++ (start ++ '\r' :: c :: stop) :: after) ++ rest =
        (document before ++ start) ++ '\r' :: c :: (stop ++ '\n' :: (document after ++ rest)) := by
      simp [document]
    rw [htext] at hreturns
    exact honeLine (by simp [eq_newline_of_returnsEndLines hreturns])

theorem statements_eq_none {seen : List Statement} (h : dropTrivia false cs = none) :
    statements cs seen cs = none := by
  have htrivia : trivia cs = none := by
    rw [trivia, skip, h]
    rfl
  cases cs with
  | nil => cases h
  | cons c cs =>
    unfold statements
    show (trivia (c :: cs) >>= _) = none
    rw [htrivia]
    rfl

end Comments

end SearchFilter.Toml

namespace SearchFilter.Settings

open Toml Toml.Reader

variable {options : Options} {comments : List (List Char)}

theorem head?_comments {cs : List Char} (hne : comments ≠ [])
    (hcomments : ∀ line ∈ comments, IsComment line) :
    (document comments ++ cs).head? ≠ some '\ufeff' := by
  obtain ⟨line, others, rfl⟩ := List.exists_cons_of_ne_nil hne
  obtain ⟨⟨body, rfl⟩, -, -⟩ := hcomments line List.mem_cons_self
  rw [document_cons]
  simp

theorem textual_of_parse_comments {layer : Layer} {cs : List Char} (hne : comments ≠ [])
    (hcomments : ∀ line ∈ comments, IsComment line)
    (h : Layer.parse (String.ofList (document comments ++ cs)) = .ok layer) :
    ∀ line ∈ comments, ∀ c ∈ line, isTextual c = true := by
  have hmark := @head?_comments comments cs hne hcomments
  have hreturns : returnsEndLines (document comments ++ cs) = true := by
    by_contra hreturns
    rw [Layer.parse, parse_ofList hmark, if_neg hreturns] at h
    cases h
  have hall : comments.all (·.all fun c => isTextual c || c = '\r') = true := by
    by_contra hall
    have htrivia := @dropTrivia_comments cs comments hcomments
    rw [if_neg hall] at htrivia
    rw [Layer.parse, parse_ofList hmark, if_pos hreturns, statements_eq_none htrivia] at h
    cases h
  -- Comments are skipped over carriage returns too; it is the check of line ends that refuses them.
  intro line hline c hc
  have hne : c ≠ '\r' := by
    rintro rfl
    exact return_not_mem_comments hcomments hreturns line hline hc
  simpa [hne] using List.all_eq_true.mp (List.all_eq_true.mp hall line hline) c hc

theorem parse_textual_comments (hne : comments ≠ []) (hcomments : ∀ line ∈ comments, IsComment line)
    (hdepth : options.maxDepth < Nat.pow 2 64)
    (htextual : ∀ line ∈ comments, ∀ c ∈ line, isTextual c = true) :
    Layer.parse (String.ofList (document comments ++ document (settingsLines options))) =
      .ok ⟨none, some ⟨some options.column, some options.maxDepth⟩⟩ := by
  have hreturn : '\r' ∉ document comments ++ document (settingsLines options) := by
    rw [List.mem_append, not_or]
    refine ⟨fun hmem => ?_, return_not_mem_settings⟩
    obtain ⟨line, hline, hmem⟩ := List.mem_flatMap.mp hmem
    obtain hmem | hmem := List.mem_append.mp hmem
    · cases htextual line hline _ hmem
    · simp at hmem
  have hall : comments.all (·.all fun c => isTextual c || c = '\r') = true := by
    refine List.all_eq_true.mpr fun line hline => List.all_eq_true.mpr fun c hc => ?_
    rw [htextual line hline c hc, Bool.true_or]
  refine parse_settings hdepth (head?_comments hne hcomments) (returnsEndLines_of_not_mem hreturn) ?_
  rw [dropTrivia_comments hcomments, if_pos hall]
  exact dropTrivia_document (settingsLines_hold hdepth)

theorem parse_comments (hne : comments ≠ []) (hcomments : ∀ line ∈ comments, IsComment line)
    (hdepth : options.maxDepth < Nat.pow 2 64) :
    Layer.parse (String.ofList (document comments ++ document (settingsLines options))) =
        .ok ⟨none, some ⟨some options.column, some options.maxDepth⟩⟩ ↔
      ∀ line ∈ comments, ∀ c ∈ line, isTextual c = true :=
  ⟨textual_of_parse_comments hne hcomments, parse_textual_comments hne hcomments hdepth⟩

end SearchFilter.Settings

namespace SearchFilter.Command

open Files Settings Toml
open Toml.Reader (document)

section Names

variable {w : Surroundings} {directory path : Path} {c : Char}

theorem slash_not_mem_fileName : '/' ∉ fileName.toList := by decide

theorem displayPath_cases (h : path ∈ discover w.disk w.home directory) :
    displayPath w.home directory path = "~/" ++ fileName ∨
      ∃ up ∈ directory.ancestors, path = up.join fileName ∧
        (displayPath w.home directory path = path.text ∨
          ∃ way, directory.below? path = some way ∧ displayPath w.home directory path = way.text) := by
  unfold displayPath
  split
  · exact .inl rfl
  · next hglobal =>
    obtain hpath | hpath := mem_discover h
    · obtain ⟨up, hup, rfl⟩ := List.mem_map.mp hpath
      refine .inr ⟨up, hup, rfl, ?_⟩
      cases hway : directory.below? (up.join fileName) with
      | none => exact .inl rfl
      | some way => exact .inr ⟨way, rfl, rfl⟩
    · refine absurd ?_ hglobal
      simp [isGlobal, hpath, Path.Same]

theorem mem_displayPath (h : path ∈ discover w.disk w.home directory)
    (hc : c ∈ (displayPath w.home directory path).toList) :
    c ∈ directory.text.toList ∨ c ∈ ("~/" ++ fileName).toList := by
  obtain hpath | ⟨up, hup, rfl, hpath⟩ := displayPath_cases h
  · exact .inr (hpath ▸ hc)
  have hjoin : c = '/' ∨ c ∈ (up.join fileName).text.toList := by
    obtain hpath | ⟨way, hway, hpath⟩ := hpath
    · exact .inr (hpath ▸ hc)
    · exact Path.mem_below?_text hway (hpath ▸ hc)
  have hslash : '/' ∈ ("~/" ++ fileName).toList := by decide
  obtain rfl | hjoin := hjoin
  · exact .inr hslash
  obtain rfl | hc | hc := Path.mem_join_text hjoin
  · exact .inr hslash
  · obtain rfl | hc := Path.mem_ancestors_text hup hc
    · exact .inr hslash
    · exact .inl hc
  · exact .inr (by simp [hc])

theorem displayPath_eq_append (h : path ∈ discover w.disk w.home directory) :
    displayPath w.home directory path = "" ∨ ∃ before, displayPath w.home directory path = before ++ fileName := by
  obtain hpath | ⟨up, -, rfl, hpath | ⟨way, hway, hpath⟩⟩ := displayPath_cases h
  · exact .inr ⟨_, hpath⟩
  · rw [hpath]
    exact .inr Path.text_join
  · rw [hpath]
    exact Path.text_below?_join slash_not_mem_fileName (by decide) hway

end Names

section Output

variable {w : Surroundings} {call : Call} {directory path : Path} {config : Config}

theorem loadConfig_files (h : call.loadConfig w directory = .ok config) (hpath : path ∈ config.files) :
    path ∈ discover w.disk w.home directory := by
  unfold Call.loadConfig at h
  split at h
  · cases h
    cases hpath
  · exact load_files h ▸ hpath

theorem loadConfig_maxDepth_le (h : call.loadConfig w directory = .ok config) :
    config.options.maxDepth ≤ depthLimit := by
  unfold Call.loadConfig at h
  split at h
  · cases h
    decide
  · exact (load_sound h).le_limit

theorem cover_maxDepth_lt (hcall : Call.parse w.arguments = .ok call)
    (h : call.loadConfig w directory = .ok config) :
    (call.cover config.options).maxDepth < Nat.pow 2 64 := by
  cases hdepth : call.maxDepth with
  | none =>
    have hle := loadConfig_maxDepth_le h
    have hlimit : depthLimit < Nat.pow 2 64 := by decide
    simp only [Call.cover, hdepth, Option.getD_none]
    omega
  | some n =>
    simp only [Call.cover, hdepth, Option.getD_some]
    exact maxDepth_lt_of_parse hcall hdepth

def sourceComments (home : Option Path) (directory : Path) (files : List Path) : List (List Char) :=
  if files.isEmpty then ["# no configuration files found".toList]
  else files.map fun path => "# from ".toList ++ (displayPath home directory path).toList

theorem toList_comments (ctx : Context) (home : Option Path) :
    (ctx.comments home).map String.toList = sourceComments home ctx.directory ctx.config.files := by
  unfold Context.comments sourceComments
  split
  · rfl
  · simp [Function.comp_def]

theorem toList_unlines (lines : List String) :
    (unlines lines).toList = document (lines.map String.toList) := by
  simp [unlines, String.toList_join, document, List.flatMap_map]

def IsPlain (name : String) : Prop :=
  ∀ c ∈ name.toList, isTextual c = true

theorem sourceComments_ne_nil {files : List Path} : sourceComments w.home directory files ≠ [] := by
  unfold sourceComments
  split
  · simp
  · next hfiles => simpa using hfiles

theorem isComment_sourceComments (h : call.loadConfig w directory = .ok config)
    (hline : ∀ path ∈ config.files, '\n' ∉ (displayPath w.home directory path).toList) :
    ∀ line ∈ sourceComments w.home directory config.files, IsComment line := by
  intro line hmem
  unfold sourceComments at hmem
  split at hmem
  · obtain rfl := List.mem_singleton.mp hmem
    exact ⟨⟨_, rfl⟩, by decide, by decide⟩
  · obtain ⟨path, hpath, rfl⟩ := List.mem_map.mp hmem
    refine ⟨⟨_, rfl⟩, ?_, ?_⟩
    · rw [List.mem_append, not_or]
      exact ⟨by decide, hline path hpath⟩
    · obtain hname | ⟨before, hname⟩ := displayPath_eq_append (loadConfig_files h hpath)
      · rw [hname]
        decide
      · rw [hname, String.toList_append, ← List.append_assoc,
          List.getLast?_append_of_ne_nil _ (by decide)]
        decide

theorem textual_sourceComments {files : List Path} :
    (∀ line ∈ sourceComments w.home directory files, ∀ c ∈ line, isTextual c = true) ↔
      ∀ path ∈ files, IsPlain (displayPath w.home directory path) := by
  unfold sourceComments
  split
  · next hfiles =>
    obtain rfl : files = [] := by simpa using hfiles
    simp only [List.mem_singleton, forall_eq, List.not_mem_nil, false_implies, implies_true, iff_true]
    exact fun c hc => List.all_eq_true.mp (by decide) c hc
  · constructor
    · intro h path hpath c hc
      exact h _ (List.mem_map_of_mem hpath) c (List.mem_append_right _ hc)
    · intro h line hline c hc
      obtain ⟨path, hpath, rfl⟩ := List.mem_map.mp hline
      obtain hc | hc := List.mem_append.mp hc
      · exact List.all_eq_true.mp (by decide) c hc
      · exact h path hpath c hc

theorem isPlain_displayPath (h : path ∈ discover w.disk w.home directory)
    (hdirectory : IsPlain directory.text) : IsPlain (displayPath w.home directory path) := by
  intro c hc
  obtain hc | hc := mem_displayPath h hc
  · exact hdirectory c hc
  · exact List.all_eq_true.mp (by decide) c hc

theorem output_perform_config {ctx : Context} {k : Console} (hcommand : call.command = .config)
    (hcolor : ctx.styler = ⟨false⟩) (hk : k.output = "") :
    (Outcome.of (ctx.perform w call k)).output =
      String.ofList (document (sourceComments w.home ctx.directory ctx.config.files) ++
        document (settingsLines ctx.config.options)) := by
  have hplain : (ctx.comments w.home).map (ctx.styler.style .dim) = ctx.comments w.home := by
    rw [hcolor]
    exact List.map_id _
  have htoml : ctx.styler.toml (toToml ctx.config.options) = toToml ctx.config.options := by
    rw [hcolor]
    rfl
  have hperform : ctx.perform w call k = ctx.showConfig w.home k := by
    rw [Context.perform, hcommand]
  rw [hperform, showConfig_eq rfl, hplain, htoml]
  apply String.toList_inj.mp
  show (k.output ++ _).toList = _
  rw [hk, String.empty_append, String.toList_ofList, String.toList_append, toList_unlines,
    toList_comments, toList_toToml]

/-- Without colors the output of `config` reads back as the settings in effect exactly if no name that it
shows holds a control character, and none does in a directory whose path holds none. Names with a line
end are left out: what follows it is read as settings. -/
theorem parse_output_config (hcall : Call.parse w.arguments = .ok call)
    (hcommand : call.command = .config) (hcolor : useColor w call.color = false)
    (hstatus : (run w).status = 0) :
    ∃ directory config, w.directory = .ok directory ∧ call.loadConfig w directory = .ok config ∧
      (IsPlain directory.text → ∀ path ∈ config.files, IsPlain (displayPath w.home directory path)) ∧
      ((∀ path ∈ config.files, '\n' ∉ (displayPath w.home directory path).toList) →
        (Layer.parse (run w).output = .ok ⟨none, some ⟨some (call.cover config.options).column,
            some (call.cover config.options).maxDepth⟩⟩ ↔
          ∀ path ∈ config.files, IsPlain (displayPath w.home directory path))) := by
  rcases run_call_cases hcall with ⟨text, hrun⟩ | ⟨directory, config, hdirectory, hload, hrun⟩
  · rw [hrun] at hstatus
    cases hstatus
  · refine ⟨directory, config, hdirectory, hload, fun hplain path hpath =>
      isPlain_displayPath (loadConfig_files hload hpath) hplain, fun hline => ?_⟩
    rw [hrun, output_perform_config hcommand (congrArg _ hcolor) (Console.output_log _ _),
      parse_comments sourceComments_ne_nil (isComment_sourceComments hload hline)
        (cover_maxDepth_lt hcall hload)]
    exact textual_sourceComments

def configBelow (name : String) : Surroundings where
  arguments := ["config", "--max-depth", "7"]
  directory := .ok ⟨"/" ++ name ++ "/c"⟩
  disk := (Entry.directory [(name, .directory
    [(".qsql.toml", .file "[query]\ncolumn = \"title\"\n".toUTF8)])]).disk

theorem parse_output_config_accented :
    Call.parse (configBelow "é b").arguments = .ok { command := .config, maxDepth := some 7 } ∧
    useColor (configBelow "é b") .auto = false ∧ (run (configBelow "é b")).status = 0 ∧
    IsPlain "/é b/c" ∧
    Layer.parse (run (configBelow "é b")).output = .ok ⟨none, some ⟨some "title", some 7⟩⟩ := by
  have hcall : Call.parse (configBelow "é b").arguments =
      .ok { command := .config, maxDepth := some 7 } :=
    eq_ok_of_toOption (by decide +kernel)
  have hstatus : (run (configBelow "é b")).status = 0 := by decide +kernel
  have hplain : IsPlain "/é b/c" := fun c hc => List.all_eq_true.mp (by decide +kernel) c hc
  have hload : Call.loadConfig { command := .config, maxDepth := some 7 } (configBelow "é b")
      ⟨"/é b/c"⟩ = .ok ⟨⟨"title", 128⟩, [⟨"/é b/.qsql.toml"⟩]⟩ :=
    eq_ok_of_toOption (by decide +kernel)
  obtain ⟨directory, config, hdirectory, hconfig, hnames, hparse⟩ :=
    parse_output_config hcall rfl rfl hstatus
  obtain rfl : ⟨"/é b/c"⟩ = directory := Except.ok.inj hdirectory
  have hline : ∀ path ∈ config.files,
      '\n' ∉ (displayPath (configBelow "é b").home ⟨"/é b/c"⟩ path).toList :=
    fun path hpath hmem => by cases hnames hplain path hpath _ hmem
  obtain rfl : _ = config := Except.ok.inj (hload.symm.trans hconfig)
  exact ⟨hcall, rfl, hstatus, hplain, (hparse hline).mpr (hnames hplain)⟩

theorem not_parse_output_config :
    (run (configBelow "a\nb")).status = 0 ∧
    (run (configBelow "a\nb")).output =
      "# from /a\nb/.qsql.toml\n[query]\ncolumn = \"title\"\nmax_depth = 7\n" ∧
    (Layer.parse (run (configBelow "a\nb")).output).isOk = false := by
  decide +kernel

end Output

end SearchFilter.Command
