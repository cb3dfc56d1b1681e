import SearchFilter.Command.Run
import SearchFilter.Proofs.CommandLine
import SearchFilter.Proofs.Loading

/-! How runs end. The parts of the program that can fail print nothing, and the parts that print come
after all of them and cannot fail. No failure is the program's own. So a run either prints all of its
output or reports one error, and without log flags it prints nothing else. -/

namespace SearchFilter.Command

open Terminal Settings Condition Routine

variable {w : Surroundings} {s : Styler} {call : Call} {ctx : Context} {c : Compiler}
  {e : QueryError} {event : Event} {events : List Event} {query : String} {k k' k'' : Console}

section Logging

def Event.IsQuiet (event : Event) : Prop :=
  ∀ e, event ≠ .internalFailure e

theorem logFilter_default : logFilter none 0 = [⟨none, Level.warn.verbosity⟩] := by
  decide +kernel

theorem not_shows_quiet (h : event.IsQuiet) :
    LogFilter.shows (logFilter none 0) event = false := by
  have hverbosity : LogFilter.verbosity (logFilter none 0) event.target = Level.warn.verbosity := by
    rw [logFilter_default]
    rfl
  have hlevel : Level.warn.verbosity < event.level.verbosity := by
    cases event with
    | internalFailure e => exact absurd rfl (h e)
    | _ => simp [Event.level, Level.verbosity]
  rw [LogFilter.shows, hverbosity, decide_eq_false_iff_not]
  exact Nat.not_le.mpr hlevel

theorem logLines_quiet (h : ∀ event ∈ events, event.IsQuiet) :
    logLines (logFilter none 0) events = "" := by
  have hnone : events.filter (LogFilter.shows (logFilter none 0)) = [] := by
    refine List.filter_eq_nil_iff.mpr fun event hevent => ?_
    rw [not_shows_quiet (h event hevent)]
    exact Bool.false_ne_true
  rw [logLines, hnone]
  rfl

theorem logLines_append (filter : LogFilter) (before after : List Event) :
    logLines filter (before ++ after) = logLines filter before ++ logLines filter after := by
  simp [logLines, String.join_append]

theorem isQuiet_rejected (e : QueryError) : (Event.rejected e).IsQuiet :=
  fun _ h => Event.noConfusion h

theorem isQuiet_configurationLoaded (count : Nat) : (Event.configurationLoaded count).IsQuiet :=
  fun _ h => Event.noConfusion h

theorem failureEvents_quiet (e : QueryError) : ∀ event ∈ failureEvents e, event.IsQuiet := by
  intro event hevent
  cases e <;> simp only [failureEvents, List.mem_singleton, List.not_mem_nil] at hevent
  all_goals
    subst hevent
    exact fun _ h => Event.noConfusion h

theorem treeEvents_quiet (c : Compiler) (query : String) :
    ∀ event ∈ treeEvents c query, event.IsQuiet := by
  intro event hevent
  rcases List.mem_cons.mp hevent with rfl | hevent
  · exact fun _ h => Event.noConfusion h
  · cases htree : c.tree query with
    | error e =>
      rw [htree] at hevent
      exact failureEvents_quiet e event hevent
    | ok tree =>
      rw [htree] at hevent
      exact absurd hevent List.not_mem_nil

theorem compileEvents_quiet (c : Compiler) (query : String) :
    ∀ event ∈ compileEvents c query, event.IsQuiet := by
  intro event hevent
  rcases List.mem_append.mp hevent with hevent | hevent
  · rcases List.mem_append.mp hevent with hevent | hevent
    · exact treeEvents_quiet c query event hevent
    · cases htree : c.tree query <;> cases hexpr : c.expression query <;>
        simp only [htree, hexpr, List.mem_cons, List.not_mem_nil, or_false] at hevent
      · subst hevent
        exact fun _ h => Event.noConfusion h
      · rcases hevent with rfl | rfl <;> exact fun _ h => Event.noConfusion h
  · cases hfragment : c.compile query <;>
      simp only [hfragment, List.mem_singleton, List.not_mem_nil] at hevent
    subst hevent
    exact fun _ h => Event.noConfusion h

end Logging

def unlines (lines : List String) : String :=
  String.join (lines.map (· ++ "\n"))

theorem unlines_cons (line : String) (lines : List String) :
    unlines (line :: lines) = line ++ "\n" ++ unlines lines := by
  simp [unlines]

namespace Console

theorem print_print (k : Console) (a b : String) : (k.print a).print b = k.print (a ++ b) := by
  simp only [print, String.append_assoc]

theorem complain_complain (k : Console) (a b : String) :
    (k.complain a).complain b = k.complain (a ++ b) := by
  simp only [complain, String.append_assoc]

theorem complain_empty (k : Console) : k.complain "" = k := by
  simp only [complain, String.append_empty]

theorem print_empty (k : Console) : k.print "" = k := by
  simp only [print, String.append_empty]

def logAll (k : Console) (events : List Event) : Console :=
  k.complain (logLines k.filter events)

theorem logAll_append (k : Console) (before after : List Event) :
    (k.logAll before).logAll after = k.logAll (before ++ after) := by
  rw [logAll, logAll, logAll, complain_complain, logLines_append]
  rfl

theorem log_eq (k : Console) (event : Event) : k.log event = k.logAll [event] := by
  unfold log
  split
  · next h => simp [logAll, logLines, h]
  · next h => simp [logAll, logLines, h, complain_empty]

theorem output_log (k : Console) (event : Event) : (k.log event).output = k.output := by
  rw [log_eq]
  rfl

theorem logAll_cons (k : Console) (event : Event) (events : List Event) :
    k.logAll (event :: events) = (k.log event).logAll events := by
  rw [log_eq, logAll_append, List.singleton_append]

end Console

namespace Routine

variable {α β : Type} {a : Routine α} {f : α → Routine β} {x : α} {status : Nat}

theorem bind_of_ok (h : a k = .ok x k') : (a >>= f) k = f x k' := by
  show EStateM.bind a f k = _
  simp only [EStateM.bind, h]

theorem bind_of_error (h : a k = .error status k') : (a >>= f) k = .error status k' := by
  show EStateM.bind a f k = _
  simp only [EStateM.bind, h]

theorem forM_eq {f : α → Routine Unit} {g : Console → List α → Console} (hnil : ∀ k, g k [] = k)
    (hcons : ∀ k x xs, ∃ k', f x k = .ok () k' ∧ g k (x :: xs) = g k' xs) (xs : List α)
    (k : Console) : xs.forM f k = .ok () (g k xs) := by
  induction xs generalizing k with
  | nil =>
    rw [hnil]
    rfl
  | cons x xs ih =>
    obtain ⟨k', hstep, hrest⟩ := hcons k x xs
    rw [hrest, ← ih]
    exact bind_of_ok hstep

theorem forM_printLine (lines : List String) (k : Console) :
    lines.forM printLine k = .ok () (k.print (unlines lines)) := by
  refine forM_eq (g := fun k lines => k.print (unlines lines)) (fun k => ?_) (fun k line lines => ?_) _ k
  · exact k.print_empty
  · refine ⟨k.print (line ++ "\n"), rfl, ?_⟩
    rw [unlines_cons, k.print_print]

theorem forM_complainLine (lines : List String) (k : Console) :
    lines.forM complainLine k = .ok () (k.complain (unlines lines)) := by
  refine forM_eq (g := fun k lines => k.complain (unlines lines)) (fun k => ?_)
    (fun k line lines => ?_) _ k
  · exact k.complain_empty
  · refine ⟨k.complain (line ++ "\n"), rfl, ?_⟩
    rw [unlines_cons, k.complain_complain]

theorem forM_log (events : List Event) (k : Console) :
    events.forM log k = .ok () (k.logAll events) := by
  refine forM_eq (g := Console.logAll) (fun k => ?_) (fun k event events => ?_) _ k
  · exact k.complain_empty
  · exact ⟨k.log event, rfl, k.logAll_cons event events⟩

/-- Log lines without the program's own failures are all that is written from `k` to `k'`. -/
def Logs (k k' : Console) : Prop :=
  ∃ events : List Event, (∀ event ∈ events, event.IsQuiet) ∧ k' = k.logAll events

theorem Logs.refl (k : Console) : Logs k k :=
  ⟨[], fun _ h => absurd h List.not_mem_nil, k.complain_empty.symm⟩

theorem Logs.trans (h : Logs k k') (h' : Logs k' k'') : Logs k k'' := by
  obtain ⟨before, hbefore, rfl⟩ := h
  obtain ⟨after, hafter, rfl⟩ := h'
  refine ⟨before ++ after, fun event hevent => ?_, k.logAll_append before after⟩
  rcases List.mem_append.mp hevent with hevent | hevent
  · exact hbefore event hevent
  · exact hafter event hevent

theorem logs_log (k : Console) (h : event.IsQuiet) : Logs k (k.log event) :=
  ⟨[event], List.forall_mem_singleton.mpr h, k.log_eq event⟩

/-- A part that only logs, or reports an error and ends the program with status 1. -/
def Checks (a : Routine α) : Prop :=
  ∀ k, (∃ x k', a k = .ok x k' ∧ Logs k k') ∨
    ∃ k' text, a k = .error 1 (k'.complain text) ∧ Logs k k'

/-- The program, or its end from some point on: it logs, and then prints and ends with status 0, or
reports an error and ends with status 1. -/
def Finishes (a : Routine Nat) : Prop :=
  ∀ k, (∃ k' text, a k = .ok 0 (k'.print text) ∧ Logs k k') ∨
    ∃ k' text, (a k = .ok 1 (k'.complain text) ∨ a k = .error 1 (k'.complain text)) ∧ Logs k k'

theorem Checks.bind_finishes {f : α → Routine Nat} (ha : Checks a) (hf : ∀ x, Finishes (f x)) :
    Finishes (a >>= f) := by
  intro k
  rcases ha k with ⟨x, k', ha, hlogs⟩ | ⟨k', text, ha, hlogs⟩
  · rw [bind_of_ok ha]
    rcases hf x k' with ⟨k'', text, hf, hlogs'⟩ | ⟨k'', text, hf, hlogs'⟩
    · exact .inl ⟨k'', text, hf, hlogs.trans hlogs'⟩
    · exact .inr ⟨k'', text, hf, hlogs.trans hlogs'⟩
  · exact .inr ⟨k', text, .inr (bind_of_error ha), hlogs⟩

theorem checks_forM_log (h : ∀ event ∈ events, event.IsQuiet) : Checks (events.forM log) :=
  fun k => .inl ⟨(), k.logAll events, forM_log events k, events, h, rfl⟩

end Routine

section Errors

theorem not_internal_of_ofOptions {options : Options} (h : Compiler.ofOptions options = .error e) :
    e.isInternal = false := by
  rcases ofOptions_eq_error_iff.mp h with ⟨-, rfl⟩ | ⟨-, -, rfl⟩ <;> rfl

theorem not_internal_of_compile (h : c.compile query = .error e) : e.isInternal = false := by
  rw [c.compile_eq_map] at h
  rcases c.expression_cases query with ⟨-, expr, -, -, -, -, he⟩ | ⟨error, ht, he⟩
  · rw [he] at h
    cases h
  · rw [he] at h
    obtain rfl : error = e := Except.error.inj h
    cases error with
    | internal cause => exact absurd ht (parse_ne_internal query c.maxDepth cause)
    | _ => rfl

/-- The stages, run one by one, give what the compiler gives, or fail with its error. -/
theorem stages_cases (c : Compiler) (query : String) :
    (∃ made, stages c query = .ok made ∧ c.tree query = .ok made.tree ∧
      c.expression query = .ok made.expr ∧ c.compile query = .ok made.fragment) ∨
    ∃ e, stages c query = .error e ∧ c.compile query = .error e := by
  simp only [stages, Compiler.compile, Compiler.expression, bind, Except.bind, pure, Except.pure]
  cases c.tree query with
  | error e => exact .inr ⟨e, rfl, rfl⟩
  | ok tree =>
    cases hdraft : draftOf tree with
    | error e =>
      simp only [hdraft]
      exact .inr ⟨e, rfl, rfl⟩
    | ok draft =>
      cases hresolve : resolve draft with
      | error e =>
        simp only [hdraft, hresolve]
        exact .inr ⟨e, rfl, rfl⟩
      | ok expr =>
        simp only [hdraft, hresolve]
        exact .inl ⟨⟨tree, expr, expr.render c.column⟩, rfl, rfl, rfl, rfl⟩

end Errors

namespace Routine

theorem report_eq (h : e.isInternal = false) (s : Styler) (k : Console) :
    report s e k = .ok 1 ((k.log (.rejected e)).complain (unlines (errorLines s e))) := by
  have hlog : log (if e.isInternal then .internalFailure e else .rejected e) k =
      .ok () (k.log (.rejected e)) := by
    rw [h]
    rfl
  have hstatus : exitStatus e = 1 := by
    rw [exitStatus, h]
    rfl
  rw [report, bind_of_ok hlog, bind_of_ok (forM_complainLine _ _), hstatus]
  rfl

theorem finishes_report (h : e.isInternal = false) (s : Styler) : Finishes (report s e) :=
  fun k => .inr ⟨_, _, .inl (report_eq h s k), logs_log k (isQuiet_rejected e)⟩

theorem finishes_printJson (fragment : Fragment) : Finishes (printJson fragment) := by
  intro k
  unfold printJson
  cases serialize fragment with
  | ok json => exact .inl ⟨k, json ++ "\n", rfl, .refl k⟩
  | error reason => exact .inr ⟨k, _, .inl rfl, .refl k⟩

theorem printFragment_eq (s : Styler) (fragment : Fragment) (k : Console) :
    printFragment s fragment k =
      .ok () (k.print (unlines (s.sql fragment.sql :: paramLines s fragment.params))) := by
  have hline : printLine (s.sql fragment.sql) k = .ok () (k.print (s.sql fragment.sql ++ "\n")) := rfl
  rw [printFragment, bind_of_ok hline, forM_printLine, k.print_print, unlines_cons]

end Routine

section Commands

theorem printStages_eq (s : Styler) (query : String) (made : Stages) (k : Console) :
    printStages s query made k = .ok () (k.print (unlines
      ([s.style .header "raw", "  " ++ Text.quoted query] ++
        [s.style .header "parse tree", Text.indent made.tree.display] ++
        [s.style .header "ast", Text.indent made.expr.display] ++
        [s.style .header "sql", "  " ++ s.sql made.fragment.sql] ++
        s.style .header "params" :: (paramLines s made.fragment.params).map ("  " ++ ·)))) := by
  rw [← forM_printLine]
  rfl

theorem context_cases (call : Call) (w : Surroundings) (k : Console) :
    (∃ text, call.context w k = .error 1 (k.complain text)) ∨
    ∃ directory config, w.directory = .ok directory ∧ call.loadConfig w directory = .ok config ∧
      call.context w k = .ok ⟨directory, { config with options := call.cover config.options },
        ⟨useColor w call.color⟩⟩ (k.log (.configurationLoaded config.files.length)) := by
  unfold Call.context
  cases w.directory with
  | error fault => exact .inl ⟨_, rfl⟩
  | ok directory =>
    cases hload : call.loadConfig w directory with
    | error e =>
      simp only [hload]
      exact .inl ⟨_, rfl⟩
    | ok config =>
      simp only [hload]
      exact .inr ⟨directory, config, rfl, hload, rfl⟩

theorem checks_context (call : Call) (w : Surroundings) : Checks (call.context w) := by
  intro k
  rcases context_cases call w k with ⟨text, h⟩ | ⟨directory, config, -, -, h⟩
  · exact .inr ⟨k, text, h, .refl k⟩
  · exact .inl ⟨_, _, h, logs_log k (isQuiet_configurationLoaded _)⟩

theorem compiler_cases (ctx : Context) (k : Console) :
    (∃ e text, ctx.compiler k = .error 1 ((k.log (.rejected e)).complain text)) ∨
    ∃ c, Compiler.ofOptions ctx.config.options = .ok c ∧ ctx.compiler k = .ok c k := by
  unfold Context.compiler
  cases hoptions : Compiler.ofOptions ctx.config.options with
  | error e =>
    have hreport := report_eq (not_internal_of_ofOptions hoptions) ctx.styler k
    exact .inl ⟨e, _, bind_of_ok hreport⟩
  | ok c => exact .inr ⟨c, rfl, rfl⟩

theorem checks_compiler (ctx : Context) : Checks ctx.compiler := by
  intro k
  rcases compiler_cases ctx k with ⟨e, text, h⟩ | ⟨c, -, h⟩
  · exact .inr ⟨_, text, h, logs_log k (isQuiet_rejected e)⟩
  · exact .inl ⟨c, k, h, .refl k⟩

theorem query_cases (ctx : Context) (w : Surroundings) (argument : Option String) (k : Console) :
    (∃ text, ctx.query w argument k = .error 1 (k.complain text)) ∨
    ∃ query, readQuery w argument = .ok query ∧ ctx.query w argument k = .ok query k := by
  unfold Context.query
  cases readQuery w argument with
  | error fault => exact .inl ⟨_, rfl⟩
  | ok query => exact .inr ⟨query, rfl, rfl⟩

theorem checks_query (ctx : Context) (w : Surroundings) (argument : Option String) :
    Checks (ctx.query w argument) := by
  intro k
  rcases query_cases ctx w argument k with ⟨text, h⟩ | ⟨query, -, h⟩
  · exact .inr ⟨k, text, h, .refl k⟩
  · exact .inl ⟨query, k, h, .refl k⟩

theorem finishes_compile (ctx : Context) (w : Surroundings) (argument : Option String)
    (json : Bool) : Finishes (ctx.compile w argument json) := by
  refine (checks_compiler ctx).bind_finishes fun c => ?_
  refine (checks_query ctx w argument).bind_finishes fun query => ?_
  refine (checks_forM_log (compileEvents_quiet c query)).bind_finishes fun _ => ?_
  cases hcompile : c.compile query with
  | error e => exact finishes_report (not_internal_of_compile hcompile) ctx.styler
  | ok fragment =>
    cases json with
    | true => exact finishes_printJson fragment
    | false => exact fun k => .inl ⟨k, _, bind_of_ok (printFragment_eq _ _ _), .refl k⟩

theorem finishes_explain (ctx : Context) (w : Surroundings) (argument : Option String) :
    Finishes (ctx.explain w argument) := by
  refine (checks_compiler ctx).bind_finishes fun c => ?_
  refine (checks_query ctx w argument).bind_finishes fun query => ?_
  refine (checks_forM_log (treeEvents_quiet c query)).bind_finishes fun _ => ?_
  rcases stages_cases c query with ⟨made, hstages, -, -, -⟩ | ⟨e, hstages, hcompile⟩
  · simp only [hstages]
    exact fun k => .inl ⟨k, _, bind_of_ok (printStages_eq _ _ _ _), .refl k⟩
  · simp only [hstages]
    exact finishes_report (not_internal_of_compile hcompile) ctx.styler

theorem showConfig_eq {toml : String} (h : serializeSettings ctx.config = .ok toml)
    (home : Option Files.Path) (k : Console) :
    ctx.showConfig home k = .ok 0 (k.print
      (unlines ((ctx.comments home).map (ctx.styler.style .dim)) ++ ctx.styler.toml toml)) := by
  rw [← k.print_print]
  simp only [Context.showConfig, h]
  exact bind_of_ok (forM_printLine _ k)

theorem finishes_showConfig (ctx : Context) (home : Option Files.Path) :
    Finishes (ctx.showConfig home) := by
  intro k
  cases h : serializeSettings ctx.config with
  | error reason =>
    simp only [Context.showConfig, h]
    exact .inr ⟨k, _, .inl rfl, .refl k⟩
  | ok toml => exact .inl ⟨k, _, showConfig_eq h home k, .refl k⟩

theorem finishes_perform (ctx : Context) (w : Surroundings) (call : Call) :
    Finishes (ctx.perform w call) := by
  unfold Context.perform
  cases call.command with
  | compile => exact finishes_compile ctx w call.query call.json
  | explain => exact finishes_explain ctx w call.query
  | config => exact finishes_showConfig ctx w.home

end Commands

section Runs

def Call.console (call : Call) (w : Surroundings) : Console :=
  { filter := logFilter w.logSetting call.verbose }

theorem run_eq (hcall : Call.parse w.arguments = .ok call) :
    run w = .of ((call.context w >>= fun ctx => ctx.perform w call) (call.console w)) := by
  simp only [run, hcall]
  rfl

theorem run_call_cases (hcall : Call.parse w.arguments = .ok call) :
    (∃ text, run w = ⟨1, "", text⟩) ∨
    ∃ directory config, w.directory = .ok directory ∧ call.loadConfig w directory = .ok config ∧
      run w = .of (Context.perform ⟨directory, { config with options := call.cover config.options },
        ⟨useColor w call.color⟩⟩ w call
        ((call.console w).log (.configurationLoaded config.files.length))) := by
  rw [run_eq hcall]
  rcases context_cases call w (call.console w) with ⟨text, h⟩ | ⟨directory, config, hd, hload, h⟩
  · rw [bind_of_error h]
    exact .inl ⟨_, rfl⟩
  · rw [bind_of_ok h]
    exact .inr ⟨directory, config, hd, hload, rfl⟩

theorem finishes_notice (notice : Notice) : Finishes notice.report := by
  intro k
  cases notice with
  | help topic isLong => exact .inl ⟨k, _, rfl, .refl k⟩
  | version => exact .inl ⟨k, _, rfl, .refl k⟩
  | noArguments => exact .inr ⟨k, _, .inl rfl, .refl k⟩
  | usage error => exact .inr ⟨k, _, .inl rfl, .refl k⟩

theorem Routine.Finishes.outcome {a : Routine Nat} (h : Finishes a) {filter : LogFilter} :
    ∃ events : List Event, (∀ event ∈ events, event.IsQuiet) ∧
      ((∃ text, Outcome.of (a { filter }) = ⟨0, text, logLines filter events⟩) ∨
        ∃ text, Outcome.of (a { filter }) = ⟨1, "", logLines filter events ++ text⟩) := by
  have hlog : ∀ events, Console.logAll { filter } events = { errors := logLines filter events, filter } :=
    fun events => by rw [Console.logAll, Console.complain, String.empty_append]
  rcases h { filter } with ⟨_, text, ha, events, hquiet, rfl⟩ | ⟨_, text, ha, events, hquiet, rfl⟩
  · refine ⟨events, hquiet, .inl ⟨text, ?_⟩⟩
    rw [ha, hlog, Console.print, String.empty_append]
    rfl
  · refine ⟨events, hquiet, .inr ⟨text, ?_⟩⟩
    rcases ha with ha | ha
    all_goals
      rw [ha, hlog]
      rfl

/-- A run ends with status 0 or 1, prints no output in the second case, and in the first one, if it is
that of a command and nobody asks for log lines, no errors. -/
theorem run_all_or_nothing (w : Surroundings) :
    ((run w).status = 0 ∨ (run w).status = 1) ∧ ((run w).status = 1 → (run w).output = "") ∧
    ∀ call, Call.parse w.arguments = .ok call →
      ((∀ argument ∈ w.arguments, (Shape.of argument).asks .verbose = false) → call.verbose = 0) ∧
      (call.verbose = 0 → w.logSetting = none → (run w).status = 0 → (run w).errors = "") := by
  cases hcall : Call.parse w.arguments with
  | error notice =>
    have hrun : run w = .of (notice.report {}) := by simp only [run, hcall]
    obtain ⟨events, -, ⟨text, houtcome⟩ | ⟨text, houtcome⟩⟩ := (finishes_notice notice).outcome
    all_goals
      rw [hrun, houtcome]
      exact ⟨by simp, by simp, fun call h => by cases h⟩
  | ok call =>
    have hfinishes : Finishes (call.context w >>= fun ctx => ctx.perform w call) :=
      (checks_context call w).bind_finishes fun ctx => finishes_perform ctx w call
    obtain ⟨events, hquiet, hrun⟩ := hfinishes.outcome
    rw [show ({ filter := _ } : Console) = call.console w from rfl, ← run_eq hcall] at hrun
    refine ⟨?_, ?_, ?_⟩
    · rcases hrun with ⟨text, hrun⟩ | ⟨text, hrun⟩ <;> simp [hrun]
    · rcases hrun with ⟨text, hrun⟩ | ⟨text, hrun⟩ <;> simp [hrun]
    · rintro _ ⟨⟩
      refine ⟨verbose_eq_zero hcall, fun hverbose hlog hstatus => ?_⟩
      rcases hrun with ⟨text, hrun⟩ | ⟨text, hrun⟩
      · rw [hrun, hlog, hverbose]
        exact logLines_quiet hquiet
      · rw [hrun] at hstatus
        cases hstatus

def bareRunOf (arguments : List String) (input : String) : Surroundings where
  arguments
  directory := .ok ⟨"/"⟩
  disk := (Files.Entry.directory []).disk
  input := .ok input.toUTF8

theorem run_all_or_nothing_input :
    (run (bareRunOf ["explain", "-"] "(a")).status = 1 ∧
    (run (bareRunOf ["explain", "-"] "(a")).output = "" ∧
    Call.parse (bareRunOf ["--column", "t.x", "compile"] "a b").arguments =
      .ok { command := .compile, column := some "t.x" } ∧
    (run (bareRunOf ["--column", "t.x", "compile"] "a b")).status = 0 ∧
    (run (bareRunOf ["--column", "t.x", "compile"] "a b")).output =
      "t.x LIKE ? or t.x LIKE ?\n1: a\n2: b\n" ∧
    (run (bareRunOf ["--column", "t.x", "compile"] "a b")).errors = "" := by
  have hrejected : (run (bareRunOf ["explain", "-"] "(a")).status = 1 := by decide +kernel
  have hcall : Call.parse (bareRunOf ["--column", "t.x", "compile"] "a b").arguments =
      .ok { command := .compile, column := some "t.x" } :=
    eq_ok_of_toOption (by decide +kernel)
  have hstatus : (run (bareRunOf ["--column", "t.x", "compile"] "a b")).status = 0 := by
    decide +kernel
  obtain ⟨-, -, hquiet⟩ := run_all_or_nothing (bareRunOf ["--column", "t.x", "compile"] "a b")
  obtain ⟨hverbose, herrors⟩ := hquiet _ hcall
  refine ⟨hrejected, (run_all_or_nothing _).2.1 hrejected, hcall, hstatus, by decide +kernel, ?_⟩
  exact herrors (hverbose (by decide +kernel)) rfl hstatus

example : run { bareRunOf ["--no-config", "compile", "a"] "" with directory := .error .notFound } =
    ⟨1, "", "error: could not determine current directory: No such file or directory (os error 2)\n"⟩ := by
  decide +kernel

end Runs

end SearchFilter.Command
