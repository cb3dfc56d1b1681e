import SearchFilter.Command.Help
import SearchFilter.Command.Report
import SearchFilter.Settings.Config

/-! The program as a function: from its arguments and surroundings to what it prints and how it
ends. -/

namespace SearchFilter.Command

open Files Condition Settings Terminal Routine

structure Surroundings where
  arguments : List String
  directory : Except Fault Path
  home : Option Path := none
  disk : Disk
  input : Except Fault ByteArray := .ok .empty
  logSetting : Option String := none
  noColor : Bool := false
  terminal : Bool := false

def useColor (w : Surroundings) : ColorMode → Bool
  | .always => true
  | .never => false
  | .auto => !w.noColor && w.terminal

/-- The query text: the argument, or all of the input if that is absent or a dash. -/
def readQuery (w : Surroundings) (argument : Option String) : Except Fault String :=
  match argument with
  | some query => if query = "-" then standardInput else .ok query
  | none => standardInput
where
  standardInput : Except Fault String :=
    match w.input with
    | .error fault => .error fault
    | .ok bytes =>
      match String.fromUTF8? bytes with
      | some text => .ok text
      | none => .error .notText

structure Context where
  directory : Path
  config : Config
  styler : Styler

def Call.cover (call : Call) (options : Options) : Options :=
  { column := call.column.getD options.column, maxDepth := call.maxDepth.getD options.maxDepth }

def Call.loadConfig (call : Call) (w : Surroundings) (directory : Path) :
    Except ConfigError Config :=
  if call.noConfig then .ok {} else Config.load w.disk w.home directory

def Call.context (call : Call) (w : Surroundings) : Routine Context :=
  let styler : Styler := ⟨useColor w call.color⟩
  match w.directory with
  | .error fault =>
    abort styler ("could not determine current directory: " ++ fault.message ++ "\n")
  | .ok directory =>
    match call.loadConfig w directory with
    | .error e =>
      -- The message of a parse error ends with a newline of its own.
      let ending := match e with
        | .unparsable _ _ => ""
        | _ => "\n"
      abort styler ("failed to load configuration: " ++ e.message ++ ending)
    | .ok config => do
      log (.configurationLoaded config.files.length)
      return ⟨directory, { config with options := call.cover config.options }, styler⟩

section Events

variable (c : Compiler) (query : String)

def failureEvents : QueryError → List Event
  | .syntaxError e => [.parseFailed e.offset]
  | .tooDeep offset limit => [.nestsTooDeeply offset limit]
  | _ => []

def treeEvents : List Event :=
  .parsing query.utf8ByteSize :: match c.tree query with
    | .error e => failureEvents e
    | .ok _ => []

def expressionEvents : List Event :=
  treeEvents c query ++ match c.tree query with
    | .error _ => []
    | .ok tree => .parseTree tree :: match c.expression query with
      | .error _ => []
      | .ok expr => [.resolved expr]

def compileEvents : List Event :=
  expressionEvents c query ++ match c.compile query with
    | .error _ => []
    | .ok fragment => [.rendered fragment.params.length]

end Events

structure Stages where
  tree : Query.SyntaxTree
  expr : Expr
  fragment : Fragment

/-- Runs the stages one by one and keeps what each of them gives. -/
def stages (c : Compiler) (query : String) : Except QueryError Stages := do
  let tree ← c.tree query
  let expr ← resolve (← draftOf tree)
  return ⟨tree, expr, expr.render c.column⟩

def printStages (s : Styler) (query : String) (stages : Stages) : Routine Unit := do
  let heading := s.style .header
  printLine (heading "raw")
  printLine ("  " ++ Text.quoted query)
  printLine (heading "parse tree")
  printLine (Text.indent stages.tree.display)
  printLine (heading "ast")
  printLine (Text.indent stages.expr.display)
  printLine (heading "sql")
  printLine ("  " ++ s.sql stages.fragment.sql)
  printLine (heading "params")
  ((paramLines s stages.fragment.params).map ("  " ++ ·)).forM printLine

def displayPath (home : Option Path) (directory path : Path) : String :=
  if isGlobal home path then "~/" ++ fileName
  else ((directory.below? path).getD path).text

def serializeSettings (config : Config) : Except String String :=
  .ok (toToml config.options)

namespace Context

def compiler (ctx : Context) : Routine Compiler :=
  match Compiler.ofOptions ctx.config.options with
  | .error e => do exit (← report ctx.styler e)
  | .ok c => return c

def query (ctx : Context) (w : Surroundings) (argument : Option String) : Routine String :=
  match readQuery w argument with
  | .error fault =>
    abort ctx.styler ("failed to read query from stdin: " ++ fault.message ++ "\n")
  | .ok query => return query

def compile (ctx : Context) (w : Surroundings) (argument : Option String) (json : Bool) :
    Routine Nat := do
  let c ← ctx.compiler
  let query ← ctx.query w argument
  (compileEvents c query).forM log
  match c.compile query with
  | .error e => report ctx.styler e
  | .ok fragment =>
    if json then printJson fragment
    else do
      printFragment ctx.styler fragment
      return 0

def explain (ctx : Context) (w : Surroundings) (argument : Option String) : Routine Nat := do
  let c ← ctx.compiler
  let query ← ctx.query w argument
  (treeEvents c query).forM log
  match stages c query with
  | .error e => report ctx.styler e
  | .ok stages => do
    printStages ctx.styler query stages
    return 0

def comments (ctx : Context) (home : Option Path) : List String :=
  if ctx.config.files.isEmpty then ["# no configuration files found"]
  else ctx.config.files.map fun path => "# from " ++ displayPath home ctx.directory path

def showConfig (ctx : Context) (home : Option Path) : Routine Nat :=
  match serializeSettings ctx.config with
  | .error reason => do
    complainLine (ctx.styler.style .error "error:" ++ " failed to serialize settings: " ++ reason)
    return 1
  | .ok toml => do
    ((ctx.comments home).map (ctx.styler.style .dim)).forM printLine
    print (ctx.styler.toml toml)
    return 0

def perform (ctx : Context) (w : Surroundings) (call : Call) : Routine Nat :=
  match call.command with
  | .compile => ctx.compile w call.query call.json
  | .explain => ctx.explain w call.query
  | .config => ctx.showConfig w.home

end Context

def Call.execute (call : Call) (w : Surroundings) : Routine Nat := do
  startLog (logFilter w.logSetting call.verbose)
  let ctx ← call.context w
  ctx.perform w call

def firstLine (text : String) : String :=
  (Text.lines text).headD ""

/-- What is printed for a command line that leads to no command. A usage error is shown as one line, even
if an argument in it has several. -/
def Notice.report : Notice → Routine Nat
  | help topic isLong => do
    print (topic.text isLong)
    return 0
  | version => do
    print versionText
    return 0
  | noArguments => do
    complain (Topic.program.text false)
    return 1
  | usage error => do
    complain (firstLine ("error: " ++ error.message))
    return 1

structure Outcome where
  status : Nat
  output : String
  errors : String
  deriving DecidableEq, Repr, Inhabited

def Outcome.of : EStateM.Result Nat Console Nat → Outcome
  | .ok status console | .error status console => ⟨status, console.output, console.errors⟩

def run (w : Surroundings) : Outcome :=
  .of <| match Call.parse w.arguments with
    | .error notice => notice.report {}
    | .ok call => call.execute w {}

end SearchFilter.Command
