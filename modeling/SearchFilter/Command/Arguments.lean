/-! The command line. Options stand before or after the name of a command; those after it win. An
option with a value takes it after an equals sign or from the next argument, and is settled once the
arguments go on. -/

namespace SearchFilter.Command

inductive ColorMode where
  | auto
  | always
  | never
  deriving DecidableEq, Repr, Inhabited

inductive Subcommand where
  | compile
  | explain
  | config
  deriving DecidableEq, Repr, Inhabited

def Subcommand.name : Subcommand → String
  | compile => "compile"
  | explain => "explain"
  | config => "config"

def Subcommand.ofName? (name : String) : Option Subcommand :=
  [compile, explain, config].find? (·.name = name)

inductive Parameter where
  | color
  | column
  | maxDepth
  deriving DecidableEq, Repr, Inhabited

namespace Parameter

def name : Parameter → String
  | color => "color"
  | column => "column"
  | maxDepth => "max-depth"

def display : Parameter → String
  | color => "--color <COLOR>"
  | column => "--column <COLUMN>"
  | maxDepth => "--max-depth <MAX_DEPTH>"

def ofName? (name : String) : Option Parameter :=
  [color, column, maxDepth].find? (·.name = name)

end Parameter

inductive Switch where
  | verbose
  | noConfig
  | json
  | help
  | version
  deriving DecidableEq, Repr, Inhabited

namespace Switch

def name : Switch → String
  | verbose => "verbose"
  | noConfig => "no-config"
  | json => "json"
  | help => "help"
  | version => "version"

def display : Switch → String
  | verbose => "--verbose..."
  | s => "--" ++ s.name

def short? : Switch → Option Char
  | verbose => some 'v'
  | help => some 'h'
  | version => some 'V'
  | _ => none

end Switch

/-- Where an argument stands: before a command's name or after it. -/
abbrev Side := Option Subcommand

def switches : Side → List Switch
  | none => [.verbose, .noConfig, .help, .version]
  | some .compile => [.verbose, .noConfig, .help, .json]
  | some _ => [.verbose, .noConfig, .help]

inductive Topic where
  | program
  | command (c : Subcommand)
  | help
  deriving DecidableEq, Repr, Inhabited

def Side.topic : Side → Topic
  | none => .program
  | some c => .command c

inductive NumberFault where
  | empty
  | invalidDigit
  | tooLarge
  deriving DecidableEq, Repr, Inhabited

def NumberFault.message : NumberFault → String
  | empty => "cannot parse integer from empty string"
  | invalidDigit => "invalid digit found in string"
  | tooLarge => "number too large to fit in target type"

inductive UsageError where
  | unexpectedArgument (argument : String)
  | unrecognizedSubcommand (name : String)
  | missingSubcommand
  | missingValue (parameter : Parameter)
  | invalidDepth (value : String) (fault : NumberFault)
  | invalidColor (value : String)
  | repeated (option : String)
  | unexpectedValue (value : String) (switch : Switch)
  deriving DecidableEq, Repr, Inhabited

namespace UsageError

def message : UsageError → String
  | unexpectedArgument argument => "unexpected argument '" ++ argument ++ "' found"
  | unrecognizedSubcommand name => "unrecognized subcommand '" ++ name ++ "'"
  | missingSubcommand => "'qsql' requires a subcommand but one was not provided"
  | missingValue parameter =>
    "a value is required for '" ++ parameter.display ++ "' but none was supplied"
  | invalidDepth value fault =>
    "invalid value '" ++ value ++ "' for '" ++ Parameter.maxDepth.display ++ "': " ++ fault.message
  | invalidColor value => "invalid value '" ++ value ++ "' for '" ++ Parameter.color.display ++ "'"
  | repeated option => "the argument '" ++ option ++ "' cannot be used multiple times"
  | unexpectedValue value switch =>
    "unexpected value '" ++ value ++ "' for '" ++ switch.display ++ "' found; no more were expected"

end UsageError

inductive Notice where
  | help (topic : Topic) (long : Bool)
  | version
  | noArguments
  | usage (error : UsageError)
  deriving DecidableEq, Repr, Inhabited

structure Given where
  verbose : Nat := 0
  color : Option ColorMode := none
  column : Option String := none
  maxDepth : Option Nat := none
  noConfig : Bool := false
  json : Bool := false
  query : Option String := none
  /-- An option that is not settled, with its value if that was met. -/
  pending : Option (Parameter × Option String) := none
  deriving DecidableEq, Repr, Inhabited

def fail {α : Type} (error : UsageError) : Except Notice α :=
  .error (.usage error)

def depth? (text : String) : Except NumberFault Nat :=
  match text.toList with
  | [] => .error .empty
  | ['+'] => .error .invalidDigit
  | '+' :: digits => number digits
  | digits => number digits
where
  number (digits : List Char) : Except NumberFault Nat :=
    digits.foldlM (fun n c =>
      if !c.isDigit then .error .invalidDigit
      else
        let next := 10 * n + (c.toNat - '0'.toNat)
        if next < Nat.pow 2 64 then .ok next else .error .tooLarge) 0

def color? (text : String) : Except UsageError ColorMode :=
  if text = "auto" then .ok .auto
  else if text = "always" then .ok .always
  else if text = "never" then .ok .never
  else if text = "" then .error (.missingValue .color)
  else .error (.invalidColor text)

namespace Given

def set (g : Given) (parameter : Parameter) (value : String) : Except Notice Given :=
  match parameter with
  | .color =>
    if g.color.isSome then fail (.repeated parameter.display)
    else match color? value with
      | .ok mode => .ok { g with color := some mode }
      | .error e => fail e
  | .column =>
    if g.column.isSome then fail (.repeated parameter.display)
    else .ok { g with column := some value }
  | .maxDepth =>
    if g.maxDepth.isSome then fail (.repeated parameter.display)
    else match depth? value with
      | .ok n => .ok { g with maxDepth := some n }
      | .error fault => fail (.invalidDepth value fault)

def settle (g : Given) : Except Notice Given :=
  match g.pending with
  | none => .ok g
  | some (parameter, none) => fail (.missingValue parameter)
  | some (parameter, some value) => { g with pending := none }.set parameter value

def waiting? (g : Given) : Option Parameter :=
  match g.pending with
  | some (parameter, none) => some parameter
  | _ => none

def flip (g : Given) (side : Side) (switch : Switch) (long : Bool) : Except Notice Given := do
  let g ← g.settle
  match switch with
  | .verbose => return { g with verbose := min 255 (g.verbose + 1) }
  | .noConfig =>
    if g.noConfig then fail (.repeated switch.display) else return { g with noConfig := true }
  | .json => if g.json then fail (.repeated switch.display) else return { g with json := true }
  | .help => .error (.help side.topic long)
  | .version => .error .version

def readLong (g : Given) (side : Side) (name : String) (value : Option String) :
    Except Notice Given :=
  match Parameter.ofName? name, (switches side).find? (·.name = name), value with
  | some parameter, _, none => do return { ← g.settle with pending := some (parameter, none) }
  | some parameter, _, some value => do (← g.settle).set parameter value
  | none, some switch, none => g.flip side switch true
  | none, some switch, some value => fail (.unexpectedValue value switch)
  | none, none, _ => fail (.unexpectedArgument ("--" ++ name))

def readShort (g : Given) (side : Side) : List Char → Except Notice Given
  | [] => .ok g
  | c :: letters =>
    match (switches side).find? (·.short? = some c) with
    | some switch => do (← g.flip side switch false).readShort side letters
    | none => fail (.unexpectedArgument ("-" ++ c.toString))

def readPlain (g : Given) (side : Side) (trailing : Bool) (argument : String) :
    Except Notice Given :=
  match side with
  | none =>
    if trailing ∧ (argument = "help" ∨ (Subcommand.ofName? argument).isSome) then
      fail (.unexpectedArgument argument)
    else fail (.unrecognizedSubcommand argument)
  | some command =>
    if command = .config ∨ g.query.isSome then fail (.unexpectedArgument argument)
    else do return { ← g.settle with query := some argument }

end Given

def helpFor : List String → Notice
  | [] => .help .program true
  | name :: names =>
    match Subcommand.ofName? name, names with
    | some c, [] => .help (.command c) true
    | none, [] => if name = "help" then .help .help true else .usage (.unrecognizedSubcommand name)
    | some _, next :: _ => .usage (.unrecognizedSubcommand next)
    | none, next :: _ =>
      .usage (.unrecognizedSubcommand (if name = "help" then next else name))

inductive Shape where
  | escape
  | long (name : String) (value : Option String)
  | short (letters : List Char)
  | plain
  deriving DecidableEq, Repr, Inhabited

def Shape.of (argument : String) : Shape :=
  match argument.toList with
  | ['-', '-'] => .escape
  | '-' :: '-' :: cs =>
    let name := String.ofList (cs.takeWhile (· != '='))
    match cs.dropWhile (· != '=') with
    | [] => .long name none
    | _ :: value => .long name (some (String.ofList value))
  | '-' :: c :: cs => .short (c :: cs)
  | _ => .plain

/-- Reads the arguments of a side. Before a command's name this ends with that name and the arguments
after it; `trailing` tells that no more options follow. -/
def readSide (side : Side) (trailing : Bool) (g : Given) :
    List String → Except Notice (Given × Option (Subcommand × List String))
  | [] => .ok (g, none)
  | argument :: arguments =>
    if trailing then do
      readSide side true (← g.readPlain side true argument) arguments
    else match side, g.waiting?, argument == "help", Subcommand.ofName? argument with
      | none, none, true, _ => .error (helpFor arguments)
      | none, none, false, some command => .ok (g, some (command, arguments))
      | _, waiting, _, _ =>
        match Shape.of argument, waiting with
        | .escape, _ => readSide side true g arguments
        | .long name value, _ => do
          readSide side false (← g.readLong side name value) arguments
        | .short letters, _ => do
          readSide side false (← g.readShort side letters) arguments
        | .plain, some parameter =>
          readSide side false { g with pending := some (parameter, some argument) } arguments
        | .plain, none => do
          readSide side false (← g.readPlain side false argument) arguments

structure Call where
  command : Subcommand
  verbose : Nat := 0
  color : ColorMode := .auto
  column : Option String := none
  maxDepth : Option Nat := none
  noConfig : Bool := false
  json : Bool := false
  query : Option String := none
  deriving DecidableEq, Repr, Inhabited

/-- Joins both sides of a command's name; what stands after it wins. -/
def Call.join (command : Subcommand) (before after : Given) : Call where
  command
  verbose := if after.verbose = 0 then before.verbose else after.verbose
  color := (after.color <|> before.color).getD .auto
  column := after.column <|> before.column
  maxDepth := after.maxDepth <|> before.maxDepth
  noConfig := after.noConfig || before.noConfig
  json := after.json
  query := after.query

def Call.readsInput (call : Call) : Bool :=
  call.command != .config && (call.query == none || call.query == some "-")

def Call.parse (arguments : List String) : Except Notice Call := do
  let (before, rest) ← readSide none false {} arguments
  match rest with
  | some (command, arguments) =>
    let (after, _) ← readSide (some command) false {} arguments
    let after ← after.settle
    let before ← before.settle
    return Call.join command before after
  | none =>
    let before ← before.settle
    if before = {} then .error .noArguments else fail .missingSubcommand

end SearchFilter.Command
