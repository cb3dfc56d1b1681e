import SearchFilter.Compiler

/-! Log lines. An event belongs to a part of the program, its target, and a filter says from which
level on the events of a target are shown. -/

namespace SearchFilter.Command

open Query (SyntaxTree)

inductive Level where
  | error
  | warn
  | info
  | debug
  | trace
  deriving DecidableEq, Repr, Inhabited

namespace Level

def name : Level → String
  | error => "ERROR"
  | warn => " WARN"
  | info => " INFO"
  | debug => "DEBUG"
  | trace => "TRACE"

def verbosity : Level → Nat
  | error => 1
  | warn => 2
  | info => 3
  | debug => 4
  | trace => 5

end Level

inductive Event where
  | configurationLoaded (files : Nat)
  | parsing (bytes : Nat)
  | parseFailed (offset : Nat)
  | nestsTooDeeply (offset maxDepth : Nat)
  | parseTree (tree : SyntaxTree)
  | resolved (expr : Condition.Expr)
  | rendered (params : Nat)
  | rejected (error : QueryError)
  | internalFailure (error : QueryError)
  deriving Repr, Inhabited

namespace Event

def level : Event → Level
  | parseTree _ | resolved _ => .trace
  | internalFailure _ => .error
  | _ => .debug

def target : Event → String
  | configurationLoaded _ => "qsql::cli::context"
  | rejected _ | internalFailure _ => "qsql::cli::output"
  | parseFailed _ | nestsTooDeeply _ _ => "qsql_query::grammar"
  | _ => "qsql_query"

def message : Event → String
  | configurationLoaded files => s!"configuration loaded files={files}"
  | parsing bytes => s!"parsing query bytes={bytes}"
  | parseFailed offset => s!"query failed to parse offset={offset}"
  | nestsTooDeeply offset maxDepth =>
    s!"query nests groups too deeply offset={offset} max_depth={maxDepth}"
  | parseTree tree => "parse tree tree=" ++ tree.display
  | resolved expr => "resolved expression expr=" ++ expr.display
  | rendered params => s!"rendered filter params={params}"
  | rejected error => "query rejected error=" ++ error.message
  | internalFailure error => "internal consistency failure error=" ++ error.message

def line (e : Event) : String :=
  e.level.name ++ " " ++ e.message ++ "\n"

end Event

structure Directive where
  target : Option String
  verbosity : Nat
  deriving DecidableEq, Repr, Inhabited

def levelNames : List (String × Nat) :=
  [("off", 0), ("error", 1), ("warn", 2), ("info", 3), ("debug", 4), ("trace", 5),
    ("0", 0), ("1", 1), ("2", 2), ("3", 3), ("4", 4), ("5", 5)]

def verbosity? (name : String) : Option Nat :=
  levelNames.lookup name.toLower

def isTargetPart (c : Char) : Bool :=
  c.isAlphanum || c == '_' || c == ':' || c == '-'

namespace Directive

def ofChars? (cs : List Char) : Option Directive :=
  match verbosity? (String.ofList cs) with
  | some n => some ⟨none, n⟩
  | none =>
    let target := cs.takeWhile isTargetPart
    if target.isEmpty then none
    else match cs.dropWhile isTargetPart with
      | [] => some ⟨some (String.ofList target), Level.trace.verbosity⟩
      | '=' :: level => (⟨some (String.ofList target), ·⟩) <$> verbosity? (String.ofList level)
      | _ => none

def closeness? (d : Directive) (target : String) : Option Nat :=
  match d.target with
  | none => some 0
  | some name => if name.toList.isPrefixOf target.toList then some (name.length + 1) else none

end Directive

/-- Directives, of which the closest to an event decides and of equally close ones the last. -/
abbrev LogFilter := List Directive

namespace LogFilter

def parse? (text : String) : Option LogFilter :=
  let parts := (Text.splitAt ',' text.toList).filter (!·.isEmpty)
  if parts.isEmpty then some [⟨none, Level.error.verbosity⟩]
  else parts.mapM Directive.ofChars?

def verbosity (filter : LogFilter) (target : String) : Nat :=
  (filter.foldl (fun (best : Nat × Nat) d =>
    match d.closeness? target with
    | some n => if best.1 ≤ n then (n, d.verbosity) else best
    | none => best) (0, 0)).2

def shows (filter : LogFilter) (e : Event) : Bool :=
  e.level.verbosity ≤ filter.verbosity e.target

end LogFilter

def defaultDirective : Nat → String
  | 0 => "warn"
  | 1 => "info"
  | 2 => "debug"
  | _ => "trace"

def logFilter (setting : Option String) (verbose : Nat) : LogFilter :=
  (setting.bind LogFilter.parse?).getD ((LogFilter.parse? (defaultDirective verbose)).getD [])

def logLines (filter : LogFilter) (events : List Event) : String :=
  String.join ((events.filter filter.shows).map Event.line)

end SearchFilter.Command
