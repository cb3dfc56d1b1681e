import SearchFilter.Command.Log
import SearchFilter.Terminal.Style
import SearchFilter.Text.Json

/-! Printing. The program writes to its output, to its errors and to its log step by step, and may end
at any step. What it wrote before stays written. -/

namespace SearchFilter.Command

open Terminal Text

structure Console where
  output : String := ""
  errors : String := ""
  filter : LogFilter := []
  deriving DecidableEq, Repr, Inhabited

namespace Console

def print (console : Console) (text : String) : Console :=
  { console with output := console.output ++ text }

def complain (console : Console) (text : String) : Console :=
  { console with errors := console.errors ++ text }

def log (console : Console) (event : Event) : Console :=
  if console.filter.shows event then console.complain event.line else console

end Console

/-- A part of the program. It can end the program early, with an exit status. -/
abbrev Routine := EStateM Nat Console

namespace Routine

def print (text : String) : Routine Unit :=
  modify (·.print text)

def printLine (line : String) : Routine Unit :=
  print (line ++ "\n")

def complain (text : String) : Routine Unit :=
  modify (·.complain text)

def complainLine (line : String) : Routine Unit :=
  complain (line ++ "\n")

def log (event : Event) : Routine Unit :=
  modify (·.log event)

def startLog (filter : LogFilter) : Routine Unit :=
  modify ({ · with filter })

def exit {α : Type} (status : Nat) : Routine α :=
  throw status

end Routine

open Routine

def paramLines (s : Styler) (params : List String) : List String :=
  params.mapIdx fun i value => s.style .dim s!"{i + 1}:" ++ " " ++ s.style .param value

def errorLines (s : Styler) (e : QueryError) : List String :=
  match lines e.message with
  | [] => []
  | first :: rest => (s.style .error "error:" ++ " " ++ first) :: rest.map markHint
where
  markHint (line : String) : String :=
    let label := "hint:"
    if label.toList.isPrefixOf line.toList then
      s.style .warning label ++ String.ofList (line.toList.drop label.length)
    else line

/-- The exit status for an error: a rejected query is the user's fault, the rest is not. -/
def exitStatus (e : QueryError) : Nat :=
  if e.isInternal then 2 else 1

def fragmentJson (f : Condition.Fragment) : String :=
  (Json.object [("sql", .string f.sql), ("params", .array (f.params.map .string))]).pretty

namespace Routine

def report (s : Styler) (e : QueryError) : Routine Nat := do
  log (if e.isInternal then .internalFailure e else .rejected e)
  (errorLines s e).forM complainLine
  return exitStatus e

def abort {α : Type} (s : Styler) (message : String) : Routine α := do
  complain (s.style .error "error:" ++ " " ++ message)
  exit 1

def printFragment (s : Styler) (f : Condition.Fragment) : Routine Unit := do
  printLine (s.sql f.sql)
  (paramLines s f.params).forM printLine

def serialize (f : Condition.Fragment) : Except String String :=
  .ok (fragmentJson f)

def printJson (f : Condition.Fragment) : Routine Nat :=
  match serialize f with
  | .ok json => do
    printLine json
    return 0
  | .error reason => do
    complainLine ("error: failed to serialize JSON: " ++ reason)
    return 1

end Routine

end SearchFilter.Command
