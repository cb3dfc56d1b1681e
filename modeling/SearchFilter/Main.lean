import SearchFilter.Command.Run

/-! The program itself: it looks at its surroundings, runs and prints. -/

namespace SearchFilter.Command

open Files Settings

def faultOf : IO.Error → Fault
  | .noFileOrDirectory .. => .notFound
  | .inappropriateType .. => .notDirectory
  | .permissionDenied .. => .other "Permission denied (os error 13)"
  | error => .other (toString error)

def lookUp (path : Path) : IO Status := do
  let file := (← IO.currentDir) / path.text
  try
    match (← file.metadata).type with
    | .dir => return .directory
    | .file =>
      try return .file (← IO.FS.readBinFile file)
      catch error => return .closed (faultOf error)
    | _ => return .absent (.other "not a regular file")
  catch error => return .absent (faultOf error)

def lookAround (home : Option Path) (directory : Path) : IO Disk := do
  let paths := candidates directory ++ (globalFile home).toList
  let statuses ← paths.mapM fun path => return (path, ← lookUp path)
  return fun path => (statuses.lookup path).getD (.absent .notFound)

partial def readAll (stream : IO.FS.Stream) (bytes : ByteArray) : IO ByteArray := do
  let more ← stream.read 65536
  if more.isEmpty then return bytes else readAll stream (bytes ++ more)

def attempt {α : Type} (action : IO α) : IO (Except Fault α) := do
  try return .ok (← action)
  catch error => return .error (faultOf error)

def readInput (arguments : List String) : IO ByteArray := do
  match Call.parse arguments with
  | .ok call => if call.readsInput then readAll (← IO.getStdin) .empty else return .empty
  | .error _ => return .empty

end SearchFilter.Command

open SearchFilter SearchFilter.Command in
def main (arguments : List String) : IO UInt32 := do
  let directory ← attempt do return Files.Path.mk (← IO.currentDir).toString
  let home := (← IO.getEnv "HOME").map Files.Path.mk
  let outcome := run {
    arguments, directory, home
    disk := ← match directory with
      | .ok directory => lookAround home directory
      | .error fault => pure fun _ => .absent fault
    input := ← attempt (readInput arguments)
    logSetting := ← IO.getEnv "QSQL_LOG"
    noColor := (← IO.getEnv "NO_COLOR").isSome
    terminal := ← (← IO.getStdout).isTty }
  IO.print outcome.output
  unless outcome.errors.isEmpty do
    IO.eprint outcome.errors
    unless outcome.errors.endsWith "\n" do IO.eprintln ""
  return outcome.status.toUInt32
