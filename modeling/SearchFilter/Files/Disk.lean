import SearchFilter.Files.Path

/-! What paths lead to. A directory tree answers for every path as a file system does: components are
followed one by one, and two dots lead to the directory above, but only from a directory. -/

namespace SearchFilter.Files

inductive Fault where
  | notFound
  | isDirectory
  | notDirectory
  | notText
  | other (message : String)
  deriving DecidableEq, Repr, Inhabited

def Fault.message : Fault → String
  | notFound => "No such file or directory (os error 2)"
  | isDirectory => "Is a directory (os error 21)"
  | notDirectory => "Not a directory (os error 20)"
  | notText => "stream did not contain valid UTF-8"
  | other message => message

inductive Status where
  | file (bytes : ByteArray)
  | closed (fault : Fault)
  | directory
  | absent (fault : Fault)
  deriving Inhabited

abbrev Disk := Path → Status

namespace Disk

def isFile (disk : Disk) (p : Path) : Bool :=
  match disk p with
  | .file _ | .closed _ => true
  | _ => false

def read (disk : Disk) (p : Path) : Except Fault String :=
  match disk p with
  | .file bytes =>
    match String.fromUTF8? bytes with
    | some text => .ok text
    | none => .error .notText
  | .closed fault => .error fault
  | .directory => .error .isDirectory
  | .absent fault => .error fault

end Disk

inductive Entry where
  | file (bytes : ByteArray)
  | directory (entries : List (String × Entry))
  deriving Inhabited

namespace Entry

def status : Entry → Status
  | file bytes => .file bytes
  | directory _ => .directory

def place (entry : Entry) : (path : List String) → Entry → Entry
  | [], here =>
    match entry, here with
    | directory [], directory entries => directory entries
    | entry, _ => entry
  | name :: path, directory entries =>
    let old := (entries.lookup name).getD (directory [])
    directory ((name, place entry path old) :: entries.filter (·.1 != name))
  | _ :: _, file bytes => file bytes

/-- Follows the pieces of a path from an entry; `above` holds the directories over it, closest first. -/
def follow (here : Entry) (above : List Entry) : List String → Except Fault Entry
  | [] => .ok here
  | piece :: pieces =>
    match here with
    | file _ => .error .notDirectory
    | directory entries =>
      if Path.isIdle piece then follow here above pieces
      else if piece = ".." then
        match above with
        | [] => follow here [] pieces
        | parent :: above => follow parent above pieces
      else match entries.lookup piece with
        | none => .error .notFound
        | some entry => follow entry (here :: above) pieces

def disk (top : Entry) : Disk :=
  fun p => match top.follow [] p.pieces with
    | .ok entry => entry.status
    | .error fault => .absent fault

end Entry
end SearchFilter.Files
