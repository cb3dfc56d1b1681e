import SearchFilter.Compiler
import SearchFilter.Files.Disk
import SearchFilter.Settings.Layer
import SearchFilter.Toml.Writer

/-! Effective settings. Files are found by walking up from a directory, each gives a layer, and a layer
covers those of the files after it. -/

namespace SearchFilter.Settings

open Files

inductive Setting where
  | column (value : String)
  | maxDepth (value : Nat)
  deriving DecidableEq, Repr, Inhabited

def Setting.key : Setting → String
  | column _ => "query.column"
  | maxDepth _ => "query.max_depth"

def Setting.complaint : Setting → String
  | column value => Text.quoted value ++ " is not a plain SQL column name"
  | maxDepth _ => s!"must be between 1 and {depthLimit}"

def Setting.IsValid : Setting → Bool
  | column value => Condition.isColumn value
  | maxDepth value => 1 ≤ value && value ≤ depthLimit

inductive ConfigError where
  | unreadable (path : Path) (fault : Fault)
  | unparsable (path : Path) (cause : LayerError)
  | invalidSetting (path : Path) (setting : Setting)
  deriving Repr, Inhabited

namespace ConfigError

def path : ConfigError → Path
  | unreadable path _ | unparsable path _ | invalidSetting path _ => path

def message : ConfigError → String
  | unreadable path fault => "failed to read config file " ++ path.text ++ ": " ++ fault.message
  | unparsable path _ => "failed to parse config file " ++ path.text
  | invalidSetting path setting =>
    "invalid setting " ++ setting.key ++ " in " ++ path.text ++ ": " ++ setting.complaint

end ConfigError

structure Source where
  path : Path
  layer : Layer
  deriving DecidableEq, Repr, Inhabited

structure Config where
  options : Options := {}
  /-- The files that were read, closest first. -/
  files : List Path := []
  deriving DecidableEq, Repr, Inhabited

def parseSource (path : Path) (text : String) : Except ConfigError Source :=
  match Layer.parse text with
  | .ok layer => .ok ⟨path, layer⟩
  | .error cause => .error (.unparsable path cause)

def readSource (disk : Disk) (path : Path) : Except ConfigError Source :=
  match disk.read path with
  | .ok text => parseSource path text
  | .error fault => .error (.unreadable path fault)

def check (path : Path) (setting : Setting) : Except ConfigError Unit :=
  if setting.IsValid then .ok () else .error (.invalidSetting path setting)

def Source.cover (source : Source) (options : Options) : Except ConfigError Options :=
  match source.layer.query with
  | none => .ok options
  | some layer => do
    let options ← match layer.column with
      | none => pure options
      | some column => do
        check source.path (.column column)
        pure { options with column }
    match layer.maxDepth with
    | none => pure options
    | some maxDepth => do
      check source.path (.maxDepth maxDepth)
      pure { options with maxDepth }

namespace Config

/-- Merges layers, closest first. The furthest is laid down first, so its mistakes come first too. -/
def merge (sources : List Source) : Except ConfigError Config := do
  let options ← sources.foldrM Source.cover {}
  return ⟨options, sources.map Source.path⟩

def ofFiles (disk : Disk) (paths : List Path) : Except ConfigError Config := do
  merge (← paths.mapM (readSource disk))

end Config

def fileName : String := ".qsql.toml"

def globalFile (home : Option Path) : Option Path :=
  home.map (·.join fileName)

def isGlobal (home : Option Path) (path : Path) : Bool :=
  (globalFile home).any path.Same

def isRoot (disk : Disk) (path : Path) : Bool :=
  match readSource disk path with
  | .ok source => source.layer.root == some true
  | .error _ => false

/-- The files among `candidates` up to the first that ends the search, and whether one did. -/
def walk (disk : Disk) : (candidates : List Path) → List Path × Bool
  | [] => ([], false)
  | path :: candidates =>
    if !disk.isFile path then walk disk candidates
    else if isRoot disk path then ([path], true)
    else
      let (files, ended) := walk disk candidates
      (path :: files, ended)

def candidates (directory : Path) : List Path :=
  directory.ancestors.map (·.join fileName)

/-- The settings files for a directory, closest first. The one of the home directory comes last, unless
the walk met it or ended before. -/
def discover (disk : Disk) (home : Option Path) (directory : Path) : List Path :=
  let (files, ended) := walk disk (candidates directory)
  match globalFile home with
  | none => files
  | some path => if ended || !disk.isFile path || files.any path.Same then files else files ++ [path]

def Config.load (disk : Disk) (home : Option Path) (directory : Path) : Except ConfigError Config :=
  Config.ofFiles disk (discover disk home directory)

def toToml (options : Options) : String :=
  "[query]\ncolumn = " ++ Toml.writeString options.column ++
    s!"\nmax_depth = {options.maxDepth}\n"

end SearchFilter.Settings
