import SearchFilter.Text.Basic

/-! File paths as texts. A name between slashes is a component; empty pieces are none, and neither are
single dots, except one that a path starts with. Two dots are a component, because only the file system
can tell where they lead. -/

namespace SearchFilter.Files

structure Path where
  text : String
  deriving DecidableEq, Repr, Inhabited

namespace Path

def pieces (p : Path) : List String :=
  (Text.splitAt '/' p.text.toList).map String.ofList

def isAbsolute (p : Path) : Bool :=
  p.text.toList.head? == some '/'

def isIdle (piece : String) : Bool :=
  piece == "" || piece == "."

def isComponent (piece : String) (before : List String) : Bool :=
  !isIdle piece || piece == "." && before.isEmpty

/-- The components among pieces. Both are given last first. -/
def componentsOf : List String → List String
  | [] => []
  | piece :: before =>
    if isComponent piece before then piece :: componentsOf before else componentsOf before

def components (p : Path) : List String :=
  (componentsOf p.pieces.reverse).reverse

def Same (p q : Path) : Bool :=
  p.isAbsolute == q.isAbsolute && p.components == q.components

def join (p : Path) (name : String) : Path :=
  if p.text.isEmpty then ⟨name⟩
  else if p.text.toList.getLast? = some '/' then ⟨p.text ++ name⟩
  else ⟨p.text ++ "/" ++ name⟩

def ofReversed (absolute : Bool) (pieces : List String) : Path :=
  if pieces.isEmpty ∧ absolute then ⟨"/"⟩ else ⟨"/".intercalate pieces.reverse⟩

def trimmed : List String → List String
  | [] => []
  | piece :: before => if isComponent piece before then piece :: before else trimmed before

/-- The directories above pieces that are given last first, closest first. -/
def parentPieces : List String → List (List String)
  | [] => []
  | piece :: before =>
    if isComponent piece before then trimmed before :: parentPieces before else parentPieces before

def ancestors (p : Path) : List Path :=
  p :: (parentPieces p.pieces.reverse).map (ofReversed p.isAbsolute)

def below? (base p : Path) : Option Path :=
  if base.isAbsolute == p.isAbsolute && base.components.isPrefixOf p.components then
    some ⟨"/".intercalate (p.components.drop base.components.length)⟩
  else none

end Path
end SearchFilter.Files
