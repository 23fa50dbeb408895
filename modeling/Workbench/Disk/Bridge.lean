import Workbench.Node

/-!
# Bridges to a disk

What the workspace asks of the disk that it is bound to. A bridge lists the entries below a root
and performs calls that change them; both may go wrong in any way and may change the disk even
then. The state of the disk is a parameter, so a bridge is a value and every run over it is a
function of the disk at the start.

A bridge says beforehand which names it leaves out of its listings and how deep they go. The
workspace relies on this when it decides whether to write at all.
-/

namespace Workbench

/-- An entry of a listing. -/
inductive DiskEntry where
  /-- A file with its content as far as the bridge reads it, and its size on the disk. -/
  | file (name content : String) (size : Nat) (modifiedAt : Timestamp)
  | directory (name : String) (modifiedAt : Timestamp) (children : List DiskEntry)
  deriving Repr, Inhabited

namespace DiskEntry

def name : DiskEntry → String
  | file n .. => n
  | directory n .. => n

def kind : DiskEntry → NodeKind
  | file .. => .file
  | directory .. => .directory

def modifiedAt : DiskEntry → Timestamp
  | file _ _ _ t => t
  | directory _ t _ => t

end DiskEntry

/-- A call that changes the disk. All places are paths on the disk. -/
inductive DiskCall where
  | createFile (parent name content : String)
  | createDirectory (parent name : String)
  | delete (path : String)
  | rename (old new : String)
  | move (old new : String)
  | writeFile (path content : String)
  deriving DecidableEq, Repr

def DiskCall.operation : DiskCall → String
  | createFile .. => "create_file"
  | createDirectory .. => "create_directory"
  | delete _ => "delete"
  | rename .. => "rename"
  | move .. => "move"
  | writeFile .. => "write_file"

/-- How a call ends that the bridge answers. -/
inductive DiskAnswer where
  | done (path : Option String)
  | failed (message : Option String)
  deriving DecidableEq, Repr

inductive BreakdownSort where
  | timeout
  | connection
  | system
  | badValue
  | missing
  | notDirectory
  deriving DecidableEq, Repr

/-- How a call ends that the bridge does not answer. -/
structure Breakdown where
  sort : BreakdownSort
  text : String
  deriving DecidableEq, Repr

/-- A way to list and to change a disk whose state is of type `σ`. Every call is told the time. -/
structure Bridge (σ : Type) where
  /-- The names that listings leave out. -/
  ignored : List String
  /-- The depth below the root at which listings end, if they do. Below zero they are empty. -/
  maxDepth : Option Int
  list : Timestamp → String → σ → Except Breakdown (List DiskEntry) × σ
  perform : Timestamp → DiskCall → σ → Except Breakdown DiskAnswer × σ

namespace Bridge

variable {σ τ : Type}

def reaches (b : Bridge σ) (depth : Int) : Bool :=
  match b.maxDepth with
  | some d => depth ≤ d
  | none => true

/-- Whether listings hold an entry of a name at a depth. -/
def isListed (b : Bridge σ) (name : String) (depth : Int) : Bool :=
  !b.ignored.contains name && b.reaches depth

/-- The same bridge to a disk that is part of something larger. -/
def within (b : Bridge σ) (get : τ → σ) (set : σ → τ → τ) : Bridge τ where
  ignored := b.ignored
  maxDepth := b.maxDepth
  list now root t :=
    let (answer, s) := b.list now root (get t)
    (answer, set s t)
  perform now call t :=
    let (answer, s) := b.perform now call (get t)
    (answer, set s t)

end Bridge

end Workbench
