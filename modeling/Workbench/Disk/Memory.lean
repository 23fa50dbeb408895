import Workbench.Disk.Bridge
import Workbench.Disk.Path
import Workbench.Refusal
import Workbench.Table

/-!
# A disk in memory

A map from absolute paths to files and directories, each with the time of its last writing. It
follows the contract of a bridge to the letter and can be told to fail: an operation can be made to
answer with a failure once it has succeeded a number of times, or to break down. All calls are
logged in order.
-/

namespace Workbench

/-- What lies at a path: the content of a file, or nothing for a directory, and when it was
written. -/
structure MemoryItem where
  content : Option String
  modifiedAt : Timestamp
  deriving DecidableEq

inductive LoggedCall where
  | list (root : String)
  | change (call : DiskCall)
  deriving DecidableEq, Repr

/-- A failure that an operation answers with from some success on. -/
structure PlannedFailure where
  message : Option String
  after : Nat
  deriving DecidableEq, Repr

/-- A disk in memory, with what it is told to do. -/
structure MemoryDisk where
  /-- What the disk holds under absolute paths. -/
  items : Table String MemoryItem := .empty
  /-- Names that listings silently leave out. -/
  hidden : List String := []
  /-- Whether listings are in descending order. -/
  descending : Bool := false
  /-- The calls since the log was last read. -/
  log : List LoggedCall := []
  failures : Table String PlannedFailure := .empty
  breakdowns : Table String Breakdown := .empty
  /-- How often each operation has succeeded. -/
  successes : Table String Nat := .empty
  deriving DecidableEq

namespace MemoryDisk

def top : String := "/disk"

def listOperation : String := "list_tree"

/-- Whether a path is another or lies below it. -/
def isWithin (path ancestor : String) : Bool :=
  path == ancestor || Text.startsWith path (ancestor ++ "/")

def holds (d : MemoryDisk) (path : String) : Bool := d.items.contains path

def isDirectory (d : MemoryDisk) (path : String) : Bool :=
  (d.items.get? path).any fun i => i.content.isNone

def put (d : MemoryDisk) (path : String) (content : Option String) (now : Timestamp) : MemoryDisk :=
  { d with items := d.items.insert path ⟨content, now⟩ }

/-- Makes a directory at a path, unless something is there. -/
def ensure (d : MemoryDisk) (now : Timestamp) (path : String) : MemoryDisk :=
  if d.holds path then d else d.put path none now

/-- The paths above a path below the top directory, the highest first. -/
def above (path : String) : List String :=
  let steps := Path.segments path
  (List.range steps.length).map fun k => Disk.below top (steps.take k)

/-- Puts something at a path below the top directory, with the directories above it. -/
def plant (d : MemoryDisk) (now : Timestamp) (path : String) (content : Option String) :
    MemoryDisk :=
  let d := (above path).foldl (fun d p => d.ensure now p) d
  d.put (Disk.below top (Path.segments path)) content now

def remove (d : MemoryDisk) (path : String) : MemoryDisk :=
  { d with items := d.items.filter fun p _ => !isWithin p path }

/-- Moves what lies at a path and below it to another path. -/
def relocate (d : MemoryDisk) (old new : String) : MemoryDisk :=
  let rebased (p : String) : String :=
    if isWithin p old then new ++ Text.dropChars p old.length else p
  { d with items := .ofList (d.items.entries.map fun e => (rebased e.1, e.2)) }

/-! ## Listing -/

/-- A path without its last name, and that name. -/
def splitLast (path : String) : String × String :=
  let cs := path.toList.reverse
  (.ofList ((cs.dropWhile (· != '/')).drop 1).reverse, .ofList (cs.takeWhile (· != '/')).reverse)

structure Placed where
  directory : String
  name : String
  item : MemoryItem

def placed (d : MemoryDisk) : List Placed :=
  d.items.entries.map fun (path, item) =>
    let (directory, name) := splitLast path
    ⟨directory, name, item⟩

/-- What lies directly in a directory, in the order of the listing. -/
def itemsIn (d : MemoryDisk) (ignored : List String) (all : List Placed) (directory : String) :
    List Placed :=
  let shown := all.filter fun x =>
    x.directory == directory && !ignored.contains x.name && !d.hidden.contains x.name
  let sorted := shown.mergeSort fun a b => !decide (b.name < a.name)
  if d.descending then sorted.reverse else sorted

/-- The entries of a directory, at most `fuel` levels deep. -/
def entriesOf (d : MemoryDisk) (ignored : List String) (all : List Placed) :
    Nat → String → List DiskEntry
  | 0, _ => []
  | fuel + 1, directory =>
    (d.itemsIn ignored all directory).map fun x =>
      match x.item.content with
      | some text => .file x.name text text.utf8ByteSize x.item.modifiedAt
      | none =>
        .directory x.name x.item.modifiedAt
          (entriesOf d ignored all fuel (directory ++ "/" ++ x.name))

/-! ## The bridge -/

def logged (d : MemoryDisk) (call : LoggedCall) : MemoryDisk := { d with log := d.log ++ [call] }

/-- The failure that an operation answers with now, if it is planned to. -/
def plannedFailure? (d : MemoryDisk) (operation : String) : Option PlannedFailure :=
  (d.failures.get? operation).filter fun f => f.after ≤ d.successes.getD operation 0

def succeed (d : MemoryDisk) (operation path : String) : DiskAnswer × MemoryDisk :=
  (.done (some path),
    { d with successes := d.successes.insert operation (d.successes.getD operation 0 + 1) })

def fail (d : MemoryDisk) (message : String) : DiskAnswer × MemoryDisk :=
  (.failed (some message), d)

def missingText (path : String) : String :=
  "ENOENT: no such file or directory, " ++ Refusal.named path

def create (d : MemoryDisk) (operation parent name : String) (content : Option String)
    (taken : String) (now : Timestamp) : DiskAnswer × MemoryDisk :=
  let path := Disk.below parent [name]
  if d.holds path then d.fail taken
  else if !d.isDirectory parent then
    d.fail ("ENOENT: no such directory, " ++ Refusal.named parent)
  else (d.put path content now).succeed operation path

/-- Moves something to a path at which there is nothing. -/
def moveTo (d : MemoryDisk) (operation old new : String) : DiskAnswer × MemoryDisk :=
  if !d.holds old then d.fail (missingText old)
  else if d.holds new then d.fail ("Destination already exists: " ++ new)
  else (d.relocate old new).succeed operation new

/-- Carries out a call that is not planned to fail. -/
def carryOut (now : Timestamp) (call : DiskCall) (d : MemoryDisk) : DiskAnswer × MemoryDisk :=
  match call with
  | .createFile parent name content =>
    d.create call.operation parent name (some content) "File already exists" now
  | .createDirectory parent name =>
    d.create call.operation parent name none "Folder already exists" now
  | .delete path =>
    if !d.holds path then d.fail (missingText path)
    else (d.remove path).succeed call.operation path
  | .rename old new | .move old new => d.moveTo call.operation old new
  | .writeFile path content =>
    if d.isDirectory path then
      d.fail ("EISDIR: illegal operation on a directory, " ++ Refusal.named path)
    else (d.put path (some content) now).succeed call.operation path

def perform (now : Timestamp) (call : DiskCall) (d : MemoryDisk) :
    Except Breakdown DiskAnswer × MemoryDisk :=
  let d := d.logged (.change call)
  match d.breakdowns.get? call.operation with
  | some b => (.error b, d)
  | none =>
    match d.plannedFailure? call.operation with
    | some f => (.ok (.failed f.message), d)
    | none =>
      let (answer, d) := d.carryOut now call
      (.ok answer, d)

def list (ignored : List String) (root : String) (d : MemoryDisk) :
    Except Breakdown (List DiskEntry) × MemoryDisk :=
  let d := d.logged (.list root)
  match d.breakdowns.get? listOperation with
  | some b => (.error b, d)
  | none =>
    if d.isDirectory root then (.ok (d.entriesOf ignored d.placed d.items.size root), d)
    else (.error ⟨.missing, "no such directory " ++ root⟩, d)

/-- The bridge to a disk in memory. Its listings go to any depth, whatever it says of them. -/
def bridge (ignored : List String) (maxDepth : Option Int) : Bridge MemoryDisk where
  ignored := ignored
  maxDepth := maxDepth
  list _ root d := d.list ignored root
  perform := perform

end MemoryDisk

end Workbench
