import Workbench.Disk.Bridge
import Workbench.Disk.Files
import Workbench.Disk.Path

/-!
# The bridge to the local file system

Listings go down to a given depth, in the order of names, and follow symbolic links; links that
lead nowhere and the ignored names are left out. The content of a file is read only if the file is
small enough, and octets that are not text become replacement characters.

A fault of the file system is answered as a failure, except where the bridge only looks whether
something is there: a path that cannot even be looked at breaks the call down.
-/

namespace Workbench

/-- What a bridge to the local file system leaves out and does not read. -/
structure LocalLimits where
  maxDepth : Int := 8
  maxFileBytes : Int := 100000
  deriving DecidableEq, Repr

namespace LocalDisk

open Disk (holdsNul nulText)

def ignored : List String := ["node_modules", "__pycache__", ".git"]

/-! ## Listing -/

/-- The entries of the directory that a path leads to, down to a depth. -/
def entriesOf (fs : FileSystem) (limit : Int) (now : Timestamp) : Nat → String → List DiskEntry
  | 0, _ => []
  | depth + 1, path =>
    match fs.stat path with
    | .ok (place, .directory) =>
      let names := (fs.namesIn place).filter fun n => !ignored.contains n
      names.filterMap fun name =>
        let below := Disk.below path [name]
        match fs.stat below with
        | .ok (_, .directory) =>
          some (.directory name now (entriesOf fs limit now depth below))
        | .ok (_, .file octets) =>
          let content := if octets.length < limit then Text.decodeLossy octets else ""
          some (.file name content octets.length now)
        | _ => none
    | _ => []

def list (limits : LocalLimits) (now : Timestamp) (root : String) (fs : FileSystem) :
    Except Breakdown (List DiskEntry) :=
  let path := Disk.tidied root
  match fs.isDirectory? path with
  | .error f => .error ⟨.system, f.messageAt path⟩
  | .ok false => .error ⟨.notDirectory, root ++ " is not a directory"⟩
  | .ok true => .ok (entriesOf fs limits.maxFileBytes now limits.maxDepth.toNat path)

/-! ## Changing -/

abbrev Ending := Except Breakdown DiskAnswer × FileSystem

def fail (fs : FileSystem) (message : String) : Ending := (.ok (.failed (some message)), fs)

def breakDown (fs : FileSystem) (sort : BreakdownSort) (text : String) : Ending :=
  (.error ⟨sort, text⟩, fs)

/-- Goes on if nothing is at a path. -/
def unlessTaken (fs : FileSystem) (path taken : String) (go : Ending) : Ending :=
  match fs.exists? path with
  | .error f => breakDown fs .system (f.messageAt path)
  | .ok true => fail fs taken
  | .ok false => go

def conclude (fs : FileSystem) (x : Except String FileSystem) (path : String) : Ending :=
  match x with
  | .ok fs => (.ok (.done (some path)), fs)
  | .error message => fail fs message

def write (fs : FileSystem) (path content answer : String) : Ending :=
  if holdsNul path then breakDown fs .badValue nulText
  else
    conclude fs ((fs.write path (Text.octets content)).mapError fun f => f.messageAt path) answer

/-- Deletes a directory with all that it holds, or a file. A link to a directory is left alone. -/
def delete (fs : FileSystem) (path : String) : Ending :=
  let target := Disk.tidied path
  match fs.isDirectory? target with
  | .error f => fail fs (f.messageAt target)
  | .ok true =>
    match fs.placeOf .stay target with
    | .error f => fail fs (f.messageAt target)
    | .ok p =>
      if fs.item? p == some .directory then
        match fs.removeTree p target with
        | (.ok (), fs) => (.ok (.done (some path)), fs)
        | (.error f, fs) => fail fs (f.messageAt target)
      else fail fs "Cannot call rmtree on a symbolic link"
  | .ok false =>
    if holdsNul path then breakDown fs .badValue nulText
    else conclude fs ((fs.unlink target).mapError fun f => f.messageAt target) path

/-- Moves something to a path at which there is nothing. -/
def relocate (fs : FileSystem) (old new : String) : Ending :=
  let source := Disk.tidied old
  let target := Disk.tidied new
  unlessTaken fs target ("Destination already exists: " ++ new) <|
    if holdsNul source || holdsNul target then breakDown fs .badValue nulText
    else
      conclude fs ((fs.rename source target).mapError fun f => f.messageBetween source target) new

def perform (call : DiskCall) (fs : FileSystem) : Ending :=
  match call with
  | .createFile parent name content =>
    let path := Disk.seenFrom parent name
    unlessTaken fs path "File already exists" (write fs path content path)
  | .createDirectory parent name =>
    let path := Disk.seenFrom parent name
    unlessTaken fs path "Folder already exists" <|
      if holdsNul path then breakDown fs .badValue nulText
      else
        match fs.makePath false path with
        | (.ok (), fs) => (.ok (.done (some path)), fs)
        | (.error (f, p), fs) => fail fs (f.messageAt p)
  | .delete path => delete fs path
  | .rename old new | .move old new => relocate fs old new
  | .writeFile path content => write fs (Disk.tidied path) content path

def bridge (limits : LocalLimits) : Bridge FileSystem where
  ignored := ignored
  maxDepth := some limits.maxDepth
  list now root fs := (list limits now root fs, fs)
  perform _ call fs := perform call fs

end LocalDisk

end Workbench
