import Workbench.Disk.Path
import Workbench.Table
import Workbench.Text.Quoted
import Workbench.Text.Utf8

/-!
# File systems

Files, directories and symbolic links at their places. A path is followed name by name; links are
followed on the way, and at the end when that is asked for. What can go wrong is what a system call
reports, with its number and its text.
-/

namespace Workbench

/-- What lies at a place. -/
inductive FileItem where
  | file (octets : List Nat)
  | directory
  | link (target : String)
  deriving DecidableEq

/-- The names that lead from a place up to the top. -/
abbrev Place := List String

def Place.ofNames (names : List String) : Place := names.reverse

inductive FileFault where
  | notFound
  | busy
  | alreadyThere
  | notDirectory
  | isDirectory
  | invalid
  | nameTooLong
  | tooManyLinks
  deriving DecidableEq, Repr

namespace FileFault

def number : FileFault → Nat
  | notFound => 2
  | busy => 16
  | alreadyThere => 17
  | notDirectory => 20
  | isDirectory => 21
  | invalid => 22
  | nameTooLong => 36
  | tooManyLinks => 40

def text : FileFault → String
  | notFound => "No such file or directory"
  | busy => "Device or resource busy"
  | alreadyThere => "File exists"
  | notDirectory => "Not a directory"
  | isDirectory => "Is a directory"
  | invalid => "Invalid argument"
  | nameTooLong => "File name too long"
  | tooManyLinks => "Too many levels of symbolic links"

def numbered (f : FileFault) : String := "[Errno " ++ toString f.number ++ "] " ++ f.text

def messageAt (f : FileFault) (path : String) : String := f.numbered ++ ": " ++ Text.quoted path

def messageBetween (f : FileFault) (old new : String) : String :=
  f.messageAt old ++ " -> " ++ Text.quoted new

end FileFault

/-- Files, directories and links. The top is always a directory. -/
structure FileSystem where
  items : Table Place FileItem := .empty
  /-- Where paths start that do not start at the top. -/
  workingPlace : Place := []
  deriving DecidableEq

namespace FileSystem

def item? (fs : FileSystem) (p : Place) : Option FileItem :=
  if p.isEmpty then some .directory else fs.items.get? p

/-- The number of octets that a name may have. -/
def nameLimit : Nat := 255

/-- The number of octets that a path may have. -/
def pathLimit : Nat := 4095

/-- The number of links that may be followed on the way. -/
def linkLimit : Nat := 40

inductive AtEnd where
  | stay
  | follow
  /-- The link is followed to where a file is to be. A name with a slash behind it is no such
  place. -/
  | followToFile
  deriving DecidableEq, Repr

/-- The names in the target of a link. An empty name at the end stands for a slash there: what comes
before it has to be a directory. -/
def namesOf (target : String) : List String :=
  Path.segments target ++ if target.toList.getLast? == some '/' then [""] else []

/-- Follows names from a directory, at most `fuel` of them. The last one need not be there. -/
def walk (fs : FileSystem) (atEnd : AtEnd) :
    Nat → Nat → Place → List String → Except FileFault Place
  | _, _, place, [] => .ok place
  | 0, _, _, _ :: _ => .error .tooManyLinks
  | fuel + 1, links, place, name :: rest =>
    if name.isEmpty || name == "." then walk fs atEnd fuel links place rest
    else if name == ".." then walk fs atEnd fuel links place.tail rest
    else if atEnd = .followToFile && rest == [""] then .error .isDirectory
    else if nameLimit < name.utf8ByteSize then .error .nameTooLong
    else
      let next := name :: place
      match fs.item? next with
      | none => if rest.isEmpty then .ok next else .error .notFound
      | some .directory => walk fs atEnd fuel links next rest
      | some (.file _) => if rest.isEmpty then .ok next else .error .notDirectory
      | some (.link target) =>
        if rest.isEmpty && atEnd = .stay then .ok next
        else if linkLimit ≤ links then .error .tooManyLinks
        else
          let start := if Text.startsWith target "/" then [] else place
          walk fs atEnd fuel (links + 1) start (namesOf target ++ rest)

/-- The number of names in the targets of all links. -/
def linkNames (fs : FileSystem) : Nat :=
  (fs.items.values.map fun i =>
    match i with
    | .link target => (namesOf target).length
    | _ => 0).foldr Nat.add 0

/-- The place that a path leads to. Its last name need not be there. -/
def placeOf (fs : FileSystem) (atEnd : AtEnd) (path : String) : Except FileFault Place :=
  if path.isEmpty then .error .notFound
  else if pathLimit < path.utf8ByteSize then .error .nameTooLong
  else
    let names := Path.segments path
    let start := if Text.startsWith path "/" then [] else fs.workingPlace
    fs.walk atEnd (names.length + (linkLimit + 1) * fs.linkNames) 0 start names

def stat (fs : FileSystem) (path : String) : Except FileFault (Place × FileItem) := do
  let p ← fs.placeOf .follow path
  match fs.item? p with
  | some i => return (p, i)
  | none => throw .notFound

/-- Whether a fault only means that nothing is there. -/
def isAbsence : FileFault → Bool
  | .notFound | .notDirectory | .tooManyLinks => true
  | _ => false

def leadsTo (fs : FileSystem) (test : FileItem → Bool) (path : String) : Except FileFault Bool :=
  if Disk.holdsNul path then .ok false
  else
    match fs.stat path with
    | .ok (_, i) => .ok (test i)
    | .error f => if isAbsence f then .ok false else .error f

def exists? (fs : FileSystem) (path : String) : Except FileFault Bool :=
  fs.leadsTo (fun _ => true) path

def isDirectory? (fs : FileSystem) (path : String) : Except FileFault Bool :=
  fs.leadsTo (· == .directory) path

/-- The names in the directory at a place, in order. -/
def namesIn (fs : FileSystem) (p : Place) : List String :=
  let names := fs.items.keys.filterMap fun q =>
    match q with
    | name :: above => if above == p then some name else none
    | [] => none
  names.mergeSort fun a b => !decide (b < a)

def put (fs : FileSystem) (p : Place) (i : FileItem) : FileSystem :=
  { fs with items := fs.items.insert p i }

def removeAt (fs : FileSystem) (p : Place) : FileSystem :=
  { fs with items := fs.items.filter fun q _ => !p.isSuffixOf q }

def write (fs : FileSystem) (path : String) (octets : List Nat) : Except FileFault FileSystem := do
  let p ← fs.placeOf .followToFile path
  match fs.item? p with
  | some .directory => throw .isDirectory
  | _ => return fs.put p (.file octets)

def makeDirectory (fs : FileSystem) (path : String) : Except FileFault FileSystem := do
  let p ← fs.placeOf .stay path
  match fs.item? p with
  | some _ => throw .alreadyThere
  | none => return fs.put p .directory

/-- Creates the last directory of a path. What is there already is good if it may be there and is
a directory. -/
def makeLast (fs : FileSystem) (mayExist : Bool) (path : String) :
    Except FileFault FileSystem :=
  match fs.makeDirectory path with
  | .ok fs => .ok fs
  | .error .notFound => .error .notFound
  | .error f =>
    match mayExist, fs.isDirectory? path with
    | true, .ok true => .ok fs
    | _, _ => .error f

/-- The end of a change that may do a part of what it should: the fault comes with the path at
which it arose. -/
abbrev Change := Except (FileFault × String) Unit × FileSystem

/-- Creates directories from the lowest path on upwards, and then the paths below. -/
def makeDirectories (fs : FileSystem) (mayExist : Bool) : Nat → String → Change
  | 0, path => (.error (.notFound, path), fs)
  | fuel + 1, path =>
    match fs.makeLast mayExist path with
    | .ok fs => (.ok (), fs)
    | .error .notFound =>
      if Disk.parent path == path then (.error (.notFound, path), fs)
      else
        match makeDirectories fs true fuel (Disk.parent path) with
        | (.error e, fs) => (.error e, fs)
        | (.ok (), fs) =>
          match fs.makeLast mayExist path with
          | .ok fs => (.ok (), fs)
          | .error f => (.error (f, path), fs)
    | .error f => (.error (f, path), fs)

/-- Creates a directory with the directories above it that are missing. -/
def makePath (fs : FileSystem) (mayExist : Bool) (path : String) : Change :=
  fs.makeDirectories mayExist ((Path.segments path).length + 1) path

def unlink (fs : FileSystem) (path : String) : Except FileFault FileSystem := do
  let p ← fs.placeOf .stay path
  match fs.item? p with
  | none => throw .notFound
  | some .directory => throw .isDirectory
  | some _ => return fs.removeAt p

/-- Whether a path ends with a name of its own, and not with steps to a place that has another. -/
def endsNamed (path : String) : Bool :=
  match (Path.segments path).getLast? with
  | none | some "." | some ".." => false
  | some _ => true

def enterAbove (fs : FileSystem) (path : String) : Except FileFault Unit := do
  let (_, i) ← fs.stat (Disk.parent path)
  if i ≠ .directory then throw .notDirectory

/-- Moves something to another path. A file or a link that is there gives way to one. Both
directories are looked up before either of the last names. -/
def rename (fs : FileSystem) (old new : String) : Except FileFault FileSystem := do
  if pathLimit < max old.utf8ByteSize new.utf8ByteSize then throw .nameTooLong
  fs.enterAbove old
  fs.enterAbove new
  if !endsNamed old || !endsNamed new then throw .busy
  let p ← fs.placeOf .stay old
  let q ← fs.placeOf .stay new
  match fs.item? p with
  | none => throw .notFound
  | some i =>
    if p == q then return fs
    if p.isSuffixOf q then throw .invalid
    match fs.item? q with
    | some .directory => throw (if i == .directory then .alreadyThere else .isDirectory)
    | some _ => if i == .directory then throw .notDirectory
    | none => pure ()
    let rebased (r : Place) : Place :=
      if p.isSuffixOf r then r.take (r.length - p.length) ++ q else r
    let rest := fs.items.filter fun r _ => r != q
    return { fs with items := .ofList (rest.entries.map fun e => (rebased e.1, e.2)) }

/-- Removes a directory with all that it holds. Where the path steps back at its end, everything
below is removed before the last step fails, since the way to the directory is gone by then. -/
def removeTree (fs : FileSystem) (p : Place) (path : String) : Except FileFault Unit × FileSystem :=
  let rest := fs.removeAt p
  if endsNamed path then (.ok (), rest)
  else (.error .notFound, if p.isEmpty then rest else rest.put p .directory)

def read (fs : FileSystem) (path : String) : Except FileFault (List Nat) := do
  let (_, i) ← fs.stat path
  match i with
  | .file octets => return octets
  | _ => throw .isDirectory

end FileSystem

end Workbench
