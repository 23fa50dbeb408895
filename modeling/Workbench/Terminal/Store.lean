import Workbench.Disk.Files
import Workbench.Disk.Path
import Workbench.Terminal.Session

/-!
# The file of a session

Terminals are kept in a file of the local file system. A file that is not there, cannot be read or
holds no text is as good as none, but it has to be possible to look whether it is there. Writing
creates the directories above the file.
-/

namespace Workbench.Store

inductive Fault where
  | notConfigured
  | badPath
  | file (fault : FileFault) (path : String)
  deriving DecidableEq, Repr

def Fault.message : Fault → String
  | notConfigured => DeskFault.notStored.message
  | badPath => Disk.nulText
  | file f path => f.messageAt path

/-- The text that the file at a path holds, if it holds one, with line feeds for all line ends. -/
def load (fs : FileSystem) (path : String) : Except Fault (Option String) :=
  let path := Disk.tidied path
  match fs.exists? path with
  | .error f => .error (.file f path)
  | .ok false => .ok none
  | .ok true =>
    match fs.read path with
    | .ok octets => .ok ((Text.ofOctets? octets).map Text.withLineFeeds)
    | .error _ => .ok none

def loadFrom (fs : FileSystem) : Option String → Except Fault (Option String)
  | none => .ok none
  | some path => load fs path

/-- The end of writing, with the file system that is left; directories stay even if the file cannot
be written. -/
abbrev Ending := Except Fault Unit × FileSystem

def write (fs : FileSystem) (path text : String) : Ending :=
  let path := Disk.tidied path
  if Disk.holdsNul (Disk.parent path) then (.error .badPath, fs)
  else
    match fs.makePath true (Disk.parent path) with
    | (.error (f, p), fs) => (.error (.file f p), fs)
    | (.ok (), fs) =>
      if Disk.holdsNul path then (.error .badPath, fs)
      else
        match fs.write path (Text.octets text) with
        | .ok fs => (.ok (), fs)
        | .error f => (.error (.file f path), fs)

def save (fs : FileSystem) (path : Option String) (d : Desk) : Ending :=
  match path with
  | none => (.error .notConfigured, fs)
  | some p => write fs p (SavedSession.ofDesk d).text

end Workbench.Store
