import Workbench.Text.Blank

/-!
# Paths

Paths inside the workspace. A path is written with slashes; its segments are what the slashes
separate. Paths are taken without the blanks around them, a leading tilde stands for the home
directory, and a path that does not start with a slash starts from a working directory. The paths
of nodes are written from the names on the way from the root.
-/

namespace Workbench.Path

/-- All that the slashes of a path separate, empty pieces included. -/
def pieces (path : String) : List String := (path.toList.splitOn '/').map .ofList

def segments (path : String) : List String := (pieces path).filter fun s => !s.isEmpty

def ofNames (names : List String) : String := "/" ++ "/".intercalate names

/-- A text without the slashes at its end. -/
def dropSlashes (path : String) : String :=
  .ofList (path.toList.reverse.dropWhile (· == '/')).reverse

def child (directory name : String) : String := dropSlashes directory ++ "/" ++ name

def isName (name : String) : Bool :=
  !name.isEmpty && name != "." && name != ".." && !name.toList.contains '/'

/-- A path that starts at the root: blanks dropped, the tilde expanded to the home directory, and
anything else put below the working directory. -/
def absolute (home path cwd : String) : String :=
  let path := Text.strip path
  let path :=
    if path == "~" || Text.startsWith path "~/" then home ++ Text.dropChars path 1 else path
  if Text.startsWith path "/" then path else child (if cwd.isEmpty then "/" else cwd) path

/-- The pieces that a path seen from a working directory leads through. A blank path is the working
directory. -/
def route (home path cwd : String) : List String :=
  let path := if Text.isBlankText path then cwd else path
  pieces (absolute home path (absolute home cwd "/"))

def isAtOrBelow (path top : String) : Bool :=
  path == top || Text.startsWith path (dropSlashes top ++ "/")

theorem isName_iff {name : String} : isName name = true ↔
    name ≠ "" ∧ name ≠ "." ∧ name ≠ ".." ∧ '/' ∉ name.toList := by
  simp [isName, and_assoc]

end Workbench.Path
