import Workbench.Path

/-!
# Paths on a disk

The paths that are handed to a disk are written without empty pieces and single dots. Two dots
stay: only the disk knows where they lead. A path that starts with exactly two slashes keeps both.
-/

namespace Workbench.Disk

/-- Whether a path holds a character that no path may hold. -/
def holdsNul (path : String) : Bool := path.toList.contains (Char.ofNat 0)

def nulText : String := "embedded null byte"

/-- The slashes that a written path starts with. -/
def leadingSlashes (path : String) : String :=
  match (path.toList.takeWhile (· == '/')).length with
  | 0 => ""
  | 2 => "//"
  | _ => "/"

/-- The pieces of a path that lead somewhere. -/
def steps (path : String) : List String := (Path.segments path).filter fun s => s != "."

def written (slashes : String) (steps : List String) : String :=
  if slashes.isEmpty && steps.isEmpty then "." else slashes ++ "/".intercalate steps

def tidied (path : String) : String := written (leadingSlashes path) (steps path)

/-- The path of the names below a directory. -/
def below (root : String) (names : List String) : String :=
  written (leadingSlashes root) (steps root ++ names)

/-- The path of the directory in which the last name of a path lies. -/
def parent (path : String) : String := written (leadingSlashes path) (steps path).dropLast

/-- A path as it is seen from a directory. -/
def seenFrom (directory path : String) : String :=
  if Text.startsWith path "/" then tidied path else below directory (steps path)

end Workbench.Disk
