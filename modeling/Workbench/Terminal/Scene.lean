import Workbench.Settings
import Workbench.Terminal.Arguments
import Workbench.Terminal.Command
import Workbench.Terminal.History
import Workbench.Workspace.Basic

/-!
# What a command sees

The workspace as it is, the working directory of the terminal and what else a command may look at,
and the reply that it gives.
-/

namespace Workbench

structure Reply where
  output : String := ""
  isError : Bool := false
  deriving DecidableEq, Repr

namespace Reply

def ok (output : String) : Reply := ⟨output, false⟩

def error (output : String) : Reply := ⟨output, true⟩

def broken (command : Command) (cause : String) : Reply :=
  .error (command.text ++ ": internal error: " ++ cause)

def stopped (cause : String) : Reply := .error ("Error: " ++ cause)

end Reply

structure Scene where
  space : Workspace
  settings : Settings
  history : History
  cwd : String
  shell : Shell
  now : Timestamp

namespace Scene

def resolve? (c : Scene) (path : String) : Option Node := c.space.resolve? path c.cwd

/-- The file that a word names, or what a command says when there is none. -/
def fileAt (c : Scene) (command path : String) : Except Reply Node :=
  match c.resolve? path with
  | none => .error (.error (command ++ ": " ++ path ++ ": No such file or directory"))
  | some n =>
    if n.isDirectory then .error (.error (command ++ ": " ++ path ++ ": Is a directory"))
    else .ok n

/-- Where a node goes that is copied or moved to a path: into the directory that the path names,
under its own name, or else into the directory above, under the last name of the path. -/
def destination? (c : Scene) (source : Node) (path : String) : Option (Node × String) :=
  match (c.resolve? path).filter Node.isDirectory with
  | some target => some (target, source.name)
  | none =>
    let (parent, name) := Arguments.splitPath path
    ((c.resolve? parent).filter Node.isDirectory).map fun d => (d, name)

end Scene

end Workbench
