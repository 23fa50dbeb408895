import Workbench.Time

/-!
# Nodes

The entries of the workspace tree. A node knows its own id, the id of the directory that holds it
and the ids of its children in order; nodes never refer to each other directly, so any collection
of nodes is a value, whether or not it forms a tree. The marks of a node are what the user attaches
to it; they belong to the node and not to its place in the tree.
-/

namespace Workbench

/-- The name under which a node is stored, for as long as it lives. -/
abbrev NodeId := String

/-- The id of the directory at the top of the tree. -/
def rootId : NodeId := "root"

/-- The id that the `k`-th drawing gives to a new node. -/
def drawnNodeId (k : Nat) : NodeId := "n" ++ toString k

inductive NodeKind where
  | file
  | directory
  deriving DecidableEq, Repr

namespace NodeKind

def text : NodeKind → String
  | file => "file"
  | directory => "directory"

def ofText? : String → Option NodeKind
  | "file" => some file
  | "directory" => some directory
  | _ => none

theorem ofText?_text (k : NodeKind) : ofText? k.text = some k := by cases k <;> rfl

end NodeKind

structure Marks where
  tags : List String := []
  favorite : Bool := false
  pinned : Bool := false
  locked : Bool := false
  description : Option String := none
  deriving DecidableEq, Repr, Inhabited

/-- A file or a directory. -/
structure Node where
  id : NodeId
  name : String
  kind : NodeKind
  content : String := ""
  /-- What is kept as the number of octets of the content. -/
  size : Int := 0
  modifiedAt : Timestamp
  /-- The directory that holds the node; the root has none. -/
  parentId : Option NodeId := none
  children : List NodeId := []
  marks : Marks := {}
  deriving DecidableEq, Repr

namespace Node

def isFile (n : Node) : Bool := n.kind == .file

def isDirectory (n : Node) : Bool := n.kind == .directory

def isHidden (n : Node) : Bool := n.name.toList.head? == some '.'

/-- A node with its content replaced at a point in time. -/
def withContent (n : Node) (content : String) (now : Timestamp) : Node :=
  { n with content := content, size := content.utf8ByteSize, modifiedAt := now }

/-- A directory without parent and children, for the top of a tree. -/
def newRoot (now : Timestamp) : Node :=
  { id := rootId, name := "", kind := .directory, modifiedAt := now }

end Node

/-- A partial change to a node. What is `none` stays as it is. -/
structure NodeUpdate where
  name : Option String := none
  tags : Option (List String) := none
  favorite : Option Bool := none
  pinned : Option Bool := none
  locked : Option Bool := none
  description : Option String := none
  deriving DecidableEq, Repr

def NodeUpdate.marks (u : NodeUpdate) (m : Marks) : Marks where
  tags := u.tags.getD m.tags
  favorite := u.favorite.getD m.favorite
  pinned := u.pinned.getD m.pinned
  locked := u.locked.getD m.locked
  description := u.description.or m.description

end Workbench
