import Workbench.Workspace.Basic

/-!
# Changes to the tree in memory

Each change comes as a check and an edit. The check says why a change is refused, or finds the
nodes that it concerns; the edit is only applied after its check and cannot fail.
-/

namespace Workbench.Workspace

/-- A place for a node: a directory, and the name that the node gets there. -/
structure Placement where
  node : Node
  target : Node
  name : String

/-! ## Checks -/

def require (s : Workspace) (id : NodeId) : Except Refusal Node :=
  match s.node? id with
  | some n => .ok n
  | none => .error (.noSuchNode id)

def requireFile (s : Workspace) (id : NodeId) : Except Refusal Node := do
  let n ← s.require id
  if n.isFile then .ok n else .error (.isDirectory (s.pathOf n.id))

def checkName (name : String) : Except Refusal Unit :=
  if Path.isName name then .ok () else .error (.badName name)

def requireDirectory (s : Workspace) (id : NodeId) : Except Refusal Node :=
  match s.directory? id with
  | some n => .ok n
  | none => .error (.noSuchDirectory id)

def checkFree (s : Workspace) (directory : Node) (name : String) : Except Refusal Unit :=
  match s.arena.childNamed? directory name with
  | none => .ok ()
  | some _ => .error (.nameTaken name (s.pathOf directory.id))

/-- The directory in which a name can be created. -/
def checkCreate (s : Workspace) (name : String) (parentId : NodeId) : Except Refusal Node := do
  checkName name
  let parent ← s.requireDirectory parentId
  s.checkFree parent name
  return parent

/-- The node that can be deleted. -/
def checkDelete (s : Workspace) (id : NodeId) (recursive : Bool) : Except Refusal Node := do
  let n ← s.require id
  if n.id == rootId then throw .rootDeleted
  if n.isDirectory && !n.children.isEmpty && !recursive then
    throw (.directoryNotEmpty (s.pathOf n.id))
  return n

/-- The node that an update concerns, and the directory that it gets a new name in, if its name
changes. -/
def checkUpdate (s : Workspace) (id : NodeId) (changes : NodeUpdate) :
    Except Refusal (Node × Option Placement) := do
  let n ← s.require id
  match changes.name with
  | none => return (n, none)
  | some name =>
    if name == n.name then return (n, none)
    if n.id == rootId then throw .rootRenamed
    checkName name
    let some parent := s.parent? n.id | return (n, none)
    s.checkFree parent name
    return (n, some ⟨n, parent, name⟩)

/-- The place that a move or a copy asks for. Without a name of its own the node keeps its name. -/
def checkPlacement (s : Workspace) (onRoot : Refusal) (id targetId : NodeId)
    (name : Option String) : Except Refusal Placement := do
  let n ← s.require id
  if n.id == rootId then throw onRoot
  let target ← s.requireDirectory targetId
  let name := name.getD n.name
  checkName name
  return ⟨n, target, name⟩

/-- Whether a place lies in the subtree of the node that is to go there. -/
def isInside (s : Workspace) (p : Placement) : Bool :=
  p.target.id == p.node.id || s.arena.isAncestor p.node.id p.target.id

def Placement.isSame (p : Placement) : Bool :=
  some p.target.id == p.node.parentId && p.name == p.node.name

/-- The place that a node can move to. -/
def checkMove (s : Workspace) (id targetId : NodeId) (name : Option String) :
    Except Refusal Placement := do
  let p ← s.checkPlacement .rootMoved id targetId name
  if s.isInside p then throw (.movedIntoItself (s.pathOf p.node.id))
  if p.isSame then return p
  match s.arena.childNamed? p.target p.name with
  | none => return p
  | some existing =>
    if existing.id == p.node.id then return p
    throw (.destinationTaken p.name (s.pathOf p.target.id))

/-- The place that a node can be copied to. -/
def checkCopy (s : Workspace) (id targetId : NodeId) (name : Option String) :
    Except Refusal Placement := do
  let p ← s.checkPlacement .rootCopied id targetId name
  if s.isInside p then throw (.copiedIntoItself (s.pathOf p.node.id))
  s.checkFree p.target p.name
  return p

/-! ## Edits -/

def drawnNode (s : Workspace) (kind : NodeKind) (name : String) (parentId : NodeId)
    (content : String) (now : Timestamp) : Node :=
  let n : Node :=
    { id := drawnNodeId (s.drawn + 1), name := name, kind := kind, modifiedAt := now,
      parentId := some parentId }
  if kind == .file then n.withContent content now else n

/-- Adds a node at the end of a directory. -/
def added (s : Workspace) (n : Node) (parentId : NodeId) (now : Timestamp) : Workspace :=
  { s with
    arena := (s.arena.attach parentId n).stamp parentId now
    drawn := s.drawn + 1 }

/-- Removes a node and everything below it, and closes the tabs of what is removed. -/
def removed (s : Workspace) (n : Node) (parentId : NodeId) (now : Timestamp) : Workspace :=
  let doomed := s.arena.subtreeIds n.id
  { s with
    arena := ((s.arena.detach parentId n.id).stamp parentId now).eraseMany doomed
    tabs := (s.tabs.closeMany doomed).2 }

/-- Gives a node another name in place. -/
def renamed (s : Workspace) (p : Placement) (now : Timestamp) : Workspace :=
  let named := s.arena.modify p.node.id fun n => { n with name := p.name, modifiedAt := now }
  { s with arena := Arena.stamp named p.target.id now }

/-- Takes a node out of its directory and puts it at the end of another, under a name. -/
def moved (s : Workspace) (p : Placement) (oldParentId : NodeId) (now : Timestamp) : Workspace :=
  let n :=
    { p.node with name := p.name, parentId := some p.target.id, modifiedAt := now }
  let left := (s.arena.detach oldParentId n.id).stamp oldParentId now
  { s with arena := (left.attach p.target.id n).stamp p.target.id now }

/-- The id that a node of a copied subtree gets: the ids of a copy are drawn in the order in which
the subtree is visited. -/
def copyId (drawn : Nat) (ids : List NodeId) (id : NodeId) : NodeId :=
  drawnNodeId (drawn + 1 + ids.idxOf id)

/-- The copies of the nodes of a subtree. The top one gets the name and the parent of its place. -/
def copies (s : Workspace) (p : Placement) (now : Timestamp) : List Node :=
  let ids := s.arena.subtreeIds p.node.id
  let copyOf (n : Node) : Node :=
    { n with
      id := copyId s.drawn ids n.id
      name := if n.id == p.node.id then p.name else n.name
      parentId :=
        if n.id == p.node.id then some p.target.id else n.parentId.map (copyId s.drawn ids)
      children := n.children.map (copyId s.drawn ids)
      modifiedAt := now }
  (ids.filterMap s.arena.get?).map copyOf

/-- Adds a copy of a subtree at the end of a directory. -/
def copied (s : Workspace) (p : Placement) (now : Timestamp) : Workspace :=
  let nodes := s.copies p now
  let filled := s.arena.insertMany (nodes.map fun n => (n.id, n))
  let top := copyId s.drawn (s.arena.subtreeIds p.node.id) p.node.id
  { s with
    arena := (Arena.adopt filled p.target.id top).stamp p.target.id now
    drawn := s.drawn + nodes.length }

def refilled (s : Workspace) (id : NodeId) (content : String) (now : Timestamp) : Workspace :=
  { s with arena := s.arena.modify id fun n => n.withContent content now }

def touched (s : Workspace) (id : NodeId) (now : Timestamp) : Workspace :=
  { s with arena := s.arena.stamp id now }

def marked (s : Workspace) (id : NodeId) (changes : NodeUpdate) : Workspace :=
  { s with arena := s.arena.modify id fun n => { n with marks := changes.marks n.marks } }

def closeAllTabs (s : Workspace) : Workspace := { s with tabs := s.tabs.closeAll }

/-- Closes a tab. Whether it was open is returned. -/
def closeTab (s : Workspace) (id : NodeId) : Bool × Workspace :=
  let (wasOpen, tabs) := s.tabs.close id
  (wasOpen, { s with tabs := tabs })

/-- Opens a file in a tab, or makes its tab active. -/
def openTab (s : Workspace) (id : NodeId) : Except Refusal (Node × Workspace) := do
  let n ← s.requireFile id
  return (n, { s with tabs := s.tabs.opened n.id })

/-- Frees a workspace from the disk; its tree stays as it is. -/
def unbound (s : Workspace) : Workspace := { s with boundRoot := none }

end Workbench.Workspace
