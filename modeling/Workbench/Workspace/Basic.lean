import Workbench.Arena
import Workbench.Refusal
import Workbench.Tabs

/-!
# Workspaces

The node tree with the tab bar over it. A workspace is either free, and then its tree is all there
is, or bound to a directory of a disk, and then its tree shows what the disk holds below it.

The questions that a workspace answers are here; they never change it.
-/

namespace Workbench

/-- A node tree and its tabs. -/
structure Workspace where
  /-- The path that a leading tilde stands for. -/
  home : String
  arena : Arena
  tabs : Tabs := {}
  /-- The directory of the disk that the workspace is bound to. -/
  boundRoot : Option String := none
  /-- The number of node ids drawn so far. -/
  drawn : Nat := 0
  deriving DecidableEq

namespace Workspace

def new (home : String) (now : Timestamp) : Workspace := { home := home, arena := .new now }

def node? (s : Workspace) (id : NodeId) : Option Node := s.arena.get? id

def directory? (s : Workspace) (id : NodeId) : Option Node :=
  (s.node? id).filter Node.isDirectory

/-- The node that a path names, seen from a working directory. -/
def resolve? (s : Workspace) (path cwd : String) : Option Node := s.arena.resolve? s.home path cwd

def pathOf (s : Workspace) (id : NodeId) : String := s.arena.pathOf id

def pathOf? (s : Workspace) (id : NodeId) : Option String := (s.node? id).map fun _ => s.pathOf id

def parent? (s : Workspace) (id : NodeId) : Option Node :=
  ((s.node? id).bind Node.parentId).bind s.node?

/-- The children of a directory in order; a file has none. -/
def children (s : Workspace) (n : Node) : List Node :=
  if n.isDirectory then s.arena.childrenOf n else []

def childrenOf (s : Workspace) (id : NodeId) : List Node := ((s.node? id).map s.children).getD []

/-- The children of the directory that a path or else an id names. -/
def listing (s : Workspace) (target cwd : String) : List Node :=
  (((s.resolve? target cwd).or (s.node? target)).map s.children).getD []

/-- A node and everything below it, each before its children. -/
def walk (s : Workspace) (id : NodeId) : List Node := s.arena.subtree id

def findByName? (s : Workspace) (name : String) : Option Node :=
  (s.walk rootId).find? fun n => n.isFile && n.name == name

def subtreeSize (s : Workspace) (id : NodeId) : Int := ((s.walk id).map Node.size).foldr Int.add 0

/-- A tab as the tab bar shows it. -/
structure TabView where
  id : NodeId
  title : String
  path : String
  active : Bool
  deriving DecidableEq, Repr

/-- The tab bar, with titles and paths as they are now. -/
def tabViews (s : Workspace) : List TabView :=
  s.tabs.openIds.filterMap fun id => (s.node? id).map fun n =>
    ⟨n.id, n.name, s.pathOf n.id, s.tabs.activeId == some n.id⟩

def activeNode? (s : Workspace) : Option Node := s.tabs.activeId.bind s.node?

/-! ## Outline -/

/-- A node with everything below it nested inside. -/
inductive Outline where
  | entry (node : Node) (path : String) (below : List Outline)

def outline? (s : Workspace) : Option Outline :=
  s.arena.fold? (fun id n below => .entry n (s.pathOf id) below) rootId

end Workspace

end Workbench
