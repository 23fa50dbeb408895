import Workbench.Disk.Bridge
import Workbench.Workspace.Basic

/-!
# Rebuilding the tree from a listing

A bound workspace shows what the disk holds, so after every change its tree is built anew from a
listing. What persists is the identity of nodes: an entry gets the id of the node that was at its
place, if that node was of the same kind, and with the id the marks of that node. Nodes that are
on their way to another place carry their ids there.
-/

namespace Workbench.Workspace

/-- The ids of nodes on their way, each with the names that lead to its new place. -/
abbrev Carried := List (List String × NodeId)

/-- The places of a subtree after its top has moved to a place. -/
def carriedTo (s : Workspace) (id : NodeId) (place : List String) : Carried :=
  let above := (s.arena.namesTo id).length
  (s.arena.subtreeIds id).map fun i => (place ++ (s.arena.namesTo i).drop above, i)

/-- What is known of the nodes before a rebuilding. -/
structure Known where
  /-- The node that belongs to a place. -/
  idAt : List (List String × NodeId)
  arena : Arena

/-- The last id that is given for a place. -/
def lastAt? (place : List String) : List (List String × NodeId) → Option NodeId
  | [] => none
  | (p, id) :: rest => (lastAt? place rest).or (if p == place then some id else none)

/-- Every node at its place, except that carried nodes are at the places that they go to. -/
def known (s : Workspace) (carried : Carried) : Known where
  idAt :=
    (s.arena.keys.map fun id => (s.arena.namesTo id, id)).filter
      (fun e => !(carried.map Prod.snd).contains e.2) ++ carried
  arena := s.arena

/-- Nothing, for a tree that is new. -/
def Known.nothing : Known := ⟨[], .empty⟩

/-- The node that belongs to a place, if it is of a kind. -/
def Known.node? (k : Known) (place : List String) (kind : NodeKind) : Option Node :=
  (((lastAt? place k.idAt)).bind k.arena.get?).filter fun n => n.kind == kind

/-- A tree on the way, with the number of ids drawn so far. -/
structure Loading where
  arena : Arena
  drawn : Nat

/-- The id and the marks that an entry gets. An id that is in use already is not given again. -/
def Loading.identity (l : Loading) (k : Known) (place : List String) (kind : NodeKind) :
    NodeId × Marks × Nat :=
  match (k.node? place kind).filter fun n => !l.arena.contains n.id with
  | some n => (n.id, n.marks, l.drawn)
  | none => (drawnNodeId (l.drawn + 1), {}, l.drawn + 1)

/-- The node of an entry, not counting what lies below it. -/
def entryNode (id parentId : NodeId) (marks : Marks) : DiskEntry → Node
  | .file name content _ modifiedAt =>
    { id := id, name := name, kind := .file, content := content, size := content.utf8ByteSize,
      modifiedAt := modifiedAt, parentId := some parentId, marks := marks }
  | .directory name modifiedAt _ =>
    { id := id, name := name, kind := .directory, modifiedAt := modifiedAt,
      parentId := some parentId, marks := marks }

/-- Adds the node of an entry at the end of a directory. Its id is returned. -/
def Loading.add (l : Loading) (k : Known) (parentId : NodeId) (place : List String)
    (e : DiskEntry) : NodeId × Loading :=
  let (id, marks, drawn) := l.identity k place e.kind
  (id, ⟨l.arena.attach parentId (entryNode id parentId marks e), drawn⟩)

mutual

/-- Adds an entry and everything below it to a directory whose place is known. -/
def loadEntry (k : Known) (parentId : NodeId) (above : List String) :
    DiskEntry → Loading → Loading
  | .file name content size modifiedAt, l =>
    (l.add k parentId (above ++ [name]) (.file name content size modifiedAt)).2
  | .directory name modifiedAt children, l =>
    let place := above ++ [name]
    let (id, l) := l.add k parentId place (.directory name modifiedAt children)
    loadEntries k id place children l

/-- Adds entries in order. -/
def loadEntries (k : Known) (parentId : NodeId) (above : List String) :
    List DiskEntry → Loading → Loading
  | [], l => l
  | e :: rest, l => loadEntries k parentId above rest (loadEntry k parentId above e l)

end

/-- The tree of a listing under a root that is made anew. -/
def loaded (k : Known) (entries : List DiskEntry) (drawn : Nat) (now : Timestamp) : Loading :=
  loadEntries k rootId [] entries ⟨.new now, drawn⟩

/-- The workspace with the tree of a listing. Tabs of nodes that are gone are closed. -/
def rebuilt (s : Workspace) (entries : List DiskEntry) (carried : Carried) (now : Timestamp) :
    Workspace :=
  let l := loaded (s.known carried) entries s.drawn now
  { s with
    arena := l.arena
    drawn := l.drawn
    tabs := (s.tabs.closeMany (s.tabs.openIds.filter fun id => !l.arena.contains id)).2 }

/-- The workspace bound to a root, with the tree of its listing and without tabs. -/
def bound (s : Workspace) (root : String) (entries : List DiskEntry) (now : Timestamp) :
    Workspace :=
  let l := loaded .nothing entries s.drawn now
  { s with arena := l.arena, drawn := l.drawn, tabs := s.tabs.closeAll, boundRoot := some root }

end Workbench.Workspace
