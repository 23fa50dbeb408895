import Workbench.Workspace.Basic

/-!
# Checking a workspace

What can be wrong with a tree and its tabs. The check looks at every node by itself, then at what
can be reached from the root, then at the tabs, and reports each flaw in this order.
-/

namespace Workbench.Workspace

/-- What can be wrong with a workspace. -/
inductive Flaw where
  | rootMissing
  | rootHasParent
  | storedUnder (key id : NodeId)
  | danglingParent (key : NodeId) (parentId : Option NodeId)
  | fileParent (key : NodeId)
  | notListedOnce (parentId key : NodeId)
  | fileHasChildren (key : NodeId)
  | wrongSize (key : NodeId)
  | duplicateNames (key : NodeId)
  | missingChild (key childId : NodeId)
  | strayChild (childId key : NodeId) (parentId : Option NodeId)
  | unreachable (count : Nat)
  | tabs (flaw : Tabs.Flaw)
  | deletedTab (id : NodeId)
  deriving DecidableEq, Repr

def parentText : Option NodeId → String
  | some id => id
  | none => "None"

def Flaw.message : Flaw → String
  | rootMissing => "Root node is missing"
  | rootHasParent => "Root node has a parent"
  | storedUnder key id => "Node stored under " ++ key ++ " has id " ++ id
  | danglingParent key p => "Node " ++ key ++ " has dangling parent " ++ parentText p
  | fileParent key => "Node " ++ key ++ " has a file as parent"
  | notListedOnce p key => "Parent " ++ p ++ " does not list " ++ key ++ " exactly once"
  | fileHasChildren key => "File " ++ key ++ " has children"
  | wrongSize key => "File " ++ key ++ " size does not match content"
  | duplicateNames key => "Directory " ++ key ++ " has duplicate child names"
  | missingChild key child => "Directory " ++ key ++ " lists missing child " ++ child
  | strayChild child key p => "Child " ++ child ++ " of " ++ key ++ " points to " ++ parentText p
  | unreachable count => toString count ++ " node(s) unreachable from root (cycle or orphan)"
  | tabs flaw => flaw.message
  | deletedTab id => "Tab references deleted node " ++ id

/-- A flaw, if a condition holds. -/
def flawIf (condition : Bool) (flaw : Flaw) : List Flaw := if condition then [flaw] else []

/-- The flaws of a node in relation to its parent. -/
def parentFlaws (s : Workspace) (key : NodeId) (n : Node) : List Flaw :=
  if key == rootId then []
  else
    match (n.parentId.filter fun p => !p.isEmpty).bind s.node? with
    | none => [.danglingParent key n.parentId]
    | some p =>
      if !p.isDirectory then [.fileParent key]
      else flawIf (p.children.count key != 1) (.notListedOnce p.id key)

def contentFlaws (key : NodeId) (n : Node) : List Flaw :=
  if n.isFile then
    flawIf (!n.children.isEmpty) (.fileHasChildren key) ++
      flawIf (n.size != n.content.utf8ByteSize) (.wrongSize key)
  else []

/-- The flaws of a node in relation to one child that it lists. -/
def childFlaws (s : Workspace) (key childId : NodeId) : List Flaw :=
  match s.node? childId with
  | none => [.missingChild key childId]
  | some c => flawIf (c.parentId != some key) (.strayChild childId key c.parentId)

def nodeFlaws (s : Workspace) (key : NodeId) (n : Node) : List Flaw :=
  flawIf (n.id != key) (.storedUnder key n.id) ++ s.parentFlaws key n ++ contentFlaws key n ++
    flawIf (!Tabs.distinct ((s.arena.childrenOf n).map Node.name)) (.duplicateNames key) ++
    n.children.flatMap (s.childFlaws key)

def tabFlaws (s : Workspace) : List Flaw :=
  s.tabs.flaws.map .tabs ++
    (s.tabs.openIds.filter fun id => !s.arena.contains id).map .deletedTab

/-- Every flaw of a workspace. The check itself fails where the tree cannot be visited from its
root. -/
def flaws (s : Workspace) : Except Arena.VisitError (List Flaw) :=
  match s.node? rootId with
  | none => .ok [.rootMissing]
  | some root =>
    match s.arena.visitFrom rootId with
    | .error e => .error e
    | .ok reached =>
      let lost := s.arena.keys.filter fun k => !reached.contains k
      .ok <| flawIf root.parentId.isSome .rootHasParent ++
        s.arena.entries.flatMap (fun e => s.nodeFlaws e.1 e.2) ++
        flawIf (!lost.isEmpty) (.unreachable lost.length) ++ s.tabFlaws

end Workbench.Workspace
