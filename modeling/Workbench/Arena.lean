import Workbench.Node
import Workbench.Path
import Workbench.Table

/-!
# Arenas of nodes

A collection of nodes under their ids. An arena need not be a tree: ids may be missing, children
may be listed twice, and parents may go in circles. The functions here therefore say what they do
on every arena; on one that is a tree they are the usual ones.

`subtreeIds` visits a subtree with an explicit stack. `fold` recurses from a node into its
children, as deep as the arena has nodes.
-/

namespace Workbench

abbrev Arena := Table NodeId Node

namespace Arena

def new (now : Timestamp) : Arena := Table.empty.insert rootId (.newRoot now)

/-- The nodes that a node lists as children, in order. Missing ones are left out. -/
def childrenOf (a : Arena) (n : Node) : List Node := n.children.filterMap a.get?

/-- The first child with a name. -/
def childNamed? (a : Arena) (directory : Node) (name : String) : Option Node :=
  (a.childrenOf directory).find? fun c => c.name == name

/-- The names from below the root to a node, found by climbing at most `fuel` steps. -/
def climb (a : Arena) : Nat → Node → List String → List String
  | 0, _, names => names
  | fuel + 1, n, names =>
    match n.parentId with
    | none => names
    | some p =>
      match a.get? p with
      | none => n.name :: names
      | some parent => climb a fuel parent (n.name :: names)

/-- The names on the way from the root to a node. -/
def namesTo (a : Arena) (id : NodeId) : List String :=
  match a.get? id with
  | some n => a.climb a.size n []
  | none => []

def pathOf (a : Arena) (id : NodeId) : String := Path.ofNames (a.namesTo id)

/-- Follows the pieces of a route from a node. A single dot asks for a directory and stays there,
two dots go to the parent (the root is its own), and an empty piece stays where it is. -/
def follow? (a : Arena) : List String → Node → Option Node
  | [], n => some n
  | p :: rest, n =>
    if p.isEmpty then a.follow? rest n
    else if !n.isDirectory then none
    else if p == "." then a.follow? rest n
    else if p == ".." then
      match n.parentId.bind a.get? with
      | some parent => a.follow? rest parent
      | none => a.follow? rest n
    else
      match a.childNamed? n p with
      | some c => a.follow? rest c
      | none => none

/-- The node that a path names, seen from a working directory. -/
def resolve? (a : Arena) (home path cwd : String) : Option Node :=
  (a.get? rootId).bind (a.follow? (Path.route home path cwd))

/-! ## Visiting a subtree -/

inductive VisitError where
  /-- A listed node is missing. -/
  | missing (id : NodeId)
  /-- The visit runs in a circle and never ends. -/
  | endless
  deriving DecidableEq, Repr

/-- Visits what is on the stack, each node before its children. The visited ids are kept last
first. -/
def visit (a : Arena) : Nat → List NodeId → List NodeId → Except VisitError (List NodeId)
  | _, [], seen => .ok seen.reverse
  | 0, _ :: _, _ => .error .endless
  | fuel + 1, id :: stack, seen =>
    match a.get? id with
    | none => .error (.missing id)
    | some n => visit a fuel (n.children ++ stack) (id :: seen)

/-- More steps than any visit without a circle takes: the nodes of a way down are distinct, and at
each of them there are at most as many ways on as the arena lists children. -/
def visitBound (a : Arena) : Nat :=
  Nat.pow ((a.values.map fun n => n.children.length).foldr Nat.add 0 + 2) (a.size + 1)

/-- The ids of a node and everything below it, each before its children. -/
def visitFrom (a : Arena) (id : NodeId) : Except VisitError (List NodeId) :=
  a.visit a.visitBound [id] []

/-- The ids that a visit yields, or none if it fails. -/
def subtreeIds (a : Arena) (id : NodeId) : List NodeId :=
  match a.visitFrom id with
  | .ok ids => ids
  | .error _ => []

def subtree (a : Arena) (id : NodeId) : List Node := (a.subtreeIds id).filterMap a.get?

/-- Recurses from a node into its children at most `fuel` levels deep. -/
def foldDown {β : Type} (a : Arena) (f : NodeId → Node → List β → β) : Nat → NodeId → Option β
  | 0, _ => none
  | fuel + 1, id =>
    (a.get? id).map fun n => f id n (n.children.filterMap (foldDown a f fuel))

/-- Recurses from a node into its children: the value of a node is made from the values of its
children. -/
def fold? {β : Type} (a : Arena) (f : NodeId → Node → List β → β) (id : NodeId) : Option β :=
  a.foldDown f a.size id

def height (a : Arena) (id : NodeId) : Nat :=
  (a.fold? (fun _ _ below => (below.map (· + 1)).foldl max 0) id).getD 0

/-- Whether the first id is met when climbing from the second to the root. -/
def isAncestorFrom (a : Arena) (top : NodeId) : Nat → NodeId → Bool
  | 0, _ => false
  | fuel + 1, id =>
    match (a.get? id).bind Node.parentId with
    | none => false
    | some p => p == top || isAncestorFrom a top fuel p

/-- Whether the first node lies strictly above the second. -/
def isAncestor (a : Arena) (top id : NodeId) : Bool := a.isAncestorFrom top (a.size + 1) id

/-! ## Changing nodes -/

/-- Lists an id at the end of the children of a node. -/
def adopt (a : Arena) (parentId id : NodeId) : Arena :=
  a.modify parentId fun p => { p with children := p.children ++ [id] }

/-- Stores a node and lists it at the end of the children of its parent. -/
def attach (a : Arena) (parentId : NodeId) (n : Node) : Arena :=
  Arena.adopt (a.insert n.id n) parentId n.id

def detach (a : Arena) (parentId id : NodeId) : Arena :=
  a.modify parentId fun p => { p with children := p.children.erase id }

def stamp (a : Arena) (id : NodeId) (now : Timestamp) : Arena :=
  a.modify id fun n => { n with modifiedAt := now }

end Arena

end Workbench
