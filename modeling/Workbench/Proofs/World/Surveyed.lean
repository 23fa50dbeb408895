import Mathlib.Algebra.Ring.Int.Defs
import Workbench.Proofs.Arena.Preorder
import Workbench.Proofs.World.Consistent
import Workbench.Proofs.World.Relocated
import Workbench.Service.Body

/-!
# Surveys of the tree

The list of what lies below a node, its size, the first file of a name and the nested outline of the
tree are all read off the visit of a subtree. What they have in common is its order: each node
before what is below it, and the children one after another (`Workspace.Walked`). Read from the
root, it tells the whole tree (`Workspace.Surveyed`).

The outline is made by recursion and not by a visit. Its entries come in the order of the visit when
they are read as they are nested (`Service.Nested`).
-/

namespace Workbench

/-! ## Nested bodies -/

/-- The ids and paths of nested bodies, each before those of the bodies in its list of children. -/
inductive Service.Nested : List Json → List (NodeId × String) → Prop
  | nil : Nested [] []
  | cons {b : Json} {rest inner : List Json} {id : NodeId} {path : String}
      {below after : List (NodeId × String)} (hid : b.field? "id" = some (.str id))
      (hpath : b.field? "path" = some (.str path))
      (hinner : b.field? "children" = some (.arr inner)) (hb : Nested inner below)
      (ha : Nested rest after) : Nested (b :: rest) ((id, path) :: (below ++ after))

namespace Workspace

variable {s : Workspace} {x : NodeId} {n : Node} {stack out : List NodeId}

/-- The outlines of what is on a stack are nested in the order of its visit. -/
theorem nested_outlines (h : s.arena.IsTree) (hs : s.arena.Spans stack out) :
    Service.Nested
      (Service.outlineBodies (stack.filterMap
        (s.arena.fold? fun id n below => .entry n (s.pathOf id) below)))
      ((out.filterMap s.arena.get?).map fun n => (n.id, s.pathOf n.id)) := by
  induction hs with
  | nil => exact .nil
  | @cons id n rest below after hn _ _ ihb iha =>
    rw [List.filterMap_cons_some (h.fold?_eq hn), List.filterMap_cons_some hn,
      List.filterMap_append, List.map_cons, List.map_append, Service.outlineBodies,
      Service.outlineBody, h.keyed hn]
    refine .cons ?_ rfl rfl ihb iha
    rw [← h.keyed hn]
    rfl

/-! ## What a visit tells -/

/-- What lies at or below a node, as a visit tells it. -/
structure Walked (s : Workspace) (x : NodeId) (n : Node) : Prop where
  /-- The visit ends, and takes no more steps than there are nodes. -/
  visited : s.arena.visitFrom x = .ok (s.arena.subtreeIds x)
  steps : ∀ fuel, (s.arena.subtreeIds x).length ≤ fuel →
    s.arena.visit fuel [x] [] = .ok (s.arena.subtreeIds x)
  /-- Its order is that of the recursion into the children. -/
  preorder : s.arena.preorder? x = some (s.arena.subtreeIds x)
  unfolds : s.arena.subtreeIds x = x :: n.children.flatMap s.arena.subtreeIds
  /-- It meets what the lists of children lead to, and nothing twice. -/
  met : ∀ y, y ∈ s.arena.subtreeIds x ↔ Relation.ReflTransGen s.ListsChild x y
  once : (s.arena.subtreeIds x).Nodup
  /-- The nodes are listed in its order, as they are stored. -/
  ids : (s.walk x).map Node.id = s.arena.subtreeIds x
  nodes : ∀ m ∈ s.walk x, s.node? m.id = some m
  /-- Every node but the first comes after its parent. -/
  parentsFirst : ∀ before m after, s.walk x = before ++ m :: after →
    m.id = x ∨ ∃ p ∈ before, m.parentId = some p.id
  /-- The size is that of the node and the sizes of what is below its children. -/
  size : s.subtreeSize x = n.size + (n.children.map s.subtreeSize).sum

theorem subtreeSize_eq_sum (s : Workspace) (x : NodeId) :
    s.subtreeSize x = ((s.walk x).map Node.size).sum := rfl

theorem walked (h : s.arena.IsTree) (hn : s.node? x = some n) : s.Walked x n := by
  obtain ⟨hvisit, hspans⟩ := h.spans_subtreeIds hn
  refine ⟨hvisit, fun _ hf => Arena.visit_of_spans_self hspans hf, h.preorder?_eq hn,
    h.subtreeIds_eq hn, fun y => ?_, h.nodup_subtreeIds hn, h.map_id_subtree hn,
    fun _ hm => h.get?_of_mem_subtree hm, fun _ _ _ he => h.parent_of_subtree hn he, ?_⟩
  · rw [listsChild_eq h]
    exact h.mem_subtreeIds_iff hn
  · have hwalk : s.walk x = n :: n.children.flatMap s.walk := h.subtree_eq hn
    rw [subtreeSize_eq_sum, hwalk, List.map_cons, List.sum_cons, List.map_flatMap,
      List.flatMap_def, List.sum_flatten, List.map_map]
    rfl

/-- The whole tree, as the visit from the root tells it. -/
structure Surveyed (s : Workspace) : Prop where
  /-- Every node is listed once. -/
  all : ((s.walk rootId).map Node.id).Perm s.arena.keys
  /-- The entries of the snapshot are the nodes with their paths, nested in the order of the list,
  and their number is told. -/
  snapshot : ∃ top, (Service.snapshotBody s).field? "root" = some top ∧
    Service.Nested [top] ((s.walk rootId).map fun n => (n.id, s.pathOf n.id)) ∧
    (Service.snapshotBody s).field? "node_count" = some (.ofNat (s.walk rootId).length)
  /-- A name finds the first file in the list that has it, -/
  found : ∀ name m, s.findByName? name = some m ↔ ∃ before after,
    s.walk rootId = before ++ m :: after ∧ m.isFile = true ∧ m.name = name ∧
      ∀ k ∈ before, k.isFile = true → k.name ≠ name
  /-- and nothing only when no file has it. -/
  missed : ∀ name, s.findByName? name = none ↔
    ∀ id m, s.node? id = some m → m.isFile = true → m.name ≠ name

theorem mem_walk_iff (h : s.arena.IsTree) {m : Node} :
    m ∈ s.walk rootId ↔ s.node? m.id = some m := by
  obtain ⟨r, hr, -⟩ := h.root
  refine ⟨h.get?_of_mem_subtree, fun hm => List.mem_filterMap.2 ⟨m.id, ?_, hm⟩⟩
  exact (h.mem_subtreeIds_iff hr).2 (h.reached hm)

theorem perm_walk (h : s.arena.IsTree) : ((s.walk rootId).map Node.id).Perm s.arena.keys := by
  obtain ⟨r, hr, -⟩ := h.root
  have hids : (s.walk rootId).map Node.id = s.arena.subtreeIds rootId := h.map_id_subtree hr
  rw [hids]
  refine (List.perm_ext_iff_of_nodup (h.nodup_subtreeIds hr) s.arena.nodup).2 fun id => ?_
  rw [h.mem_subtreeIds_iff hr]
  refine ⟨fun hb => Table.mem_keys_iff.2 (hb.exists_node hr), fun hid => ?_⟩
  obtain ⟨n, hn⟩ := Table.mem_keys_iff.1 hid
  exact h.reached hn

theorem exists_snapshot (h : s.arena.IsTree) :
    ∃ top, (Service.snapshotBody s).field? "root" = some top ∧
      Service.Nested [top] ((s.walk rootId).map fun n => (n.id, s.pathOf n.id)) := by
  obtain ⟨r, hr, -⟩ := h.root
  have houtline : s.outline? = some _ := h.fold?_eq hr
  have hroot : (Service.snapshotBody s).field? "root" =
      some ((s.outline?.map Service.outlineBody).getD .null) := rfl
  rw [houtline] at hroot
  refine ⟨_, hroot, ?_⟩
  have hnested := nested_outlines h (h.spans_subtreeIds hr).2
  rw [List.filterMap_cons_some (h.fold?_eq hr)] at hnested
  exact hnested

/-- The first file of a name. -/
theorem findByName?_eq_some_iff {name : String} {m : Node} : s.findByName? name = some m ↔
    ∃ before after, s.walk rootId = before ++ m :: after ∧ m.isFile = true ∧ m.name = name ∧
      ∀ k ∈ before, k.isFile = true → k.name ≠ name := by
  rw [findByName?, List.find?_eq_some_iff_append]
  simp only [Bool.and_eq_true, beq_iff_eq, Bool.not_eq_true', Bool.and_eq_false_imp,
    beq_eq_false_iff_ne, ne_eq]
  constructor
  · rintro ⟨⟨hf, hname⟩, before, after, hwalk, hbefore⟩
    exact ⟨before, after, hwalk, hf, hname, hbefore⟩
  · rintro ⟨before, after, hwalk, hf, hname, hbefore⟩
    exact ⟨⟨hf, hname⟩, before, after, hwalk, hbefore⟩

theorem findByName?_eq_none_iff (h : s.arena.IsTree) {name : String} :
    s.findByName? name = none ↔
      ∀ id m, s.node? id = some m → m.isFile = true → m.name ≠ name := by
  rw [findByName?, List.find?_eq_none]
  constructor
  · intro hnone id m hm hf hname
    obtain rfl := h.keyed hm
    exact hnone m ((mem_walk_iff h).2 hm) (by simp [hf, hname])
  · intro hall m hm hfound
    rw [Bool.and_eq_true, beq_iff_eq] at hfound
    exact hall m.id m ((mem_walk_iff h).1 hm) hfound.1 hfound.2

theorem surveyed (h : s.arena.IsTree) : s.Surveyed where
  all := perm_walk h
  snapshot := by
    obtain ⟨top, htop, hnested⟩ := exists_snapshot h
    have hsize : (s.walk rootId).length = s.arena.size := by
      rw [← Table.length_keys, ← (perm_walk h).length_eq, List.length_map]
    refine ⟨top, htop, hnested, ?_⟩
    rw [hsize]
    rfl
  found _ _ := findByName?_eq_some_iff
  missed _ := findByName?_eq_none_iff h

end Workspace

namespace World

variable {σ : Type}

/-- In every workspace that is reached, every visit ends and goes in pre-order, and what is read off
it is right of the node where it starts and, from the root, of the whole tree. -/
theorem surveyed_of_reachable {w : World σ} (hw : w.Reachable) :
    (∀ x n, w.space.node? x = some n → w.space.Walked x n) ∧ w.space.Surveyed :=
  ⟨fun _ _ hn => Workspace.walked hw.sound.tree hn, Workspace.surveyed hw.sound.tree⟩

/-- The file of the first directory was made after the second directory. It comes before it in the
list and in the snapshot. -/
theorem surveyed_nested :
    nestedWorld.space.arena.keys = [rootId, "n1", "n2", "n3"] ∧
      (nestedWorld.space.walk rootId).map Node.id = [rootId, "n1", "n3", "n2"] ∧
      nestedWorld.space.subtreeSize "n1" = 4 ∧
      ∃ top, (Service.snapshotBody nestedWorld.space).field? "root" = some top ∧
        Service.Nested [top] [(rootId, "/"), ("n1", "/a"), ("n3", "/a/c"), ("n2", "/b")] := by
  obtain ⟨hwalked, hsurveyed⟩ := surveyed_of_reachable reachable_nestedWorld
  have hplaces : (nestedWorld.space.walk rootId).map
      (fun n => (n.id, nestedWorld.space.pathOf n.id)) =
        [(rootId, "/"), ("n1", "/a"), ("n3", "/a/c"), ("n2", "/b")] := by decide +kernel
  obtain ⟨top, htop, hnested, -⟩ := hsurveyed.snapshot
  rw [hplaces] at hnested
  refine ⟨by decide +kernel, by decide +kernel, ?_, top, htop, hnested⟩
  have hn : (nestedWorld.space.node? "n1").map (fun n => (n.size, n.children)) =
      some (0, ["n3"]) := by decide +kernel
  obtain ⟨n, hn, he⟩ := Option.map_eq_some_iff.1 hn
  obtain ⟨hsize, hchildren⟩ := Prod.mk.inj he
  rw [(hwalked _ n hn).size, hsize, hchildren]
  decide +kernel

end World

end Workbench
