import Workbench.Proofs.Arena.Visit

/-!
# Pre-order

A visit works off a stack. In a tree it meets the nodes in the order of the recursion all the same:
a node, then its children one after another, each with everything below it (`preorder?`). The visit
spans its stack by the same recursion, with what is left on the stack generalized
(`Spans.flatten_preorder?`); so what a subtree is can be said child by child (`IsTree.subtree_eq`),
and in it every node comes after its parent (`IsTree.parent_of_subtree`).
-/

namespace Workbench.Arena

/-- The ids of a node and everything below it, by recursion into the children. -/
def preorder? (a : Arena) (id : NodeId) : Option (List NodeId) :=
  a.fold? (fun id _ below => id :: below.flatten) id

variable {a : Arena} {x : NodeId} {n : Node} {stack out : List NodeId}

/-- What a stack spans is what the recursion finds from each of its nodes. -/
theorem Spans.flatten_preorder? (hs : Spans a stack out) (h : a.IsTree) :
    (stack.filterMap a.preorder?).flatten = out := by
  induction hs with
  | nil => rfl
  | @cons id n rest below after hn _ _ ihb iha =>
    have hid : a.preorder? id = some (id :: (n.children.filterMap a.preorder?).flatten) :=
      h.fold?_eq hn
    rw [List.filterMap_cons_some hid, List.flatten_cons, ihb, iha, List.cons_append]

namespace IsTree

/-- The visit of a subtree yields what the recursion yields. -/
theorem preorder?_eq (h : a.IsTree) (hn : a.get? x = some n) :
    a.preorder? x = some (a.subtreeIds x) := by
  have hx : a.preorder? x = some (x :: (n.children.filterMap a.preorder?).flatten) := h.fold?_eq hn
  have hs := (h.spans_subtreeIds hn).2.flatten_preorder? h
  rw [List.filterMap_cons_some hx, List.filterMap_nil, List.flatten_singleton] at hs
  rw [hx, hs]

/-- The ids of a subtree are its top and then those of the subtrees of the children. -/
theorem subtreeIds_eq (h : a.IsTree) (hn : a.get? x = some n) :
    a.subtreeIds x = x :: n.children.flatMap a.subtreeIds := by
  have hbelow : n.children.filterMap a.preorder? = n.children.map a.subtreeIds :=
    h.filterMap_children hn h.preorder?_eq
  have hx : a.preorder? x = some (x :: (n.children.filterMap a.preorder?).flatten) := h.fold?_eq hn
  rw [h.preorder?_eq hn, hbelow, ← List.flatMap_def] at hx
  exact Option.some.inj hx

/-- The nodes of a subtree are its top and then those of the subtrees of the children. -/
theorem subtree_eq (h : a.IsTree) (hn : a.get? x = some n) :
    a.subtree x = n :: n.children.flatMap a.subtree := by
  rw [subtree, h.subtreeIds_eq hn, List.filterMap_cons_some hn, List.filterMap_flatMap]
  rfl

/-- Every node of a subtree but its top comes after its parent. -/
theorem parent_of_subtree (h : a.IsTree) (hn : a.get? x = some n) {before after : List Node}
    {m : Node} (he : a.subtree x = before ++ m :: after) :
    m.id = x ∨ ∃ p ∈ before, m.parentId = some p.id := by
  have hids := (h.map_id_subtree hn).symm
  rw [he, List.map_append, List.map_cons] at hids
  rcases h.parent_of_spans (h.spans_subtreeIds hn).2 hids with hx | ⟨p, hp, k, hk, hkp⟩
  · exact .inl (List.mem_singleton.1 hx)
  · obtain ⟨d, hd, rfl⟩ := List.mem_map.1 hp
    have hmem : m ∈ a.subtree x := he ▸ List.mem_append_right before List.mem_cons_self
    have hm := h.get?_of_mem_subtree hmem
    obtain rfl := Option.some.inj (hm.symm.trans hk)
    exact .inr ⟨d, hd, hkp⟩

end IsTree

end Workbench.Arena
