import Workbench.Proofs.World.Copied

/-!
# Copies made from node to node

A copy reads all nodes of a subtree before it stores their twins (`Workspace.copied`). A clone goes
from node to node instead: the twin of a node is stored as soon as its id is drawn, without
children, and each twin of a child is listed with it when all below that child has been copied
(`Workspace.clone`). Both draw the same ids for the same nodes and leave the same workspace
(`Workspace.cloned_eq_copied`). That the clone reads no node that it has made itself rests on the
ids: none of those that are drawn belongs to a node.
-/

namespace Workbench

namespace Workspace

/-! ## The clone -/

/-- Copies a child of a node whose twin is stored, and lists the twin of the child there. -/
def cloneChild (clone : NodeId → NodeId → String → Workspace → Option (NodeId × Workspace))
    (twin : NodeId) (s : Workspace) (id : NodeId) : Option Workspace :=
  (s.node? id).bind fun child => (clone id twin child.name s).map fun made =>
    { made.2 with arena := Arena.adopt made.2.arena twin made.1 }

/-- Copies what is at or below a node, unless one of the nodes is missing or the fuel does not last
for all of them. The id of the twin is returned. The twin has a parent and a name, but the parent
does not list it yet. -/
def clone (now : Timestamp) :
    Nat → NodeId → NodeId → String → Workspace → Option (NodeId × Workspace)
  | 0, _, _, _, _ => none
  | fuel + 1, id, parentId, name, s => (s.node? id).bind fun source =>
    let twin := drawnNodeId (s.drawn + 1)
    let node : Node :=
      { source with
        id := twin, name := name, parentId := some parentId, children := [], modifiedAt := now }
    let stored := { s with arena := s.arena.insert twin node, drawn := s.drawn + 1 }
    (source.children.foldlM (cloneChild (clone now fuel) twin) stored).map fun s => (twin, s)

/-- Adds a clone of a subtree at the end of a directory. -/
def cloned (s : Workspace) (p : Placement) (now : Timestamp) : Option Workspace :=
  (clone now s.arena.size p.node.id p.target.id p.name s).map fun made =>
    { made.2 with arena := (Arena.adopt made.2.arena p.target.id made.1).stamp p.target.id now }

/-! ## Nodes that are stored and listed -/

/-- Nodes stored under the ids that are drawn for them. -/
def storing (s : Workspace) (nodes : List Node) : Workspace :=
  { s with
    arena := s.arena.insertMany (nodes.map fun n => (n.id, n))
    drawn := s.drawn + nodes.length }

/-- More ids at the end of the children of a node. -/
def adopting (s : Workspace) (id : NodeId) (children : List NodeId) : Workspace :=
  { s with arena := s.arena.modify id fun n => { n with children := n.children ++ children } }

variable {s : Workspace} {id : NodeId}

theorem storing_storing (s : Workspace) (nodes more : List Node) :
    (s.storing nodes).storing more = s.storing (nodes ++ more) := by
  simp only [storing, List.map_append, List.length_append, Table.insertMany, List.foldl_append,
    Nat.add_assoc]

theorem node?_storing {nodes : List Node} {y : NodeId} (h : y ∉ nodes.map Node.id) :
    (s.storing nodes).node? y = s.node? y := by
  refine Table.get?_insertMany_of_not_mem ?_ _
  rwa [List.map_map]

theorem adopting_nil (s : Workspace) (id : NodeId) : s.adopting id [] = s := by
  have hsame : s.arena.modify id (fun n => { n with children := n.children ++ [] }) = s.arena := by
    refine Table.ext_get? (Table.keys_modify ..) fun y => ?_
    simp only [Table.get?_modify, List.append_nil, Option.map_id']
    split
    · next hy => rw [hy]
    · rfl
  rw [adopting, hsame]

theorem adopting_adopting (s : Workspace) (id : NodeId) (children more : List NodeId) :
    (s.adopting id children).adopting id more = s.adopting id (children ++ more) := by
  simp only [adopting, Table.modify_modify, List.append_assoc]

theorem adopting_storing {nodes : List Node} (h : id ∉ nodes.map Node.id) (s : Workspace)
    (children : List NodeId) :
    (s.adopting id children).storing nodes = (s.storing nodes).adopting id children := by
  have hkeys : id ∉ (nodes.map fun n => (n.id, n)).map Prod.fst := by rwa [List.map_map]
  simp only [adopting, storing, Table.modify_insertMany hkeys]

theorem exists_node?_adopting {y : NodeId} (h : ∃ n, s.node? y = some n) (id : NodeId)
    (children : List NodeId) : ∃ n, (s.adopting id children).node? y = some n :=
  Table.exists_get?_modify h _ _

/-! ## What a clone makes -/

/-- A workspace that holds a tree and is to get twins of some of its nodes. -/
structure ToClone (a : Arena) (f : NodeId → NodeId) (out : List NodeId) (s : Workspace) :
    Prop where
  kept : ∀ {y k}, a.get? y = some k → s.node? y = some k
  unused : s.arena.Unused s.drawn
  found : ∀ y ∈ out, ∃ k, a.get? y = some k
  /-- The ids of the twins are those that are drawn next. -/
  drawn : out.map f = (List.range' (s.drawn + 1) out.length).map drawnNodeId

/-- The twins of nodes, in their order. -/
def twins (a : Arena) (x t : NodeId) (name : String) (now : Timestamp) (f : NodeId → NodeId)
    (out : List NodeId) : List Node :=
  (out.filterMap a.get?).map (twinOf x t name now f)

section Clone

variable {a : Arena} {f : NodeId → NodeId} {x t q c : NodeId} {name : String} {now : Timestamp}
  {out below after stack : List NodeId} {n : Node} {fuel : Nat}

theorem ids_twins (h : a.IsTree) (hfound : ∀ y ∈ out, ∃ k, a.get? y = some k) :
    (twins a x t name now f out).map Node.id = out.map f := by
  induction out with
  | nil => rfl
  | cons y rest ih =>
    obtain ⟨k, hk⟩ := hfound y List.mem_cons_self
    have hrest := ih fun z hz => hfound z (List.mem_cons_of_mem _ hz)
    rw [twins] at hrest ⊢
    rw [List.filterMap_cons_some hk, List.map_cons, List.map_cons, List.map_cons, hrest]
    exact congrArg (f · :: rest.map f) (h.keyed hk)

theorem twins_append (out more : List NodeId) : twins a x t name now f (out ++ more) =
    twins a x t name now f out ++ twins a x t name now f more := by
  simp only [twins, List.filterMap_append, List.map_append]

namespace ToClone

theorem nodup (hc : ToClone a f out s) : (out.map f).Nodup := by
  rw [hc.drawn]
  exact List.Nodup.map (fun _ _ he => drawnNodeId_injective he) List.nodup_range'

/-- The ids of the twins are not in use. -/
theorem fresh (hc : ToClone a f out s) (hx : c ∈ out) : s.node? (f c) = none := by
  have hmem := List.mem_map_of_mem (f := f) hx
  rw [hc.drawn, List.mem_map] at hmem
  obtain ⟨j, hj, he⟩ := hmem
  rw [← he]
  exact hc.unused j (Nat.lt_of_succ_le (List.mem_range'_1.1 hj).1)

theorem not_mem (hc : ToClone a f out s) {y : NodeId} (hy : ∃ m, s.node? y = some m) :
    y ∉ out.map f := by
  intro hmem
  obtain ⟨z, hz, rfl⟩ := List.mem_map.1 hmem
  obtain ⟨m, hm⟩ := hy
  cases hm.symm.trans (hc.fresh hz)

theorem fresh_node (hc : ToClone a f out s) (hx : c ∈ out) : a.get? (f c) = none := by
  cases hk : a.get? (f c) with
  | none => rfl
  | some k => cases (hc.kept hk).symm.trans (hc.fresh hx)

theorem head (hc : ToClone a f (c :: below) s) : f c = drawnNodeId (s.drawn + 1) := by
  have hdrawn := hc.drawn
  rw [List.map_cons, List.length_cons, List.range'_succ, List.map_cons] at hdrawn
  exact (List.cons.inj hdrawn).1

theorem left (hc : ToClone a f (out ++ after) s) : ToClone a f out s where
  kept := hc.kept
  unused := hc.unused
  found y hy := hc.found y (List.mem_append_left _ hy)
  drawn := by
    have hdrawn := hc.drawn
    rw [List.map_append, List.length_append, ← List.range'_append_1, List.map_append] at hdrawn
    exact (List.append_inj hdrawn (by simp)).1

/-- When the twins of the first nodes are stored, those of the others are still to come. -/
theorem right (hc : ToClone a f (out ++ after) s) {nodes : List Node}
    (hn : nodes.map Node.id = out.map f) : ToClone a f after (s.storing nodes) := by
  have hlen : nodes.length = out.length := by simpa using congrArg List.length hn
  have hids := hc.left.drawn
  refine ⟨fun {y k} hk => ?_, fun j hj => ?_, fun y hy => hc.found y (List.mem_append_right _ hy),
    ?_⟩
  · rw [node?_storing (hn ▸ hc.left.not_mem ⟨k, hc.kept hk⟩), hc.kept hk]
  · have hj : s.drawn + nodes.length < j := hj
    refine (node?_storing (s := s) ?_).trans (hc.unused j (by omega))
    rw [hn, hids, List.mem_map]
    rintro ⟨i, hi, he⟩
    have hi := List.mem_range'_1.1 hi
    have hij := drawnNodeId_injective he
    omega
  · have hdrawn := hc.drawn
    rw [List.map_append, List.length_append, ← List.range'_append_1, List.map_append] at hdrawn
    have hnext := (List.append_inj hdrawn (by simp)).2
    have hstart : s.drawn + 1 + out.length = (s.storing nodes).drawn + 1 := by
      show s.drawn + 1 + out.length = s.drawn + nodes.length + 1
      omega
    rw [hnext, hstart]

/-- Listing ids with a node that is not of the tree changes nothing for it. -/
theorem adopting (hc : ToClone a f out s) (ht : a.get? t = none) (children : List NodeId) :
    ToClone a f out (s.adopting t children) where
  kept {y k} hk := by
    have hne : y ≠ t := by
      rintro rfl
      cases hk.symm.trans ht
    exact (Table.get?_modify_of_ne hne _).trans (hc.kept hk)
  unused j hj := Table.get?_modify_eq_none_iff.2 (hc.unused j hj)
  found := hc.found
  drawn := hc.drawn

end ToClone

/-- A clone of a node is made when the clones of its children are. -/
theorem clone_of_children (h : a.IsTree) (hn : a.get? c = some n)
    (hc : ToClone a f (c :: below) s) {newName : String}
    (hname : (twinOf x t name now f n).name = newName)
    (hparent : (twinOf x t name now f n).parentId = some q)
    (hchildren : ∀ {s'}, ToClone a f below s' → (∃ m, s'.node? (f c) = some m) →
      n.children.foldlM (cloneChild (clone now fuel) (f c)) s' =
        some ((s'.storing (twins a x t name now f below)).adopting (f c)
          (n.children.map f))) :
    clone now (fuel + 1) c q newName s =
      some (f c, s.storing (twins a x t name now f (c :: below))) := by
  let base : Node := { twinOf x t name now f n with children := [] }
  have hstored : { n with
      id := f c, name := newName, parentId := some q, children := [], modifiedAt := now } =
      base := by
    rw [← hname, ← hparent, ← h.keyed hn]
    rfl
  have hid : (twinOf x t name now f n).id = f c := congrArg f (h.keyed hn)
  have hstep : s.storing [base] =
      { s with arena := s.arena.insert (f c) base, drawn := s.drawn + 1 } := by
    rw [← hid]
    rfl
  have hfirst : (s.storing [base]).node? (f c) = some base := by
    rw [hstep]
    exact Table.get?_insert_self _ _ _
  have hc' : ToClone a f ([c] ++ below) s := hc
  have hone : [base].map Node.id = [c].map f := congrArg (· :: []) hid
  have hbelow := hchildren (hc'.right hone) ⟨base, hfirst⟩
  have hkey : f c ∉ (twins a x t name now f below).map Node.id := by
    rw [ids_twins h fun y hy => hc.found y (List.mem_cons_of_mem _ hy)]
    exact (List.nodup_cons.1 hc.nodup).1
  have hlisted : (s.storing [base]).adopting (f c) (n.children.map f) =
      s.storing [twinOf x t name now f n] := by
    rw [hstep, adopting, Table.modify_insert_self, ← hid]
    rfl
  have hall : twins a x t name now f (c :: below) =
      [twinOf x t name now f n] ++ twins a x t name now f below := by
    simp only [twins, List.filterMap_cons_some hn, List.map_cons, List.singleton_append]
  rw [← adopting_storing hkey, hlisted, storing_storing, ← hall] at hbelow
  rw [clone, hc.kept hn, Option.bind_some, ← hc.head]
  dsimp only
  rw [hstored, ← hstep, hbelow]
  rfl

/-- Cloning the children of a node one after another stores the twins of all below it, and lists
those of the children. -/
theorem foldlM_cloneChild (h : a.IsTree) (hs : a.Spans stack out)
    (hstack : ∀ c ∈ stack, a.AtOrBelow x c ∧ c ≠ x ∧ ∃ n, a.get? c = some n ∧
      n.parentId = some id)
    (hfuel : out.length ≤ fuel) (hc : ToClone a f out s) (hid : a.get? (f id) = none)
    (hm : ∃ m, s.node? (f id) = some m) :
    stack.foldlM (cloneChild (clone now fuel) (f id)) s =
      some ((s.storing (twins a x t name now f out)).adopting (f id) (stack.map f)) := by
  induction hs generalizing id fuel s with
  | nil => exact congrArg some (adopting_nil s (f id)).symm
  | @cons c n rest below after hn hb ha ihb iha =>
    obtain ⟨hxc, hcx, n', hn', hp⟩ := hstack c List.mem_cons_self
    obtain rfl := Option.some.inj (hn.symm.trans hn')
    simp only [List.length_cons, List.length_append] at hfuel
    obtain ⟨fuel, rfl⟩ : ∃ k, fuel = k + 1 := ⟨fuel - 1, by omega⟩
    have hnx : n.id ≠ x := h.keyed hn ▸ hcx
    have hc' : ToClone a f ((c :: below) ++ after) s := hc
    have hparent : (twinOf x t name now f n).parentId = some (f id) :=
      (if_neg hnx).trans (by rw [hp]; rfl)
    have hclone : clone now (fuel + 1) c (f id) n.name s =
        some (f c, s.storing (twins a x t name now f (c :: below))) :=
      clone_of_children h hn hc'.left (if_neg hnx) hparent fun hbelow hm =>
        ihb (fun y hy => h.child_below hxc hn hy) (by omega) hbelow
          (hc'.left.fresh_node List.mem_cons_self) hm
    have hids : (twins a x t name now f (c :: below)).map Node.id = (c :: below).map f :=
      ids_twins h hc'.left.found
    have hstep : cloneChild (clone now (fuel + 1)) (f id) s c =
        some ((s.storing (twins a x t name now f (c :: below))).adopting (f id) [f c]) := by
      rw [cloneChild, hc.kept hn, Option.bind_some, hclone]
      rfl
    have hnext := hc'.right hids
    have hheld : ∃ m, (s.storing (twins a x t name now f (c :: below))).node? (f id) = some m := by
      rw [node?_storing (hids ▸ hc'.left.not_mem hm)]
      exact hm
    have hkey : f id ∉ (twins a x t name now f after).map Node.id := by
      rw [ids_twins h hnext.found]
      exact hnext.not_mem hheld
    have hleft : after.length ≤ fuel + 1 := by omega
    have hrest := iha (fun y hy => hstack y (List.mem_cons_of_mem _ hy)) hleft
      (hnext.adopting hid [f c]) hid (exists_node?_adopting hheld _ _)
    rw [adopting_storing hkey, storing_storing, ← twins_append, adopting_adopting] at hrest
    rw [List.foldlM_cons, hstep]
    exact hrest

end Clone

variable {p : Placement} {now : Timestamp}

/-- The ids of copies are drawn in the order of what they are copies of. -/
theorem map_copyId {ids : List NodeId} (h : ids.Nodup) (drawn : Nat) :
    ids.map (copyId drawn ids) = (List.range' (drawn + 1) ids.length).map drawnNodeId := by
  refine List.ext_getElem (by simp) fun i hi _ => ?_
  rw [List.length_map] at hi
  rw [List.getElem_map, List.getElem_map, List.getElem_range', copyId, h.idxOf_getElem i hi,
    Nat.one_mul]

theorem copies_eq_twins (s : Workspace) (p : Placement) (now : Timestamp) :
    s.copies p now = twins s.arena p.node.id p.target.id p.name now
      (copyId s.drawn (s.arena.subtreeIds p.node.id)) (s.arena.subtreeIds p.node.id) := by
  simp only [copies, twins, beq_iff_eq]
  rfl

/-- Cloning from node to node comes to the same as reading all nodes first. -/
theorem cloned_eq_copied (h : s.arena.IsTree) (hu : s.arena.Unused s.drawn)
    (hx : s.node? p.node.id = some p.node) (now : Timestamp) :
    s.cloned p now = some (s.copied p now) := by
  obtain ⟨-, hs⟩ := h.spans_subtreeIds hx
  have hnodup := h.nodup_subtreeIds hx
  have hdrawn := map_copyId hnodup s.drawn
  have hfound : ∀ y ∈ s.arena.subtreeIds p.node.id, ∃ k, s.arena.get? y = some k := fun y hy =>
    ((h.mem_subtreeIds_iff hx).1 hy).exists_node hx
  have hsize := Table.length_le_size hnodup hfound
  have hc : ToClone s.arena (copyId s.drawn (s.arena.subtreeIds p.node.id))
      (s.arena.subtreeIds p.node.id) s := ⟨id, hu, hfound, hdrawn⟩
  have hclone : clone now s.arena.size p.node.id p.target.id p.name s =
      some (copyId s.drawn (s.arena.subtreeIds p.node.id) p.node.id,
        s.storing (s.copies p now)) := by
    rw [copies_eq_twins]
    generalize copyId s.drawn (s.arena.subtreeIds p.node.id) = f at hc ⊢
    generalize s.arena.subtreeIds p.node.id = ids at hs hc hsize ⊢
    cases hs with
    | @cons _ n _ below after hn hb ha =>
      cases ha
      rw [List.append_nil] at hc hsize ⊢
      obtain ⟨fuel, hfuel⟩ : ∃ k, s.arena.size = k + 1 := ⟨s.arena.size - 1, by
        rw [List.length_cons] at hsize
        omega⟩
      rw [hfuel, List.length_cons, Nat.add_le_add_iff_right] at hsize
      have htop := h.keyed hn
      rw [hfuel]
      refine clone_of_children h hn hc (if_pos htop) (if_pos htop) fun hbelow hm => ?_
      exact foldlM_cloneChild h hb (fun y hy => h.child_below (.refl _ _) hn hy) hsize hbelow
        (hc.fresh_node List.mem_cons_self) hm
  rw [cloned, hclone]
  rfl

end Workspace

namespace World

/-- A copy in a free workspace is a clone from node to node. -/
theorem cloned_of_copy {σ : Type} {h : Host σ} {w w' : World σ} {id t : NodeId}
    {name? : Option String} {m : Node} (hr : w.Reachable) (hf : w.space.boundRoot = none)
    (he : w.copy h id t name? = (.ok m, w')) :
    ∃ p, w.space.checkCopy id t name? = .ok p ∧ w.space.cloned p h.now = some w'.space := by
  have hs := hr.sound
  cases copy_ends he with
  | written _ hb => cases hf.symm.trans hb
  | copied hc _ hw =>
    have hp := Workspace.found_of_checkCopy hs.tree hc
    exact ⟨_, hc, hw ▸ Workspace.cloned_eq_copied hs.tree hs.unused hp.node h.now⟩

end World

end Workbench
