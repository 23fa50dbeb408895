import Workbench.Proofs.Arena.Relocation
import Workbench.Proofs.Text
import Workbench.Proofs.Workspace.Checks

/-!
# The edits as relations

Removing, renaming, moving and copying are put into the relations of subtrees that are taken out,
moved and copied, and creating is put into the room that a check has found. What is new gets an id
that is not in use, because ids are drawn in order and `Unused` holds of those not yet drawn.
-/

namespace Workbench

theorem drawnNodeId_injective {j k : Nat} (h : drawnNodeId j = drawnNodeId k) : j = k :=
  Text.append_toString_injective "n" h

theorem drawnNodeId_ne_rootId (k : Nat) : drawnNodeId k ≠ rootId := by
  intro h
  have ht := congrArg (fun s : String => s.toList.head?) h
  have hn : ("n" : String).toList = ['n'] := by decide
  have hr : rootId.toList = ['r', 'o', 'o', 't'] := by decide
  simp only [drawnNodeId, String.toList_append, hn, hr, List.cons_append, List.head?_cons,
    Option.some.injEq] at ht
  exact absurd ht (by decide)

namespace Arena

variable {a : Arena} {x y t p : NodeId} {n d : Node} {now : Timestamp}

/-- No id that is drawn after the first `k` is in use. -/
def Unused (a : Arena) (k : Nat) : Prop := ∀ j, k < j → a.get? (drawnNodeId j) = none

/-- Where no node is new, no id is. -/
theorem Unused.of_back {a' : Arena} {k : Nat} (h : a.Unused k)
    (hb : ∀ {y m}, a'.get? y = some m → ∃ n, a.get? y = some n) : a'.Unused k := by
  intro j hj
  cases hm : a'.get? (drawnNodeId j) with
  | none => rfl
  | some m =>
    obtain ⟨n, hn⟩ := hb hm
    rw [h j hj] at hn
    cases hn

theorem get?_new (id : NodeId) :
    (Arena.new now).get? id = if id = rootId then some (.newRoot now) else none := by
  rw [Arena.new, Table.get?_insert, Table.get?_empty]

theorem IsTree.new (now : Timestamp) : (Arena.new now).IsTree := by
  have key : ∀ {id n}, (Arena.new now).get? id = some n → id = rootId ∧ n = .newRoot now := by
    intro id n hn
    rw [get?_new] at hn
    split at hn
    · next hid => exact ⟨hid, (Option.some.inj hn).symm⟩
    · cases hn
  refine ⟨⟨_, by rw [get?_new, if_pos rfl], rfl, rfl⟩, ?_, ?_, ?_, ?_, ?_, ?_, ?_, ?_⟩
  · intro id n hn
    obtain ⟨rfl, rfl⟩ := key hn
    rfl
  · intro id n hn hne
    exact absurd (key hn).1 hne
  · intro id n c hn hc
    obtain ⟨-, rfl⟩ := key hn
    cases hc
  · intro id n hn
    obtain ⟨-, rfl⟩ := key hn
    exact List.nodup_nil
  · intro c d m n hm hn _ _
    rw [(key hm).1, (key hn).1]
  · intro id n hn
    obtain ⟨-, rfl⟩ := key hn
    exact ⟨fun hne => absurd rfl hne, fun _ => rfl, rfl, fun _ => rfl⟩
  · intro id n hn
    rw [(key hn).1]
    exact .refl _ _
  · intro r hr
    rw [(key hr).2]
    rfl

theorem Unused.new (now : Timestamp) (k : Nat) : (Arena.new now).Unused k := fun j _ => by
  rw [get?_new, if_neg (drawnNodeId_ne_rootId j)]

/-! ## The edits as relations -/

theorem not_mem_children (h : a.IsTree) (hx : a.get? x = some n) (hp : n.parentId = some p)
    (hyp : y ≠ p) (hy : a.get? y = some d) : x ∉ d.children := by
  intro hmem
  exact hyp (((h.mem_children_iff hy).1 hmem).unique ⟨n, hx, hp⟩)

/-- Taking a node out of its directory and erasing what lies at or below it. -/
theorem pruned_erase (h : a.IsTree) (hx : a.get? x = some n) (hp : n.parentId = some p)
    (now : Timestamp) : a.Pruned x (((a.detach p x).stamp p now).eraseMany (a.subtreeIds x)) := by
  refine ⟨fun hb => ?_, fun {y k} hb hk => ?_, fun {y m} hm => ?_⟩
  · rw [Table.get?_eraseMany, if_pos ((h.mem_subtreeIds_iff hx).2 hb)]
  · rw [Table.get?_eraseMany, if_neg (fun hmem => hb ((h.mem_subtreeIds_iff hx).1 hmem))]
    simp only [stamp, detach, Table.get?_modify]
    by_cases hyp : y = p
    · subst hyp
      simp only [↓reduceIte, hk, Option.map_some]
      exact ⟨_, rfl, ⟨rfl, rfl, rfl, rfl, rfl, rfl⟩, rfl⟩
    · simp only [hyp, ↓reduceIte]
      exact ⟨k, hk, .refl k, (List.erase_of_not_mem (not_mem_children h hx hp hyp hk)).symm⟩
  · rw [Table.get?_eraseMany] at hm
    split at hm
    · cases hm
    · simp only [stamp, detach, Table.get?_modify] at hm
      by_cases hyp : y = p
      · subst hyp
        simp only [↓reduceIte, Option.map_map, Option.map_eq_some_iff] at hm
        obtain ⟨k, hk, -⟩ := hm
        exact ⟨k, hk⟩
      · simp only [hyp, ↓reduceIte] at hm
        exact ⟨m, hm⟩

/-- Taking a node out of its directory and storing it anew in another. -/
theorem moved_attach (h : a.IsTree) (hx : a.get? x = some n) (hp : n.parentId = some p)
    (ht : ∃ d, a.get? t = some d) (htx : t ≠ x) {k : Node} {name : String}
    (hid : k.id = x) (hk : k.Alike { n with name := name, parentId := some t })
    (hc : k.children = n.children) :
    a.Moved x t name ((Arena.attach ((a.detach p x).stamp p now) t k).stamp t now) := by
  have hpx : p ≠ x := by
    rintro rfl
    exact h.acyclic p (.single ⟨n, hx, hp⟩)
  refine ⟨fun {y m} hyx hm => ?_, fun {m} hm => ?_, fun {y m} hm => ?_⟩
  · simp only [stamp, attach, adopt, detach, Table.get?_modify, Table.get?_insert, hid, htx, hyx,
      ↓reduceIte]
    have herase : y ≠ p → m.children.erase x = m.children := fun hyp =>
      List.erase_of_not_mem (not_mem_children h hx hp hyp hm)
    by_cases hyt : y = t
    · subst hyt
      by_cases hyp : y = p
      · subst hyp
        simp only [↓reduceIte, hm, Option.map_some]
        exact ⟨_, rfl, ⟨rfl, rfl, rfl, rfl, rfl, rfl⟩, .refl _⟩
      · simp only [hyp, ↓reduceIte, hm, Option.map_some]
        exact ⟨_, rfl, ⟨rfl, rfl, rfl, rfl, rfl, rfl⟩, by rw [herase hyp]⟩
    · by_cases hyp : y = p
      · subst hyp
        simp only [hyt, ↓reduceIte, hm, Option.map_some, List.append_nil]
        exact ⟨_, rfl, ⟨rfl, rfl, rfl, rfl, rfl, rfl⟩, .refl _⟩
      · simp only [hyt, hyp, ↓reduceIte, List.append_nil]
        exact ⟨m, hm, .refl m, by rw [herase hyp]⟩
  · obtain rfl := Option.some.inj (hx.symm.trans hm)
    simp only [stamp, attach, adopt, detach, Table.get?_modify, Table.get?_insert, hid,
      Ne.symm htx, ↓reduceIte]
    exact ⟨k, rfl, hk, hc⟩
  · simp only [stamp, attach, adopt, detach, Table.get?_modify, Table.get?_insert, hid, htx,
      ↓reduceIte] at hm
    by_cases hyx : y = x
    · exact ⟨n, hyx ▸ hx⟩
    · by_cases hyt : y = t
      · exact hyt ▸ ht
      · by_cases hyp : y = p
        · subst hyp
          simp only [hyt, hyx, ↓reduceIte, Option.map_map, Option.map_eq_some_iff] at hm
          obtain ⟨e, he, -⟩ := hm
          exact ⟨e, he⟩
        · simp only [hyt, hyx, hyp, ↓reduceIte] at hm
          exact ⟨m, hm⟩

/-- Another name in place is a move to the same directory. -/
theorem moved_rename (h : a.IsTree) (hx : a.get? x = some n) (hp : n.parentId = some p)
    (name : String) : a.Moved x p name (Arena.stamp
      (Table.modify a x fun n => { n with name := name, modifiedAt := now }) p now) := by
  have hpx : p ≠ x := by
    rintro rfl
    exact h.acyclic p (.single ⟨n, hx, hp⟩)
  refine ⟨fun {y m} hyx hm => ?_, fun {m} hm => ?_, fun {y m} hm => ?_⟩
  · simp only [stamp, Table.get?_modify, hyx, hpx, ↓reduceIte]
    by_cases hyp : y = p
    · subst hyp
      have hmem : x ∈ m.children := (h.mem_children_iff hm).2 ⟨n, hx, hp⟩
      simp only [↓reduceIte, hm, Option.map_some]
      refine ⟨_, rfl, ⟨rfl, rfl, rfl, rfl, rfl, rfl⟩, ?_⟩
      exact (List.perm_cons_erase hmem).trans (List.perm_append_singleton x _).symm
    · simp only [hyp, ↓reduceIte, List.append_nil]
      exact ⟨m, hm, .refl m, by
        rw [List.erase_of_not_mem (not_mem_children h hx hp hyp hm)]⟩
  · obtain rfl := Option.some.inj (hx.symm.trans hm)
    simp only [stamp, Table.get?_modify, Ne.symm hpx, ↓reduceIte, hx, Option.map_some]
    exact ⟨_, rfl, ⟨rfl, rfl, rfl, rfl, rfl, hp⟩, rfl⟩
  · simp only [stamp, Table.get?_modify, hpx, ↓reduceIte] at hm
    split at hm
    · next hyp =>
      subst hyp
      obtain ⟨e, he, -⟩ := Option.map_eq_some_iff.1 hm
      exact ⟨e, he⟩
    · split at hm
      · next hyx => exact ⟨n, hyx ▸ hx⟩
      · exact ⟨m, hm⟩

end Arena

namespace Workspace

variable {s : Workspace} {p : Placement} {now : Timestamp} {id targetId : NodeId} {n : Node}

/-! ## What the checks of places establish -/

/-- A name that an update has found free may be given to the node in its directory. -/
theorem mayGo_of_checkUpdate (h : s.arena.IsTree) {changes : NodeUpdate}
    (hc : s.checkUpdate id changes = .ok (n, some p)) :
    s.arena.get? p.node.id = some p.node ∧ p.node.parentId = some p.target.id ∧
      s.arena.MayGo p.node.id p.target.id p.name := by
  obtain ⟨rfl, hn, -, -, hroot, hname, hpar, hfree⟩ := checkUpdate_some hc
  have hid := h.keyed hn
  subst hid
  simp only [parent?, node?, hn, Option.bind_some, Option.bind_eq_some_iff] at hpar
  obtain ⟨q, hq, ht⟩ := hpar
  have hqt := h.keyed ht
  subst hqt
  obtain ⟨e, he, -, hk⟩ := h.parent hn hq
  obtain rfl := Option.some.inj (ht.symm.trans he)
  refine ⟨hn, hq, ⟨_, hn⟩, ⟨_, ht, hk⟩, hroot, h.not_below_parent ⟨_, hn, hq⟩, hname, ?_⟩
  intro c m hm _ hp
  exact (h.childNamed?_eq_none_iff ht).1 hfree c m hm hp

/-- A placement is of a node, which is not the root, and a directory, both as they are stored under
their ids, with the name that is asked for or the one that the node has. -/
structure Placement.Found (p : Placement) (s : Workspace) (id targetId : NodeId)
    (name? : Option String) : Prop where
  nodeId : p.node.id = id
  targetId : p.target.id = targetId
  node : s.arena.get? p.node.id = some p.node
  target : s.arena.get? p.target.id = some p.target
  directory : p.target.kind = .directory
  notRoot : p.node.id ≠ rootId
  name : name?.getD p.node.name = p.name
  isName : Path.isName p.name = true
  held : ∃ q, p.node.parentId = some q

theorem found_of_checkPlacement (h : s.arena.IsTree) {onRoot : Refusal} {name? : Option String}
    (hc : s.checkPlacement onRoot id targetId name? = .ok p) : p.Found s id targetId name? := by
  obtain ⟨hn, hroot, hd, hk, hname, hok⟩ := checkPlacement_eq_ok_iff.1 hc
  have hid := h.keyed hn
  have htid := h.keyed hd
  obtain ⟨q, -, hq, -⟩ := h.held hn (hid ▸ hroot)
  exact ⟨hid, htid, hid.symm ▸ hn, htid.symm ▸ hd, hk, hroot, hname, hok, q, hq⟩

theorem found_of_checkMove (h : s.arena.IsTree) {name? : Option String}
    (hc : s.checkMove id targetId name? = .ok p) : p.Found s id targetId name? :=
  found_of_checkPlacement h (checkMove_eq_ok hc).1

theorem found_of_checkCopy (h : s.arena.IsTree) {name? : Option String}
    (hc : s.checkCopy id targetId name? = .ok p) : p.Found s id targetId name? :=
  found_of_checkPlacement h (checkCopy_eq_ok hc).1

/-- A place that a move has found is one where the node may go. -/
theorem mayGo_of_checkMove (h : s.arena.IsTree) {name? : Option String}
    (hc : s.checkMove id targetId name? = .ok p) (hs : p.isSame = false) :
    s.arena.MayGo p.node.id p.target.id p.name := by
  obtain ⟨-, hin, hfree⟩ := checkMove_eq_ok hc
  have hf := found_of_checkMove h hc
  have hd := hf.target
  refine ⟨⟨_, hf.node⟩, ⟨_, hd, hf.directory⟩, hf.notRoot, fun hb => ?_, hf.isName,
    fun {c m} hm hcx hp he => ?_⟩
  · rw [(isInside_iff h hd).2 hb] at hin
    cases hin
  · rcases hfree with hsame | hnone | ⟨k, hk', hkx⟩
    · rw [hs] at hsame
      cases hsame
    · exact (h.childNamed?_eq_none_iff hd).1 hnone c m hm hp he
    · obtain ⟨hk, hkp, hkname⟩ := (h.childNamed?_eq_some_iff hd).1 hk'
      exact hcx ((h.siblings hm hk (hp.trans hkp.symm) (he.trans hkname.symm)).trans hkx)

/-- A place that a copy has found is a directory outside the subtree where the name is free. -/
theorem free_of_checkCopy (h : s.arena.IsTree) {name? : Option String}
    (hc : s.checkCopy id targetId name? = .ok p) :
    ¬ s.arena.AtOrBelow p.node.id p.target.id ∧
      ∀ {c m}, s.arena.get? c = some m → m.parentId = some p.target.id → m.name ≠ p.name := by
  obtain ⟨-, hin, hfree⟩ := checkCopy_eq_ok hc
  have hd := (found_of_checkCopy h hc).target
  refine ⟨fun hb => ?_, fun {c m} hm hp => (h.childNamed?_eq_none_iff hd).1 hfree c m hm hp⟩
  rw [(isInside_iff h hd).2 hb] at hin
  cases hin

/-! ## Copies -/

theorem copyId_injective {ids : List NodeId} {drawn : Nat} {x y : NodeId} (hx : x ∈ ids)
    (h : copyId drawn ids x = copyId drawn ids y) : x = y := by
  have := drawnNodeId_injective h
  exact (List.idxOf_inj hx).1 (by omega)

/-- The copies of the nodes of a subtree, each under the id of its copy. -/
theorem mem_copies_iff (h : s.arena.IsTree) {k : Node} :
    k ∈ s.copies p now ↔ ∃ y n, y ∈ s.arena.subtreeIds p.node.id ∧ s.arena.get? y = some n ∧
      k = { n with
        id := copyId s.drawn (s.arena.subtreeIds p.node.id) y
        name := if y = p.node.id then p.name else n.name
        parentId :=
          if y = p.node.id then some p.target.id
          else n.parentId.map (copyId s.drawn (s.arena.subtreeIds p.node.id))
        children := n.children.map (copyId s.drawn (s.arena.subtreeIds p.node.id))
        modifiedAt := now } := by
  simp only [copies, List.mem_map, List.mem_filterMap]
  constructor
  · rintro ⟨n, ⟨y, hy, hn⟩, rfl⟩
    obtain rfl := h.keyed hn
    exact ⟨_, n, hy, hn, by simp only [beq_iff_eq]⟩
  · rintro ⟨y, n, hy, hn, rfl⟩
    obtain rfl := h.keyed hn
    exact ⟨n, ⟨_, hy, hn⟩, by simp only [beq_iff_eq]⟩

theorem ids_copies (h : s.arena.IsTree) {n : Node} (hx : s.arena.get? p.node.id = some n)
    (now : Timestamp) : (s.copies p now).map Node.id =
      (s.arena.subtreeIds p.node.id).map (copyId s.drawn (s.arena.subtreeIds p.node.id)) := by
  have key : ∀ l : List NodeId, (∀ y ∈ l, ∃ m, s.arena.get? y = some m) →
      (l.filterMap s.arena.get?).map Node.id = l := by
    intro l hl
    induction l with
    | nil => rfl
    | cons y rest ih =>
      obtain ⟨m, hm⟩ := hl y List.mem_cons_self
      rw [List.filterMap_cons_some hm, List.map_cons, h.keyed hm,
        ih fun z hz => hl z (List.mem_cons_of_mem _ hz)]
  have hids := key (s.arena.subtreeIds p.node.id) fun y hy =>
    ((h.mem_subtreeIds_iff hx).1 hy).exists_node hx
  conv_rhs => rw [← hids]
  simp only [copies, List.map_map, Function.comp_def]
  rw [hids]

theorem keys_copies (h : s.arena.IsTree) {n : Node} (hx : s.arena.get? p.node.id = some n)
    (now : Timestamp) : ((s.copies p now).map fun n => (n.id, n)).map Prod.fst =
      (s.arena.subtreeIds p.node.id).map (copyId s.drawn (s.arena.subtreeIds p.node.id)) := by
  rw [List.map_map, ← ids_copies h hx now]
  rfl

theorem ne_copyId (hu : s.arena.Unused s.drawn) {y : NodeId} {n : Node}
    (hn : s.arena.get? y = some n) (ids : List NodeId) (z : NodeId) :
    y ≠ copyId s.drawn ids z := by
  rintro rfl
  have hnone : s.arena.get? (copyId s.drawn ids z) = none := hu _ (by omega)
  rw [hnone] at hn
  cases hn

/-- Nodes other than copies are stored as they were. -/
theorem get?_insertMany_copies (h : s.arena.IsTree) {n : Node}
    (hx : s.arena.get? p.node.id = some n) {z : NodeId}
    (hz : ∀ y ∈ s.arena.subtreeIds p.node.id,
      z ≠ copyId s.drawn (s.arena.subtreeIds p.node.id) y) (now : Timestamp) :
    (s.arena.insertMany ((s.copies p now).map fun n => (n.id, n))).get? z = s.arena.get? z := by
  refine Table.get?_insertMany_of_not_mem ?_ _
  rw [keys_copies h hx, List.mem_map]
  rintro ⟨y, hy, rfl⟩
  exact hz y hy rfl

/-- A copy is stored under its id. -/
theorem get?_copyId (h : s.arena.IsTree) (hu : s.arena.Unused s.drawn) {n d k : Node}
    {y : NodeId} (hx : s.arena.get? p.node.id = some n) (ht : s.arena.get? p.target.id = some d)
    (hy : y ∈ s.arena.subtreeIds p.node.id) (hk : s.arena.get? y = some k) (now : Timestamp) :
    (s.copied p now).arena.get? (copyId s.drawn (s.arena.subtreeIds p.node.id) y) =
      some { k with
        id := copyId s.drawn (s.arena.subtreeIds p.node.id) y
        name := if y = p.node.id then p.name else k.name
        parentId :=
          if y = p.node.id then some p.target.id
          else k.parentId.map (copyId s.drawn (s.arena.subtreeIds p.node.id))
        children := k.children.map (copyId s.drawn (s.arena.subtreeIds p.node.id))
        modifiedAt := now } := by
  have hm : _ ∈ s.copies p now := (mem_copies_iff h).2 ⟨y, k, hy, hk, rfl⟩
  have hnodup : (((s.copies p now).map fun n => (n.id, n)).map Prod.fst).Nodup := by
    rw [keys_copies h hx]
    exact (h.nodup_subtreeIds hx).map_on fun y hy z _ he => copyId_injective hy he
  have hne := ne_copyId hu ht (s.arena.subtreeIds p.node.id) y
  simp only [copied, Arena.stamp, Arena.adopt]
  rw [Table.get?_modify_of_ne hne.symm, Table.get?_modify_of_ne hne.symm]
  exact Table.get?_insertMany_of_mem hnodup (List.mem_map.2 ⟨_, hm, rfl⟩) _

theorem exists_get?_copyId (h : s.arena.IsTree) (hu : s.arena.Unused s.drawn) {n d k : Node}
    {y : NodeId} (hx : s.arena.get? p.node.id = some n) (ht : s.arena.get? p.target.id = some d)
    (hy : y ∈ s.arena.subtreeIds p.node.id) (hk : s.arena.get? y = some k) (now : Timestamp) :
    ∃ m, (s.copied p now).arena.get? (copyId s.drawn (s.arena.subtreeIds p.node.id) y) = some m ∧
      m.Alike (Arena.Grafted.image p.node.id p.target.id p.name
        (copyId s.drawn (s.arena.subtreeIds p.node.id)) y k) ∧
      m.children = k.children.map (copyId s.drawn (s.arena.subtreeIds p.node.id)) :=
  ⟨_, get?_copyId h hu hx ht hy hk now, ⟨rfl, rfl, rfl, rfl, rfl, rfl⟩, rfl⟩

/-- Storing the copies of a subtree and listing the top one in a directory. -/
theorem grafted_copied (h : s.arena.IsTree) (hu : s.arena.Unused s.drawn) {n : Node}
    (hx : s.arena.get? p.node.id = some n) (ht : ∃ d, s.arena.get? p.target.id = some d)
    (now : Timestamp) : s.arena.Grafted p.node.id p.target.id p.name
      (copyId s.drawn (s.arena.subtreeIds p.node.id)) (s.copied p now).arena := by
  obtain ⟨d, hd⟩ := ht
  have hin : ∀ {y}, s.arena.AtOrBelow p.node.id y ↔ y ∈ s.arena.subtreeIds p.node.id :=
    (h.mem_subtreeIds_iff hx).symm
  refine ⟨fun {y k} hk => ?_, fun {k} hk => ?_, fun {y k} hb hyx hk => ?_, fun {z m} hm => ?_,
    fun _ => hu _ (by omega), fun hy _ he => copyId_injective (hin.1 hy) he⟩
  · have hold := get?_insertMany_copies h hx (fun z _ => ne_copyId hu hk _ z) now
    simp only [copied, Arena.stamp, Arena.adopt, Table.get?_modify]
    by_cases hyt : y = p.target.id
    · subst hyt
      simp only [↓reduceIte, hold, hk, Option.map_some]
      exact ⟨_, rfl, ⟨rfl, rfl, rfl, rfl, rfl, rfl⟩, rfl⟩
    · simp only [hyt, ↓reduceIte, hold, hk, List.append_nil]
      exact ⟨k, rfl, .refl k, rfl⟩
  · have := exists_get?_copyId h hu hx hd (hin.1 (.refl _ _)) hk now
    simpa only [Arena.Grafted.image, ↓reduceIte] using this
  · have := exists_get?_copyId h hu hx hd (hin.1 hb) hk now
    simpa only [Arena.Grafted.image, if_neg hyx] using this
  · by_cases hz : ∃ y, s.arena.AtOrBelow p.node.id y ∧
        z = copyId s.drawn (s.arena.subtreeIds p.node.id) y
    · exact .inr hz
    · have hold := get?_insertMany_copies h hx (fun y hy he => hz ⟨y, hin.2 hy, he⟩) now
      simp only [copied, Arena.stamp, Arena.adopt, Table.get?_modify] at hm
      by_cases hzt : z = p.target.id
      · exact .inl (hzt ▸ ⟨d, hd⟩)
      · simp only [hzt, ↓reduceIte, hold] at hm
        exact .inl ⟨m, hm⟩

end Workspace

end Workbench

