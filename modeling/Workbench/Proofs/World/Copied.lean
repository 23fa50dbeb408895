import Workbench.Proofs.Arena.Visit
import Workbench.Proofs.World.Relocated

/-!
# Copies in memory

A copy of a node in a free workspace adds one subtree and leaves the rest as it is: every node at or
below the copied one has a twin under an id that was never drawn before, and the twins hang together
as the nodes do, in the same order (`Workspace.Copied`). Nothing is asked of the directory that
takes the copy but that it lies outside what is copied; it may be the directory that holds the node,
or lie above it.

All nodes are read before the first twin is stored. Where the twins lie rests on the ids: none of
those that are drawn belongs to a node (`Workspace.ne_copyId`).
-/

namespace Workbench

/-! ## The order of a copied subtree -/

namespace Arena.Grafted

variable {a a' : Arena} {x t : NodeId} {name : String} {f : NodeId → NodeId}

/-- The copies are visited in the order of what they are copies of. -/
theorem spans (hc : a.Grafted x t name f a') (h : a.IsTree) {stack out : List NodeId}
    (hs : a.Spans stack out) (hx : ∀ y ∈ stack, a.AtOrBelow x y) :
    a'.Spans (stack.map f) (out.map f) := by
  induction hs with
  | nil => exact .nil
  | @cons y n rest below after hn _ _ ihb iha =>
    have hxy := hx y List.mem_cons_self
    obtain ⟨m, hm, -, hch⟩ := hc.exists_copy hxy hn
    rw [List.map_cons, List.map_cons, List.map_append]
    refine .cons hm ?_ (iha fun z hz => hx z (List.mem_cons_of_mem _ hz))
    rw [hch]
    exact ihb fun c hc => (h.child_below hxy hn hc).1

theorem subtreeIds (hc : a.Grafted x t name f a') (h : a.IsTree) (h' : a'.IsTree) {n : Node}
    (hx : a.get? x = some n) : a'.subtreeIds (f x) = (a.subtreeIds x).map f := by
  obtain ⟨m, hm, -⟩ := hc.top hx
  refine ((h'.spans_subtreeIds hm).2).unique (hc.spans h (h.spans_subtreeIds hx).2 ?_)
  intro y hy
  rw [List.mem_singleton.1 hy]
  exact .refl a x

end Arena.Grafted

/-! ## What a copy makes of a workspace -/

namespace Arena

/-- A node other than the root may be copied to a directory that does not lie in its subtree, where
its name is free. -/
structure MayCopy (a : Arena) (x t : NodeId) (name : String) : Prop where
  notRoot : x ≠ rootId
  directory : ∃ d, a.get? t = some d ∧ d.kind = .directory
  outside : ¬ a.AtOrBelow x t
  isName : Path.isName name = true
  free : ∀ {c m}, a.get? c = some m → m.parentId = some t → m.name ≠ name

end Arena

namespace Workspace

variable {s s' : Workspace} {id t x y : NodeId} {p : Placement} {now : Timestamp} {n : Node}

/-- What a node becomes when it is copied with the subtree of `x` to the directory `t`. -/
def twinOf (x t : NodeId) (name : String) (now : Timestamp) (twin : NodeId → NodeId) (k : Node) :
    Node :=
  { k with
    id := twin k.id
    name := if k.id = x then name else k.name
    parentId := if k.id = x then some t else k.parentId.map twin
    children := k.children.map twin
    modifiedAt := now }

/-- The subtree of `x` has been copied to the end of the directory `t`, under a name. -/
structure Copied (s : Workspace) (x t : NodeId) (name : String) (now : Timestamp)
    (twin : NodeId → NodeId) (s' : Workspace) : Prop where
  /-- Every node of the subtree has a twin of its own, under an id that is newly drawn. -/
  apart : ∀ {y z}, s.arena.AtOrBelow x y → s.arena.AtOrBelow x z → twin y = twin z → y = z
  drawn : ∀ {y}, s.arena.AtOrBelow x y →
    ∃ j, twin y = drawnNodeId j ∧ s.drawn < j ∧ j ≤ s'.drawn
  fresh : ∀ {y}, s.arena.AtOrBelow x y → s.node? (twin y) = none
  stored : ∀ {y k}, s.arena.AtOrBelow x y → s.node? y = some k →
    s'.node? (twin y) = some (twinOf x t name now twin k)
  order : s'.arena.subtreeIds (twin x) = (s.arena.subtreeIds x).map twin
  /-- The directory lists the new top last, and no other node has changed. -/
  target : ∀ {d}, s.node? t = some d →
    s'.node? t = some { d with children := d.children ++ [twin x], modifiedAt := now }
  others : ∀ {y k}, y ≠ t → s.node? y = some k → s'.node? y = some k
  only : ∀ {y m}, s'.node? y = some m →
    (∃ k, s.node? y = some k) ∨ ∃ z, s.arena.AtOrBelow x z ∧ y = twin z
  rest : s' = { s with arena := s'.arena, drawn := s'.drawn }

/-- A place that a copy has found is one where the node may be copied. -/
theorem mayCopy_of_checkCopy (h : s.arena.IsTree) {name? : Option String}
    (hc : s.checkCopy id t name? = .ok p) : s.arena.MayCopy p.node.id p.target.id p.name := by
  have hp := found_of_checkCopy h hc
  obtain ⟨hout, hfree⟩ := free_of_checkCopy h hc
  exact ⟨hp.notRoot, ⟨_, hp.target, hp.directory⟩, hout, hp.isName, hfree⟩

/-- A copy passes its check exactly when the node may be copied to the place. -/
theorem exists_checkCopy_iff (h : s.arena.IsTree) {name? : Option String} :
    (∃ p, s.checkCopy id t name? = .ok p) ↔
      ∃ n, s.node? id = some n ∧ s.arena.MayCopy id t (name?.getD n.name) := by
  constructor
  · rintro ⟨p, hp⟩
    have hf := found_of_checkCopy h hp
    obtain rfl := hf.nodeId
    obtain rfl := hf.targetId
    exact ⟨p.node, hf.node, hf.name ▸ mayCopy_of_checkCopy h hp⟩
  · rintro ⟨n, hn, hg⟩
    obtain ⟨d, hd, hk⟩ := hg.directory
    have hid : n.id = id := h.keyed hn
    have htid : d.id = t := h.keyed hd
    have hpl : s.checkPlacement .rootCopied id t name? = .ok ⟨n, d, name?.getD n.name⟩ :=
      checkPlacement_eq_ok_iff.2 ⟨hn, hid.symm ▸ hg.notRoot, hd, hk, rfl, hg.isName⟩
    have hin : s.isInside ⟨n, d, name?.getD n.name⟩ = false := by
      rw [Bool.eq_false_iff, ne_eq, isInside_iff h (htid.symm ▸ hd), hid, htid]
      exact hg.outside
    have hfree : s.checkFree d (name?.getD n.name) = .ok () :=
      checkFree_eq_ok_iff.2 ((h.childNamed?_eq_none_iff hd).2 fun c m hm hp => hg.free hm hp)
    refine ⟨⟨n, d, name?.getD n.name⟩, bind_eq_ok.2 ⟨_, hpl, ?_⟩⟩
    simp only [hin, Bool.false_eq_true, ↓reduceIte, hfree]
    rfl

theorem get?_copied_of_ne (h : s.arena.IsTree) (hx : s.arena.get? p.node.id = some n)
    (hyt : y ≠ p.target.id) (hy : ∀ z ∈ s.arena.subtreeIds p.node.id,
      y ≠ copyId s.drawn (s.arena.subtreeIds p.node.id) z) (now : Timestamp) :
    (s.copied p now).arena.get? y = s.arena.get? y := by
  simp only [copied, Arena.stamp, Arena.adopt]
  rw [Table.get?_modify_of_ne hyt, Table.get?_modify_of_ne hyt]
  exact get?_insertMany_copies h hx hy now

/-- A subtree that is copied to a directory where its name is free. -/
theorem Sound.copied_copied (h : s.Sound) (hx : s.node? p.node.id = some p.node)
    (hd : s.node? p.target.id = some p.target)
    (hg : s.arena.MayCopy p.node.id p.target.id p.name) (now : Timestamp) :
    s.Copied p.node.id p.target.id p.name now
      (copyId s.drawn (s.arena.subtreeIds p.node.id)) (s.copied p now) := by
  obtain ⟨d, hd', hk⟩ := hg.directory
  obtain rfl := Option.some.inj (hd.symm.trans hd')
  have hc := grafted_copied h.tree h.unused hx ⟨_, hd⟩ now
  have htree := (h.copied hx hd hk hg.isName hg.free now).tree
  have hin : ∀ {y}, s.arena.AtOrBelow p.node.id y ↔ y ∈ s.arena.subtreeIds p.node.id :=
    (h.tree.mem_subtreeIds_iff hx).symm
  refine ⟨hc.injective, fun {y} hy => ?drawn, hc.fresh, fun {y k} hy hk' => ?stored,
    hc.subtreeIds h.tree htree hx, fun {k} hk' => ?target, fun {y k} hyt hk' => ?others, hc.back,
    rfl⟩
  case drawn =>
    have hlen : (s.copies p now).length = (s.arena.subtreeIds p.node.id).length := by
      simpa using congrArg List.length (ids_copies h.tree hx now)
    have hlt := List.idxOf_lt_length_of_mem (hin.1 hy)
    have hdrawn : (s.copied p now).drawn = s.drawn + (s.copies p now).length := rfl
    exact ⟨_, rfl, by omega, by omega⟩
  case stored =>
    obtain rfl := h.tree.keyed hk'
    exact get?_copyId h.tree h.unused hx hd (hin.1 hy) hk' now
  case target =>
    have hold := get?_insertMany_copies h.tree hx (fun z _ => ne_copyId h.unused hk' _ z) now
    simp only [node?] at hk' ⊢
    simp only [Workspace.copied, Arena.stamp, Arena.adopt]
    rw [Table.get?_modify_self, Table.get?_modify_self, hold, hk']
    rfl
  case others =>
    exact (get?_copied_of_ne h.tree hx hyt (fun z _ => ne_copyId h.unused hk' _ z) now).trans hk'

end Workspace

/-! ## Copies that succeed -/

namespace World

variable {σ : Type} {h : Host σ} {w : World σ} {id t : NodeId} {name? : Option String}

theorem checked_of_copy {m : Node} {w' : World σ} (he : w.copy h id t name? = (.ok m, w')) :
    ∃ p, w.space.checkCopy id t name? = .ok p := by
  cases copy_ends he with
  | copied hc | written hc => exact ⟨_, hc⟩

/-- What a copy does that its check has passed. -/
theorem copy_of_checkCopy (hs : w.space.Sound) (hf : w.space.boundRoot = none)
    {p : Workspace.Placement} (hc : w.space.checkCopy id t name? = .ok p) :
    ∃ m w', w.copy h id t name? = (.ok m, w') ∧ w'.disk = w.disk ∧
      ∃ n twin, w.space.node? id = some n ∧ w'.space.node? (twin id) = some m ∧
        w.space.Copied id t (name?.getD n.name) h.now twin w'.space := by
  have hp := Workspace.found_of_checkCopy hs.tree hc
  have hcopied := hs.copied_copied hp.node hp.target (Workspace.mayCopy_of_checkCopy hs.tree hc)
    h.now
  have hm := hcopied.stored (.refl _ _) hp.node
  obtain rfl := hp.nodeId
  obtain rfl := hp.targetId
  rcases he : w.copy h p.node.id p.target.id name? with ⟨a, w'⟩
  cases copy_ends he with
  | rejected hc' => cases hc.symm.trans hc'
  | unlisted _ hb | unseen _ hb | interrupted _ hb | written _ hb => cases hf.symm.trans hb
  | copied hc' _ hw ha =>
    obtain rfl := Except.ok.inj (hc.symm.trans hc')
    subst hw
    obtain rfl := (congrArg Prod.fst (answer_eq_ok (w := { w with space := _ }) hm)).symm.trans ha
    exact ⟨_, _, rfl, rfl, p.node, _, hp.node, hm, hp.name ▸ hcopied⟩

/-- When a copy in a free workspace succeeds, and what it makes of the workspace. -/
theorem copied_of_reachable (hr : w.Reachable) (hf : w.space.boundRoot = none) (h : Host σ) :
    (∀ {id t name? m w'}, w.copy h id t name? = (.ok m, w') → w'.disk = w.disk ∧
      ∃ n twin, w.space.node? id = some n ∧ w'.space.node? (twin id) = some m ∧
        w.space.Copied id t (name?.getD n.name) h.now twin w'.space) ∧
    ∀ {id t name?}, (∃ m w', w.copy h id t name? = (.ok m, w')) ↔
      ∃ n, w.space.node? id = some n ∧ w.space.arena.MayCopy id t (name?.getD n.name) := by
  have hs := hr.sound
  refine ⟨fun {id t name? m w'} he => ?_, fun {id t name?} => ⟨fun ⟨m, w', he⟩ => ?_, fun hg => ?_⟩⟩
  · obtain ⟨p, hp⟩ := checked_of_copy he
    obtain ⟨m', w'', he', hcopied⟩ := copy_of_checkCopy (h := h) hs hf hp
    obtain ⟨hm, rfl⟩ := Prod.mk.inj (he.symm.trans he')
    obtain rfl := Except.ok.inj hm
    exact hcopied
  · exact (Workspace.exists_checkCopy_iff hs.tree).1 (checked_of_copy he)
  · obtain ⟨p, hp⟩ := (Workspace.exists_checkCopy_iff hs.tree).2 hg
    obtain ⟨m, w', he, -⟩ := copy_of_checkCopy (h := h) hs hf hp
    exact ⟨m, w', he⟩

/-- A directory with a file is copied beside itself, but not under the name that it has there. -/
theorem copied_nested :
    (nestedWorld.Reachable ∧ nestedWorld.space.boundRoot = none) ∧
      (∃ m w' twin, nestedWorld.copy memoryHost "n1" rootId (some "d") = (.ok m, w') ∧
        nestedWorld.space.Copied "n1" rootId "d" default twin w'.space ∧
        twin "n1" = "n4" ∧ w'.space.pathOf "n5" = "/d/c") ∧
      ¬ ∃ m w', nestedWorld.copy memoryHost "n1" rootId none = (.ok m, w') := by
  have hfree : nestedWorld.space.boundRoot = none := by decide +kernel
  have htree := reachable_nestedWorld.sound.tree
  obtain ⟨hcopy, hok⟩ := copied_of_reachable reachable_nestedWorld hfree memoryHost
  refine ⟨⟨reachable_nestedWorld, hfree⟩, ?_, fun hagain => ?_⟩
  · have hcheck : (nestedWorld.copy memoryHost "n1" rootId (some "d")).1.toOption.map Node.id =
          some "n4" ∧
        (nestedWorld.copy memoryHost "n1" rootId (some "d")).2.space.pathOf "n5" = "/d/c" := by
      decide +kernel
    obtain ⟨hid, hpath⟩ := hcheck
    cases hm : (nestedWorld.copy memoryHost "n1" rootId (some "d")).1 with
    | error e =>
      rw [hm] at hid
      cases hid
    | ok m =>
      rw [hm] at hid
      have he : nestedWorld.copy memoryHost "n1" rootId (some "d") =
          (.ok m, (nestedWorld.copy memoryHost "n1" rootId (some "d")).2) := Prod.ext hm rfl
      obtain ⟨-, n, twin, hn, htop, hcopied⟩ := hcopy he
      obtain rfl := Option.some.inj (htop.symm.trans (hcopied.stored (.refl _ _) hn))
      have htwin : twin n.id = "n4" := Option.some.inj hid
      rw [htree.keyed hn] at htwin
      exact ⟨_, _, twin, he, hcopied, htwin, hpath⟩
  · obtain ⟨n, hn, hg⟩ := hok.1 hagain
    have hroot : (nestedWorld.space.node? "n1").map Node.parentId = some (some rootId) := by
      decide +kernel
    rw [hn, Option.map_some] at hroot
    exact hg.free hn (Option.some.inj hroot) rfl

end World

end Workbench
