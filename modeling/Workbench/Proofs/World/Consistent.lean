import Workbench.Proofs.World.Runs

/-!
# Consistent workspaces

What a sound workspace looks like to those who read it, said without the notions that the proofs
use: through the nodes, the children that they list and the tabs alone. Every workspace that is
reached looks like this.
-/

namespace Workbench

/-- A directory lists a node as a child. -/
def Workspace.ListsChild (s : Workspace) (p c : NodeId) : Prop :=
  ∃ d, s.node? p = some d ∧ c ∈ d.children

/-- A tree of files and directories, and tabs over its files. -/
structure Workspace.Consistent (s : Workspace) : Prop where
  /-- The root is there, is a directory and has no parent. -/
  root : ∃ r, s.node? rootId = some r ∧ r.kind = .directory ∧ r.parentId = none
  /-- Nodes are stored under their own ids. -/
  keyed : ∀ {id n}, s.node? id = some n → n.id = id
  /-- Every other node names an existing directory as its parent, which lists it once, and no other
  node lists it. -/
  listedOnce : ∀ {id n}, s.node? id = some n → id ≠ rootId →
    ∃ p d, n.parentId = some p ∧ s.node? p = some d ∧ d.kind = .directory ∧
      d.children.count id = 1 ∧ ∀ {q}, s.ListsChild q id → q = p
  /-- Every child that is listed exists and names the node that lists it. -/
  childrenExist : ∀ {p c}, s.ListsChild p c → ∃ m, s.node? c = some m ∧ m.parentId = some p
  acyclic : ∀ id, ¬ Relation.TransGen s.ListsChild id id
  reached : ∀ {id n}, s.node? id = some n → Relation.ReflTransGen s.ListsChild rootId id
  /-- Siblings have different names. -/
  siblings : ∀ {id n}, s.node? id = some n → ((s.arena.childrenOf n).map Node.name).Nodup
  /-- Files have no children, and their size is the length of their content in UTF-8. -/
  files : ∀ {id n}, s.node? id = some n → n.kind = .file →
    n.children = [] ∧ n.size = n.content.utf8ByteSize
  tabsDistinct : s.tabs.openIds.Nodup
  tabsAreFiles : ∀ id ∈ s.tabs.openIds, ∃ n, s.node? id = some n ∧ n.kind = .file
  activeIsOpen : ∀ id ∈ s.tabs.activeId, id ∈ s.tabs.openIds
  activeIffOpen : s.tabs.activeId.isSome = true ↔ s.tabs.openIds ≠ []

namespace Workspace

variable {s : Workspace}

/-- A directory lists exactly the nodes that name it. -/
theorem listsChild_iff (h : s.arena.IsTree) {p c : NodeId} :
    s.ListsChild p c ↔ s.arena.Holds p c := by
  constructor
  · rintro ⟨d, hd, hc⟩
    exact h.listed hd hc
  · intro hpc
    obtain ⟨d, hd⟩ := h.mem_of_holds hpc
    exact ⟨d, hd, (h.mem_children_iff hd).2 hpc⟩

/-- The names of the children of a node are distinct. -/
theorem nodup_names_childrenOf (h : s.arena.IsTree) {id : NodeId} {n : Node}
    (hn : s.arena.get? id = some n) : ((s.arena.childrenOf n).map Node.name).Nodup := by
  have hmem : ∀ {m}, m ∈ s.arena.childrenOf n →
      s.arena.get? m.id = some m ∧ m.parentId = some id ∧ m.id ∈ n.children := by
    intro m hm
    obtain ⟨c, hc, hm⟩ := List.mem_filterMap.1 hm
    obtain rfl := h.keyed hm
    obtain ⟨m', hm', hp⟩ := h.listed hn hc
    exact ⟨hm, Option.some.inj (hm.symm.trans hm') ▸ hp, hc⟩
  have hnodup : (s.arena.childrenOf n).Nodup := by
    refine (h.once hn).filterMap fun c d m hc hd => ?_
    exact (h.keyed hc).symm.trans (h.keyed hd)
  refine hnodup.map_on fun m hm k hk he => ?_
  obtain ⟨hm, hmp, -⟩ := hmem hm
  obtain ⟨hk, hkp, -⟩ := hmem hk
  have hid : m.id = k.id := h.siblings hm hk (hmp.trans hkp.symm) he
  exact Option.some.inj ((hid ▸ hm).symm.trans hk)

theorem listsChild_eq (h : s.arena.IsTree) : s.ListsChild = s.arena.Holds := by
  funext p c
  exact propext (listsChild_iff h)

theorem Sound.consistent (h : s.Sound) : s.Consistent := by
  have hlist := listsChild_eq h.tree
  refine ⟨h.tree.root, h.tree.keyed, fun {id n} hn hne => ?_, fun {p c} hpc => ?_, fun id => ?_,
    fun hn => ?_, nodup_names_childrenOf h.tree, fun hn hk => ⟨(h.tree.fit hn).leaf hk,
    (h.tree.fit hn).sized⟩, h.tabs.nodup, fun id hid => h.files hid, fun id hid =>
    h.tabs.activeId_mem hid, ?_⟩
  · obtain ⟨p, d, hp, hd, hmem⟩ := h.tree.held hn hne
    refine ⟨p, d, hp, hd, Node.kind_of_mem_children (h.tree.fit hd) hmem, ?_, fun {q} hq => ?_⟩
    · exact List.count_eq_one_of_mem (h.tree.once hd) hmem
    · rw [hlist] at hq
      exact hq.unique ⟨n, hn, hp⟩
  · rw [hlist] at hpc
    exact hpc
  · rw [hlist]
    exact h.tree.acyclic id
  · rw [hlist]
    exact h.tree.reached hn
  · rw [Option.isSome_iff_ne_none, ne_eq, h.tabs.activeId_eq_none_iff]

end Workspace

namespace World

variable {σ : Type}

/-- Whatever is done to a workspace and whatever the disk does, the tree stays a tree and the tabs
stay tabs of its files. -/
theorem consistent_of_reachable {w : World σ} (hr : w.Reachable) : w.space.Consistent :=
  hr.sound.consistent

/-- A bridge that lists a file in a directory and never finishes a call. It counts what it is asked
for. -/
def lateBridge : Bridge Nat where
  ignored := []
  maxDepth := none
  list now _ asked := (.ok [.directory "a" now [.file "b" "text" 4 now]], asked + 1)
  perform _ _ asked := (.error ⟨.timeout, "late"⟩, asked + 1)

def lateHost : Host Nat := ⟨some lateBridge, default⟩

theorem lawful_lateHost : lateHost.Lawful := by
  rintro b hb now root d F d' hl
  obtain rfl := Option.some.inj hb
  obtain rfl := Except.ok.inj (congrArg Prod.fst hl)
  have hfile : DiskEntry.Proper (.file "b" "text" 4 now) := .file (by decide)
  refine ⟨List.nodup_singleton _, fun e he => ?_⟩
  obtain rfl := List.mem_singleton.1 he
  refine .directory (by decide) (List.nodup_singleton _) fun e he => ?_
  exact List.mem_singleton.1 he ▸ hfile

/-- A workspace that is bound to this bridge. -/
def lateWorld : World Nat :=
  ((Operation.bind "/disk").run lateHost ⟨.new "/home/user" default, 0⟩).2

/-- A workspace is consistent after it has been bound to this bridge, has opened a tab, and has in
vain tried to delete what it shows. -/
theorem consistent_of_late :
    let opened := ((Operation.openTab "n2").run lateHost lateWorld).2
    let refused := (Operation.delete "n1" true).run lateHost opened
    refused.1 = .error (.refused (.bridgeTimedOut "delete")) ∧ refused.2.disk = 2 ∧
      refused.2.space.tabs.openIds = ["n2"] ∧ refused.2.space.Consistent := by
  refine ⟨by decide +kernel, by decide +kernel, by decide +kernel, ?_⟩
  have hw : lateWorld.Reachable := .step (.new _ _ _) lawful_lateHost _
  exact consistent_of_reachable (.step (.step hw lawful_lateHost _) lawful_lateHost _)

end World

end Workbench
