import Workbench.Proofs.Tabs
import Workbench.Proofs.Workspace.Edits

/-!
# Sound workspaces

A workspace is sound when its arena is a tree, its tab bar is sound, the open tabs are files of the
tree, and the ids that are not yet drawn are not in use. Every edit keeps a workspace sound where
its check has passed; the lemmas take what the check finds, not the check itself.
-/

namespace Workbench.Workspace

/-- A tree with a sound tab bar over its files, and ids left to draw. -/
structure Sound (s : Workspace) : Prop where
  tree : s.arena.IsTree
  tabs : s.tabs.Sound
  files : ∀ {id}, id ∈ s.tabs.openIds → ∃ n, s.arena.get? id = some n ∧ n.kind = .file
  unused : s.arena.Unused s.drawn

variable {s : Workspace} {id : NodeId} {n d : Node} {p : Placement} {now : Timestamp}

theorem Sound.new (home : String) (now : Timestamp) : (Workspace.new home now).Sound :=
  ⟨.new now, .empty, fun hid => (nomatch hid), .new now _⟩

namespace Sound

/-- Another tree under the same tabs, in which the open files are still files. -/
theorem replant (h : s.Sound) {a : Arena} {drawn : Nat} (ha : a.IsTree) (hu : a.Unused drawn)
    (hk : ∀ {id n}, id ∈ s.tabs.openIds → s.arena.get? id = some n →
      ∃ m, a.get? id = some m ∧ m.kind = n.kind) :
    Sound { s with arena := a, drawn := drawn } where
  tree := ha
  tabs := h.tabs
  files hid := by
    obtain ⟨n, hn, hkind⟩ := h.files hid
    obtain ⟨m, hm, hmn⟩ := hk hid hn
    exact ⟨m, hm, hmn.trans hkind⟩
  unused := hu

/-- Other tabs over the same tree. -/
theorem retab (h : s.Sound) {t : Tabs} (ht : t.Sound)
    (hf : ∀ {id}, id ∈ t.openIds → ∃ n, s.arena.get? id = some n ∧ n.kind = .file) :
    Sound { s with tabs := t } :=
  ⟨h.tree, ht, hf, h.unused⟩

theorem closeMany (h : s.Sound) (targets : List NodeId) :
    Sound { s with tabs := (s.tabs.closeMany targets).2 } :=
  h.retab (h.tabs.closeMany targets) fun hid => h.files (h.tabs.mem_closeMany.1 hid).1

theorem closeTab (h : s.Sound) (id : NodeId) : (s.closeTab id).2.Sound :=
  h.retab (h.tabs.close id) fun hid =>
    h.files (List.mem_of_mem_erase (Tabs.openIds_close _ _ ▸ hid))

theorem closeAllTabs (h : s.Sound) : s.closeAllTabs.Sound :=
  h.retab .closeAll fun hid => (nomatch hid)

theorem opened (h : s.Sound) (hn : s.arena.get? id = some n) (hk : n.kind = .file) :
    Sound { s with tabs := s.tabs.opened id } :=
  h.retab (h.tabs.opened id) fun {x} hx => by
    rcases Tabs.mem_opened.1 hx with rfl | hx
    · exact ⟨n, hn, hk⟩
    · exact h.files hx

theorem unbound (h : s.Sound) : s.unbound.Sound := ⟨h.tree, h.tabs, h.files, h.unused⟩

/-! ## Changes to single nodes -/

/-- Changing nodes in time and marks only. -/
theorem modify (h : s.Sound) {f : Node → Node}
    (hf : ∀ n, (f n).Alike n ∧ (f n).children = n.children) :
    Sound { s with arena := s.arena.modify id f } :=
  h.replant (h.tree.modify_alike hf)
    (h.unused.of_back fun hm =>
      have ⟨n, hn, _⟩ := Arena.alike_of_modify (fun n => (hf n).1) hm
      ⟨n, hn⟩)
    fun _ hn =>
      have ⟨m, hm, hmn⟩ := Arena.exists_alike_modify (fun n => (hf n).1) hn id
      ⟨m, hm, hmn.kind⟩

theorem touched (h : s.Sound) (id : NodeId) (now : Timestamp) : (s.touched id now).Sound :=
  h.modify fun _ => ⟨⟨rfl, rfl, rfl, rfl, rfl, rfl⟩, rfl⟩

theorem marked (h : s.Sound) (id : NodeId) (changes : NodeUpdate) :
    (s.marked id changes).Sound :=
  h.modify fun _ => ⟨⟨rfl, rfl, rfl, rfl, rfl, rfl⟩, rfl⟩

theorem refilled (h : s.Sound) (hn : s.arena.get? id = some n) (hk : n.kind = .file)
    (content : String) (now : Timestamp) : (s.refilled id content now).Sound := by
  refine h.replant (h.tree.modify fun m hm => ?_) (h.unused.of_back fun {y m} hm => ?_)
    fun {y m} _ hm => ?_
  · obtain rfl := Option.some.inj (hn.symm.trans hm)
    refine ⟨⟨rfl, rfl, rfl, rfl⟩, rfl, (h.tree.fit hn).named, (h.tree.fit hn).leaf, rfl, ?_⟩
    intro hd
    have hd : n.kind = .directory := hd
    rw [hk] at hd
    cases hd
  · rw [Table.get?_modify] at hm
    split at hm
    · next hy =>
      subst hy
      exact ⟨n, hn⟩
    · exact ⟨m, hm⟩
  · rw [Table.get?_modify]
    split
    · next hy =>
      subst hy
      exact ⟨m.withContent content now, by rw [hm]; rfl, rfl⟩
    · exact ⟨m, hm, rfl⟩

/-! ## Adding and removing nodes -/

/-- There is room for a new node where its name is free. -/
theorem room (h : s.Sound) (hd : s.arena.get? id = some d) (hk : d.kind = .directory)
    {name : String} (hname : Path.isName name = true)
    (hfree : s.arena.childNamed? d name = none) (kind : NodeKind) (content : String)
    (now : Timestamp) : s.arena.Room id (s.drawnNode kind name id content now) := by
  have hid : (s.drawnNode kind name id content now).id = drawnNodeId (s.drawn + 1) := by
    unfold drawnNode
    split <;> rfl
  refine ⟨⟨d, hd, hk⟩, hid ▸ h.unused _ (by omega), ?_, ?_, ⟨fun _ => ?_, fun _ => ?_, ?_, ?_⟩, ?_⟩
  all_goals unfold drawnNode
  · split <;> rfl
  · split <;> rfl
  · split <;> exact hname
  · split <;> rfl
  · split
    · rfl
    · rfl
  · cases kind with
    | file => exact fun hd => (nomatch hd)
    | directory => exact fun _ => rfl
  · intro c m hm hp
    have := (h.tree.childNamed?_eq_none_iff hd).1 hfree c m hm hp
    split <;> exact this

/-- A workspace with one new node is sound, and has grown by it. -/
theorem added (h : s.Sound) (hr : s.arena.Room id n)
    (hid : n.id = drawnNodeId (s.drawn + 1)) (now : Timestamp) :
    (s.added n id now).Sound ∧ s.arena.Grows id [n.name] (s.added n id now).arena := by
  have hg : s.arena.Grows id [n.name] ((s.arena.attach id n).stamp id now) :=
    (hr.grows h.tree).stamp id now
  refine ⟨h.replant hg.isTree (fun j hj => ?_) fun _ hm => ?_, hg⟩
  · cases hm : Table.get? ((s.arena.attach id n).stamp id now) (drawnNodeId j) with
    | none => rfl
    | some m =>
      obtain ⟨m', hm', -⟩ := Arena.alike_of_modify (f := fun k => { k with modifiedAt := now })
        (fun _ => ⟨rfl, rfl, rfl, rfl, rfl, rfl⟩) hm
      rcases hr.get?_cases hm' with ⟨he, -⟩ | ⟨k, hk, -⟩
      · rw [hid] at he
        have := drawnNodeId_injective he
        omega
      · rw [h.unused j (by omega)] at hk
        cases hk
  · obtain ⟨k, hk, ha⟩ := hg.kept hm
    exact ⟨k, hk, ha.kind⟩

theorem removed (h : s.Sound) (hn : s.arena.get? id = some n) {q : NodeId}
    (hp : n.parentId = some q) (now : Timestamp) : (s.removed n q now).Sound := by
  have hid := h.tree.keyed hn
  have hne : id ≠ rootId := by
    rintro rfl
    rw [(h.tree.parentId_eq_none_iff hn).2 rfl] at hp
    cases hp
  subst hid
  have hpr := Arena.pruned_erase h.tree hn hp now
  refine ⟨hpr.isTree h.tree hne, h.tabs.closeMany _, fun {x} hx => ?_, h.unused.of_back hpr.back⟩
  obtain ⟨hopen, hout⟩ := h.tabs.mem_closeMany.1 hx
  obtain ⟨k, hk, hkind⟩ := h.files hopen
  obtain ⟨m, hm, ha, -⟩ := hpr.kept (fun hb => hout ((h.tree.mem_subtreeIds_iff hn).2 hb)) hk
  exact ⟨m, hm, ha.kind.trans hkind⟩

/-- Where a subtree moves, the nodes keep their kinds. -/
theorem replant_moved (h : s.Sound) {x t : NodeId} {name : String} {a : Arena}
    (hm : s.arena.Moved x t name a) (hg : s.arena.MayGo x t name) :
    Sound { s with arena := a } := by
  refine h.replant (hm.isTree h.tree hg) (h.unused.of_back hm.back) fun {y k} _ hk => ?_
  by_cases hyx : y = x
  · subst hyx
    obtain ⟨m, hm', ha, -⟩ := hm.top hk
    exact ⟨m, hm', ha.kind⟩
  · obtain ⟨m, hm', ha, -⟩ := hm.kept hyx hk
    exact ⟨m, hm', ha.kind⟩

/-- Giving a node another name in its directory is a move to where it is. -/
theorem moved_renamed (h : s.Sound) (hn : s.arena.get? p.node.id = some p.node)
    (hp : p.node.parentId = some p.target.id) (now : Timestamp) :
    s.arena.Moved p.node.id p.target.id p.name (s.renamed p now).arena :=
  Arena.moved_rename h.tree hn hp p.name

/-- Taking a node to another directory. -/
theorem moved_moved (h : s.Sound) (hn : s.arena.get? p.node.id = some p.node) {q : NodeId}
    (hp : p.node.parentId = some q) (hg : s.arena.MayGo p.node.id p.target.id p.name)
    (now : Timestamp) :
    s.arena.Moved p.node.id p.target.id p.name (s.moved p q now).arena := by
  obtain ⟨d, hd, -⟩ := hg.directory
  exact Arena.moved_attach h.tree hn hp ⟨d, hd⟩ (fun he => hg.outside (he ▸ .refl _ _)) rfl
    ⟨rfl, rfl, rfl, rfl, rfl, rfl⟩ rfl

/-- A directory has a place for a copy of a subtree where the name is free. -/
theorem copied (h : s.Sound) (hn : s.arena.get? p.node.id = some n)
    (hd : s.arena.get? p.target.id = some d) (hk : d.kind = .directory)
    (hname : Path.isName p.name = true)
    (hfree : ∀ {c m}, s.arena.get? c = some m → m.parentId = some p.target.id → m.name ≠ p.name)
    (now : Timestamp) : (s.copied p now).Sound := by
  have hc := grafted_copied h.tree h.unused hn ⟨d, hd⟩ now
  refine h.replant (hc.isTree h.tree hn ⟨d, hd, hk⟩ hname hfree) (fun j hj => ?_) fun _ hm => ?_
  · cases hm : (s.copied p now).arena.get? (drawnNodeId j) with
    | none => exact hm
    | some m =>
      -- every copy has one of the ids that are drawn for the subtree
      have hlen : (s.copies p now).length = (s.arena.subtreeIds p.node.id).length := by
        simpa using congrArg List.length (ids_copies h.tree hn now)
      rcases hc.back hm with ⟨k, hk⟩ | ⟨y, hb, he⟩
      · rw [h.unused j (by omega)] at hk
        cases hk
      · have hlt := List.idxOf_lt_length_of_mem ((h.tree.mem_subtreeIds_iff hn).2 hb)
        have := drawnNodeId_injective he
        omega
  · obtain ⟨m, hm', ha, -⟩ := hc.old hm
    exact ⟨m, hm', ha.kind⟩

end Sound

end Workbench.Workspace
