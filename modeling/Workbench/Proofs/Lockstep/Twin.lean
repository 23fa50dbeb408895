import Workbench.Proofs.Lockstep.Tabs
import Workbench.Proofs.Workspace.Effect

/-!
# Workspaces that agree

Two workspaces agree when their trees show the same and their tabs correspond, whatever ids the
nodes have: nodes correspond by their places. Changes of one effect lead from workspaces that agree
to workspaces that agree, and nodes that corresponded before go on together (`Twin.effect`).
-/

namespace Workbench.Workspace

open Relator (BiUnique)

variable {s t u s' t' s'' t'' : Workspace} {x y x' y' c d id : NodeId} {n m : Node}
  {q : List String} {τ : Course} {S : Shape}

/-- Two nodes at one place. -/
def Paired (s t : Workspace) (x y : NodeId) : Prop :=
  ∃ q, s.arena.Leads x q ∧ t.arena.Leads y q

/-- Two workspaces that agree in everything but ids, times, marks and the order of children. -/
structure Twin (s t : Workspace) : Prop where
  left : s.Sound
  right : t.Sound
  home : s.home = t.home
  shows : s.arena.Shows = t.arena.Shows
  tabs : Tabs.Alike (Paired s t) s.tabs t.tabs

/-- A node of one workspace and a node of another that agree. -/
structure SameNode (s t : Workspace) (n m : Node) : Prop where
  left : s.arena.get? n.id = some n
  right : t.arena.get? m.id = some m
  paired : Paired s t n.id m.id
  name : n.name = m.name
  kind : n.kind = m.kind
  content : n.content = m.content
  size : n.size = m.size
  parentId : Option.Rel (Paired s t) n.parentId m.parentId

/-- Nodes that corresponded go on together, and what has come new was never in use before. -/
structure Onward (s t s' t' : Workspace) : Prop where
  leads_iff : ∀ {x y q}, Paired s t x y → (s'.arena.Leads x q ↔ t'.arena.Leads y q)
  left : ∀ {x n}, s'.arena.get? x = some n → s.arena.get? x = none →
    ∃ j, s.drawn < j ∧ x = drawnNodeId j
  right : ∀ {y n}, t'.arena.get? y = some n → t.arena.get? y = none →
    ∃ j, t.drawn < j ∧ y = drawnNodeId j
  left_le : s.drawn ≤ s'.drawn
  right_le : t.drawn ≤ t'.drawn

/-! ## Nodes that correspond -/

namespace Twin

theorem biUnique (h : Twin s t) : BiUnique (Paired s t) := by
  constructor
  · rintro x z y ⟨q, hx, hy⟩ ⟨r, hz, hy'⟩
    rw [h.right.tree.leads_unique hy' hy] at hz
    exact h.left.tree.leads_injective hx hz
  · rintro x y z ⟨q, hx, hy⟩ ⟨r, hx', hz⟩
    rw [h.left.tree.leads_unique hx' hx] at hz
    exact h.right.tree.leads_injective hy hz

theorem refl (h : s.Sound) : Twin s s where
  left := h
  right := h
  home := rfl
  shows := rfl
  tabs := by
    have hp : ∀ {x}, x ∈ s.tabs.openIds → Paired s s x x := fun hx => by
      obtain ⟨n, hn, -⟩ := h.files hx
      obtain ⟨q, hl⟩ := h.tree.exists_leads hn
      exact ⟨q, hl, hl⟩
    refine ⟨List.forall₂_same.2 fun x hx => hp hx, ?_⟩
    cases ha : s.tabs.activeId with
    | none => exact .none
    | some x => exact .some (hp (h.tabs.activeId_mem ha))

theorem exists_right (h : Twin s t) (hx : s.arena.Leads x q) : ∃ y, t.arena.Leads y q := by
  obtain ⟨n, hn⟩ := h.left.tree.mem_of_leads hx
  have hs : s.arena.Shows q n.shown := ⟨x, n, hx, hn, rfl⟩
  rw [h.shows] at hs
  obtain ⟨y, m, hy, -, -⟩ := hs
  exact ⟨y, hy⟩

theorem exists_left (h : Twin s t) (hy : t.arena.Leads y q) : ∃ x, s.arena.Leads x q := by
  obtain ⟨m, hm⟩ := h.right.tree.mem_of_leads hy
  have hs : t.arena.Shows q m.shown := ⟨y, m, hy, hm, rfl⟩
  rw [← h.shows] at hs
  obtain ⟨x, n, hx, -, -⟩ := hs
  exact ⟨x, hx⟩

theorem exists_paired (h : Twin s t) (hn : s.arena.get? x = some n) : ∃ y, Paired s t x y := by
  obtain ⟨q, hx⟩ := h.left.tree.exists_leads hn
  obtain ⟨y, hy⟩ := h.exists_right hx
  exact ⟨y, q, hx, hy⟩

theorem exists_paired' (h : Twin s t) (hm : t.arena.get? y = some m) : ∃ x, Paired s t x y := by
  obtain ⟨q, hy⟩ := h.right.tree.exists_leads hm
  obtain ⟨x, hx⟩ := h.exists_left hy
  exact ⟨x, q, hx, hy⟩

theorem paired_root (s t : Workspace) : Paired s t rootId rootId := ⟨[], .root, .root⟩

theorem eq_root_iff (h : Twin s t) (hp : Paired s t x y) : x = rootId ↔ y = rootId :=
  Tabs.rel_iff h.biUnique hp (paired_root s t)

/-- Nodes at one place agree. -/
theorem sameNode (h : Twin s t) (hp : Paired s t x y) (hn : s.arena.get? x = some n)
    (hm : t.arena.get? y = some m) : SameNode s t n m := by
  have hx := h.left.tree.keyed hn
  have hy := h.right.tree.keyed hm
  subst hx
  subst hy
  have hshown : n.shown = m.shown := by
    obtain ⟨q, hx, hy⟩ := hp
    have hs : t.arena.Shows q n.shown := h.shows ▸ ⟨_, n, hx, hn, rfl⟩
    exact ((h.right.tree.shows_iff hy hm).1 hs).symm
  have hkind := Node.kind_eq_of_shown hshown
  have hcontent : n.content = m.content := by
    cases hk : n.kind with
    | file =>
      rw [Node.shown, if_pos (Node.isFile_iff.2 hk), Node.shown,
        if_pos (Node.isFile_iff.2 (hkind ▸ hk))] at hshown
      exact Option.some.inj hshown
    | directory => rw [(h.left.tree.fit hn).bare hk, (h.right.tree.fit hm).bare (hkind ▸ hk)]
  have hnp : n.name = m.name ∧ Option.Rel (Paired s t) n.parentId m.parentId := by
    obtain ⟨q, hx, hy⟩ := hp
    generalize hnid : n.id = i at hx hn
    generalize hmid : m.id = j at hy hm
    cases hx with
    | root =>
      obtain rfl := h.right.tree.leads_injective .root hy
      rw [h.left.tree.unnamed hn, h.right.tree.unnamed hm,
        (h.left.tree.parentId_eq_none_iff hn).2 rfl, (h.right.tree.parentId_eq_none_iff hm).2 rfl]
      exact ⟨rfl, .none⟩
    | @child a _ n' names habove hn' hpar =>
      obtain rfl := Option.some.inj (hn.symm.trans hn')
      obtain ⟨b, hb⟩ := h.exists_right habove
      obtain ⟨m', hm', hpar', hname⟩ := (h.right.tree.leads_append_iff hb).1 hy
      obtain rfl := Option.some.inj (hm.symm.trans hm')
      rw [hpar, hpar']
      exact ⟨hname.symm, .some ⟨names, habove, hb⟩⟩
  refine ⟨hn, hm, hp, hnp.1, hkind, hcontent, ?_, hnp.2⟩
  rw [(h.left.tree.fit hn).sized, (h.right.tree.fit hm).sized, hcontent]

theorem exists_sameNode (h : Twin s t) (hp : Paired s t x y) (hn : s.arena.get? x = some n) :
    ∃ m, t.arena.get? y = some m ∧ SameNode s t n m := by
  obtain ⟨q, hx, hy⟩ := hp
  obtain ⟨m, hm⟩ := h.right.tree.mem_of_leads hy
  exact ⟨m, hm, h.sameNode ⟨q, hx, hy⟩ hn hm⟩

/-- The children of nodes that correspond are the ones that correspond. -/
theorem mem_children_iff (h : Twin s t) (hnm : SameNode s t n m) (hcd : Paired s t c d) :
    c ∈ n.children ↔ d ∈ m.children := by
  rw [h.left.tree.mem_children_iff hnm.left, h.right.tree.mem_children_iff hnm.right]
  have key : ∀ {k l}, s.arena.get? c = some k → t.arena.get? d = some l →
      (k.parentId = some n.id ↔ l.parentId = some m.id) := by
    intro k l hk hl
    have hkl := (h.sameNode hcd hk hl).parentId
    generalize k.parentId = a at hkl
    generalize l.parentId = b at hkl
    cases hkl with
    | none => simp
    | some hab => rw [Option.some.injEq, Option.some.injEq, Tabs.rel_iff h.biUnique hab hnm.paired]
  obtain ⟨q, hc, hd⟩ := hcd
  obtain ⟨k, hk⟩ := h.left.tree.mem_of_leads hc
  obtain ⟨l, hl⟩ := h.right.tree.mem_of_leads hd
  constructor
  · rintro ⟨k', hk', hp⟩
    obtain rfl := Option.some.inj (hk.symm.trans hk')
    exact ⟨l, hl, (key hk hl).1 hp⟩
  · rintro ⟨l', hl', hp⟩
    obtain rfl := Option.some.inj (hl.symm.trans hl')
    exact ⟨k, hk, (key hk hl).2 hp⟩

theorem children_eq_nil_iff (h : Twin s t) (hnm : SameNode s t n m) :
    n.children = [] ↔ m.children = [] := by
  rw [List.eq_nil_iff_forall_not_mem, List.eq_nil_iff_forall_not_mem]
  constructor
  · intro hnone d hd
    obtain ⟨l, hl, -⟩ := h.right.tree.listed hnm.right hd
    obtain ⟨c, hcd⟩ := h.exists_paired' hl
    exact hnone c ((h.mem_children_iff hnm hcd).2 hd)
  · intro hnone c hc
    obtain ⟨k, hk, -⟩ := h.left.tree.listed hnm.left hc
    obtain ⟨d, hcd⟩ := h.exists_paired hk
    exact hnone d ((h.mem_children_iff hnm hcd).1 hc)

/-- One node lies at or below another exactly when the corresponding ones do. -/
theorem atOrBelow_iff (h : Twin s t) (hx : Paired s t x y) (hx' : Paired s t x' y') :
    s.arena.AtOrBelow x x' ↔ t.arena.AtOrBelow y y' := by
  obtain ⟨q, hx, hy⟩ := hx
  obtain ⟨q', hx', hy'⟩ := hx'
  rw [h.left.tree.atOrBelow_iff hx hx', h.right.tree.atOrBelow_iff hy hy']

end Twin

/-! ## Changes -/

theorem Onward.refl (h : Twin s t) : Onward s t s t where
  leads_iff {x y q} hp := by
    obtain ⟨r, hx, hy⟩ := hp
    exact ⟨fun hl => h.left.tree.leads_unique hl hx ▸ hy,
      fun hl => h.right.tree.leads_unique hl hy ▸ hx⟩
  left hn hnone := by rw [hnone] at hn; cases hn
  right hn hnone := by rw [hnone] at hn; cases hn
  left_le := Nat.le_refl _
  right_le := Nat.le_refl _

/-- What is gone never comes back. -/
theorem Sound.get?_eq_none_of_gone (h : s.Sound) (hle : s.drawn ≤ s'.drawn)
    (hfresh : ∀ {x n}, s''.arena.get? x = some n → s'.arena.get? x = none →
      ∃ j, s'.drawn < j ∧ x = drawnNodeId j)
    (hn : s.arena.get? x = some n) (hgone : s'.arena.get? x = none) :
    s''.arena.get? x = none := by
  cases hm : s''.arena.get? x with
  | none => rfl
  | some m =>
    obtain ⟨j, hj, rfl⟩ := hfresh hm hgone
    rw [h.unused j (by omega)] at hn
    cases hn

theorem Onward.trans (h : Onward s t s' t') (h' : Onward s' t' s'' t'') (hst : Twin s t)
    (hst' : Twin s' t') (hst'' : Twin s'' t'') : Onward s t s'' t'' where
  leads_iff {x y q} hp := by
    obtain ⟨r, hx, hy⟩ := hp
    obtain ⟨n, hn⟩ := hst.left.tree.mem_of_leads hx
    obtain ⟨m, hm⟩ := hst.right.tree.mem_of_leads hy
    cases hk : s'.arena.get? x with
    | some k =>
      obtain ⟨q', hl⟩ := hst'.left.tree.exists_leads hk
      exact h'.leads_iff ⟨q', hl, (h.leads_iff ⟨r, hx, hy⟩).1 hl⟩
    | none =>
      have hk' : t'.arena.get? y = none := by
        cases hl : t'.arena.get? y with
        | none => rfl
        | some l =>
          obtain ⟨q', hl⟩ := hst'.right.tree.exists_leads hl
          obtain ⟨k, hk'⟩ := hst'.left.tree.mem_of_leads ((h.leads_iff ⟨r, hx, hy⟩).2 hl)
          rw [hk] at hk'
          cases hk'
      have hs := hst.left.get?_eq_none_of_gone h.left_le h'.left hn hk
      have ht := hst.right.get?_eq_none_of_gone h.right_le h'.right hm hk'
      constructor
      · intro hl
        obtain ⟨k, hk⟩ := hst''.left.tree.mem_of_leads hl
        rw [hs] at hk
        cases hk
      · intro hl
        obtain ⟨k, hk⟩ := hst''.right.tree.mem_of_leads hl
        rw [ht] at hk
        cases hk
  left {x n} hn hnone := by
    cases hk : s'.arena.get? x with
    | none =>
      obtain ⟨j, hj, rfl⟩ := h'.left hn hk
      exact ⟨j, Nat.lt_of_le_of_lt h.left_le hj, rfl⟩
    | some k => exact h.left hk hnone
  right {y n} hn hnone := by
    cases hk : t'.arena.get? y with
    | none =>
      obtain ⟨j, hj, rfl⟩ := h'.right hn hk
      exact ⟨j, Nat.lt_of_le_of_lt h.right_le hj, rfl⟩
    | some k => exact h.right hk hnone
  left_le := Nat.le_trans h.left_le h'.left_le
  right_le := Nat.le_trans h.right_le h'.right_le

theorem Effect.tabs_eq (h : Effect τ S s s') : s'.tabs =
    (s.tabs.closeMany (s.tabs.openIds.filter fun x => !s'.arena.contains x)).2 := by
  obtain ⟨closed, he, hc⟩ := h.tabs
  rw [he, Tabs.closeMany_congr]
  intro x hx
  rw [hc x hx, List.mem_filter, Bool.not_eq_true', Table.contains_eq_false_iff]
  exact ⟨fun hn => ⟨hx, hn⟩, And.right⟩

/-- Changes of one effect keep workspaces in agreement. -/
theorem Twin.effect (h : Twin s t) (hs : Effect τ S s s') (ht : Effect τ S t t') :
    Twin s' t' ∧ Onward s t s' t' := by
  have hgo : ∀ {x y q}, Paired s t x y → (s'.arena.Leads x q ↔ t'.arena.Leads y q) := by
    rintro x y q ⟨r, hx, hy⟩
    rw [hs.leads_iff hx, ht.leads_iff hy]
  have hlive : ∀ {x y}, Paired s t x y → s'.arena.contains x = t'.arena.contains y := by
    intro x y hp
    rw [Bool.eq_iff_iff, Table.contains_iff, Table.contains_iff]
    constructor
    · rintro ⟨n, hn⟩
      obtain ⟨q, hl⟩ := hs.sound.tree.exists_leads hn
      exact ht.sound.tree.mem_of_leads ((hgo hp).1 hl)
    · rintro ⟨n, hn⟩
      obtain ⟨q, hl⟩ := ht.sound.tree.exists_leads hn
      exact hs.sound.tree.mem_of_leads ((hgo hp).2 hl)
  refine ⟨⟨hs.sound, ht.sound, by rw [hs.home, ht.home, h.home], hs.shows.trans ht.shows.symm, ?_⟩,
    ⟨hgo, hs.fresh, ht.fresh, hs.drawn_le, ht.drawn_le⟩⟩
  have htabs : Tabs.Alike (Paired s t) s'.tabs t'.tabs := by
    rw [hs.tabs_eq, ht.tabs_eq]
    refine h.tabs.closeMany h.biUnique fun {x y} hp => ?_
    rw [List.mem_filter, List.mem_filter, h.tabs.mem_iff h.biUnique hp, hlive hp]
  refine htabs.mono hs.sound.tabs fun {x y} hx hp => ?_
  obtain ⟨n, hn, -⟩ := hs.sound.files hx
  obtain ⟨q, hl⟩ := hs.sound.tree.exists_leads hn
  exact ⟨q, hl, (hgo hp).1 hl⟩

end Workbench.Workspace
