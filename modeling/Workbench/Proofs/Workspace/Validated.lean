import Workbench.Proofs.Arena.Visit
import Workbench.Workspace.Validation

/-!
# What the check of a workspace decides

`WellFormed` is what a tree with its tabs owes to be one, for any collection of nodes whatsoever.
Each part of the check finds nothing exactly when its part of this holds, and together they find
nothing exactly in a workspace that is well formed (`flaws_eq_nil_iff`). Two limits remain. The
visit from the root fails where the tree is broken below it, and then there is no report at all
(`flaws_eq_ok_iff`); and an empty id counts as no parent, so a node that rightly names such a
directory is reported.
-/

namespace Workbench

/-- One tree that hangs from the root, and tabs over its nodes. -/
structure Workspace.WellFormed (s : Workspace) : Prop where
  root : ∃ r, s.node? rootId = some r ∧ r.parentId = none
  keyed : ∀ {id n}, s.node? id = some n → n.id = id
  /-- Parents and children are inverse to each other. -/
  inverse : ∀ {p c}, s.arena.Lists p c ↔ ∃ n, s.node? c = some n ∧ n.parentId = some p
  once : ∀ {id n}, s.node? id = some n → n.children.Nodup
  directories : ∀ {id n}, s.node? id = some n → id ≠ rootId →
    ∃ p d, n.parentId = some p ∧ s.node? p = some d ∧ d.kind = .directory
  reached : ∀ {id n}, s.node? id = some n → Relation.ReflTransGen s.arena.Lists rootId id
  siblings : ∀ {id n}, s.node? id = some n → ((s.arena.childrenOf n).map Node.name).Nodup
  files : ∀ {id n}, s.node? id = some n → n.kind = .file →
    n.children = [] ∧ n.size = n.content.utf8ByteSize
  tabsDistinct : s.tabs.openIds.Nodup
  tabsExist : ∀ id ∈ s.tabs.openIds, ∃ n, s.node? id = some n
  activeIsOpen : ∀ id ∈ s.tabs.activeId, id ∈ s.tabs.openIds

theorem Tabs.distinct_iff {l : List String} : Tabs.distinct l = true ↔ l.Nodup := by
  induction l with
  | nil => simp [distinct]
  | cons x rest ih => simp [distinct, ih]

theorem Tabs.flaws_eq_nil_iff {t : Tabs} :
    t.flaws = [] ↔ t.openIds.Nodup ∧ ∀ id ∈ t.activeId, id ∈ t.openIds := by
  unfold flaws
  rw [List.append_eq_nil_iff]
  refine and_congr ?_ ?_
  · rw [← distinct_iff]
    cases distinct t.openIds <;> simp
  · cases t.activeId with
    | none => simp
    | some id => simp

namespace Workspace

variable {s : Workspace} {key c p : NodeId} {n d : Node}

/-! ## The parts of the check -/

theorem flawIf_eq_nil_iff {b : Bool} {f : Flaw} : flawIf b f = [] ↔ b = false := by
  cases b <;> simp [flawIf]

/-- Nothing is found about the parent of a node that names an existing directory, and not by an
empty id, which lists the node once. -/
theorem parentFlaws_eq_nil_iff : s.parentFlaws key n = [] ↔ key = rootId ∨
    ∃ p d, n.parentId = some p ∧ p ≠ "" ∧ s.node? p = some d ∧ d.kind = .directory ∧
      d.children.count key = 1 := by
  unfold parentFlaws
  by_cases hk : key = rootId
  · simp [hk]
  · rw [if_neg (by simpa using hk)]
    cases hp : n.parentId with
    | none => simp [hk]
    | some p =>
      by_cases he : p = ""
      · simp [hk, he, Option.filter]
      · cases hd : s.node? p with
        | none => simp [hk, he, hd, Option.filter]
        | some d =>
          cases hdir : d.isDirectory with
          | false => simp [hk, he, hd, hdir, Option.filter, ← Node.isDirectory_iff]
          | true =>
            simp [hk, he, hd, hdir, Option.filter, ← Node.isDirectory_iff, flawIf_eq_nil_iff]

theorem contentFlaws_eq_nil_iff : contentFlaws key n = [] ↔
    (n.kind = .file → n.children = [] ∧ n.size = n.content.utf8ByteSize) := by
  unfold contentFlaws
  cases hk : n.isFile with
  | false => simp [← Node.isFile_iff, hk]
  | true => simp [← Node.isFile_iff, hk, List.append_eq_nil_iff, flawIf_eq_nil_iff]

theorem childFlaws_eq_nil_iff :
    s.childFlaws key c = [] ↔ ∃ m, s.node? c = some m ∧ m.parentId = some key := by
  unfold childFlaws
  cases hm : s.node? c with
  | none => simp
  | some m => simp [flawIf_eq_nil_iff]

theorem nodeFlaws_eq_nil_iff : s.nodeFlaws key n = [] ↔ n.id = key ∧ s.parentFlaws key n = [] ∧
    (n.kind = .file → n.children = [] ∧ n.size = n.content.utf8ByteSize) ∧
    ((s.arena.childrenOf n).map Node.name).Nodup ∧
    ∀ c ∈ n.children, ∃ m, s.node? c = some m ∧ m.parentId = some key := by
  unfold nodeFlaws
  simp only [List.append_eq_nil_iff, flawIf_eq_nil_iff, contentFlaws_eq_nil_iff,
    List.flatMap_eq_nil_iff, childFlaws_eq_nil_iff, bne_eq_false_iff_eq, Bool.not_eq_false',
    Tabs.distinct_iff, and_assoc]

theorem tabFlaws_eq_nil_iff : s.tabFlaws = [] ↔ (s.tabs.openIds.Nodup ∧
    ∀ id ∈ s.tabs.activeId, id ∈ s.tabs.openIds) ∧
    ∀ id ∈ s.tabs.openIds, ∃ n, s.node? id = some n := by
  unfold tabFlaws
  rw [List.append_eq_nil_iff, List.map_eq_nil_iff, Tabs.flaws_eq_nil_iff, List.map_eq_nil_iff,
    List.filter_eq_nil_iff]
  simp only [Bool.not_eq_true', Bool.not_eq_false, Table.contains_iff, node?]

/-- Nothing is found lost when all nodes are met on the visit from the root. -/
theorem lost_eq_nil_iff {ids : List NodeId} (h : s.arena.visitFrom rootId = .ok ids) :
    (s.arena.keys.filter fun k => !ids.contains k) = [] ↔
      ∀ {id n}, s.node? id = some n → Relation.ReflTransGen s.arena.Lists rootId id := by
  rw [List.filter_eq_nil_iff]
  simp only [Bool.not_eq_true', Bool.not_eq_false, List.contains_iff_mem,
    Arena.mem_visitFrom_iff h]
  exact ⟨fun hall id n hn => hall id (Table.mem_keys_iff.2 ⟨n, hn⟩),
    fun hall id hid => have ⟨_, hn⟩ := Table.mem_keys_iff.1 hid; hall hn⟩

/-! ## The parts put together -/

/-- A well-formed workspace can be visited from its root. -/
theorem WellFormed.visitable (h : s.WellFormed) : s.arena.Visitable rootId := by
  have present : ∀ {x}, Relation.ReflTransGen s.arena.Lists rootId x → ∃ n, s.node? x = some n := by
    intro x hx
    cases hx with
    | refl =>
      obtain ⟨r, hr, -⟩ := h.root
      exact ⟨r, hr⟩
    | tail _ hc =>
      obtain ⟨n, hn, -⟩ := h.inverse.1 hc
      exact ⟨n, hn⟩
  have unique : ∀ {p q c}, s.arena.Lists p c → s.arena.Lists q c → p = q := by
    intro p q c hp hq
    obtain ⟨n, hn, hnp⟩ := h.inverse.1 hp
    obtain ⟨m, hm, hmq⟩ := h.inverse.1 hq
    obtain rfl := Option.some.inj (hn.symm.trans hm)
    exact Option.some.inj (hnp.symm.trans hmq)
  have hroot : ∀ {p}, ¬ s.arena.Lists p rootId := by
    intro p hp
    obtain ⟨n, hn, hnp⟩ := h.inverse.1 hp
    obtain ⟨r, hr, hnone⟩ := h.root
    obtain rfl := Option.some.inj (hn.symm.trans hr)
    rw [hnone] at hnp
    cases hnp
  refine ⟨present, fun {x} hx => ?_⟩
  -- a circle leads through the only parent of each of its nodes, and so up to the root
  induction hx with
  | refl =>
    intro hcircle
    obtain ⟨q, -, hq⟩ := Relation.TransGen.tail'_iff.1 hcircle
    exact hroot hq
  | @tail p c _ hpc ih =>
    intro hcircle
    obtain ⟨q, hcq, hqc⟩ := Relation.TransGen.tail'_iff.1 hcircle
    obtain rfl := unique hqc hpc
    exact ih (Relation.TransGen.head' hpc hcq)

/-- The check reports exactly when the root is missing, or nothing that is met from it is missing
or lies below itself. -/
theorem flaws_eq_ok_iff :
    (∃ l, s.flaws = .ok l) ↔ s.node? rootId = none ∨ s.arena.Visitable rootId := by
  unfold flaws
  cases hr : s.node? rootId with
  | none => simp
  | some r =>
    rw [← Arena.visitFrom_eq_ok_iff]
    cases hv : s.arena.visitFrom rootId with
    | error e => simp
    | ok ids => simp

/-- The check as one equation, where the visit from the root ends. -/
theorem flaws_of_visit {r : Node} {ids : List NodeId} (hr : s.node? rootId = some r)
    (hv : s.arena.visitFrom rootId = .ok ids) : s.flaws = .ok [] ↔
      r.parentId = none ∧ (∀ {id n}, s.node? id = some n → s.nodeFlaws id n = []) ∧
        (∀ {id n}, s.node? id = some n → Relation.ReflTransGen s.arena.Lists rootId id) ∧
        s.tabFlaws = [] := by
  have hflaws : s.flaws = .ok (flawIf r.parentId.isSome .rootHasParent ++
      s.arena.entries.flatMap (fun e => s.nodeFlaws e.1 e.2) ++
      flawIf (!(s.arena.keys.filter fun k => !ids.contains k).isEmpty)
        (.unreachable (s.arena.keys.filter fun k => !ids.contains k).length) ++ s.tabFlaws) := by
    unfold flaws
    rw [hr, hv]
  rw [hflaws, Except.ok.injEq, List.append_eq_nil_iff, List.append_eq_nil_iff,
    List.append_eq_nil_iff, flawIf_eq_nil_iff, flawIf_eq_nil_iff, List.flatMap_eq_nil_iff,
    Bool.not_eq_false', List.isEmpty_iff, lost_eq_nil_iff hv, Option.isSome_eq_false_iff,
    Option.isNone_iff_eq_none, and_assoc, and_assoc]
  refine and_congr_right fun _ => and_congr_left fun _ => ?_
  exact ⟨fun h {id n} hn => h (id, n) (Table.mem_entries_iff.2 hn),
    fun h e he => h (Table.mem_entries_iff.1 he)⟩

/-- The check reports no flaw exactly in a well-formed workspace in which no node names an empty
id as its parent. -/
theorem flaws_eq_nil_iff : s.flaws = .ok [] ↔
    s.WellFormed ∧ ∀ {id n}, s.node? id = some n → n.parentId ≠ some "" := by
  constructor
  · intro h
    rcases flaws_eq_ok_iff.1 ⟨[], h⟩ with hnone | hv
    · rw [flaws, hnone] at h
      cases h
    obtain ⟨r, hr⟩ := hv.present .refl
    obtain ⟨ids, hids⟩ := hv.visitFrom_eq_ok
    obtain ⟨hroot, hnodes, hreached, htabs⟩ := (flaws_of_visit hr hids).1 h
    obtain ⟨⟨hdistinct, hactive⟩, hexist⟩ := tabFlaws_eq_nil_iff.1 htabs
    have hparent : ∀ {id n}, s.node? id = some n → id ≠ rootId → ∃ p d, n.parentId = some p ∧
        p ≠ "" ∧ s.node? p = some d ∧ d.kind = .directory ∧ d.children.count id = 1 :=
      fun hn hne =>
        (parentFlaws_eq_nil_iff.1 (nodeFlaws_eq_nil_iff.1 (hnodes hn)).2.1).resolve_left hne
    have hchild : ∀ {p c}, s.arena.Lists p c → ∃ n, s.node? c = some n ∧ n.parentId = some p :=
      fun {p c} ⟨d, hd, hc⟩ => (nodeFlaws_eq_nil_iff.1 (hnodes hd)).2.2.2.2 c hc
    have hnotRoot : ∀ {p c n}, s.node? c = some n → n.parentId = some p → c ≠ rootId := by
      rintro p c n hn hp rfl
      obtain rfl := Option.some.inj (hr.symm.trans hn)
      rw [hroot] at hp
      cases hp
    -- whoever names a parent is listed there once
    have hcount : ∀ {p c n}, s.node? c = some n → n.parentId = some p →
        ∃ d, s.node? p = some d ∧ p ≠ "" ∧ d.children.count c = 1 := by
      intro p c n hn hp
      obtain ⟨q, d, hq, hne, hd, -, hone⟩ := hparent hn (hnotRoot hn hp)
      obtain rfl := Option.some.inj (hp.symm.trans hq)
      exact ⟨d, hd, hne, hone⟩
    refine ⟨⟨⟨r, hr, hroot⟩, fun hn => (nodeFlaws_eq_nil_iff.1 (hnodes hn)).1,
      ⟨hchild, fun ⟨n, hn, hp⟩ => ?_⟩, fun {id n} hn => ?_, fun hn hne => ?_, hreached,
      fun hn => (nodeFlaws_eq_nil_iff.1 (hnodes hn)).2.2.2.1,
      fun hn => (nodeFlaws_eq_nil_iff.1 (hnodes hn)).2.2.1, hdistinct, hexist, hactive⟩,
      fun hn hp => ?_⟩
    · obtain ⟨d, hd, -, hone⟩ := hcount hn hp
      exact ⟨d, hd, List.count_pos_iff.1 (by omega)⟩
    · rw [List.nodup_iff_count_le_one]
      intro c
      by_cases hc : c ∈ n.children
      · obtain ⟨m, hm, hp⟩ := hchild ⟨n, hn, hc⟩
        obtain ⟨d, hd, -, hone⟩ := hcount hm hp
        obtain rfl := Option.some.inj (hn.symm.trans hd)
        exact Nat.le_of_eq hone
      · rw [List.count_eq_zero_of_not_mem hc]
        exact Nat.zero_le 1
    · obtain ⟨p, d, hp, -, hd, hk, -⟩ := hparent hn hne
      exact ⟨p, d, hp, hd, hk⟩
    · obtain ⟨d, -, hne, -⟩ := hcount hn hp
      exact hne rfl
  · rintro ⟨h, hnamed⟩
    obtain ⟨r, hr, hroot⟩ := h.root
    obtain ⟨ids, hids⟩ := h.visitable.visitFrom_eq_ok
    refine (flaws_of_visit hr hids).2 ⟨hroot, fun {id n} hn => ?_, h.reached,
      tabFlaws_eq_nil_iff.2 ⟨⟨h.tabsDistinct, h.activeIsOpen⟩, h.tabsExist⟩⟩
    refine nodeFlaws_eq_nil_iff.2 ⟨h.keyed hn, parentFlaws_eq_nil_iff.2 ?_, h.files hn,
      h.siblings hn, fun c hc => h.inverse.1 ⟨n, hn, hc⟩⟩
    by_cases hne : id = rootId
    · exact .inl hne
    · obtain ⟨p, d, hp, hd, hk⟩ := h.directories hn hne
      obtain ⟨d', hd', hmem⟩ := h.inverse.2 ⟨n, hn, hp⟩
      obtain rfl := Option.some.inj (hd.symm.trans hd')
      exact .inr ⟨p, d, hp, fun he => hnamed hn (he ▸ hp), hd, hk,
        List.count_eq_one_of_mem (h.once hd) hmem⟩

/-- When the check reports, and when it reports nothing wrong. -/
theorem flaws_decide (s : Workspace) :
    ((∃ l, s.flaws = .ok l) ↔ s.node? rootId = none ∨ s.arena.Visitable rootId) ∧
      ∀ {l}, s.flaws = .ok l → (l = [] ↔
        s.WellFormed ∧ ∀ {id n}, s.node? id = some n → n.parentId ≠ some "") := by
  refine ⟨flaws_eq_ok_iff, fun {l} hl => ?_⟩
  rw [← flaws_eq_nil_iff, hl, Except.ok.injEq]

/-! ## Trees without a report -/

/-- The root lists a node that is missing. -/
def danglingWorkspace : Workspace where
  home := "/home/user"
  arena := (Arena.new default).adopt rootId "nope"

/-- A directory lists itself. -/
def circularWorkspace : Workspace where
  home := "/home/user"
  arena := (Arena.new default).attach rootId
    { id := "a", name := "a", kind := .directory, modifiedAt := default, parentId := some rootId,
      children := ["a"] }

theorem not_reported : danglingWorkspace.flaws = .error (.missing "nope") ∧
    circularWorkspace.flaws = .error .endless ∧ ¬ ∃ l, danglingWorkspace.flaws = .ok l := by
  have hmissing : danglingWorkspace.flaws = .error (.missing "nope") := by decide +kernel
  refine ⟨hmissing, by decide +kernel, fun ⟨l, hl⟩ => ?_⟩
  rw [hmissing] at hl
  cases hl

end Workspace

end Workbench
