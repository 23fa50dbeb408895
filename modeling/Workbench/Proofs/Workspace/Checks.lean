import Workbench.Workspace.Edit
import Workbench.Proofs.Arena.Subtree
import Workbench.Proofs.Except

/-!
# What the checks find

A check that passes has found certain nodes in certain places. One lemma for each check says
exactly when it passes and with what; the operations are reasoned about through these lemmas.
-/

namespace Workbench.Workspace

variable {s : Workspace} {id parentId targetId : NodeId} {n d : Node} {name : String}
  {p : Placement}

theorem require_eq_ok_iff : s.require id = .ok n ↔ s.arena.get? id = some n := by
  unfold require node?
  cases s.arena.get? id with
  | none => simp
  | some m => simp

theorem requireFile_eq_ok_iff :
    s.requireFile id = .ok n ↔ s.arena.get? id = some n ∧ n.kind = .file := by
  unfold requireFile
  rw [bind_eq_ok]
  constructor
  · rintro ⟨m, hm, h⟩
    split at h
    · next hk =>
      obtain rfl := Except.ok.inj h
      exact ⟨require_eq_ok_iff.1 hm, Node.isFile_iff.1 hk⟩
    · cases h
  · rintro ⟨hn, hk⟩
    exact ⟨n, require_eq_ok_iff.2 hn, if_pos (Node.isFile_iff.2 hk)⟩

theorem directory?_eq_some_iff :
    s.directory? id = some n ↔ s.arena.get? id = some n ∧ n.kind = .directory := by
  unfold directory? node?
  rw [Option.filter_eq_some_iff, Node.isDirectory_iff]

theorem requireDirectory_eq_ok_iff :
    s.requireDirectory id = .ok n ↔ s.arena.get? id = some n ∧ n.kind = .directory := by
  rw [← directory?_eq_some_iff]
  unfold requireDirectory
  cases s.directory? id with
  | none => simp
  | some m => simp

theorem checkName_eq_ok_iff {u : Unit} : checkName name = .ok u ↔ Path.isName name = true := by
  unfold checkName
  split
  · next h => simp [h]
  · next h => simp [h]

theorem checkFree_eq_ok_iff {u : Unit} :
    s.checkFree d name = .ok u ↔ s.arena.childNamed? d name = none := by
  unfold checkFree
  cases s.arena.childNamed? d name with
  | none => simp
  | some m => simp

theorem checkCreate_eq_ok_iff : s.checkCreate name parentId = .ok d ↔ Path.isName name = true ∧
    s.arena.get? parentId = some d ∧ d.kind = .directory ∧
    s.arena.childNamed? d name = none := by
  unfold checkCreate
  simp only [bind_eq_ok, checkName_eq_ok_iff, requireDirectory_eq_ok_iff, checkFree_eq_ok_iff]
  constructor
  · rintro ⟨_, hname, e, ⟨he, hk⟩, _, hfree, hd⟩
    obtain rfl := Except.ok.inj hd
    exact ⟨hname, he, hk, hfree⟩
  · rintro ⟨hname, hd, hk, hfree⟩
    exact ⟨(), hname, d, ⟨hd, hk⟩, (), hfree, rfl⟩

theorem checkDelete_eq_ok_iff {recursive : Bool} : s.checkDelete id recursive = .ok n ↔
    s.arena.get? id = some n ∧ n.id ≠ rootId ∧
    (n.kind = .directory → n.children ≠ [] → recursive = true) := by
  unfold checkDelete
  rw [bind_eq_ok]
  constructor
  · rintro ⟨m, hm, h⟩
    by_cases hr : (m.id == rootId) = true
    · rw [if_pos hr] at h
      cases h
    · rw [if_neg hr] at h
      by_cases hc : (m.isDirectory && !m.children.isEmpty && !recursive) = true
      · simp only [hc, ↓reduceIte] at h
        cases h
      · simp only [hc, Bool.false_eq_true, ↓reduceIte] at h
        obtain rfl : m = n := Except.ok.inj h
        refine ⟨require_eq_ok_iff.1 hm, by simpa using hr, fun hk hch => ?_⟩
        simpa [Node.isDirectory_iff.2 hk, hch] using hc
  · rintro ⟨hn, hr, hc⟩
    refine ⟨n, require_eq_ok_iff.2 hn, ?_⟩
    have hnot : ¬ (n.isDirectory && !n.children.isEmpty && !recursive) = true := by
      simp only [Bool.and_eq_true, Node.isDirectory_iff, Bool.not_eq_eq_eq_not, Bool.not_true,
        List.isEmpty_eq_false_iff, not_and, Bool.not_eq_false, and_imp]
      exact hc
    rw [if_neg (by simpa using hr)]
    simp only [hnot]
    rfl

/-- The steps of checking an update, one after another. -/
theorem checkUpdate_eq {changes : NodeUpdate} : s.checkUpdate id changes =
    (s.require id >>= fun n =>
      match changes.name with
      | none => .ok (n, none)
      | some name =>
        if name = n.name then .ok (n, none)
        else if n.id = rootId then .error .rootRenamed
        else checkName name >>= fun _ =>
          match s.parent? n.id with
          | none => .ok (n, none)
          | some parent => s.checkFree parent name >>= fun _ =>
            .ok (n, some ⟨n, parent, name⟩)) := by
  unfold checkUpdate
  congr 1
  funext n
  cases changes.name with
  | none => rfl
  | some name =>
    by_cases hname : name = n.name
    · simp only [hname, beq_self_eq_true, ↓reduceIte]
      rfl
    · by_cases hroot : n.id = rootId
      · simp only [hname, hroot, beq_iff_eq, beq_self_eq_true, ↓reduceIte]
        rfl
      · simp only [hname, hroot, beq_iff_eq, ↓reduceIte]
        cases s.parent? n.id <;> rfl

/-- An update that changes the name has found a free name in the directory that holds the node. -/
theorem checkUpdate_some {changes : NodeUpdate}
    (h : s.checkUpdate id changes = .ok (n, some p)) :
    p.node = n ∧ s.arena.get? id = some n ∧ changes.name = some p.name ∧ p.name ≠ n.name ∧
      n.id ≠ rootId ∧ Path.isName p.name = true ∧ s.parent? n.id = some p.target ∧
      s.arena.childNamed? p.target p.name = none := by
  rw [checkUpdate_eq] at h
  obtain ⟨m, hm, h⟩ := bind_eq_ok.1 h
  split at h
  · cases h
  · next name hname =>
    split at h
    · cases h
    · next hne =>
      split at h
      · cases h
      · next hroot =>
        obtain ⟨_, hn, h⟩ := bind_eq_ok.1 h
        split at h
        · cases h
        · next parent hparent =>
          obtain ⟨_, hfree, h⟩ := bind_eq_ok.1 h
          have he := Except.ok.inj h
          simp only [Prod.mk.injEq, Option.some.injEq] at he
          obtain ⟨rfl, rfl⟩ := he
          exact ⟨rfl, require_eq_ok_iff.1 hm, hname, hne, hroot, checkName_eq_ok_iff.1 hn,
            hparent, checkFree_eq_ok_iff.1 hfree⟩

/-- An update that leaves the name finds it unchanged, or the node without a directory. -/
theorem checkUpdate_none {changes : NodeUpdate} (h : s.checkUpdate id changes = .ok (n, none)) :
    s.arena.get? id = some n ∧
      ∀ name, changes.name = some name → name = n.name ∨ s.parent? n.id = none := by
  rw [checkUpdate_eq] at h
  obtain ⟨m, hm, h⟩ := bind_eq_ok.1 h
  have hm := require_eq_ok_iff.1 hm
  split at h
  · next hname =>
    obtain ⟨rfl, -⟩ := Prod.mk.inj (Except.ok.inj h)
    refine ⟨hm, ?_⟩
    intro name he
    rw [hname] at he
    cases he
  · next name hname =>
    split at h
    · next hsame =>
      obtain ⟨rfl, -⟩ := Prod.mk.inj (Except.ok.inj h)
      exact ⟨hm, fun name' he => .inl (Option.some.inj (he.symm.trans hname) ▸ hsame)⟩
    · split at h
      · cases h
      · obtain ⟨_, -, h⟩ := bind_eq_ok.1 h
        split at h
        · next hparent =>
          obtain ⟨rfl, -⟩ := Prod.mk.inj (Except.ok.inj h)
          exact ⟨hm, fun _ _ => .inr hparent⟩
        · obtain ⟨_, -, h⟩ := bind_eq_ok.1 h
          cases Except.ok.inj h

theorem checkPlacement_eq_ok_iff {onRoot : Refusal} {name? : Option String} :
    s.checkPlacement onRoot id targetId name? = .ok p ↔ s.arena.get? id = some p.node ∧
      p.node.id ≠ rootId ∧ s.arena.get? targetId = some p.target ∧ p.target.kind = .directory ∧
      name?.getD p.node.name = p.name ∧ Path.isName p.name = true := by
  unfold checkPlacement
  rw [bind_eq_ok]
  constructor
  · rintro ⟨m, hm, h⟩
    by_cases hr : (m.id == rootId) = true
    · rw [if_pos hr] at h
      cases h
    · rw [if_neg hr] at h
      obtain ⟨d, hd, h⟩ := bind_eq_ok.1 h
      obtain ⟨_, hname, h⟩ := bind_eq_ok.1 h
      obtain rfl := Except.ok.inj h
      obtain ⟨hd, hk⟩ := requireDirectory_eq_ok_iff.1 hd
      exact ⟨require_eq_ok_iff.1 hm, by simpa using hr, hd, hk, rfl, checkName_eq_ok_iff.1 hname⟩
  · rintro ⟨hn, hr, hd, hk, hname, hok⟩
    refine ⟨p.node, require_eq_ok_iff.2 hn, ?_⟩
    rw [if_neg (by simpa using hr)]
    refine bind_eq_ok.2 ⟨p.target, requireDirectory_eq_ok_iff.2 ⟨hd, hk⟩, ?_⟩
    exact bind_eq_ok.2 ⟨(), checkName_eq_ok_iff.2 (hname ▸ hok), by rw [hname]; rfl⟩

/-- In a tree, a place is inside a node's own subtree exactly when its directory is there. -/
theorem isInside_iff (h : s.arena.IsTree) (hd : s.arena.get? p.target.id = some d) :
    s.isInside p = true ↔ s.arena.AtOrBelow p.node.id p.target.id := by
  unfold isInside
  rw [Bool.or_eq_true, beq_iff_eq]
  exact h.eq_or_isAncestor_iff hd

/-- A move that is not refused: what it puts where, and why it may. -/
theorem checkMove_eq_ok {name? : Option String} (h : s.checkMove id targetId name? = .ok p) :
    s.checkPlacement .rootMoved id targetId name? = .ok p ∧ s.isInside p = false ∧
      (p.isSame = true ∨ s.arena.childNamed? p.target p.name = none ∨
        ∃ m, s.arena.childNamed? p.target p.name = some m ∧ m.id = p.node.id) := by
  unfold checkMove at h
  obtain ⟨q, hq, h⟩ := bind_eq_ok.1 h
  by_cases hin : s.isInside q = true
  · rw [if_pos hin] at h
    cases h
  · rw [if_neg hin] at h
    have hin : s.isInside q = false := by simpa using hin
    by_cases hs : q.isSame = true
    · simp only [hs, ↓reduceIte] at h
      obtain rfl : q = p := Except.ok.inj h
      exact ⟨hq, hin, .inl hs⟩
    · simp only [hs, Bool.false_eq_true, ↓reduceIte] at h
      split at h
      · next hfree =>
        obtain rfl : q = p := Except.ok.inj h
        exact ⟨hq, hin, .inr (.inl hfree)⟩
      · next m hm =>
        by_cases hid : (m.id == q.node.id) = true
        · simp only [hid, ↓reduceIte] at h
          obtain rfl : q = p := Except.ok.inj h
          exact ⟨hq, hin, .inr (.inr ⟨m, hm, by simpa using hid⟩)⟩
        · simp only [hid, Bool.false_eq_true, ↓reduceIte] at h
          cases h

/-- A copy that is not refused: what it puts where, and why it may. -/
theorem checkCopy_eq_ok {name? : Option String} (h : s.checkCopy id targetId name? = .ok p) :
    s.checkPlacement .rootCopied id targetId name? = .ok p ∧ s.isInside p = false ∧
      s.arena.childNamed? p.target p.name = none := by
  unfold checkCopy at h
  obtain ⟨q, hq, h⟩ := bind_eq_ok.1 h
  by_cases hin : s.isInside q = true
  · rw [if_pos hin] at h
    cases h
  · rw [if_neg hin] at h
    obtain ⟨_, hfree, h⟩ := bind_eq_ok.1 h
    obtain rfl : q = p := Except.ok.inj h
    exact ⟨hq, by simpa using hin, checkFree_eq_ok_iff.1 hfree⟩

end Workbench.Workspace
