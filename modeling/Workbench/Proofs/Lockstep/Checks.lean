import Workbench.Proofs.Lockstep.Twin

/-!
# Checks of workspaces that agree

In workspaces that agree, a check of corresponding arguments finds corresponding nodes, or refuses
for causes of one kind. The causes themselves may differ, since they name ids.
-/

namespace Workbench

variable {ε ε' α β α' β' : Type}

/-- Two ends agree: both succeed, or both fail. -/
inductive Agrees (E : ε → ε' → Prop) (R : α → β → Prop) : Except ε α → Except ε' β → Prop
  | ok {a : α} {b : β} (h : R a b) : Agrees E R (.ok a) (.ok b)
  | error {e : ε} {e' : ε'} (h : E e e') : Agrees E R (.error e) (.error e')

theorem Agrees.bind {E : ε → ε' → Prop} {R : α → β → Prop} {R' : α' → β' → Prop}
    {a : Except ε α} {b : Except ε' β} {f : α → Except ε α'} {g : β → Except ε' β'}
    (h : Agrees E R a b) (hf : ∀ {x y}, R x y → Agrees E R' (f x) (g y)) :
    Agrees E R' (a >>= f) (b >>= g) := by
  cases h with
  | ok h => exact hf h
  | error h => exact .error h

def Refusal.SameKind (r r' : Refusal) : Prop := r.kind = r'.kind

namespace Workspace

variable {s t : Workspace} {x y x' y' : NodeId} {n m d e : Node} {name : String}

/-- Ids that stand for the same: nodes at one place, or nothing at all. -/
def SameId (s t : Workspace) (x y : NodeId) : Prop :=
  Paired s t x y ∨ (s.arena.get? x = none ∧ t.arena.get? y = none)

/-- Places that agree. -/
structure SamePlacement (s t : Workspace) (p p' : Placement) : Prop where
  node : SameNode s t p.node p'.node
  target : SameNode s t p.target p'.target
  name : p.name = p'.name

theorem SameNode.isDirectory_eq (h : SameNode s t n m) : n.isDirectory = m.isDirectory := by
  rw [Node.isDirectory, Node.isDirectory, h.kind]

theorem SameNode.isFile_eq (h : SameNode s t n m) : n.isFile = m.isFile := by
  rw [Node.isFile, Node.isFile, h.kind]

namespace Twin

theorem rel_node? (h : Twin s t) (hx : SameId s t x y) :
    Option.Rel (SameNode s t) (s.node? x) (t.node? y) := by
  rcases hx with hp | ⟨hs, ht⟩
  · obtain ⟨n, hn⟩ : ∃ n, s.arena.get? x = some n := by
      obtain ⟨q, hx, -⟩ := hp
      exact h.left.tree.mem_of_leads hx
    obtain ⟨m, hm, hnm⟩ := h.exists_sameNode hp hn
    rw [node?, node?, hn, hm]
    exact .some hnm
  · rw [node?, node?, hs, ht]
    exact .none

theorem require (h : Twin s t) (hx : SameId s t x y) :
    Agrees Refusal.SameKind (SameNode s t) (s.require x) (t.require y) := by
  have hr := h.rel_node? hx
  unfold Workspace.require
  generalize s.node? x = a at hr
  generalize t.node? y = b at hr
  cases hr with
  | none => exact .error rfl
  | some hnm => exact .ok hnm

theorem requireFile (h : Twin s t) (hx : SameId s t x y) :
    Agrees Refusal.SameKind (SameNode s t) (s.requireFile x) (t.requireFile y) := by
  refine (h.require hx).bind fun {n m} hnm => ?_
  rw [hnm.isFile_eq]
  split
  · exact .ok hnm
  · exact .error rfl

theorem requireDirectory (h : Twin s t) (hx : SameId s t x y) :
    Agrees Refusal.SameKind (SameNode s t) (s.requireDirectory x) (t.requireDirectory y) := by
  have hr := h.rel_node? hx
  unfold Workspace.requireDirectory directory?
  generalize s.node? x = a at hr
  generalize t.node? y = b at hr
  cases hr with
  | none => exact .error rfl
  | @some n m hnm =>
    rw [Option.filter_some, Option.filter_some, hnm.isDirectory_eq]
    by_cases hd : m.isDirectory = true
    · rw [if_pos hd, if_pos hd]
      exact .ok hnm
    · rw [if_neg hd, if_neg hd]
      exact .error rfl

theorem checkName (name : String) :
    Agrees Refusal.SameKind (fun _ _ => True) (checkName name) (checkName name) := by
  unfold Workspace.checkName
  split
  · exact .ok trivial
  · exact .error rfl

/-- Corresponding directories hold corresponding nodes under a name. -/
theorem rel_childNamed? (h : Twin s t) (hd : SameNode s t d e) (name : String) :
    Option.Rel (SameNode s t) (s.arena.childNamed? d name) (t.arena.childNamed? e name) := by
  obtain ⟨q, hx, hy⟩ := hd.paired
  cases hs : s.arena.childNamed? d name with
  | some n =>
    obtain ⟨hn, hp, rfl⟩ := (h.left.tree.childNamed?_eq_some_iff hd.left).1 hs
    have hl := Arena.Leads.child hx hn hp
    obtain ⟨z, hz⟩ := h.exists_right hl
    obtain ⟨m, hm, hmp, hname⟩ := (h.right.tree.leads_append_iff hy).1 hz
    have hid := h.right.tree.keyed hm
    subst hid
    rw [(h.right.tree.childNamed?_eq_some_iff hd.right).2 ⟨hm, hmp, hname⟩]
    exact .some (h.sameNode ⟨_, hl, hz⟩ hn hm)
  | none =>
    cases ht : t.arena.childNamed? e name with
    | none => exact .none
    | some m =>
      obtain ⟨hm, hmp, rfl⟩ := (h.right.tree.childNamed?_eq_some_iff hd.right).1 ht
      obtain ⟨z, hz⟩ := h.exists_left (.child hy hm hmp)
      obtain ⟨n, hn, hp, hname⟩ := (h.left.tree.leads_append_iff hx).1 hz
      exact absurd hname ((h.left.tree.childNamed?_eq_none_iff hd.left).1 hs z n hn hp)

theorem checkFree (h : Twin s t) (hd : SameNode s t d e) (name : String) :
    Agrees Refusal.SameKind (fun _ _ => True) (s.checkFree d name) (t.checkFree e name) := by
  have hr := h.rel_childNamed? hd name
  unfold Workspace.checkFree
  generalize s.arena.childNamed? d name = a at hr
  generalize t.arena.childNamed? e name = b at hr
  cases hr with
  | none => exact .ok trivial
  | some _ => exact .error rfl

theorem checkCreate (h : Twin s t) (hx : SameId s t x y) (name : String) :
    Agrees Refusal.SameKind (SameNode s t) (s.checkCreate name x) (t.checkCreate name y) :=
  (checkName name).bind fun _ => (h.requireDirectory hx).bind fun hnm =>
    (h.checkFree hnm name).bind fun _ => .ok hnm

theorem checkDelete (h : Twin s t) (hx : SameId s t x y) (recursive : Bool) :
    Agrees Refusal.SameKind (SameNode s t) (s.checkDelete x recursive)
      (t.checkDelete y recursive) := by
  refine (h.require hx).bind fun {n m} hnm => ?_
  have hroot : (n.id == rootId) = (m.id == rootId) := by
    rw [Bool.eq_iff_iff, beq_iff_eq, beq_iff_eq, h.eq_root_iff hnm.paired]
  have hempty : n.children.isEmpty = m.children.isEmpty := by
    rw [Bool.eq_iff_iff, List.isEmpty_iff, List.isEmpty_iff, h.children_eq_nil_iff hnm]
  rw [hroot, hnm.isDirectory_eq, hempty]
  by_cases hr : (m.id == rootId) = true
  · rw [if_pos hr, if_pos hr]
    exact .error rfl
  · rw [if_neg hr, if_neg hr]
    by_cases hc : (m.isDirectory && !m.children.isEmpty && !recursive) = true
    · simp only [hc, ↓reduceIte]
      exact .error rfl
    · simp only [hc, Bool.false_eq_true, ↓reduceIte]
      exact .ok hnm

theorem rel_parent? (h : Twin s t) (hnm : SameNode s t n m) :
    Option.Rel (SameNode s t) (s.parent? n.id) (t.parent? m.id) := by
  have hp := hnm.parentId
  simp only [parent?, node?, hnm.left, hnm.right, Option.bind_some]
  generalize n.parentId = a at hp
  generalize m.parentId = b at hp
  cases hp with
  | none => exact .none
  | some hab => exact h.rel_node? (.inl hab)

/-- What an update concerns: nodes that correspond, and places that agree if there are any. -/
def SameUpdate (s t : Workspace) (a b : Node × Option Placement) : Prop :=
  SameNode s t a.1 b.1 ∧ Option.Rel (SamePlacement s t) a.2 b.2

theorem checkUpdate (h : Twin s t) (hx : SameId s t x y) (changes : NodeUpdate) :
    Agrees Refusal.SameKind (SameUpdate s t) (s.checkUpdate x changes)
      (t.checkUpdate y changes) := by
  rw [checkUpdate_eq, checkUpdate_eq]
  refine (h.require hx).bind fun {n m} hnm => ?_
  split
  · exact .ok ⟨hnm, .none⟩
  · next name _ =>
    simp only [hnm.name, h.eq_root_iff hnm.paired]
    split
    · exact .ok ⟨hnm, .none⟩
    · split
      · exact .error rfl
      · refine (checkName name).bind fun _ => ?_
        have hp := h.rel_parent? hnm
        generalize s.parent? n.id = a at hp
        generalize t.parent? m.id = b at hp
        cases hp with
        | none => exact .ok ⟨hnm, .none⟩
        | some hd =>
          exact (h.checkFree hd name).bind fun _ => .ok ⟨hnm, .some ⟨hnm, hd, rfl⟩⟩

theorem checkPlacement (h : Twin s t) (onRoot : Refusal) (hx : SameId s t x y)
    (hx' : SameId s t x' y') (name? : Option String) :
    Agrees Refusal.SameKind (SamePlacement s t) (s.checkPlacement onRoot x x' name?)
      (t.checkPlacement onRoot y y' name?) := by
  refine (h.require hx).bind fun {n m} hnm => ?_
  have hroot : (n.id == rootId) = (m.id == rootId) := by
    rw [Bool.eq_iff_iff, beq_iff_eq, beq_iff_eq, h.eq_root_iff hnm.paired]
  rw [hroot, hnm.name]
  by_cases hr : (m.id == rootId) = true
  · rw [if_pos hr, if_pos hr]
    exact .error rfl
  · rw [if_neg hr, if_neg hr]
    exact (h.requireDirectory hx').bind fun hd =>
      (checkName (name?.getD m.name)).bind fun _ => .ok ⟨hnm, hd, rfl⟩

theorem isInside_eq (h : Twin s t) {p p' : Placement} (hp : SamePlacement s t p p') :
    s.isInside p = t.isInside p' := by
  rw [Bool.eq_iff_iff, isInside_iff h.left.tree hp.target.left,
    isInside_iff h.right.tree hp.target.right, h.atOrBelow_iff hp.node.paired hp.target.paired]

theorem isSame_eq (h : Twin s t) {p p' : Placement} (hp : SamePlacement s t p p') :
    p.isSame = p'.isSame := by
  have hpar := hp.node.parentId
  unfold Placement.isSame
  rw [hp.name, hp.node.name]
  congr 1
  generalize p.node.parentId = a at hpar
  generalize p'.node.parentId = b at hpar
  cases hpar with
  | none => rfl
  | some hab =>
    rw [Bool.eq_iff_iff, beq_iff_eq, beq_iff_eq, Option.some.injEq, Option.some.injEq,
      Tabs.rel_iff h.biUnique hp.target.paired hab]

theorem checkMove (h : Twin s t) (hx : SameId s t x y) (hx' : SameId s t x' y')
    (name? : Option String) :
    Agrees Refusal.SameKind (SamePlacement s t) (s.checkMove x x' name?)
      (t.checkMove y y' name?) := by
  refine (h.checkPlacement .rootMoved hx hx' name?).bind fun {p p'} hp => ?_
  rw [h.isInside_eq hp, h.isSame_eq hp]
  by_cases hin : t.isInside p' = true
  · rw [if_pos hin, if_pos hin]
    exact .error rfl
  · rw [if_neg hin, if_neg hin]
    by_cases hs : p'.isSame = true
    · simp only [hs, ↓reduceIte]
      exact .ok hp
    · simp only [hs, Bool.false_eq_true, ↓reduceIte]
      have hc := h.rel_childNamed? hp.target p.name
      rw [← hp.name]
      generalize s.arena.childNamed? p.target p.name = a at hc
      generalize t.arena.childNamed? p'.target p.name = b at hc
      cases hc with
      | none => exact .ok hp
      | @some k l hkl =>
        have hid : (k.id == p.node.id) = (l.id == p'.node.id) := by
          rw [Bool.eq_iff_iff, beq_iff_eq, beq_iff_eq,
            Tabs.rel_iff h.biUnique hkl.paired hp.node.paired]
        simp only [hid]
        split
        · exact .ok hp
        · exact .error rfl

theorem checkCopy (h : Twin s t) (hx : SameId s t x y) (hx' : SameId s t x' y')
    (name? : Option String) :
    Agrees Refusal.SameKind (SamePlacement s t) (s.checkCopy x x' name?)
      (t.checkCopy y y' name?) := by
  refine (h.checkPlacement .rootCopied hx hx' name?).bind fun {p p'} hp => ?_
  rw [h.isInside_eq hp, hp.name]
  by_cases hin : t.isInside p' = true
  · rw [if_pos hin, if_pos hin]
    exact .error rfl
  · rw [if_neg hin, if_neg hin]
    exact (h.checkFree hp.target p'.name).bind fun _ => .ok hp

end Twin

end Workspace

end Workbench
