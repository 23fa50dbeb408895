import Workbench.Proofs.World.Consistent

/-!
# Marks through rebuildings

A rebuilding throws every node away and makes the tree anew. What users attach to a node goes with
its id: each node of the new tree but the root either has the id and the marks of a node that was
there, or an id that is new (`Workspace.Remembers`). The root is always made anew, and without
marks. Nothing is asked of listings here, which may be of any form.

`Workspace.Refreshed` lists all that is done to a bound workspace: it is rebuilt, its tabs change,
and nodes get another time. Every operation is a run of such steps, and an update marks its node in
the end.
-/

namespace Workbench

namespace Workspace

/-! ## Loading -/

/-- What holds of a tree that is loaded over what is known: its nodes but the root are known nodes
with their marks, or have ids that were drawn meanwhile, and the root has no marks. -/
structure Loading.Remembers (k : Known) (drawn : Nat) (l : Loading) : Prop where
  drawn_le : drawn ≤ l.drawn
  keyed : ∀ {x m}, l.arena.get? x = some m → m.id = x
  marks : ∀ {x m}, l.arena.get? x = some m → x ≠ rootId →
    (∃ n, k.arena.get? x = some n ∧ m.marks = n.marks) ∨ ∃ j, drawn < j ∧ x = drawnNodeId j
  root : ∃ r, l.arena.get? rootId = some r ∧ r.marks = {}

variable {k : Known} {drawn : Nat} {l : Loading} {p : NodeId} {above place : List String}
  {e : DiskEntry} {F : List DiskEntry}

theorem entryNode_marks (id parentId : NodeId) (marks : Marks) (e : DiskEntry) :
    (entryNode id parentId marks e).marks = marks := by cases e <;> rfl

/-- A node after another has been attached: it is the new one or an old one with the same id and
marks. -/
theorem get?_attach_cases {a : Arena} {n m : Node} {x : NodeId}
    (hm : (a.attach p n).get? x = some m) :
    (x = n.id ∧ m.id = n.id ∧ m.marks = n.marks) ∨
      x ≠ n.id ∧ ∃ m₀, a.get? x = some m₀ ∧ m.id = m₀.id ∧ m.marks = m₀.marks := by
  have hback : ∃ m₀, (a.insert n.id n).get? x = some m₀ ∧ m.id = m₀.id ∧ m.marks = m₀.marks := by
    rw [Arena.attach, Arena.adopt, Table.get?_modify] at hm
    split at hm
    · next hx =>
      subst hx
      obtain ⟨m₀, hm₀, rfl⟩ := Option.map_eq_some_iff.1 hm
      exact ⟨m₀, hm₀, rfl, rfl⟩
    · exact ⟨m, hm, rfl, rfl⟩
  obtain ⟨m₀, hm₀, hid, hmarks⟩ := hback
  rw [Table.get?_insert] at hm₀
  split at hm₀
  · next hx =>
    obtain rfl := Option.some.inj hm₀
    exact .inl ⟨hx, hid, hmarks⟩
  · next hx => exact .inr ⟨hx, m₀, hm₀, hid, hmarks⟩

namespace Loading.Remembers

/-- The id of an entry is that of a known node, with its marks, or is drawn. -/
theorem identity (h : l.Remembers k drawn) (hk : ∀ {id n}, k.arena.get? id = some n → n.id = id)
    {kind : NodeKind} {id : NodeId} {marks : Marks} {drawn' : Nat}
    (hi : l.identity k place kind = (id, marks, drawn')) : drawn ≤ drawn' ∧ id ≠ rootId ∧
      ((∃ n, k.arena.get? id = some n ∧ marks = n.marks) ∨
        ∃ j, drawn < j ∧ id = drawnNodeId j) := by
  unfold Loading.identity at hi
  split at hi
  · next n hn =>
    obtain ⟨hn, hfree⟩ := Option.filter_eq_some_iff.1 hn
    obtain ⟨-, hget, -⟩ := Known.node?_eq_some hk hn
    simp only [Prod.mk.injEq] at hi
    obtain ⟨rfl, rfl, rfl⟩ := hi
    refine ⟨h.drawn_le, fun hroot => ?_, .inl ⟨n, hget, rfl⟩⟩
    obtain ⟨r, hr, -⟩ := h.root
    rw [hroot, Table.contains_iff.2 ⟨r, hr⟩] at hfree
    cases hfree
  · simp only [Prod.mk.injEq] at hi
    obtain ⟨rfl, -, rfl⟩ := hi
    have hle := h.drawn_le
    exact ⟨by omega, drawnNodeId_ne_rootId _, .inr ⟨_, by omega, rfl⟩⟩

theorem add (h : l.Remembers k drawn) (hk : ∀ {id n}, k.arena.get? id = some n → n.id = id)
    (p : NodeId) (place : List String) (e : DiskEntry) :
    (l.add k p place e).2.Remembers k drawn := by
  rcases hi : l.identity k place e.kind with ⟨id, marks, drawn'⟩
  obtain ⟨hle, hroot, hid⟩ := h.identity hk hi
  have hl : (l.add k p place e).2 = ⟨l.arena.attach p (entryNode id p marks e), drawn'⟩ := by
    simp only [Loading.add, hi]
  rw [hl]
  refine ⟨hle, fun {x m} hm => ?_, fun {x m} hm hx => ?_, ?_⟩
  · rcases get?_attach_cases hm with ⟨rfl, hmid, -⟩ | ⟨-, m₀, hm₀, hmid, -⟩
    · exact hmid
    · exact hmid.trans (h.keyed hm₀)
  · rcases get?_attach_cases hm with ⟨rfl, -, hmarks⟩ | ⟨-, m₀, hm₀, -, hmarks⟩
    · rw [entryNode_marks] at hmarks
      rw [entryNode_id]
      rcases hid with ⟨n, hn, he⟩ | hnew
      · exact .inl ⟨n, hn, hmarks.trans he⟩
      · exact .inr hnew
    · rcases h.marks hm₀ hx with ⟨n, hn, he⟩ | hnew
      · exact .inl ⟨n, hn, hmarks.trans he⟩
      · exact .inr hnew
  · obtain ⟨r, hr, hrm⟩ := h.root
    have hkeep : ∃ r', (l.arena.attach p (entryNode id p marks e)).get? rootId = some r' := by
      rw [Arena.attach, Arena.adopt, Table.get?_modify, Table.get?_insert, Table.get?_insert,
        entryNode_id, if_neg (Ne.symm hroot), hr]
      split
      · next hp => exact ⟨_, by rw [← hp, if_neg (Ne.symm hroot), hr]; rfl⟩
      · exact ⟨r, rfl⟩
    obtain ⟨r', hr'⟩ := hkeep
    refine ⟨r', hr', ?_⟩
    rcases get?_attach_cases hr' with ⟨he, -⟩ | ⟨-, r₀, hr₀, -, hmarks⟩
    · rw [entryNode_id] at he
      exact absurd he.symm hroot
    · obtain rfl := Option.some.inj (hr.symm.trans hr₀)
      exact hmarks.trans hrm

mutual

theorem loadEntry (hk : ∀ {id n}, k.arena.get? id = some n → n.id = id) (p : NodeId)
    (above : List String) : ∀ {e : DiskEntry} {l : Loading}, l.Remembers k drawn →
      (Workspace.loadEntry k p above e l).Remembers k drawn
  | .file name content size t, l, h => by
    rw [Workspace.loadEntry]
    exact h.add hk p _ _
  | .directory name t children, l, h => by
    rw [Workspace.loadEntry]
    exact loadEntries hk _ _ (h.add hk p _ _)

theorem loadEntries (hk : ∀ {id n}, k.arena.get? id = some n → n.id = id) (p : NodeId)
    (above : List String) : ∀ {F : List DiskEntry} {l : Loading}, l.Remembers k drawn →
      (Workspace.loadEntries k p above F l).Remembers k drawn
  | [], l, h => by
    rw [Workspace.loadEntries]
    exact h
  | e :: F, l, h => by
    rw [Workspace.loadEntries]
    exact loadEntries hk p above (loadEntry hk p above h)

end

end Loading.Remembers

/-! ## Steps of a bound workspace -/

variable {s s' : Workspace} {id x : NodeId} {n m : Node}

/-- Nodes are stored under their ids. -/
def Keyed (s : Workspace) : Prop := ∀ {id n}, s.arena.get? id = some n → n.id = id

/-- The nodes of the second workspace but the root are nodes of the first with their marks, or have
ids that the first had still to draw. The root has kept its marks, or has none. -/
structure Remembers (s s' : Workspace) : Prop where
  drawn_le : s.drawn ≤ s'.drawn
  keyed : s'.Keyed
  marks : ∀ {x m}, s'.arena.get? x = some m → x ≠ rootId →
    (∃ n, s.arena.get? x = some n ∧ m.marks = n.marks) ∨ ∃ j, s.drawn < j ∧ x = drawnNodeId j
  root : ∀ {m}, s'.arena.get? rootId = some m →
    (∃ r, s.arena.get? rootId = some r ∧ m.marks = r.marks) ∨ m.marks = {}

namespace Remembers

theorem refl (h : s.Keyed) : s.Remembers s :=
  ⟨Nat.le_refl _, h, fun hm _ => .inl ⟨_, hm, rfl⟩, fun hm => .inl ⟨_, hm, rfl⟩⟩

theorem trans {s'' : Workspace} (h : s.Remembers s') (h' : s'.Remembers s'') :
    s.Remembers s'' := by
  have hle := h.drawn_le
  refine ⟨Nat.le_trans hle h'.drawn_le, h'.keyed, fun hm hx => ?_, fun hm => ?_⟩
  · rcases h'.marks hm hx with ⟨m', hm', he⟩ | ⟨j, hj, rfl⟩
    · exact (h.marks hm' hx).imp_left fun ⟨n, hn, he'⟩ => ⟨n, hn, he.trans he'⟩
    · exact .inr ⟨j, by omega, rfl⟩
  · rcases h'.root hm with ⟨m', hm', he⟩ | he
    · exact (h.root hm').imp (fun ⟨r, hr, he'⟩ => ⟨r, hr, he.trans he'⟩) he.trans
    · exact .inr he

end Remembers

theorem remembers_loaded (hk : s.Keyed) (carried : Carried) (F : List DiskEntry)
    (now : Timestamp) :
    (loaded (s.known carried) F s.drawn now).Remembers (s.known carried) s.drawn := by
  refine Loading.Remembers.loadEntries (k := s.known carried) hk _ _ ?_
  have hnew : ∀ {x m}, (Arena.new now).get? x = some m → x = rootId ∧ m = .newRoot now := by
    intro x m hm
    rw [Arena.get?_new] at hm
    split at hm
    · next hx => exact ⟨hx, (Option.some.inj hm).symm⟩
    · cases hm
  refine ⟨Nat.le_refl _, fun hm => ?_, fun hm hx => absurd (hnew hm).1 hx, .newRoot now, ?_, rfl⟩
  · obtain ⟨rfl, rfl⟩ := hnew hm
    rfl
  · exact (Arena.get?_new _).trans (if_pos rfl)

theorem remembers_rebuilt (hk : s.Keyed) (F : List DiskEntry) (carried : Carried)
    (now : Timestamp) : s.Remembers (s.rebuilt F carried now) := by
  have h := remembers_loaded hk carried F now
  refine ⟨h.drawn_le, h.keyed, h.marks, fun hm => ?_⟩
  obtain ⟨r, hr, hrm⟩ := h.root
  exact .inr (Option.some.inj (hm.symm.trans hr) ▸ hrm)

/-- All that is done to a bound workspace. -/
inductive Refreshed (s : Workspace) : Workspace → Prop
  | refl : Refreshed s s
  | rebuilt {s' : Workspace} (h : Refreshed s s') (F : List DiskEntry) (carried : Carried)
      (now : Timestamp) : Refreshed s (s'.rebuilt F carried now)
  | retabbed {s' : Workspace} (h : Refreshed s s') (t : Tabs) : Refreshed s { s' with tabs := t }
  | touched {s' : Workspace} (h : Refreshed s s') (id : NodeId) (now : Timestamp) :
      Refreshed s (s'.touched id now)

namespace Refreshed

theorem trans {s'' : Workspace} (h : s.Refreshed s') (h' : s'.Refreshed s'') :
    s.Refreshed s'' := by
  induction h' with
  | refl => exact h
  | rebuilt _ F carried now ih => exact ih.rebuilt F carried now
  | retabbed _ t ih => exact ih.retabbed t
  | touched _ id now ih => exact ih.touched id now

theorem boundRoot (h : s.Refreshed s') : s'.boundRoot = s.boundRoot := by
  induction h with
  | refl => rfl
  | rebuilt _ _ _ _ ih => exact ih
  | retabbed _ _ ih => exact ih
  | touched _ _ _ ih => exact ih

/-- Each step remembers the marks, and so does a run of steps. -/
theorem remembers (h : s.Refreshed s') (hk : s.Keyed) : s.Remembers s' := by
  induction h with
  | refl => exact .refl hk
  | rebuilt _ F carried now ih => exact ih.trans (remembers_rebuilt ih.keyed F carried now)
  | retabbed _ t ih => exact ⟨ih.drawn_le, ih.keyed, ih.marks, ih.root⟩
  | @touched s' _ id now ih =>
    have hback : ∀ {x m}, (s'.touched id now).arena.get? x = some m →
        ∃ m₀, s'.arena.get? x = some m₀ ∧ m.id = m₀.id ∧ m.marks = m₀.marks := by
      intro x m hm
      rw [Workspace.touched, Arena.stamp, Table.get?_modify] at hm
      split at hm
      · next hx =>
        subst hx
        obtain ⟨m₀, hm₀, rfl⟩ := Option.map_eq_some_iff.1 hm
        exact ⟨m₀, hm₀, rfl, rfl⟩
      · exact ⟨m, hm, rfl, rfl⟩
    refine ih.trans ⟨Nat.le_refl _, fun {x m} hm => ?_, fun {x m} hm _ => ?_, fun {m} hm => ?_⟩
    · obtain ⟨m₀, hm₀, he, -⟩ := hback hm
      exact he.trans (ih.keyed hm₀)
    · obtain ⟨m₀, hm₀, -, he⟩ := hback hm
      exact .inl ⟨m₀, hm₀, he⟩
    · obtain ⟨m₀, hm₀, -, he⟩ := hback hm
      exact .inl ⟨m₀, hm₀, he⟩

end Refreshed

end Workspace

/-! ## Operations as runs of steps -/

variable {σ : Type} {h : Host σ} {w w' : World σ} {id parentId : NodeId} {a : Except Refusal Unit}

theorem Host.refreshed_resync {carried : Workspace.Carried}
    (he : h.resync w carried = (a, w')) : w.space.Refreshed w'.space := by
  have hw : w.space.Refreshed (h.resync w carried).2.space := by
    rcases h.resync_cases w carried with ⟨r, -, -, hs⟩ | ⟨F, -, -, hs⟩
    · exact hs ▸ .refl
    · exact hs ▸ .rebuilt .refl F carried h.now
  rwa [he] at hw

theorem Host.refreshed_writeThrough {call : DiskCall} {carried : Workspace.Carried}
    (he : h.writeThrough w call carried = (a, w')) : w.space.Refreshed w'.space := by
  rcases h.writeThrough_cases w call carried with ⟨r, -, -, hs⟩ | ⟨-, hs⟩
  · rw [he] at hs
    exact hs ▸ .refl
  · rw [he] at hs
    exact h.perform_space w call ▸ Host.refreshed_resync hs.symm

namespace World

section Bound

variable (hb : w.space.boundRoot ≠ none)

include hb

theorem refreshed_create (kind : NodeKind) (name : String) (parentId : NodeId) (content : String) :
    w.space.Refreshed (w.create h kind name parentId content).2.space := by
  rcases he : w.create h kind name parentId content with ⟨a, w'⟩
  cases create_ends he with
  | rejected | unlisted => exact .refl
  | added _ hf => exact absurd hf hb
  | failed _ _ _ hw | written _ _ _ hw => exact Host.refreshed_writeThrough hw

theorem refreshed_ensureDirectories (path cwd : String) :
    w.space.Refreshed (w.ensureDirectories h path cwd).2.space := by
  refine ensureDirectories_keeps (P := fun v => w.space.Refreshed v.space) (fun _ hv => ?_) .refl
  exact hv.trans (refreshed_create (hv.boundRoot ▸ hb) _ _ _ _)

theorem refreshed_delete (id : NodeId) (recursive : Bool) :
    w.space.Refreshed (w.delete h id recursive).2.space := by
  rcases he : w.delete h id recursive with ⟨a, w'⟩
  cases delete_ends he with
  | rejected => exact .refl
  | removed _ hf => exact absurd hf hb
  | failed _ _ hw => exact Host.refreshed_writeThrough hw
  | written _ _ hw => exact (Host.refreshed_writeThrough hw).retabbed _

theorem refreshed_relabel (p : Workspace.Placement) :
    w.space.Refreshed (w.relabel h p).2.space := by
  rcases he : w.relabel h p with ⟨a, w'⟩
  cases relabel_ends he with
  | renamed hf => exact absurd hf hb
  | unlisted => exact .refl
  | failed _ _ hw | written _ _ hw => exact Host.refreshed_writeThrough hw

theorem refreshed_move (id targetId : NodeId) (name? : Option String) :
    w.space.Refreshed (w.move h id targetId name?).2.space := by
  rcases he : w.move h id targetId name? with ⟨a, w'⟩
  cases move_ends he with
  | rejected | kept | unlisted => exact .refl
  | moved _ _ hf => exact absurd hf hb
  | failed _ _ _ _ hw | written _ _ _ _ hw => exact Host.refreshed_writeThrough hw

theorem refreshed_copy (id targetId : NodeId) (name? : Option String) :
    w.space.Refreshed (w.copy h id targetId name?).2.space := by
  rcases he : w.copy h id targetId name? with ⟨a, w'⟩
  cases copy_ends he with
  | rejected | unlisted => exact .refl
  | copied _ hf => exact absurd hf hb
  | unseen _ _ _ hd hr | interrupted _ _ _ hd hr | written _ _ _ hd hr =>
    exact Host.space_of_performAll hd ▸ Host.refreshed_resync hr

theorem refreshed_setContent (id : NodeId) (content : String) :
    w.space.Refreshed (w.setContent h id content).2.space := by
  rcases he : w.setContent h id content with ⟨a, w'⟩
  cases setContent_ends he with
  | rejected => exact .refl
  | refilled _ hf => exact absurd hf hb
  | failed _ _ hw | written _ _ hw => exact Host.refreshed_writeThrough hw

theorem refreshed_touch (id : NodeId) : w.space.Refreshed (w.touch h id).2.space := by
  rcases he : w.touch h id with ⟨a, w'⟩
  cases touch_ends he with
  | missing => exact .refl
  | @rewritten n _ _ _ _ _ _ hw =>
    have hr := refreshed_setContent (h := h) hb id n.content
    rwa [hw] at hr
  | touched _ _ hw => exact hw ▸ .touched .refl _ _

/-- An update is a run of steps, after which it marks its node when it succeeds. Marking the root
comes after no other step. -/
theorem refreshed_update (hk : w.space.Keyed) (id : NodeId) (changes : NodeUpdate) :
    w.space.Refreshed (w.update h id changes).2.space ∨
      ∃ s, w.space.Refreshed s ∧ (id = rootId → s = w.space) ∧
        (w.update h id changes).2.space = s.marked id changes := by
  rcases he : w.update h id changes with ⟨a, w'⟩
  cases update_ends he with
  | rejected => exact .inl .refl
  | marked _ hm =>
    cases hm with
    | missing => exact .inl .refl
    | marked => exact .inr ⟨w.space, .refl, fun _ => rfl, rfl⟩
  | @unnamed _ p _ _ _ hr =>
    have hw := refreshed_relabel (h := h) hb p
    rw [hr] at hw
    exact .inl hw
  | @renamed _ p w₁ _ _ hc hr hm =>
    have hw := refreshed_relabel (h := h) hb p
    rw [hr] at hw
    cases hm with
    | missing => exact .inl hw
    | marked =>
      refine .inr ⟨w₁.space, hw, ?_, rfl⟩
      rintro rfl
      obtain ⟨-, hn, -, -, hroot, -⟩ := Workspace.checkUpdate_some hc
      exact absurd (hk hn) hroot

end Bound

theorem refreshed_resync : w.space.Refreshed (w.resync h).2.space := by
  rcases he : w.resync h with ⟨a, w'⟩
  cases resync_ends he with
  | unbound => exact .refl
  | failed _ hr | rebuilt _ hr => exact Host.refreshed_resync hr

theorem refreshed_openTab (id : NodeId) : w.space.Refreshed (w.openTab id).2.space := by
  rcases he : w.openTab id with ⟨a, w'⟩
  cases openTab_ends he with
  | rejected => exact .refl
  | opened => exact .retabbed .refl _

end World

/-! ## The marks after an operation -/

/-- What an operation makes of the marks of a node when it succeeds. -/
def Operation.sets : Operation → NodeId → Marks → Marks
  | update id changes, x, marks => if x = id then changes.marks marks else marks
  | _, _, marks => marks

/-- A node that is there before and after has its marks after an operation, but for those that the
operation sets. The root may have lost them. -/
structure Workspace.MarksKept (sets : NodeId → Marks → Marks) (s s' : Workspace) : Prop where
  nodes : ∀ {x n m}, x ≠ rootId → s.node? x = some n → s'.node? x = some m →
    m.marks = n.marks ∨ m.marks = sets x n.marks
  root : ∀ {r m}, s.node? rootId = some r → s'.node? rootId = some m →
    m.marks = r.marks ∨ m.marks = sets rootId r.marks ∨ m.marks = {}

namespace Workspace

variable {s s' : Workspace} {sets : NodeId → Marks → Marks}

theorem Refreshed.marksKept (h : s.Refreshed s') (hs : s.Sound) : s.MarksKept sets s' := by
  have hr := h.remembers hs.tree.keyed
  refine ⟨fun {x n m} hx hn hm => .inl ?_, fun {r m} hn hm => ?_⟩
  · rcases hr.marks hm hx with ⟨n', hn', he⟩ | ⟨j, hj, rfl⟩
    · obtain rfl := Option.some.inj (hn.symm.trans hn')
      exact he
    · have hnone := hs.unused j hj
      rw [node?, hnone] at hn
      cases hn
  · rcases hr.root hm with ⟨r', hr', he⟩ | he
    · obtain rfl := Option.some.inj (hn.symm.trans hr')
      exact .inl he
    · exact .inr (.inr he)

/-- Marking a node last sets its marks. -/
theorem Refreshed.marksKept_marked {id : NodeId} (h : s.Refreshed s') (hs : s.Sound)
    (hid : id = rootId → s' = s) (changes : NodeUpdate) :
    s.MarksKept (Operation.update id changes).sets (s'.marked id changes) := by
  have hback : ∀ {x m}, (s'.marked id changes).node? x = some m → ∃ m₀, s'.node? x = some m₀ ∧
      m.marks = (Operation.update id changes).sets x m₀.marks := by
    intro x m hm
    unfold Operation.sets
    rw [node?, marked, Table.get?_modify] at hm
    split at hm
    · next hx =>
      subst hx
      obtain ⟨m₀, hm₀, rfl⟩ := Option.map_eq_some_iff.1 hm
      exact ⟨m₀, hm₀, (if_pos rfl).symm⟩
    · next hx => exact ⟨m, hm, (if_neg hx).symm⟩
  have hkept : s.MarksKept (fun _ marks => marks) s' := h.marksKept hs
  refine ⟨fun {x n m} hx hn hm => ?_, fun {r m} hr hm => ?_⟩
  · obtain ⟨m₀, hm₀, he⟩ := hback hm
    rcases hkept.nodes hx hn hm₀ with he₀ | he₀
    all_goals exact .inr (he₀ ▸ he)
  · obtain ⟨m₀, hm₀, he⟩ := hback hm
    by_cases hroot : id = rootId
    · rw [hid hroot, hr, Option.some.injEq] at hm₀
      exact .inr (.inl (hm₀ ▸ he))
    · have he : m.marks = m₀.marks := he.trans (if_neg (Ne.symm hroot))
      rcases hkept.root hr hm₀ with he₀ | he₀ | he₀
      · exact .inl (he.trans he₀)
      · exact .inl (he.trans he₀)
      · exact .inr (.inr (he.trans he₀))

end Workspace

namespace World

/-- The marks after an operation on a bound workspace other than binding it anew. -/
theorem marksKept_of_run (hs : w.space.Sound) (hb : w.space.boundRoot.isSome) (h : Host σ)
    {op : Operation} (hop : ∀ root, op ≠ .bind root) :
    w.space.MarksKept op.sets (op.run h w).2.space := by
  have hb := Option.isSome_iff_ne_none.1 hb
  cases op with
  | create kind name parentId content =>
    exact (refreshed_create hb kind name parentId content).marksKept hs
  | ensureDirectories path cwd =>
    exact (refreshed_ensureDirectories hb path cwd).marksKept hs
  | delete id recursive => exact (refreshed_delete hb id recursive).marksKept hs
  | rename id name =>
    have hsame : (Operation.update id { name := some name }).sets =
        (Operation.rename id name).sets := by
      funext x marks
      exact ite_self _
    rcases refreshed_update (h := h) hb hs.tree.keyed id { name := some name } with
      hr | ⟨s, hr, hid, he⟩
    · exact hr.marksKept hs
    · have hm := hr.marksKept_marked hs hid { name := some name }
      rw [hsame, ← he] at hm
      exact hm
  | update id changes =>
    rcases refreshed_update (h := h) hb hs.tree.keyed id changes with hr | ⟨s, hr, hid, he⟩
    · exact hr.marksKept hs
    · have hm := hr.marksKept_marked hs hid changes
      rw [← he] at hm
      exact hm
  | move id targetId name => exact (refreshed_move hb id targetId name).marksKept hs
  | copy id targetId name => exact (refreshed_copy hb id targetId name).marksKept hs
  | setContent id content => exact (refreshed_setContent hb id content).marksKept hs
  | touch id => exact (refreshed_touch hb id).marksKept hs
  | openTab id => exact (refreshed_openTab id).marksKept hs
  | closeTab id => exact (Workspace.Refreshed.retabbed .refl _).marksKept hs
  | closeAllTabs => exact (Workspace.Refreshed.retabbed .refl _).marksKept hs
  | bind root => exact absurd rfl (hop root)
  | unbind =>
    refine ⟨fun _ hn hm => .inl ?_, fun hn hm => .inl ?_⟩
    all_goals exact congrArg Node.marks (Option.some.inj (hm.symm.trans hn))
  | resync => exact refreshed_resync.marksKept hs

/-- A rebuilding leaves the root without marks. -/
theorem root_marks_of_resync {carried : Workspace.Carried} (hs : w.space.Sound)
    (ho : (h.resync w carried).1 = .ok ()) :
    ∃ r, (h.resync w carried).2.space.node? rootId = some r ∧ r.marks = {} := by
  rcases h.resync_cases w carried with ⟨r, -, he, -⟩ | ⟨F, -, -, he⟩
  · rw [ho] at he
    cases he
  · rw [he]
    exact (Workspace.remembers_loaded hs.tree.keyed carried F h.now).root

/-- What becomes of the marks of a bound workspace: those of every other node are kept by every
operation, and those of the root are kept by a rebuilding exactly when there are none. -/
theorem marks_survive (hs : w.space.Sound) (hb : w.space.boundRoot.isSome) (h : Host σ) :
    (∀ {op : Operation}, (∀ root, op ≠ .bind root) →
      w.space.MarksKept op.sets (op.run h w).2.space) ∧
    ∀ {carried r}, w.space.node? rootId = some r → (h.resync w carried).1 = .ok () →
      ((∃ r', (h.resync w carried).2.space.node? rootId = some r' ∧ r'.marks = r.marks) ↔
        r.marks = {}) := by
  refine ⟨marksKept_of_run hs hb h, fun {carried r} _ ho => ?_⟩
  obtain ⟨r', hr', hempty⟩ := root_marks_of_resync hs ho
  refine ⟨fun ⟨r'', hr'', he⟩ => ?_, fun he => ⟨r', hr', hempty.trans he.symm⟩⟩
  obtain rfl := Option.some.inj (hr'.symm.trans hr'')
  exact he.symm.trans hempty

/-! ## The root forgets -/

/-- A bound workspace in which the root and a file have been marked. -/
def markedWorld : World Nat :=
  let first := ((Operation.update "n2" { tags := some ["x"] }).run lateHost lateWorld).2
  ((Operation.update rootId { favorite := some true }).run lateHost first).2

theorem sound_markedWorld : markedWorld.space.Sound :=
  have hw : lateWorld.Reachable := .step (.new _ _ _) lawful_lateHost _
  Reachable.sound (.step (.step hw lawful_lateHost _) lawful_lateHost _)

theorem marks_survive_marked : markedWorld.space.Sound ∧ markedWorld.space.boundRoot.isSome ∧
    markedWorld.space.MarksKept Operation.resync.sets
      (Operation.resync.run lateHost markedWorld).2.space ∧
    ((Operation.resync.run lateHost markedWorld).2.space.node? "n2").map Node.marks =
      some { tags := ["x"] } := by
  have hb : markedWorld.space.boundRoot.isSome := by decide +kernel
  obtain ⟨hkept, -⟩ := marks_survive sound_markedWorld hb lateHost
  exact ⟨sound_markedWorld, hb, hkept fun _ he => (by cases he), by decide +kernel⟩

theorem root_forgets :
    (markedWorld.space.node? rootId).map Node.marks = some { favorite := true } ∧
      (Operation.resync.run lateHost markedWorld).1.isOk ∧
      ((Operation.resync.run lateHost markedWorld).2.space.node? rootId).map Node.marks =
        some {} := by
  decide +kernel

end World

end Workbench
