import Workbench.Proofs.Lockstep.Operations
import Workbench.Proofs.World.Free

/-!
# Settled worlds

A world is settled when there is nothing but what its tree shows: the workspace is free, or the
disk holds what the tree shows and the bridge does what it is asked. What an operation makes of the
shape of a free workspace it makes of that of a settled one, because a bound workspace and the same
workspace freed go in step.
-/

namespace Workbench.World

open Workbench.Path (AreNames)

variable {σ α β : Type} {h : Host σ} {w w' : World σ} {id : NodeId} {n : Node}
  {q names : List String} {name content : String} {root : String} {Mirrors : σ → Shape → Prop}

/-- The workspace is sound. It is free, or the disk that it is bound to holds what it shows and the
bridge leaves nothing out and does what it is asked. -/
inductive Settled (h : Host σ) (w : World σ) : Prop
  | free (hf : w.Free)
  | bound {root : String} {Mirrors : σ → Shape → Prop} (hs : w.space.Sound)
      (hb : w.space.boundRoot = some root) (hh : h.Serves root Mirrors)
      (hm : Mirrors w.disk w.space.arena.Shows)

theorem Settled.sound (hw : w.Settled h) : w.space.Sound := by
  cases hw with
  | free hf => exact hf.sound
  | bound hs => exact hs

theorem free_unbind (hs : w.space.Sound) : w.unbind.Free := ⟨rfl, hs.unbound⟩

theorem inStep_unbind (hs : w.space.Sound) (hb : w.space.boundRoot = some root)
    (hm : Mirrors w.disk w.space.arena.Shows) : InStep root Mirrors w w.unbind where
  twin := ⟨hs, hs.unbound, rfl, rfl, (Workspace.Twin.refl hs).tabs⟩
  bound := hb
  free := rfl
  mirrors := hm

theorem sameId_unbind (hl : w.space.arena.Leads id q) : w.space.SameId w.unbind.space id id :=
  .inl ⟨q, hl, hl⟩

/-- What succeeds in a bound world succeeds in the same world freed, and both show the same. -/
theorem settled_of_together {R : Workspace → Workspace → α → β → Prop} {o : Outcome σ α}
    {o' : Outcome σ β} {a : α} (hh : h.Serves root Mirrors)
    (ht : Together root Mirrors w w.unbind R o o') (ho : o = (.ok a, w')) :
    ∃ b v', o' = (.ok b, v') ∧ w'.Settled h ∧
      w'.space.arena.Shows = v'.space.arena.Shows ∧ R w'.space v'.space a b := by
  subst ho
  obtain ⟨hi, -, he⟩ := ht
  obtain ⟨e, v'⟩ := o'
  cases he with
  | ok hab => exact ⟨_, v', rfl, .bound hi.twin.left hi.bound hh hi.mirrors, hi.twin.shows, hab⟩

namespace Settled

/-- A node of a bound world is where it is in the same world freed. -/
theorem leads_of_sameNode {v' : World σ} {m : Node} (hv : v'.space.Sound)
    (hnm : w'.space.SameNode v'.space n m) (hl : v'.space.arena.Leads m.id q) :
    w'.space.arena.Leads n.id q := by
  obtain ⟨r, hr, hr'⟩ := hnm.paired
  rw [hv.tree.leads_unique hl hr']
  exact hr

theorem shows_of_delete (hw : w.Settled h) (hl : w.space.arena.Leads id q)
    (hd : w.delete h id false = (.ok (), w')) :
    w'.Settled h ∧ w'.space.arena.Shows = Shape.dropped w.space.arena.Shows q := by
  cases hw with
  | free hf =>
    obtain ⟨hf', hshows⟩ := World.shows_of_delete hf hl hd
    exact ⟨.free hf', hshows⟩
  | bound hs hb hh hm =>
    have ht := together_delete (g := h) hh (inStep_unbind hs hb hm) (sameId_unbind hl) false
    obtain ⟨_, v', hv, hw', hsame, -⟩ := settled_of_together hh ht hd
    obtain ⟨-, hshows⟩ := World.shows_of_delete (free_unbind hs) hl hv
    exact ⟨hw', hsame.trans hshows⟩

theorem shows_of_setContent (hw : w.Settled h) (hl : w.space.arena.Leads id q)
    (hd : w.setContent h id content = (.ok n, w')) :
    w'.Settled h ∧ w'.space.arena.Shows = Shape.refilled w.space.arena.Shows q content ∧
      ∃ old, w.space.arena.Shows q (some old) := by
  cases hw with
  | free hf =>
    obtain ⟨hf', hshows, hold⟩ := World.shows_of_setContent hf hl hd
    exact ⟨.free hf', hshows, hold⟩
  | bound hs hb hh hm =>
    have ht := together_setContent (g := h) hh (inStep_unbind hs hb hm) (sameId_unbind hl) content
    obtain ⟨_, v', hv, hw', hsame, -⟩ := settled_of_together hh ht hd
    obtain ⟨-, hshows, hold⟩ := World.shows_of_setContent (free_unbind hs) hl hv
    exact ⟨hw', hsame.trans hshows, hold⟩

theorem shows_of_create {kind : NodeKind} (hw : w.Settled h) (hl : w.space.arena.Leads id q)
    (hd : w.create h kind name id content = (.ok n, w')) :
    w'.Settled h ∧ w'.space.arena.Shows =
        Shape.grown w.space.arena.Shows (q ++ [name]) (kind.shown content) ∧
      w'.space.arena.Leads n.id (q ++ [name]) ∧ w.space.arena.Shows q none ∧
      Shape.Free w.space.arena.Shows (q ++ [name]) := by
  cases hw with
  | free hf =>
    obtain ⟨hf', hshows⟩ := World.shows_of_create hf hl hd
    exact ⟨.free hf', hshows⟩
  | bound hs hb hh hm =>
    have ht := together_create (g := h) hh (inStep_unbind hs hb hm) (sameId_unbind hl) kind name
      content
    obtain ⟨_, v', hv, hw', hsame, hnm⟩ := settled_of_together hh ht hd
    obtain ⟨hf', hshows, hlead, hplace⟩ := World.shows_of_create (free_unbind hs) hl hv
    exact ⟨hw', hsame.trans hshows, leads_of_sameNode hf'.sound hnm hlead, hplace⟩

theorem shows_of_ensureDirectories (hw : w.Settled h) (hnames : AreNames names)
    (hplain : ∀ s ∈ names.getLast?, Path.IsPlain s) {cwd : String}
    (hd : w.ensureDirectories h (Path.ofNames names) cwd = (.ok n, w')) :
    w'.Settled h ∧ w'.space.arena.Shows = Shape.paved w.space.arena.Shows [] names ∧
      w'.space.arena.Leads n.id names := by
  cases hw with
  | free hf =>
    obtain ⟨hf', hshows, hl⟩ := World.shows_of_ensureDirectories hf hnames hplain hd
    exact ⟨.free hf', hshows, hl⟩
  | bound hs hb hh hm =>
    have ht := together_ensureDirectories (g := h) hh (inStep_unbind hs hb hm)
      (Path.ofNames names) cwd
    obtain ⟨m, v', hv, hw', hsame, hnm⟩ := settled_of_together hh ht hd
    obtain ⟨hf', hshows, hl⟩ :=
      World.shows_of_ensureDirectories (free_unbind hs) hnames hplain hv
    exact ⟨hw', hsame.trans hshows, leads_of_sameNode hf'.sound hnm hl⟩

/-! ## What is refused -/

/-- What succeeds in the same world freed does not fail. -/
theorem ok_of_together {R : Workspace → Workspace → α → β → Prop} {v : World σ} {o : Outcome σ α}
    {o' : Outcome σ β} (ht : Together root Mirrors w v R o o') (ho : ∃ b, o'.1 = .ok b) :
    ∃ a, o.1 = .ok a := by
  obtain ⟨b, hb⟩ := ho
  have he := ht.ends
  rw [hb] at he
  generalize o.1 = x at he
  cases he with
  | ok _ => exact ⟨_, rfl⟩

/-- Only the check refuses a deletion. -/
theorem delete_eq_ok (hw : w.Settled h) (hc : w.space.checkDelete id false = .ok n) :
    ∃ a, (w.delete h id false).1 = .ok a := by
  have hfree : ∀ {v : World σ}, v.space.boundRoot = none → v.space.checkDelete id false = .ok n →
      ∃ a, (v.delete h id false).1 = .ok a := by
    intro v hv hc
    rcases he : v.delete h id false with ⟨a, v'⟩
    cases delete_ends he with
    | rejected hc' => cases hc.symm.trans hc'
    | failed _ hb | written _ hb => cases hv.symm.trans hb
    | removed => exact ⟨(), rfl⟩
  cases hw with
  | free hf => exact hfree hf.unbound hc
  | bound hs hb hh hm =>
    obtain ⟨q, hl⟩ := hs.tree.exists_leads (Workspace.checkDelete_eq_ok_iff.1 hc).1
    exact ok_of_together (together_delete (g := h) hh (inStep_unbind hs hb hm) (sameId_unbind hl)
      false) (hfree rfl hc)

theorem setContent_eq_ok (hw : w.Settled h) (hc : w.space.requireFile id = .ok n)
    (content : String) : ∃ a, (w.setContent h id content).1 = .ok a := by
  have hfree : ∀ {v : World σ}, v.space.boundRoot = none → v.space.Sound →
      v.space.requireFile id = .ok n → ∃ a, (v.setContent h id content).1 = .ok a := by
    intro v hv hs hc
    rcases he : v.setContent h id content with ⟨a, v'⟩
    cases setContent_ends he with
    | rejected hc' => cases hc.symm.trans hc'
    | failed _ hb | written _ hb => cases hv.symm.trans hb
    | refilled _ _ hw ha =>
      obtain ⟨m, hm⟩ : ∃ m, v'.space.arena.get? id = some m :=
        hw ▸ Table.exists_get?_modify ⟨n, (Workspace.requireFile_eq_ok_iff.1 hc).1⟩ _ _
      rw [answer_eq_ok hm] at ha
      exact ⟨m, ha.symm⟩
  cases hw with
  | free hf => exact hfree hf.unbound hf.sound hc
  | bound hs hb hh hm =>
    obtain ⟨q, hl⟩ := hs.tree.exists_leads (Workspace.requireFile_eq_ok_iff.1 hc).1
    exact ok_of_together (together_setContent (g := h) hh (inStep_unbind hs hb hm)
      (sameId_unbind hl) content) (hfree rfl hs.unbound hc)

theorem create_eq_ok (hw : w.Settled h) (hc : w.space.checkCreate name id = .ok n)
    (kind : NodeKind) (content : String) :
    ∃ a, (w.create h kind name id content).1 = .ok a := by
  have hfree : ∀ {v : World σ}, v.space.boundRoot = none →
      v.space.checkCreate name id = .ok n → ∃ a, (v.create h kind name id content).1 = .ok a := by
    intro v hv hc
    rcases he : v.create h kind name id content with ⟨a, v'⟩
    cases create_ends he with
    | rejected hc' => cases hc.symm.trans hc'
    | unlisted _ hb | failed _ hb | written _ hb => cases hv.symm.trans hb
    | added => exact ⟨_, rfl⟩
  cases hw with
  | free hf => exact hfree hf.unbound hc
  | bound hs hb hh hm =>
    obtain ⟨-, hn, -⟩ := Workspace.checkCreate_eq_ok_iff.1 hc
    obtain ⟨q, hl⟩ := hs.tree.exists_leads hn
    exact ok_of_together (together_create (g := h) hh (inStep_unbind hs hb hm) (sameId_unbind hl)
      kind name content) (hfree rfl hc)

/-- What is refused has not been begun. -/
theorem eq_of_delete {e : Setback} (hw : w.Settled h) (hd : w.delete h id false = (.error e, w')) :
    w' = w := by
  cases hc : w.space.checkDelete id false with
  | ok n =>
    obtain ⟨a, ha⟩ := hw.delete_eq_ok hc
    rw [hd] at ha
    cases ha
  | error r =>
    cases delete_ends hd with
    | rejected => rfl
    | failed hc' => cases hc.symm.trans hc'

theorem eq_of_setContent {e : Setback} (hw : w.Settled h)
    (hd : w.setContent h id content = (.error e, w')) : w' = w := by
  cases hc : w.space.requireFile id with
  | ok n =>
    obtain ⟨a, ha⟩ := hw.setContent_eq_ok hc content
    rw [hd] at ha
    cases ha
  | error r =>
    cases setContent_ends hd with
    | rejected => rfl
    | refilled hc' | failed hc' | written hc' => cases hc.symm.trans hc'

theorem eq_of_create {kind : NodeKind} {e : Setback} (hw : w.Settled h)
    (hd : w.create h kind name id content = (.error e, w')) : w' = w := by
  cases hc : w.space.checkCreate name id with
  | ok n =>
    obtain ⟨a, ha⟩ := hw.create_eq_ok hc kind content
    rw [hd] at ha
    cases ha
  | error r =>
    cases create_ends hd with
    | rejected => rfl
    | unlisted hc' | failed hc' | written hc' => cases hc.symm.trans hc'

/-- There is room for a new name in a directory. -/
theorem checkCreate_eq_ok (hw : w.Settled h) (hl : w.space.arena.Leads id q)
    (hd : w.space.arena.Shows q none) (hname : Path.isName name = true)
    (hfree : Shape.Free w.space.arena.Shows (q ++ [name])) :
    ∃ n, w.space.checkCreate name id = .ok n := by
  have ht := hw.sound.tree
  obtain ⟨x, n, hx, hn, hshown⟩ := hd
  obtain rfl := ht.leads_injective hx hl
  refine ⟨n, Workspace.checkCreate_eq_ok_iff.2
    ⟨hname, hn, Node.shown_eq_none_iff.1 hshown, Option.eq_none_iff_forall_ne_some.2 ?_⟩⟩
  intro c hc
  obtain ⟨hcget, hp, rfl⟩ := (ht.childNamed?_eq_some_iff hn).1 hc
  exact hfree _ ⟨c.id, c, .child hl hcget hp, hcget, rfl⟩

/-- Below an empty directory all directories can be made. -/
theorem ensureBelow_eq_ok (hw : w.Settled h) (hl : w.space.arena.Leads id q)
    (hd : w.space.arena.Shows q none) (hfree : ∀ s, Shape.Free w.space.arena.Shows (q ++ [s]))
    (hnames : AreNames names) : ∃ a, (w.ensureBelow h names id).1 = .ok a := by
  induction names generalizing w id q with
  | nil =>
    obtain ⟨n, hn⟩ := hw.sound.tree.mem_of_leads hl
    exact ⟨n, congrArg Prod.fst (ensureBelow_nil hn)⟩
  | cons s rest ih =>
    obtain ⟨hs, hrest⟩ := List.forall_mem_cons.1 hnames
    obtain ⟨-, hdot, hdots, -⟩ := Path.isName_iff.1 hs
    obtain ⟨d, hc⟩ := hw.checkCreate_eq_ok hl hd hs (hfree s)
    obtain ⟨-, hget, -, hnone⟩ := Workspace.checkCreate_eq_ok_iff.1 hc
    obtain ⟨n, hn⟩ := hw.create_eq_ok hc .directory ""
    rw [ensureBelow_missing hget hdot hdots hnone]
    generalize ho : w.create h .directory s id "" = o at hn
    obtain ⟨x, w₁⟩ := o
    obtain rfl : x = .ok n := hn
    obtain ⟨hw₁, hshows, hlead, -⟩ := hw.shows_of_create hl ho
    obtain ⟨hdir, hbare⟩ := hw.sound.tree.shape.grown_bare (hfree s)
    exact ih hw₁ hlead (by rw [hshows]; exact hdir) (by rw [hshows]; exact hbare) hrest

/-- Where directories along names cannot be made, none has been made: they can be made from the
first one on that is missing. -/
theorem eq_of_ensureBelow {e : Setback} (hw : w.Settled h) (hl : w.space.arena.Leads id q)
    (hnames : AreNames names) (hd : w.ensureBelow h names id = (.error e, w')) : w' = w := by
  induction names generalizing id q with
  | nil =>
    have hsnd := answer_snd w id
    rw [ensureBelow] at hd
    rw [hd] at hsnd
    exact hsnd
  | cons s rest ih =>
    obtain ⟨hs, hrest⟩ := List.forall_mem_cons.1 hnames
    obtain ⟨-, hdot, hdots, -⟩ := Path.isName_iff.1 hs
    have ht := hw.sound.tree
    cases ensureBelow_ends hd with
    | lost | blocked => rfl
    | here _ he => exact absurd he hdot
    | above _ he => exact absurd he hdots
    | below hn hc _ hr =>
      obtain ⟨hcget, hp, rfl⟩ := (ht.childNamed?_eq_some_iff hn).1 hc
      exact ih (.child hl hcget hp) hrest hr
    | unmade _ _ hm => exact hw.eq_of_create hm
    | made _ _ hm hr =>
      obtain ⟨hw₁, hshows, hlead, -, hfree⟩ := hw.shows_of_create hl hm
      obtain ⟨hdir, hbare⟩ := ht.shape.grown_bare hfree
      obtain ⟨a, ha⟩ := hw₁.ensureBelow_eq_ok hlead (by rw [hshows]; exact hdir)
        (by rw [hshows]; exact hbare) hrest
      rw [hr] at ha
      cases ha

theorem eq_of_ensureDirectories {e : Setback} (hw : w.Settled h) (hnames : AreNames names)
    (hplain : ∀ s ∈ names.getLast?, Path.IsPlain s) {cwd : String}
    (hd : w.ensureDirectories h (Path.ofNames names) cwd = (.error e, w')) : w' = w := by
  unfold ensureDirectories at hd
  rw [Path.isBlankText_ofNames, if_neg (by simp),
    Path.absolute_of_strip (Path.strip_ofNames_of_isPlain hplain),
    Path.segments_ofNames hnames] at hd
  exact hw.eq_of_ensureBelow .root hnames hd

end Settled

end Workbench.World
