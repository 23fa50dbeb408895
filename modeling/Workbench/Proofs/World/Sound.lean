import Workbench.Proofs.World.Ends

/-!
# Every operation keeps the workspace sound

One theorem for each operation: from a world with a sound workspace, and over a host whose listings
are proper, it leads to a world with a sound workspace, however it ends. In a free workspace this
is the edit after its check; in a bound one it is the rebuilding, and what is done to the tabs
afterwards.
-/

namespace Workbench.World

variable {σ : Type} {h : Host σ} {w : World σ} {id parentId targetId : NodeId} {name : String}

theorem sound_create (hh : h.Lawful) (hs : w.space.Sound) (kind : NodeKind) (name : String)
    (parentId : NodeId) (content : String) :
    (w.create h kind name parentId content).2.space.Sound := by
  rcases he : w.create h kind name parentId content with ⟨a, w'⟩
  cases create_ends he with
  | rejected | unlisted => exact hs
  | added hc =>
    obtain ⟨hname, hd, hk, hfree⟩ := Workspace.checkCreate_eq_ok_iff.1 hc
    obtain rfl := hs.tree.keyed hd
    exact (hs.added (hs.room hd hk hname hfree kind content h.now)
      (by unfold Workspace.drawnNode; split <;> rfl) h.now).1
  | failed _ _ _ hw | written _ _ _ hw => exact Host.sound_of_writeThrough hh hs .nil hw

theorem sound_ensureDirectories (hh : h.Lawful) (hs : w.space.Sound) (path cwd : String) :
    (w.ensureDirectories h path cwd).2.space.Sound :=
  ensureDirectories_keeps (P := fun v => v.space.Sound) (fun _ hv => sound_create hh hv _ _ _ _) hs

theorem sound_delete (hh : h.Lawful) (hs : w.space.Sound) (id : NodeId) (recursive : Bool) :
    (w.delete h id recursive).2.space.Sound := by
  rcases he : w.delete h id recursive with ⟨a, w'⟩
  cases delete_ends he with
  | rejected => exact hs
  | removed hc =>
    obtain ⟨hn, hroot, -⟩ := Workspace.checkDelete_eq_ok_iff.1 hc
    obtain ⟨q, -, hq, -⟩ := hs.tree.held hn (hs.tree.keyed hn ▸ hroot)
    rw [hq]
    exact hs.removed hn hq h.now
  | failed _ _ hw => exact Host.sound_of_writeThrough hh hs .nil hw
  | written _ _ hw => exact (Host.sound_of_writeThrough hh hs .nil hw).closeMany _

theorem sound_relabel (hh : h.Lawful) (hs : w.space.Sound) {changes : NodeUpdate} {n : Node}
    {p : Workspace.Placement} (hc : w.space.checkUpdate id changes = .ok (n, some p)) :
    (w.relabel h p).2.space.Sound := by
  obtain ⟨hn, hp, hg⟩ := Workspace.mayGo_of_checkUpdate hs.tree hc
  have hc := Workspace.Carried.Fit.carriedTo hs.tree hn hg.notRoot (w.placeIn p.target p.name)
  rcases he : w.relabel h p with ⟨a, w'⟩
  cases relabel_ends he with
  | renamed => exact hs.replant_moved (hs.moved_renamed hn hp h.now) hg
  | unlisted => exact hs
  | failed _ _ hw | written _ _ hw => exact Host.sound_of_writeThrough hh hs hc hw

theorem MarkEnds.sound {a : Except Setback Node} {changes : NodeUpdate} {w' : World σ}
    (hm : MarkEnds w id changes a w') (hs : w.space.Sound) : w'.space.Sound := by
  cases hm with
  | missing => exact hs
  | marked => exact hs.marked id changes

theorem sound_update (hh : h.Lawful) (hs : w.space.Sound) (id : NodeId) (changes : NodeUpdate) :
    (w.update h id changes).2.space.Sound := by
  rcases he : w.update h id changes with ⟨a, w'⟩
  cases update_ends he with
  | rejected => exact hs
  | marked _ hm => exact hm.sound hs
  | unnamed hc hr =>
    have hw := sound_relabel hh hs hc
    rwa [hr] at hw
  | renamed hc hr hm =>
    have hw := sound_relabel hh hs hc
    rw [hr] at hw
    exact hm.sound hw

theorem sound_rename (hh : h.Lawful) (hs : w.space.Sound) (id : NodeId) (name : String) :
    (w.rename h id name).2.space.Sound :=
  sound_update hh hs id _

theorem sound_move (hh : h.Lawful) (hs : w.space.Sound) (id targetId : NodeId)
    (name? : Option String) : (w.move h id targetId name?).2.space.Sound := by
  rcases he : w.move h id targetId name? with ⟨a, w'⟩
  cases move_ends he with
  | rejected | kept | unlisted => exact hs
  | moved hc hsame _ hw =>
    have hp := Workspace.found_of_checkMove hs.tree hc
    obtain ⟨q, hq⟩ := hp.held
    have hg := Workspace.mayGo_of_checkMove hs.tree hc hsame
    rw [hw, hq]
    exact hs.replant_moved (hs.moved_moved hp.node hq hg h.now) hg
  | failed hc _ _ _ hw | written hc _ _ _ hw =>
    have hp := Workspace.found_of_checkMove hs.tree hc
    exact Host.sound_of_writeThrough hh hs (.carriedTo hs.tree hp.node hp.notRoot _) hw

/-- A copy whose check has passed. -/
theorem sound_of_checkCopy {s : Workspace} (hs : s.Sound) {name? : Option String}
    {p : Workspace.Placement} (hc : s.checkCopy id targetId name? = .ok p) (now : Timestamp) :
    (s.copied p now).Sound :=
  have hp := Workspace.found_of_checkCopy hs.tree hc
  hs.copied hp.node hp.target hp.directory hp.isName (Workspace.free_of_checkCopy hs.tree hc).2 now

theorem sound_copy (hh : h.Lawful) (hs : w.space.Sound) (id targetId : NodeId)
    (name? : Option String) : (w.copy h id targetId name?).2.space.Sound := by
  rcases he : w.copy h id targetId name? with ⟨a, w'⟩
  cases copy_ends he with
  | rejected | unlisted => exact hs
  | copied hc _ hw =>
    rw [hw]
    exact sound_of_checkCopy hs hc h.now
  | unseen _ _ _ hd hr | interrupted _ _ _ hd hr | written _ _ _ hd hr =>
    exact Host.sound_of_resync hh (Host.space_of_performAll hd ▸ hs) .nil hr

theorem sound_setContent (hh : h.Lawful) (hs : w.space.Sound) (id : NodeId) (content : String) :
    (w.setContent h id content).2.space.Sound := by
  rcases he : w.setContent h id content with ⟨a, w'⟩
  cases setContent_ends he with
  | rejected => exact hs
  | refilled hc _ hw =>
    obtain ⟨hn, hk⟩ := Workspace.requireFile_eq_ok_iff.1 hc
    obtain rfl := hs.tree.keyed hn
    rw [hw]
    exact hs.refilled hn hk content h.now
  | failed _ _ hw | written _ _ hw => exact Host.sound_of_writeThrough hh hs .nil hw

theorem sound_touch (hh : h.Lawful) (hs : w.space.Sound) (id : NodeId) :
    (w.touch h id).2.space.Sound := by
  rcases he : w.touch h id with ⟨a, w'⟩
  cases touch_ends he with
  | missing => exact hs
  | @rewritten n _ _ _ _ _ _ hw =>
    have hr := sound_setContent hh hs id n.content
    rwa [hw] at hr
  | touched _ _ hw =>
    rw [hw]
    exact hs.touched _ h.now

theorem sound_openTab (hs : w.space.Sound) (id : NodeId) : (w.openTab id).2.space.Sound := by
  rcases he : w.openTab id with ⟨a, w'⟩
  cases openTab_ends he with
  | rejected => exact hs
  | opened hc =>
    obtain ⟨hn, hk⟩ := Workspace.requireFile_eq_ok_iff.1 hc
    obtain rfl := hs.tree.keyed hn
    exact hs.opened hn hk

theorem sound_bind (hh : h.Lawful) (hs : w.space.Sound) (root : String) :
    (w.bind h root).2.space.Sound := by
  rcases he : w.bind h root with ⟨a, w'⟩
  cases bind_ends he with
  | unlisted hl => exact Host.space_of_list hl ▸ hs
  | bound hl hw =>
    rw [hw]
    exact .bound (hh.proper hl) root h.now

theorem sound_unbind (hs : w.space.Sound) : w.unbind.space.Sound := hs.unbound

theorem sound_resync (hh : h.Lawful) (hs : w.space.Sound) : (w.resync h).2.space.Sound := by
  rcases he : w.resync h with ⟨a, w'⟩
  cases resync_ends he with
  | unbound => exact hs
  | failed _ hr | rebuilt _ hr => exact Host.sound_of_resync hh hs .nil hr

end Workbench.World
