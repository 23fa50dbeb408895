import Workbench.Proofs.World.Removed

/-!
# The tab that is selected

A deletion closes the tabs of all that is removed, and the tab that is selected then is told by the
order of the tabs before (`Tabs.Without`). In a free workspace these are the tabs of what lies at or
below the deleted node. In a bound workspace the tabs of nodes that the disk no longer shows close
first and those of the deleted node after them; the outcome is the same as if all were closed
together (`Tabs.Thinned.trans`).
-/

namespace Workbench

variable {σ : Type}

theorem Workspace.thinned_rebuilt {s : Workspace} (hs : s.tabs.Sound) (F : List DiskEntry)
    (carried : Workspace.Carried) (now : Timestamp) :
    s.tabs.Thinned (fun y => ((s.rebuilt F carried now).node? y).isNone)
      (s.rebuilt F carried now).tabs := by
  refine (hs.thinned_closeMany _).congr hs fun y hy => ?_
  rw [Bool.eq_iff_iff, List.contains_iff_mem, List.mem_filter, Bool.not_eq_true',
    Table.contains_eq_false_iff, Option.isNone_iff_eq_none]
  exact and_iff_right hy

namespace World

variable {h : Host σ} {w w' : World σ} {id y : NodeId} {n : Node} {recursive : Bool}

/-- The tabs of what lies at or below a node. -/
def holds (w : World σ) (id y : NodeId) : Bool :=
  Path.isAtOrBelow (w.space.pathOf y) (w.space.pathOf id)

theorem contains_subtreeIds (hs : w.space.Sound) (hn : w.space.node? id = some n)
    (hy : y ∈ w.space.tabs.openIds) :
    (w.space.arena.subtreeIds id).contains y = w.holds id y := by
  obtain ⟨k, hk, -⟩ := hs.files hy
  rw [Bool.eq_iff_iff, List.contains_iff_mem, hs.tree.mem_subtreeIds_iff hn]
  exact (hs.tree.isAtOrBelow_pathOf_iff hn hk).symm

theorem without_of_free (hs : w.space.Sound) (hf : w.space.boundRoot = none)
    (hd : w.delete h id recursive = (.ok (), w')) :
    w.space.tabs.Without (w.holds id) w'.space.tabs := by
  cases delete_ends hd with
  | written _ hb => cases hf.symm.trans hb
  | @removed n hc =>
    obtain ⟨hn, -⟩ := Workspace.checkDelete_eq_ok_iff.1 hc
    obtain rfl := hs.tree.keyed hn
    have hthinned := (hs.tabs.thinned_closeMany (w.space.arena.subtreeIds n.id)).congr hs.tabs
      fun y hy => contains_subtreeIds hs hn hy
    exact hthinned.without hs.tabs (hs.tabs.closeMany _)

/-- In a bound workspace the tabs of nodes that are not listed any more close first. -/
theorem without_of_bound (hs : w.space.Sound) (hb : w.space.boundRoot.isSome = true)
    (hd : w.delete h id recursive = (.ok (), w')) :
    w.space.tabs.Without (fun y => (w'.space.node? y).isNone || w.holds id y) w'.space.tabs := by
  cases delete_ends hd with
  | removed _ hf => simp [hf] at hb
  | @written n _ w₁ hc _ hwrite =>
    obtain ⟨hn, -⟩ := Workspace.checkDelete_eq_ok_iff.1 hc
    obtain rfl := hs.tree.keyed hn
    have hfirst : w.space.tabs.Thinned (fun y => (w₁.space.node? y).isNone) w₁.space.tabs ∧
        w₁.space.tabs.Sound := by
      obtain ⟨F, he⟩ := Host.rebuilt_of_writeThrough hwrite
      rw [he]
      exact ⟨Workspace.thinned_rebuilt hs.tabs F [] h.now, hs.tabs.closeMany _⟩
    have hboth := hfirst.1.trans (hfirst.2.thinned_closeMany (w.space.arena.subtreeIds n.id))
    have hgone : ∀ y ∈ w.space.tabs.openIds, ((w₁.space.node? y).isNone ||
        (w.space.arena.subtreeIds n.id).contains y) =
          ((w₁.space.node? y).isNone || w.holds n.id y) := fun y hy => by
      rw [contains_subtreeIds hs hn hy]
    have hthinned := hboth.congr hs.tabs hgone
    exact hthinned.without hs.tabs (hfirst.2.closeMany _)

/-- Closing tabs gives back those that were open, in the order of the bar, and selects a tab that
the order of the bar alone tells, whatever the order in which the tabs to be closed are named. So
does a deletion, which closes the tabs of what lies at or below the node; in a bound workspace those
of nodes that are not listed any more are closed as well. -/
theorem selected_of_closing :
    (∀ t : Tabs, t.Sound → ∀ targets : List String,
      (t.closeMany targets).1 = t.openIds.filter targets.contains ∧
      t.Without targets.contains (t.closeMany targets).2 ∧
      ∀ targets', (∀ y, y ∈ targets' ↔ y ∈ targets) →
        t.closeMany targets' = t.closeMany targets) ∧
    ∀ w : World σ, w.Reachable → ∀ h id recursive w',
      w.delete h id recursive = (.ok (), w') →
        (w.space.boundRoot = none → w.space.tabs.Without (w.holds id) w'.space.tabs) ∧
        (w.space.boundRoot.isSome = true → w.space.tabs.Without
          (fun y => (w'.space.node? y).isNone || w.holds id y) w'.space.tabs) := by
  refine ⟨fun t ht targets => ⟨rfl, ?_, fun targets' he => ?_⟩, fun w hw h id recursive w' hd => ?_⟩
  · exact (ht.thinned_closeMany targets).without ht (ht.closeMany targets)
  · exact Tabs.closeMany_congr fun y _ => he y
  · exact ⟨fun hf => without_of_free hw.sound hf hd, fun hb => without_of_bound hw.sound hb hd⟩

/-- Four open files. The second is active; it lies in one directory with the third. -/
def tabbedWorld : World Unit :=
  [.create .file "a" rootId "", .create .directory "b" rootId "", .create .file "c" "n2" "",
    .create .file "d" "n2" "", .create .file "e" rootId "", .openTab "n1", .openTab "n4",
    .openTab "n3", .openTab "n5", .openTab "n4"].foldl
    (fun w (op : Operation) => (op.run memoryHost w).2) ⟨.new "/home/user" default, ()⟩

theorem reachable_tabbedWorld : tabbedWorld.Reachable :=
  (Reachable.new "/home/user" default ()).runs lawful_memoryHost _

/-- A bridge that shows a file, and a directory with another one before it until anything has been
asked for. -/
def clearedBridge : Bridge Bool where
  ignored := []
  maxDepth := none
  list now _ cleared :=
    let file := DiskEntry.file "c" "" 0 now
    (.ok (if cleared then [file] else [.directory "a" now [.file "b" "" 0 now], file]), cleared)
  perform _ _ _ := (.ok (.done none), true)

def clearedHost : Host Bool := ⟨some clearedBridge, default⟩

theorem lawful_clearedHost : clearedHost.Lawful := by
  rintro b hb now root d F d' hl
  obtain rfl := Option.some.inj hb
  obtain rfl := Except.ok.inj (congrArg Prod.fst hl)
  have hfile : ∀ {name}, Path.isName name = true → DiskEntry.Proper (.file name "" 0 now) := .file
  cases d with
  | false =>
    refine ⟨by simp [DiskEntry.name], fun e he => ?_⟩
    rcases List.mem_cons.1 he with rfl | he
    · refine .directory (by decide) (List.nodup_singleton _) fun e he => ?_
      exact List.mem_singleton.1 he ▸ hfile (by decide)
    · exact List.mem_singleton.1 he ▸ hfile (by decide)
  | true =>
    refine ⟨List.nodup_singleton _, fun e he => ?_⟩
    exact List.mem_singleton.1 he ▸ hfile (by decide)

/-- A workspace that is bound to this bridge, with both files open and the one in the directory
active. -/
def shownTabs : World Bool :=
  [.bind "/disk", .openTab "n2", .openTab "n3", .openTab "n2"].foldl
    (fun w (op : Operation) => (op.run clearedHost w).2) ⟨.new "/home/user" default, false⟩

theorem reachable_shownTabs : shownTabs.Reachable :=
  (Reachable.new "/home/user" default false).runs lawful_clearedHost _

/-- When the directory is deleted, the fourth tab is selected; when the fourth tab closes together
with the two of the directory, the first one is. On the disk the second tab is selected when the
first closes. -/
theorem selected_tabbed :
    (tabbedWorld.space.tabs = ⟨["n1", "n4", "n3", "n5"], some "n4"⟩ ∧
      (tabbedWorld.space.tabs.closeMany ["n5", "n3", "n4"]).2.activeId = some "n1" ∧
      ∃ w', tabbedWorld.delete memoryHost "n2" true = (.ok (), w') ∧
        w'.space.tabs.activeId = some "n5") ∧
    shownTabs.space.tabs = ⟨["n2", "n3"], some "n2"⟩ ∧
      ∃ w', shownTabs.delete clearedHost "n1" true = (.ok (), w') ∧
        w'.space.tabs.activeId = some "n3" := by
  refine ⟨?_, ?_⟩
  · have htabs : tabbedWorld.space.tabs = ⟨["n1", "n4", "n3", "n5"], some "n4"⟩ := by
      decide +kernel
    have hactive : tabbedWorld.space.tabs.activeId = some "n4" := by rw [htabs]
    have hsides : tabbedWorld.space.tabs.openIds = ["n1"] ++ "n4" :: ["n3", "n5"] := by
      rw [htabs]
      rfl
    obtain ⟨hclose, hdelete⟩ := selected_of_closing (σ := Unit)
    obtain ⟨-, hwithout, -⟩ := hclose _ reachable_tabbedWorld.sound.tabs ["n5", "n3", "n4"]
    have hd : tabbedWorld.delete memoryHost "n2" true =
        (.ok (), (tabbedWorld.delete memoryHost "n2" true).2) := Prod.ext (by decide +kernel) rfl
    have hleft := (hdelete _ reachable_tabbedWorld _ _ _ _ hd).1 (by decide +kernel)
    have hheld : tabbedWorld.holds "n2" "n4" = true ∧ tabbedWorld.holds "n2" "n3" = true ∧
        tabbedWorld.holds "n2" "n5" = false := by decide +kernel
    obtain ⟨hfourth, hthird, hfifth⟩ := hheld
    refine ⟨htabs, ?_, _, hd, ?_⟩
    · rw [hwithout.moves hactive hsides (by decide), hwithout.openIds, htabs]
      decide
    · rw [hleft.moves hactive hsides hfourth]
      simp [hthird, hfifth]
  · have htabs : shownTabs.space.tabs = ⟨["n2", "n3"], some "n2"⟩ := by decide +kernel
    have hd : shownTabs.delete clearedHost "n1" true =
        (.ok (), (shownTabs.delete clearedHost "n1" true).2) := Prod.ext (by decide +kernel) rfl
    have hleft := ((selected_of_closing (σ := Bool)).2 _ reachable_shownTabs _ _ _ _ hd).2
      (by decide +kernel)
    refine ⟨htabs, _, hd, ?_⟩
    have hsides : shownTabs.space.tabs.openIds = [] ++ "n2" :: ["n3"] := by
      rw [htabs]
      rfl
    rw [hleft.moves (by rw [htabs]) hsides (by decide +kernel)]
    decide +kernel

end World

end Workbench
