import Workbench.Proofs.Disk.Local
import Workbench.Proofs.World.Runs
import Workbench.Terminal.Change

/-!
# Deletions on the local disk

A workspace that is bound to the local disk refuses to delete a directory that holds something
unless that is asked for. What it holds is what the last listing has shown of it, and that leaves
out the ignored names, what lies too deep and what has come since. The bridge deletes a directory
with everything in it. So a deletion that is not recursive removes one entry from the disk exactly
when nothing at all lies below it there, whatever the workspace shows.
-/

namespace Workbench

namespace LocalDisk

variable {limits : LocalLimits} {now : Timestamp} {w w' : World FileSystem} {call : DiskCall}
  {carried : Workspace.Carried} {a : Option String}

/-- The host of a workspace on the local disk. -/
def host (limits : LocalLimits) (now : Timestamp) : Host FileSystem := ⟨some (bridge limits), now⟩

theorem done_of_host (h : (host limits now).perform w call = (.ok (), w')) :
    ∃ a, perform call w.disk = (.ok (.done a), w'.disk) := by
  simp only [host, Host.perform, bridge] at h
  split at h
  · next a d he =>
    obtain rfl := (Prod.mk.inj h).2
    exact ⟨a, he⟩
  · cases h
  · cases h

/-- A listing leaves the disk as it is. -/
theorem disk_of_list (limits : LocalLimits) (now : Timestamp) (w : World FileSystem)
    (root : String) : ((host limits now).list w root).2.disk = w.disk := by
  simp only [host, Host.list, bridge]
  cases list limits now root w.disk <;> rfl

theorem disk_of_resync (limits : LocalLimits) (now : Timestamp) (w : World FileSystem)
    (carried : Workspace.Carried) : ((host limits now).resync w carried).2.disk = w.disk :=
  (Host.resync_disk _ w carried).trans (disk_of_list limits now w _)

/-- What is written through has been done on the disk. -/
theorem done_of_writeThrough (h : (host limits now).writeThrough w call carried = (.ok (), w')) :
    ∃ a, perform call w.disk = (.ok (.done a), w'.disk) := by
  unfold Host.writeThrough at h
  split at h
  · next w₁ he =>
    obtain ⟨a, ha⟩ := done_of_host he
    have hd := disk_of_resync limits now w₁ carried
    rw [h] at hd
    exact ⟨a, by rw [ha, hd]⟩
  · cases h

end LocalDisk

namespace World

variable {limits : LocalLimits} {now : Timestamp} {w w' : World FileSystem} {id : NodeId}
  {path : String}

/-- A node is deleted from the disk: what is at its place and below it is gone, everything else is
left. This is one entry exactly when there was nothing below. -/
def Deleted (w : World FileSystem) (id : NodeId) (w' : World FileSystem) : Prop :=
  ∃ place, w.disk.placeOf .stay (w.nodePath id) = .ok place ∧
    (w.disk.items.get? place).isSome ∧
    (∀ q, w'.disk.item? q = if place <:+ q then none else w.disk.item? q) ∧
    (w.disk.items.size = w'.disk.items.size + 1 ↔
      ∀ q, place <:+ q → q ≠ place → w.disk.item? q = none)

/-- What a deletion of a bound workspace does to the local disk. -/
theorem deleted_of_delete (hs : w.space.Sound) (hb : w.space.boundRoot.isSome) {recursive : Bool}
    (h : w.delete (LocalDisk.host limits now) id recursive = (.ok (), w')) : w.Deleted id w' := by
  cases delete_ends h with
  | removed _ hf => simp [hf] at hb
  | @written n _ w₁ hc _ he =>
  obtain ⟨hn, -, -⟩ := Workspace.checkDelete_eq_ok_iff.1 hc
  obtain rfl := hs.tree.keyed hn
  obtain ⟨a, ha⟩ := LocalDisk.done_of_writeThrough he
  obtain ⟨place, i, hp, hne, hi, hd⟩ := LocalDisk.done_of_delete ha
  have hnames : Path.AreNames (w.space.arena.namesTo n.id) :=
    hs.tree.isName_of_leads (hs.tree.leads_namesTo hn)
  rw [nodePath, diskPath, Disk.tidied_below _ hnames] at hp
  rw [FileSystem.item?_of_ne_nil hne] at hi
  refine ⟨place, hp, by rw [hi]; rfl, fun q => ?_, ?_⟩
  · rw [hd, FileSystem.item?_removeAt hne]
  · rw [hd, FileSystem.size_removeAt_iff hi]
    refine forall_congr' fun q => forall_congr' fun hq => forall_congr' fun _ => ?_
    have : q ≠ [] := by
      rintro rfl
      exact hne (List.suffix_nil.1 hq)
    rw [FileSystem.item?_of_ne_nil this]

/-- A command that says of its operand only that it is removed has deleted a node. -/
theorem deleted_of_said (hs : w.space.Sound) (hb : w.space.boundRoot.isSome) {recursive : Bool}
    {onRefusal : Refusal → String} {text : String}
    (h : Change.sayOf (w.delete (LocalDisk.host limits now) id recursive) [.ok text] onRefusal =
      (.ok [.ok text], w')) : w.Deleted id w' := by
  unfold Change.sayOf at h
  split at h
  · next u w₁ he =>
    obtain rfl : w₁ = w' := (Prod.mk.inj h).2
    exact deleted_of_delete hs hb he
  · cases h
  · cases h

/-- In a workspace on the local disk, a deletion that is not recursive, an `rmdir` and an `rm`
without `-r` each remove the node that they name with whatever lies below it on the disk. So they
remove exactly one entry when nothing lies below, and only then. -/
theorem deleted_of_removals (hs : w.space.Sound) (hb : w.space.boundRoot.isSome) :
    (∀ {id w'}, w.delete (LocalDisk.host limits now) id false = (.ok (), w') →
      w.Deleted id w') ∧
    (∀ {scene path w'}, Change.rmdirOne ⟨LocalDisk.host limits now, scene⟩ w path =
        (.ok [.ok ("Removed directory: " ++ path)], w') →
      ∃ n, w.space.resolve? path scene.cwd = some n ∧ w.Deleted n.id w') ∧
    ∀ {scene force path w'}, Change.rmOne ⟨LocalDisk.host limits now, scene⟩ false force w path =
        (.ok [.ok ("Removed: " ++ path)], w') →
      ∃ n, w.space.resolve? path scene.cwd = some n ∧ w.Deleted n.id w' := by
  refine ⟨fun h => deleted_of_delete hs hb h, fun {scene path w'} h => ?_,
    fun {scene force path w'} h => ?_⟩
  · unfold Change.rmdirOne at h
    split at h
    · cases h
    · next n hn =>
      refine ⟨n, hn, ?_⟩
      split at h
      · cases h
      · split at h
        · cases h
        · split at h
          · cases h
          · exact deleted_of_said hs hb h
  · unfold Change.rmOne at h
    split at h
    · cases force <;> cases h
    · next n hn =>
      refine ⟨n, hn, ?_⟩
      split at h
      · cases h
      · split at h
        · cases h
        · exact deleted_of_said hs hb h

/-! ## A directory that is not as empty as it looks -/

/-- A disk on which a directory holds only a directory of an ignored name, with a file in it. -/
def shadedDisk : FileSystem where
  items := .ofList [(["d"], .directory), (["node_modules", "d"], .directory),
    (["x.js", "node_modules", "d"], .file [120])]

/-- A workspace that is bound to it. -/
def shadedWorld : World FileSystem :=
  (World.bind (LocalDisk.host {} default) ⟨.new "/home/user" default, shadedDisk⟩ "/").2

theorem sound_shadedWorld : shadedWorld.space.Sound := by
  have hw : shadedWorld.space = (Workspace.new "/home/user" default).bound "/"
      [.directory "d" default []] default := by decide +kernel
  rw [hw]
  refine .bound ⟨by simp, fun e he => ?_⟩ _ _
  obtain rfl := List.mem_singleton.1 he
  exact .directory (by decide) (by simp) fun _ h => nomatch h

/-- The directory shows no entries and is deleted; three entries are gone from the disk. -/
theorem deleted_shaded : ∃ w', shadedWorld.delete (LocalDisk.host {} default) "n1" false =
    (.ok (), w') ∧ shadedWorld.Deleted "n1" w' := by
  have hok : (shadedWorld.delete (LocalDisk.host {} default) "n1" false).1 = .ok () := by
    decide +kernel
  have he : shadedWorld.delete (LocalDisk.host {} default) "n1" false =
      (.ok (), (shadedWorld.delete (LocalDisk.host {} default) "n1" false).2) := Prod.ext hok rfl
  exact ⟨_, he, (deleted_of_removals sound_shadedWorld (by decide +kernel)).1 he⟩

theorem not_one_deleted_shaded :
    ((shadedWorld.space.node? "n1").map Node.children = some [] ∧
      shadedWorld.space.pathOf "n1" = "/d" ∧
      (shadedWorld.delete (LocalDisk.host {} default) "n1" false).1 = .ok () ∧
      shadedWorld.disk.items.size = 3 ∧
      (shadedWorld.delete (LocalDisk.host {} default) "n1" false).2.disk.items.size = 0) := by
  decide +kernel

end World

end Workbench
