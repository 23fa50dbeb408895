import Workbench.Proofs.Workspace.Presented
import Workbench.Proofs.World.Consistent
import Workbench.Proofs.World.Relocated

/-!
# Rebuildings by operations

What a bound workspace is after a plain rebuilding, and after one at the end of a move or a new
name: exactly what the disk reports, under the ids of the nodes that were there
(`Workspace.Resynced`). Nothing is asked of the disk but that its listing is proper; it may have
changed in any way, and may have done something else than it was asked for.
-/

namespace Workbench

variable {σ : Type} {h : Host σ} {w w' : World σ} {id t q : NodeId} {n : Node}
  {F : List DiskEntry} {root : String}

namespace Workspace

variable {s s' : Workspace} {lived : List String → NodeId → Prop}

/-- Marks make no difference to the tree and the tabs. -/
theorem Resynced.marked (h : s.Resynced F lived s') (hs : s'.Sound) (id : NodeId)
    (changes : NodeUpdate) : s.Resynced F lived (s'.marked id changes) := by
  have ht := (hs.marked id changes).tree
  have forth : ∀ {y n}, s'.arena.get? y = some n → ∃ m,
      (s'.marked id changes).arena.get? y = some m ∧ m.Alike n ∧ m.children = n.children := by
    intro y n hn
    rw [Workspace.marked, Table.get?_modify]
    split
    · next hy =>
      subst hy
      exact ⟨{ n with marks := changes.marks n.marks }, by rw [hn]; rfl,
        ⟨rfl, rfl, rfl, rfl, rfl, rfl⟩, rfl⟩
    · exact ⟨n, hn, .refl n, rfl⟩
  obtain ⟨r, hr, -⟩ := ht.root
  refine ⟨?_, ht.reached, ?_, fun hq => ?_, ?_⟩
  · obtain ⟨r, hr, hpresents⟩ := h.presents
    obtain ⟨r', hr', -, hc⟩ := forth hr
    exact ⟨r', hr', hc ▸ hpresents.keep hs.tree fun _ _ hn => forth hn⟩
  · rw [walk, ht.map_id_subtree hr]
    exact ht.nodup_subtreeIds hr
  · obtain ⟨x, m, hl, hm, hshown, hid⟩ := h.ids hq
    obtain ⟨m', hm', ha, -⟩ := forth hm
    refine ⟨x, m', hl.mono fun hn => ?_, hm', ha.shown.trans hshown, ha.kind ▸ hid⟩
    obtain ⟨k, hk, hkn, -⟩ := forth hn
    exact ⟨k, hk, hkn.name, hkn.parentId⟩
  · refine h.tabs.trans (List.filter_congr fun x _ => ?_)
    rw [node?, node?, Workspace.marked, Table.get?_modify]
    split
    · next hx =>
      subst hx
      rw [Option.isSome_map]
    · rfl

end Workspace

namespace Host

end Host

namespace World

end World

end Workbench
