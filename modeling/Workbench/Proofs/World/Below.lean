import Workbench.Proofs.World.Consistent
import Workbench.Proofs.World.Removed

/-!
# What lies below a node

Whether a node is another or lies below it is asked in three ways. The visit of the other meets it
on the way down; climbing from it meets the other on the way up; and its path is the other's or goes
on from it after a slash. In a tree the three agree, since they all tell what the lists of children
do. The last one needs more than the links of a tree: names are free of slashes, and siblings have
different ones, so that different nodes have different paths.
-/

namespace Workbench

namespace Arena.IsTree

variable {a : Arena} {x y : NodeId} {n m : Node}

/-- Different nodes have different paths. -/
theorem pathOf_injective (h : a.IsTree) (hx : a.get? x = some n) (hy : a.get? y = some m)
    (he : a.pathOf x = a.pathOf y) : x = y := by
  have hlx := h.leads_namesTo hx
  have hly := h.leads_namesTo hy
  have hnames := Path.ofNames_injective (h.isName_of_leads hlx) (h.isName_of_leads hly) he
  rw [hnames] at hlx
  exact h.leads_injective hlx hly

end Arena.IsTree

namespace World

variable {σ : Type} {w : World σ} {x y : NodeId} {n m : Node}

/-- In every workspace that is reached, the visit of a node ends. It meets a node exactly when that
is the same or has the first above it, exactly when its path is at or below that of the first, and
exactly when the lists of children lead to it. Different nodes have different paths. -/
theorem below_tests_agree (hw : w.Reachable) (hx : w.space.node? x = some n)
    (hy : w.space.node? y = some m) :
    w.space.arena.visitFrom x = .ok (w.space.arena.subtreeIds x) ∧
      (y ∈ w.space.arena.subtreeIds x ↔ y = x ∨ w.space.arena.isAncestor x y = true) ∧
      (y ∈ w.space.arena.subtreeIds x ↔
        Path.isAtOrBelow (w.space.pathOf y) (w.space.pathOf x) = true) ∧
      (y ∈ w.space.arena.subtreeIds x ↔ Relation.ReflTransGen w.space.ListsChild x y) ∧
      (x ≠ y → w.space.pathOf x ≠ w.space.pathOf y) := by
  have h := hw.sound.tree
  have hmem : y ∈ w.space.arena.subtreeIds x ↔ w.space.arena.AtOrBelow x y :=
    h.mem_subtreeIds_iff hx
  refine ⟨(h.spans_subtreeIds hx).1, hmem.trans (h.eq_or_isAncestor_iff hy).symm,
    hmem.trans (h.isAtOrBelow_pathOf_iff hx hy).symm, ?_,
    fun hne he => hne (h.pathOf_injective hx hy he)⟩
  rw [Workspace.listsChild_eq h]
  exact hmem

/-- A directory with a file in it, and a file beside it whose name begins like that of the
directory. -/
def likenedWorld : World Unit :=
  [.create .directory "a" rootId "", .create .file "b" "n1" "",
    .create .file "ab" rootId ""].foldl
    (fun w (op : Operation) => (op.run memoryHost w).2) ⟨.new "/home/user" default, ()⟩

theorem reachable_likenedWorld : likenedWorld.Reachable :=
  (Reachable.new "/home/user" default ()).runs lawful_memoryHost _

/-- The file in the directory lies below it, whichever way it is asked, and the file beside it does
not, though the path of the directory is the beginning of its path. -/
theorem below_likened :
    (likenedWorld.space.pathOf "n1" = "/a" ∧ likenedWorld.space.pathOf "n2" = "/a/b" ∧
      likenedWorld.space.pathOf "n3" = "/ab") ∧
    ("n2" ∈ likenedWorld.space.arena.subtreeIds "n1" ∧
      likenedWorld.space.arena.isAncestor "n1" "n2" = true) ∧
    "n3" ∉ likenedWorld.space.arena.subtreeIds "n1" ∧
      likenedWorld.space.arena.isAncestor "n1" "n3" = false := by
  have hpaths : likenedWorld.space.pathOf "n1" = "/a" ∧ likenedWorld.space.pathOf "n2" = "/a/b" ∧
      likenedWorld.space.pathOf "n3" = "/ab" := by decide +kernel
  have hthere : ∀ id ∈ ["n1", "n2", "n3"], (likenedWorld.space.node? id).isSome = true := by
    decide +kernel
  obtain ⟨n, hn⟩ := Option.isSome_iff_exists.1 (hthere "n1" (by decide))
  obtain ⟨k, hk⟩ := Option.isSome_iff_exists.1 (hthere "n2" (by decide))
  obtain ⟨m, hm⟩ := Option.isSome_iff_exists.1 (hthere "n3" (by decide))
  obtain ⟨-, hinsideUp, hinside, -⟩ := below_tests_agree reachable_likenedWorld hn hk
  obtain ⟨-, hbesideUp, hbeside, -⟩ := below_tests_agree reachable_likenedWorld hn hm
  obtain ⟨h1, h2, h3⟩ := hpaths
  have hbelow : "n2" ∈ likenedWorld.space.arena.subtreeIds "n1" := by
    rw [hinside, h1, h2]
    decide
  have hnot : "n3" ∉ likenedWorld.space.arena.subtreeIds "n1" := by
    rw [hbeside, h1, h3]
    decide
  refine ⟨⟨h1, h2, h3⟩, ⟨hbelow, (hinsideUp.1 hbelow).resolve_left (by decide)⟩, hnot, ?_⟩
  rw [Bool.eq_false_iff]
  exact fun hup => hnot (hbesideUp.2 (.inr hup))

end World

end Workbench
