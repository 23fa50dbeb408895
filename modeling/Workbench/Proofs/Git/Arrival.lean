import Workbench.Proofs.Git.Uncommitted

/-!
# After a switch

Where a checkout or a pull has moved to another commit, the current branch, its tip and the index
are those of the commit, and what only the commit before tracked is gone. The files are those of the
commit if there was room for them (`Project.arrived_of_run`): a directory in the place of a file
stops the switch, except where the file is empty, and then it stays.
-/

namespace Workbench

open Repository

variable {σ : Type} {h : Host σ} {p p' : Project σ} {c : Git.Call} {text target : Option String}

namespace Project

/-- A project that has moved to a commit. -/
structure Arrived (p : Project σ) (c : Git.Call) (target : Option String) (p' : Project σ) :
    Prop where
  head : p'.repository.head = c.branch p.repository
  tip : p'.repository.tip? = target
  index : p'.repository.index = p.repository.treeOf target
  /-- No file is left that only the commit before tracked. -/
  gone : ∀ {path content}, p.repository.headTree.get? path ≠ none →
    (p.repository.treeOf target).get? path = none →
      ¬ p'.world.space.HasFile (p.repository.rootSlash ++ path) content
  /-- The files of the commit are there with their contents, if there was room for the empty ones,
  and not otherwise. -/
  files : (∀ path content, (p.repository.treeOf target).get? path = some content →
      p'.world.space.HasFile (p.repository.rootSlash ++ path) content) ↔
    p.repository.RoomFor (p.repository.treeOf target) p.world.space
  status : ∃ t, p'.repository.status p'.world.space = .ok t ∧ t.staged = [] ∧
    (t.modified = [] ↔ p.repository.RoomFor (p.repository.treeOf target) p.world.space)

/-- Where an operation succeeds that moves to another commit, the files match this commit exactly
when there was room for its empty files. -/
theorem arrived_of_run (hp : p.Reachable) (hw : p.world.Settled h) (hc : c.run h p = (.ok text, p'))
    (ht : c.target? p.repository = some target)
    (hold : p.repository.PlainTree p.repository.headTree)
    (hnew : p.repository.PlainTree (p.repository.treeOf target)) : Arrived p c target p' := by
  obtain ⟨hnone, -⟩ | ⟨target', ht', hs⟩ := run_eq_ok hc
  · rw [ht] at hnone
    cases hnone
  obtain rfl := Option.some.inj (ht.symm.trans ht')
  obtain ⟨hw', hr⟩ := hs.replaced hp hw hold hnew
  have hfiles := hr.forall_hasFile_iff (hp.tidy.treeOf target)
  obtain ⟨t, hstatus, hstaged, hmodified⟩ := hs.status hp hw'.sound.tree hnew
  refine ⟨hs.head, hs.tip, hs.index, ?_, hfiles, t, hstatus, hstaged, hmodified.trans hfiles⟩
  intro path content ho hn
  obtain ⟨old, hget⟩ := Option.ne_none_iff_exists'.1 ho
  have htracks := hp.tidy.treeOf p.repository.tip? path (Table.mem_keys_iff.2 ⟨old, hget⟩)
  exact hr.not_hasFile_of_gone htracks ho hn

/-- A branch with one file is moved to, and the file is there. -/
theorem arrived_onMain : Arrived secondCommit (.checkout "main") (some firstId)
      (secondCommit.onMain (some firstId) freeHost) ∧
    (secondCommit.onMain (some firstId) freeHost).world.space.HasFile
      (secondCommit.repository.rootSlash ++ "a") "one" := by
  have hw : secondCommit.world.Settled freeHost :=
    .free ⟨by decide +kernel, reachable_secondCommit.world.sound⟩
  have ht : Git.Call.target? secondCommit.repository (.checkout "main") = some (some firstId) := by
    decide +kernel
  have ha := arrived_of_run reachable_secondCommit hw run_secondCommit ht (by decide +kernel)
    (by decide +kernel)
  refine ⟨ha, ha.files.2 ?_ "a" "one" (by decide +kernel)⟩
  have hentries : (secondCommit.repository.treeOf (some firstId)).entries = [("a", "one")] := by
    decide +kernel
  intro path hget
  have hmem := Table.mem_entries_iff.2 hget
  rw [hentries] at hmem
  simp at hmem

example :
    (secondCommit.onMain (some firstId) freeHost).repository.index.entries = [("a", "one")] := by
  decide +kernel

/-! ## An empty file with a directory in its place -/

/-- A project with an empty file, of which the repository is told. -/
def emptyFile : Project Unit :=
  [.inr .init, .inl (.create .file "a" rootId ""), .inr (.add ["."])].foldl (act freeHost)
    newProject

def emptyId : String := "0ef2c5dd7d28e6200cd3873fc3e44deeb53a6cce"

/-- The empty file is committed on the first branch. -/
def emptyCommit : Project Unit :=
  { emptyFile with repository := emptyFile.repository.recorded emptyId "first" default }

/-- On another branch a directory takes its place, and the repository is told of a file in it. -/
def fileBelow : Project Unit :=
  [.inr (.createBranch "other"), .inr (.checkout "other"), .inl (.delete "n1" false),
    .inl (.create .directory "a" rootId ""), .inl (.create .file "b" "n2" "text"),
    .inr (.add ["-A"])].foldl (act freeHost) emptyCommit

def belowId : String := "4ba3002cd19308737d7eaa66798416c86853d7ea"

/-- The file in the directory is committed on the other branch. -/
def belowCommit : Project Unit :=
  { fileBelow with repository := fileBelow.repository.recorded belowId "second" default }

theorem reachable_emptyCommit : emptyCommit.Reachable := by
  have hp := reachable_newProject.acts lawful_freeHost
    [.inr .init, .inl (.create .file "a" rootId ""), .inr (.add ["."])]
  have hkeys : sorted emptyFile.repository.index.keys = ["a"] := by
    rw [show emptyFile.repository.index.keys = ["a"] by decide +kernel]
    exact List.mergeSort_singleton "a"
  refine Reachable.recorded hp (by decide +kernel) (by decide) (by decide +kernel) ?_
  exact (commitId_of_sorted hkeys).trans (by decide +kernel)

theorem reachable_belowCommit : belowCommit.Reachable := by
  have hp := reachable_emptyCommit.acts lawful_freeHost
    [.inr (.createBranch "other"), .inr (.checkout "other"), .inl (.delete "n1" false),
      .inl (.create .directory "a" rootId ""), .inl (.create .file "b" "n2" "text"),
      .inr (.add ["-A"])]
  have hkeys : sorted fileBelow.repository.index.keys = ["a/b"] := by
    rw [show fileBelow.repository.index.keys = ["a/b"] by decide +kernel]
    exact List.mergeSort_singleton "a/b"
  refine Reachable.recorded hp (by decide +kernel) (by decide) (by decide +kernel) ?_
  exact (commitId_of_sorted hkeys).trans (by decide +kernel)

/-- The checkout of the first branch succeeds, but the directory has stayed in the place of the
empty file, so that the status shows the file as modified. -/
theorem directory_stays : belowCommit.Reachable ∧
    (Git.Call.checkout "main").run freeHost belowCommit =
      (.ok none, belowCommit.onMain (some emptyId) freeHost) ∧
    (belowCommit.onMain (some emptyId) freeHost).repository.headTree.get? "a" = some "" ∧
    ¬ (belowCommit.onMain (some emptyId) freeHost).world.space.HasFile "/a" "" ∧
    (belowCommit.onMain (some emptyId) freeHost).world.space.HasDirectory "/a" ∧
    ((belowCommit.onMain (some emptyId) freeHost).repository.statusNow
      (belowCommit.onMain (some emptyId) freeHost).world.space).modified ≠ [] := by
  refine ⟨reachable_belowCommit, ?_, by decide +kernel, by decide +kernel, by decide +kernel, ?_⟩
  · exact run_checkout_main (by decide +kernel) (by decide +kernel) (by decide +kernel)
      (by decide +kernel)
  · rw [ne_eq, modified_eq_nil_iff]
    intro hall
    have hget :
        (belowCommit.onMain (some emptyId) freeHost).repository.index.get? "a" = some "" := by
      decide +kernel
    exact absurd (hall hget) (by decide +kernel)

end Project

end Workbench
