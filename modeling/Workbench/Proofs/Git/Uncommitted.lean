import Workbench.Proofs.Git.Switch

/-!
# Work that is not committed

A checkout and a pull replace the files of one commit by those of another, and write where the other
commit holds a path, whatever lies there. So what is not committed survives exactly where the commit
that is moved to holds the same or does not hold the path (`Project.uncommitted_survives_iff`). A
checkout is refused where tracked files differ from what is committed, and a pull is not; neither
looks at what is untracked.
-/

namespace Workbench

variable {σ : Type} {h : Host σ} {p p' : Project σ} {c : Git.Call} {text : Option String}
  {path content : String}

namespace Project

open Repository

/-- What is not committed at a path survives an operation that succeeds exactly when the commit that
is moved to holds it as well, or neither commit holds the path. A checkout takes care of the second
half: where it moves to another commit, the path is not tracked. -/
theorem uncommitted_survives_iff (hp : p.Reachable) (hw : p.world.Settled h)
    (hc : c.run h p = (.ok text, p'))
    (hplain : ∀ target ∈ c.target? p.repository, p.repository.PlainTree p.repository.headTree ∧
      p.repository.PlainTree (p.repository.treeOf target))
    (hf : p.world.space.HasFile (p.repository.rootSlash ++ path) content)
    (hu : p.repository.headTree.get? path ≠ some content) :
    (p'.world.space.HasFile (p.repository.rootSlash ++ path) content ↔
      ∀ target ∈ c.target? p.repository,
        (p.repository.treeOf target).get? path = some content ∨
          ((p.repository.treeOf target).get? path = none ∧
            p.repository.headTree.get? path = none)) ∧
      ∀ ref, c = .checkout ref → ∀ target ∈ c.target? p.repository,
        p.repository.headTree.get? path = none := by
  have htree := hp.world.sound.tree
  obtain ⟨hnone, hsame⟩ | ⟨target, htarget, hs⟩ := run_eq_ok hc
  · rw [hnone, hsame]
    exact ⟨iff_of_true hf (fun _ ht => nomatch ht), fun _ _ _ ht => nomatch ht⟩
  rw [htarget] at hplain ⊢
  obtain ⟨hold, hnew⟩ := hplain target rfl
  obtain ⟨-, hr⟩ := hs.replaced hp hw hold hnew
  constructor
  · rw [hr.hasFile_iff_of_hasFile (tracks_of_hasFile htree hf) hf]
    simp
  · intro ref hcheckout _ _
    obtain ⟨hstaged, hmodified⟩ := checkSwitch_eq_ok_iff.1 (hs.checked hcheckout)
    rw [Option.eq_none_iff_forall_ne_some]
    intro content' hget
    -- a tracked file holds what is committed
    have hworking := hmodified ((hstaged path).symm.trans hget)
    have hsame := hf.content_eq htree (hasFile_of_workingTree htree hworking)
    exact hu (hsame ▸ hget)

/-! ## Files that are lost -/

def freeHost : Host Unit := ⟨none, default⟩

theorem lawful_freeHost : freeHost.Lawful := fun _ hb => nomatch hb

def newProject : Project Unit := ⟨.new "/" "user", ⟨.new "/home/user" default, ()⟩⟩

theorem reachable_newProject : newProject.Reachable :=
  .new (.new "/home/user" default ()) "/" "user"

/-- A project with one file, of which the repository is told. -/
def oneFile : Project Unit :=
  [.inr .init, .inl (.create .file "a" rootId "one"), .inr (.add ["."])].foldl (act freeHost)
    newProject

def firstId : String := "a66b2668d821f848596d034f28ec2ecf8522cf2e"

/-- The file is committed on the first branch. -/
def firstCommit : Project Unit :=
  { oneFile with repository := oneFile.repository.recorded firstId "first" default }

/-- On another branch it is deleted, and the repository is told. -/
def noFile : Project Unit :=
  [.inr (.createBranch "other"), .inr (.checkout "other"), .inl (.delete "n1" false),
    .inr (.add ["-A"])].foldl (act freeHost) firstCommit

def secondId : String := "e62082340615f213076f4260a9d67e8daa0efbf2"

/-- Now the other branch has a commit without files. -/
def secondCommit : Project Unit :=
  { noFile with repository := noFile.repository.recorded secondId "second" default }

theorem commitId_oneFile : commitId oneFile.repository.tip? "first" default
    oneFile.repository.index = firstId := by
  have hkeys : sorted oneFile.repository.index.keys = ["a"] := by
    rw [show oneFile.repository.index.keys = ["a"] by decide +kernel]
    exact List.mergeSort_singleton "a"
  exact (commitId_of_sorted hkeys).trans (by decide +kernel)

theorem commitId_noFile : commitId noFile.repository.tip? "second" default
    noFile.repository.index = secondId := by
  have hkeys : sorted noFile.repository.index.keys = [] := by
    rw [sorted_eq_nil_iff]
    decide +kernel
  exact (commitId_of_sorted hkeys).trans (by decide +kernel)

theorem reachable_firstCommit : firstCommit.Reachable := by
  have hp := reachable_newProject.acts lawful_freeHost
    [.inr .init, .inl (.create .file "a" rootId "one"), .inr (.add ["."])]
  exact hp.recorded (by decide +kernel) (by decide) (by decide +kernel) commitId_oneFile

theorem reachable_secondCommit : secondCommit.Reachable := by
  have hp := reachable_firstCommit.acts lawful_freeHost
    [.inr (.createBranch "other"), .inr (.checkout "other"), .inl (.delete "n1" false),
      .inr (.add ["-A"])]
  exact hp.recorded (by decide +kernel) (by decide) (by decide +kernel) commitId_noFile

example : secondCommit.repository.headTree.entries = [] := by decide +kernel

/-- Two files that are not tracked, one of them at the path of the file that was deleted. -/
def withNotes : Project Unit :=
  [.inl (.create .file "a" rootId "mine"), .inl (.create .file "b" rootId "notes")].foldl
    (act freeHost) secondCommit

theorem reachable_withNotes : withNotes.Reachable :=
  reachable_secondCommit.acts lawful_freeHost
    [.inl (.create .file "a" rootId "mine"), .inl (.create .file "b" rootId "notes")]

/-- A project after a checkout of its first branch, which is at another commit. -/
def onMain (p : Project σ) (target : Option String) (h : Host σ) : Project σ :=
  ⟨p.repository.onBranch "main", (p.repository.switchFiles h p.world p.repository.headTree
    (p.repository.treeOf target)).2⟩

theorem run_checkout_main {target : Option String} (hi : p.repository.initialized = true)
    (ht : Git.Call.target? p.repository (.checkout "main") = some target)
    (hc : p.repository.headTree = p.repository.index ∧ ∀ e ∈ p.repository.index.entries,
      (p.repository.workingTree p.world.space).get? e.1 = some e.2)
    (hs : (p.repository.switchFiles h p.world p.repository.headTree
      (p.repository.treeOf target)).1 = .ok ()) :
    (Git.Call.checkout "main").run h p = (.ok none, p.onMain target h) :=
  run_checkout hi ht (checkSwitch_of_eq hc.1 hc.2) (Prod.ext hs rfl)

theorem run_withNotes : (Git.Call.checkout "main").run freeHost withNotes =
    (.ok none, withNotes.onMain (some firstId) freeHost) :=
  run_checkout_main (by decide +kernel) (by decide +kernel) (by decide +kernel) (by decide +kernel)

theorem run_secondCommit : (Git.Call.checkout "main").run freeHost secondCommit =
    (.ok none, secondCommit.onMain (some firstId) freeHost) :=
  run_checkout_main (by decide +kernel) (by decide +kernel) (by decide +kernel) (by decide +kernel)

/-- What the other commit does not hold survives the checkout. -/
theorem notes_survive : ∃ p', (Git.Call.checkout "main").run freeHost withNotes = (.ok none, p') ∧
    p'.world.space.HasFile (withNotes.repository.rootSlash ++ "b") "notes" := by
  have ht : Git.Call.target? withNotes.repository (.checkout "main") = some (some firstId) := by
    decide +kernel
  have hw : withNotes.world.Settled freeHost :=
    .free ⟨by decide +kernel, reachable_withNotes.world.sound⟩
  have hplain : withNotes.repository.PlainTree withNotes.repository.headTree ∧
      withNotes.repository.PlainTree (withNotes.repository.treeOf (some firstId)) := by
    decide +kernel
  have hf : withNotes.world.space.HasFile (withNotes.repository.rootSlash ++ "b") "notes" := by
    decide +kernel
  have hu : withNotes.repository.headTree.get? "b" ≠ some "notes" := by decide +kernel
  have hkept := (uncommitted_survives_iff reachable_withNotes hw run_withNotes
    (by rw [ht]; simpa using hplain) hf hu).1
  refine ⟨_, run_withNotes, hkept.2 ?_⟩
  rw [ht]
  intro target htarget
  obtain rfl := Option.some.inj htarget
  exact .inr (by decide +kernel)

/-- The first branch with the remote ahead of it, whose commit holds no files. The file is
edited. -/
def behind : Project Unit :=
  let p := (secondCommit.onMain (some firstId) freeHost).act freeHost
    (.inr (.attachRemote "origin"))
  act freeHost { p with repository := p.repository.setRemote "main" (some secondId) }
    (.inl (.setContent "n2" "edited"))

theorem reachable_behind : behind.Reachable := by
  have hmain : (secondCommit.onMain (some firstId) freeHost).Reachable := by
    have hp := reachable_secondCommit.call lawful_freeHost (.checkout "main")
    rw [run_secondCommit] at hp
    exact hp
  have hattached := hmain.call lawful_freeHost (.attachRemote "origin")
  have hstored : ∀ oid ∈ some secondId, ((secondCommit.onMain (some firstId) freeHost).act freeHost
      (.inr (.attachRemote "origin"))).repository.commits.contains oid = true := by
    decide +kernel
  exact (hattached.remote "main" hstored).step lawful_freeHost (.setContent "n2" "edited")

/-- A checkout overwrites a file that is not tracked, and a pull deletes a file that has been edited
since it was committed. -/
theorem uncommitted_lost :
    (withNotes.Reachable ∧ withNotes.world.space.HasFile "/a" "mine" ∧
      withNotes.repository.headTree.get? "a" = none ∧
      (withNotes.repository.treeOf (some firstId)).get? "a" = some "one" ∧
      (Git.Call.checkout "main").run freeHost withNotes =
        (.ok none, withNotes.onMain (some firstId) freeHost) ∧
      ¬ (withNotes.onMain (some firstId) freeHost).world.space.HasFile "/a" "mine") ∧
    (behind.Reachable ∧ behind.world.space.HasFile "/a" "edited" ∧
      behind.repository.headTree.get? "a" = some "one" ∧
      (behind.repository.treeOf (some secondId)).get? "a" = none ∧
      (Git.Call.pull.run freeHost behind).1.isOk = true ∧
      ¬ (Git.Call.pull.run freeHost behind).2.world.space.HasFile "/a" "edited") :=
  ⟨⟨reachable_withNotes, by decide +kernel, by decide +kernel, by decide +kernel, run_withNotes,
      by decide +kernel⟩,
    reachable_behind, by decide +kernel, by decide +kernel, by decide +kernel, by decide +kernel,
    by decide +kernel⟩

end Project

end Workbench
