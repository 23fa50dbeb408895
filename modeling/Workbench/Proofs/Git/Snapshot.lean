import Workbench.Proofs.Git.Staging

/-!
# Snapshots

Where the root of a repository is the path of the directory to which it leads, the working tree is a
snapshot of the files below that directory: each file has an entry under what its path has after the
root, and each entry is that of one file (`Repository.Depicts`). No file is left out, since the path
of what lies below a directory begins with that of the directory, and no two files share an entry,
since a path leads to one node.

Nothing is to be reported of a repository exactly when the current commit, the index and the working
tree hold the same (`Repository.clean_iff`). That is so when everything has been added and
committed.
-/

namespace Workbench

open Git (Tree)
open Workspace (HasFile)
open Workbench.Path (AreNames)

variable {σ : Type}

/-- A file that lies below a node. -/
structure Workspace.FileBelow (s : Workspace) (top : NodeId) (n : Node) : Prop where
  there : s.node? n.id = some n
  isFile : n.isFile = true
  below : s.arena.AtOrBelow top n.id

namespace Repository

variable {r r' : Repository} {s : Workspace} {top : Node} {t t' : Tree} {path content : String}

/-! ## The files below the root -/

/-- The root is the path of the directory to which it leads. -/
structure RootedAt (r : Repository) (s : Workspace) (top : Node) : Prop where
  leads : s.resolve? r.root "/" = some top
  directory : top.isDirectory = true
  path : s.pathOf top.id = r.root

/-- A tree that shows the files below a node. -/
structure Depicts (r : Repository) (s : Workspace) (top : NodeId) (t : Tree) : Prop where
  /-- Each file has an entry with its content, under what its path has after the root. -/
  entry : ∀ n, s.FileBelow top n →
    ∃ path, s.pathOf n.id = r.rootSlash ++ path ∧ t.get? path = some n.content
  /-- Each entry is that of one file. -/
  file : ∀ path content, t.get? path = some content →
    ∃! n, s.FileBelow top n ∧ s.pathOf n.id = r.rootSlash ++ path ∧ n.content = content
  /-- No file whose path begins with the root lies elsewhere. -/
  hasFile : ∀ path content,
    t.get? path = some content ↔ s.HasFile (r.rootSlash ++ path) content

namespace RootedAt

theorem node (h : s.arena.IsTree) (hr : r.RootedAt s top) : s.node? top.id = some top :=
  Workspace.node?_of_resolve? h hr.leads

/-- The root is written from the names that lead to the directory. -/
theorem rooted (h : s.arena.IsTree) (hr : r.RootedAt s top) :
    r.Rooted ∧ s.arena.Leads top.id (Path.segments r.root) := by
  have hl := h.leads_namesTo (hr.node h)
  have hroot : r.root = Path.ofNames (s.arena.namesTo top.id) := hr.path.symm
  have hsegments : Path.segments r.root = s.arena.namesTo top.id := by
    rw [hroot, Path.segments_ofNames (h.isName_of_leads hl)]
  rw [Rooted, hsegments]
  exact ⟨hroot.symm, hl⟩

theorem exists_path (h : s.arena.IsTree) (hr : r.RootedAt s top) {n : Node}
    (hn : s.FileBelow top.id n) : ∃ path, s.pathOf n.id = r.rootSlash ++ path := by
  obtain ⟨hrooted, htop⟩ := hr.rooted h
  have hl := h.leads_namesTo hn.there
  obtain ⟨rest, hrest⟩ := h.leads_below hn.below htop hl
  refine ⟨"/".intercalate rest, ?_⟩
  have hne : rest ≠ [] := by
    rintro rfl
    -- then the file would be the directory itself
    rw [List.append_nil] at hrest
    rw [hrest] at hl
    have hid := h.leads_injective hl htop
    have hsame := hn.there
    rw [hid, hr.node h] at hsame
    obtain rfl := Option.some.inj hsame
    have hkind := Node.isFile_iff.1 hn.isFile
    rw [Node.isDirectory_iff.1 hr.directory] at hkind
    cases hkind
  rw [← hrooted.ofNames_append hne, ← hrest]
  rfl

/-- A file whose path begins with the root lies below the directory. -/
theorem fileBelow (h : s.arena.IsTree) (hr : r.RootedAt s top) {n : Node}
    (hn : s.node? n.id = some n) (hf : n.isFile = true) (hp : s.pathOf n.id = r.rootSlash ++ path) :
    s.FileBelow top.id n := by
  obtain ⟨hrooted, htop⟩ := hr.rooted h
  have ht := tracks_of_hasFile h ⟨n, hn, hf, hp, rfl⟩
  obtain ⟨rest, -, hplace⟩ := hrooted.exists_placeOf ht
  have hl := (Workspace.pathOf_eq_iff h hn ht.names).1 (hp.trans ht.written.symm)
  rw [hplace] at hl
  exact ⟨hn, hf, (h.atOrBelow_iff htop hl).2 (List.prefix_append _ _)⟩

theorem get?_workingTree_iff (h : s.arena.IsTree) (hr : r.RootedAt s top) :
    (r.workingTree s).get? path = some content ↔
      ∃ n, s.FileBelow top.id n ∧ s.pathOf n.id = r.rootSlash ++ path ∧ n.content = content := by
  rw [get?_workingTree h]
  constructor
  · rintro ⟨top', hleads, -, n, hb, hn, hf, hp⟩
    obtain rfl := Option.some.inj (hr.leads.symm.trans hleads)
    exact ⟨n, ⟨hn, hf, hb⟩, hp⟩
  · rintro ⟨n, hn, hp⟩
    exact ⟨top, hr.leads, hr.directory, n, hn.below, hn.there, hn.isFile, hp⟩

/-- The working tree is a snapshot of the files below the root. -/
theorem depicts (h : s.arena.IsTree) (hr : r.RootedAt s top) :
    r.Depicts s top.id (r.workingTree s) where
  entry n hn := by
    obtain ⟨path, hp⟩ := hr.exists_path h hn
    exact ⟨path, hp, (hr.get?_workingTree_iff h).2 ⟨n, hn, hp, rfl⟩⟩
  file path content hget := by
    obtain ⟨n, hn, hp, hc⟩ := (hr.get?_workingTree_iff h).1 hget
    refine ⟨n, ⟨hn, hp, hc⟩, ?_⟩
    rintro m ⟨hm, hmp, -⟩
    have hl := h.leads_namesTo hn.there
    have hlm := (Workspace.pathOf_eq_iff h hm.there (h.isName_of_leads hl)).1 (hmp.trans hp.symm)
    have hid := h.leads_injective hlm hl
    have hthere := hm.there
    rw [hid, hn.there] at hthere
    exact (Option.some.inj hthere).symm
  hasFile path content := by
    refine ⟨hasFile_of_workingTree h, ?_⟩
    rintro ⟨n, hn, hf, hp, hc⟩
    exact (hr.get?_workingTree_iff h).2 ⟨n, hr.fileBelow h hn hf hp, hp, hc⟩

end RootedAt

/-! ## Nothing to report -/

theorem untracked_eq_nil_iff : (r.statusNow s).untracked = [] ↔
    ∀ {path content}, (r.workingTree s).get? path = some content →
      r.index.contains path = true := by
  rw [statusNow]
  dsimp only
  rw [sorted_eq_nil_iff, List.filter_eq_nil_iff]
  constructor
  · intro hall path content hget
    simpa using hall path (Table.mem_keys_iff.2 ⟨content, hget⟩)
  · intro hall path hp
    obtain ⟨content, hget⟩ := Table.mem_keys_iff.1 hp
    simp [hall hget]

/-- There is nothing to report exactly when the current commit, the index and the files hold the
same. -/
theorem clean_iff : (r.statusNow s).clean = true ↔
    ∀ path, r.headTree.get? path = r.index.get? path ∧
      r.index.get? path = (r.workingTree s).get? path := by
  have hstaged : (r.statusNow s).staged = [] ↔ ∀ path, r.headTree.get? path = r.index.get? path :=
    changedPaths_eq_nil_iff
  rw [Status.clean, Bool.and_eq_true, Bool.and_eq_true, List.isEmpty_iff, List.isEmpty_iff,
    List.isEmpty_iff, hstaged, modified_eq_nil_iff, untracked_eq_nil_iff, forall_and]
  constructor
  · rintro ⟨⟨hhead, hmodified⟩, huntracked⟩
    refine ⟨hhead, fun path => Option.ext fun content =>
      ⟨fun hget => hmodified hget, fun hget => ?_⟩⟩
    -- the index holds the path, and what it holds is the content of the file
    obtain ⟨content', hindex⟩ := Table.contains_iff.1 (huntracked hget)
    rw [hindex, ← hmodified hindex, hget]
  · rintro ⟨hhead, hsame⟩
    exact ⟨⟨hhead, fun {path _} hget => (hsame path).symm.trans hget⟩,
      fun {path content} hget => Table.contains_iff.2 ⟨content, (hsame path).trans hget⟩⟩

theorem status_eq (hi : r.initialized = true) : r.status s = .ok (r.statusNow s) := by
  rw [status, require_eq_ok_iff.2 hi]
  rfl

/-! ## A commit of everything -/

section Recorded

variable (r) (oid message : String) (now : Timestamp)

theorem tip?_recorded : (r.recorded oid message now).tip? = some oid :=
  tip?_eq_some_iff.2 (Table.get?_insert_self _ _ _)

theorem headTree_recorded : (r.recorded oid message now).headTree = r.index := by
  rw [headTree, treeOf, tip?_recorded, Option.bind_some]
  exact congrArg (·.getD .empty) (Table.get?_insert_self r.trees oid r.index)

/-- The log of what has been recorded begins with it, whatever was stored under its id. -/
theorem log_recorded (hi : r.initialized = true) {depth : Int} (hd : 1 ≤ depth) : ∃ rest,
    (r.recorded oid message now).log depth =
      .ok (⟨oid, message, r.author, now, r.tip?⟩ :: rest) := by
  have hget : (r.recorded oid message now).commits.get? oid =
      some ⟨oid, message, r.author, now, r.tip?⟩ := Table.get?_insert_self _ _ _
  have hpos : 0 < (r.recorded oid message now).commits.size :=
    Table.length_le_size (List.nodup_singleton oid) (List.forall_mem_singleton.2 ⟨_, hget⟩)
  obtain ⟨fuel, hfuel⟩ := Nat.exists_eq_add_one.2 hpos
  obtain ⟨k, hk⟩ := Nat.exists_eq_add_one.2 (by omega : 0 < depth.toNat)
  have hchain : (r.recorded oid message now).history (some oid) =
      ⟨oid, message, r.author, now, r.tip?⟩ :: (r.recorded oid message now).chain fuel r.tip? := by
    rw [history, hfuel, chain, Option.bind_some, hget]
  have hrequire : (r.recorded oid message now).require = .ok () := require_eq_ok_iff.2 hi
  refine ⟨((r.recorded oid message now).chain fuel r.tip?).take k, ?_⟩
  rw [log, hrequire, tip?_recorded, ← List.take_succ_cons, ← hchain, ← hk]
  rfl

end Recorded

end Repository

namespace Project

open Repository

variable {p p' : Project σ} {h : Host σ} {text : Option String}

/-- Everything is added when all is asked for. -/
theorem run_add_everything (hc : (Git.Call.add ["."]).run h p = (.ok text, p')) :
    p' = { p with repository :=
      { p.repository with index := p.repository.workingTree p.world.space } } := by
  obtain ⟨hadded, hp'⟩ := run_add hc
  have hindex := congrArg (fun x => x.2.index) hadded
  have hall : p.repository.workingTree p.world.space = p'.repository.index := hindex
  rw [hall]
  exact hp'

/-- Where the root of a repository is the path of the directory to which it leads, the working tree
is a snapshot of the files below it. Nothing is to be reported exactly when the current commit, the
index and the working tree hold the same. When everything has been added and committed, the commit
is such a snapshot, there is nothing to report, and the log begins with the commit. -/
theorem snapshot_committed {w : World σ} (hw : w.Reachable) {r : Repository} {top : Node}
    (hr : r.RootedAt w.space top) :
    r.Depicts w.space top.id (r.workingTree w.space) ∧
    (r.initialized = true → ∃ status, r.status w.space = .ok status ∧
      (status.clean = true ↔ ∀ path, r.headTree.get? path = r.index.get? path ∧
        r.index.get? path = (r.workingTree w.space).get? path)) ∧
    ∀ {h h' : Host σ} {message text answer p₁ p₂},
      (Git.Call.add ["."]).run h ⟨r, w⟩ = (.ok text, p₁) →
      (Git.Call.commit message).run h' p₁ = (.ok answer, p₂) →
      ∃ oid t, answer = some oid ∧ p₂.world = w ∧
        (∃ status, p₂.repository.status w.space = .ok status ∧ status.clean = true) ∧
        p₂.repository.trees.get? oid = some t ∧ r.Depicts w.space top.id t ∧
        ∀ depth, 1 ≤ depth → ∃ rest, p₂.repository.log depth =
          .ok (⟨oid, message, r.author, h'.now, r.tip?⟩ :: rest) := by
  have htree := hw.sound.tree
  have hd := hr.depicts htree
  refine ⟨hd, fun hi => ⟨_, status_eq hi, clean_iff⟩, ?_⟩
  intro h h' message text answer p₁ p₂ hadd hcommit
  obtain rfl := run_add_everything hadd
  obtain ⟨oid, r', rfl, hr', rfl⟩ := exists_of_run_commit hcommit
  obtain ⟨hi, -, -, -, rfl⟩ := commit_eq_ok_iff.1 hr'
  refine ⟨oid, _, rfl, rfl, ⟨_, status_eq hi, clean_iff.2 fun path => ?_⟩,
    Table.get?_insert_self _ _ _, hd,
    fun depth hdepth => log_recorded _ oid message h'.now hi hdepth⟩
  rw [headTree_recorded]
  exact ⟨rfl, rfl⟩

theorem rootedAt_halfStaged : ∃ top, halfStaged.repository.RootedAt halfStaged.world.space top := by
  have hleads : (halfStaged.world.space.resolve? halfStaged.repository.root "/").map
      (fun n => (n.isDirectory, halfStaged.world.space.pathOf n.id)) = some (true, "/work") := by
    decide +kernel
  obtain ⟨top, htop, he⟩ := Option.map_eq_some_iff.1 hleads
  obtain ⟨hd, hp⟩ := Prod.mk.inj he
  exact ⟨top, htop, hd, hp.trans (by decide +kernel)⟩

/-- The same when everything has been added. -/
def allStaged : Project Unit := halfStaged.act freeHost (.inr (.add ["."]))

/-- The deleted file is not in the commit, the new one is. -/
theorem halfStaged_committed : ∃ top p oid t,
    halfStaged.repository.RootedAt halfStaged.world.space top ∧
    (Git.Call.add ["."]).run freeHost halfStaged = (.ok none, allStaged) ∧
    (Git.Call.commit "next").run freeHost allStaged = (.ok (some oid), p) ∧
    p.repository.trees.get? oid = some t ∧ t.get? "a" ≠ some "one" ∧ t.get? "b" = some "two" ∧
    ∃ rest, p.repository.log 10 = .ok (⟨oid, "next", "user", default, none⟩ :: rest) := by
  obtain ⟨top, htop⟩ := rootedAt_halfStaged
  have hadd : (Git.Call.add ["."]).run freeHost halfStaged = (.ok none, allStaged) :=
    Prod.ext (by decide +kernel) rfl
  have hcommit : (Git.Call.commit "next").run freeHost allStaged = (.ok (some _), _) :=
    run_commit (by decide +kernel) (by decide) (by decide +kernel) rfl
  obtain ⟨-, -, hboth⟩ := snapshot_committed reachable_halfStaged.world htop
  obtain ⟨oid, t, hanswer, -, -, htree, hd, hlog⟩ := hboth hadd hcommit
  obtain rfl := Option.some.inj hanswer
  refine ⟨top, _, _, t, htop, hadd, hcommit, htree, ?_, ?_, hlog 10 (by decide)⟩
  · rw [ne_eq, hd.hasFile]
    decide +kernel
  · rw [hd.hasFile]
    decide +kernel

end Project

end Workbench
