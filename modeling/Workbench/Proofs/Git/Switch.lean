import Workbench.Proofs.Git.Files
import Workbench.Proofs.Git.Runs

/-!
# Switching to another commit

Which operations move to another commit, what they have done where they succeed (`Switches`), and
what becomes of the files then: of each file that was there (`Replaced.hasFile_iff_of_hasFile`) and
of the files of the commit that is moved to (`Replaced.forall_hasFile_iff`).
-/

namespace Workbench

open Git (Tree Fault Stop)

variable {σ : Type} {r r' : Repository} {h : Host σ} {w w' : World σ} {s : Workspace}
  {p p' : Project σ} {c : Git.Call} {target : Option String} {text : Option String}
  {path content ref : String}

namespace Git.Call

/-- The commit that is moved to together with the files, if there is one to move to. -/
def target? (r : Repository) : Git.Call → Option (Option String)
  | checkout ref => if ref = r.head then none else (r.branches.get? ref).filter (· != r.tip?)
  | pull => (r.remoteTip?.filter fun there => !r.isAncestor there r.tip?).map some
  | _ => none

/-- The current branch afterwards. -/
def branch (r : Repository) : Git.Call → String
  | checkout ref => ref
  | _ => r.head

end Git.Call

namespace Repository

/-! ## The status -/

theorem sorted_eq_nil_iff {l : List String} : sorted l = [] ↔ l = [] := by
  rw [sorted]
  constructor
  · intro hl
    exact List.length_eq_zero_iff.1 (by rw [← List.length_mergeSort, hl, List.length_nil])
  · rintro rfl
    exact List.mergeSort_nil

theorem changedPaths_eq_nil_iff {t t' : Tree} :
    changedPaths t t' = [] ↔ ∀ path, t.get? path = t'.get? path := by
  rw [changedPaths, sorted_eq_nil_iff, List.filter_eq_nil_iff]
  constructor
  · intro hall path
    by_contra hne
    refine hall path ?_ (bne_iff_ne.2 hne)
    rw [List.mem_append, List.mem_filter, Bool.not_eq_true', Table.contains_eq_false_iff]
    cases ht : t.get? path with
    | some content => exact .inl (Table.mem_keys_iff.2 ⟨content, ht⟩)
    | none =>
      rw [ht] at hne
      obtain ⟨content, ht'⟩ := Option.ne_none_iff_exists'.1 (Ne.symm hne)
      exact .inr ⟨Table.mem_keys_iff.2 ⟨content, ht'⟩, rfl⟩
  · intro hall path _
    simp [hall path]

theorem modified_eq_nil_iff : (r.statusNow s).modified = [] ↔
    ∀ {path content}, r.index.get? path = some content →
      (r.workingTree s).get? path = some content := by
  rw [statusNow]
  dsimp only
  rw [sorted_eq_nil_iff, List.filter_eq_nil_iff]
  constructor
  · intro hall path content hget
    have heq := hall path (Table.mem_keys_iff.2 ⟨content, hget⟩)
    rw [bne_iff_ne, ne_eq, not_not] at heq
    rw [heq, hget]
  · intro hall path hkey
    obtain ⟨content, hget⟩ := Table.mem_keys_iff.1 hkey
    rw [bne_iff_ne, ne_eq, not_not, hget, hall hget]

theorem checkSwitch_eq_ok_iff : r.checkSwitch s = .ok () ↔
    (∀ path, r.headTree.get? path = r.index.get? path) ∧
      ∀ {path content}, r.index.get? path = some content →
        (r.workingTree s).get? path = some content := by
  rw [← changedPaths_eq_nil_iff, ← modified_eq_nil_iff, checkSwitch,
    show (r.statusNow s).staged = changedPaths r.headTree r.index from rfl]
  split
  · next hc =>
    rw [Bool.and_eq_true, List.isEmpty_iff, List.isEmpty_iff] at hc
    exact iff_of_true rfl hc
  · next hc =>
    rw [Bool.and_eq_true, List.isEmpty_iff, List.isEmpty_iff] at hc
    exact iff_of_false (fun he => nomatch he) hc

/-- Nothing is staged and every tracked file is as it is tracked. -/
theorem checkSwitch_of_eq (hh : r.headTree = r.index)
    (hw : ∀ e ∈ r.index.entries, (r.workingTree s).get? e.1 = some e.2) :
    r.checkSwitch s = .ok () := by
  rw [checkSwitch_eq_ok_iff, hh]
  exact ⟨fun _ => rfl, fun hget => hw _ (Table.mem_entries_iff.2 hget)⟩

/-! ## What a switch does -/

/-- What has been done where an operation that moves to another commit succeeds. -/
structure Switches (h : Host σ) (p : Project σ) (c : Git.Call) (target : Option String)
    (p' : Project σ) : Prop where
  files : p.repository.switchFiles h p.world p.repository.headTree (p.repository.treeOf target) =
    (.ok (), p'.world)
  checked : ∀ {ref}, c = .checkout ref → p.repository.checkSwitch p.world.space = .ok ()
  root : p'.repository.root = p.repository.root
  trees : p'.repository.trees = p.repository.trees
  initialized : p'.repository.initialized = true
  head : p'.repository.head = c.branch p.repository
  tip : p'.repository.tip? = target
  index : p'.repository.index = p.repository.treeOf target

theorem target?_checkout (r : Repository) (ref : String) : Git.Call.target? r (.checkout ref) =
    if ref = r.head then none else (r.branches.get? ref).filter (· != r.tip?) := rfl

theorem target?_pull (r : Repository) : Git.Call.target? r .pull =
    (r.remoteTip?.filter fun there => !r.isAncestor there r.tip?).map some := rfl

/-- A checkout that succeeds leaves the files alone, or moves to another commit. -/
theorem checkout_eq_ok (hc : r.checkout h w ref = (.ok (), w', r')) :
    (Git.Call.target? r (.checkout ref) = none ∧ w' = w) ∨
      ∃ target, Git.Call.target? r (.checkout ref) = some target ∧
        Switches h ⟨r, w⟩ (.checkout ref) target ⟨r', w'⟩ := by
  unfold checkout at hc
  split at hc
  · cases hc
  next hi =>
  split at hc
  · cases hc
  next target hget =>
  rw [target?_checkout]
  split at hc
  · next hhead =>
    obtain ⟨-, hc⟩ := Prod.mk.inj hc
    obtain ⟨rfl, -⟩ := Prod.mk.inj hc
    rw [if_pos (by simpa using hhead)]
    exact .inl ⟨rfl, rfl⟩
  next hhead =>
  rw [if_neg (by simpa using hhead), hget]
  split at hc
  · next htip =>
    obtain ⟨-, hc⟩ := Prod.mk.inj hc
    obtain ⟨rfl, -⟩ := Prod.mk.inj hc
    rw [Option.filter_some, if_neg (by simpa using htip)]
    exact .inl ⟨rfl, rfl⟩
  next htip =>
  rw [Option.filter_some, if_pos (by simpa using htip)]
  split at hc
  · cases hc
  next hcheck =>
  split at hc
  · cases hc
  next w₁ hs =>
  obtain ⟨-, hc⟩ := Prod.mk.inj hc
  obtain ⟨rfl, rfl⟩ := Prod.mk.inj hc
  have hbranch : (r.onBranch ref).tip? = target := by
    unfold tip? onBranch
    dsimp only
    rw [hget, Option.join_some]
  have hindex : (r.onBranch ref).index = r.treeOf target := by
    rw [← hbranch]
    rfl
  exact .inr ⟨target, rfl, hs, fun _ => hcheck, rfl, rfl, require_eq_ok_iff.1 hi, rfl, hbranch,
    hindex⟩

theorem pull_eq_ok {said : String} (hc : r.pull h w = (.ok said, w', r')) :
    (Git.Call.target? r .pull = none ∧ w' = w) ∨
      ∃ target, Git.Call.target? r .pull = some target ∧
        Switches h ⟨r, w⟩ .pull target ⟨r', w'⟩ := by
  unfold pull at hc
  split at hc
  · cases hc
  next hi =>
  split at hc
  · cases hc
  rw [target?_pull]
  split at hc
  · next hnone =>
    obtain ⟨-, hc⟩ := Prod.mk.inj hc
    obtain ⟨rfl, -⟩ := Prod.mk.inj hc
    rw [hnone]
    exact .inl ⟨rfl, rfl⟩
  next there hthere =>
  rw [hthere]
  split at hc
  · next hold =>
    obtain ⟨-, hc⟩ := Prod.mk.inj hc
    obtain ⟨rfl, -⟩ := Prod.mk.inj hc
    rw [Option.filter_some, if_neg (by simpa using hold)]
    exact .inl ⟨rfl, rfl⟩
  next hnew =>
  rw [Option.filter_some, if_pos (by simpa using hnew)]
  split at hc
  · cases hc
  dsimp only at hc
  split at hc
  · cases hc
  next w₁ hs =>
  obtain ⟨-, hc⟩ := Prod.mk.inj hc
  obtain ⟨rfl, rfl⟩ := Prod.mk.inj hc
  have htip : (({ r with
      branches := r.branches.insert r.head (some there)
      index := r.treeOf (some there) } : Repository).tip?) = some there := by
    unfold tip?
    dsimp only
    rw [Table.get?_insert_self, Option.join_some]
  exact .inr ⟨some there, rfl, hs, (fun he => nomatch he), rfl, rfl, require_eq_ok_iff.1 hi, rfl,
    htip, rfl⟩

/-- A checkout that has another commit to move to succeeds when the files are as they are tracked
and can be replaced. -/
theorem run_checkout (hi : p.repository.initialized = true)
    (ht : Git.Call.target? p.repository (.checkout ref) = some target)
    (hc : p.repository.checkSwitch p.world.space = .ok ())
    (hs : p.repository.switchFiles h p.world p.repository.headTree (p.repository.treeOf target) =
      (.ok (), w')) :
    (Git.Call.checkout ref).run h p = (.ok none, ⟨p.repository.onBranch ref, w'⟩) := by
  rw [target?_checkout] at ht
  split at ht
  · cases ht
  next hhead =>
  obtain ⟨hget, htip⟩ := Option.filter_eq_some_iff.1 ht
  have hcheckout : p.repository.checkout h p.world ref =
      (.ok (), w', p.repository.onBranch ref) := by
    unfold checkout
    rw [require_eq_ok_iff.2 hi, hget]
    dsimp only
    rw [if_neg (by simpa using hhead), if_neg (by simpa using htip), hc]
    dsimp only
    rw [hs]
  rw [Git.Call.run, hcheckout]
  rfl

/-- An operation that succeeds leaves the files alone, or moves to another commit. -/
theorem run_eq_ok (hc : c.run h p = (.ok text, p')) :
    (c.target? p.repository = none ∧ p'.world = p.world) ∨
      ∃ target, c.target? p.repository = some target ∧ Switches h p c target p' := by
  have alone : ∀ {o : Except Fault (Option String × Repository)},
      Git.answered p o = (.ok text, p') → p'.world = p.world := by
    intro o ho
    unfold Git.answered at ho
    split at ho
    · obtain ⟨-, rfl⟩ := Prod.mk.inj ho
      rfl
    · cases ho
  obtain ⟨r, w⟩ := p
  obtain ⟨r', w'⟩ := p'
  cases c with
  | init =>
    obtain ⟨-, hc⟩ := Prod.mk.inj hc
    obtain ⟨-, rfl⟩ := Project.mk.inj hc
    exact .inl ⟨rfl, rfl⟩
  | add paths =>
    obtain ⟨-, hc⟩ := Prod.mk.inj hc
    obtain ⟨-, rfl⟩ := Project.mk.inj hc
    exact .inl ⟨rfl, rfl⟩
  | reset path => exact .inl ⟨rfl, alone hc⟩
  | commit message => exact .inl ⟨rfl, alone hc⟩
  | createBranch name => exact .inl ⟨rfl, alone hc⟩
  | checkout ref =>
    obtain ⟨hx, hc⟩ := Prod.mk.inj hc
    obtain ⟨hr, hw⟩ := Project.mk.inj hc
    obtain ⟨⟨⟩, hok, -⟩ := map_eq_ok.1 hx
    exact checkout_eq_ok (Prod.ext hok (Prod.ext hw hr))
  | attachRemote name =>
    obtain ⟨-, hc⟩ := Prod.mk.inj hc
    obtain ⟨-, rfl⟩ := Project.mk.inj hc
    exact .inl ⟨rfl, rfl⟩
  | push => exact .inl ⟨rfl, alone hc⟩
  | pull =>
    obtain ⟨hx, hc⟩ := Prod.mk.inj hc
    obtain ⟨hr, hw⟩ := Project.mk.inj hc
    obtain ⟨said, hok, -⟩ := map_eq_ok.1 hx
    exact pull_eq_ok (Prod.ext hok (Prod.ext hw hr))

/-! ## What becomes of the files -/

/-- No name on the way to a file of a tree ends with a blank. -/
def PlainTree (r : Repository) (t : Tree) : Prop := ∀ path ∈ t.keys, r.IsPlain path

instance (r : Repository) (t : Tree) : Decidable (r.PlainTree t) :=
  inferInstanceAs (Decidable (∀ path ∈ t.keys, r.IsPlain path))

/-- Nothing is in the way of the empty files of a tree: there is no directory in the place of one,
and the tree holds no file below one. -/
def RoomFor (r : Repository) (t : Tree) (s : Workspace) : Prop :=
  ∀ path, t.get? path = some "" → ¬ s.HasDirectory (r.rootSlash ++ path) ∧
    ∀ path' ∈ t.keys, Text.startsWith path' (path ++ "/") = false

namespace Replaced

variable {old new : Tree} {s' : Workspace}

/-- A file survives with its content where both trees leave it alone, or the new one holds it. -/
theorem hasFile_iff_of_hasFile (hr : r.Replaced old new s s') (ht : r.Tracks path)
    (hf : s.HasFile (r.rootSlash ++ path) content) :
    s'.HasFile (r.rootSlash ++ path) content ↔
      new.get? path = some content ∨ (new.get? path = none ∧ old.get? path = none) := by
  rw [hr.file ht]
  constructor
  · rintro (⟨-, ho, hn⟩ | ⟨hn, -⟩)
    · exact .inr ⟨hn, ho⟩
    · exact .inl hn
  · rintro (hn | ⟨hn, ho⟩)
    · exact .inr ⟨hn, hr.remains hn hf⟩
    · exact .inl ⟨hf, ho, hn⟩

theorem not_hasFile_of_gone (hr : r.Replaced old new s s') (ht : r.Tracks path)
    (ho : old.get? path ≠ none) (hn : new.get? path = none) :
    ¬ s'.HasFile (r.rootSlash ++ path) content := by
  rw [hr.file ht, hn]
  rintro (⟨-, ho', -⟩ | ⟨hn', -⟩)
  · exact ho ho'
  · cases hn'

/-- All files of the new tree are there exactly when nothing was in the way of the empty ones. -/
theorem forall_hasFile_iff (hr : r.Replaced old new s s')
    (hnew : ∀ path ∈ new.keys, r.Tracks path) :
    (∀ path content, new.get? path = some content → s'.HasFile (r.rootSlash ++ path) content) ↔
      r.RoomFor new s := by
  have hfile : ∀ {path content}, new.get? path = some content →
      (s'.HasFile (r.rootSlash ++ path) content ↔ ¬ s'.HasDirectory (r.rootSlash ++ path)) := by
    intro path content hget
    rw [hr.file (hnew path (Table.mem_keys_iff.2 ⟨content, hget⟩)), hget]
    simp
  have hempty : ∀ {path content}, new.get? path = some content →
      (¬ s'.HasDirectory (r.rootSlash ++ path) ↔ ¬ s.HasDirectory (r.rootSlash ++ path) ∧
        ∀ path' ∈ new.keys, Text.startsWith path' (path ++ "/") = false) := by
    intro path content hget
    rw [hr.directory hget, not_or]
    simp
  constructor
  · intro hall path hget
    exact (hempty hget).1 ((hfile hget).1 (hall path "" hget))
  · intro hroom path content hget
    rw [hfile hget]
    intro hd
    -- only an empty file can have a directory in its place, and there was room for it
    obtain rfl := hr.bare hget hd
    exact (hempty hget).2 (hroom path hget) hd

end Replaced

theorem workingTree_congr (he : r'.root = r.root) : r'.workingTree s = r.workingTree s := by
  unfold workingTree rootSlash
  rw [he]

/-- The files after a switch. -/
theorem Switches.replaced (hs : Switches h p c target p') (hp : p.Reachable)
    (hw : p.world.Settled h) (hold : p.repository.PlainTree p.repository.headTree)
    (hnew : p.repository.PlainTree (p.repository.treeOf target)) :
    p'.world.Settled h ∧ p.repository.Replaced p.repository.headTree (p.repository.treeOf target)
      p.world.space p'.world.space :=
  replaced_of_switchFiles hw (hp.tidy.treeOf _) (hp.tidy.treeOf _) hold hnew hs.files

theorem Switches.headTree (hs : Switches h p c target p') :
    p'.repository.headTree = p.repository.treeOf target := by
  rw [Repository.headTree, hs.tip, treeOf, hs.trees]
  rfl

/-- The status is clean, but for untracked files, exactly when all files of the commit are there. -/
theorem Switches.status (hs : Switches h p c target p') (hp : p.Reachable)
    (htree : p'.world.space.arena.IsTree)
    (hnew : p.repository.PlainTree (p.repository.treeOf target)) :
    ∃ t, p'.repository.status p'.world.space = .ok t ∧ t.staged = [] ∧
      (t.modified = [] ↔ ∀ path content,
        (p.repository.treeOf target).get? path = some content →
          p'.world.space.HasFile (p.repository.rootSlash ++ path) content) := by
  refine ⟨p'.repository.statusNow p'.world.space, ?_, ?_, ?_⟩
  · rw [Repository.status, require_eq_ok_iff.2 hs.initialized]
    rfl
  · refine changedPaths_eq_nil_iff.2 fun path => ?_
    rw [hs.headTree, hs.index]
  · rw [modified_eq_nil_iff, hs.index, workingTree_congr hs.root]
    refine forall_congr' fun path => forall_congr' fun content => imp_congr_right fun hget => ?_
    have hkey : path ∈ (p.repository.treeOf target).keys := Table.mem_keys_iff.2 ⟨content, hget⟩
    exact get?_workingTree_iff htree hp.tidy.rooted (hp.tidy.treeOf _ path hkey) (hnew path hkey)

end Repository

end Workbench
