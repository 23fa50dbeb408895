import Workbench.Proofs.Arena.Ways
import Workbench.Proofs.Git.Identity
import Workbench.Proofs.Git.Rejected

/-!
# What is staged

An addition is told paths in any spelling. Where such a path leads is said by its steps alone
(`Repository.placeOfSpec`), and the relative path that is made of it is the one that is tracked at
this place (`Repository.tracks_of_relative`). An addition takes over what it is asked for, except
for files that are gone and are asked for by a spelling of the root only (`Project.added_iff`).

Switching to a branch at the current commit leaves all files alone and sets the index to that of the
commit, so that it shows the same changes exactly when nothing is staged
(`Project.switched_same_iff`).
-/

namespace Workbench

open Git (Tree)
open Workbench.Path (AreNames)

variable {σ : Type}

namespace Repository

variable {r r' : Repository} {s : Workspace} {working : Tree} {spec path rel : String}
  {specs steps done rest : List String}

/-! ## Where a spec leads -/

theorem normalSteps_eq (done steps : List String) :
    normalSteps done steps = steps.foldl Path.onward done.reverse := by
  fun_induction normalSteps done steps with
  | case1 done => rfl
  | case2 done rest ih => rw [ih, List.foldl_cons, Path.onward_dot]
  | case3 done rest ih => rw [ih, List.foldl_cons, Path.onward_dots, List.dropLast_reverse]
  | case4 done s rest hdot hdots ih =>
    rw [ih, List.foldl_cons, Path.onward_name _ hdot hdots, List.reverse_cons]

/-- The place that a path names by its text alone. A path that does not start with a slash starts at
the root of the repository. -/
def placeOfSpec (r : Repository) (spec : String) : List String :=
  (Path.segments (if Text.startsWith spec "/" then spec else r.rootSlash ++ spec)).foldl
    Path.onward []

theorem areNames_foldl_onward (hd : AreNames done) (hs : ∀ s ∈ steps, s ≠ "" ∧ '/' ∉ s.toList) :
    AreNames (steps.foldl Path.onward done) := by
  induction steps generalizing done with
  | nil => exact hd
  | cons s rest ih =>
    obtain ⟨⟨hne, hslash⟩, hrest⟩ := List.forall_mem_cons.1 hs
    refine ih ?_ hrest
    by_cases hdot : s = "."
    · rwa [hdot, Path.onward_dot]
    by_cases hdots : s = ".."
    · rw [hdots, Path.onward_dots]
      intro t ht
      exact hd t ((List.dropLast_sublist _).subset ht)
    rw [Path.onward_name _ hdot hdots, AreNames.append_iff, AreNames.singleton_iff,
      Path.isName_iff]
    exact ⟨hd, hne, hdot, hdots, hslash⟩

theorem areNames_placeOfSpec (r : Repository) (spec : String) : AreNames (r.placeOfSpec spec) :=
  areNames_foldl_onward .nil fun _ => Path.of_mem_segments

theorem relative_eq_ok_iff : r.relative spec = .ok rel ↔
    ∃ rest, r.placeOfSpec spec = Path.segments r.root ++ rest ∧ rel = "/".intercalate rest := by
  have hplace : normalSteps [] (Path.segments
      (if Text.startsWith spec "/" then spec else r.rootSlash ++ spec)) = r.placeOfSpec spec := by
    rw [normalSteps_eq]
    rfl
  unfold relative
  dsimp only
  rw [hplace]
  split
  · next htop =>
    obtain ⟨rest, hrest⟩ := List.isPrefixOf_iff_prefix.1 htop
    rw [← hrest, List.drop_left]
    constructor
    · intro he
      exact ⟨rest, rfl, (Except.ok.inj he).symm⟩
    · rintro ⟨rest', he, rfl⟩
      rw [List.append_cancel_left he]
  · next htop =>
    refine iff_of_false (fun he => nomatch he) ?_
    rintro ⟨rest, he, -⟩
    exact htop (List.isPrefixOf_iff_prefix.2 ⟨rest, he.symm⟩)

/-- The relative path that is made of a spec is tracked where the spec leads, unless it leads to the
root itself. -/
theorem tracks_of_relative (hr : r.Rooted) (hs : r.placeOfSpec spec = Path.segments r.root ++ rest)
    (hne : rest ≠ []) : r.Tracks ("/".intercalate rest) ∧
      r.placeOf ("/".intercalate rest) = r.placeOfSpec spec := by
  have hnames := r.areNames_placeOfSpec spec
  have hplace : r.placeOfSpec spec ≠ [] := by
    rw [hs]
    exact List.append_ne_nil_of_right_ne_nil _ hne
  have hwritten : Path.ofNames (r.placeOfSpec spec) = r.rootSlash ++ "/".intercalate rest := by
    rw [hs, hr.ofNames_append hne]
  have he : r.placeOf ("/".intercalate rest) = r.placeOfSpec spec := by
    rw [placeOf, ← hwritten, Path.segments_ofNames hnames]
  exact ⟨⟨he ▸ hnames, he ▸ hplace, he ▸ hwritten⟩, he⟩

theorem isBelow_iff_prefix {top : String} (hp : r.Tracks path) (ht : r.Tracks top) :
    isBelow path top = true ↔ r.placeOf top <+: r.placeOf path := by
  rw [isBelow, Bool.or_eq_true, beq_iff_eq, ht.startsWith_iff hp]
  constructor
  · rintro (rfl | ⟨hpre, -⟩)
    · exact List.prefix_rfl
    · exact hpre
  · intro hpre
    by_cases he : r.placeOf top = r.placeOf path
    · exact .inl (hp.eq_of_placeOf ht he.symm)
    · exact .inr ⟨hpre, he⟩

/-- No tracked path lies below the empty one. -/
theorem isBelow_empty (hr : r.Rooted) (hp : r.Tracks path) : isBelow path "" = false := by
  obtain ⟨rest, hne, hplace⟩ := hr.exists_placeOf hp
  have htext : '/' :: path.toList = Disk.trail rest := by
    have h := hp.toList_placeOf
    rw [hplace, Disk.trail_append, hr.toList_rootSlash, List.append_assoc,
      List.append_cancel_left_eq] at h
    exact h.symm
  cases rest with
  | nil => exact absurd rfl hne
  | cons name rest =>
    have hname : Path.isName name = true := hp.names name (by simp [hplace])
    obtain ⟨hempty, -, -, hslash⟩ := Path.isName_iff.1 hname
    rw [Disk.trail_cons, List.cons_inj_right] at htext
    rw [isBelow, Text.startsWith, Bool.or_eq_false_iff, beq_eq_false_iff_ne, ne_eq,
      ← String.toList_inj, htext]
    cases hchars : name.toList with
    | nil => exact absurd (String.toList_eq_nil_iff.1 hchars) hempty
    | cons c cs =>
      rw [hchars, List.mem_cons, not_or] at hslash
      simp [List.isPrefixOf, hslash.1]

/-! ## What is asked for -/

/-- A spec that stands for all there is. -/
def IsEverything (spec : String) : Prop := spec = "." ∨ spec = "-A" ∨ spec = "--all"

instance (spec : String) : Decidable (IsEverything spec) := by
  unfold IsEverything
  infer_instance

/-- A path lies at or below one of the places that are named. -/
def Asked (r : Repository) (specs : List String) (path : String) : Prop :=
  ∃ spec ∈ specs, IsEverything spec ∨ r.placeOfSpec spec <+: r.placeOf path

/-- A path whose file is gone while the index holds it, which is asked for by specs only that spell
out the root. -/
structure Overlooked (r : Repository) (working : Tree) (specs : List String) (path : String) :
    Prop where
  indexed : r.index.contains path = true
  gone : working.contains path = false
  spelled : ∀ spec ∈ specs, ¬ IsEverything spec ∧
    (r.placeOfSpec spec <+: r.placeOf path → r.placeOfSpec spec = Path.segments r.root)

section Add

variable {index : Tree}

/-- What an addition of paths is to make of the index. -/
structure Added (r : Repository) (working : Tree) (specs : List String) (index : Tree) : Prop where
  asked : ∀ path, r.Asked specs path → index.get? path = working.get? path
  other : ∀ path, ¬ r.Asked specs path → index.get? path = r.index.get? path

theorem takes_everything (he : IsEverything spec) : r.takes working spec path = true := by
  obtain rfl | rfl | rfl := he <;> rfl

/-- A spec takes what it asks for, but not what is gone where it spells out the root. -/
theorem takes_iff (hr : r.Rooted) (hp : r.Tracks path) (he : ¬ IsEverything spec)
    (hrel : r.relative spec = .ok rel) : r.takes working spec path = true ↔
      r.placeOfSpec spec <+: r.placeOf path ∧
        (r.placeOfSpec spec = Path.segments r.root → working.contains path = true) := by
  have htakes : r.takes working spec path =
      (isBelow path rel || (rel.isEmpty && working.contains path)) := by
    simp only [IsEverything, not_or] at he
    simp [takes, he, hrel]
  obtain ⟨rest, hplace, rfl⟩ := relative_eq_ok_iff.1 hrel
  rw [htakes]
  by_cases hrest : rest = []
  · -- the spec leads to the root, below which every tracked path lies
    obtain ⟨rest', -, hbelow⟩ := hr.exists_placeOf hp
    rw [hrest, List.append_nil] at hplace
    rw [hrest, hplace, hbelow]
    simp [isBelow_empty hr hp]
  · obtain ⟨ht, hsame⟩ := tracks_of_relative hr hplace hrest
    have hempty : ("/".intercalate rest).isEmpty = false := by
      have h := isBelow_empty hr ht
      rw [isBelow, Bool.or_eq_false_iff] at h
      simpa using h.1
    have hroot : r.placeOfSpec spec ≠ Path.segments r.root := by
      rw [hplace]
      exact fun h => hrest (List.append_right_eq_self.1 h)
    rw [hempty, Bool.false_and, Bool.or_false, isBelow_iff_prefix hp ht, hsame]
    exact (and_iff_left fun h => absurd h hroot).symm

theorem relative_of_indexWith (hi : r.indexWith working spec = .ok index)
    (he : ¬ IsEverything spec) : ∃ rel, r.relative spec = .ok rel := by
  unfold indexWith at hi
  rw [if_neg (by simpa [IsEverything, or_assoc] using he)] at hi
  obtain ⟨rel, hrel, -⟩ := bind_eq_ok.1 hi
  exact ⟨rel, hrel⟩

theorem relative_of_addAll (hd : addAll working r specs = (.ok (), r')) :
    ∀ spec ∈ specs, ¬ IsEverything spec → ∃ rel, r.relative spec = .ok rel := by
  induction specs generalizing r with
  | nil => exact fun _ h => nomatch h
  | cons spec rest ih =>
    rw [addAll] at hd
    split at hd
    · next hone =>
      have hrest := ih hd
      exact List.forall_mem_cons.2 ⟨relative_of_indexWith hone, hrest⟩
    · cases hd

/-- When all paths can be added, what one of them takes is what the working tree holds, and the rest
stays. -/
theorem get?_addAll_ok (hd : addAll working r specs = (.ok (), r')) (path : String) :
    r'.index.get? path =
      if specs.any (r.takes working · path) then working.get? path else r.index.get? path := by
  induction specs generalizing r with
  | nil =>
    obtain ⟨-, rfl⟩ := Prod.mk.inj hd
    rfl
  | cons spec rest ih =>
    rw [addAll] at hd
    split at hd
    · next index hone =>
      have htakes : ({ r with index := index } : Repository).takes working = r.takes working := rfl
      rw [ih hd, htakes, List.any_cons]
      dsimp only
      rw [get?_indexWith hone]
      cases r.takes working spec path <;> simp
    · cases hd

/-- What is asked for and not overlooked is taken, nothing else. -/
theorem any_takes_iff (hr : r.Rooted) (hp : r.Tracks path)
    (hrel : ∀ spec ∈ specs, ¬ IsEverything spec → ∃ rel, r.relative spec = .ok rel)
    (hheld : r.index.contains path = true ∨ working.contains path = true) :
    specs.any (r.takes working · path) = true ↔
      r.Asked specs path ∧ ¬ r.Overlooked working specs path := by
  rw [List.any_eq_true]
  constructor
  · rintro ⟨spec, hspec, htakes⟩
    by_cases he : IsEverything spec
    · exact ⟨⟨spec, hspec, .inl he⟩, fun ho => (ho.spelled spec hspec).1 he⟩
    · obtain ⟨rel, hrel⟩ := hrel spec hspec he
      obtain ⟨hbelow, hroot⟩ := (takes_iff hr hp he hrel).1 htakes
      refine ⟨⟨spec, hspec, .inr hbelow⟩, fun ho => ?_⟩
      have hgone := ho.gone
      rw [hroot ((ho.spelled spec hspec).2 hbelow)] at hgone
      cases hgone
  · rintro ⟨⟨spec, hspec, hasked⟩, hseen⟩
    by_contra hnone
    have hno : ∀ spec ∈ specs, ¬ IsEverything spec ∧ (r.placeOfSpec spec <+: r.placeOf path →
        r.placeOfSpec spec = Path.segments r.root ∧ working.contains path = false) := by
      intro spec hspec
      have htakes : r.takes working spec path ≠ true := fun h => hnone ⟨spec, hspec, h⟩
      have he : ¬ IsEverything spec := fun he => htakes (takes_everything he)
      obtain ⟨rel, hrel⟩ := hrel spec hspec he
      rw [ne_eq, takes_iff hr hp he hrel] at htakes
      exact ⟨he, fun hbelow => by simpa [hbelow] using htakes⟩
    obtain ⟨he, hbelow⟩ := hno spec hspec
    have hgone := (hbelow (hasked.resolve_left he)).2
    refine hseen ⟨hheld.resolve_right (by simp [hgone]), hgone, fun spec hspec => ?_⟩
    obtain ⟨he, hbelow⟩ := hno spec hspec
    exact ⟨he, fun h => (hbelow h).1⟩

/-- What an addition that succeeds makes of the index: it takes over what is asked for and not
overlooked. -/
theorem get?_of_addAll (hr : r.Rooted) (hi : ∀ path ∈ r.index.keys, r.Tracks path)
    (hw : ∀ path ∈ working.keys, r.Tracks path) (hd : addAll working r specs = (.ok (), r'))
    (path : String) :
    (r.Asked specs path → ¬ r.Overlooked working specs path →
      r'.index.get? path = working.get? path) ∧
    (¬ r.Asked specs path ∨ r.Overlooked working specs path →
      r'.index.get? path = r.index.get? path) := by
  rw [get?_addAll_ok hd]
  by_cases hheld : r.index.contains path = true ∨ working.contains path = true
  · have hp : r.Tracks path := by
      simp only [Table.contains_iff, ← Table.mem_keys_iff] at hheld
      exact hheld.elim (hi path) (hw path)
    have htaken := any_takes_iff hr hp (relative_of_addAll hd) hheld
    constructor
    · intro hasked hseen
      rw [if_pos (htaken.2 ⟨hasked, hseen⟩)]
    · intro hleft
      rw [if_neg fun h => hleft.elim (· (htaken.1 h).1) (htaken.1 h).2]
  · -- neither holds the path
    simp only [not_or, Bool.not_eq_true, Table.contains_eq_false_iff] at hheld
    simp [hheld.1, hheld.2]

end Add

/-! ## What a status tells -/

/-- The index of another repository holds the same, and its status tells the same changes. -/
structure SameChanges (r r' : Repository) (s : Workspace) : Prop where
  index : ∀ path, r'.index.get? path = r.index.get? path
  staged : (r'.statusNow s).staged = (r.statusNow s).staged
  modified : (r'.statusNow s).modified = (r.statusNow s).modified
  untracked : (r'.statusNow s).untracked = (r.statusNow s).untracked

namespace SameChanges

theorem refl : r.SameChanges r s := ⟨fun _ => rfl, rfl, rfl, rfl⟩

theorem symm (h : r.SameChanges r' s) : r'.SameChanges r s :=
  ⟨fun path => (h.index path).symm, h.staged.symm, h.modified.symm, h.untracked.symm⟩

theorem trans {r'' : Repository} (h : r.SameChanges r' s) (h' : r'.SameChanges r'' s) :
    r.SameChanges r'' s :=
  ⟨fun path => (h'.index path).trans (h.index path), h'.staged.trans h.staged,
    h'.modified.trans h.modified, h'.untracked.trans h.untracked⟩

end SameChanges

/-- Where the files and the commit are the same, what the index holds decides what has changed. -/
theorem sameChanges_of_index (hroot : r'.root = r.root) (hhead : r'.headTree = r.headTree)
    (hi : ∀ path, r'.index.get? path = r.index.get? path) : r.SameChanges r' s := by
  have hkeys : r'.index.keys.Perm r.index.keys :=
    (List.perm_ext_iff_of_nodup r'.index.nodup r.index.nodup).2 (mem_keys_congr hi)
  have hworking : r'.workingTree s = r.workingTree s := workingTree_congr hroot
  refine ⟨hi, ?_, ?_, ?_⟩
  · simp only [statusNow, changedPaths, hhead, hi]
    exact sorted_eq_of_perm (((hkeys.filter _).append_left _).filter _)
  · simp only [statusNow, hworking, hi]
    exact sorted_eq_of_perm (hkeys.filter _)
  · simp only [statusNow, hworking, Table.contains, hi]

section Branches

variable {σ : Type} {h : Host σ} {w : World σ} {ref name : String}

theorem headTree_onBranch (hb : r.branches.get? ref = some r.tip?) :
    (r.onBranch ref).headTree = r.headTree := by
  have htip : (r.onBranch ref).tip? = r.tip? := by
    rw [show (r.onBranch ref).tip? = (r.branches.get? ref).join from rfl, hb, Option.join_some]
  rw [headTree, htip]
  rfl

theorem onBranch_eq (hb : r.branches.get? ref = some r.tip?) :
    r.onBranch ref = { r with head := ref, index := r.headTree } := by
  rw [← headTree_onBranch hb]
  rfl

/-- Moving to a branch at the same commit drops what is staged. -/
theorem sameChanges_onBranch_iff (hb : r.branches.get? ref = some r.tip?) :
    r.SameChanges (r.onBranch ref) s ↔ (r.statusNow s).staged = [] := by
  have hindex : (r.onBranch ref).index = r.headTree := by
    rw [onBranch_eq hb]
  have hhead := headTree_onBranch hb
  constructor
  · intro hs
    rw [← hs.staged]
    refine changedPaths_eq_nil_iff.2 fun path => ?_
    rw [hhead, hindex]
  · intro hs
    refine sameChanges_of_index rfl hhead fun path => ?_
    rw [hindex]
    exact changedPaths_eq_nil_iff.1 hs path

theorem checkout_same_tip (hi : r.initialized = true) (hb : r.branches.get? ref = some r.tip?) :
    r.checkout h w ref = (.ok (), w, if ref = r.head then r else r.onBranch ref) := by
  unfold checkout
  rw [require_eq_ok_iff.2 hi, hb]
  by_cases hhead : ref = r.head <;> simp [hhead]

/-- A new branch is at the current commit, and nothing else is touched. -/
theorem get?_createBranch (hr : r.createBranch name = .ok r') :
    r'.branches.get? name = some r'.tip? ∧ name ≠ r'.head ∧ r.SameChanges r' s := by
  obtain ⟨-, hnew, oid, ht, rfl⟩ := createBranch_eq_ok hr
  have hne : name ≠ r.head := by
    rintro rfl
    rw [Table.contains_eq_false_iff, tip?_eq_some_iff.1 ht] at hnew
    cases hnew
  have htip : ({ r with branches := r.branches.insert name (some oid) } : Repository).tip? =
      some oid :=
    tip?_eq_some_iff.2 ((Table.get?_insert_of_ne hne.symm _).trans (tip?_eq_some_iff.1 ht))
  refine ⟨?_, hne, sameChanges_of_index rfl ?_ fun _ => rfl⟩
  · rw [htip]
    exact Table.get?_insert_self _ _ _
  · rw [headTree, htip, headTree, ht]
    rfl

end Branches

end Repository

namespace Project

open Repository

variable {h : Host σ} {p p' : Project σ} {specs : List String} {text : Option String}

/-- An addition that succeeds has added all paths, and has changed the index only. -/
theorem run_add (hc : (Git.Call.add specs).run h p = (.ok text, p')) :
    addAll (p.repository.workingTree p.world.space) p.repository specs = (.ok (), p'.repository) ∧
      p' = { p with repository := { p.repository with index := p'.repository.index } } := by
  have hresult : ((p.repository.add p.world.space specs).1.map fun _ => none).mapError
      Git.Stop.rejected = .ok text := congrArg Prod.fst hc
  obtain rfl : { p with repository := (p.repository.add p.world.space specs).2 } = p' :=
    congrArg Prod.snd hc
  obtain ⟨⟨⟩, hok, -⟩ := map_eq_ok.1 (mapError_eq_ok.1 hresult)
  unfold add at hok ⊢
  split at hok
  · cases hok
  obtain ⟨index, he⟩ := addAll_eq (p.repository.workingTree p.world.space) p.repository specs
  refine ⟨Prod.ext hok rfl, ?_⟩
  dsimp only
  rw [he]

/-- An addition changes the index only. It takes over what the working tree holds at the paths that
are asked for, except for files that are gone and are asked for by a spelling of the root only:
these stay in the index. -/
theorem added_iff (hp : p.Reachable) (hc : (Git.Call.add specs).run h p = (.ok text, p')) :
    p' = { p with repository := { p.repository with index := p'.repository.index } } ∧
    (p.repository.Added (p.repository.workingTree p.world.space) specs p'.repository.index ↔
      ∀ path, p.repository.Asked specs path →
        ¬ p.repository.Overlooked (p.repository.workingTree p.world.space) specs path) ∧
    (∀ path, p.repository.Asked specs path →
      ¬ p.repository.Overlooked (p.repository.workingTree p.world.space) specs path →
        p'.repository.index.get? path =
          (p.repository.workingTree p.world.space).get? path) ∧
    (∀ path, ¬ p.repository.Asked specs path ∨
      p.repository.Overlooked (p.repository.workingTree p.world.space) specs path →
        p'.repository.index.get? path = p.repository.index.get? path) ∧
    ((∀ t ∈ (Path.segments p.repository.root).getLast?, Path.IsPlain t) → ∀ path content,
      (p.repository.workingTree p.world.space).get? path = some content ↔
        p.world.space.HasFile (p.repository.rootSlash ++ path) content) := by
  have htree := hp.world.sound.tree
  obtain ⟨hdone, honly⟩ := run_add hc
  have hget := get?_of_addAll hp.tidy.rooted hp.tidy.index
    (fun _ => tracks_of_workingTree htree) hdone
  refine ⟨honly, ⟨fun ha path hasked ho => ?_,
      fun hseen => ⟨fun path hasked => ?_, fun path hno => ?_⟩⟩,
    fun path => (hget path).1, fun path => (hget path).2,
    fun hroot path content => get?_workingTree_iff_of_root htree hp.tidy.rooted hroot⟩
  · -- the index still holds what is overlooked, the working tree does not
    have hkept := (hget path).2 (.inr ho)
    rw [ha.asked path hasked, Table.contains_eq_false_iff.1 ho.gone] at hkept
    obtain ⟨content, hcontent⟩ := Table.contains_iff.1 ho.indexed
    cases hkept.trans hcontent
  · exact (hget path).1 hasked (hseen path hasked)
  · exact (hget path).2 (.inl hno)

/-- A repository below the root of the workspace. A file that it holds is deleted, and another one
is new. -/
def halfStaged : Project Unit :=
  [.inr .init, .inl (.create .directory "work" rootId ""), .inl (.create .file "a" "n1" "one"),
    .inr (.add ["."]), .inl (.create .file "b" "n1" "two"), .inl (.delete "n2" false)].foldl
    (act freeHost) ⟨.new "/work/" "user", newProject.world⟩

theorem reachable_halfStaged : halfStaged.Reachable :=
  (Reachable.new (.new "/home/user" default ()) "/work/" "user").acts lawful_freeHost
    [.inr .init, .inl (.create .directory "work" rootId ""), .inl (.create .file "a" "n1" "one"),
      .inr (.add ["."]), .inl (.create .file "b" "n1" "two"), .inl (.delete "n2" false)]

/-- The deleted file is asked for in one way, the new one in another. -/
theorem halfStaged_added : ∃ p', (Git.Call.add ["../work/a", "/work/./b"]).run freeHost halfStaged =
      (.ok none, p') ∧ p'.repository.index.get? "a" = none ∧
      p'.repository.index.get? "b" = some "two" := by
  have hrun : (Git.Call.add ["../work/a", "/work/./b"]).run freeHost halfStaged =
      (.ok none, ((Git.Call.add ["../work/a", "/work/./b"]).run freeHost halfStaged).2) :=
    Prod.ext (by decide +kernel) rfl
  obtain ⟨-, -, htaken, -, -⟩ := added_iff reachable_halfStaged hrun
  have ha : halfStaged.repository.Asked ["../work/a", "/work/./b"] "a" :=
    ⟨_, List.mem_cons_self, .inr (by decide +kernel)⟩
  have hb : halfStaged.repository.Asked ["../work/a", "/work/./b"] "b" :=
    ⟨_, List.mem_cons_of_mem _ List.mem_cons_self, .inr (by decide +kernel)⟩
  refine ⟨_, hrun, (htaken "a" ha fun ho => ?_).trans (by decide +kernel),
    (htaken "b" hb fun ho => ?_).trans (by decide +kernel)⟩
  · have hroot := (ho.spelled "../work/a" List.mem_cons_self).2 (by decide +kernel)
    revert hroot
    decide +kernel
  · have hindexed := ho.indexed
    revert hindexed
    decide +kernel

/-- A spelling of the root takes over the new file and leaves the deleted one in the index, while
the dot takes both. -/
theorem deletion_overlooked :
    ((Git.Call.add ["./"]).run freeHost halfStaged).1 = .ok none ∧
    halfStaged.repository.Asked ["./"] "a" ∧
    (halfStaged.repository.workingTree halfStaged.world.space).get? "a" = none ∧
    ((Git.Call.add ["./"]).run freeHost halfStaged).2.repository.index.get? "a" = some "one" ∧
    ((Git.Call.add ["./"]).run freeHost halfStaged).2.repository.index.get? "b" = some "two" ∧
    ((Git.Call.add ["."]).run freeHost halfStaged).2.repository.index.get? "a" = none :=
  ⟨by decide +kernel, ⟨_, List.mem_cons_self, .inr (by decide +kernel)⟩, by decide +kernel,
    by decide +kernel, by decide +kernel, by decide +kernel⟩

/-! ## Branches at the current commit -/

theorem run_checkout_same {ref : String} (hi : p.repository.initialized = true)
    (hb : p.repository.branches.get? ref = some p.repository.tip?) :
    ∃ r, (Git.Call.checkout ref).run h p = (.ok none, ⟨r, p.world⟩) ∧
      r = { p.repository with head := ref, index := r.index } ∧
      (p.repository.SameChanges r p.world.space ↔
        ref = p.repository.head ∨ (p.repository.statusNow p.world.space).staged = []) := by
  have hrun : (Git.Call.checkout ref).run h p = (.ok none,
      ⟨if ref = p.repository.head then p.repository else p.repository.onBranch ref, p.world⟩) := by
    rw [Git.Call.run, checkout_same_tip hi hb]
    rfl
  by_cases hhead : ref = p.repository.head
  · rw [if_pos hhead] at hrun
    refine ⟨_, hrun, ?_, iff_of_true .refl (.inl hhead)⟩
    rw [hhead]
  · rw [if_neg hhead] at hrun
    refine ⟨_, hrun, rfl, ?_⟩
    rw [sameChanges_onBranch_iff hb, or_iff_right hhead]

/-- Switching to a branch at the current commit touches no file and succeeds. Besides the current
branch only the index can change, and it does exactly when something is staged and the branch is
another one: what is staged is dropped. A branch that has just been created is such a branch. -/
theorem switched_same_iff (h : Host σ) (hi : p.repository.initialized = true) :
    (∀ ref, p.repository.branches.get? ref = some p.repository.tip? →
      ∃ r, (Git.Call.checkout ref).run h p = (.ok none, ⟨r, p.world⟩) ∧
        r = { p.repository with head := ref, index := r.index } ∧
        (p.repository.SameChanges r p.world.space ↔
          ref = p.repository.head ∨ (p.repository.statusNow p.world.space).staged = [])) ∧
    (∀ name r₁, p.repository.createBranch name = .ok r₁ →
      ∃ r, (Git.Call.checkout name).run h ⟨r₁, p.world⟩ = (.ok none, ⟨r, p.world⟩) ∧
        r = { r₁ with head := name, index := r.index } ∧
        (p.repository.SameChanges r p.world.space ↔
          (p.repository.statusNow p.world.space).staged = [])) := by
  refine ⟨fun ref hb => run_checkout_same hi hb, fun name r₁ hr => ?_⟩
  obtain ⟨hb, hne, hsame⟩ := get?_createBranch hr
  have hi₁ : r₁.initialized = true := by
    obtain ⟨hi, -, -, -, rfl⟩ := createBranch_eq_ok hr
    exact hi
  obtain ⟨r, hrun, honly, hiff⟩ := run_checkout_same (h := h) (p := ⟨r₁, p.world⟩) hi₁ hb
  refine ⟨r, hrun, honly, ?_⟩
  rw [← hsame.staged, ← hiff.trans (or_iff_right hne)]
  exact ⟨hsame.symm.trans, hsame.trans⟩

/-- The committed file is edited, another one is not tracked. -/
def edited : Project Unit :=
  [.inl (.setContent "n1" "edited"), .inl (.create .file "b" rootId "two")].foldl (act freeHost)
    firstCommit

/-- Nothing is staged, so that a new branch shows the same changes. -/
theorem edited_same : ∃ r₁ r, edited.repository.createBranch "other" = .ok r₁ ∧
    (Git.Call.checkout "other").run freeHost ⟨r₁, edited.world⟩ = (.ok none, ⟨r, edited.world⟩) ∧
    edited.repository.SameChanges r edited.world.space := by
  obtain ⟨r₁, hr⟩ : ∃ r₁, edited.repository.createBranch "other" = .ok r₁ :=
    exists_of_isOk (by decide +kernel)
  have hhead : edited.repository.headTree = edited.repository.index := by decide +kernel
  obtain ⟨r, hrun, -, hsame⟩ := (switched_same_iff freeHost (by decide +kernel)).2 "other" r₁ hr
  refine ⟨r₁, r, hr, hrun, hsame.2 (changedPaths_eq_nil_iff.2 fun path => ?_)⟩
  rw [hhead]

/-- A new file is staged, and there is a new branch. -/
def staged : Project Unit :=
  [.inl (.create .file "b" rootId "two"), .inr (.add ["b"]), .inr (.createBranch "other")].foldl
    (act freeHost) firstCommit

/-- On the new branch the file is not staged any more. -/
theorem staged_dropped : staged.Reachable ∧
    staged.repository.branches.get? "other" = some staged.repository.tip? ∧
    staged.repository.headTree.get? "b" = none ∧
    staged.repository.index.get? "b" = some "two" ∧
    ((Git.Call.checkout "other").run freeHost staged).1 = .ok none ∧
    ((Git.Call.checkout "other").run freeHost staged).2.repository.index.get? "b" = none :=
  ⟨reachable_firstCommit.acts lawful_freeHost
      [.inl (.create .file "b" rootId "two"), .inr (.add ["b"]), .inr (.createBranch "other")],
    by decide +kernel, by decide +kernel, by decide +kernel, by decide +kernel, by decide +kernel⟩

end Project

end Workbench
