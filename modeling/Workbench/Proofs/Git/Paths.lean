import Workbench.Git.Repository
import Workbench.Proofs.Path
import Workbench.Proofs.World.Free

/-!
# Tracked paths

A repository writes its paths below its root with a slash in between. What it tracks are paths of
files, and these are written from proper names; so a tracked path and the place it names can be
exchanged. The working tree holds the files below the root, each under what its path has after the
root (`get?_workingTree_iff`).
-/

namespace Workbench

open Workbench.Path (AreNames)

theorem Text.startsWith_dropChars_iff {s t u : String} :
    startsWith s t = true ∧ dropChars s t.length = u ↔ s = t ++ u := by
  rw [startsWith, List.isPrefixOf_iff_prefix, dropChars, ← String.length_toList]
  constructor
  · rintro ⟨⟨rest, hr⟩, rfl⟩
    rw [← String.toList_inj, String.toList_append, String.toList_ofList, ← hr, List.drop_left]
  · rintro rfl
    simp

namespace Workspace

/-- There is a file with this path and this content. -/
def HasFile (s : Workspace) (path content : String) : Prop :=
  ∃ n, s.node? n.id = some n ∧ n.isFile = true ∧ s.pathOf n.id = path ∧ n.content = content

/-- There is a directory with this path. -/
def HasDirectory (s : Workspace) (path : String) : Prop :=
  ∃ n, s.node? n.id = some n ∧ n.isDirectory = true ∧ s.pathOf n.id = path

variable {s : Workspace} {n : Node} {id : NodeId} {q : List String} {path content : String}

theorem exists_node_iff {P : Node → Prop} : (∃ n ∈ s.arena.values, s.node? n.id = some n ∧ P n) ↔
    ∃ n, s.node? n.id = some n ∧ P n := by
  constructor
  · rintro ⟨n, -, hn⟩
    exact ⟨n, hn⟩
  · rintro ⟨n, hn, hP⟩
    exact ⟨n, List.mem_map_of_mem (f := Prod.snd) (Table.mem_entries_iff.2 hn), hn, hP⟩

instance (s : Workspace) (path content : String) : Decidable (s.HasFile path content) :=
  decidable_of_iff _ exists_node_iff

instance (s : Workspace) (path : String) : Decidable (s.HasDirectory path) :=
  decidable_of_iff _ exists_node_iff

theorem pathOf_eq_iff (h : s.arena.IsTree) (hn : s.node? id = some n) (hq : AreNames q) :
    s.pathOf id = Path.ofNames q ↔ s.arena.Leads id q := by
  have hl := h.leads_namesTo hn
  constructor
  · intro he
    rw [← Path.ofNames_injective (h.isName_of_leads hl) hq he]
    exact hl
  · intro hq
    rw [pathOf, Arena.pathOf, (h.leads_iff hn).1 hq]

theorem hasFile_ofNames_iff (h : s.arena.IsTree) (hq : AreNames q) :
    s.HasFile (Path.ofNames q) content ↔ s.arena.Shows q (some content) := by
  constructor
  · rintro ⟨n, hn, hf, hp, rfl⟩
    refine ⟨n.id, n, (pathOf_eq_iff h hn hq).1 hp, hn, ?_⟩
    rw [Node.shown, if_pos hf]
  · rintro ⟨id, n, hl, hn, hs⟩
    obtain rfl := h.keyed hn
    rw [Node.shown, Option.ite_none_right_eq_some] at hs
    obtain ⟨hf, hc⟩ := hs
    exact ⟨n, hn, hf, (pathOf_eq_iff h hn hq).2 hl, Option.some.inj hc⟩

theorem hasDirectory_ofNames_iff (h : s.arena.IsTree) (hq : AreNames q) :
    s.HasDirectory (Path.ofNames q) ↔ s.arena.Shows q none := by
  constructor
  · rintro ⟨n, hn, hd, hp⟩
    exact ⟨n.id, n, (pathOf_eq_iff h hn hq).1 hp, hn,
      Node.shown_eq_none_iff.2 (Node.isDirectory_iff.1 hd)⟩
  · rintro ⟨id, n, hl, hn, hs⟩
    obtain rfl := h.keyed hn
    exact ⟨n, hn, Node.isDirectory_iff.2 (Node.shown_eq_none_iff.1 hs),
      (pathOf_eq_iff h hn hq).2 hl⟩

/-- The path of a file is written from at least one proper name. -/
theorem HasFile.exists_names (h : s.arena.IsTree) (hf : s.HasFile path content) :
    ∃ q, AreNames q ∧ q ≠ [] ∧ Path.ofNames q = path := by
  obtain ⟨n, hn, hk, hp, -⟩ := hf
  have hl := h.leads_namesTo hn
  refine ⟨_, h.isName_of_leads hl, ?_, hp⟩
  intro hnil
  rw [hnil] at hl
  obtain ⟨r, hr, hrk, -⟩ := h.root
  have hid := h.leads_injective hl .root
  rw [hid] at hn
  obtain rfl := Option.some.inj (hr.symm.trans hn)
  rw [Node.isFile_iff, hrk] at hk
  cases hk

theorem HasFile.content_eq {content' : String} (h : s.arena.IsTree) (hf : s.HasFile path content)
    (hf' : s.HasFile path content') : content = content' := by
  obtain ⟨q, hq, -, rfl⟩ := hf.exists_names h
  rw [hasFile_ofNames_iff h hq] at hf hf'
  exact Option.some.inj (h.shape.single hf hf')

end Workspace

namespace Repository

open Workspace (HasFile)

variable {r : Repository} {s : Workspace} {path path' content : String}

/-! ## Places -/

/-- The names on the way to a path below the root. -/
@[irreducible]
def placeOf (r : Repository) (path : String) : List String := Path.segments (r.rootSlash ++ path)

/-- A path below the root that is written from proper names. -/
structure Tracks (r : Repository) (path : String) : Prop where
  names : AreNames (r.placeOf path)
  ne_nil : r.placeOf path ≠ []
  written : Path.ofNames (r.placeOf path) = r.rootSlash ++ path

/-- A path below the root none of whose names ends with a blank. -/
def IsPlain (r : Repository) (path : String) : Prop := ∀ s ∈ r.placeOf path, Path.IsPlain s

instance (r : Repository) (path : String) : Decidable (r.IsPlain path) :=
  inferInstanceAs (Decidable (∀ s ∈ r.placeOf path, Path.IsPlain s))

theorem tracks_of_hasFile (h : s.arena.IsTree) (hf : s.HasFile (r.rootSlash ++ path) content) :
    r.Tracks path := by
  obtain ⟨q, hq, hne, he⟩ := hf.exists_names h
  have hplace : r.placeOf path = q := by
    rw [placeOf, ← he, Path.segments_ofNames hq]
  exact ⟨hplace ▸ hq, hplace ▸ hne, hplace ▸ he⟩

/-- A place is that of one tracked path. -/
theorem Tracks.eq_of_placeOf (h : r.Tracks path) (h' : r.Tracks path')
    (he : r.placeOf path = r.placeOf path') : path = path' := by
  have hw : r.rootSlash ++ path = r.rootSlash ++ path' := by
    rw [← h.written, he, h'.written]
  rw [← String.toList_inj, String.toList_append, String.toList_append] at hw
  exact String.toList_inj.1 (List.append_cancel_left hw)

theorem Tracks.hasFile_iff (h : r.Tracks path) (hs : s.arena.IsTree) :
    s.HasFile (r.rootSlash ++ path) content ↔ s.arena.Shows (r.placeOf path) (some content) := by
  rw [← h.written, Workspace.hasFile_ofNames_iff hs h.names]

theorem Tracks.hasDirectory_iff (h : r.Tracks path) (hs : s.arena.IsTree) :
    s.HasDirectory (r.rootSlash ++ path) ↔ s.arena.Shows (r.placeOf path) none := by
  rw [← h.written, Workspace.hasDirectory_ofNames_iff hs h.names]

theorem Tracks.toList_placeOf (h : r.Tracks path) :
    Disk.trail (r.placeOf path) = r.rootSlash.toList ++ path.toList := by
  rw [← Path.toList_ofNames h.ne_nil, h.written, String.toList_append]

/-- A tracked path goes on from another with a slash exactly when its place lies strictly below. -/
theorem Tracks.startsWith_iff (h : r.Tracks path) (h' : r.Tracks path') :
    Text.startsWith path' (path ++ "/") = true ↔
      r.placeOf path <+: r.placeOf path' ∧ r.placeOf path ≠ r.placeOf path' := by
  have hsplit : ∀ {cs : List Char}, path'.toList = path.toList ++ '/' :: cs ↔
      Disk.trail (r.placeOf path') = Disk.trail (r.placeOf path) ++ '/' :: cs := by
    intro cs
    rw [h.toList_placeOf, h'.toList_placeOf, List.append_assoc, List.append_cancel_left_eq]
  rw [Text.startsWith, List.isPrefixOf_iff_prefix, String.toList_append]
  constructor
  · rintro ⟨cs, hcs⟩
    rw [List.append_assoc] at hcs
    obtain ⟨rest, hne, he⟩ :=
      Disk.prefix_of_trail h.names.no_slash h'.names (hsplit.1 hcs.symm)
    rw [he]
    exact ⟨List.prefix_append _ _, fun heq => hne (List.self_eq_append_right.1 heq)⟩
  · rintro ⟨⟨rest, he⟩, hne⟩
    cases rest with
    | nil => exact absurd ((List.append_nil _).symm.trans he) hne
    | cons s rest =>
      have hcs := hsplit.2 (by rw [← he, Disk.trail_append, Disk.trail_cons])
      exact ⟨s.toList ++ Disk.trail rest, by rw [hcs, List.append_assoc]; rfl⟩

/-! ## The root -/

/-- A root that is written from its segments. -/
def Rooted (r : Repository) : Prop := Path.ofNames (Path.segments r.root) = r.root

theorem rooted_new (root author : String) : (new root author).Rooted := by
  rw [Rooted, new, Path.segments_ofNames_of_steps fun _ => Path.of_mem_segments]

theorem Rooted.toList_rootSlash (h : r.Rooted) :
    r.rootSlash.toList = Disk.trail (Path.segments r.root) ++ ['/'] := by
  rw [rootSlash, String.toList_append, ← h,
    Path.toList_dropSlashes_ofNames fun _ => Path.of_mem_segments, h]
  rfl

/-- What lies below the root has the names of the root before its own. -/
theorem Rooted.ofNames_append (h : r.Rooted) {rest : List String} (hne : rest ≠ []) :
    Path.ofNames (Path.segments r.root ++ rest) = r.rootSlash ++ "/".intercalate rest := by
  have hrel : '/' :: ("/".intercalate rest).toList = Disk.trail rest := by
    rw [← Path.toList_ofNames hne, Path.ofNames, String.toList_append]
    rfl
  rw [← String.toList_inj, Path.toList_ofNames (List.append_ne_nil_of_right_ne_nil _ hne),
    Disk.trail_append, ← hrel, String.toList_append, h.toList_rootSlash, List.append_assoc,
    List.singleton_append]

/-- A tracked path lies below the root. -/
theorem Rooted.exists_placeOf (h : r.Rooted) (ht : r.Tracks path) :
    ∃ rest, rest ≠ [] ∧ r.placeOf path = Path.segments r.root ++ rest := by
  have hw := congrArg String.toList ht.written
  rw [Path.toList_ofNames ht.ne_nil, String.toList_append, h.toList_rootSlash,
    List.append_assoc] at hw
  exact Disk.prefix_of_trail (fun s hs => (Path.of_mem_segments hs).2) ht.names hw

/-! ## The working tree -/

/-- What the working tree makes of a node. -/
def trackedFile? (r : Repository) (s : Workspace) (n : Node) : Option (String × String) :=
  let path := s.pathOf n.id
  if n.isFile && Text.startsWith path r.rootSlash then
    some (Text.dropChars path r.rootSlash.length, n.content)
  else none

theorem trackedFile?_eq_some_iff {n : Node} : r.trackedFile? s n = some (path, content) ↔
    n.isFile = true ∧ s.pathOf n.id = r.rootSlash ++ path ∧ n.content = content := by
  rw [trackedFile?, Option.ite_none_right_eq_some, Option.some.injEq, Prod.mk.injEq,
    Bool.and_eq_true, ← Text.startsWith_dropChars_iff]
  simp only [and_assoc]

theorem workingTree_eq (r : Repository) (s : Workspace) : r.workingTree s =
    match (s.resolve? r.root "/").filter Node.isDirectory with
    | none => .empty
    | some top => .ofList ((s.walk top.id).filterMap (r.trackedFile? s)) := rfl

theorem nodup_entries (h : s.arena.IsTree) {id : NodeId} {n : Node} (hn : s.node? id = some n) :
    (((s.walk id).filterMap (r.trackedFile? s)).map Prod.fst).Nodup := by
  rw [Workspace.walk, Arena.subtree, List.filterMap_filterMap, List.map_filterMap]
  refine (h.nodup_subtreeIds hn).filterMap ?_
  intro x y p hx hy
  simp only [Option.mem_def, Option.map_eq_some_iff, Option.bind_eq_some_iff] at hx hy
  obtain ⟨⟨_, c⟩, ⟨k, hk, he⟩, rfl⟩ := hx
  obtain ⟨⟨_, d⟩, ⟨m, hm, hd⟩, rfl⟩ := hy
  obtain ⟨-, hkp, -⟩ := trackedFile?_eq_some_iff.1 he
  obtain ⟨-, hmp, -⟩ := trackedFile?_eq_some_iff.1 hd
  have hkid := h.keyed hk
  have hmid := h.keyed hm
  subst hkid
  subst hmid
  have hlm := h.leads_namesTo hm
  have hlk := (Workspace.pathOf_eq_iff h hk (h.isName_of_leads hlm)).1 (hkp.trans hmp.symm)
  exact h.leads_injective hlk hlm

theorem mem_entries_iff (h : s.arena.IsTree) {id : NodeId} {top : Node}
    (ht : s.node? id = some top) :
    (path, content) ∈ (s.walk id).filterMap (r.trackedFile? s) ↔
      ∃ n, s.arena.AtOrBelow id n.id ∧ s.node? n.id = some n ∧ n.isFile = true ∧
        s.pathOf n.id = r.rootSlash ++ path ∧ n.content = content := by
  rw [Workspace.walk, Arena.subtree, List.filterMap_filterMap, List.mem_filterMap]
  constructor
  · rintro ⟨x, hx, he⟩
    obtain ⟨n, hn, hentry⟩ := Option.bind_eq_some_iff.1 he
    obtain rfl := h.keyed hn
    exact ⟨n, (h.mem_subtreeIds_iff ht).1 hx, hn, trackedFile?_eq_some_iff.1 hentry⟩
  · rintro ⟨n, hb, hn, he⟩
    have hn' : s.arena.get? n.id = some n := hn
    exact ⟨n.id, (h.mem_subtreeIds_iff ht).2 hb, by
      rw [hn', Option.bind_some, trackedFile?_eq_some_iff]
      exact he⟩

/-- The working tree holds the files below the directory that the root names. -/
theorem get?_workingTree (h : s.arena.IsTree) : (r.workingTree s).get? path = some content ↔
    ∃ top, s.resolve? r.root "/" = some top ∧ top.isDirectory = true ∧
      ∃ n, s.arena.AtOrBelow top.id n.id ∧ s.node? n.id = some n ∧ n.isFile = true ∧
        s.pathOf n.id = r.rootSlash ++ path ∧ n.content = content := by
  rw [workingTree_eq]
  cases ht : (s.resolve? r.root "/").filter Node.isDirectory with
  | none =>
    constructor
    · intro hc
      cases hc
    · rintro ⟨top, htop, hd, -⟩
      rw [htop, Option.filter_some, if_pos hd] at ht
      cases ht
  | some top =>
    obtain ⟨htop, hd⟩ := Option.filter_eq_some_iff.1 ht
    have hn := Workspace.node?_of_resolve? h htop
    rw [Table.get?_ofList_iff (nodup_entries h hn), mem_entries_iff h hn]
    constructor
    · intro hf
      exact ⟨top, htop, hd, hf⟩
    · rintro ⟨top', htop', -, hf⟩
      obtain rfl := Option.some.inj (htop.symm.trans htop')
      exact hf

theorem hasFile_of_workingTree (h : s.arena.IsTree)
    (hp : (r.workingTree s).get? path = some content) :
    s.HasFile (r.rootSlash ++ path) content := by
  obtain ⟨-, -, -, n, -, hn⟩ := (get?_workingTree h).1 hp
  exact ⟨n, hn⟩

/-- Where the last name of the root does not end with a blank, the working tree holds what the files
below the root hold. -/
theorem get?_workingTree_iff_of_root (h : s.arena.IsTree) (hr : r.Rooted)
    (hroot : ∀ t ∈ (Path.segments r.root).getLast?, Path.IsPlain t) :
    (r.workingTree s).get? path = some content ↔ s.HasFile (r.rootSlash ++ path) content := by
  refine ⟨hasFile_of_workingTree h, fun hf => ?_⟩
  have ht := tracks_of_hasFile h hf
  obtain ⟨n, hn, hk, hp, rfl⟩ := hf
  obtain ⟨rest, hne, hplace⟩ := hr.exists_placeOf ht
  have hl := (Workspace.pathOf_eq_iff h hn ht.names).1 (hp.trans ht.written.symm)
  rw [hplace] at hl
  -- the root names the directory that lies above the file
  obtain ⟨x, top, htop, hget, hshown⟩ := h.shape.directory hne ⟨n.id, n, hl, hn, rfl⟩
  obtain rfl := h.keyed hget
  have hdir := Node.isDirectory_iff.2 (Node.shown_eq_none_iff.1 hshown)
  have hres := (Workspace.resolve?_ofNames h (h.isName_of_leads htop) hroot "/").2 ⟨htop, hget⟩
  rw [hr] at hres
  exact (get?_workingTree h).2 ⟨top, hres, hdir, n,
    (h.atOrBelow_iff htop hl).2 (List.prefix_append _ _), hn, hk, hp, rfl⟩

/-- At a tracked path none of whose names ends with a blank, the working tree holds what the file
there holds. -/
theorem get?_workingTree_iff (h : s.arena.IsTree) (hr : r.Rooted) (ht : r.Tracks path)
    (hplain : r.IsPlain path) : (r.workingTree s).get? path = some content ↔
      s.HasFile (r.rootSlash ++ path) content := by
  obtain ⟨rest, -, hplace⟩ := hr.exists_placeOf ht
  refine get?_workingTree_iff_of_root h hr fun t hm => hplain t ?_
  rw [hplace]
  exact List.mem_append_left _ (List.mem_of_getLast? hm)

end Repository

end Workbench
