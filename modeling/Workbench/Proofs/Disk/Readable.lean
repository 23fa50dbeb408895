import Workbench.Proofs.Disk.Named

/-!
# How far a listing goes

A listing of the local disk reads directories inside directories, down to a depth. It reports what
lies at a place below its root exactly when every path on the way there can be looked up
(`FileSystem.Readable`), no name on the way is ignored and they are not too many
(`LocalDisk.lists_list_iff`). The last two are what the bridge says of a name at a depth before
anything is listed (`Bridge.Covers`).

That a name which can be looked up is found when its directory is read comes from the walks: a walk
to a place in a directory is a walk to the directory, followed by a step
(`FileSystem.Walks.of_append`).
-/

namespace Workbench

open Disk (below steps tidied)
open Workbench.Path (AreNames)

/-! ## What a bridge says beforehand -/

/-- Every name on the way to a place is one that listings hold at its depth. -/
def Bridge.Covers {σ : Type} (b : Bridge σ) (q : List String) : Prop :=
  ∀ (i : Nat) s, q[i]? = some s → b.isListed s (i + 1) = true

theorem Bridge.covers_iff {σ : Type} {b : Bridge σ} {limit : Int} (hb : b.maxDepth = some limit)
    {q : List String} :
    b.Covers q ↔ (∀ s ∈ q, s ∉ b.ignored) ∧ (q ≠ [] → (q.length : Int) ≤ limit) := by
  have hlisted : ∀ s (i : Nat), b.isListed s (i + 1) = true ↔
      s ∉ b.ignored ∧ (i : Int) + 1 ≤ limit := by
    intro s i
    simp [isListed, reaches, hb]
  simp only [Covers, hlisted]
  constructor
  · intro h
    refine ⟨fun s hs => ?_, fun hne => ?_⟩
    · obtain ⟨i, hi⟩ := List.mem_iff_getElem?.1 hs
      exact (h i s hi).1
    · have hpos := List.length_pos_iff.2 hne
      obtain ⟨s, hlast⟩ : ∃ s, q[q.length - 1]? = some s :=
        ⟨_, List.getElem?_eq_getElem (by omega)⟩
      have := (h _ _ hlast).2
      omega
  · rintro ⟨hi, hl⟩ i s hs
    obtain ⟨hlt, rfl⟩ := List.getElem?_eq_some_iff.1 hs
    have := hl (List.ne_nil_of_length_pos (by omega))
    exact ⟨hi _ (List.getElem_mem hlt), by omega⟩

namespace FileSystem

variable {fs fs' : FileSystem} {e : AtEnd} {place : Place} {path root s : String}
  {q : List String} {i : FileItem}

/-! ## Places that can be looked up -/

/-- Where the paths below a root start. -/
def startOf (fs : FileSystem) (root : String) : Place :=
  if Text.startsWith root "/" then [] else fs.workingPlace

/-- A path below a root is followed along the steps of the root and then the names. -/
theorem walks_of_placeOf (hq : AreNames q) (h : fs.placeOf e (below root q) = .ok place) :
    ∃ fuel, fs.Walks e fuel 0 (fs.startOf root) (steps root ++ q) place := by
  obtain ⟨-, -, hw⟩ := placeOf_eq_ok_iff.1 h
  rw [Disk.startsWith_below root hq] at hw
  rcases Disk.segments_below_or_dot root hq with he | ⟨hdot, he⟩
  · rw [he] at hw
    exact ⟨_, hw⟩
  · rw [hdot, show Path.segments "." = ["."] by decide] at hw
    rw [he, hw.of_dot]
    exact ⟨0, .stop⟩

/-- Names lead from a path through directories to something, and every path on the way can be
looked up. -/
inductive Readable (fs : FileSystem) : String → List String → FileItem → Prop
  | here {path : String} {place : Place} {i : FileItem} (h : fs.stat path = .ok (place, i)) :
      Readable fs path [] i
  | inside {path s : String} {rest : List String} {place : Place} {i : FileItem}
      (hd : fs.stat path = .ok (place, .directory)) (hs : Path.isName s = true)
      (h : Readable fs (below path [s]) rest i) : Readable fs path (s :: rest) i

/-- A name that can be looked up in a directory is one of those that are found in it. -/
theorem mem_namesIn_of_stat {x : Place × FileItem} (hp : tidied path = path)
    (hs : Path.isName s = true) (hd : fs.stat path = .ok (place, i))
    (hx : fs.stat (below path [s]) = .ok x) : s ∈ fs.namesIn place := by
  obtain ⟨r, j⟩ := x
  obtain ⟨hplace, -⟩ := stat_eq_ok_iff.1 hd
  obtain ⟨hr, hj⟩ := stat_eq_ok_iff.1 hx
  rw [← hp, ← Disk.below_eq_tidied] at hplace
  obtain ⟨_, hw⟩ := walks_of_placeOf .nil hplace
  obtain ⟨_, hw'⟩ := walks_of_placeOf (AreNames.singleton_iff.2 hs) hr
  obtain ⟨fuel, links, mid, hfirst, hlast⟩ := hw'.of_append (List.cons_ne_nil s [])
  rw [List.append_nil] at hw
  obtain rfl := hfirst.unique hw
  rw [mem_namesIn_iff]
  obtain ⟨hne, hdot, hdots, -⟩ := Path.isName_iff.1 hs
  cases hlast with
  | skip hn _ => exact absurd hn (by simp [hne, hdot])
  | up => exact absurd rfl hdots
  | last => exact ⟨j, hj⟩
  | enter _ hd _ => exact ⟨_, hd⟩
  | along _ hl _ _ _ => exact ⟨_, hl⟩

namespace Readable

theorem directory_of_cons {rest : List String} (h : fs.Readable path (s :: rest) i) :
    ∃ p, fs.stat path = .ok (p, .directory) := by
  cases h with
  | inside hd => exact ⟨_, hd⟩

/-- One name more can be looked up when it can be looked up in a directory. -/
theorem concat_iff (hp : tidied path = path) : fs.Readable path (q ++ [s]) i ↔
    fs.Readable path q .directory ∧ Path.isName s = true ∧
      ∃ p, fs.stat (Disk.below path (q ++ [s])) = .ok (p, i) := by
  induction q generalizing path with
  | nil =>
    constructor
    · rintro (- | ⟨hd, hs, ⟨h⟩⟩)
      exact ⟨.here hd, hs, _, h⟩
    · rintro ⟨⟨hd⟩, hs, p, h⟩
      exact .inside hd hs (.here h)
  | cons t rest ih =>
    have hstep : Path.isName t = true → (fs.Readable (Disk.below path [t]) (rest ++ [s]) i ↔
        fs.Readable (Disk.below path [t]) rest .directory ∧ Path.isName s = true ∧
          ∃ p, fs.stat (Disk.below path (t :: rest ++ [s])) = .ok (p, i)) := by
      intro ht
      have hname : AreNames [t] := AreNames.singleton_iff.2 ht
      rw [ih (Disk.tidied_below path hname), Disk.below_below path hname, List.singleton_append,
        List.cons_append]
    constructor
    · rintro (- | ⟨hd, ht, h⟩)
      obtain ⟨hr, hs, hstat⟩ := (hstep ht).1 h
      exact ⟨.inside hd ht hr, hs, hstat⟩
    · rintro ⟨- | ⟨hd, ht, hr⟩, hs, hstat⟩
      exact .inside hd ht ((hstep ht).2 ⟨hr, hs, hstat⟩)

theorem stat (h : fs.Readable path q i) (hp : tidied path = path) :
    ∃ p, fs.stat (Disk.below path q) = .ok (p, i) := by
  induction h with
  | here h => exact ⟨_, by rwa [Disk.below_eq_tidied, hp]⟩
  | inside _ hs _ ih =>
    have hname : AreNames [_] := AreNames.singleton_iff.2 hs
    obtain ⟨p, h⟩ := ih (Disk.tidied_below _ hname)
    rw [Disk.below_below _ hname] at h
    exact ⟨p, h⟩

theorem areNames (h : fs.Readable path q i) : AreNames q := by
  induction h with
  | here => exact .nil
  | inside _ hs _ ih => exact List.forall_mem_cons.2 ⟨hs, ih⟩

theorem of_growsTo (h : fs.Readable path q i) (hg : fs.GrowsTo fs') : fs'.Readable path q i := by
  induction h with
  | here h => exact .here (hg.stat h)
  | inside hd hs _ ih => exact .inside (hg.stat hd) hs ih

end Readable

end FileSystem

namespace LocalDisk

open FileSystem (Readable)

variable {fs : FileSystem} {limits : LocalLimits} {limit : Int} {now : Timestamp} {depth : Nat}
  {path root : String} {q : List String} {c : Option String} {F : List DiskEntry} {i : FileItem}

/-! ## Listings -/

/-- What a listing shows of something: the text of a file as far as it is read, nothing of a
directory. A path that is looked up does not end at a link. -/
def shown? (limit : Int) : FileItem → Option (Option String)
  | .file octets => some (some (if octets.length < limit then Text.decodeLossy octets else ""))
  | .directory => some none
  | .link _ => none

/-- The entry of what a name leads to, with the entries in it. -/
def entryOf (fs : FileSystem) (limit : Int) (now : Timestamp) (depth : Nat) (path name : String) :
    FileItem → Option DiskEntry
  | .directory => some (.directory name now (entriesOf fs limit now depth (below path [name])))
  | .file octets =>
    some (.file name (if octets.length < limit then Text.decodeLossy octets else "") octets.length
      now)
  | .link _ => none

/-- The entries of a directory are those of the names that can be looked up in it and are not
ignored. -/
theorem mem_entriesOf_iff (hfs : fs.Named) (hp : tidied path = path) {e : DiskEntry} :
    e ∈ entriesOf fs limit now (depth + 1) path ↔ ∃ name i, name ∉ ignored ∧
      fs.Readable path [name] i ∧ entryOf fs limit now depth path name i = some e := by
  rw [entriesOf]
  constructor
  · intro he
    split at he
    · next place hd =>
      obtain ⟨name, hmem, he⟩ := List.mem_filterMap.1 he
      obtain ⟨hmem, hi⟩ := List.mem_filter.1 hmem
      have hname := hfs.mem_namesIn hmem
      have hi : name ∉ ignored := by simpa using hi
      dsimp only at he
      split at he
      · next h => exact ⟨name, .directory, hi, .inside hd hname (.here h), he⟩
      · next h => exact ⟨name, .file _, hi, .inside hd hname (.here h), he⟩
      · cases he
    · cases he
  · rintro ⟨name, i, hi, - | ⟨hd, hname, ⟨h⟩⟩, he⟩
    have hmem := FileSystem.mem_namesIn_of_stat hp hname hd h
    rw [hd]
    refine List.mem_filterMap.2 ⟨name, List.mem_filter.2 ⟨hmem, by simpa using hi⟩, ?_⟩
    cases i with
    | link target => cases he
    | _ => simpa only [h, entryOf] using he

theorem shown_of_entryOf {name : String} {e : DiskEntry}
    (he : entryOf fs limit now depth path name i = some e) :
    e.name = name ∧ shown? limit i = some e.shown := by
  cases i with
  | link target => cases he
  | _ =>
    obtain rfl := Option.some.inj he
    exact ⟨rfl, rfl⟩

theorem exists_entryOf (fs : FileSystem) (now : Timestamp) (depth : Nat) (path name : String)
    (hc : shown? limit i = some c) :
    ∃ e, entryOf fs limit now depth path name i = some e := by
  cases i with
  | link target => cases hc
  | _ => exact ⟨_, rfl⟩

/-- The entries down to a depth are those of what can be looked up on ways that are not longer and
on which nothing is ignored. -/
theorem lists_entriesOf_iff (hfs : fs.Named) (hp : tidied path = path) :
    Lists (entriesOf fs limit now depth path) q c ↔
      q ≠ [] ∧ (∃ i, fs.Readable path q i ∧ shown? limit i = some c) ∧ q.length ≤ depth ∧
        ∀ s ∈ q, s ∉ ignored := by
  induction depth generalizing path q with
  | zero =>
    refine ⟨fun hl => absurd hl not_lists_nil, fun ⟨hne, _, hlen, _⟩ => ?_⟩
    exact absurd (List.eq_nil_of_length_eq_zero (Nat.le_zero.1 hlen)) hne
  | succ depth ih =>
    constructor
    · intro hl
      cases hl with
      | here he =>
        obtain ⟨name, i, hi, hr, he⟩ := (mem_entriesOf_iff hfs hp).1 he
        obtain ⟨rfl, hc⟩ := shown_of_entryOf he
        exact ⟨List.cons_ne_nil _ _, ⟨i, hr, hc⟩, by simp, by simpa using hi⟩
      | inside he hl =>
        obtain ⟨name, i, hi, - | ⟨hd, hname, -⟩, he⟩ := (mem_entriesOf_iff hfs hp).1 he
        cases i with
        | directory =>
          obtain ⟨rfl, -, rfl⟩ := DiskEntry.directory.inj (Option.some.inj he)
          have hp' := Disk.tidied_below path (AreNames.singleton_iff.2 hname)
          obtain ⟨-, ⟨j, hr, hc⟩, hlen, hnone⟩ := (ih hp').1 hl
          exact ⟨List.cons_ne_nil _ _, ⟨j, .inside hd hname hr, hc⟩, Nat.succ_le_succ hlen,
            List.forall_mem_cons.2 ⟨hi, hnone⟩⟩
        | file octets => cases Option.some.inj he
        | link target => cases he
    · rintro ⟨hne, ⟨i, hr, hc⟩, hlen, hnone⟩
      cases hr with
      | here => exact absurd rfl hne
      | @inside _ name rest place _ hd hname hr =>
        obtain ⟨hi, hnone⟩ := List.forall_mem_cons.1 hnone
        cases rest with
        | nil =>
          obtain ⟨e, he⟩ := exists_entryOf fs now depth path name hc
          obtain ⟨rfl, hshown⟩ := shown_of_entryOf he
          obtain rfl := Option.some.inj (hc.symm.trans hshown)
          exact .here ((mem_entriesOf_iff hfs hp).2 ⟨_, i, hi, .inside hd hname hr, he⟩)
        | cons t rest =>
          obtain ⟨p, hdir⟩ := hr.directory_of_cons
          have hp' := Disk.tidied_below path (AreNames.singleton_iff.2 hname)
          refine .inside ((mem_entriesOf_iff hfs hp).2 ⟨name, .directory, hi,
            .inside hd hname (.here hdir), rfl⟩) ((ih hp').2 ⟨List.cons_ne_nil _ _, ⟨i, hr, hc⟩,
              Nat.le_of_succ_le_succ hlen, hnone⟩)

/-- The bridge reports what lies at a place exactly when it can be looked up and the bridge says of
every name on the way that it is listed at its depth. -/
theorem lists_list_iff (hfs : fs.Named) (hl : list limits now root fs = .ok F) : Lists F q c ↔
    q ≠ [] ∧ (∃ i, fs.Readable (tidied root) q i ∧ shown? limits.maxFileBytes i = some c) ∧
      (bridge limits).Covers q := by
  unfold list at hl
  dsimp only at hl
  split at hl
  · cases hl
  · cases hl
  · obtain rfl := Except.ok.inj hl
    rw [lists_entriesOf_iff hfs (Disk.tidied_tidied root), Bridge.covers_iff rfl]
    refine and_congr_right fun hne => and_congr_right fun _ => ?_
    have hpos := List.length_pos_iff.2 hne
    have hdepth : q.length ≤ limits.maxDepth.toNat ↔ (q.length : Int) ≤ limits.maxDepth := by omega
    rw [hdepth, and_comm]
    exact and_congr_right fun _ => ⟨fun h _ => h, fun h => h hne⟩

/-! ## What is found below a root -/

/-- A file or a directory lies at a place below a root, and can be looked up there. -/
def Found (fs : FileSystem) (root : String) (q : List String) : Prop :=
  ∃ i, fs.Readable (tidied root) q i ∧ ∀ target, i ≠ .link target

theorem exists_shown?_iff : (∃ c, shown? limit i = some c) ↔ ∀ target, i ≠ .link target := by
  cases i <;> simp [shown?]

theorem exists_lists_iff (hfs : fs.Named) (hl : list limits now root fs = .ok F) :
    (∃ c, Lists F q c) ↔ q ≠ [] ∧ Found fs root q ∧ (bridge limits).Covers q := by
  simp only [lists_list_iff hfs hl]
  constructor
  · rintro ⟨c, hne, ⟨i, hr, hc⟩, hcovers⟩
    exact ⟨hne, ⟨i, hr, exists_shown?_iff.1 ⟨c, hc⟩⟩, hcovers⟩
  · rintro ⟨hne, ⟨i, hr, hi⟩, hcovers⟩
    obtain ⟨c, hc⟩ := exists_shown?_iff.2 hi
    exact ⟨c, hne, ⟨i, hr, hc⟩, hcovers⟩

/-- There is a listing of every root that is a directory. -/
theorem exists_list_iff : (∃ F, list limits now root fs = .ok F) ↔
    Disk.holdsNul (tidied root) = false ∧ fs.Readable (tidied root) [] .directory := by
  have hdir : fs.isDirectory? (tidied root) = .ok true ↔
      Disk.holdsNul (tidied root) = false ∧ fs.Readable (tidied root) [] .directory := by
    unfold FileSystem.isDirectory? FileSystem.leadsTo
    constructor
    · intro h
      split at h
      · cases h
      · next hnul =>
        split at h
        · next place i hstat =>
          obtain rfl : i = .directory := by simpa using h
          exact ⟨by simpa using hnul, .here hstat⟩
        · next f _ =>
          split at h <;> cases h
    · rintro ⟨hnul, ⟨hstat⟩⟩
      simp [hnul, hstat]
  rw [← hdir]
  unfold list
  constructor
  · rintro ⟨F, h⟩
    dsimp only at h
    split at h
    · cases h
    · cases h
    · next hd => exact hd
  · intro hd
    dsimp only
    rw [hd]
    exact ⟨_, rfl⟩

end LocalDisk

end Workbench
