import Mathlib.Data.List.Nodup
import Workbench.Proofs.Disk.Entries
import Workbench.Proofs.Disk.Local
import Workbench.Proofs.Path
import Workbench.Proofs.World.Seen
import Workbench.Terminal.Store

/-!
# Names in a file system

Whatever lies in a file system has a name in its directory: a text that is not empty, is not one of
the dots and holds no slash (`FileSystem.Named`). A path is followed along such names only, so that
no call brings others (`LocalDisk.named_perform`), and what is listed is proper
(`LocalDisk.properListing_list`).
-/

namespace Workbench

open Workbench.Path (AreNames)

namespace FileSystem

variable {fs fs' : FileSystem} {e : AtEnd} {fuel links : Nat} {p q place : Place} {i : FileItem}
  {path old new : String} {names : List String} {octets : List Nat}

/-- On the way to everything there are names. -/
structure Named (fs : FileSystem) : Prop where
  items : ∀ {p i}, fs.items.get? p = some i → AreNames p
  start : AreNames fs.workingPlace

theorem AreNames.cons {s : String} (hs : Path.isName s = true) (hp : AreNames p) :
    AreNames (s :: p) :=
  List.forall_mem_cons.2 ⟨hs, hp⟩

theorem Enters.isName {name : String} {rest : List String} (h : Enters e name rest)
    (hs : '/' ∉ name.toList) : Path.isName name = true :=
  Path.isName_iff.2 ⟨h.ne_empty, h.ne_dot, h.ne_dots, hs⟩

theorem no_slash_of_mem_namesOf {target s : String} (h : s ∈ namesOf target) :
    '/' ∉ s.toList := by
  rw [namesOf, List.mem_append] at h
  rcases h with h | h
  · exact (Path.of_mem_segments h).2
  · split at h
    · obtain rfl := List.mem_singleton.1 h
      exact List.not_mem_nil
    · cases h

/-- Words without slashes lead along names. -/
theorem Walks.areNames (h : fs.Walks e fuel links place names q) (hp : AreNames place)
    (hs : ∀ s ∈ names, '/' ∉ s.toList) : AreNames q := by
  induction h with
  | stop => exact hp
  | skip _ _ ih => exact ih hp fun s hmem => hs s (List.mem_cons_of_mem _ hmem)
  | up _ ih =>
    apply ih
    · exact fun s hmem => hp s (List.mem_of_mem_tail hmem)
    · exact fun s hmem => hs s (List.mem_cons_of_mem _ hmem)
  | last hn _ => exact AreNames.cons (hn.isName (hs _ List.mem_cons_self)) hp
  | enter hn _ _ ih =>
    apply ih
    · exact AreNames.cons (hn.isName (hs _ List.mem_cons_self)) hp
    · exact fun s hmem => hs s (List.mem_cons_of_mem _ hmem)
  | along _ _ _ _ _ ih =>
    apply ih
    · split
      · exact Path.AreNames.nil
      · exact hp
    · intro s hmem
      rcases List.mem_append.1 hmem with hmem | hmem
      · exact no_slash_of_mem_namesOf hmem
      · exact hs s (List.mem_cons_of_mem _ hmem)

theorem mem_namesIn_iff {s : String} : s ∈ fs.namesIn p ↔ ∃ i, fs.item? (s :: p) = some i := by
  unfold namesIn
  rw [List.mem_mergeSort, List.mem_filterMap]
  constructor
  · rintro ⟨q, hq, hs⟩
    obtain ⟨i, hi⟩ := Table.mem_keys_iff.1 hq
    cases q with
    | nil => cases hs
    | cons name above =>
      dsimp only at hs
      split at hs
      · next habove =>
        obtain rfl := beq_iff_eq.1 habove
        obtain rfl := Option.some.inj hs
        exact ⟨i, hi⟩
      · cases hs
  · rintro ⟨i, hi⟩
    exact ⟨s :: p, Table.mem_keys_iff.2 ⟨i, hi⟩, if_pos (beq_self_eq_true p)⟩

namespace Named

theorem placeOf (h : fs.Named) (hp : fs.placeOf e path = .ok p) : AreNames p := by
  obtain ⟨-, -, hw⟩ := placeOf_eq_ok_iff.1 hp
  apply hw.areNames
  · split
    · exact Path.AreNames.nil
    · exact h.start
  · exact fun s hs => (Path.of_mem_segments hs).2

theorem put (h : fs.Named) (hp : AreNames p) (i : FileItem) : (fs.put p i).Named where
  items hq := Table.forall_insert (P := fun q _ => AreNames q) h.items hp hq
  start := h.start

theorem removeAt (h : fs.Named) (p : Place) : (fs.removeAt p).Named where
  items hq := h.items (Table.get?_filter_iff.1 hq).1
  start := h.start

theorem write (h : fs.Named) (hw : fs.write path octets = .ok fs') : fs'.Named := by
  obtain ⟨p, hp, -, rfl⟩ := write_eq_ok_iff.1 hw
  exact h.put (h.placeOf hp) _

theorem makeDirectory (h : fs.Named) (hm : fs.makeDirectory path = .ok fs') : fs'.Named := by
  obtain ⟨p, hp, hm⟩ := bind_eq_ok.1 hm
  split at hm
  · cases hm
  · obtain rfl := Except.ok.inj hm
    exact h.put (h.placeOf hp) _

theorem makePath (h : fs.Named) (mayExist : Bool) (path : String) :
    (fs.makePath mayExist path).2.Named :=
  makeDirectories_invariant (fun hn hm => hn.makeDirectory hm) h mayExist _ path

theorem unlink (h : fs.Named) (hu : fs.unlink path = .ok fs') : fs'.Named := by
  obtain ⟨p, i, -, -, -, rfl⟩ := unlink_eq_ok hu
  exact h.removeAt p

theorem rename (h : fs.Named) (hr : fs.rename old new = .ok fs') : fs'.Named := by
  obtain ⟨p, q, -, hq, hcases⟩ := rename_eq_ok hr
  rcases hcases with ⟨-, rfl⟩ | ⟨-, -, rfl⟩
  · exact h
  refine ⟨fun {r i} hi => ?_, h.start⟩
  have hkey := Table.mem_keys_iff.2 ⟨i, hi⟩
  rcases Table.of_mem_keys_insertMany hkey with hempty | hmoved
  · cases hempty
  rw [List.map_map] at hmoved
  obtain ⟨⟨r, j⟩, hmem, rfl⟩ := List.mem_map.1 hmoved
  have hr : AreNames r :=
    h.items (Table.get?_filter_iff.1 (Table.mem_entries_iff.1 hmem)).1
  simp only [Function.comp_apply, rebased]
  split
  · apply Path.AreNames.append_iff.2
    exact ⟨fun s hs => hr s (List.mem_of_mem_take hs), h.placeOf hq⟩
  · exact hr

theorem removeTree (h : fs.Named) (hp : AreNames p) (path : String) :
    (fs.removeTree p path).2.Named := by
  unfold FileSystem.removeTree
  split
  · exact h.removeAt p
  · dsimp only
    split
    · exact h.removeAt p
    · exact (h.removeAt p).put hp .directory

theorem mem_namesIn (h : fs.Named) {s : String} (hs : s ∈ fs.namesIn p) :
    Path.isName s = true := by
  obtain ⟨i, hi⟩ := mem_namesIn_iff.1 hs
  exact h.items hi s List.mem_cons_self

end Named

theorem nodup_namesIn (fs : FileSystem) (p : Place) : (fs.namesIn p).Nodup := by
  unfold namesIn
  rw [(List.mergeSort_perm _ _).nodup_iff]
  refine List.Nodup.filterMap ?_ fs.items.nodup
  have hplace : ∀ {name s : String} {above : Place},
      s ∈ (if above == p then some name else none) → name = s ∧ above = p := by
    intro name s above hs
    split at hs
    · next habove => exact ⟨Option.some.inj hs, beq_iff_eq.1 habove⟩
    · cases hs
  intro q q' s hq hq'
  cases q with
  | nil => cases hq
  | cons name above =>
    cases q' with
    | nil => cases hq'
    | cons name' above' =>
      obtain ⟨rfl, rfl⟩ := hplace hq
      obtain ⟨rfl, rfl⟩ := hplace hq'
      rfl

end FileSystem

namespace LocalDisk

variable {fs : FileSystem} {path taken : String} {go : Ending}

/-! ## Calls -/

theorem named_unlessTaken (h : fs.Named) (hgo : go.2.Named) :
    (unlessTaken fs path taken go).2.Named := by
  unfold unlessTaken
  split
  · exact h
  · exact h
  · exact hgo

theorem named_conclude (h : fs.Named) {x : Except String FileSystem}
    (hx : ∀ fs', x = .ok fs' → fs'.Named) (path : String) : (conclude fs x path).2.Named := by
  unfold conclude
  split
  · next fs' => exact hx fs' rfl
  · exact h

theorem named_write (h : fs.Named) (path content answer : String) :
    (write fs path content answer).2.Named := by
  unfold write
  split
  · exact h
  · apply named_conclude h
    intro fs' hw
    exact h.write (mapError_eq_ok.1 hw)

theorem named_delete (h : fs.Named) (path : String) : (delete fs path).2.Named := by
  unfold delete
  dsimp only
  split
  · exact h
  · split
    · exact h
    · next p hp =>
      split
      · have hremoved := h.removeTree (h.placeOf hp) (Disk.tidied path)
        split
        · next he =>
          rw [he] at hremoved
          exact hremoved
        · next he =>
          rw [he] at hremoved
          exact hremoved
      · exact h
  · split
    · exact h
    · apply named_conclude h
      intro fs' hu
      exact h.unlink (mapError_eq_ok.1 hu)

theorem named_relocate (h : fs.Named) (old new : String) : (relocate fs old new).2.Named := by
  unfold relocate
  apply named_unlessTaken h
  split
  · exact h
  · apply named_conclude h
    intro fs' hr
    exact h.rename (mapError_eq_ok.1 hr)

/-- No call brings anything that has no name, whether or not it is done. -/
theorem named_perform (h : fs.Named) (call : DiskCall) : (perform call fs).2.Named := by
  cases call with
  | createFile parent name content => exact named_unlessTaken h (named_write h ..)
  | createDirectory parent name =>
    apply named_unlessTaken h
    split
    · exact h
    · have hmade := h.makePath false (Disk.seenFrom parent name)
      split
      · next he =>
        rw [he] at hmade
        exact hmade
      · next he =>
        rw [he] at hmade
        exact hmade
  | delete path => exact named_delete h path
  | rename old new => exact named_relocate h old new
  | move old new => exact named_relocate h old new
  | writeFile path content => exact named_write h ..

/-! ## Listings -/

/-- Proper entries under different names, of which some may be left out. -/
theorem properListing_filterMap {f : String → Option DiskEntry} {names : List String}
    (hnames : names.Nodup) (hf : ∀ s ∈ names, ∀ e, f s = some e → e.name = s ∧ e.Proper) :
    ProperListing (names.filterMap f) := by
  induction names with
  | nil => exact ⟨List.nodup_nil, fun e he => nomatch he⟩
  | cons s rest ih =>
    obtain ⟨hs, hrest⟩ := List.nodup_cons.1 hnames
    have hrest := ih hrest fun t ht => hf t (List.mem_cons_of_mem s ht)
    cases he : f s with
    | none => rwa [List.filterMap_cons_none he]
    | some e =>
      obtain ⟨rfl, hproper⟩ := hf s List.mem_cons_self e he
      rw [List.filterMap_cons_some he]
      refine ⟨?_, List.forall_mem_cons.2 ⟨hproper, hrest.entries⟩⟩
      rw [List.map_cons, List.nodup_cons]
      refine ⟨fun hmem => hs ?_, hrest.nodup⟩
      -- every entry has the name that it was made for
      obtain ⟨d, hd, hname⟩ := List.mem_map.1 hmem
      obtain ⟨t, ht, hft⟩ := List.mem_filterMap.1 hd
      obtain ⟨rfl, -⟩ := hf t (List.mem_cons_of_mem _ ht) d hft
      exact hname ▸ ht

theorem properListing_entriesOf (h : fs.Named) (limit : Int) (now : Timestamp) (depth : Nat)
    (path : String) : ProperListing (entriesOf fs limit now depth path) := by
  induction depth generalizing path with
  | zero => exact ⟨List.nodup_nil, fun e he => nomatch he⟩
  | succ depth ih =>
    rw [entriesOf]
    split
    · next place _ =>
      apply properListing_filterMap ((fs.nodup_namesIn place).filter _)
      intro s hs e he
      have hname := h.mem_namesIn (List.mem_filter.1 hs).1
      dsimp only at he
      split at he
      · obtain rfl := Option.some.inj he
        have hbelow := ih (Disk.below path [s])
        exact ⟨rfl, .directory hname hbelow.nodup hbelow.entries⟩
      · obtain rfl := Option.some.inj he
        exact ⟨rfl, .file hname⟩
      · cases he
    · exact ⟨List.nodup_nil, fun e he => nomatch he⟩

/-- What is listed is proper, whatever the path. -/
theorem properListing_list (h : fs.Named) {limits : LocalLimits} {now : Timestamp} {root : String}
    {F : List DiskEntry} (hl : list limits now root fs = .ok F) : ProperListing F := by
  unfold list at hl
  dsimp only at hl
  split at hl
  · cases hl
  · cases hl
  · obtain rfl := Except.ok.inj hl
    exact properListing_entriesOf h ..

/-! ## The bridge -/

/-- The bridge to a local file system with its names. -/
def namedBridge (limits : LocalLimits) : Bridge { fs : FileSystem // fs.Named } where
  ignored := ignored
  maxDepth := some limits.maxDepth
  list now root d := (list limits now root d.1, d)
  perform _ call d := ((perform call d.1).1, ⟨(perform call d.1).2, named_perform d.2 call⟩)

theorem lawful_namedBridge (limits : LocalLimits) : (namedBridge limits).Lawful := by
  intro now root d F d' hl
  simp only [namedBridge] at hl
  exact properListing_list d.2 (Prod.mk.inj hl).1

theorem shows_namedBridge (limits : LocalLimits) (now : Timestamp) :
    Host.Shows ⟨some (namedBridge limits), now⟩ Subtype.val ⟨some (bridge limits), now⟩ := by
  have hignored : (namedBridge limits).ignored = (bridge limits).ignored := rfl
  apply Host.Shows.bridged hignored
  · rfl
  · intro now root d
    simp only [namedBridge, bridge]
  · intro now call d
    simp only [namedBridge, bridge]

end LocalDisk

/-! ## The file of a session -/

theorem Store.named_save {fs : FileSystem} (h : fs.Named) (path : Option String) (d : Desk) :
    (Store.save fs path d).2.Named := by
  unfold save
  split
  · exact h
  next p =>
  unfold write
  dsimp only
  split
  · exact h
  have hmade := h.makePath true (Disk.parent (Disk.tidied p))
  split
  · next he =>
    rw [he] at hmade
    exact hmade
  · next he =>
    rw [he] at hmade
    split
    · exact hmade
    · split
      · next hw => exact FileSystem.Named.write hmade hw
      · exact hmade

end Workbench
