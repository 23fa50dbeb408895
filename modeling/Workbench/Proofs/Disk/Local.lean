import Workbench.Disk.Local
import Workbench.Proofs.Disk.Files
import Workbench.Proofs.Disk.Path

/-!
# Calls to the local file system that are done

What a call that is answered as done has changed. The calls that create something look first
whether their place is free, so they only add files and directories. A file that is written, or
taken elsewhere, or deleted, is told by the place that its path leads to.
-/

namespace Workbench.LocalDisk

open FileSystem (GrowsTo rebased)

variable {fs fs' : FileSystem} {limits : LocalLimits}
  {path taken old new parent name content : String} {a : Option String} {go : Ending}

theorem done_of_unlessTaken (h : unlessTaken fs path taken go = (.ok (.done a), fs')) :
    fs.exists? path = .ok false ∧ go = (.ok (.done a), fs') := by
  unfold unlessTaken at h
  split at h
  · cases h
  · cases h
  · next he => exact ⟨he, h⟩

theorem done_of_conclude {x : Except String FileSystem}
    (h : conclude fs x path = (.ok (.done a), fs')) : x = .ok fs' := by
  unfold conclude at h
  split at h
  · rw [(Prod.mk.inj h).2]
  · cases h

theorem done_of_write (h : write fs path content taken = (.ok (.done a), fs')) :
    Disk.holdsNul path = false ∧ fs.write path (Text.octets content) = .ok fs' := by
  unfold write at h
  split at h
  · cases h
  · next hn => exact ⟨by simpa using hn, mapError_eq_ok.1 (done_of_conclude h)⟩

/-- A file that is created is new, and is read as it was given. -/
theorem done_of_createFile (h : perform (.createFile parent name content) fs =
    (.ok (.done a), fs')) :
    fs.GrowsTo fs' ∧ fs'.read (Disk.seenFrom parent name) = .ok (Text.octets content) := by
  obtain ⟨he, h⟩ := done_of_unlessTaken h
  obtain ⟨hn, hw⟩ := done_of_write h
  exact FileSystem.write_new hw he hn

theorem done_of_createDirectory (h : perform (.createDirectory parent name) fs =
    (.ok (.done a), fs')) :
    fs.GrowsTo fs' ∧ ∃ p, fs'.stat (Disk.seenFrom parent name) = .ok (p, .directory) := by
  obtain ⟨-, h⟩ := done_of_unlessTaken h
  split at h
  · cases h
  · have hg := fs.growsTo_makeDirectories false
      ((Path.segments (Disk.seenFrom parent name)).length + 1) (Disk.seenFrom parent name)
    split at h
    · next he =>
      obtain rfl := (Prod.mk.inj h).2
      have hstat := FileSystem.stat_of_makePath he
      rw [FileSystem.makePath] at he
      rw [he] at hg
      exact ⟨hg, hstat⟩
    · cases h

/-- What is deleted goes with all that lies below it. -/
theorem done_of_delete (h : perform (.delete path) fs = (.ok (.done a), fs')) : ∃ p i,
    fs.placeOf .stay (Disk.tidied path) = .ok p ∧ p ≠ [] ∧ fs.item? p = some i ∧
      fs' = fs.removeAt p := by
  simp only [perform, delete] at h
  split at h
  · cases h
  · split at h
    · cases h
    · next p hp =>
      split at h
      · next hd =>
        split at h
        · next he =>
          unfold FileSystem.removeTree at he
          split at he
          · next hn =>
            refine ⟨p, .directory, hp, FileSystem.ne_nil_of_endsNamed hn hp, beq_iff_eq.1 hd, ?_⟩
            rw [← (Prod.mk.inj h).2, ← (Prod.mk.inj he).2]
          · cases he
        · cases h
      · cases h
  · split at h
    · cases h
    · obtain ⟨p, i, hp, hi, hd, he⟩ :=
        FileSystem.unlink_eq_ok (mapError_eq_ok.1 (done_of_conclude h))
      have hp' : p ≠ [] :=
        FileSystem.ne_nil_of_item? fun hdir => hd (Option.some.inj (hi.symm.trans hdir))
      exact ⟨p, i, hp, hp', hi, he⟩

/-- What is taken to another path leaves nothing where it was and overwrites nothing but a link. -/
theorem done_of_relocate (hg : fs.Grounded) (h : relocate fs old new = (.ok (.done a), fs')) :
    ∃ p q, fs.placeOf .stay (Disk.tidied old) = .ok p ∧
      fs.placeOf .stay (Disk.tidied new) = .ok q ∧ fs.Taken fs' p q ∧
        ∀ {r i}, fs.item? r = some i → (∀ t, i ≠ .link t) →
          fs'.item? (rebased p q r) = some i := by
  obtain ⟨he, h⟩ := done_of_unlessTaken h
  split at h
  · cases h
  · next hn =>
    simp only [Bool.or_eq_true, not_or, Bool.not_eq_true] at hn
    obtain ⟨p, q, hp, hq, htaken⟩ :=
      FileSystem.taken_of_rename hg (mapError_eq_ok.1 (done_of_conclude h))
    refine ⟨p, q, hp, hq, htaken, fun {r i} hr hi => htaken.kept hr ?_⟩
    -- whatever is at the new place, and is no link, would have been seen
    rintro rfl
    have hfollow := FileSystem.placeOf_follow hq fun _ t ht =>
      hi t (Option.some.inj (hr.symm.trans ht))
    rw [FileSystem.item?_of_exists? he hn.2 hfollow] at hr
    cases hr

/-- A file that is written keeps the others as they are. -/
theorem done_of_writeFile (h : perform (.writeFile path content) fs = (.ok (.done a), fs')) :
    ∃ p, fs.placeOf .follow (Disk.tidied path) = .ok p ∧ p ≠ [] ∧
      fs' = fs.put p (.file (Text.octets content)) := by
  obtain ⟨-, hw⟩ := done_of_write h
  obtain ⟨p, hp, hd, rfl⟩ := FileSystem.write_eq_ok_iff.1 hw
  exact ⟨p, FileSystem.placeOf_follow hp fun h => (nomatch h), FileSystem.ne_nil_of_item? hd, rfl⟩

end Workbench.LocalDisk
