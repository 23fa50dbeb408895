import Workbench.Proofs.Disk.Readable

/-!
# Disks without links

Where there are no links, names lead straight down: what they lead to lies below the place where
they start, under just these names (`FileSystem.Walks.straight`). So a path keeps leading where it
led as long as the directories on the way are there (`FileSystem.Walks.of_directories`), and
whatever could be looked up below a path is there below the path to which it has been taken
(`LocalDisk.stat_of_relocate`).
-/

namespace Workbench

open Disk (below steps tidied)
open Workbench.Path (AreNames)

namespace FileSystem

variable {fs fs' : FileSystem} {e : AtEnd} {fuel links : Nat} {p q place : Place}
  {names : List String} {s root : String} {i : FileItem}

/-- Everything lies in a directory, and no link lies anywhere. -/
structure Straight (fs : FileSystem) : Prop where
  grounded : fs.Grounded
  linkless : ∀ p t, fs.item? p ≠ some (.link t)

/-! ## Walks along names -/

theorem Walks.straight (hfs : fs.Straight) (hn : AreNames names)
    (h : fs.Walks e fuel links place names q) :
    q = names.reverse ++ place ∧ ∀ s ∈ names, s.utf8ByteSize ≤ nameLimit := by
  induction h with
  | stop => exact ⟨rfl, fun _ h => nomatch h⟩
  | skip hskip _ _ =>
    obtain ⟨hne, hdot, -⟩ := Path.isName_iff.1 (hn _ List.mem_cons_self)
    exact absurd hskip (by simp [hne, hdot])
  | up _ _ => exact absurd (hn _ List.mem_cons_self) (by decide)
  | last henters _ => exact ⟨rfl, List.forall_mem_singleton.2 henters.size⟩
  | enter henters _ _ ih =>
    obtain ⟨rfl, hsize⟩ := ih fun s hs => hn s (List.mem_cons_of_mem _ hs)
    exact ⟨by simp, List.forall_mem_cons.2 ⟨henters.size, hsize⟩⟩
  | along _ hl _ _ _ _ => exact absurd hl (hfs.linkless _ _)

/-- The way to a directory stays open as long as the directories on it are there. -/
theorem Walks.of_directories (hfs : fs.Straight) (hn : AreNames names)
    (h : fs.Walks e fuel links place names q) (hq : fs.item? q = some .directory)
    (hkept : ∀ r, r <:+ q → fs.item? r = some .directory → fs'.item? r = some .directory)
    (more : Nat) : fs'.Walks e (more + names.length) links place names q := by
  induction h with
  | stop => exact .stop
  | skip hskip _ _ =>
    obtain ⟨hne, hdot, -⟩ := Path.isName_iff.1 (hn _ List.mem_cons_self)
    exact absurd hskip (by simp [hne, hdot])
  | up _ _ => exact absurd (hn _ List.mem_cons_self) (by decide)
  | last henters _ =>
    refine .last henters fun t ht => ?_
    rw [hkept _ (List.suffix_refl _) hq] at ht
    cases ht
  | enter henters hd h ih =>
    have hrest : AreNames _ := fun s hs => hn s (List.mem_cons_of_mem _ hs)
    have hsuffix := (h.straight hfs hrest).1 ▸ List.suffix_append _ _
    exact .enter henters (hkept _ hsuffix hd) (ih hrest hq hkept)
  | along _ hl _ _ _ _ => exact absurd hl (hfs.linkless _ _)

/-- A way to a directory goes on to a name in it. -/
theorem Walks.concat (h : fs.Walks .follow fuel links place names q)
    (hq : fs.item? q = some .directory) (hs : Enters .follow s [])
    (hlink : ∀ t, fs.item? (s :: q) ≠ some (.link t)) :
    fs.Walks .follow (fuel + 1) links place (names ++ [s]) (s :: q) := by
  have hlast : ∀ {fuel links}, fs.Walks .follow (fuel + 1) links q [s] (s :: q) :=
    .last hs fun t ht => absurd ht (hlink t)
  induction h with
  | stop => exact hlast
  | skip hn _ ih => exact .skip hn (ih hq hlink hlast)
  | up _ ih => exact .up (ih hq hlink hlast)
  | last hn _ => exact .enter hn.of_follow hq hlast
  | enter hn hd _ ih => exact .enter hn.of_follow hd (ih hq hlink hlast)
  | along hn hl _ hlinks _ ih =>
    have hrest := ih hq hlink hlast
    rw [List.append_assoc] at hrest
    exact .along hn.of_follow hl (fun he => nomatch he.2) hlinks hrest

/-! ## Paths below a root -/

theorem place_of_below {q : List String} (hfs : fs.Straight) (hroot : AreNames (steps root))
    (hq : AreNames q) (h : fs.placeOf e (below root q) = .ok p) :
    p = (steps root ++ q).reverse ++ fs.startOf root ∧
      ∀ s ∈ steps root ++ q, s.utf8ByteSize ≤ nameLimit := by
  obtain ⟨_, hw⟩ := walks_of_placeOf hq h
  exact hw.straight hfs (AreNames.append_iff.2 ⟨hroot, hq⟩)

theorem stat_of_directories {q : List String} (hfs : fs.Straight) (hroot : AreNames (steps root))
    (hq : AreNames q) (h : fs.stat (below root q) = .ok (p, .directory))
    (hworking : fs'.workingPlace = fs.workingPlace)
    (hkept : ∀ r, r <:+ p → fs.item? r = some .directory → fs'.item? r = some .directory) :
    fs'.stat (below root q) = .ok (p, .directory) := by
  obtain ⟨hplace, hp⟩ := stat_eq_ok_iff.1 h
  obtain ⟨hne, hsize, hw⟩ := placeOf_eq_ok_iff.1 hplace
  refine stat_eq_ok_iff.2 ⟨placeOf_eq_ok_iff.2 ⟨hne, hsize, ?_⟩, hkept p (List.suffix_refl p) hp⟩
  rw [hworking]
  rcases Disk.segments_below_or_dot root hq with he | ⟨hdot, -⟩
  · rw [he] at hw ⊢
    rw [Nat.add_comm]
    exact hw.of_directories hfs (AreNames.append_iff.2 ⟨hroot, hq⟩) hp hkept _
  · rw [hdot, show Path.segments "." = ["."] by decide] at hw ⊢
    rw [hw.of_dot, List.length_singleton, Nat.add_comm]
    exact .skip (.inr rfl) .stop

/-- A directory can be looked up as long as the directories on the way are there. -/
theorem Readable.of_directories {q : List String} (hfs : fs.Straight)
    (hroot : AreNames (steps root)) (h : fs.Readable (tidied root) q .directory)
    (hp : fs.stat (Disk.below root q) = .ok (p, .directory))
    (hworking : fs'.workingPlace = fs.workingPlace)
    (hkept : ∀ r, r <:+ p → fs.item? r = some .directory → fs'.item? r = some .directory) :
    fs'.Readable (tidied root) q .directory := by
  induction q using List.reverseRecOn generalizing p with
  | nil =>
    have hstat := stat_of_directories hfs hroot .nil hp hworking hkept
    rw [Disk.below_eq_tidied] at hstat
    exact .here hstat
  | append_singleton q s ih =>
    have hstat := stat_of_directories hfs hroot h.areNames hp hworking hkept
    obtain ⟨habove, hs, -⟩ := (concat_iff (Disk.tidied_tidied root)).1 h
    obtain ⟨p', hp'⟩ := habove.stat (Disk.tidied_tidied root)
    rw [Disk.below_tidied] at hp'
    obtain ⟨rfl, -⟩ := place_of_below hfs hroot h.areNames (stat_eq_ok_iff.1 hp).1
    obtain ⟨rfl, -⟩ := place_of_below hfs hroot habove.areNames (stat_eq_ok_iff.1 hp').1
    rw [← Disk.below_tidied] at hstat
    refine (concat_iff (Disk.tidied_tidied root)).2 ⟨ih habove hp' fun r hr => ?_, hs, _, hstat⟩
    have hlast : (steps root ++ (q ++ [s])).reverse = s :: (steps root ++ q).reverse := by simp
    exact hkept r (hr.trans (hlast ▸ List.suffix_cons s _))

/-- What lies in a directory that can be looked up can be looked up, if its path is not too long. -/
theorem stat_concat {q : List String} (hq : AreNames q)
    (h : fs.stat (below root q) = .ok (p, .directory)) (hs : Path.isName s = true)
    (hsize : s.utf8ByteSize ≤ nameLimit)
    (hpath : (below root (q ++ [s])).utf8ByteSize ≤ pathLimit)
    (hi : fs.item? (s :: p) = some i) (hlink : ∀ t, i ≠ .link t) :
    fs.stat (below root (q ++ [s])) = .ok (s :: p, i) := by
  obtain ⟨hplace, hp⟩ := stat_eq_ok_iff.1 h
  obtain ⟨-, -, hw⟩ := placeOf_eq_ok_iff.1 hplace
  have hqs : AreNames (q ++ [s]) := AreNames.append_iff.2 ⟨hq, AreNames.singleton_iff.2 hs⟩
  have hsegments := Disk.segments_below root hqs (by simp)
  have hne : below root (q ++ [s]) ≠ "" := by
    intro he
    rw [he, show Path.segments "" = [] by decide] at hsegments
    exact absurd hsegments (by simp)
  obtain ⟨hempty, hdot, hdots, -⟩ := Path.isName_iff.1 hs
  have henters : Enters .follow s [] :=
    ⟨hempty, hdot, hdots, fun he => (nomatch he.1), hsize⟩
  refine stat_eq_ok_iff.2 ⟨placeOf_eq_ok_iff.2 ⟨hne, hpath, ?_⟩, hi⟩
  rw [Disk.startsWith_below root hq] at hw
  rw [Disk.startsWith_below root hqs, hsegments, ← List.append_assoc, List.length_append,
    List.length_singleton, Nat.add_right_comm]
  have hnolink : ∀ t, fs.item? (s :: p) ≠ some (.link t) := fun t ht =>
    hlink t (Option.some.inj (hi.symm.trans ht))
  rcases Disk.segments_below_or_dot root hq with he | ⟨hdot, he⟩
  · rw [he] at hw
    exact hw.concat hp henters hnolink
  · rw [hdot, show Path.segments "." = ["."] by decide] at hw
    rw [he, ← hw.of_dot]
    exact Walks.concat .stop hp henters hnolink

end FileSystem

namespace LocalDisk

open FileSystem (Straight nameLimit rebased rebased_append rebased_of_not_suffix rebased_self)

variable {fs fs' : FileSystem} {root s : String} {a b : List String} {answer : Option String}

/-! ## What is taken to another path -/

/-- What could be looked up below a path is at the other path, in the directory that was there. -/
theorem done_of_straight (hfs : fs.Straight) (hroot : AreNames (steps root)) (ha : AreNames a)
    (hs : Path.isName s = true)
    (h : relocate fs (below root a) (below root (b ++ [s])) = (.ok (.done answer), fs'))
    (hb : fs.Readable (tidied root) b .directory) :
    ∃ z, fs'.stat (below root b) = .ok (z, .directory) ∧
      fs'.Readable (tidied root) b .directory ∧ s.utf8ByteSize ≤ nameLimit ∧
        ∀ r p i, AreNames r → fs.stat (below root (a ++ r)) = .ok (p, i) →
          fs'.item? (r.reverse ++ s :: z) = some i ∧ ∀ t ∈ r, t.utf8ByteSize ≤ nameLimit := by
  have hbs : AreNames (b ++ [s]) :=
    AreNames.append_iff.2 ⟨hb.areNames, AreNames.singleton_iff.2 hs⟩
  obtain ⟨z, hz⟩ := hb.stat (Disk.tidied_tidied root)
  obtain ⟨p, q, hp, hq, htaken, hkept⟩ := done_of_relocate hfs.grounded h
  rw [Disk.below_tidied] at hz
  rw [Disk.tidied_below _ ha] at hp
  rw [Disk.tidied_below _ hbs] at hq
  obtain ⟨hp, -⟩ := FileSystem.place_of_below hfs hroot ha hp
  obtain ⟨hq, hsize⟩ := FileSystem.place_of_below hfs hroot hbs hq
  obtain ⟨hz', -⟩ :=
    FileSystem.place_of_below hfs hroot hb.areNames (FileSystem.stat_eq_ok_iff.1 hz).1
  have hqz : q = s :: z := by simp [hq, hz']
  have hway : ∀ r, r <:+ z → fs.item? r = some .directory → fs'.item? r = some .directory := by
    -- the way to the directory does not lead through what has gone
    intro r hr hd
    have hstays : rebased p q r = r := by
      rcases htaken.apart with rfl | hapart
      · exact rebased_self p r
      · refine rebased_of_not_suffix fun hpr => hapart (hpr.trans ?_)
        rw [hqz]
        exact hr.trans (List.suffix_cons s z)
    rw [← hstays]
    exact hkept hd nofun
  refine ⟨z, FileSystem.stat_of_directories hfs hroot hb.areNames hz htaken.workingPlace hway,
    hb.of_directories hfs hroot hz htaken.workingPlace hway, hsize s (by simp),
    fun r place i hr hi => ?_⟩
  obtain ⟨hplace, hi⟩ := FileSystem.stat_eq_ok_iff.1 hi
  obtain ⟨rfl, hsizes⟩ :=
    FileSystem.place_of_below hfs hroot (AreNames.append_iff.2 ⟨ha, hr⟩) hplace
  have hmoved := hkept hi fun t ht => hfs.linkless _ t (ht ▸ hi)
  rw [← List.append_assoc, List.reverse_append, List.append_assoc, ← hp, rebased_append, hqz]
    at hmoved
  exact ⟨hmoved, fun t ht => hsizes t (by simp [ht])⟩

end LocalDisk

end Workbench
