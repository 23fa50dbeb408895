import Workbench.Git.Operation
import Workbench.Proofs.Except
import Workbench.Proofs.Git.Paths
import Workbench.Proofs.World.Settled

/-!
# Replacing files

What is left after the files of one tree have been replaced by those of another: the files that
neither tree tracks, and the files of the new tree (`Replaced`). A file of the new tree is missing
only where a directory is in its place. This goes unnoticed when the file is empty, because the
content that is kept of a directory is empty too.
-/

namespace Workbench

open Workbench.Path (AreNames)

/-! ## Shapes -/

namespace Shape

variable {S S₁ S' : Shape} {p q : List String} {s text old : String}
  {es : List (List String × String)}

/-- A shape with a file at a place, and with directories on the way to it. -/
def written (S : Shape) (p : List String) (text : String) : Shape := fun q c =>
  (S q c ∧ q ≠ p) ∨ (q = p ∧ c = some text) ∨ (c = none ∧ q <+: p ∧ q ≠ p)

/-- What writing a file makes of a shape. A directory in the place of an empty file stays. -/
inductive Wrote (p : List String) (text : String) (S S' : Shape) : Prop
  | stays (hd : S p none) (ht : text = "") (he : S' = S)
  | done (hd : ¬ S p none) (he : S' = S.written p text)

/-- What writing files one after another makes of a shape. -/
structure Filled (es : List (List String × String)) (S S' : Shape) : Prop where
  /-- There are the old directories and those on the way to the files. -/
  directory : ∀ {q}, S' q none ↔ S q none ∨ ∃ e ∈ es, q <+: e.1 ∧ q ≠ e.1
  /-- There are the old files and the new ones, but for those with a directory in their place. -/
  file : ∀ {q t}, S' q (some t) ↔
    (S q (some t) ∧ ∀ e ∈ es, q ≠ e.1) ∨ ∃ e ∈ es, q = e.1 ∧ t = e.2 ∧ ¬ S' q none
  remains : ∀ {q t}, S q (some t) → ∃ t', S' q (some t')
  /-- Only empty files have a directory in their place. -/
  bare : ∀ e ∈ es, S' e.1 none → e.2 = ""

theorem dropped_of_free (h : S.Free p) : S.dropped p = S := by
  funext q c
  refine propext ⟨And.left, fun hs => ⟨hs, ?_⟩⟩
  rintro rfl
  exact h c hs

theorem IsTree.above_of_prefix {c : Option String} (h : S.IsTree) (hs : S p c) (hpre : q <+: p)
    (hne : q ≠ p) : S q none := by
  obtain ⟨r, rfl⟩ := hpre
  refine h.directory (r := r) ?_ hs
  rintro rfl
  exact hne (List.append_nil q).symm

theorem IsTree.not_none_of_some (h : S.IsTree) (hs : S p (some text)) : ¬ S p none := by
  intro hd
  cases h.single hs hd

/-- Another text for a file that is there. -/
theorem IsTree.refilled_eq_written (h : S.IsTree) (hp : S p (some old)) :
    S.refilled p text = S.written p text := by
  funext q c
  refine propext ⟨?_, ?_⟩
  · rintro (hs | hs)
    · exact .inl hs
    · exact .inr (.inl hs)
  · rintro (hs | hs | ⟨rfl, hpre, hne⟩)
    · exact .inl hs
    · exact .inr hs
    · exact .inl ⟨h.above_of_prefix hp hpre hne, hne⟩

/-- A new file in a directory that is made for it. -/
theorem IsTree.grown_paved_eq_written (h : S.IsTree) (hf : S.Free (p ++ [s])) :
    (S.paved [] p).grown (p ++ [s]) (some text) = S.written (p ++ [s]) text := by
  funext q c
  refine propext ⟨?_, ?_⟩
  · rintro ((hs | ⟨rfl, r, -, hpre, rfl⟩) | hq)
    · exact .inl ⟨hs, fun he => hf c (he ▸ hs)⟩
    · refine .inr (.inr ⟨rfl, hpre.trans (List.prefix_append p [s]), ?_⟩)
      rintro rfl
      exact absurd hpre.length_le (by simp)
    · exact .inr (.inl hq)
  · rintro (⟨hs, -⟩ | hq | ⟨rfl, hpre, hne⟩)
    · exact .inl (.inl hs)
    · exact .inr hq
    · have hpre : q <+: p := (List.prefix_concat_iff.1 hpre).resolve_left hne
      by_cases hq : q = []
      · exact .inl (.inl (hq ▸ h.root))
      · exact .inl (.inr ⟨rfl, q, hq, hpre, (List.nil_append q).symm⟩)

namespace Wrote

theorem directory_iff (h : S.IsTree) (hw : Wrote p text S S₁) :
    S₁ q none ↔ S q none ∨ (q <+: p ∧ q ≠ p) := by
  cases hw with
  | stays hd _ he =>
    rw [he]
    refine ⟨.inl, ?_⟩
    rintro (hs | ⟨hpre, hne⟩)
    · exact hs
    · exact h.above_of_prefix hd hpre hne
  | done hd he =>
    rw [he]
    constructor
    · rintro (⟨hs, -⟩ | ⟨-, hc⟩ | ⟨-, hq⟩)
      · exact .inl hs
      · cases hc
      · exact .inr hq
    · rintro (hs | hq)
      · refine .inl ⟨hs, ?_⟩
        rintro rfl
        exact hd hs
      · exact .inr (.inr ⟨rfl, hq⟩)

/-- At the other places the files are what they were. -/
theorem file_iff (hw : Wrote p text S S₁) (hq : q ≠ p) : S₁ q (some old) ↔ S q (some old) := by
  cases hw with
  | stays _ _ he => rw [he]
  | done _ he =>
    rw [he]
    constructor
    · rintro (⟨hs, -⟩ | ⟨he, -⟩ | ⟨hc, -⟩)
      · exact hs
      · exact absurd he hq
      · cases hc
    · intro hs
      exact .inl ⟨hs, hq⟩

theorem place (hw : Wrote p text S S₁) : (S₁ p none ∧ text = "") ∨ S₁ p (some text) := by
  cases hw with
  | stays hd ht he => exact .inl ⟨he ▸ hd, ht⟩
  | done _ he => exact .inr (he ▸ .inr (.inl ⟨rfl, rfl⟩))

theorem remains (h : S.IsTree) (hw : Wrote p text S S₁) (hs : S q (some old)) :
    ∃ t, S₁ q (some t) := by
  by_cases hq : q = p
  · subst hq
    cases hw with
    | stays hd _ _ => cases h.single hs hd
    | done _ he => exact ⟨text, he ▸ .inr (.inl ⟨rfl, rfl⟩)⟩
  · exact ⟨old, (hw.file_iff hq).2 hs⟩

end Wrote

namespace Filled

theorem nil : Filled [] S S where
  directory := by simp
  file := by simp
  remains hs := ⟨_, hs⟩
  bare := by simp

/-- A file is written and then others, at other places. -/
theorem cons (hf : Filled es S₁ S') (hS : S.IsTree) (hS' : S'.IsTree) (hw : Wrote p text S S₁)
    (hp : ∀ e ∈ es, p ≠ e.1) : Filled ((p, text) :: es) S S' := by
  -- at the place itself there is the file, or there is a directory and the file is empty
  have hend : (S' p none ∧ text = "") ∨ (S' p (some text) ∧ ¬ S' p none) := by
    obtain ⟨hd, ht⟩ | hs := hw.place
    · exact .inl ⟨hf.directory.2 (.inl hd), ht⟩
    · have hs' := hf.file.2 (.inl ⟨hs, hp⟩)
      exact .inr ⟨hs', hS'.not_none_of_some hs'⟩
  constructor
  case directory =>
    intro q
    rw [hf.directory, hw.directory_iff hS, or_assoc]
    simp
  case file =>
    intro q t
    by_cases hq : q = p
    · subst hq
      constructor
      · intro hs
        obtain ⟨hd, -⟩ | ⟨hs', hd⟩ := hend
        · cases hS'.single hs hd
        · exact .inr ⟨_, List.mem_cons_self, rfl, Option.some.inj (hS'.single hs hs'), hd⟩
      · rintro (⟨-, hne⟩ | ⟨e, he, heq, rfl, hd⟩)
        · exact absurd rfl (hne _ List.mem_cons_self)
        · rcases List.mem_cons.1 he with rfl | he
          · exact (hend.resolve_left fun h => hd h.1).1
          · exact absurd heq (hp e he)
    · rw [hf.file, hw.file_iff hq]
      simp [hq]
  case remains =>
    intro q t hs
    obtain ⟨t₁, hs₁⟩ := hw.remains hS hs
    exact hf.remains hs₁
  case bare =>
    intro e he hd
    rcases List.mem_cons.1 he with rfl | he
    · exact (hend.resolve_right fun h => h.2 hd).2
    · exact hf.bare e he hd

end Filled

end Shape

namespace Repository

open Git (Tree)
open World (Settled)

variable {σ α : Type} {r : Repository} {h : Host σ} {w w' : World σ} {path content : String}
  {paths : List String} {entries : List (String × String)} {old new : Tree}

/-! ## One file -/

theorem fileOutcome_eq_ok {o : Outcome σ α} {a : α} (ho : fileOutcome o = (.ok a, w')) :
    o = (.ok a, w') := by
  obtain ⟨he, hw⟩ := Prod.mk.inj ho
  exact Prod.ext (mapError_eq_ok.1 he) hw

theorem IsPlain.last (hp : r.IsPlain path) :
    ∀ s ∈ (r.placeOf path).getLast?, Path.IsPlain s := fun s hs =>
  hp s (List.mem_of_getLast? hs)

/-- Deleting a file takes away what is at its place. -/
theorem shows_of_deleteFile (hw : w.Settled h) (ht : r.Tracks path) (hp : r.IsPlain path)
    (hd : r.deleteFile h w path = (.ok (), w')) : w'.Settled h ∧
      w'.space.arena.Shows = Shape.dropped w.space.arena.Shows (r.placeOf path) := by
  have htree := hw.sound.tree
  unfold deleteFile at hd
  rw [← ht.written] at hd
  split at hd
  · next hnone =>
    obtain ⟨-, rfl⟩ := Prod.mk.inj hd
    have hfree := (Workspace.resolve?_ofNames_eq_none_iff htree ht.names hp.last "/").1 hnone
    exact ⟨hw, (Shape.dropped_of_free hfree).symm⟩
  · next n hn =>
    obtain ⟨hl, -⟩ := (Workspace.resolve?_ofNames htree ht.names hp.last "/").1 hn
    exact hw.shows_of_delete hl (fileOutcome_eq_ok hd)

/-- The names on the way to the directory of a file, and that of the file. -/
theorem Tracks.exists_concat (ht : r.Tracks path) (hp : r.IsPlain path) :
    ∃ names s, r.placeOf path = names ++ [s] ∧ AreNames (names ++ [s]) ∧
      ∀ t ∈ names.getLast?, Path.IsPlain t := by
  obtain hnil | ⟨names, s, hplace⟩ := List.eq_nil_or_concat (r.placeOf path)
  · exact absurd hnil ht.ne_nil
  rw [List.concat_eq_append] at hplace
  refine ⟨names, s, hplace, hplace ▸ ht.names, fun t hm => hp t ?_⟩
  rw [hplace]
  exact List.mem_append_left _ (List.mem_of_getLast? hm)

/-- The directory and the last name of a path of proper names. -/
theorem splitLast_ofNames {names : List String} {s : String} (h : AreNames (names ++ [s])) :
    splitLast (Path.ofNames (names ++ [s])) = ("/".intercalate ("" :: names), s) := by
  rw [splitLast, Path.pieces_ofNames h.no_slash (by simp), ← List.cons_append,
    List.dropLast_concat, List.getLastD_concat]

theorem directory_ofNames (names : List String) :
    (if ("/".intercalate ("" :: names)).isEmpty then "/" else "/".intercalate ("" :: names)) =
      Path.ofNames names := by
  cases names with
  | nil => decide
  | cons s rest =>
    have he : "/".intercalate ("" :: s :: rest) = Path.ofNames (s :: rest) := by
      rw [String.intercalate_cons_cons, Path.ofNames, String.empty_append]
    have hne : (Path.ofNames (s :: rest)).isEmpty = false := by
      rw [Bool.eq_false_iff, ne_eq, String.isEmpty_iff]
      exact Path.ofNames_ne_empty (s :: rest)
    rw [he, hne, if_neg Bool.false_ne_true]

theorem wrote_of_writeFile (hw : w.Settled h) (ht : r.Tracks path) (hp : r.IsPlain path)
    (hd : r.writeFile h w path content = (.ok (), w')) : w'.Settled h ∧
      Shape.Wrote (r.placeOf path) content w.space.arena.Shows w'.space.arena.Shows := by
  have htree := hw.sound.tree
  unfold writeFile at hd
  rw [← ht.written] at hd
  dsimp only at hd
  split at hd
  · next n hn =>
    obtain ⟨hl, hget⟩ := (Workspace.resolve?_ofNames htree ht.names hp.last "/").1 hn
    split at hd
    · next hc =>
      obtain ⟨-, rfl⟩ := Prod.mk.inj hd
      refine ⟨hw, ?_⟩
      have hc : n.content = content := by simpa using hc
      cases hk : n.kind with
      | directory =>
        refine .stays ⟨n.id, n, hl, hget, Node.shown_eq_none_iff.2 hk⟩ ?_ rfl
        rw [← hc, (htree.fit hget).bare hk]
      | file =>
        have hs : w.space.arena.Shows (r.placeOf path) (some content) :=
          ⟨n.id, n, hl, hget, by rw [Node.shown, if_pos (Node.isFile_iff.2 hk), hc]⟩
        refine .done (htree.shape.not_none_of_some hs) ?_
        rw [← htree.shape.refilled_eq_written hs, htree.shape.refilled_self hs]
    · split at hd
      · next m w₁ hset =>
        obtain ⟨-, rfl⟩ := Prod.mk.inj hd
        obtain ⟨hw₁, hshows, old, hold⟩ := hw.shows_of_setContent hl hset
        refine ⟨hw₁, .done (htree.shape.not_none_of_some hold) ?_⟩
        rw [hshows, htree.shape.refilled_eq_written hold]
      · cases hd
  · next hnone =>
    have hfree := (Workspace.resolve?_ofNames_eq_none_iff htree ht.names hp.last "/").1 hnone
    obtain ⟨names, s, hplace, hnames, hplain⟩ := ht.exists_concat hp
    rw [hplace] at hd hfree ⊢
    simp only [splitLast_ofNames hnames, directory_ofNames] at hd
    split at hd
    · cases hd
    next d w₁ hdir =>
    obtain ⟨hw₁, hpaved, hl⟩ :=
      hw.shows_of_ensureDirectories (AreNames.append_iff.1 hnames).1 hplain hdir
    split at hd
    · next n w₂ hcreate =>
      obtain ⟨-, rfl⟩ := Prod.mk.inj hd
      obtain ⟨hw₂, hgrown, -⟩ := hw₁.shows_of_create hl hcreate
      refine ⟨hw₂, .done (hfree none) ?_⟩
      rw [hgrown, hpaved, ← htree.shape.grown_paved_eq_written hfree]
      rfl
    · cases hd

/-! ## Many files -/

/-- Deleting files one after another takes away what is at their places. -/
theorem shows_of_deletions (hw : w.Settled h) (ht : ∀ p ∈ paths, r.Tracks p)
    (hp : ∀ p ∈ paths, r.IsPlain p) (hd : inOrder (r.deleteFile h) w paths = (.ok (), w')) :
    w'.Settled h ∧ ∀ {q c}, w'.space.arena.Shows q c ↔
      w.space.arena.Shows q c ∧ ∀ p ∈ paths, q ≠ r.placeOf p := by
  induction paths generalizing w with
  | nil =>
    obtain ⟨-, rfl⟩ := Prod.mk.inj hd
    exact ⟨hw, by simp⟩
  | cons p rest ih =>
    rw [inOrder] at hd
    split at hd
    · next w₁ hone =>
      obtain ⟨hw₁, hdropped⟩ :=
        shows_of_deleteFile hw (ht p List.mem_cons_self) (hp p List.mem_cons_self) hone
      obtain ⟨hw', hshows⟩ := ih hw₁ (fun q hq => ht q (List.mem_cons_of_mem _ hq))
        (fun q hq => hp q (List.mem_cons_of_mem _ hq)) hd
      refine ⟨hw', fun {q c} => ?_⟩
      rw [hshows, hdropped, Shape.dropped, and_assoc, List.forall_mem_cons]
    · cases hd

/-- Writing files one after another, each at a path of its own, fills their places. -/
theorem filled_of_writes (hw : w.Settled h) (ht : ∀ e ∈ entries, r.Tracks e.1)
    (hp : ∀ e ∈ entries, r.IsPlain e.1) (hnd : (entries.map Prod.fst).Nodup)
    (hd : inOrder (fun w e => r.writeFile h w e.1 e.2) w entries = (.ok (), w')) :
    w'.Settled h ∧ Shape.Filled (entries.map fun e => (r.placeOf e.1, e.2))
      w.space.arena.Shows w'.space.arena.Shows := by
  induction entries generalizing w with
  | nil =>
    obtain ⟨-, rfl⟩ := Prod.mk.inj hd
    exact ⟨hw, .nil⟩
  | cons e rest ih =>
    rw [inOrder] at hd
    rw [List.map_cons, List.nodup_cons] at hnd
    obtain ⟨hnot, hnd⟩ := hnd
    split at hd
    · next w₁ hone =>
      have hte := ht e List.mem_cons_self
      have htr : ∀ f ∈ rest, r.Tracks f.1 := fun f hf => ht f (List.mem_cons_of_mem _ hf)
      obtain ⟨hw₁, hwrote⟩ := wrote_of_writeFile hw hte (hp e List.mem_cons_self) hone
      obtain ⟨hw', hfilled⟩ :=
        ih hw₁ htr (fun f hf => hp f (List.mem_cons_of_mem _ hf)) hnd hd
      have hother : ∀ f ∈ rest.map fun e => (r.placeOf e.1, e.2), r.placeOf e.1 ≠ f.1 := by
        intro f hf he
        obtain ⟨g, hg, rfl⟩ := List.mem_map.1 hf
        dsimp only at he
        have hpath : e.1 = g.1 := hte.eq_of_placeOf (htr g hg) he
        exact hnot (hpath ▸ List.mem_map_of_mem hg)
      rw [List.map_cons]
      exact ⟨hw', hfilled.cons hw.sound.tree.shape hw'.sound.tree.shape hwrote hother⟩
    · cases hd

/-! ## All files of a tree -/

/-- What is left when the files of one tree have been replaced by those of another. -/
structure Replaced (r : Repository) (old new : Tree) (s s' : Workspace) : Prop where
  file : ∀ {path content}, r.Tracks path → (s'.HasFile (r.rootSlash ++ path) content ↔
    (s.HasFile (r.rootSlash ++ path) content ∧ old.get? path = none ∧ new.get? path = none) ∨
      (new.get? path = some content ∧ ¬ s'.HasDirectory (r.rootSlash ++ path)))
  directory : ∀ {path content}, new.get? path = some content →
    (s'.HasDirectory (r.rootSlash ++ path) ↔ s.HasDirectory (r.rootSlash ++ path) ∨
      ∃ path' ∈ new.keys, Text.startsWith path' (path ++ "/") = true)
  remains : ∀ {path content content'}, new.get? path = some content →
    s.HasFile (r.rootSlash ++ path) content' → ¬ s'.HasDirectory (r.rootSlash ++ path)
  bare : ∀ {path content}, new.get? path = some content →
    s'.HasDirectory (r.rootSlash ++ path) → content = ""

/-- Of the paths of one tree, those that another does not hold. -/
theorem mem_gone_iff : path ∈ old.keys.filter (fun p => !new.contains p) ↔
    (∃ content, old.get? path = some content) ∧ new.get? path = none := by
  rw [List.mem_filter, Table.mem_keys_iff, Bool.not_eq_true', Table.contains_eq_false_iff]

theorem Tracks.forall_placeOf_ne_iff (h : r.Tracks path) (hps : ∀ p ∈ paths, r.Tracks p) :
    (∀ p ∈ paths, r.placeOf path ≠ r.placeOf p) ↔ path ∉ paths := by
  constructor
  · intro hne hp
    exact hne path hp rfl
  · intro hnot p hp he
    exact hnot (h.eq_of_placeOf (hps p hp) he ▸ hp)

/-- The files of a tree with their places. -/
def placed (r : Repository) (t : Tree) : List (List String × String) :=
  t.entries.map fun e => (r.placeOf e.1, e.2)

theorem mem_placed_iff {e : List String × String} : e ∈ r.placed new ↔
    ∃ p, new.get? p = some e.2 ∧ r.placeOf p = e.1 := by
  rw [placed, List.mem_map]
  constructor
  · rintro ⟨⟨p, c⟩, hp, rfl⟩
    exact ⟨p, Table.mem_entries_iff.1 hp, rfl⟩
  · rintro ⟨p, hp, he⟩
    exact ⟨(p, e.2), Table.mem_entries_iff.2 hp, Prod.ext he rfl⟩

theorem Tracks.exists_placed_iff (h : r.Tracks path) (hnew : ∀ p ∈ new.keys, r.Tracks p) :
    (∃ e ∈ r.placed new, r.placeOf path = e.1 ∧ content = e.2) ↔
      new.get? path = some content := by
  constructor
  · rintro ⟨e, he, hplace, rfl⟩
    obtain ⟨p, hp, hpe⟩ := mem_placed_iff.1 he
    rw [h.eq_of_placeOf (hnew p (Table.mem_keys_iff.2 ⟨_, hp⟩)) (hplace.trans hpe.symm)]
    exact hp
  · intro hget
    exact ⟨(r.placeOf path, content), mem_placed_iff.2 ⟨path, hget, rfl⟩, rfl, rfl⟩

theorem Tracks.forall_placed_ne_iff (h : r.Tracks path) (hnew : ∀ p ∈ new.keys, r.Tracks p) :
    (∀ e ∈ r.placed new, r.placeOf path ≠ e.1) ↔ new.get? path = none := by
  rw [Option.eq_none_iff_forall_ne_some]
  constructor
  · intro hne content hget
    obtain ⟨e, he, hplace, -⟩ := (h.exists_placed_iff hnew).2 hget
    exact hne e he hplace
  · intro hnone e he hplace
    exact hnone e.2 ((h.exists_placed_iff hnew).1 ⟨e, he, hplace, rfl⟩)

/-- Some file of a tree has its place strictly below a path. -/
theorem Tracks.exists_below_iff (h : r.Tracks path) (hnew : ∀ p ∈ new.keys, r.Tracks p) :
    (∃ e ∈ r.placed new, r.placeOf path <+: e.1 ∧ r.placeOf path ≠ e.1) ↔
      ∃ p ∈ new.keys, Text.startsWith p (path ++ "/") = true := by
  constructor
  · rintro ⟨e, he, hpre⟩
    obtain ⟨p, hp, hpe⟩ := mem_placed_iff.1 he
    have hkey : p ∈ new.keys := Table.mem_keys_iff.2 ⟨_, hp⟩
    rw [← hpe] at hpre
    exact ⟨p, hkey, (h.startsWith_iff (hnew p hkey)).2 hpre⟩
  · rintro ⟨p, hkey, hs⟩
    obtain ⟨content, hp⟩ := Table.mem_keys_iff.1 hkey
    exact ⟨(r.placeOf p, content), mem_placed_iff.2 ⟨p, hp, rfl⟩,
      (h.startsWith_iff (hnew p hkey)).1 hs⟩

/-- What is left of the files that are not tracked any more is nothing; the files of the new tree
fill their places. -/
theorem replaced_of_filled {s s' : Workspace} {S : Shape} (hs : s.arena.IsTree)
    (hs' : s'.arena.IsTree) (hold : ∀ p ∈ old.keys, r.Tracks p)
    (hnew : ∀ p ∈ new.keys, r.Tracks p)
    (hdel : ∀ {q c}, S q c ↔ s.arena.Shows q c ∧
      ∀ p ∈ old.keys.filter (fun p => !new.contains p), q ≠ r.placeOf p)
    (hfill : Shape.Filled (r.placed new) S s'.arena.Shows) : r.Replaced old new s s' := by
  have hkey : ∀ {p c}, new.get? p = some c → r.Tracks p := fun hp =>
    hnew _ (Table.mem_keys_iff.2 ⟨_, hp⟩)
  have hgone : ∀ p ∈ old.keys.filter (fun p => !new.contains p), r.Tracks p := fun p hp =>
    hold p (List.mem_filter.1 hp).1
  -- a path of the new tree is not among those that are deleted
  have hshows : ∀ {p c d}, new.get? p = some c →
      (S (r.placeOf p) d ↔ s.arena.Shows (r.placeOf p) d) := by
    intro p c d hp
    rw [hdel, (hkey hp).forall_placeOf_ne_iff hgone, mem_gone_iff, hp]
    simp
  constructor
  case file =>
    intro path content ht
    rw [ht.hasFile_iff hs', hfill.file, ht.forall_placed_ne_iff hnew, hdel,
      ht.forall_placeOf_ne_iff hgone, mem_gone_iff, ht.hasFile_iff hs, ht.hasDirectory_iff hs',
      ← ht.exists_placed_iff hnew]
    refine or_congr ?_ ?_
    · rw [not_and, ← Option.isSome_iff_exists, ← Option.not_isNone]
      cases old.get? path <;> simp
    · simp only [← exists_and_right, and_assoc]
  case directory =>
    intro path content hp
    rw [(hkey hp).hasDirectory_iff hs', hfill.directory, hshows hp, (hkey hp).hasDirectory_iff hs,
      (hkey hp).exists_below_iff hnew]
  case remains =>
    intro path content content' hp hf hd
    rw [(hkey hp).hasFile_iff hs, ← hshows hp] at hf
    obtain ⟨t, ht⟩ := hfill.remains hf
    cases hs'.shape.single ht (((hkey hp).hasDirectory_iff hs').1 hd)
  case bare =>
    intro path content hp hd
    obtain ⟨e, he, hplace, rfl⟩ := ((hkey hp).exists_placed_iff hnew).2 hp
    exact hfill.bare e he (hplace ▸ ((hkey hp).hasDirectory_iff hs').1 hd)

theorem replaced_of_switchFiles (hw : w.Settled h) (hold : ∀ p ∈ old.keys, r.Tracks p)
    (hnew : ∀ p ∈ new.keys, r.Tracks p) (hpold : ∀ p ∈ old.keys, r.IsPlain p)
    (hpnew : ∀ p ∈ new.keys, r.IsPlain p) (hd : r.switchFiles h w old new = (.ok (), w')) :
    w'.Settled h ∧ r.Replaced old new w.space w'.space := by
  unfold switchFiles at hd
  split at hd
  · cases hd
  next w₁ hdel =>
  have hgone : ∀ p ∈ old.keys.filter (fun p => !new.contains p), p ∈ old.keys := fun p hp =>
    (List.mem_filter.1 hp).1
  obtain ⟨hw₁, hshows⟩ := shows_of_deletions hw (fun p hp => hold p (hgone p hp))
    (fun p hp => hpold p (hgone p hp)) hdel
  have hkey : ∀ e ∈ new.entries, e.1 ∈ new.keys := fun e he => List.mem_map_of_mem he
  obtain ⟨hw', hfilled⟩ := filled_of_writes hw₁ (fun e he => hnew _ (hkey e he))
    (fun e he => hpnew _ (hkey e he)) new.nodup hd
  exact ⟨hw', replaced_of_filled hw.sound.tree hw'.sound.tree hold hnew hshows hfilled⟩

end Repository

end Workbench
