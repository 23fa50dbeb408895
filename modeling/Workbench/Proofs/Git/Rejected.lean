import Workbench.Proofs.Git.Steps
import Workbench.Proofs.Git.Uncommitted

/-!
# Rejected operations

What an operation that is rejected has changed. Only two kinds of operations can have changed
something: an addition takes its paths one after another, and a checkout or a pull replaces files
one after another, and where one of them is refused the ones before it stay done. So nothing has
changed exactly when the first of them that has something to do is the one that is refused
(`Project.rejected_unchanged`).
-/

namespace Workbench

open Git (Tree Fault Stop)
open World (Settled)
open Workbench.Path (AreNames)

variable {σ α β : Type}

/-- The first of some steps that has something to do is refused. -/
def FirstRefused (Idle Refused : α → Prop) (l : List α) : Prop :=
  ∃ before a after, l = before ++ a :: after ∧ (∀ b ∈ before, Idle b) ∧ Refused a

/-! ## Files -/

namespace Git

/-- What is done about one file when files are replaced. -/
inductive FileStep where
  | delete (path : String)
  | write (path content : String)
  deriving DecidableEq

namespace FileStep

def run (r : Repository) (h : Host σ) (w : World σ) : FileStep → Repository.FileOutcome σ Unit
  | delete path => r.deleteFile h w path
  | write path content => r.writeFile h w path content

/-- There is nothing to delete, or what is to be written is there. -/
def Idle (r : Repository) (s : Workspace) : FileStep → Prop
  | delete path => s.resolve? (r.rootSlash ++ path) "/" = none
  | write path content =>
    (s.resolve? (r.rootSlash ++ path) "/").map Node.content = some content

instance (r : Repository) (s : Workspace) (a : FileStep) : Decidable (a.Idle r s) := by
  unfold Idle
  split <;> infer_instance

def path : FileStep → String
  | delete path => path
  | write path _ => path

end FileStep

/-- What is done when the files of one tree are replaced by those of another. -/
def fileSteps (old new : Tree) : List FileStep :=
  (old.keys.filter fun p => !new.contains p).map .delete ++
    new.entries.map fun e => .write e.1 e.2

end Git

/-- At a place that shows something there is a node with this content; that of a directory is
empty. -/
theorem Workspace.map_content_of_shows {s : Workspace} {q : List String} {c : Option String}
    (h : s.arena.IsTree) (hplain : ∀ t ∈ q.getLast?, Path.IsPlain t) (hs : s.arena.Shows q c) :
    (s.resolve? (Path.ofNames q) "/").map Node.content = some (c.getD "") := by
  have hq := h.shape.names hs
  obtain ⟨id, n, hl, hget, rfl⟩ := hs
  obtain rfl := h.keyed hget
  rw [(resolve?_ofNames h hq hplain "/").2 ⟨hl, hget⟩, Option.map_some]
  cases hk : n.kind with
  | file => rw [Node.shown, if_pos (Node.isFile_iff.2 hk), Option.getD_some]
  | directory => rw [Node.shown_eq_none_iff.2 hk, (h.fit hget).bare hk, Option.getD_none]

namespace Repository

open Git (FileStep fileSteps)

variable {r : Repository} {h : Host σ} {w w' : World σ} {old new : Tree} {e : Stop}
  {f : World σ → α → FileOutcome σ Unit} {l : List α} {a : FileStep}

theorem inOrder_map (g : β → α) (w : World σ) (l : List β) :
    inOrder f w (l.map g) = inOrder (fun w b => f w (g b)) w l := by
  induction l generalizing w with
  | nil => rfl
  | cons b rest ih =>
    rw [List.map_cons, inOrder, inOrder]
    simp only [ih]

theorem inOrder_append (w : World σ) (l l' : List α) : inOrder f w (l ++ l') =
    match inOrder f w l with
    | (.ok (), w) => inOrder f w l'
    | (.error e, w) => (.error e, w) := by
  induction l generalizing w with
  | nil => rfl
  | cons a rest ih =>
    rw [List.cons_append, inOrder, inOrder]
    split
    · exact ih _
    · rfl

/-- Steps that fail are done up to the one that fails. -/
theorem inOrder_eq_error (hd : inOrder f w l = (.error e, w')) :
    ∃ before a after w₁, l = before ++ a :: after ∧ inOrder f w before = (.ok (), w₁) ∧
      f w₁ a = (.error e, w') := by
  induction l generalizing w with
  | nil => cases hd
  | cons a rest ih =>
    rw [inOrder] at hd
    split at hd
    · next w₂ hone =>
      obtain ⟨before, b, after, w₁, rfl, hbefore, hb⟩ := ih hd
      refine ⟨a :: before, b, after, w₁, rfl, ?_, hb⟩
      rw [inOrder, hone]
      exact hbefore
    · next he =>
      obtain ⟨he', rfl⟩ := Prod.mk.inj hd
      obtain rfl := Except.error.inj he'
      exact ⟨[], a, rest, w, rfl, rfl, he⟩

theorem switchFiles_eq (r : Repository) (h : Host σ) (w : World σ) (old new : Tree) :
    r.switchFiles h w old new = inOrder (FileStep.run r h) w (fileSteps old new) := by
  rw [switchFiles, fileSteps, inOrder_append, inOrder_map,
    show (fun w path => FileStep.run r h w (.delete path)) = r.deleteFile h from rfl]
  split
  · next he => rw [he]
  · next he =>
    rw [he]
    dsimp only
    rw [inOrder_map]
    rfl

theorem run_of_idle (hi : a.Idle r w.space) : a.run r h w = (.ok (), w) := by
  cases a with
  | delete path =>
    rw [FileStep.run, deleteFile, show w.space.resolve? (r.rootSlash ++ path) "/" = none from hi]
  | write path content =>
    obtain ⟨n, hn, hc⟩ := Option.map_eq_some_iff.1 hi
    rw [FileStep.run, writeFile, hn]
    dsimp only
    rw [if_pos (by simpa using hc)]

theorem inOrder_of_idle {steps : List FileStep} (hi : ∀ a ∈ steps, a.Idle r w.space) :
    inOrder (FileStep.run r h) w steps = (.ok (), w) := by
  induction steps with
  | nil => rfl
  | cons a rest ih =>
    obtain ⟨ha, hrest⟩ := List.forall_mem_cons.1 hi
    rw [inOrder, run_of_idle ha]
    exact ih hrest

/-- A step that is refused has done nothing. -/
theorem eq_of_run_error (hw : w.Settled h) (ht : r.Tracks a.path) (hp : r.IsPlain a.path)
    (hd : a.run r h w = (.error e, w')) : w' = w := by
  have htree := hw.sound.tree
  cases a with
  | delete path =>
    have hd : r.deleteFile h w path = (.error e, w') := hd
    unfold deleteFile at hd
    split at hd
    · cases hd
    · next n _ =>
      obtain ⟨he, hd⟩ := Prod.mk.inj hd
      cases hx : (w.delete h n.id false).1 with
      | ok _ =>
        rw [hx] at he
        cases he
      | error e' => exact hw.eq_of_delete (Prod.ext hx hd)
  | write path content =>
    have hd : r.writeFile h w path content = (.error e, w') := hd
    have ht : r.Tracks path := ht
    have hp : r.IsPlain path := hp
    unfold writeFile at hd
    rw [← ht.written] at hd
    dsimp only at hd
    split at hd
    · split at hd
      · cases hd
      · split at hd
        · cases hd
        · next hset =>
          obtain ⟨-, rfl⟩ := Prod.mk.inj hd
          exact hw.eq_of_setContent hset
    · next hnone =>
      have hfree := (Workspace.resolve?_ofNames_eq_none_iff htree ht.names hp.last "/").1 hnone
      obtain ⟨names, s, hplace, hnames, hplain⟩ := ht.exists_concat hp
      obtain ⟨hdir, hs⟩ := AreNames.append_iff.1 hnames
      rw [hplace] at hd hfree
      simp only [splitLast_ofNames hnames, directory_ofNames] at hd
      split at hd
      · next hens =>
        obtain ⟨-, rfl⟩ := Prod.mk.inj hd
        exact hw.eq_of_ensureDirectories hdir hplain hens
      next d w₁ hens =>
      -- the directory is there and has no such name yet, so that the file can be created
      obtain ⟨hw₁, hpaved, hl⟩ := hw.shows_of_ensureDirectories hdir hplain hens
      obtain ⟨n, hc⟩ := hw₁.checkCreate_eq_ok hl
        (by rw [hpaved]; exact htree.shape.paved_self names) (AreNames.singleton_iff.1 hs)
        (by rw [hpaved]; exact hfree.paved)
      obtain ⟨m, hm⟩ := hw₁.create_eq_ok hc .file content
      split at hd
      · cases hd
      · next hcreate =>
        rw [hcreate] at hm
        cases hm

/-! ### What has been done -/

/-- The first steps are deletions of some files and writings of some files. -/
theorem exists_of_fileSteps {before rest : List FileStep}
    (hs : fileSteps old new = before ++ rest) : ∃ paths entries,
      before = paths.map .delete ++ entries.map (fun e => .write e.1 e.2) ∧
        paths <+: (old.keys.filter fun p => !new.contains p) ∧ entries <+: new.entries := by
  rw [fileSteps, List.append_eq_append_iff] at hs
  obtain ⟨done, rfl, hwrites⟩ | ⟨left, hdeletes, -⟩ := hs
  · obtain ⟨entries, later, he, rfl, -⟩ := List.map_eq_append_iff.1 hwrites
    exact ⟨_, entries, rfl, List.prefix_rfl, later, he.symm⟩
  · obtain ⟨paths, later, hp, rfl, -⟩ := List.map_eq_append_iff.1 hdeletes
    exact ⟨paths, [], (List.append_nil _).symm, ⟨later, hp.symm⟩, List.nil_prefix⟩

/-- Steps that have left everything as it was had nothing to do. What is deleted stays deleted, as
all files are written at other places, and what is written stays written. -/
theorem idle_of_shows {before rest : List FileStep} (hw : w.Settled h)
    (hold : ∀ p ∈ old.keys, r.Tracks p) (hnew : ∀ p ∈ new.keys, r.Tracks p)
    (hpold : ∀ p ∈ old.keys, r.IsPlain p) (hpnew : ∀ p ∈ new.keys, r.IsPlain p)
    (hs : fileSteps old new = before ++ rest)
    (hd : inOrder (FileStep.run r h) w before = (.ok (), w')) : w'.Settled h ∧
      (w'.space.arena.Shows = w.space.arena.Shows → ∀ a ∈ before, a.Idle r w.space) := by
  have htree := hw.sound.tree
  obtain ⟨paths, entries, rfl, hpaths, hentries⟩ := exists_of_fileSteps hs
  have hgone : ∀ p ∈ paths, p ∈ old.keys ∧ p ∉ new.keys := by
    intro p hp
    obtain ⟨hkey, hnot⟩ := List.mem_filter.1 (hpaths.subset hp)
    refine ⟨hkey, fun hmem => ?_⟩
    obtain ⟨content, hget⟩ := Table.mem_keys_iff.1 hmem
    simp [Table.contains, hget] at hnot
  have hkey : ∀ e ∈ entries, e.1 ∈ new.keys := fun e he =>
    List.mem_map_of_mem (hentries.subset he)
  rw [inOrder_append, inOrder_map] at hd
  split at hd
  swap
  · cases hd
  next w₁ hdel =>
  rw [inOrder_map] at hd
  obtain ⟨hw₁, hdropped⟩ := shows_of_deletions hw (fun p hp => hold p (hgone p hp).1)
    (fun p hp => hpold p (hgone p hp).1) hdel
  obtain ⟨hw', hfilled⟩ := filled_of_writes hw₁ (fun e he => hnew _ (hkey e he))
    (fun e he => hpnew _ (hkey e he)) (new.nodup.sublist (hentries.sublist.map _)) hd
  refine ⟨hw', fun hshows => ?_⟩
  rw [hshows] at hfilled
  have hfill : ∀ e ∈ entries, (w.space.arena.Shows (r.placeOf e.1) none ∧ e.2 = "") ∨
      w.space.arena.Shows (r.placeOf e.1) (some e.2) := by
    intro e he
    have hmem := List.mem_map_of_mem (f := fun e : String × String => (r.placeOf e.1, e.2)) he
    by_cases hdir : w.space.arena.Shows (r.placeOf e.1) none
    · exact .inl ⟨hdir, hfilled.bare _ hmem hdir⟩
    · exact .inr (hfilled.file.2 (.inr ⟨_, hmem, rfl, rfl, hdir⟩))
  have hother : ∀ p ∈ paths, ∀ e ∈ entries, r.placeOf e.1 ≠ r.placeOf p := by
    intro p hp e he heq
    have hpath := (hnew _ (hkey e he)).eq_of_placeOf (hold p (hgone p hp).1) heq
    exact (hgone p hp).2 (hpath ▸ hkey e he)
  have hfree : ∀ p ∈ paths, Shape.Free w.space.arena.Shows (r.placeOf p) := by
    rintro p hp (_ | text) hs
    · rcases hfilled.directory.1 hs with hs | ⟨_, hmem, hpre, hne⟩
      · exact (hdropped.1 hs).2 p hp rfl
      · obtain ⟨e, he, rfl⟩ := List.mem_map.1 hmem
        -- the file that is written below has been there, and so has the directory
        obtain ⟨c, hc⟩ : ∃ c, w.space.arena.Shows (r.placeOf e.1) c :=
          (hfill e he).elim (fun hd => ⟨_, hd.1⟩) fun hf => ⟨_, hf⟩
        have hc₁ := hdropped.2 ⟨hc, fun q hq => hother q hq e he⟩
        exact (hdropped.1 (hw₁.sound.tree.shape.above_of_prefix hc₁ hpre hne)).2 p hp rfl
    · rcases hfilled.file.1 hs with ⟨hs, -⟩ | ⟨_, hmem, heq, -⟩
      · exact (hdropped.1 hs).2 p hp rfl
      · obtain ⟨e, he, rfl⟩ := List.mem_map.1 hmem
        exact hother p hp e he heq.symm
  intro a ha
  rcases List.mem_append.1 ha with ha | ha
  · obtain ⟨p, hp, rfl⟩ := List.mem_map.1 ha
    have ht := hold p (hgone p hp).1
    rw [FileStep.Idle, ← ht.written]
    exact (Workspace.resolve?_ofNames_eq_none_iff htree ht.names (hpold p (hgone p hp).1).last
      "/").2 (hfree p hp)
  · obtain ⟨e, he, rfl⟩ := List.mem_map.1 ha
    have ht := hnew _ (hkey e he)
    rw [FileStep.Idle, ← ht.written]
    rcases hfill e he with ⟨hs, hempty⟩ | hs
    · rw [Workspace.map_content_of_shows htree (hpnew _ (hkey e he)).last hs, hempty]
      rfl
    · exact Workspace.map_content_of_shows htree (hpnew _ (hkey e he)).last hs

/-- Replacing files that is refused leaves everything as it was exactly when the first step that
has something to do is refused. -/
theorem switchFiles_unchanged (hw : w.Settled h) (hold : ∀ p ∈ old.keys, r.Tracks p)
    (hnew : ∀ p ∈ new.keys, r.Tracks p) (hpold : ∀ p ∈ old.keys, r.IsPlain p)
    (hpnew : ∀ p ∈ new.keys, r.IsPlain p) (hd : r.switchFiles h w old new = (.error e, w')) :
    (FirstRefused (FileStep.Idle r w.space) (fun a => ∃ e, (a.run r h w).1 = .error e)
        (fileSteps old new) → w' = w) ∧
      (w'.space.arena.Shows = w.space.arena.Shows →
        FirstRefused (FileStep.Idle r w.space) (fun a => ∃ e, (a.run r h w).1 = .error e)
          (fileSteps old new)) := by
  have hpath : ∀ a ∈ fileSteps old new, r.Tracks a.path ∧ r.IsPlain a.path := by
    intro a ha
    rcases List.mem_append.1 ha with ha | ha
    · obtain ⟨p, hp, rfl⟩ := List.mem_map.1 ha
      have hkey := (List.mem_filter.1 hp).1
      exact ⟨hold p hkey, hpold p hkey⟩
    · obtain ⟨e, he, rfl⟩ := List.mem_map.1 ha
      have hkey : e.1 ∈ new.keys := List.mem_map_of_mem he
      exact ⟨hnew _ hkey, hpnew _ hkey⟩
  rw [switchFiles_eq] at hd
  constructor
  · rintro ⟨before, a, after, he, hidle, e', ha⟩
    obtain ⟨ht, hp⟩ := hpath a (he ▸ List.mem_append_right _ List.mem_cons_self)
    rw [he, inOrder_append, inOrder_of_idle hidle] at hd
    dsimp only at hd
    rw [inOrder] at hd
    split at hd
    · next hone =>
      rw [hone] at ha
      cases ha
    · next hone =>
      obtain ⟨-, rfl⟩ := Prod.mk.inj hd
      exact eq_of_run_error hw ht hp hone
  · intro hshows
    obtain ⟨before, a, after, w₁, he, hbefore, ha⟩ := inOrder_eq_error hd
    obtain ⟨ht, hp⟩ := hpath a (he ▸ List.mem_append_right _ List.mem_cons_self)
    obtain ⟨hw₁, hidle⟩ := idle_of_shows hw hold hnew hpold hpnew he hbefore
    obtain rfl := eq_of_run_error hw₁ ht hp ha
    have hidle := hidle hshows
    obtain rfl : w' = w := (Prod.mk.inj (hbefore.symm.trans (inOrder_of_idle hidle))).2
    exact ⟨before, a, after, he, hidle, e, congrArg Prod.fst ha⟩

/-! ## The index -/

section Add

variable {working index : Tree} {spec : String} {specs : List String} {r' : Repository} {f : Fault}
  {x : Except Fault Unit}

/-- Whether adding a path makes the index agree with the working tree at another. -/
def takes (r : Repository) (working : Tree) (spec path : String) : Bool :=
  spec == "." || spec == "-A" || spec == "--all" ||
    match r.relative spec with
    | .ok rel => isBelow path rel || (rel.isEmpty && working.contains path)
    | .error _ => false

/-- What is taken is what the working tree holds, and the rest stays. -/
theorem get?_indexWith (hi : r.indexWith working spec = .ok index) (path : String) :
    index.get? path =
      if r.takes working spec path then working.get? path else r.index.get? path := by
  unfold indexWith at hi
  unfold takes
  split at hi
  · next hall =>
    obtain rfl := Except.ok.inj hi
    rw [hall, Bool.true_or, if_pos rfl]
  next hall =>
  obtain ⟨rel, hrel, hi⟩ := bind_eq_ok.1 hi
  obtain ⟨-, hi⟩ := guard_eq_ok hi
  obtain rfl := Except.ok.inj hi
  clear hi
  rw [Bool.eq_false_iff.2 hall, hrel, Bool.false_or, Table.get?_eraseMany_filter,
    Table.get?_insertMany_filter r.index working fun p => rel.isEmpty || isBelow p rel]
  have htaken : ∀ (below all : Bool) (x y : Option String),
      (if below && !x.isSome && y.isSome then none
        else if (all || below) && x.isSome then x else y) =
      if below || all && x.isSome then x else y := by
    intro below all x y
    cases x <;> cases y <;> cases below <;> simp
  exact htaken _ _ _ _

/-- Only the entries of the index decide whether a path can be added. -/
theorem isOk_indexWith (hi : ∀ path, index.get? path = r.index.get? path) (working : Tree)
    (spec : String) : (({ r with index := index }).indexWith working spec).isOk =
      (r.indexWith working spec).isOk := by
  have hgone : ∀ f : String → Bool, (index.keys.filter f).isEmpty =
      (r.index.keys.filter f).isEmpty := by
    intro f
    rw [Bool.eq_iff_iff, List.isEmpty_iff, List.isEmpty_iff, List.filter_eq_nil_iff,
      List.filter_eq_nil_iff]
    simp only [Table.mem_keys_iff, hi]
  unfold indexWith
  split
  · rfl
  · have hrel : ({ r with index := index } : Repository).relative spec = r.relative spec := rfl
    rw [hrel]
    cases r.relative spec with
    | error e => rfl
    | ok rel =>
      simp only [bind, Except.bind, hgone]
      split <;> rfl

/-- Adding a path succeeds and leaves the index as it is. -/
def SpecIdle (r : Repository) (working : Tree) (spec : String) : Prop :=
  ∃ index, r.indexWith working spec = .ok index ∧ ∀ path, index.get? path = r.index.get? path

/-- Adding a path is refused. -/
def SpecRefused (r : Repository) (working : Tree) (spec : String) : Prop :=
  ∃ f, r.indexWith working spec = .error f

theorem specRefused_iff : r.SpecRefused working spec ↔ (r.indexWith working spec).isOk = false := by
  unfold SpecRefused
  cases r.indexWith working spec with
  | ok index => exact iff_of_false (fun ⟨_, he⟩ => nomatch he) (fun he => nomatch he)
  | error f => exact iff_of_true ⟨f, rfl⟩ rfl

theorem specRefused_congr (hi : ∀ path, index.get? path = r.index.get? path) :
    ({ r with index := index } : Repository).SpecRefused working spec ↔
      r.SpecRefused working spec := by
  rw [specRefused_iff, specRefused_iff, isOk_indexWith hi]

theorem specIdle_congr (hi : ∀ path, index.get? path = r.index.get? path) :
    ({ r with index := index } : Repository).SpecIdle working spec ↔ r.SpecIdle working spec := by
  have hok := isOk_indexWith hi working spec
  have htakes : ({ r with index := index } : Repository).takes working spec =
      r.takes working spec := rfl
  have hget : ∀ {t t'}, ({ r with index := index } : Repository).indexWith working spec = .ok t →
      r.indexWith working spec = .ok t' → ∀ path, t.get? path = t'.get? path := by
    intro t t' ht ht' path
    rw [get?_indexWith ht, get?_indexWith ht', htakes, hi]
  constructor
  · rintro ⟨t, ht, hidle⟩
    rw [ht] at hok
    obtain ⟨t', ht'⟩ := exists_of_isOk hok.symm
    exact ⟨t', ht', fun path => by rw [← hget ht ht', hidle, hi]⟩
  · rintro ⟨t', ht', hidle⟩
    rw [ht'] at hok
    obtain ⟨t, ht⟩ := exists_of_isOk hok
    exact ⟨t, ht, fun path => by rw [hget ht ht', hidle, hi]⟩

theorem firstRefused_congr (hi : ∀ path, index.get? path = r.index.get? path) :
    FirstRefused (SpecIdle { r with index := index } working)
        (SpecRefused { r with index := index } working) specs ↔
      FirstRefused (r.SpecIdle working) (r.SpecRefused working) specs := by
  simp only [FirstRefused, specIdle_congr hi, specRefused_congr hi]

/-- Adding paths leaves at each path what the index held, or puts there what the working tree
holds. -/
theorem get?_addAll (hd : addAll working r specs = (x, r')) (path : String) :
    r'.index.get? path = r.index.get? path ∨ r'.index.get? path = working.get? path := by
  induction specs generalizing r with
  | nil =>
    obtain ⟨-, rfl⟩ := Prod.mk.inj hd
    exact .inl rfl
  | cons spec rest ih =>
    rw [addAll] at hd
    split at hd
    · next index hone =>
      have hget := get?_indexWith hone path
      rcases ih hd with he | he
      · rw [he]
        dsimp only
        rw [hget]
        split
        · exact .inr rfl
        · exact .inl rfl
      · exact .inr he
    · obtain ⟨-, rfl⟩ := Prod.mk.inj hd
      exact .inl rfl

/-- Adding paths that is refused leaves the index as it is exactly when the first path that changes
it is refused. -/
theorem addAll_unchanged_iff (hd : addAll working r specs = (.error f, r')) :
    (∀ path, r'.index.get? path = r.index.get? path) ↔
      FirstRefused (r.SpecIdle working) (r.SpecRefused working) specs := by
  induction specs generalizing r with
  | nil => cases hd
  | cons spec rest ih =>
    rw [addAll] at hd
    split at hd
    · next index hone =>
      have hrest := ih hd
      constructor
      · intro hsame
        -- what this path has changed is as in the working tree, and has remained so
        have hidle : ∀ path, index.get? path = r.index.get? path := by
          intro path
          have hget := get?_indexWith hone path
          split at hget
          · rcases get?_addAll hd path with he | he
            · exact he.symm.trans (hsame path)
            · rw [hget, ← he, hsame]
          · exact hget
        obtain ⟨before, a, after, rfl, hbefore, ha⟩ := (firstRefused_congr hidle).1
          (hrest.1 fun path => (hsame path).trans (hidle path).symm)
        exact ⟨spec :: before, a, after, rfl,
          List.forall_mem_cons.2 ⟨⟨index, hone, hidle⟩, hbefore⟩, ha⟩
      · rintro ⟨before, a, after, he, hbefore, ha⟩
        cases before with
        | nil =>
          obtain ⟨rfl, -⟩ := List.cons.inj he
          obtain ⟨_, hrefused⟩ := ha
          cases hone.symm.trans hrefused
        | cons b before =>
          obtain ⟨rfl, rfl⟩ := List.cons.inj he
          obtain ⟨⟨_, hone', hidle⟩, hbefore⟩ := List.forall_mem_cons.1 hbefore
          obtain rfl := Except.ok.inj (hone.symm.trans hone')
          have hsame := hrest.2 ((firstRefused_congr hidle).2 ⟨before, a, after, rfl, hbefore, ha⟩)
          exact fun path => (hsame path).trans (hidle path)
    · next hone =>
      obtain ⟨-, rfl⟩ := Prod.mk.inj hd
      exact iff_of_true (fun _ => rfl) ⟨[], spec, rest, rfl, by simp, _, hone⟩

end Add

end Repository

/-! ## Operations -/

namespace Git.Call

/-- The checks are passed after which an operation begins to change one thing after another. -/
def Cleared (r : Repository) (s : Workspace) : Git.Call → Prop
  | add _ => r.initialized = true
  | checkout _ => r.initialized = true ∧ r.checkSwitch s = .ok ()
  | pull => r.initialized = true ∧ r.remoteName.isSome = true ∧
      ∀ here ∈ r.tip?, r.isAncestor here r.remoteTip? = true
  | _ => False

/-- If an operation begins to change one thing after another, the first change is refused. -/
def Harmless (h : Host σ) (p : Project σ) (c : Git.Call) : Prop :=
  c.Cleared p.repository p.world.space →
    match c with
    | add paths =>
      let working := p.repository.workingTree p.world.space
      FirstRefused (p.repository.SpecIdle working) (p.repository.SpecRefused working) paths
    | c => ∀ target ∈ c.target? p.repository,
      FirstRefused (FileStep.Idle p.repository p.world.space)
        (fun a => ∃ e, (a.run p.repository h p.world).1 = .error e)
        (fileSteps p.repository.headTree (p.repository.treeOf target))

end Git.Call

namespace Repository

variable {h : Host σ} {p p' : Project σ} {c : Git.Call} {stop : Stop} {r r' : Repository}
  {w w' : World σ} {s : Workspace} {ref : String} {f : Fault}

theorem add_eq_error {paths : List String} (hc : r.add s paths = (.error f, r')) :
    (r.initialized = false ∧ r' = r) ∨
      (r.initialized = true ∧ addAll (r.workingTree s) r paths = (.error f, r')) := by
  unfold add at hc
  split at hc
  · next hi =>
    obtain ⟨-, rfl⟩ := Prod.mk.inj hc
    refine .inl ⟨?_, rfl⟩
    rw [Bool.eq_false_iff, ne_eq, ← require_eq_ok_iff, hi]
    exact fun he => nomatch he
  · next hi => exact .inr ⟨require_eq_ok_iff.1 hi, hc⟩

/-- What has been done where an operation that moves to another commit is refused. -/
structure Halted (h : Host σ) (r : Repository) (w : World σ) (c : Git.Call) (stop : Stop)
    (w' : World σ) (target : Option String) : Prop where
  moves : c.target? r = some target
  cleared : c.Cleared r w.space
  files : r.switchFiles h w r.headTree (r.treeOf target) = (.error stop, w')

theorem checkout_eq_error (hc : r.checkout h w ref = (.error stop, w', r')) : r' = r ∧
    ((w' = w ∧ (Git.Call.Cleared r w.space (.checkout ref) →
        Git.Call.target? r (.checkout ref) = none)) ∨
      ∃ target, Halted h r w (.checkout ref) stop w' target) := by
  unfold checkout at hc
  split at hc
  · next hi =>
    obtain ⟨-, hc⟩ := Prod.mk.inj hc
    obtain ⟨rfl, rfl⟩ := Prod.mk.inj hc
    refine ⟨rfl, .inl ⟨rfl, fun hclear => ?_⟩⟩
    cases (require_eq_ok_iff.2 hclear.1).symm.trans hi
  next hi =>
  rw [target?_checkout]
  split at hc
  · next hget =>
    obtain ⟨-, hc⟩ := Prod.mk.inj hc
    obtain ⟨rfl, rfl⟩ := Prod.mk.inj hc
    rw [hget, Option.filter_none, ite_self]
    exact ⟨rfl, .inl ⟨rfl, fun _ => rfl⟩⟩
  next target hget =>
  split at hc
  · cases hc
  next hhead =>
  rw [if_neg (by simpa using hhead), hget]
  split at hc
  · cases hc
  next htip =>
  split at hc
  · next hcheck =>
    obtain ⟨-, hc⟩ := Prod.mk.inj hc
    obtain ⟨rfl, rfl⟩ := Prod.mk.inj hc
    refine ⟨rfl, .inl ⟨rfl, fun hclear => ?_⟩⟩
    cases hclear.2.symm.trans hcheck
  next hcheck =>
  split at hc
  · next hs =>
    obtain ⟨he, hc⟩ := Prod.mk.inj hc
    obtain ⟨rfl, rfl⟩ := Prod.mk.inj hc
    obtain rfl := Except.error.inj he
    refine ⟨rfl, .inr ⟨target, ?_, ⟨require_eq_ok_iff.1 hi, hcheck⟩, hs⟩⟩
    rw [target?_checkout, if_neg (by simpa using hhead), hget, Option.filter_some,
      if_pos (by simpa using htip)]
  · cases hc

theorem pull_eq_error (hc : r.pull h w = (.error stop, w', r')) : r' = r ∧
    ((w' = w ∧ (Git.Call.Cleared r w.space .pull → Git.Call.target? r .pull = none)) ∨
      ∃ target, Halted h r w .pull stop w' target) := by
  unfold pull at hc
  split at hc
  · next hi =>
    obtain ⟨-, hc⟩ := Prod.mk.inj hc
    obtain ⟨rfl, rfl⟩ := Prod.mk.inj hc
    refine ⟨rfl, .inl ⟨rfl, fun hclear => ?_⟩⟩
    cases (require_eq_ok_iff.2 hclear.1).symm.trans hi
  next hi =>
  split at hc
  · next hremote =>
    obtain ⟨-, hc⟩ := Prod.mk.inj hc
    obtain ⟨rfl, rfl⟩ := Prod.mk.inj hc
    refine ⟨rfl, .inl ⟨rfl, fun hclear => ?_⟩⟩
    have hsome := hclear.2.1
    rw [Option.isNone_iff_eq_none.1 hremote] at hsome
    cases hsome
  next hremote =>
  split at hc
  · cases hc
  next there hthere =>
  split at hc
  · cases hc
  next hnew =>
  split at hc
  · next hside =>
    obtain ⟨-, hc⟩ := Prod.mk.inj hc
    obtain ⟨rfl, rfl⟩ := Prod.mk.inj hc
    refine ⟨rfl, .inl ⟨rfl, fun hclear => ?_⟩⟩
    cases htip : r.tip? with
    | none =>
      rw [htip] at hside
      cases hside
    | some here =>
      have hpast := hclear.2.2 here htip
      rw [hthere] at hpast
      simp [htip, hpast] at hside
  next hpast =>
  dsimp only at hc
  split at hc
  · next hs =>
    obtain ⟨he, hc⟩ := Prod.mk.inj hc
    obtain ⟨rfl, rfl⟩ := Prod.mk.inj hc
    obtain rfl := Except.error.inj he
    refine ⟨rfl, .inr ⟨some there, ?_, ⟨require_eq_ok_iff.1 hi, ?_, ?_⟩, hs⟩⟩
    · rw [target?_pull, hthere, Option.filter_some, if_pos (by simpa using hnew), Option.map_some]
    · simpa [← Option.isSome_iff_ne_none] using hremote
    · intro here hhere
      rw [Option.mem_def] at hhere
      rw [hthere]
      simpa [hhere] using hpast
  · cases hc

/-- An operation that is refused has changed nothing, or it has added paths up to one that is
refused, or it has replaced files up to one for which this is refused. -/
theorem run_eq_error (hc : c.run h p = (.error stop, p')) :
    (p' = p ∧ c.Harmless h p) ∨
      (∃ paths f, c = .add paths ∧ p.repository.initialized = true ∧ p'.world = p.world ∧
        addAll (p.repository.workingTree p.world.space) p.repository paths =
          (.error f, p'.repository)) ∨
      ((∀ paths, c ≠ .add paths) ∧ p'.repository = p.repository ∧
        ∃ target, Halted h p.repository p.world c stop p'.world target) := by
  have alone : ∀ {o : Except Fault (Option String × Repository)},
      Git.answered p o = (.error stop, p') → p' = p := by
    intro o ho
    unfold Git.answered at ho
    split at ho
    · cases ho
    · exact (Prod.mk.inj ho).2.symm
  cases c with
  | init => cases hc
  | add paths =>
    have hx : ((p.repository.add p.world.space paths).1.map fun _ => none).mapError .rejected =
        .error stop := congrArg Prod.fst hc
    obtain rfl : { p with repository := (p.repository.add p.world.space paths).2 } = p' :=
      congrArg Prod.snd hc
    obtain ⟨f, hf, -⟩ := mapError_eq_error.1 hx
    rcases add_eq_error (Prod.ext (map_eq_error.1 hf) rfl) with ⟨hi, hr⟩ | ⟨hi, hd⟩
    · exact .inl ⟨congrArg (Project.mk · p.world) hr, fun hclear => nomatch hi.symm.trans hclear⟩
    · exact .inr (.inl ⟨paths, f, rfl, hi, rfl, hd⟩)
  | reset path => exact .inl ⟨alone hc, False.elim⟩
  | commit message => exact .inl ⟨alone hc, False.elim⟩
  | createBranch name => exact .inl ⟨alone hc, False.elim⟩
  | checkout ref =>
    have hx : (p.repository.checkout h p.world ref).1.map (fun _ => none) = .error stop :=
      congrArg Prod.fst hc
    obtain rfl : ⟨(p.repository.checkout h p.world ref).2.2,
      (p.repository.checkout h p.world ref).2.1⟩ = p' := congrArg Prod.snd hc
    obtain ⟨hr, ⟨hw, hnone⟩ | hhalted⟩ := checkout_eq_error (Prod.ext (map_eq_error.1 hx) rfl)
    · refine .inl ⟨by rw [hr, hw], ?_⟩
      intro hclear target ht
      rw [hnone hclear] at ht
      cases ht
    · exact .inr (.inr ⟨fun _ he => (nomatch he), hr, hhalted⟩)
  | attachRemote name => cases hc
  | push => exact .inl ⟨alone hc, False.elim⟩
  | pull =>
    have hx : (p.repository.pull h p.world).1.map some = .error stop := congrArg Prod.fst hc
    obtain rfl : ⟨(p.repository.pull h p.world).2.2, (p.repository.pull h p.world).2.1⟩ = p' :=
      congrArg Prod.snd hc
    obtain ⟨hr, ⟨hw, hnone⟩ | hhalted⟩ := pull_eq_error (Prod.ext (map_eq_error.1 hx) rfl)
    · refine .inl ⟨by rw [hr, hw], ?_⟩
      intro hclear target ht
      rw [hnone hclear] at ht
      cases ht
    · exact .inr (.inr ⟨fun _ he => (nomatch he), hr, hhalted⟩)

end Repository

namespace Project

open Repository

variable {h : Host σ} {p p' : Project σ} {c : Git.Call} {stop : Stop}

/-- An operation that is refused keeps the branches, the commits and the trees. It leaves the index
and the files as they were exactly when the first change that it goes about is refused. -/
theorem rejected_unchanged (hp : p.Reachable) (hc : c.run h p = (.error stop, p'))
    (hmove : ∀ target ∈ c.target? p.repository, p.world.Settled h ∧
      p.repository.PlainTree p.repository.headTree ∧
      p.repository.PlainTree (p.repository.treeOf target)) :
    p'.repository = { p.repository with index := p'.repository.index } ∧
      (c.Harmless h p → p'.world = p.world ∧
        ∀ path, p'.repository.index.get? path = p.repository.index.get? path) ∧
      (p'.world.space.arena.Shows = p.world.space.arena.Shows →
        (∀ path, p'.repository.index.get? path = p.repository.index.get? path) →
          c.Harmless h p) := by
  rcases run_eq_error hc with ⟨rfl, hharmless⟩ | ⟨paths, f, rfl, hi, hw, hd⟩ |
    ⟨hadd, hr, target, hhalted⟩
  · exact ⟨rfl, fun _ => ⟨rfl, fun _ => rfl⟩, fun _ _ => hharmless⟩
  · have hiff := addAll_unchanged_iff hd
    obtain ⟨index, he⟩ := addAll_eq (p.repository.workingTree p.world.space) p.repository paths
    rw [hd] at he
    obtain rfl : p'.repository.index = index := congrArg Repository.index he
    refine ⟨he, fun hharmless => ⟨hw, hiff.2 (hharmless hi)⟩, fun _ hsame _ => hiff.1 hsame⟩
  · obtain ⟨hw, hold, hnew⟩ := hmove target hhalted.moves
    obtain ⟨hfirst, hshows⟩ := switchFiles_unchanged hw (hp.tidy.treeOf _) (hp.tidy.treeOf _) hold
      hnew hhalted.files
    have hiff : c.Harmless h p ↔ FirstRefused (Git.FileStep.Idle p.repository p.world.space)
        (fun a => ∃ e, (a.run p.repository h p.world).1 = .error e)
        (Git.fileSteps p.repository.headTree (p.repository.treeOf target)) := by
      unfold Git.Call.Harmless
      split
      · exact absurd rfl (hadd _)
      · constructor
        · intro hharmless
          exact hharmless hhalted.cleared target hhalted.moves
        · intro hfirst _ target' ht
          obtain rfl := Option.some.inj (hhalted.moves.symm.trans ht)
          exact hfirst
    rw [hiff, hr]
    exact ⟨rfl, fun hf => ⟨hfirst hf, fun _ => rfl⟩, fun hs _ => hshows hs⟩

/-- What is added again changes nothing, and what comes after it is refused. -/
theorem oneFile_unchanged : ∃ p', (Git.Call.add ["a", "nope"]).run freeHost oneFile =
      (.error (.rejected (.noMatch "nope")), p') ∧ p'.world = oneFile.world ∧
      ∀ path, p'.repository.index.get? path = oneFile.repository.index.get? path := by
  have hreach := reachable_newProject.acts lawful_freeHost
    [.inr .init, .inl (.create .file "a" rootId "one"), .inr (.add ["."])]
  have hrun : (Git.Call.add ["a", "nope"]).run freeHost oneFile =
      (.error (.rejected (.noMatch "nope")),
        ((Git.Call.add ["a", "nope"]).run freeHost oneFile).2) :=
    Prod.ext (by decide +kernel) rfl
  have hidle : oneFile.repository.SpecIdle
      (oneFile.repository.workingTree oneFile.world.space) "a" :=
    ⟨oneFile.repository.index, by decide +kernel, fun _ => rfl⟩
  have hrefused : oneFile.repository.SpecRefused
      (oneFile.repository.workingTree oneFile.world.space) "nope" :=
    ⟨.noMatch "nope", by decide +kernel⟩
  have hharmless : Git.Call.Harmless freeHost oneFile (.add ["a", "nope"]) := fun _ =>
    ⟨["a"], "nope", [], rfl, by simpa using hidle, hrefused⟩
  obtain ⟨-, hkept, -⟩ := rejected_unchanged hreach hrun fun _ ht => nomatch ht
  exact ⟨_, hrun, hkept hharmless⟩

/-! ### A path that is added before one that is refused -/

/-- A repository with a file that it has not been told of. -/
def newFile : Project Unit :=
  [.inr .init, .inl (.create .file "a" rootId "one")].foldl (act freeHost) newProject

/-- The file has been added, although the addition is rejected. -/
theorem added_before_rejected : newFile.Reachable ∧
    ((Git.Call.add ["a", "nope"]).run freeHost newFile).1 =
      .error (.rejected (.noMatch "nope")) ∧
    newFile.repository.index.get? "a" = none ∧
    ((Git.Call.add ["a", "nope"]).run freeHost newFile).2.repository.index.get? "a" =
      some "one" :=
  ⟨reachable_newProject.acts lawful_freeHost
      [.inr .init, .inl (.create .file "a" rootId "one")],
    by decide +kernel, by decide +kernel, by decide +kernel⟩

end Project

end Workbench
