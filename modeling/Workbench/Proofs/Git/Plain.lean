import Workbench.Proofs.Git.Files
import Workbench.Proofs.Git.Runs
import Workbench.Proofs.World.Plain
import Workbench.Terminal.Versioning

/-!
# Repositories over plain names

The paths of a repository come out of its working tree. Where all names of the workspace are plain,
so are the names on its paths; and when files are written at such paths again, the names of the
workspace stay plain (`Project.Plain.run`).

The command for the version history is made of operations of the repository
(`Versioning.called_run`), so that it keeps what all of them keep.
-/

namespace Workbench

open Workbench.Path (AreNames ArePlain)

variable {σ : Type} {home : String} {h : Host σ}

namespace Repository

variable {r r' : Repository} {w : World σ} {path : String} {op : Operation}

/-- Writing at a tracked path of plain names asks for plain names only. -/
theorem plain_of_writes (hw : w.Plain home) (ht : r.Tracks path) (hp : r.IsPlain path)
    (hop : r.Writes path op) : (op.run h w).2.Plain home := by
  have hnames := ht.names
  have hplain : ArePlain (r.placeOf path) := hp
  have hwritten := ht.written
  cases hplace : r.placeOf path using List.reverseRecOn with
  | nil => exact absurd hplace ht.ne_nil
  | append_singleton names s =>
    rw [hplace] at hnames hplain hwritten
    obtain ⟨hnamesAbove, -⟩ := AreNames.append_iff.1 hnames
    obtain ⟨hplainAbove, hs⟩ := ArePlain.append_iff.1 hplain
    cases hop with
    | content id content => exact hw.setContent h id content
    | directories hsplit =>
      rw [← hwritten, splitLast_ofNames hnames] at hsplit
      obtain ⟨rfl, rfl⟩ := Prod.mk.inj hsplit
      have hstrip := Path.strip_ofNames_of_isPlain hplainAbove.getLast?
      refine hw.ensureDirectories ?_ h
      rw [directory_ofNames, Path.absolute_of_strip hstrip, Path.segments_ofNames hnamesAbove]
      exact hplainAbove
    | file hsplit id content =>
      rw [← hwritten, splitLast_ofNames hnames] at hsplit
      obtain ⟨rfl, rfl⟩ := Prod.mk.inj hsplit
      exact hw.create (ArePlain.singleton_iff.1 hs) h .file id content

theorem isPlain_of_workingTree (hw : w.Plain home)
    (hp : path ∈ (r.workingTree w.space).keys) : r.Tracks path ∧ r.IsPlain path := by
  have htree := hw.free.sound.tree
  obtain ⟨content, hget⟩ := Table.mem_keys_iff.1 hp
  have hfile := hasFile_of_workingTree htree hget
  have ht := tracks_of_hasFile htree hfile
  exact ⟨ht, hw.names _ _ ((ht.hasFile_iff htree).1 hfile)⟩

end Repository

namespace Project

/-- A repository and a free workspace in which all names are plain. -/
structure Plain (home : String) (p : Project σ) : Prop where
  world : p.world.Plain home
  paths : p.repository.Holds p.repository.root fun path =>
    p.repository.Tracks path ∧ p.repository.IsPlain path

/-- What is asked of a repository. -/
inductive Called (h : Host σ) (p : Project σ) : Project σ → Prop
  | refl : Called h p p
  | step {p' : Project σ} (hp : Called h p p') (c : Git.Call) : Called h p (c.run h p').2

namespace Plain

variable {p p' : Project σ}

theorem new {w : World σ} (hw : w.Plain home) (root author : String) :
    Plain home ⟨.new root author, w⟩ where
  world := hw
  paths := .new root author _

theorem run (hp : p.Plain home) (c : Git.Call) : (c.run h p).2.Plain home where
  world := by
    refine (Repository.led_run h p c).keeps (fun w op hw hop => ?_) hp.world
    cases hop with
    | deletes id => exact hw.delete h id false
    | writes hstored hop =>
      obtain ⟨ht, hplain⟩ := hp.paths.stored _ hstored
      exact Repository.plain_of_writes hw ht hplain hop
  paths := by
    have hafter := hp.paths.run (fun _ hmem => Repository.isPlain_of_workingTree hp.world hmem) h c
    have hroot := hafter.root_eq
    have hsame : ∀ {path}, p.repository.Tracks path ∧ p.repository.IsPlain path →
        (c.run h p).2.repository.Tracks path ∧ (c.run h p).2.repository.IsPlain path := by
      rintro path ⟨ht, hplain⟩
      refine ⟨ht.congr hroot, ?_⟩
      rw [Repository.IsPlain, Repository.placeOf_congr hroot]
      exact hplain
    rw [hroot]
    exact ⟨hroot, fun path hmem => hsame (hafter.index path hmem),
      fun path hstored => hsame (hafter.stored path hstored)⟩

theorem called (hp : p.Plain home) (hc : p.Called h p') : p'.Plain home := by
  induction hc with
  | refl => exact hp
  | step _ c ih => exact ih.run c

end Plain

end Project

/-! ## The command -/

namespace Versioning

open Project (Called)

variable (h : Host σ) (w : World σ)

/-- The project that a subcommand leaves. -/
def Ending.project (e : Ending σ) : Project σ := ⟨e.repository, e.world⟩

variable {r r' : Repository}

/-- An operation on the repository alone that succeeds. -/
theorem called_of_answered {p p' : Project σ} {c : Git.Call} (hp : Called h p p')
    {o : Except Git.Fault (Option String × Repository)} {text : Option String}
    (hrun : c.run h p' = Git.answered p' o) (ho : o = .ok (text, r)) :
    Called h p ⟨r, p'.world⟩ := by
  have hstep := hp.step c
  rw [hrun, ho] at hstep
  exact hstep

theorem called_resetAll (a : Reply) {p : Project σ} (args : List String) (r : Repository)
    (hp : Called h p ⟨r, w⟩) : Called h p (resetAll w a r args).project := by
  induction args generalizing r with
  | nil => exact hp
  | cons path rest ih =>
    rw [resetAll]
    split
    · next r' hr =>
      apply ih
      exact called_of_answered h hp (c := .reset path) rfl (by rw [hr]; rfl)
    · exact hp

theorem called_checkout (r : Repository) (args : List String) :
    Called h ⟨r, w⟩ (checkout h w r args).project := by
  unfold checkout
  split
  · exact .refl
  · exact .refl
  · next name _ =>
    split
    · exact .refl
    · next r' hr =>
      have hcreated : Called h ⟨r, w⟩ ⟨r', w⟩ :=
        called_of_answered h .refl (c := .createBranch name) rfl (by rw [hr]; rfl)
      exact hcreated.step (.checkout name)
  · next name _ _ _ => exact Called.refl.step (.checkout name)

/-- Every subcommand is made of operations of the repository. -/
theorem called_carryOut (r : Repository) (verb : GitVerb) (args : List String) :
    Called h ⟨r, w⟩ (carryOut h w r verb args).project := by
  cases verb with
  | init => exact Called.refl.step .init
  | status => exact .refl
  | add =>
    unfold carryOut
    dsimp only
    split
    · exact .refl
    · exact Called.refl.step (.add args)
  | reset =>
    unfold carryOut
    dsimp only
    split
    · exact .refl
    · exact called_resetAll h w _ args r .refl
  | commit =>
    unfold carryOut commit
    dsimp only
    split
    · exact .refl
    · next message _ =>
      split
      · exact .refl
      · next hr => exact called_of_answered h .refl (c := .commit message) rfl (by rw [hr]; rfl)
  | branch =>
    unfold carryOut branch
    dsimp only
    split
    · next name _ =>
      unfold changed
      split
      · next hr => exact called_of_answered h .refl (c := .createBranch name) rfl (by rw [hr]; rfl)
      · exact .refl
    · exact .refl
  | checkout => exact called_checkout h w r args
  | log =>
    unfold carryOut log
    dsimp only
    split
    · exact .refl
    · split
      · exact .refl
      · exact .refl
  | push =>
    unfold carryOut
    dsimp only
    split
    · next hr => exact called_of_answered h .refl (c := .push) rfl (by rw [hr]; rfl)
    · exact .refl
  | pull => exact Called.refl.step .pull

theorem called_run (r : Repository) (verb : GitVerb) (args : List String) :
    Called h ⟨r, w⟩ ⟨(run h w r verb args).2.2, (run h w r verb args).2.1⟩ :=
  called_carryOut h w r verb args

end Versioning

end Workbench
