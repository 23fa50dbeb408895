import Workbench.Proofs.Disk.Readable
import Workbench.Proofs.World.Bytes
import Workbench.Proofs.World.Recorded
import Workbench.Proofs.World.Resynced

/-!
# The check before a write

Before an operation on a bound workspace writes anything, it asks whether listings will hold what it
is about to write. It looks at the new name only, and at how deep the directory lies and how far
down the subtree goes. The subtree comes with names that are listed already (`World.Writes.fit`), so
this is the same as asking the bridge about every name on the way to every node
(`World.guard_eq_ok_iff`).

What is refused is refused before anything is asked of the bridge (`World.asked_of_guard_error`).
What is let through and done is followed by a listing, which the tree is rebuilt from
(`World.relisted_of_run`).
-/

namespace Workbench

open Workbench.Path (AreNames)
open Workspace (Placement)

variable {σ : Type}

/-- What an operation is about to write to the disk. -/
structure Writing where
  directory : Node
  name : String
  /-- How many levels there are below the top of what is written. -/
  height : Nat
  /-- Where the nodes are that are written, once they are. -/
  places : List (List String)
  calls : List DiskCall

namespace World

variable {h : Host σ} {w w₁ : World σ} {op : Operation} {t : Writing} {root : String} {r : Refusal}

/-- A subtree is written at another place. -/
def writingOf (w : World σ) (p : Placement) (calls : List DiskCall) : Writing where
  directory := p.target
  name := p.name
  height := w.space.arena.height p.node.id
  places := (w.space.carriedTo p.node.id (w.placeIn p.target p.name)).map Prod.fst
  calls := calls

/-- What an operation on a bound workspace writes that has passed all checks of the tree. -/
inductive Writes (w : World σ) : Operation → Writing → Prop
  | create {kind : NodeKind} {name content : String} {parentId : NodeId} {d : Node}
      (hc : w.space.checkCreate name parentId = .ok d) :
      Writes w (.create kind name parentId content)
        ⟨d, name, 0, [w.placeIn d name], [w.creation kind d name content]⟩
  | rename {id : NodeId} {name : String} {n : Node} {p : Placement}
      (hc : w.space.checkUpdate id { name := some name } = .ok (n, some p)) :
      Writes w (.rename id name) (w.writingOf p [w.relocation p.node p.target.id p.name])
  | update {id : NodeId} {changes : NodeUpdate} {n : Node} {p : Placement}
      (hc : w.space.checkUpdate id changes = .ok (n, some p)) :
      Writes w (.update id changes) (w.writingOf p [w.relocation p.node p.target.id p.name])
  | move {id targetId : NodeId} {name? : Option String} {p : Placement}
      (hc : w.space.checkMove id targetId name? = .ok p) (hs : p.isSame = false) :
      Writes w (.move id targetId name?) (w.writingOf p [w.relocation p.node p.target.id p.name])
  | copy {id targetId : NodeId} {name? : Option String} {p : Placement}
      (hc : w.space.checkCopy id targetId name? = .ok p) :
      Writes w (.copy id targetId name?) (w.writingOf p (w.copyCalls p))

end World

/-- An operation that takes nothing elsewhere that was there. -/
def Operation.Adds : Operation → Prop
  | .create .. | .copy .. => True
  | _ => False

/-- The check before the first call. -/
def Writing.guard (t : Writing) (h : Host σ) (w : World σ) : Except Refusal Unit :=
  h.checkListed w t.directory t.name t.height

/-- What is written comes to a new place in a directory. It goes as deep as it says, and has the
names of nodes that are there. -/
structure Writing.Fit (t : Writing) (w : World σ) : Prop where
  directory : w.space.arena.Shows (w.space.arena.namesTo t.directory.id) none
  name : Path.isName t.name = true
  free : Shape.Free w.space.arena.Shows (w.placeIn t.directory t.name)
  top : w.placeIn t.directory t.name ∈ t.places
  below : ∀ q ∈ t.places, ∃ r, q = w.placeIn t.directory t.name ++ r ∧
    ∀ s ∈ r, ∃ q' c, s ∈ q' ∧ w.space.arena.Shows q' c
  height : ∀ k, t.height ≤ k ↔ ∀ r, w.placeIn t.directory t.name ++ r ∈ t.places → r.length ≤ k

theorem Writing.Fit.ne_nil {t : Writing} {w : World σ} {q : List String} (ht : t.Fit w)
    (hq : q ∈ t.places) : q ≠ [] := by
  obtain ⟨r, rfl, -⟩ := ht.below q hq
  simp [World.placeIn]

namespace World

variable {h : Host σ} {w w₁ : World σ} {op : Operation} {t : Writing} {root : String} {r : Refusal}

/-! ## What the check does -/

theorem guard_writingOf (h : Host σ) (w : World σ) (p : Placement) (calls : List DiskCall) :
    (w.writingOf p calls).guard h w =
      h.checkListed w p.target p.name (w.space.arena.height p.node.id) := rfl

/-- What the check refuses is refused, and nothing has happened. -/
theorem run_of_guard_error (hb : w.space.boundRoot = some root) (hw : w.Writes op t)
    (hg : t.guard h w = .error r) : op.run h w = (.error (.refused r), w) := by
  have hbound : ¬ w.space.boundRoot.isNone = true := by simp [hb]
  have hrelabel : ∀ {p calls}, (w.writingOf p calls).guard h w = .error r →
      w.relabel h p = (.error (.refused r), w) := by
    intro p calls hg
    rw [guard_writingOf] at hg
    simp only [relabel, if_neg hbound, hg]
    rfl
  cases hw with
  | create hc =>
    have hg : h.checkListed w _ _ 0 = .error r := hg
    simp only [Operation.run, World.create, hc, if_neg hbound, hg]
    rfl
  | rename hc =>
    simp only [Operation.run, World.rename, World.update, hc, hrelabel hg]
    rfl
  | update hc =>
    simp only [Operation.run, World.update, hc, hrelabel hg]
    rfl
  | move hc hs =>
    rw [guard_writingOf] at hg
    simp only [Operation.run, World.move, hc, hs, Bool.false_eq_true, ↓reduceIte, if_neg hbound, hg]
    rfl
  | copy hc =>
    rw [guard_writingOf] at hg
    simp only [Operation.run, World.copy, hc, if_neg hbound, hg]
    rfl

theorem Writes.unrecorded (hw : w.Writes op t) : w.unrecorded.Writes op t := by
  cases hw with
  | create hc => exact .create hc
  | rename hc => exact .rename hc
  | update hc => exact .update hc
  | move hc hs => exact .move hc hs
  | copy hc => exact .copy hc

theorem guard_unrecorded (h : Host σ) (w : World σ) (t : Writing) :
    t.guard h.recorded w.unrecorded = t.guard h w := by
  obtain ⟨_ | b, now⟩ := h <;> rfl

/-- Nothing is asked of the bridge for what the check refuses. -/
theorem asked_of_guard_error (hb : w.space.boundRoot = some root) (hw : w.Writes op t)
    (hg : t.guard h w = .error r) : op.asked h w = [] := by
  rw [← guard_unrecorded] at hg
  have hb : w.unrecorded.space.boundRoot = some root := hb
  rw [Operation.asked, run_of_guard_error hb hw.unrecorded hg]
  rfl

/-! ## What follows the calls -/

/-- The disk has been listed, and the tree has been rebuilt from the listing, or left as it was when
there is none. -/
def Relisted (h : Host σ) (w w₁ : World σ) (root : String) (w' : World σ) : Prop :=
  w'.disk = (h.list w₁ root).2.disk ∧
    ((∃ r, (h.list w₁ root).1 = .error r ∧ w'.space = w.space) ∨
      ∃ F, (h.list w₁ root).1 = .ok F ∧ w'.space.Sound ∧
        ∀ q c, w'.space.arena.Shows q c ↔ (q = [] ∧ c = none) ∨ Lists F q c)

section Ends

variable {carried : Workspace.Carried} {call : DiskCall} {a : Except Refusal Unit} {w₂ : World σ}
  (hs : w.space.Sound) (hb : w.space.boundRoot = some root) (hc : carried.Fit w.space)
  (hF : ∀ F, (h.list w₁ root).1 = .ok F → ProperListing F)

include hs hb hc hF

theorem relisted_of_resync (hw : w₁.space = w.space) (he : h.resync w₁ carried = (a, w₂)) :
    Relisted h w w₁ root w₂ ∧ (a = .ok () → ∃ F, (h.list w₁ root).1 = .ok F) := by
  have hroot : w₁.space.boundRoot.getD "" = root := by rw [hw, hb, Option.getD_some]
  have hdisk := h.resync_disk w₁ carried
  rw [he, hroot] at hdisk
  rcases h.resync_cases w₁ carried with ⟨r, hl, ha, hspace⟩ | ⟨F, hl, -, hspace⟩
  · rw [hroot] at hl
    rw [he] at hspace ha
    have ha : a = .error r := ha
    exact ⟨⟨hdisk, .inl ⟨r, hl, hspace.trans hw⟩⟩, fun hok => nomatch ha.symm.trans hok⟩
  · rw [hroot] at hl
    rw [he, hw] at hspace
    have hspace : w₂.space = w.space.rebuilt F carried h.now := hspace
    refine ⟨⟨hdisk, .inr ⟨F, hl, ?_⟩⟩, fun _ => ⟨F, hl⟩⟩
    rw [hspace]
    exact ⟨hs.rebuilt hc (hF F hl) h.now, fun q c =>
      Workspace.shows_loaded_iff (hs.filled hc (hF F hl) h.now)⟩

theorem relisted_of_writeThrough (hd : h.performAll w [call] = (.ok (), w₁))
    (he : h.writeThrough w call carried = (a, w₂)) :
    Relisted h w w₁ root w₂ ∧ (a = .ok () → ∃ F, (h.list w₁ root).1 = .ok F) := by
  unfold Host.writeThrough at he
  rw [h.perform_of_performAll hd] at he
  exact relisted_of_resync hs hb hc hF (Host.space_of_performAll hd) he

end Ends

/-- Marks make no difference. -/
theorem Relisted.mark {w₂ w' : World σ} {F : List DiskEntry} {id : NodeId} {changes : NodeUpdate}
    {a : Except Setback Node} (hr : Relisted h w w₁ root w₂)
    (hl : (h.list w₁ root).1 = .ok F) (hm : w₂.MarkEnds id changes a w') :
    Relisted h w w₁ root w' := by
  cases hm with
  | missing => exact hr
  | marked =>
    obtain ⟨hdisk, ⟨r, he, -⟩ | ⟨G, hG, hs, hshows⟩⟩ := hr
    · exact nomatch hl.symm.trans he
    · have hmarked := Workspace.Effect.marked hs id changes
      exact ⟨hdisk, .inr ⟨G, hG, hmarked.sound, fun q c => by rw [hmarked.shows, hshows]⟩⟩

/-- A node gets another name in its directory, and then its marks. -/
theorem relisted_of_update {p : Placement} {id : NodeId} {changes : NodeUpdate} {n : Node}
    (hs : w.space.Sound) (hb : w.space.boundRoot = some root)
    (hc : w.space.checkUpdate id changes = .ok (n, some p))
    (hg : h.checkListed w p.target p.name (w.space.arena.height p.node.id) = .ok ())
    (hF : ∀ F, (h.list w₁ root).1 = .ok F → ProperListing F)
    (hd : h.performAll w [w.relocation p.node p.target.id p.name] = (.ok (), w₁)) :
    Relisted h w w₁ root (w.update h id changes).2 := by
  obtain ⟨hn, hp, hgo⟩ := Workspace.mayGo_of_checkUpdate hs.tree hc
  have hcarried := Workspace.Carried.Fit.carriedTo hs.tree hn hgo.notRoot
    (w.placeIn p.target p.name)
  simp only [relocation, if_pos hp.symm] at hd
  rcases he : w.update h id changes with ⟨a, w'⟩
  cases update_ends he with
  | rejected hc' => cases hc.symm.trans hc'
  | marked hc' => cases hc.symm.trans hc'
  | unnamed hc' hr =>
    cases hc.symm.trans hc'
    cases relabel_ends hr with
    | unlisted _ hl => cases hg.symm.trans hl
    | failed _ _ hw => exact (relisted_of_writeThrough hs hb hcarried hF hd hw).1
  | renamed hc' hr hm =>
    cases hc.symm.trans hc'
    cases relabel_ends hr with
    | renamed hf => cases hf.symm.trans hb
    | written _ _ hw =>
      obtain ⟨hr, hok⟩ := relisted_of_writeThrough hs hb hcarried hF hd hw
      obtain ⟨F, hl⟩ := hok rfl
      exact hr.mark hl hm

/-- An operation that has been let through and whose calls are done shows what is listed then. -/
theorem relisted_of_run (hs : w.space.Sound) (hb : w.space.boundRoot = some root)
    (hw : w.Writes op t) (hg : t.guard h w = .ok ())
    (hF : ∀ F, (h.list w₁ root).1 = .ok F → ProperListing F)
    (hd : h.performAll w t.calls = (.ok (), w₁)) :
    Relisted h w w₁ root (op.run h w).2 := by
  cases hw with
  | @create kind name content parentId d hc =>
    show Relisted h w w₁ root (w.create h kind name parentId content).2
    rcases he : w.create h kind name parentId content with ⟨a, w'⟩
    cases create_ends he with
    | rejected hc' => cases hc.symm.trans hc'
    | added _ hf => cases hf.symm.trans hb
    | unlisted hc' _ hl =>
      cases hc.symm.trans hc'
      cases hl.symm.trans hg
    | failed hc' _ _ hw | written hc' _ _ hw =>
      cases hc.symm.trans hc'
      exact (relisted_of_writeThrough hs hb .nil hF hd hw).1
  | rename hc => exact relisted_of_update hs hb hc hg hF hd
  | update hc => exact relisted_of_update hs hb hc hg hF hd
  | @move id targetId name? p hc hsame =>
    have hp := Workspace.found_of_checkMove hs.tree hc
    have hcarried := Workspace.Carried.Fit.carriedTo hs.tree hp.node hp.notRoot
      (w.placeIn p.target p.name)
    show Relisted h w w₁ root (w.move h id targetId name?).2
    rcases he : w.move h id targetId name? with ⟨a, w'⟩
    cases move_ends he with
    | rejected hc' => cases hc.symm.trans hc'
    | kept hc' hsame' =>
      cases hc.symm.trans hc'
      cases hsame.symm.trans hsame'
    | moved _ _ hf => cases hf.symm.trans hb
    | unlisted hc' _ _ hl =>
      cases hc.symm.trans hc'
      cases hl.symm.trans hg
    | failed hc' _ _ _ hw | written hc' _ _ _ hw =>
      cases hc.symm.trans hc'
      exact (relisted_of_writeThrough hs hb hcarried hF hd hw).1
  | @copy id targetId name? p hc =>
    have hd : h.performAll w (w.copyCalls p) = (.ok (), w₁) := hd
    show Relisted h w w₁ root (w.copy h id targetId name?).2
    rcases he : w.copy h id targetId name? with ⟨a, w'⟩
    cases copy_ends he with
    | rejected hc' => cases hc.symm.trans hc'
    | copied _ hf => cases hf.symm.trans hb
    | unlisted hc' _ hl =>
      cases hc.symm.trans hc'
      cases hl.symm.trans hg
    | interrupted hc' _ _ hd' =>
      cases hc.symm.trans hc'
      cases hd.symm.trans hd'
    | unseen hc' _ _ hd' hr | written hc' _ _ hd' hr =>
      cases hc.symm.trans hc'
      cases hd.symm.trans hd'
      exact (relisted_of_resync hs hb .nil hF (Host.space_of_performAll hd) hr).1

/-! ## What is written -/

theorem mem_places_writingOf {p : Placement} {q : List String} (hs : w.space.Sound)
    (hn : w.space.arena.get? p.node.id = some p.node) (calls : List DiskCall) :
    q ∈ (w.writingOf p calls).places ↔ ∃ y r, q = w.placeIn p.target p.name ++ r ∧
      w.space.arena.Leads y (w.space.arena.namesTo p.node.id ++ r) := by
  have hx := hs.tree.leads_namesTo hn
  rw [writingOf, List.mem_map]
  constructor
  · rintro ⟨⟨q, y⟩, hq, rfl⟩
    exact ⟨y, (Workspace.Effect.mem_carriedTo_iff_leads hs hx _).1 hq⟩
  · rintro ⟨y, hy⟩
    exact ⟨(q, y), (Workspace.Effect.mem_carriedTo_iff_leads hs hx _).2 hy, rfl⟩

/-- A subtree goes as deep at its new place as it went before, with the names that it had. -/
theorem fit_writingOf {p : Placement} (hs : w.space.Sound)
    (hn : w.space.arena.get? p.node.id = some p.node)
    (hd : w.space.arena.get? p.target.id = some p.target) (hk : p.target.kind = .directory)
    (hname : Path.isName p.name = true)
    (hfree : Shape.Free w.space.arena.Shows (w.placeIn p.target p.name)) (calls : List DiskCall) :
    (w.writingOf p calls).Fit w where
  directory := ⟨_, _, hs.tree.leads_namesTo hd, hd, Node.shown_eq_none_iff.2 hk⟩
  name := hname
  free := hfree
  top := by
    have hx := hs.tree.leads_namesTo hn
    rw [← List.append_nil (w.space.arena.namesTo p.node.id)] at hx
    exact (mem_places_writingOf hs hn calls).2 ⟨_, [], (List.append_nil _).symm, hx⟩
  below q hq := by
    obtain ⟨y, r, rfl, hy⟩ := (mem_places_writingOf hs hn calls).1 hq
    obtain ⟨m, hm⟩ := hs.tree.mem_of_leads hy
    exact ⟨r, rfl, fun s hmem => ⟨_, m.shown, List.mem_append_right _ hmem, y, m, hy, hm, rfl⟩⟩
  height k := by
    refine (hs.tree.height_le_iff (hs.tree.leads_namesTo hn)).trans ?_
    constructor
    · intro hle r hr
      obtain ⟨y, r', he, hy⟩ := (mem_places_writingOf hs hn calls).1 hr
      obtain rfl := List.append_cancel_left he
      exact hle y r hy
    · intro hle y r hy
      exact hle r ((mem_places_writingOf hs hn calls).2 ⟨y, r, rfl, hy⟩)

theorem fit_of_checkUpdate {id : NodeId} {changes : NodeUpdate} {n : Node} {p : Placement}
    (hs : w.space.Sound) (hc : w.space.checkUpdate id changes = .ok (n, some p))
    (calls : List DiskCall) : (w.writingOf p calls).Fit w := by
  obtain ⟨hn, hp, hgo⟩ := Workspace.mayGo_of_checkUpdate hs.tree hc
  obtain ⟨rfl, -, -, hne, -, hname, hparent, -⟩ := Workspace.checkUpdate_some hc
  obtain ⟨hd, -⟩ := of_parent? hs hn hparent
  obtain ⟨d, hd', hk⟩ := hgo.directory
  obtain rfl := Option.some.inj (hd.symm.trans hd')
  have hfree := hs.free_place hgo hn (hs.tree.leads_namesTo hd) fun _ he => hne he.symm
  exact fit_writingOf hs hn hd hk hname hfree calls

theorem Writes.fit (hw : w.Writes op t) (hs : w.space.Sound) : t.Fit w := by
  cases hw with
  | @create kind name content parentId d hc =>
    obtain ⟨hname, hd, hk, hfree⟩ := Workspace.checkCreate_eq_ok_iff.1 hc
    obtain rfl := hs.tree.keyed hd
    have hl := hs.tree.leads_namesTo hd
    refine ⟨⟨_, d, hl, hd, Node.shown_eq_none_iff.2 hk⟩, hname,
      hs.tree.free_of_childNamed? hl hd hfree, List.mem_singleton_self _, fun q hq => ?_,
      fun k => ?_⟩
    · exact ⟨[], by rw [List.mem_singleton.1 hq, List.append_nil], fun _ h => nomatch h⟩
    · refine iff_of_true (Nat.zero_le k) fun r hr => ?_
      rw [List.append_right_eq_self.1 (List.mem_singleton.1 hr)]
      exact Nat.zero_le k
  | rename hc => exact fit_of_checkUpdate hs hc _
  | update hc => exact fit_of_checkUpdate hs hc _
  | @move id targetId name? p hc hsame =>
    have hp := Workspace.found_of_checkMove hs.tree hc
    have hgo := Workspace.mayGo_of_checkMove hs.tree hc hsame
    have hfree := hs.free_place hgo hp.node (hs.tree.leads_namesTo hp.target) fun hq he => by
      simp [Placement.isSame, hq, he] at hsame
    exact fit_writingOf hs hp.node hp.target hp.directory hp.isName hfree _
  | @copy id targetId name? p hc =>
    obtain ⟨-, -, hfree⟩ := Workspace.checkCopy_eq_ok hc
    have hp := Workspace.found_of_checkCopy hs.tree hc
    exact fit_writingOf hs hp.node hp.target hp.directory hp.isName
      (hs.tree.free_of_childNamed? (hs.tree.leads_namesTo hp.target) hp.target hfree) _

/-- The check lets through what the bridge says is listed at every place. -/
theorem guard_eq_ok_iff {b : Bridge σ} {limit : Int} (ht : t.Fit w) (hb : h.bridge = some b)
    (hlimit : b.maxDepth = some limit) (hcovers : ∀ {q c}, w.space.arena.Shows q c → b.Covers q) :
    t.guard h w = .ok () ↔ ∀ q ∈ t.places, b.Covers q := by
  have hguard : t.guard h w = .ok () ↔ t.name ∉ b.ignored ∧
      ((w.space.arena.namesTo t.directory.id).length + 1 + t.height : Int) ≤ limit := by
    simp only [Writing.guard, Host.checkListed, hb, hlimit]
    split
    · next hi =>
      have hi : t.name ∈ b.ignored := by simpa using hi
      simp [hi]
    · next hi =>
      have hi : t.name ∉ b.ignored := by simpa using hi
      split
      · next hle => simpa [hi] using hle
      · next hle => simpa [hi] using hle
  have hplace : w.placeIn t.directory t.name =
    w.space.arena.namesTo t.directory.id ++ [t.name] := rfl
  obtain ⟨habove, -⟩ := (Bridge.covers_iff hlimit).1 (hcovers ht.directory)
  rw [hguard]
  constructor
  · rintro ⟨hi, hle⟩ q hq
    obtain ⟨r, rfl, hr⟩ := ht.below q hq
    have hlen := (ht.height _).1 (Nat.le_refl _) r hq
    rw [Bridge.covers_iff hlimit, hplace]
    refine ⟨fun s hs => ?_, fun _ => ?_⟩
    · simp only [List.mem_append, List.mem_singleton] at hs
      rcases hs with (hs | rfl) | hs
      · exact habove s hs
      · exact hi
      · obtain ⟨q', c, hmem, hshows⟩ := hr s hs
        exact ((Bridge.covers_iff hlimit).1 (hcovers hshows)).1 s hmem
    · simp only [List.length_append, List.length_singleton]
      omega
  · intro hall
    obtain ⟨htop, hlen⟩ := (Bridge.covers_iff hlimit).1 (hall _ ht.top)
    have hlen := hlen (by simp [hplace])
    simp only [hplace, List.length_append, List.length_singleton] at hlen
    refine ⟨htop _ (by simp [hplace]), ?_⟩
    have hheight := (ht.height (limit.toNat - (w.space.arena.namesTo t.directory.id).length - 1)).2
      fun r hr => by
        have hdeep := ((Bridge.covers_iff hlimit).1 (hall _ hr)).2 (by simp [hplace])
        simp only [hplace, List.length_append, List.length_singleton] at hdeep
        omega
    omega

end World

end Workbench
