import Workbench.Proofs.World.Guarded

/-!
# Nodes that are lost

At its end an operation on a bound workspace looks nodes up again, in a tree that has been rebuilt
from whatever the disk reports. Every such look-up but two is prepared to find nothing. The two are
those of the directory in which something has just been created or copied: where the listing no
longer holds this directory, the operation breaks off (`Setback.lost`) and does not answer.

`World.lost_iff` says of every operation when this happens. It rests on one fact about rebuilding:
a directory is still there under its id exactly when the listing holds a directory at its place
(`Workspace.Sound.node?_rebuilt_eq_none_iff`). Creating the directories of a path is creating one
after another, so there it is any one of them (`World.BreaksOff`).
-/

namespace Workbench

variable {σ : Type} {h : Host σ} {w w' w₁ : World σ} {id x parentId : NodeId} {root : String}
  {op : Operation} {t : Writing}

/-- A listing holds a directory at a place; what is listed is one itself. -/
def HoldsDirectory (F : List DiskEntry) (q : List String) : Prop := q = [] ∨ Lists F q none

/-- After a plain rebuilding the id of a directory is gone exactly when the listing holds no
directory where it was. -/
theorem Workspace.Sound.node?_rebuilt_eq_none_iff {s : Workspace} {d : Node} {F : List DiskEntry}
    (hs : s.Sound) (hd : s.node? id = some d) (hk : d.kind = .directory) (hF : ProperListing F)
    (now : Timestamp) : (s.rebuilt F [] now).node? id = none ↔
      ¬ HoldsDirectory F (s.arena.namesTo id) := by
  have hl := hs.tree.leads_namesTo hd
  have hf := hs.filled .nil hF now
  rw [← not_iff_not, not_not, ← ne_eq, Option.ne_none_iff_exists']
  constructor
  · rintro ⟨m, hm⟩
    rcases Workspace.loaded_cases hf hm with rfl | ⟨q, -, hq, hg⟩
    · exact .inl (hs.tree.leads_unique hl .root)
    · unfold Known.Gives at hg
      split at hg
      · next n hn =>
        -- the entry has been given the id of the node that was at its place, which is this one
        obtain ⟨hlived, hget, hkind⟩ := (known_node?_eq_some_iff hs (Effect.mem_known_nil_iff hs)
          fun hx hy => hs.tree.leads_injective hx hy).1 hn
        rw [hg] at hlived hget
        obtain rfl := Option.some.inj (hd.symm.trans hget)
        rw [hs.tree.leads_unique hl hlived]
        rw [Node.shown_eq_none_iff.2 (hkind.symm.trans hk)] at hq
        exact .inr hq
      · obtain ⟨j, hj, rfl⟩ := hg
        cases hd.symm.trans (hs.unused j hj)
  · rintro (hq | hq)
    · obtain ⟨r, hr, -⟩ := (hs.rebuilt .nil hF now).tree.root
      rw [hq] at hl
      exact ⟨r, hs.tree.leads_injective hl .root ▸ hr⟩
    · obtain ⟨y, m, -, hm, hshown, ⟨hlived, -⟩ | ⟨hnot, -⟩⟩ := (hs.resynced_nil hF now).ids hq
      · exact ⟨m, hs.tree.leads_injective hl hlived ▸ hm⟩
      · exact absurd (hk.trans (Node.shown_eq_none_iff.1 hshown).symm) (hnot hl hd)

namespace World

/-! ## Operations that never lose a node -/

theorem answer_ne_lost (w : World σ) (id : NodeId) : (w.answer id).1 ≠ .error (.lost x) := by
  unfold answer
  split
  · rintro ⟨⟩
  · rintro ⟨⟩

theorem delete_ne_lost (h : Host σ) (w : World σ) (id : NodeId) (recursive : Bool) :
    (w.delete h id recursive).1 ≠ .error (.lost x) := by
  intro hx
  cases delete_ends (Prod.ext hx rfl)

theorem relabel_ne_lost (h : Host σ) (w : World σ) (p : Workspace.Placement) :
    (w.relabel h p).1 ≠ .error (.lost x) := by
  intro hx
  cases relabel_ends (Prod.ext hx rfl)

theorem update_ne_lost (h : Host σ) (w : World σ) (id : NodeId) (changes : NodeUpdate) :
    (w.update h id changes).1 ≠ .error (.lost x) := by
  intro hx
  cases update_ends (Prod.ext hx rfl) with
  | marked _ hm | renamed _ _ hm => cases hm
  | unnamed _ hr => exact relabel_ne_lost h w _ (congrArg Prod.fst hr)

theorem move_ne_lost (h : Host σ) (w : World σ) (id target : NodeId) (name : Option String) :
    (w.move h id target name).1 ≠ .error (.lost x) := by
  intro hx
  cases move_ends (Prod.ext hx rfl) with
  | moved _ _ _ _ ha | written _ _ _ _ _ ha => exact answer_ne_lost _ id ha

theorem setContent_ne_lost (h : Host σ) (w : World σ) (id : NodeId) (content : String) :
    (w.setContent h id content).1 ≠ .error (.lost x) := by
  intro hx
  cases setContent_ends (Prod.ext hx rfl) with
  | refilled _ _ _ ha | written _ _ _ ha => exact answer_ne_lost _ id ha

theorem touch_ne_lost (h : Host σ) (w : World σ) (id : NodeId) :
    (w.touch h id).1 ≠ .error (.lost x) := by
  intro hx
  cases touch_ends (Prod.ext hx rfl) with
  | rewritten _ _ _ hw => exact setContent_ne_lost h w id _ (congrArg Prod.fst hw)
  | touched _ _ _ ha => exact answer_ne_lost _ id ha

theorem openTab_ne_lost (w : World σ) (id : NodeId) : (w.openTab id).1 ≠ .error (.lost x) := by
  intro hx
  cases openTab_ends (Prod.ext hx rfl)

theorem bind_ne_lost (h : Host σ) (w : World σ) (root : String) :
    (w.bind h root).1 ≠ .error (.lost x) := by
  intro hx
  cases bind_ends (Prod.ext hx rfl) with
  | bound _ _ ha => exact answer_ne_lost _ rootId ha

theorem resync_ne_lost (h : Host σ) (w : World σ) : (w.resync h).1 ≠ .error (.lost x) := by
  intro hx
  cases resync_ends (Prod.ext hx rfl) with
  | rebuilt _ _ ha => exact answer_ne_lost _ rootId ha

/-! ## Directories that vanish -/

/-- An operation is let through and all its calls are done, and the listing after them no longer
holds the directory that it writes in. -/
def Vanishes (h : Host σ) (w : World σ) (root : String) (t : Writing) : Prop :=
  t.guard h w = .ok () ∧ ∃ w₁ F, h.performAll w t.calls = (.ok (), w₁) ∧
    (h.list w₁ root).1 = .ok F ∧ ¬ HoldsDirectory F (w.space.arena.namesTo t.directory.id)

/-- The directory that an operation writes in vanishes. -/
def Loses (h : Host σ) (w : World σ) (root : String) (op : Operation) (x : NodeId) : Prop :=
  ∃ t, w.Writes op t ∧ t.directory.id = x ∧ w.Vanishes h root t

theorem answered_error_iff {α β : Type} {f : α → β} {o : Outcome σ α} {e : Setback} :
    (answered f o).1 = .error e ↔ o.1 = .error e := map_eq_error

/-- How creating and copying end: the tree is rebuilt, and the new node is looked for in its
directory. -/
def lookAgain (h : Host σ) (w : World σ) (id : NodeId) (name operation : String) :
    Outcome σ Node :=
  match h.resync w [] with
  | (.error r, w) => w.refuse r
  | (.ok (), w) =>
    match w.space.node? id with
    | none => (.error (.lost id), w)
    | some d =>
      match w.space.arena.childNamed? d name with
      | none => w.refuse (.notAppeared name operation)
      | some n => (.ok n, w)

theorem create_bound {kind : NodeKind} {name content : String} {d : Node}
    (hb : w.space.boundRoot = some root) (hc : w.space.checkCreate name parentId = .ok d)
    (hg : h.checkListed w d name 0 = .ok ()) : w.create h kind name parentId content =
      match h.perform w (w.creation kind d name content) with
      | (.error r, w) => w.refuse r
      | (.ok (), w) => w.lookAgain h parentId name "create" := by
  have hbound : ¬ w.space.boundRoot.isNone = true := by simp [hb]
  have hcreate : w.create h kind name parentId content =
      match h.writeThrough w (w.creation kind d name content) [] with
      | (.error r, w) => w.refuse r
      | (.ok (), w) =>
        match w.space.node? parentId with
        | none => (.error (.lost parentId), w)
        | some d =>
          match w.space.arena.childNamed? d name with
          | none => w.refuse (.notAppeared name "create")
          | some n => (.ok n, w) := by
    simp only [create, hc, if_neg hbound, hg]
    rfl
  rw [hcreate, Host.writeThrough]
  rcases h.perform w (w.creation kind d name content) with ⟨_ | _, w₁⟩
  · rfl
  · rfl

theorem copy_bound {name : Option String} {p : Workspace.Placement}
    (hb : w.space.boundRoot = some root) (hc : w.space.checkCopy id parentId name = .ok p)
    (hg : h.checkListed w p.target p.name (w.space.arena.height p.node.id) = .ok ()) :
    w.copy h id parentId name =
      match h.performAll w (w.copyCalls p) with
      | (.error cause, w) =>
        match h.resync w [] with
        | (.error r, w) => w.refuse r
        | (.ok (), w) => w.refuse cause
      | (.ok (), w) => w.lookAgain h parentId p.name "copy" := by
  have hbound : ¬ w.space.boundRoot.isNone = true := by simp [hb]
  simp only [copy, hc, if_neg hbound, hg]
  rfl

section Bound

variable (hs : w.space.Sound) (hh : h.Lawful) (hb : w.space.boundRoot = some root)

include hs hh hb

/-- The new node is looked for in vain, because its directory is lost, exactly when the listing no
longer holds this directory. -/
theorem lookAgain_lost_iff {d : Node} (hw : w₁.space = w.space) (hd : w.space.node? id = some d)
    (hk : d.kind = .directory) (name operation : String) :
    (w₁.lookAgain h id name operation).1 = .error (.lost x) ↔
      id = x ∧ ∃ F, (h.list w₁ root).1 = .ok F ∧
        ¬ HoldsDirectory F (w.space.arena.namesTo id) := by
  unfold lookAgain
  have hb₁ : w₁.space.boundRoot = some root := by rw [hw, hb]
  have hcases := h.resync_cases w₁ []
  rw [hb₁, Option.getD_some] at hcases
  split
  · next r w' he =>
    rw [he] at hcases
    rcases hcases with ⟨e, hl, -⟩ | ⟨-, -, hok, -⟩
    · refine iff_of_false (by rintro ⟨⟩) ?_
      rintro ⟨-, F, hF, -⟩
      cases hl.symm.trans hF
    · cases hok
  · next w' he =>
    rw [he] at hcases
    obtain ⟨-, -, ⟨⟩, -⟩ | ⟨F, hF, -, hspace⟩ := hcases
    have hspace : w'.space = w.space.rebuilt F [] h.now := hspace.trans (by rw [hw])
    have hgone := hs.node?_rebuilt_eq_none_iff hd hk (hh.proper (Prod.ext hF rfl)) h.now
    rw [← hspace] at hgone
    have hlisted : (∃ G, (h.list w₁ root).1 = .ok G ∧
        ¬ HoldsDirectory G (w.space.arena.namesTo id)) ↔
          ¬ HoldsDirectory F (w.space.arena.namesTo id) := by
      simp [hF]
    rw [hlisted, ← hgone]
    split
    · next hnone => simp [hnone]
    · next m hm =>
      refine iff_of_false ?_ (by simp [hm])
      split
      · rintro ⟨⟩
      · rintro ⟨⟩

/-- Once all calls are done, the new node is looked for in a directory that has vanished, or not. -/
theorem lookAgain_lost_iff_vanishes (hg : t.guard h w = .ok ())
    (hd : h.performAll w t.calls = (.ok (), w₁)) (hdir : w.space.node? id = some t.directory)
    (hk : t.directory.kind = .directory) (name operation : String) :
    (w₁.lookAgain h id name operation).1 = .error (.lost x) ↔
      t.directory.id = x ∧ w.Vanishes h root t := by
  obtain rfl := hs.tree.keyed hdir
  rw [lookAgain_lost_iff hs hh hb (Host.space_of_performAll hd) hdir hk]
  refine and_congr_right fun _ => ?_
  constructor
  · rintro ⟨F, hF, hnot⟩
    exact ⟨hg, w₁, F, hd, hF, hnot⟩
  · rintro ⟨-, w₂, F, hd', hF, hnot⟩
    obtain rfl := congrArg Prod.snd (hd.symm.trans hd')
    exact ⟨F, hF, hnot⟩

/-- Creating and copying lose the directory that they write in, when it vanishes, and nothing
else. -/
theorem lost_iff_of_writes (hop : op.Adds) (hw : w.Writes op t) :
    (op.run h w).1 = .error (.lost x) ↔ t.directory.id = x ∧ w.Vanishes h root t := by
  rcases hg : t.guard h w with r | ⟨⟩
  · rw [run_of_guard_error hb hw hg]
    refine iff_of_false (by rintro ⟨⟩) ?_
    rintro ⟨-, hg', -⟩
    cases hg.symm.trans hg'
  have hfailed : ∀ {r w₁}, h.performAll w t.calls = (.error r, w₁) →
      ¬ (t.directory.id = x ∧ w.Vanishes h root t) := by
    rintro r w₁ hd ⟨-, -, w₂, F, hd', -⟩
    cases hd.symm.trans hd'
  cases hw with
  | @create kind name content parentId d hc =>
    obtain ⟨-, hd, hk, -⟩ := Workspace.checkCreate_eq_ok_iff.1 hc
    rw [Operation.run, answered_error_iff, create_bound hb hc hg, ← h.performAll_singleton]
    split
    · next he => exact iff_of_false (by rintro ⟨⟩) (hfailed he)
    · next he => exact lookAgain_lost_iff_vanishes hs hh hb hg he hd hk name "create"
  | @copy id targetId name p hc =>
    have hp := Workspace.found_of_checkCopy hs.tree hc
    obtain rfl := hp.targetId
    rw [Operation.run, answered_error_iff, copy_bound hb hc hg]
    split
    · next he =>
      refine iff_of_false ?_ (hfailed he)
      split
      · rintro ⟨⟩
      · rintro ⟨⟩
    · next he =>
      exact lookAgain_lost_iff_vanishes hs hh hb hg he hp.target hp.directory p.name "copy"
  | rename hc => cases hop
  | update hc => cases hop
  | move hc hsame => cases hop

/-- What does not pass the checks writes nothing, and is refused. -/
theorem lost_iff_of_adds (hop : op.Adds) :
    (op.run h w).1 = .error (.lost x) ↔ w.Loses h root op x := by
  constructor
  · intro he
    have hex : ∃ t, w.Writes op t := by
      cases op with
      | create kind name parentId content =>
        rcases hc : w.space.checkCreate name parentId with r | d
        · rw [Operation.run, answered_error_iff] at he
          simp [World.create, hc, refuse] at he
        · exact ⟨_, .create hc⟩
      | copy id targetId name =>
        rcases hc : w.space.checkCopy id targetId name with r | p
        · rw [Operation.run, answered_error_iff] at he
          simp [World.copy, hc, refuse] at he
        · exact ⟨_, .copy hc⟩
      | _ => cases hop
    obtain ⟨t, hw⟩ := hex
    exact ⟨t, hw, (lost_iff_of_writes hs hh hb hop hw).1 he⟩
  · rintro ⟨t, hw, hv⟩
    exact (lost_iff_of_writes hs hh hb hop hw).2 hv

/-- What has been created is there. -/
theorem node?_of_create {kind : NodeKind} {name content : String} {n : Node}
    (hd : w.create h kind name parentId content = (.ok n, w')) :
    w'.space.node? n.id = some n := by
  have hs' := sound_create hh hs kind name parentId content
  rw [hd] at hs'
  cases create_ends hd with
  | added _ hf => cases hf.symm.trans hb
  | written _ _ _ _ ha =>
    obtain ⟨d, hget, hn⟩ := sought_eq_ok_iff.1 ha
    exact ((hs'.tree.childNamed?_eq_some_iff hget).1 hn).1

end Bound

/-- Creating directories one below another breaks off at one of them. -/
def BreaksOff (h : Host σ) (w : World σ) (root : String) (segments : List String)
    (start x : NodeId) : Prop :=
  ∃ before segment after d w₁, segments = before ++ segment :: after ∧
    w.ensureBelow h before start = (.ok d, w₁) ∧
    w₁.Loses h root (.create .directory segment d.id "") x

/-- Only a name is created, and only where there is none. -/
theorem Loses.of_create {kind : NodeKind} {name content : String}
    (hl : w.Loses h root (.create kind name parentId content) x) : Path.isName name = true ∧
      ∃ d, w.space.node? parentId = some d ∧ w.space.arena.childNamed? d name = none := by
  obtain ⟨t, hw, -⟩ := hl
  cases hw with
  | create hc =>
    obtain ⟨hname, hd, -, hfree⟩ := Workspace.checkCreate_eq_ok_iff.1 hc
    exact ⟨hname, _, hd, hfree⟩

section Segments

variable {segment : String} {rest : List String} {start next : NodeId} {n : Node}
  (hs : w.space.Sound) (hn : w.space.node? start = some n)

include hs hn

/-- It breaks off at the first segment, or further on. -/
theorem breaksOff_cons : w.BreaksOff h root (segment :: rest) start x ↔
    w.Loses h root (.create .directory segment start "") x ∨
      ∃ before segment' after d w₁, rest = before ++ segment' :: after ∧
        w.ensureBelow h (segment :: before) start = (.ok d, w₁) ∧
        w₁.Loses h root (.create .directory segment' d.id "") x := by
  have hnil : w.ensureBelow h [] start = (.ok n, w) := ensureBelow_nil hn
  obtain rfl := hs.tree.keyed hn
  constructor
  · rintro ⟨_ | ⟨s, before⟩, segment', after, d, w₁, he, hbefore, hl⟩
    · obtain ⟨rfl, rfl⟩ := List.cons.inj he
      obtain ⟨hd, rfl⟩ := Prod.mk.inj (hnil.symm.trans hbefore)
      obtain rfl := Except.ok.inj hd
      exact .inl hl
    · obtain ⟨rfl, rfl⟩ := List.cons.inj he
      exact .inr ⟨before, segment', after, d, w₁, rfl, hbefore, hl⟩
  · rintro (hl | ⟨before, segment', after, d, w₁, rfl, hbefore, hl⟩)
    · exact ⟨[], segment, rest, n, w, rfl, hnil, hl⟩
    · exact ⟨segment :: before, segment', after, d, w₁, rfl, hbefore, hl⟩

/-- A segment that leads on leaves it to the others. -/
theorem breaksOff_iff_of_step (hno : ¬ w.Loses h root (.create .directory segment start "") x)
    (hstep : ∀ rest, w.ensureBelow h (segment :: rest) start = w'.ensureBelow h rest next) :
    w.BreaksOff h root (segment :: rest) start x ↔ w'.BreaksOff h root rest next x := by
  rw [breaksOff_cons hs hn, or_iff_right hno]
  simp only [hstep, BreaksOff]

/-- Where a segment leads nowhere, it breaks off there or not at all. -/
theorem breaksOff_iff_of_stop {e : Setback}
    (hstop : ∀ rest, w.ensureBelow h (segment :: rest) start = (.error e, w')) :
    w.BreaksOff h root (segment :: rest) start x ↔
      w.Loses h root (.create .directory segment start "") x := by
  rw [breaksOff_cons hs hn, or_iff_left]
  rintro ⟨before, -, -, d, w₁, -, hbefore, -⟩
  cases (hstop before).symm.trans hbefore

end Segments

theorem ensureBelow_lost_iff (hs : w.space.Sound) (hh : h.Lawful)
    (hb : w.space.boundRoot = some root) (segments : List String) {start : NodeId} {n : Node}
    (hn : w.space.node? start = some n) :
    (w.ensureBelow h segments start).1 = .error (.lost x) ↔
      w.BreaksOff h root segments start x := by
  induction segments generalizing w start n with
  | nil =>
    refine iff_of_false (answer_ne_lost w start) ?_
    rintro ⟨before, segment, after, -, -, he, -⟩
    simp at he
  | cons segment rest ih =>
    by_cases hdot : segment = "."
    · subst hdot
      have hno : ¬ w.Loses h root (.create .directory "." start "") x :=
        fun hl => absurd hl.of_create.1 (by decide)
      rw [ensureBelow_dot hn, breaksOff_iff_of_step hs hn hno (ensureBelow_dot hn)]
      exact ih hs hb hn
    by_cases hdots : segment = ".."
    · subst hdots
      have hno : ¬ w.Loses h root (.create .directory ".." start "") x :=
        fun hl => absurd hl.of_create.1 (by decide)
      rw [ensureBelow_dots hn, breaksOff_iff_of_step hs hn hno (ensureBelow_dots hn)]
      rcases hp : n.parentId with _ | p
      · exact ih hs hb hn
      · obtain ⟨d, hd, -⟩ := hs.tree.parent hn hp
        exact ih hs hb hd
    rcases hchild : w.space.arena.childNamed? n segment with _ | c
    · have hadds : Operation.Adds (.create .directory segment start "") := trivial
      have hcreate := lost_iff_of_adds (x := x) hs hh hb hadds
      rw [Operation.run, answered_error_iff] at hcreate
      have hmissing := ensureBelow_missing (h := h) hn hdot hdots hchild
      rcases hmade : w.create h .directory segment start "" with ⟨e | m, w'⟩
      · simp only [hmade] at hmissing
        rw [hmissing, breaksOff_iff_of_stop hs hn hmissing, ← hcreate, hmade]
      · simp only [hmade] at hmissing
        have hs' := sound_create hh hs .directory segment start ""
        have hb' := boundRoot_create h w .directory segment start ""
        rw [hmade] at hs' hb' hcreate
        have hno : ¬ w.Loses h root (.create .directory segment start "") x :=
          fun hl => by cases hcreate.2 hl
        rw [hmissing, breaksOff_iff_of_step hs hn hno hmissing]
        exact ih hs' (hb'.trans hb) (node?_of_create hs hh hb hmade)
    · have hno : ¬ w.Loses h root (.create .directory segment start "") x := by
        intro hl
        obtain ⟨-, d, hd, hfree⟩ := hl.of_create
        obtain rfl := Option.some.inj (hn.symm.trans hd)
        cases hchild.symm.trans hfree
      by_cases hk : c.isDirectory = true
      · have hstep := ensureBelow_child (h := h) hn hdot hdots hchild hk
        rw [hstep, breaksOff_iff_of_step hs hn hno hstep]
        exact ih hs hb ((hs.tree.childNamed?_eq_some_iff hn).1 hchild).1
      · have hstop := ensureBelow_file (h := h) hn hdot hdots hchild hk
        rw [hstop, breaksOff_iff_of_stop hs hn hstop]
        exact iff_of_false (by rintro ⟨⟩) hno

/-- What an operation loses: the directory in which it creates or copies something, or one of those
in which it creates the directories of a path. -/
inductive LostBy (h : Host σ) (w : World σ) (root : String) (x : NodeId) : Operation → Prop
  | adding {op : Operation} (hop : op.Adds) (hl : w.Loses h root op x) : LostBy h w root x op
  | ensuring {path cwd : String} (hp : Text.isBlankText path = false)
      (hb : w.BreaksOff h root (Path.segments (Path.absolute w.space.home path cwd)) rootId x) :
      LostBy h w root x (.ensureDirectories path cwd)

/-- Whatever its bridge does, an operation on a bound workspace answers, unless a directory that it
writes in has vanished from the listing. -/
theorem lost_iff (hs : w.space.Sound) (hh : h.Lawful) (hb : w.space.boundRoot = some root)
    (op : Operation) (x : NodeId) :
    (op.run h w).1 = .error (.lost x) ↔ w.LostBy h root x op := by
  have hadds : op.Adds → ((op.run h w).1 = .error (.lost x) ↔ w.LostBy h root x op) := by
    intro hop
    rw [lost_iff_of_adds hs hh hb hop]
    constructor
    · exact .adding hop
    · intro hl
      cases hl with
      | adding _ hl => exact hl
      | ensuring hp hb => cases hop
  cases op with
  | create kind name parentId content => exact hadds trivial
  | copy id targetId name => exact hadds trivial
  | ensureDirectories path cwd =>
    rw [Operation.run, answered_error_iff, ensureDirectories]
    rcases hp : Text.isBlankText path with _ | _
    · obtain ⟨r, hr, -⟩ := hs.tree.root
      rw [if_neg (by simp), ensureBelow_lost_iff hs hh hb _ hr]
      constructor
      · exact .ensuring hp
      · intro hl
        cases hl with
        | adding hop hl => cases hop
        | ensuring _ hb => exact hb
    · refine iff_of_false (by simp [refuse]) fun hl => ?_
      cases hl with
      | adding hop hl => cases hop
      | ensuring hp' _ => simp [hp] at hp'
  | delete id recursive =>
    exact iff_of_false (answered_error_iff.not.2 (delete_ne_lost h w id recursive)) (by rintro ⟨⟨⟩⟩)
  | rename id name =>
    exact iff_of_false (answered_error_iff.not.2 (update_ne_lost h w id _)) (by rintro ⟨⟨⟩⟩)
  | update id changes =>
    exact iff_of_false (answered_error_iff.not.2 (update_ne_lost h w id _)) (by rintro ⟨⟨⟩⟩)
  | move id targetId name =>
    exact iff_of_false (answered_error_iff.not.2 (move_ne_lost h w id _ _)) (by rintro ⟨⟨⟩⟩)
  | setContent id content =>
    exact iff_of_false (answered_error_iff.not.2 (setContent_ne_lost h w id _)) (by rintro ⟨⟨⟩⟩)
  | touch id =>
    exact iff_of_false (answered_error_iff.not.2 (touch_ne_lost h w id)) (by rintro ⟨⟨⟩⟩)
  | openTab id =>
    exact iff_of_false (answered_error_iff.not.2 (openTab_ne_lost w id)) (by rintro ⟨⟨⟩⟩)
  | bind root =>
    exact iff_of_false (answered_error_iff.not.2 (bind_ne_lost h w root)) (by rintro ⟨⟨⟩⟩)
  | resync => exact iff_of_false (answered_error_iff.not.2 (resync_ne_lost h w)) (by rintro ⟨⟨⟩⟩)
  | closeTab | closeAllTabs | unbind => exact iff_of_false (by rintro ⟨⟩) (by rintro ⟨⟨⟩⟩)

/-- A bridge that shows a directory until something is asked for. -/
def fleetingBridge : Bridge Bool where
  ignored := []
  maxDepth := none
  list now _ asked := (.ok (if asked then [] else [.directory "a" now []]), asked)
  perform _ _ _ := (.ok (.done none), true)

def fleetingHost : Host Bool := ⟨some fleetingBridge, default⟩

theorem lawful_fleetingHost : fleetingHost.Lawful := by
  rintro b hb now root d F d' hl
  obtain rfl := Option.some.inj hb
  obtain rfl := Except.ok.inj (congrArg Prod.fst hl)
  cases d with
  | false =>
    refine ⟨List.nodup_singleton _, fun e he => ?_⟩
    obtain rfl := List.mem_singleton.1 he
    exact .directory (by decide) List.nodup_nil (by simp)
  | true => exact ⟨List.nodup_nil, by simp⟩

/-- A workspace that is bound to this bridge. -/
def fleetingWorld : World Bool :=
  ((Operation.bind "/disk").run fleetingHost ⟨.new "/home/user" default, false⟩).2

/-- The directory vanishes while a file is created in it. -/
theorem lost_iff_fleeting :
    (fleetingWorld.space.Sound ∧ fleetingHost.Lawful ∧
      fleetingWorld.space.boundRoot = some "/disk") ∧
    fleetingWorld.LostBy fleetingHost "/disk" "n1" (.create .file "b" "n1" "text") ∧
    ¬ fleetingWorld.LostBy fleetingHost "/disk" "n1" (.delete "n1" true) := by
  have hw : fleetingWorld.Reachable := .step (.new _ _ _) lawful_fleetingHost _
  have hb : fleetingWorld.space.boundRoot = some "/disk" := by decide +kernel
  have hiff := lost_iff hw.sound lawful_fleetingHost hb
  refine ⟨⟨hw.sound, lawful_fleetingHost, hb⟩, (hiff _ _).1 ?_, fun hl => ?_⟩
  · decide +kernel
  · exact absurd ((hiff _ _).2 hl) (by decide +kernel)

/-- So not every operation on a bound workspace answers. -/
theorem not_always_answered : ¬ ∀ w : World Bool, w.Reachable → ∀ h : Host Bool, h.Lawful →
    w.space.boundRoot.isSome = true → ∀ (op : Operation) (id : NodeId),
      (op.run h w).1 ≠ .error (.lost id) := by
  intro hall
  refine hall fleetingWorld (.step (.new _ _ _) lawful_fleetingHost _) fleetingHost
    lawful_fleetingHost (by decide +kernel) (.create .file "b" "n1" "text") "n1" ?_
  decide +kernel

end World

end Workbench
