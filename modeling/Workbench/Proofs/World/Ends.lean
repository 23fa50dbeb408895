import Workbench.Proofs.World.Calls

/-!
# How operations end

An operation on a workspace goes through its own check, edits a free workspace, and in a bound one
goes on through the check of what listings will hold, the calls and the rebuilding, each of which
may be the last. For each operation there is a relation that names these ends, with what has been
found on the way, the result and the world that is left (`CreateEnds`, `MoveEnds` and so on), and a
theorem that there is no other (`create_ends`, `move_ends`). Every invariant of the operations is
proved by cases on their ends.
-/

namespace Workbench.World

open Workspace (Placement)

variable {σ : Type}

/-! ## What is asked of the disk -/

/-- The call that creates something in a directory. -/
def creation (w : World σ) (kind : NodeKind) (d : Node) (name content : String) : DiskCall :=
  match kind with
  | .file => .createFile (w.nodePath d.id) name content
  | .directory => .createDirectory (w.nodePath d.id) name

/-- The call that takes a node to a place on the disk. -/
def relocation (w : World σ) (n : Node) (t : NodeId) (name : String) : DiskCall :=
  let place := w.diskPath (w.space.arena.namesTo t ++ [name])
  if some t = n.parentId then .rename (w.nodePath n.id) place else .move (w.nodePath n.id) place

/-- What a rebuilt tree has of a node that has just been created or copied into a directory. -/
def sought (w : World σ) (id : NodeId) (name operation : String) : Except Setback Node :=
  match w.space.node? id with
  | none => .error (.lost id)
  | some d =>
    match w.space.arena.childNamed? d name with
    | none => .error (.refused (.notAppeared name operation))
    | some n => .ok n

theorem pair_sought (w : World σ) (id : NodeId) (name operation : String) :
    (w.sought id name operation, w) =
      match w.space.node? id with
      | none => (.error (.lost id), w)
      | some d =>
        match w.space.arena.childNamed? d name with
        | none => w.refuse (.notAppeared name operation)
        | some n => (.ok n, w) := by
  unfold sought
  cases w.space.node? id with
  | none => rfl
  | some d =>
    dsimp only
    cases w.space.arena.childNamed? d name <;> rfl

theorem sought_eq_ok_iff {w : World σ} {id : NodeId} {name operation : String} {n : Node} :
    w.sought id name operation = .ok n ↔
      ∃ d, w.space.node? id = some d ∧ w.space.arena.childNamed? d name = some n := by
  unfold sought
  split
  · next hd => simp [hd]
  · next d hd =>
    split
    · next hn => simp [hd, hn]
    · next m hm => simp [hd, hm]

/-- What is missed where a lookup of this kind is refused. -/
theorem missed_of_sought {w : World σ} {id : NodeId} {name operation : String} {r : Refusal}
    (he : w.sought id name operation = .error (.refused r)) :
    r = .notAppeared name operation ∧
      ∃ d, w.space.node? id = some d ∧ w.space.arena.childNamed? d name = none := by
  unfold sought at he
  split at he
  · cases he
  · next d hd =>
    split at he
    · next hn => exact ⟨(Setback.refused.inj (Except.error.inj he)).symm, d, hd, hn⟩
    · cases he

/-! ## The ends -/

section Ends

variable (h : Host σ) (w : World σ)

inductive CreateEnds (kind : NodeKind) (name : String) (parentId : NodeId) (content : String) :
    Except Setback Node → World σ → Prop
  | rejected {r : Refusal} (hc : w.space.checkCreate name parentId = .error r) :
      CreateEnds kind name parentId content (.error (.refused r)) w
  | added {d : Node} (hc : w.space.checkCreate name parentId = .ok d)
      (hf : w.space.boundRoot = none) :
      CreateEnds kind name parentId content
        (.ok (w.space.drawnNode kind name d.id content h.now))
        { w with
          space := w.space.added (w.space.drawnNode kind name d.id content h.now) d.id h.now }
  | unlisted {d : Node} {root : String} {r : Refusal}
      (hc : w.space.checkCreate name parentId = .ok d) (hb : w.space.boundRoot = some root)
      (hl : h.checkListed w d name 0 = .error r) :
      CreateEnds kind name parentId content (.error (.refused r)) w
  | failed {d : Node} {root : String} {r : Refusal} {w' : World σ}
      (hc : w.space.checkCreate name parentId = .ok d) (hb : w.space.boundRoot = some root)
      (hl : h.checkListed w d name 0 = .ok ())
      (hw : h.writeThrough w (w.creation kind d name content) [] = (.error r, w')) :
      CreateEnds kind name parentId content (.error (.refused r)) w'
  | written {d : Node} {root : String} {a : Except Setback Node} {w' : World σ}
      (hc : w.space.checkCreate name parentId = .ok d) (hb : w.space.boundRoot = some root)
      (hl : h.checkListed w d name 0 = .ok ())
      (hw : h.writeThrough w (w.creation kind d name content) [] = (.ok (), w'))
      (ha : w'.sought parentId name "create" = a) :
      CreateEnds kind name parentId content a w'

/-- How a path is followed whose first segment is this one. -/
inductive EnsureEnds (segment : String) (rest : List String) (id : NodeId) :
    Except Setback Node → World σ → Prop
  | lost (hn : w.space.node? id = none) : EnsureEnds segment rest id (.error (.lost id)) w
  | here {n : Node} {a : Except Setback Node} {w' : World σ} (hn : w.space.node? id = some n)
      (hdot : segment = ".") (hr : w.ensureBelow h rest id = (a, w')) :
      EnsureEnds segment rest id a w'
  | above {n : Node} {a : Except Setback Node} {w' : World σ} (hn : w.space.node? id = some n)
      (hdots : segment = "..") (hr : w.ensureBelow h rest (n.parentId.getD id) = (a, w')) :
      EnsureEnds segment rest id a w'
  | below {n c : Node} {a : Except Setback Node} {w' : World σ} (hn : w.space.node? id = some n)
      (hc : w.space.arena.childNamed? n segment = some c) (hk : c.isDirectory = true)
      (hr : w.ensureBelow h rest c.id = (a, w')) : EnsureEnds segment rest id a w'
  | blocked {n c : Node} (hn : w.space.node? id = some n)
      (hc : w.space.arena.childNamed? n segment = some c) (hk : ¬ c.isDirectory = true) :
      EnsureEnds segment rest id (.error (.refused (.notDirectory (w.space.pathOf c.id)))) w
  | unmade {n : Node} {e : Setback} {w' : World σ} (hn : w.space.node? id = some n)
      (hc : w.space.arena.childNamed? n segment = none)
      (hm : w.create h .directory segment id "" = (.error e, w')) :
      EnsureEnds segment rest id (.error e) w'
  | made {n m : Node} {w₁ : World σ} {a : Except Setback Node} {w' : World σ}
      (hn : w.space.node? id = some n) (hc : w.space.arena.childNamed? n segment = none)
      (hm : w.create h .directory segment id "" = (.ok m, w₁))
      (hr : w₁.ensureBelow h rest m.id = (a, w')) : EnsureEnds segment rest id a w'

inductive DeleteEnds (id : NodeId) (recursive : Bool) : Except Setback Unit → World σ → Prop
  | rejected {r : Refusal} (hc : w.space.checkDelete id recursive = .error r) :
      DeleteEnds id recursive (.error (.refused r)) w
  | removed {n : Node} (hc : w.space.checkDelete id recursive = .ok n)
      (hf : w.space.boundRoot = none) :
      DeleteEnds id recursive (.ok ())
        { w with space := w.space.removed n (n.parentId.getD rootId) h.now }
  | failed {n : Node} {root : String} {r : Refusal} {w' : World σ}
      (hc : w.space.checkDelete id recursive = .ok n) (hb : w.space.boundRoot = some root)
      (hw : h.writeThrough w (.delete (w.nodePath n.id)) [] = (.error r, w')) :
      DeleteEnds id recursive (.error (.refused r)) w'
  | written {n : Node} {root : String} {w' : World σ}
      (hc : w.space.checkDelete id recursive = .ok n) (hb : w.space.boundRoot = some root)
      (hw : h.writeThrough w (.delete (w.nodePath n.id)) [] = (.ok (), w')) :
      DeleteEnds id recursive (.ok ())
        { w' with
          space.tabs := (w'.space.tabs.closeMany (w.space.arena.subtreeIds n.id)).2 }

inductive RelabelEnds (p : Placement) : Except Setback Unit → World σ → Prop
  | renamed (hf : w.space.boundRoot = none) :
      RelabelEnds p (.ok ()) { w with space := w.space.renamed p h.now }
  | unlisted {root : String} {r : Refusal} (hb : w.space.boundRoot = some root)
      (hl : h.checkListed w p.target p.name (w.space.arena.height p.node.id) = .error r) :
      RelabelEnds p (.error (.refused r)) w
  | failed {root : String} {r : Refusal} {w' : World σ} (hb : w.space.boundRoot = some root)
      (hl : h.checkListed w p.target p.name (w.space.arena.height p.node.id) = .ok ())
      (hw : h.writeThrough w
        (.rename (w.nodePath p.node.id) (w.diskPath (w.placeIn p.target p.name)))
        (w.space.carriedTo p.node.id (w.placeIn p.target p.name)) = (.error r, w')) :
      RelabelEnds p (.error (.refused r)) w'
  | written {root : String} {w' : World σ} (hb : w.space.boundRoot = some root)
      (hl : h.checkListed w p.target p.name (w.space.arena.height p.node.id) = .ok ())
      (hw : h.writeThrough w
        (.rename (w.nodePath p.node.id) (w.diskPath (w.placeIn p.target p.name)))
        (w.space.carriedTo p.node.id (w.placeIn p.target p.name)) = (.ok (), w')) :
      RelabelEnds p (.ok ()) w'

inductive MarkEnds (id : NodeId) (changes : NodeUpdate) : Except Setback Node → World σ → Prop
  | missing (hn : w.space.node? id = none) :
      MarkEnds id changes (.error (.refused (.noSuchNode id))) w
  | marked {n : Node} (hn : w.space.node? id = some n) :
      MarkEnds id changes (.ok { n with marks := changes.marks n.marks })
        { w with space := w.space.marked id changes }

inductive UpdateEnds (id : NodeId) (changes : NodeUpdate) :
    Except Setback Node → World σ → Prop
  | rejected {r : Refusal} (hc : w.space.checkUpdate id changes = .error r) :
      UpdateEnds id changes (.error (.refused r)) w
  | marked {n : Node} {a : Except Setback Node} {w' : World σ}
      (hc : w.space.checkUpdate id changes = .ok (n, none))
      (hm : w.MarkEnds id changes a w') : UpdateEnds id changes a w'
  | unnamed {n : Node} {p : Placement} {e : Setback} {w' : World σ}
      (hc : w.space.checkUpdate id changes = .ok (n, some p))
      (hr : w.relabel h p = (.error e, w')) : UpdateEnds id changes (.error e) w'
  | renamed {n : Node} {p : Placement} {w₁ : World σ} {a : Except Setback Node} {w' : World σ}
      (hc : w.space.checkUpdate id changes = .ok (n, some p))
      (hr : w.relabel h p = (.ok (), w₁)) (hm : w₁.MarkEnds id changes a w') :
      UpdateEnds id changes a w'

inductive MoveEnds (id targetId : NodeId) (name : Option String) :
    Except Setback Node → World σ → Prop
  | rejected {r : Refusal} (hc : w.space.checkMove id targetId name = .error r) :
      MoveEnds id targetId name (.error (.refused r)) w
  | kept {p : Placement} (hc : w.space.checkMove id targetId name = .ok p)
      (hs : p.isSame = true) : MoveEnds id targetId name (.ok p.node) w
  | moved {p : Placement} {a : Except Setback Node} {w' : World σ}
      (hc : w.space.checkMove id targetId name = .ok p) (hs : p.isSame = false)
      (hf : w.space.boundRoot = none)
      (hw : w' = { w with space := w.space.moved p (p.node.parentId.getD rootId) h.now })
      (ha : (w'.answer id).1 = a) : MoveEnds id targetId name a w'
  | unlisted {p : Placement} {root : String} {r : Refusal}
      (hc : w.space.checkMove id targetId name = .ok p) (hs : p.isSame = false)
      (hb : w.space.boundRoot = some root)
      (hl : h.checkListed w p.target p.name (w.space.arena.height p.node.id) = .error r) :
      MoveEnds id targetId name (.error (.refused r)) w
  | failed {p : Placement} {root : String} {r : Refusal} {w' : World σ}
      (hc : w.space.checkMove id targetId name = .ok p) (hs : p.isSame = false)
      (hb : w.space.boundRoot = some root)
      (hl : h.checkListed w p.target p.name (w.space.arena.height p.node.id) = .ok ())
      (hw : h.writeThrough w (w.relocation p.node p.target.id p.name)
        (w.space.carriedTo p.node.id (w.placeIn p.target p.name)) = (.error r, w')) :
      MoveEnds id targetId name (.error (.refused r)) w'
  | written {p : Placement} {root : String} {a : Except Setback Node} {w' : World σ}
      (hc : w.space.checkMove id targetId name = .ok p) (hs : p.isSame = false)
      (hb : w.space.boundRoot = some root)
      (hl : h.checkListed w p.target p.name (w.space.arena.height p.node.id) = .ok ())
      (hw : h.writeThrough w (w.relocation p.node p.target.id p.name)
        (w.space.carriedTo p.node.id (w.placeIn p.target p.name)) = (.ok (), w'))
      (ha : (w'.answer id).1 = a) : MoveEnds id targetId name a w'

inductive CopyEnds (id targetId : NodeId) (name : Option String) :
    Except Setback Node → World σ → Prop
  | rejected {r : Refusal} (hc : w.space.checkCopy id targetId name = .error r) :
      CopyEnds id targetId name (.error (.refused r)) w
  | copied {p : Placement} {a : Except Setback Node} {w' : World σ}
      (hc : w.space.checkCopy id targetId name = .ok p) (hf : w.space.boundRoot = none)
      (hw : w' = { w with space := w.space.copied p h.now })
      (ha : (w'.answer
        (Workspace.copyId w.space.drawn (w.space.arena.subtreeIds p.node.id) p.node.id)).1 = a) :
      CopyEnds id targetId name a w'
  | unlisted {p : Placement} {root : String} {r : Refusal}
      (hc : w.space.checkCopy id targetId name = .ok p) (hb : w.space.boundRoot = some root)
      (hl : h.checkListed w p.target p.name (w.space.arena.height p.node.id) = .error r) :
      CopyEnds id targetId name (.error (.refused r)) w
  | unseen {p : Placement} {root : String} {called : Except Refusal Unit} {r : Refusal}
      {w₁ w' : World σ} (hc : w.space.checkCopy id targetId name = .ok p)
      (hb : w.space.boundRoot = some root)
      (hl : h.checkListed w p.target p.name (w.space.arena.height p.node.id) = .ok ())
      (hd : h.performAll w (w.copyCalls p) = (called, w₁))
      (hr : h.resync w₁ [] = (.error r, w')) :
      CopyEnds id targetId name (.error (.refused r)) w'
  | interrupted {p : Placement} {root : String} {cause : Refusal} {w₁ w' : World σ}
      (hc : w.space.checkCopy id targetId name = .ok p) (hb : w.space.boundRoot = some root)
      (hl : h.checkListed w p.target p.name (w.space.arena.height p.node.id) = .ok ())
      (hd : h.performAll w (w.copyCalls p) = (.error cause, w₁))
      (hr : h.resync w₁ [] = (.ok (), w')) :
      CopyEnds id targetId name (.error (.refused cause)) w'
  | written {p : Placement} {root : String} {w₁ : World σ} {a : Except Setback Node}
      {w' : World σ} (hc : w.space.checkCopy id targetId name = .ok p)
      (hb : w.space.boundRoot = some root)
      (hl : h.checkListed w p.target p.name (w.space.arena.height p.node.id) = .ok ())
      (hd : h.performAll w (w.copyCalls p) = (.ok (), w₁)) (hr : h.resync w₁ [] = (.ok (), w'))
      (ha : w'.sought targetId p.name "copy" = a) : CopyEnds id targetId name a w'

inductive SetContentEnds (id : NodeId) (content : String) : Except Setback Node → World σ → Prop
  | rejected {r : Refusal} (hc : w.space.requireFile id = .error r) :
      SetContentEnds id content (.error (.refused r)) w
  | refilled {n : Node} {a : Except Setback Node} {w' : World σ}
      (hc : w.space.requireFile id = .ok n) (hf : w.space.boundRoot = none)
      (hw : w' = { w with space := w.space.refilled n.id content h.now })
      (ha : (w'.answer id).1 = a) : SetContentEnds id content a w'
  | failed {n : Node} {root : String} {r : Refusal} {w' : World σ}
      (hc : w.space.requireFile id = .ok n) (hb : w.space.boundRoot = some root)
      (hw : h.writeThrough w (.writeFile (w.nodePath n.id) content) [] = (.error r, w')) :
      SetContentEnds id content (.error (.refused r)) w'
  | written {n : Node} {root : String} {a : Except Setback Node} {w' : World σ}
      (hc : w.space.requireFile id = .ok n) (hb : w.space.boundRoot = some root)
      (hw : h.writeThrough w (.writeFile (w.nodePath n.id) content) [] = (.ok (), w'))
      (ha : (w'.answer id).1 = a) : SetContentEnds id content a w'

inductive TouchEnds (id : NodeId) : Except Setback Node → World σ → Prop
  | missing (hn : w.space.node? id = none) : TouchEnds id (.error (.refused (.noSuchNode id))) w
  | rewritten {n : Node} {root : String} {a : Except Setback Node} {w' : World σ}
      (hn : w.space.node? id = some n) (hk : n.isFile = true)
      (hb : w.space.boundRoot = some root) (hw : w.setContent h id n.content = (a, w')) :
      TouchEnds id a w'
  | touched {n : Node} {a : Except Setback Node} {w' : World σ}
      (hn : w.space.node? id = some n)
      (hk : n.isFile = true → w.space.boundRoot = none)
      (hw : w' = { w with space := w.space.touched n.id h.now })
      (ha : (w'.answer id).1 = a) : TouchEnds id a w'

inductive OpenTabEnds (id : NodeId) : Except Setback Node → World σ → Prop
  | rejected {r : Refusal} (hc : w.space.requireFile id = .error r) :
      OpenTabEnds id (.error (.refused r)) w
  | opened {n : Node} (hc : w.space.requireFile id = .ok n) :
      OpenTabEnds id (.ok n) { w with space.tabs := w.space.tabs.opened n.id }

inductive BindEnds (root : String) : Except Setback Node → World σ → Prop
  | unlisted {r : Refusal} {w' : World σ} (hl : h.list w root = (.error r, w')) :
      BindEnds root (.error (.refused r)) w'
  | bound {F : List DiskEntry} {w₁ : World σ} {a : Except Setback Node} {w' : World σ}
      (hl : h.list w root = (.ok F, w₁))
      (hw : w' = { w₁ with space := w₁.space.bound root F h.now })
      (ha : (w'.answer rootId).1 = a) : BindEnds root a w'

inductive ResyncEnds : Except Setback Node → World σ → Prop
  | unbound (hf : w.space.boundRoot = none) : ResyncEnds (.error (.refused .notBound)) w
  | failed {root : String} {r : Refusal} {w' : World σ} (hb : w.space.boundRoot = some root)
      (hr : h.resync w [] = (.error r, w')) : ResyncEnds (.error (.refused r)) w'
  | rebuilt {root : String} {a : Except Setback Node} {w' : World σ}
      (hb : w.space.boundRoot = some root) (hr : h.resync w [] = (.ok (), w'))
      (ha : (w'.answer rootId).1 = a) : ResyncEnds a w'

end Ends

/-! ## There is no other -/

section

variable {h : Host σ} {w w' : World σ} {id targetId : NodeId} {a : Except Setback Node}

/-- The node is answered in the world that is left. -/
theorem end_of_answer {w₁ : World σ} (he : w₁.answer id = (a, w')) :
    w' = w₁ ∧ (w'.answer id).1 = a := by
  have hw := answer_snd w₁ id
  rw [he] at hw
  obtain rfl : w' = w₁ := hw
  exact ⟨rfl, by rw [he]⟩

theorem exists_root (hb : ¬ w.space.boundRoot.isNone = true) :
    ∃ root, w.space.boundRoot = some root :=
  Option.ne_none_iff_exists'.1 fun hf => hb (by rw [hf]; rfl)

theorem create_ends {kind : NodeKind} {name content : String}
    (he : w.create h kind name id content = (a, w')) :
    CreateEnds h w kind name id content a w' := by
  unfold create at he
  split at he
  · next hc =>
    obtain ⟨rfl, rfl⟩ := Prod.mk.inj he
    exact .rejected hc
  next d hc =>
  split at he
  · next hf =>
    obtain ⟨rfl, rfl⟩ := Prod.mk.inj he
    exact .added hc (Option.isNone_iff_eq_none.1 hf)
  next hb =>
  obtain ⟨root, hb⟩ := exists_root hb
  split at he
  · next hl =>
    obtain ⟨rfl, rfl⟩ := Prod.mk.inj he
    exact .unlisted hc hb hl
  next hl =>
  dsimp only at he
  split at he
  · next hw =>
    obtain ⟨rfl, rfl⟩ := Prod.mk.inj he
    exact .failed hc hb hl hw
  next w₁ hw =>
  obtain ⟨ha, rfl⟩ := Prod.mk.inj ((pair_sought w₁ id name "create").trans he)
  exact .written hc hb hl hw ha

theorem ensureBelow_ends {segment : String} {rest : List String}
    (he : w.ensureBelow h (segment :: rest) id = (a, w')) :
    EnsureEnds h w segment rest id a w' := by
  rw [ensureBelow] at he
  split at he
  · next hn =>
    obtain ⟨rfl, rfl⟩ := Prod.mk.inj he
    exact .lost hn
  next n hn =>
  split at he
  · next hdot => exact .here hn (beq_iff_eq.1 hdot) he
  split at he
  · next hdots => exact .above hn (beq_iff_eq.1 hdots) he
  split at he
  · next hc =>
    split at he
    · next hk => exact .below hn hc hk he
    · next hk =>
      obtain ⟨rfl, rfl⟩ := Prod.mk.inj he
      exact .blocked hn hc hk
  · next hc =>
    split at he
    · next hm => exact .made hn hc hm he
    · next hm =>
      obtain ⟨rfl, rfl⟩ := Prod.mk.inj he
      exact .unmade hn hc hm

/-- What every creation of a directory keeps, following the segments of a path keeps. -/
theorem ensureBelow_keeps {P : World σ → Prop} {segments : List String}
    (hP : ∀ {v : World σ} {segment parentId}, segment ∈ segments → P v →
      P (v.create h .directory segment parentId "").2) (hw : P w) :
    P (w.ensureBelow h segments id).2 := by
  induction segments generalizing w id with
  | nil =>
    rw [ensureBelow, answer_snd]
    exact hw
  | cons segment rest ih =>
    have hrest : ∀ {v : World σ} {next a v'}, P v → v.ensureBelow h rest next = (a, v') → P v' := by
      intro v next a v' hv he
      have hv' : P (v.ensureBelow h rest next).2 := ih (fun hm => hP (List.mem_cons_of_mem _ hm)) hv
      rwa [he] at hv'
    have hcreate : P (w.create h .directory segment id "").2 := hP List.mem_cons_self hw
    rcases he : w.ensureBelow h (segment :: rest) id with ⟨a, w'⟩
    cases ensureBelow_ends he with
    | lost | blocked => exact hw
    | here _ _ hr | above _ _ hr | below _ _ _ hr => exact hrest hw hr
    | unmade _ _ hm => rwa [hm] at hcreate
    | made _ _ hm hr =>
      rw [hm] at hcreate
      exact hrest hcreate hr

theorem ensureDirectories_keeps {P : World σ → Prop} {path cwd : String}
    (hP : ∀ {v : World σ} {segment parentId},
      segment ∈ Path.segments (Path.absolute w.space.home path cwd) → P v →
        P (v.create h .directory segment parentId "").2) (hw : P w) :
    P (w.ensureDirectories h path cwd).2 := by
  unfold ensureDirectories
  split
  · exact hw
  · exact ensureBelow_keeps hP hw

theorem delete_ends {recursive : Bool} {a : Except Setback Unit}
    (he : w.delete h id recursive = (a, w')) : DeleteEnds h w id recursive a w' := by
  unfold delete at he
  split at he
  · next hc =>
    obtain ⟨rfl, rfl⟩ := Prod.mk.inj he
    exact .rejected hc
  next n hc =>
  split at he
  · next hf =>
    obtain ⟨rfl, rfl⟩ := Prod.mk.inj he
    exact .removed hc (Option.isNone_iff_eq_none.1 hf)
  next hb =>
  obtain ⟨root, hb⟩ := exists_root hb
  dsimp only at he
  split at he
  · next hw =>
    obtain ⟨rfl, rfl⟩ := Prod.mk.inj he
    exact .failed hc hb hw
  · next hw =>
    obtain ⟨rfl, rfl⟩ := Prod.mk.inj he
    exact .written hc hb hw

theorem relabel_ends {p : Placement} {a : Except Setback Unit}
    (he : w.relabel h p = (a, w')) : RelabelEnds h w p a w' := by
  unfold relabel at he
  split at he
  · next hf =>
    obtain ⟨rfl, rfl⟩ := Prod.mk.inj he
    exact .renamed (Option.isNone_iff_eq_none.1 hf)
  next hb =>
  obtain ⟨root, hb⟩ := exists_root hb
  split at he
  · next hl =>
    obtain ⟨rfl, rfl⟩ := Prod.mk.inj he
    exact .unlisted hb hl
  next hl =>
  dsimp only at he
  split at he
  · next hw =>
    obtain ⟨rfl, rfl⟩ := Prod.mk.inj he
    exact .failed hb hl hw
  · next hw =>
    obtain ⟨rfl, rfl⟩ := Prod.mk.inj he
    exact .written hb hl hw

theorem mark_ends {changes : NodeUpdate} (he : w.mark id changes = (a, w')) :
    MarkEnds w id changes a w' := by
  unfold mark Workspace.require at he
  cases hn : w.space.node? id with
  | none =>
    rw [hn] at he
    obtain ⟨rfl, rfl⟩ := Prod.mk.inj he
    exact .missing hn
  | some n =>
    rw [hn] at he
    obtain ⟨rfl, ha⟩ := end_of_answer he
    have hm : ({ w with space := w.space.marked id changes } : World σ).space.node? id =
        some { n with marks := changes.marks n.marks } := by
      rw [Workspace.node?, Workspace.marked, Table.get?_modify_self]
      exact congrArg _ hn
    rw [answer_eq_ok hm] at ha
    obtain rfl := ha
    exact .marked hn

theorem update_ends {changes : NodeUpdate} (he : w.update h id changes = (a, w')) :
    UpdateEnds h w id changes a w' := by
  unfold update at he
  split at he
  · next hc =>
    obtain ⟨rfl, rfl⟩ := Prod.mk.inj he
    exact .rejected hc
  · next hc => exact .marked hc (mark_ends he)
  · next hc =>
    split at he
    · next hr => exact .renamed hc hr (mark_ends he)
    · next hr =>
      obtain ⟨rfl, rfl⟩ := Prod.mk.inj he
      exact .unnamed hc hr

theorem move_ends {name : Option String} (he : w.move h id targetId name = (a, w')) :
    MoveEnds h w id targetId name a w' := by
  unfold move at he
  split at he
  · next hc =>
    obtain ⟨rfl, rfl⟩ := Prod.mk.inj he
    exact .rejected hc
  next p hc =>
  split at he
  · next hs =>
    obtain ⟨rfl, rfl⟩ := Prod.mk.inj he
    exact .kept hc hs
  next hs =>
  have hs : p.isSame = false := Bool.eq_false_iff.2 hs
  split at he
  · next hf =>
    obtain ⟨hw, ha⟩ := end_of_answer he
    exact .moved hc hs (Option.isNone_iff_eq_none.1 hf) hw ha
  next hb =>
  obtain ⟨root, hb⟩ := exists_root hb
  split at he
  · next hl =>
    obtain ⟨rfl, rfl⟩ := Prod.mk.inj he
    exact .unlisted hc hs hb hl
  next hl =>
  have hcall : (if some p.target.id == p.node.parentId then
      DiskCall.rename (w.nodePath p.node.id) (w.diskPath (w.placeIn p.target p.name))
    else .move (w.nodePath p.node.id) (w.diskPath (w.placeIn p.target p.name))) =
      w.relocation p.node p.target.id p.name := by
    simp only [relocation, placeIn, beq_iff_eq]
  dsimp only at he
  rw [hcall] at he
  split at he
  · next hw =>
    obtain ⟨rfl, rfl⟩ := Prod.mk.inj he
    exact .failed hc hs hb hl hw
  · next hw =>
    obtain ⟨rfl, ha⟩ := end_of_answer he
    exact .written hc hs hb hl hw ha

theorem copy_ends {name : Option String} (he : w.copy h id targetId name = (a, w')) :
    CopyEnds h w id targetId name a w' := by
  unfold copy at he
  split at he
  · next hc =>
    obtain ⟨rfl, rfl⟩ := Prod.mk.inj he
    exact .rejected hc
  next p hc =>
  split at he
  · next hf =>
    obtain ⟨hw, ha⟩ := end_of_answer he
    exact .copied hc (Option.isNone_iff_eq_none.1 hf) hw ha
  next hb =>
  obtain ⟨root, hb⟩ := exists_root hb
  split at he
  · next hl =>
    obtain ⟨rfl, rfl⟩ := Prod.mk.inj he
    exact .unlisted hc hb hl
  next hl =>
  split at he
  · next hd =>
    split at he
    · next hr =>
      obtain ⟨rfl, rfl⟩ := Prod.mk.inj he
      exact .unseen hc hb hl hd hr
    · next hr =>
      obtain ⟨rfl, rfl⟩ := Prod.mk.inj he
      exact .interrupted hc hb hl hd hr
  next hd =>
  split at he
  · next hr =>
    obtain ⟨rfl, rfl⟩ := Prod.mk.inj he
    exact .unseen hc hb hl hd hr
  next w₁ hr =>
  obtain ⟨ha, rfl⟩ := Prod.mk.inj ((pair_sought w₁ targetId p.name "copy").trans he)
  exact .written hc hb hl hd hr ha

theorem setContent_ends {content : String} (he : w.setContent h id content = (a, w')) :
    SetContentEnds h w id content a w' := by
  unfold setContent at he
  split at he
  · next hc =>
    obtain ⟨rfl, rfl⟩ := Prod.mk.inj he
    exact .rejected hc
  next n hc =>
  split at he
  · next hf =>
    obtain ⟨hw, ha⟩ := end_of_answer he
    exact .refilled hc (Option.isNone_iff_eq_none.1 hf) hw ha
  next hb =>
  obtain ⟨root, hb⟩ := exists_root hb
  split at he
  · next hw =>
    obtain ⟨rfl, rfl⟩ := Prod.mk.inj he
    exact .failed hc hb hw
  · next hw =>
    obtain ⟨rfl, ha⟩ := end_of_answer he
    exact .written hc hb hw ha

theorem touch_ends (he : w.touch h id = (a, w')) : TouchEnds h w id a w' := by
  unfold touch Workspace.require at he
  cases hn : w.space.node? id with
  | none =>
    rw [hn] at he
    obtain ⟨rfl, rfl⟩ := Prod.mk.inj he
    exact .missing hn
  | some n =>
    rw [hn] at he
    dsimp only at he
    split at he
    · next hk =>
      obtain ⟨hk, hb⟩ := Bool.and_eq_true_iff.1 hk
      obtain ⟨root, hb⟩ := Option.isSome_iff_exists.1 hb
      exact .rewritten hn hk hb he
    · next hk =>
      obtain ⟨hw, ha⟩ := end_of_answer he
      refine .touched hn (fun hfile => ?_) hw ha
      simpa [hfile] using hk

theorem openTab_ends (he : w.openTab id = (a, w')) : OpenTabEnds w id a w' := by
  unfold openTab Workspace.openTab at he
  cases hc : w.space.requireFile id with
  | error r =>
    rw [hc] at he
    obtain ⟨rfl, rfl⟩ := Prod.mk.inj he
    exact .rejected hc
  | ok n =>
    rw [hc] at he
    obtain ⟨rfl, rfl⟩ := Prod.mk.inj he
    exact .opened hc

theorem bind_ends {root : String} (he : w.bind h root = (a, w')) : BindEnds h w root a w' := by
  unfold bind at he
  split at he
  · next hl =>
    obtain ⟨rfl, rfl⟩ := Prod.mk.inj he
    exact .unlisted hl
  · next hl =>
    obtain ⟨hw, ha⟩ := end_of_answer he
    exact .bound hl hw ha

theorem resync_ends (he : w.resync h = (a, w')) : ResyncEnds h w a w' := by
  unfold resync at he
  split at he
  · next hf =>
    obtain ⟨rfl, rfl⟩ := Prod.mk.inj he
    exact .unbound (Option.isNone_iff_eq_none.1 hf)
  next hb =>
  obtain ⟨root, hb⟩ := exists_root hb
  split at he
  · next hr =>
    obtain ⟨rfl, rfl⟩ := Prod.mk.inj he
    exact .failed hb hr
  · next hr =>
    obtain ⟨rfl, ha⟩ := end_of_answer he
    exact .rebuilt hb hr ha

end

end Workbench.World
