import Workbench.Proofs.World.Runs

/-!
# Disks that are seen in part

A disk may have more to it than what a bridge shows: a record of the calls, or a proof of what holds
of it. Where what is shown does not depend on the rest, the workspace cannot tell the difference:
every operation ends in the same way and leads to the same world (`Operation.run_seen`).
-/

namespace Workbench

variable {σ τ α : Type} {φ : τ → σ}

/-- The world over what is seen of its disk. -/
def World.seen (φ : τ → σ) (w : World τ) : World σ := ⟨w.space, φ w.disk⟩

@[simp] theorem World.seen_space (φ : τ → σ) (w : World τ) : (w.seen φ).space = w.space := rfl

@[simp] theorem World.seen_nodePath (φ : τ → σ) (w : World τ) :
    (w.seen φ).nodePath = w.nodePath := rfl

@[simp] theorem World.seen_diskPath (φ : τ → σ) (w : World τ) :
    (w.seen φ).diskPath = w.diskPath := rfl

@[simp] theorem World.seen_placeIn (φ : τ → σ) (w : World τ) :
    (w.seen φ).placeIn = w.placeIn := rfl

@[simp] theorem World.seen_copyCalls (φ : τ → σ) (w : World τ) :
    (w.seen φ).copyCalls = w.copyCalls := rfl

/-- A result together with the world over what is seen. -/
def World.seenIn (φ : τ → σ) (o : α × World τ) : α × World σ := (o.1, o.2.seen φ)

namespace Host

variable {h : Host σ} {h' : Host τ}

/-- A host whose disk has more to it than the disk of another, and which else does the same. -/
structure Shows (h' : Host τ) (φ : τ → σ) (h : Host σ) : Prop where
  now : h'.now = h.now
  checkListed : ∀ (w : World τ) (d : Node) (name : String) (height : Nat),
    h.checkListed (w.seen φ) d name height = h'.checkListed w d name height
  list : ∀ (w : World τ) (root : String),
    h.list (w.seen φ) root = World.seenIn φ (h'.list w root)
  perform : ∀ (w : World τ) (call : DiskCall),
    h.perform (w.seen φ) call = World.seenIn φ (h'.perform w call)

namespace Shows

theorem free (φ : τ → σ) (now : Timestamp) : Shows (⟨none, now⟩ : Host τ) φ ⟨none, now⟩ where
  now := rfl
  checkListed _ _ _ _ := rfl
  list _ _ := rfl
  perform _ _ := rfl

theorem bridged {b' : Bridge τ} {b : Bridge σ} (hignored : b'.ignored = b.ignored)
    (hdepth : b'.maxDepth = b.maxDepth)
    (hlist : ∀ now root d, b.list now root (φ d) =
      ((b'.list now root d).1, φ (b'.list now root d).2))
    (hperform : ∀ now call d, b.perform now call (φ d) =
      ((b'.perform now call d).1, φ (b'.perform now call d).2)) (now : Timestamp) :
    Shows ⟨some b', now⟩ φ ⟨some b, now⟩ where
  now := rfl
  checkListed w d name height := by
    unfold Host.checkListed
    simp only [hignored, hdepth]
    rfl
  list w root := by
    simp only [Host.list, World.seen, hlist]
    rcases b'.list now root w.disk with ⟨_ | _, d⟩ <;> rfl
  perform w call := by
    simp only [Host.perform, World.seen, hperform]
    rcases b'.perform now call w.disk with ⟨_ | _ | _, d⟩ <;> rfl

theorem performAll (hh : h'.Shows φ h) (w : World τ) (calls : List DiskCall) :
    h.performAll (w.seen φ) calls = World.seenIn φ (h'.performAll w calls) := by
  induction calls generalizing w with
  | nil => rfl
  | cons call rest ih =>
    simp only [Host.performAll, hh.perform]
    rcases h'.perform w call with ⟨_ | _, w'⟩
    · rfl
    · exact ih w'

theorem resync (hh : h'.Shows φ h) (w : World τ) (carried : Workspace.Carried) :
    h.resync (w.seen φ) carried = World.seenIn φ (h'.resync w carried) := by
  have hl := hh.list w (w.space.boundRoot.getD "")
  simp only [Host.resync]
  rw [World.seen_space, hl, hh.now]
  rcases h'.list w (w.space.boundRoot.getD "") with ⟨_ | _, w'⟩ <;> rfl

theorem writeThrough (hh : h'.Shows φ h) (w : World τ) (call : DiskCall)
    (carried : Workspace.Carried) : h.writeThrough (w.seen φ) call carried =
      World.seenIn φ (h'.writeThrough w call carried) := by
  simp only [Host.writeThrough, hh.perform]
  rcases h'.perform w call with ⟨_ | _, w'⟩
  · rfl
  · exact hh.resync w' carried

end Shows

end Host

namespace World

variable {h : Host σ} {h' : Host τ}

theorem answer_seen (w : World τ) (id : NodeId) :
    (w.seen φ).answer id = seenIn φ (w.answer id) := by
  unfold answer
  rw [seen_space]
  cases w.space.require id <;> rfl

theorem create_seen (hh : h'.Shows φ h) (w : World τ) (kind : NodeKind) (name : String)
    (parentId : NodeId) (content : String) : (w.seen φ).create h kind name parentId content =
      seenIn φ (w.create h' kind name parentId content) := by
  unfold create
  rw [seen_space]
  rcases w.space.checkCreate name parentId with r | d
  · rfl
  · by_cases hb : w.space.boundRoot.isNone = true
    · simp only [hb, ↓reduceIte, ← hh.now]
      rfl
    · simp only [hb, Bool.false_eq_true, ↓reduceIte, hh.checkListed]
      rcases h'.checkListed w d name 0 with r | _
      · rfl
      · simp only [hh.writeThrough, seen_nodePath]
        generalize h'.writeThrough w _ [] = o
        obtain ⟨_ | _, w'⟩ := o
        · rfl
        · simp only [seenIn, seen_space]
          rcases w'.space.node? parentId with _ | d'
          · rfl
          · rcases hc : w'.space.arena.childNamed? d' name with _ | n
            · simp only [hc]
              rfl
            · simp only [hc]

theorem ensureBelow_seen (hh : h'.Shows φ h) (w : World τ) (segments : List String)
    (id : NodeId) : (w.seen φ).ensureBelow h segments id =
      seenIn φ (w.ensureBelow h' segments id) := by
  induction segments generalizing w id with
  | nil =>
    rw [ensureBelow, ensureBelow]
    exact answer_seen w id
  | cons segment rest ih =>
    rw [ensureBelow, ensureBelow]
    rw [seen_space, create_seen hh]
    rcases w.space.node? id with _ | n
    · rfl
    · dsimp only
      split
      · exact ih w id
      · split
        · exact ih w _
        · rcases w.space.arena.childNamed? n segment with _ | c
          · rcases w.create h' .directory segment id "" with ⟨_ | m, w'⟩
            · rfl
            · exact ih w' m.id
          · dsimp only
            split
            · exact ih w c.id
            · rfl

theorem ensureDirectories_seen (hh : h'.Shows φ h) (w : World τ) (path cwd : String) :
    (w.seen φ).ensureDirectories h path cwd =
      seenIn φ (w.ensureDirectories h' path cwd) := by
  unfold ensureDirectories
  split
  · rfl
  · exact ensureBelow_seen hh w _ rootId

theorem delete_seen (hh : h'.Shows φ h) (w : World τ) (id : NodeId)
    (recursive : Bool) : (w.seen φ).delete h id recursive =
      seenIn φ (w.delete h' id recursive) := by
  unfold delete
  rw [seen_space]
  rcases w.space.checkDelete id recursive with r | n
  · rfl
  · by_cases hb : w.space.boundRoot.isNone = true
    · simp only [hb, ↓reduceIte, ← hh.now]
      rfl
    · simp only [hb, Bool.false_eq_true, ↓reduceIte, hh.writeThrough,
        seen_nodePath]
      rcases h'.writeThrough w (.delete (w.nodePath n.id)) [] with ⟨_ | _, w'⟩ <;> rfl

theorem relabel_seen (hh : h'.Shows φ h) (w : World τ) (p : Workspace.Placement) :
    (w.seen φ).relabel h p = seenIn φ (w.relabel h' p) := by
  unfold relabel
  rw [seen_space]
  by_cases hb : w.space.boundRoot.isNone = true
  · simp only [hb, ↓reduceIte, ← hh.now]
    rfl
  · simp only [hb, Bool.false_eq_true, ↓reduceIte, hh.checkListed,
      hh.writeThrough, seen_nodePath, seen_diskPath, seen_placeIn]
    rcases h'.checkListed w p.target p.name (w.space.arena.height p.node.id) with r | _
    · rfl
    · generalize h'.writeThrough w _ _ = o
      obtain ⟨_ | _, w'⟩ := o <;> rfl

theorem mark_seen (w : World τ) (id : NodeId) (changes : NodeUpdate) :
    (w.seen φ).mark id changes = seenIn φ (w.mark id changes) := by
  unfold mark
  rw [seen_space]
  rcases w.space.require id with r | n
  · rfl
  · exact answer_seen { w with space := w.space.marked id changes } id

theorem update_seen (hh : h'.Shows φ h) (w : World τ) (id : NodeId)
    (changes : NodeUpdate) : (w.seen φ).update h id changes =
      seenIn φ (w.update h' id changes) := by
  unfold update
  rw [seen_space]
  rcases w.space.checkUpdate id changes with r | ⟨n, _ | p⟩
  · rfl
  · exact mark_seen w id changes
  · simp only [relabel_seen hh]
    rcases w.relabel h' p with ⟨_ | _, w'⟩
    · rfl
    · exact mark_seen w' id changes

theorem move_seen (hh : h'.Shows φ h) (w : World τ) (id targetId : NodeId)
    (name : Option String) : (w.seen φ).move h id targetId name =
      seenIn φ (w.move h' id targetId name) := by
  unfold move
  rw [seen_space]
  rcases w.space.checkMove id targetId name with r | p
  · rfl
  · dsimp only
    split
    · rfl
    · by_cases hb : w.space.boundRoot.isNone = true
      · simp only [hb, ↓reduceIte, ← hh.now]
        let parentId := p.node.parentId.getD rootId
        exact answer_seen { w with space := w.space.moved p parentId h'.now } id
      · simp only [hb, Bool.false_eq_true, ↓reduceIte, hh.checkListed,
          hh.writeThrough, seen_nodePath,
          seen_diskPath,
          seen_placeIn]
        rcases h'.checkListed w p.target p.name (w.space.arena.height p.node.id) with r | _
        · rfl
        · generalize h'.writeThrough w _ _ = o
          obtain ⟨_ | _, w'⟩ := o
          · rfl
          · exact answer_seen w' id

theorem copy_seen (hh : h'.Shows φ h) (w : World τ) (id targetId : NodeId)
    (name : Option String) : (w.seen φ).copy h id targetId name =
      seenIn φ (w.copy h' id targetId name) := by
  unfold copy
  rw [seen_space]
  rcases w.space.checkCopy id targetId name with r | p
  · rfl
  · by_cases hb : w.space.boundRoot.isNone = true
    · simp only [hb, ↓reduceIte, ← hh.now]
      exact answer_seen { w with space := w.space.copied p h'.now } _
    · simp only [hb, Bool.false_eq_true, ↓reduceIte, hh.checkListed,
        hh.performAll, seen_copyCalls]
      rcases h'.checkListed w p.target p.name (w.space.arena.height p.node.id) with r | _
      · rfl
      · rcases h'.performAll w (w.copyCalls p) with ⟨r | _, w'⟩
        · simp only [seenIn, hh.resync]
          rcases h'.resync w' [] with ⟨_ | _, w''⟩ <;> rfl
        · simp only [seenIn, hh.resync]
          rcases h'.resync w' [] with ⟨_ | _, w''⟩
          · rfl
          · simp only [seen_space]
            rcases w''.space.node? targetId with _ | d
            · rfl
            · rcases hc : w''.space.arena.childNamed? d p.name with _ | n
              · simp only [hc]
                rfl
              · simp only [hc]

theorem setContent_seen (hh : h'.Shows φ h) (w : World τ) (id : NodeId)
    (content : String) : (w.seen φ).setContent h id content =
      seenIn φ (w.setContent h' id content) := by
  unfold setContent
  rw [seen_space]
  rcases w.space.requireFile id with r | n
  · rfl
  · by_cases hb : w.space.boundRoot.isNone = true
    · simp only [hb, ↓reduceIte, ← hh.now]
      exact answer_seen { w with space := w.space.refilled n.id content h'.now } id
    · simp only [hb, Bool.false_eq_true, ↓reduceIte, hh.writeThrough,
        seen_nodePath]
      rcases h'.writeThrough w (.writeFile (w.nodePath n.id) content) [] with ⟨_ | _, w'⟩
      · rfl
      · exact answer_seen w' id

theorem touch_seen (hh : h'.Shows φ h) (w : World τ) (id : NodeId) :
    (w.seen φ).touch h id = seenIn φ (w.touch h' id) := by
  unfold touch
  rw [seen_space, ← hh.now]
  rcases w.space.require id with r | n
  · rfl
  · dsimp only
    split
    · exact setContent_seen hh w id n.content
    · exact answer_seen { w with space := w.space.touched n.id h'.now } id

theorem openTab_seen (w : World τ) (id : NodeId) :
    (w.seen φ).openTab id = seenIn φ (w.openTab id) := by
  unfold openTab
  rw [seen_space]
  rcases w.space.openTab id with r | ⟨n, s⟩ <;> rfl

theorem bind_seen (hh : h'.Shows φ h) (w : World τ) (root : String) :
    (w.seen φ).bind h root = seenIn φ (w.bind h' root) := by
  unfold bind
  rw [hh.list, ← hh.now]
  rcases h'.list w root with ⟨_ | F, w'⟩
  · rfl
  · exact answer_seen { w' with space := w'.space.bound root F h'.now } rootId

theorem resync_seen (hh : h'.Shows φ h) (w : World τ) :
    (w.seen φ).resync h = seenIn φ (w.resync h') := by
  unfold resync
  rw [seen_space, hh.resync]
  by_cases hb : w.space.boundRoot.isNone = true
  · simp only [hb, ↓reduceIte]
    rfl
  · simp only [hb, Bool.false_eq_true, ↓reduceIte]
    rcases h'.resync w [] with ⟨_ | _, w'⟩
    · rfl
    · exact answer_seen w' rootId

end World

/-- The workspace cannot tell a disk from what is seen of it. -/
theorem Operation.run_seen {h : Host σ} {h' : Host τ} (hh : h'.Shows φ h) (w : World τ)
    (op : Operation) : op.run h (w.seen φ) = World.seenIn φ (op.run h' w) := by
  have key : ∀ {β : Type} (f : β → Answer) (o : Outcome τ β),
      World.answered f (World.seenIn φ o) = World.seenIn φ (World.answered f o) := fun _ _ => rfl
  cases op with
  | create kind name parentId content =>
    exact (congrArg _ (World.create_seen hh w kind name parentId content)).trans (key ..)
  | ensureDirectories path cwd =>
    exact (congrArg _ (World.ensureDirectories_seen hh w path cwd)).trans (key ..)
  | delete id recursive =>
    exact (congrArg _ (World.delete_seen hh w id recursive)).trans (key ..)
  | rename id name => exact (congrArg _ (World.update_seen hh w id _)).trans (key ..)
  | update id changes => exact (congrArg _ (World.update_seen hh w id changes)).trans (key ..)
  | move id targetId name =>
    exact (congrArg _ (World.move_seen hh w id targetId name)).trans (key ..)
  | copy id targetId name =>
    exact (congrArg _ (World.copy_seen hh w id targetId name)).trans (key ..)
  | setContent id content =>
    exact (congrArg _ (World.setContent_seen hh w id content)).trans (key ..)
  | touch id => exact (congrArg _ (World.touch_seen hh w id)).trans (key ..)
  | openTab id => exact (congrArg _ (World.openTab_seen w id)).trans (key ..)
  | closeTab id => rfl
  | closeAllTabs => rfl
  | bind root => exact (congrArg _ (World.bind_seen hh w root)).trans (key ..)
  | unbind => rfl
  | resync => exact (congrArg _ (World.resync_seen hh w)).trans (key ..)

/-- Where operations lead over what is seen of a disk, they lead over all of it. -/
theorem World.Led.exists_seen {h : Host σ} {h' : Host τ} {ok : Operation → Prop} {w : World τ}
    {v : World σ} (hl : World.Led h ok (w.seen φ) v) (hh : h'.Shows φ h) :
    ∃ w' : World τ, v = w'.seen φ ∧ World.Led h' ok w w' := by
  induction hl with
  | refl => exact ⟨w, rfl, .refl⟩
  | @step _ _ op hop ih =>
    obtain ⟨w', rfl, hled⟩ := ih
    exact ⟨_, congrArg Prod.snd (op.run_seen hh w'), hled.step hop⟩

end Workbench
