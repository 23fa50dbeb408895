import Workbench.Proofs.Seed

/-!
# Runs

The operations of a workspace as data, and the worlds that they lead to. Every step may meet
another host, so that the disk may answer, fail and break down as it likes from one call to the
next; between two steps anything may happen to the disk. The one thing that is asked of a host is
that its listings are proper.

What is made of several operations leads from one world to another (`World.Led`). What each of them
keeps is kept by the whole.
-/

namespace Workbench

variable {σ : Type}

/-- What can be asked of a workspace. -/
inductive Operation where
  | create (kind : NodeKind) (name : String) (parentId : NodeId) (content : String)
  | ensureDirectories (path cwd : String)
  | delete (id : NodeId) (recursive : Bool)
  | rename (id : NodeId) (name : String)
  | update (id : NodeId) (changes : NodeUpdate)
  | move (id targetId : NodeId) (name : Option String)
  | copy (id targetId : NodeId) (name : Option String)
  | setContent (id : NodeId) (content : String)
  | touch (id : NodeId)
  | openTab (id : NodeId)
  | closeTab (id : NodeId)
  | closeAllTabs
  | bind (root : String)
  | unbind
  | resync
  deriving DecidableEq

/-- What an operation that succeeds gives back. -/
inductive Answer where
  | node (n : Node)
  | flag (b : Bool)
  | done
  deriving DecidableEq

/-- The same end with another form of the answer. -/
def World.answered {α β : Type} (f : α → β) (o : Outcome σ α) : Outcome σ β := (o.1.map f, o.2)

def Operation.run (h : Host σ) (w : World σ) : Operation → Outcome σ Answer
  | create kind name parentId content =>
    World.answered .node (w.create h kind name parentId content)
  | ensureDirectories path cwd => World.answered .node (w.ensureDirectories h path cwd)
  | delete id recursive => World.answered (fun _ => .done) (w.delete h id recursive)
  | rename id name => World.answered .node (w.rename h id name)
  | update id changes => World.answered .node (w.update h id changes)
  | move id targetId name => World.answered .node (w.move h id targetId name)
  | copy id targetId name => World.answered .node (w.copy h id targetId name)
  | setContent id content => World.answered .node (w.setContent h id content)
  | touch id => World.answered .node (w.touch h id)
  | openTab id => World.answered .node (w.openTab id)
  | closeTab id => w.finish (w.space.closeTab id).2 (.flag (w.space.closeTab id).1)
  | closeAllTabs => w.finish w.space.closeAllTabs .done
  | bind root => World.answered .node (w.bind h root)
  | unbind => (.ok .done, w.unbind)
  | resync => World.answered .node (w.resync h)

namespace World

/-- The worlds that a new workspace, with or without the demo tree, is led to. -/
inductive Reachable : World σ → Prop
  | new (home : String) (now : Timestamp) (disk : σ) : Reachable ⟨.new home now, disk⟩
  | planted (home : String) (now : Timestamp) (disk : σ) :
      Reachable ⟨Seed.planted home now, disk⟩
  | step {w : World σ} (hr : Reachable w) {h : Host σ} (hh : h.Lawful) (op : Operation) :
      Reachable (op.run h w).2
  | changed {w : World σ} (hr : Reachable w) (disk : σ) : Reachable { w with disk := disk }

theorem Reachable.runs {w : World σ} {h : Host σ} (hr : w.Reachable) (hh : h.Lawful)
    (ops : List Operation) : (ops.foldl (fun w op => (op.run h w).2) w).Reachable := by
  induction ops generalizing w with
  | nil => exact hr
  | cons op rest ih => exact ih (hr.step hh op)

/-- What a world is led to by operations that are allowed. -/
inductive Led (h : Host σ) (ok : Operation → Prop) (w : World σ) : World σ → Prop
  | refl : Led h ok w w
  | step {w' : World σ} (hl : Led h ok w w') {op : Operation} (hop : ok op) :
      Led h ok w (op.run h w').2

namespace Led

variable {h : Host σ} {ok ok' : Operation → Prop} {w w' w'' : World σ}

theorem one {op : Operation} (hop : ok op) (h : Host σ) (w : World σ) :
    Led h ok w (op.run h w).2 :=
  .step .refl hop

theorem trans (hl : Led h ok w w') (hl' : Led h ok w' w'') : Led h ok w w'' := by
  induction hl' with
  | refl => exact hl
  | step _ hop ih => exact ih.step hop

theorem mono (hl : Led h ok w w') (hok : ∀ op, ok op → ok' op) : Led h ok' w w' := by
  induction hl with
  | refl => exact .refl
  | step _ hop ih => exact ih.step (hok _ hop)

/-- What every allowed operation keeps holds of the world that they lead to. -/
theorem keeps {I : World σ → Prop} (hl : Led h ok w w')
    (hI : ∀ w op, I w → ok op → I (Operation.run h w op).2) (hw : I w) : I w' := by
  induction hl with
  | refl => exact hw
  | step _ hop ih => exact hI _ _ ih hop

theorem reachable (hl : Led h ok w w') (hh : h.Lawful) (hw : w.Reachable) : w'.Reachable :=
  hl.keeps (fun _ op hw _ => hw.step hh op) hw

end Led

/-- Every operation keeps a workspace sound, whether it succeeds or not. -/
theorem sound_run {h : Host σ} {w : World σ} (hh : h.Lawful) (hs : w.space.Sound)
    (op : Operation) : (op.run h w).2.space.Sound := by
  cases op with
  | create kind name parentId content => exact sound_create hh hs kind name parentId content
  | ensureDirectories path cwd => exact sound_ensureDirectories hh hs path cwd
  | delete id recursive => exact sound_delete hh hs id recursive
  | rename id name => exact sound_rename hh hs id name
  | update id changes => exact sound_update hh hs id changes
  | move id targetId name => exact sound_move hh hs id targetId name
  | copy id targetId name => exact sound_copy hh hs id targetId name
  | setContent id content => exact sound_setContent hh hs id content
  | touch id => exact sound_touch hh hs id
  | openTab id => exact sound_openTab hs id
  | closeTab id => exact hs.closeTab id
  | closeAllTabs => exact hs.closeAllTabs
  | bind root => exact sound_bind hh hs root
  | unbind => exact sound_unbind hs
  | resync => exact sound_resync hh hs

/-- Every workspace that is reached is sound. -/
theorem Reachable.sound {w : World σ} (hr : w.Reachable) : w.space.Sound := by
  induction hr with
  | new home now disk => exact .new home now
  | planted home now disk => exact Seed.sound_planted home now
  | step _ hh op ih => exact sound_run hh ih op
  | changed _ _ ih => exact ih

end World

end Workbench
