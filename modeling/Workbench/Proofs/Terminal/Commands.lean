import Workbench.Proofs.Text
import Workbench.Proofs.World.Runs
import Workbench.Terminal.Basic

/-!
# What lines ask of the workspace

A line changes the workspace only through the operations of the workspace. What it creates, copies
or moves gets its name from a word of the line or from the node that is taken (`Scene.Asks`). So
whatever these operations keep is kept by every line (`Terminal.led_execute`).
-/

namespace Workbench

open Text (IsToken)

variable {σ : Type} {args : List String}

/-- What a command may ask of the workspace that it sees. -/
inductive Scene.Asks (c : Scene) : Operation → Prop
  | ensureDirectories {path : String} (hp : IsToken path) : Asks c (.ensureDirectories path c.cwd)
  | create {path : String} (hp : IsToken path) (kind : NodeKind) (parentId : NodeId) :
      Asks c (.create kind (Arguments.splitPath path).2 parentId "")
  | touch (id : NodeId) : Asks c (.touch id)
  | delete (id : NodeId) (recursive : Bool) : Asks c (.delete id recursive)
  | setContent (id : NodeId) (content : String) : Asks c (.setContent id content)
  | copy {here there name : String} {source parent : Node} (hs : c.resolve? here = some source)
      (hp : IsToken there) (hd : c.destination? source there = some (parent, name)) :
      Asks c (.copy source.id parent.id (some name))
  | move {here there name : String} {source parent : Node} (hs : c.resolve? here = some source)
      (hp : IsToken there) (hd : c.destination? source there = some (parent, name)) :
      Asks c (.move source.id parent.id (some name))

/-! ## Commands that change the tree -/

namespace Change

variable {t : Stage σ} {w : World σ} {path : String}

theorem sayOf_snd {α : Type} (o : Outcome σ α) (onOk : List Reply) (onRefusal : Refusal → String) :
    (sayOf o onOk onRefusal).2 = o.2 := by
  obtain ⟨r, w⟩ := o
  unfold sayOf
  split
  · next he => exact congrArg Prod.snd he.symm
  · next he => exact congrArg Prod.snd he.symm
  · next he => exact congrArg Prod.snd he.symm

/-- What one operand leads to, several lead to one after the other. -/
theorem led_each {h : Host σ} {ok : Operation → Prop} {f : World σ → String → Turnout σ}
    (hf : ∀ w, ∀ a ∈ args, World.Led h ok w (f w a).2) (w : World σ) :
    World.Led h ok w (each f w args).2 := by
  induction args generalizing w with
  | nil => exact .refl
  | cons a rest ih =>
    have hone := hf w a List.mem_cons_self
    rw [each]
    split
    · next he =>
      rw [he] at hone
      exact hone
    · next w' he =>
      rw [he] at hone
      have hrest := ih (fun w b hb => hf w b (List.mem_cons_of_mem a hb)) w'
      split
      · next he =>
        rw [he] at hrest
        exact hone.trans hrest
      · next he =>
        rw [he] at hrest
        exact hone.trans hrest

theorem led_create (hp : IsToken path) (kind : NodeKind) (parentId : NodeId) (w : World σ) :
    World.Led t.host t.scene.Asks w
      (w.create t.host kind (Arguments.splitPath path).2 parentId "").2 := by
  have hasks : t.scene.Asks _ := .create hp kind parentId
  have hstep := World.Led.one hasks t.host w
  simp only [Operation.run, World.answered] at hstep
  exact hstep

theorem led_mkdirOne (hp : IsToken path) (parents : Bool) (w : World σ) :
    World.Led t.host t.scene.Asks w (mkdirOne t parents w path).2 := by
  unfold mkdirOne
  dsimp only
  split
  · split
    · exact .refl
    · rw [sayOf_snd]
      exact .one (Scene.Asks.ensureDirectories hp) t.host w
  · split
    · exact .refl
    · next d _ =>
      rw [sayOf_snd]
      exact led_create hp .directory d.id w

theorem led_touchOne (hp : IsToken path) (w : World σ) :
    World.Led t.host t.scene.Asks w (touchOne t w path).2 := by
  unfold touchOne
  dsimp only
  split
  · next n _ =>
    rw [sayOf_snd]
    exact .one (Scene.Asks.touch n.id) t.host w
  · split
    · exact .refl
    · next d _ =>
      rw [sayOf_snd]
      exact led_create hp .file d.id w

theorem led_rmOne (recursive force : Bool) (w : World σ) (path : String) :
    World.Led t.host t.scene.Asks w (rmOne t recursive force w path).2 := by
  unfold rmOne
  split
  · exact .refl
  · next n _ =>
    split
    · exact .refl
    · split
      · exact .refl
      · rw [sayOf_snd]
        exact .one (Scene.Asks.delete n.id recursive) t.host w

theorem led_rmdirOne (w : World σ) (path : String) :
    World.Led t.host t.scene.Asks w (rmdirOne t w path).2 := by
  unfold rmdirOne
  dsimp only
  split
  · exact .refl
  · next n _ =>
    split
    · exact .refl
    · split
      · exact .refl
      · split
        · exact .refl
        · rw [sayOf_snd]
          exact .one (Scene.Asks.delete n.id false) t.host w

theorem isToken_of_operands (hargs : ∀ a ∈ args, IsToken a) {a : String}
    (ha : a ∈ Arguments.operands args) : IsToken a :=
  hargs a (List.mem_filter.1 ha).1

/-- A copy to where a file is takes only its content there. -/
theorem led_cp (hscene : t.sceneIn w = t.scene) (hargs : ∀ a ∈ args, IsToken a) :
    World.Led t.host t.scene.Asks w (cp t w args).2 := by
  unfold cp cpTo silent together
  rw [hscene]
  dsimp only
  split
  · next here there hops =>
    split
    · exact .refl
    · next source hs =>
      split
      · exact .refl
      · split
        · exact .refl
        · next parent name hd =>
          have hthere : IsToken there := isToken_of_operands hargs (by simp [hops])
          have hcopy := World.Led.one (Scene.Asks.copy hs hthere hd) t.host w
          split
          · rw [sayOf_snd]
            exact hcopy
          · next existing _ =>
            split
            · exact .refl
            · split
              · rw [sayOf_snd]
                exact .one (Scene.Asks.setContent existing.id source.content) t.host w
              · rw [sayOf_snd]
                exact hcopy
  · exact .refl

theorem led_mv (hscene : t.sceneIn w = t.scene) (hargs : ∀ a ∈ args, IsToken a) :
    World.Led t.host t.scene.Asks w (mv t w args).2 := by
  unfold mv silent together
  rw [hscene]
  dsimp only
  split
  · next here there hops =>
    split
    · exact .refl
    · next source hs =>
      split
      · exact .refl
      · next parent name hd =>
        split
        · exact .refl
        · have hthere : IsToken there := isToken_of_operands hargs (by simp [hops])
          rw [sayOf_snd]
          exact .one (Scene.Asks.move hs hthere hd) t.host w
  · exact .refl

end Change

/-! ## Lines -/

namespace Terminal

variable {t : Terminal} {b : Bench σ} {w : World σ} {command : Command}

/-- The terminal as the handler of a line finds it. -/
def dispatched (t : Terminal) (s : Workspace) (line : String) : Terminal :=
  { t with history := (t.history.record line).2, cwd := s.settle t.cwd }

/-- What a line leaves of the workspace and of the working directory is what its command makes of
them where it is carried out. -/
theorem execute_dispatched {line word : String} (hwords : Text.words line = word :: args)
    (hcommand : Command.ofText? (Text.lower word) = some command) (b : Bench σ) (w : World σ)
    (drawn : Nat) :
    (t.execute b w drawn line).world =
        ((t.dispatched w.space line).carryOut b w command args).world ∧
      (t.execute b w drawn line).terminal.cwd =
        ((t.dispatched w.space line).carryOut b w command args).cwd := by
  unfold execute dispatched
  simp only [hwords, hcommand]
  split
  · exact ⟨rfl, rfl⟩
  · exact ⟨rfl, rfl⟩

/-- The world that a command leaves which changes the tree, whether or not it is broken off. -/
theorem change_eq (t : Terminal) (f : Change.Stage σ → World σ → List String → Change.Ending σ)
    (stage : Change.Stage σ) (w : World σ) (args : List String) (command : Command) :
    let turn : Turn σ :=
      match f stage w args with
      | (.ok a, w) => { reply := a, world := w, cwd := t.cwd, shell := t.shell }
      | (.error id, w) =>
        { reply := .broken command (lostText id), world := w, cwd := t.cwd, shell := t.shell }
    turn.world = (f stage w args).2 ∧ turn.cwd = t.cwd := by
  obtain ⟨r, w'⟩ := f stage w args
  cases r with
  | ok a => exact ⟨rfl, rfl⟩
  | error id => exact ⟨rfl, rfl⟩

/-- Only `cd` goes elsewhere. -/
theorem cwd_carryOut (hc : command ≠ .cd) (t : Terminal) (b : Bench σ) (w : World σ)
    (args : List String) : (t.carryOut b w command args).cwd = t.cwd := by
  have hchange := fun f => (change_eq t f ⟨b.host, t.scene b w⟩ w args command).2
  cases command
  case cd => exact absurd rfl hc
  case mkdir => exact hchange Change.mkdir
  case touch => exact hchange Change.touch
  case rm => exact hchange Change.rm
  case rmdir => exact hchange Change.rmdir
  case cp => exact hchange Change.cp
  case mv => exact hchange Change.mv
  all_goals rfl

theorem led_carryOut (hargs : ∀ a ∈ args, IsToken a) (t : Terminal) (b : Bench σ) (w : World σ)
    (command : Command) :
    World.Led b.host (t.scene b w).Asks w (t.carryOut b w command args).world := by
  let stage : Change.Stage σ := ⟨b.host, t.scene b w⟩
  have hchange := fun f => (change_eq t f stage w args command).1
  have hops : ∀ a ∈ Arguments.operands args, IsToken a := fun a ha =>
    Change.isToken_of_operands hargs ha
  cases command
  case mkdir =>
    refine (hchange Change.mkdir).symm ▸ ?_
    unfold Change.mkdir
    split
    · exact .refl
    · exact Change.led_each (fun w a ha => Change.led_mkdirOne (t := stage) (hops a ha) _ w) w
  case touch =>
    refine (hchange Change.touch).symm ▸ ?_
    unfold Change.touch
    split
    · exact .refl
    · exact Change.led_each (fun w a ha => Change.led_touchOne (t := stage) (hargs a ha) w) w
  case rm =>
    refine (hchange Change.rm).symm ▸ ?_
    unfold Change.rm
    dsimp only
    split
    · exact .refl
    · exact Change.led_each (fun w a _ => Change.led_rmOne (t := stage) _ _ w a) w
  case rmdir =>
    refine (hchange Change.rmdir).symm ▸ ?_
    unfold Change.rmdir
    split
    · exact .refl
    · exact Change.led_each (fun w a _ => Change.led_rmdirOne (t := stage) w a) w
  case cp =>
    refine (hchange Change.cp).symm ▸ ?_
    exact Change.led_cp (t := stage) rfl hargs
  case mv =>
    refine (hchange Change.mv).symm ▸ ?_
    exact Change.led_mv (t := stage) rfl hargs
  all_goals exact .refl

/-- A line asks the workspace for operations only. -/
theorem led_execute (t : Terminal) (b : Bench σ) (w : World σ) (drawn : Nat) (line : String) :
    World.Led b.host ((t.dispatched w.space line).scene b w).Asks w
      (t.execute b w drawn line).world := by
  cases hwords : Text.words line with
  | nil =>
    unfold execute
    simp only [hwords]
    exact .refl
  | cons word args =>
    cases hcommand : Command.ofText? (Text.lower word) with
    | none =>
      unfold execute
      simp only [hwords, hcommand]
      exact .refl
    | some command =>
      rw [(execute_dispatched hwords hcommand b w drawn).1]
      apply led_carryOut
      intro a ha
      exact Text.isToken_of_mem_words (hwords ▸ List.mem_cons_of_mem word ha)

end Terminal

end Workbench
