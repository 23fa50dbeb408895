import Workbench.Proofs.Disk.Named
import Workbench.Proofs.Git.Plain
import Workbench.Proofs.Terminal.Commands
import Workbench.Service.Basic

/-!
# Services that are reached

What a service is led to from its start, over a file system in which everything has a name: by
requests, by jobs that are done, and by what happens to the files from outside. An order changes
the workspace by one operation (`Service.Order.operation?`), or by a line of a terminal, so that the
workspace is one that operations lead to, and its tree is sound (`Service.Reachable.sound`).
-/

namespace Workbench

/-! ## Worlds over a local file system -/

namespace World

/-- What a workspace over a file system with names is led to. -/
def Held (w : World FileSystem) : Prop :=
  ∃ v : World { fs : FileSystem // fs.Named }, w = v.seen Subtype.val ∧ v.Reachable

namespace Held

variable {w w' : World FileSystem} {settings : Settings} {now : Timestamp}

theorem sound (h : w.Held) : w.space.Sound := by
  obtain ⟨v, rfl, hv⟩ := h
  exact hv.sound

theorem named (h : w.Held) : w.disk.Named := by
  obtain ⟨v, rfl, -⟩ := h
  exact v.disk.2

theorem led {ok : Operation → Prop} (h : w.Held)
    (hl : World.Led (Service.hostAt settings now) ok w w') : w'.Held := by
  obtain ⟨v, rfl, hv⟩ := h
  obtain ⟨v', rfl, hl'⟩ := hl.exists_seen (LocalDisk.shows_namedBridge _ now)
  refine ⟨v', rfl, hl'.reachable ?_ hv⟩
  intro b hb
  obtain rfl := Option.some.inj hb
  exact LocalDisk.lawful_namedBridge _

theorem changed (h : w.Held) {fs : FileSystem} (hfs : fs.Named) :
    Held { w with disk := fs } := by
  obtain ⟨v, rfl, hv⟩ := h
  exact ⟨{ v with disk := ⟨fs, hfs⟩ }, rfl, hv.changed _⟩

end Held

end World

/-! ## Jobs -/

theorem Project.Called.led {σ : Type} {h : Host σ} {p p' : Project σ} (hc : p.Called h p') :
    World.Led h (fun _ => True) p.world p'.world := by
  induction hc with
  | refl => exact .refl
  | @step p' _ c ih =>
    have hstep := Repository.led_run h p' c
    exact ih.trans (hstep.mono fun _ _ => trivial)

/-- A job that is done asks the workspace for operations only. -/
theorem Studio.led_doJob {σ : Type} (b : Studio σ) (h : Host σ) (settings : Settings)
    (terminalId entryId : String) (job : Job) :
    World.Led h (fun _ => True) b.world (b.doJob h settings terminalId entryId job).world := by
  unfold Studio.doJob
  dsimp only
  split
  · exact .refl
  · next verb args r _ => exact (Versioning.called_run h b.world r verb args).led
  · exact .refl

/-! ## Orders -/

namespace Service

variable {s : Service} {now : Timestamp} {o : Order}

/-- The operation of the workspace that an order asks for. An order to create something where there
is no directory asks for none. -/
def Order.operation? (s : Service) : Order → Option Operation
  | .create kind name (.id id) content => some (.create kind name id content)
  | .create kind name (.path path) content =>
    (s.space.resolve? path "/").map fun n => .create kind name n.id content
  | .update id changes => some (.update id changes)
  | .setContent id content => some (.setContent id content)
  | .move id targetId name => some (.move id targetId name)
  | .copy id targetId name => some (.copy id targetId name)
  | .delete id recursive => some (.delete id recursive)
  | .bind root => some (.bind root)
  | .unbind => some .unbind
  | .resync => some .resync
  | .openTab id => some (.openTab id)
  | .closeTab id => some (.closeTab id)
  | .closeAllTabs => some .closeAllTabs
  | _ => none

/-- How an order ends that has an operation run: with an answer, or with the setback. -/
structure Runs (s : Service) (now : Timestamp) (op : Operation) (x : Ending) : Prop where
  service : x.2 = s.withWorld (op.run (s.host now) s.studio.world).2
  result : (∃ a, x.1 = .ok a ∧ a.status < 400) ∨
    ∃ e, x.1 = .error (problemOf e) ∧ (op.run (s.host now) s.studio.world).1 = .error e

theorem runs_conclude {α : Type} {op : Operation} {f : α → Workbench.Answer}
    {x : Outcome FileSystem α} (hop : op.run (s.host now) s.studio.world = World.answered f x)
    {status : Nat} (hstatus : status < 400) (body : Workspace → α → Json) :
    s.Runs now op (s.conclude x status body) := by
  obtain ⟨r, w⟩ := x
  cases r with
  | ok a => exact ⟨by rw [hop]; rfl, .inl ⟨_, rfl, hstatus⟩⟩
  | error e => exact ⟨by rw [hop]; rfl, .inr ⟨e, rfl, by rw [hop]; rfl⟩⟩

theorem runs_carryOut {op : Operation} (ho : o.operation? s = some op) (now : Timestamp) :
    s.Runs now op (s.carryOut now o) := by
  have hok : 200 < 400 := by decide
  cases o with
  | create kind name parent content =>
    cases parent with
    | id id =>
      obtain rfl := Option.some.inj ho
      exact runs_conclude rfl (by decide) nodeBody
    | path path =>
      obtain ⟨n, hn, rfl⟩ := Option.map_eq_some_iff.1 ho
      have hparent : s.nodeAt path "/" = .ok n := by rw [nodeAt, hn]
      simp only [carryOut, create, hparent, Except.map]
      exact runs_conclude rfl (by decide) nodeBody
  | update id changes =>
    obtain rfl := Option.some.inj ho
    exact runs_conclude rfl (by decide) nodeBody
  | setContent id content =>
    obtain rfl := Option.some.inj ho
    exact runs_conclude rfl (by decide) nodeBody
  | move id targetId name =>
    obtain rfl := Option.some.inj ho
    exact runs_conclude rfl (by decide) nodeBody
  | copy id targetId name =>
    obtain rfl := Option.some.inj ho
    exact runs_conclude rfl (by decide) nodeBody
  | delete id recursive =>
    obtain rfl := Option.some.inj ho
    unfold carryOut delete
    exact runs_conclude rfl hok _
  | bind root =>
    obtain rfl := Option.some.inj ho
    unfold carryOut
    exact runs_conclude rfl hok _
  | resync =>
    obtain rfl := Option.some.inj ho
    exact runs_conclude rfl (by decide) nodeBody
  | openTab id =>
    obtain rfl := Option.some.inj ho
    unfold carryOut
    exact runs_conclude rfl hok _
  | unbind =>
    obtain rfl := Option.some.inj ho
    exact ⟨rfl, .inl ⟨_, rfl, hok⟩⟩
  | closeTab id =>
    obtain rfl := Option.some.inj ho
    exact ⟨rfl, .inl ⟨_, rfl, hok⟩⟩
  | closeAllTabs =>
    obtain rfl := Option.some.inj ho
    exact ⟨rfl, .inl ⟨_, rfl, hok⟩⟩
  | openTerminal shell => cases ho
  | closeTerminal id => cases ho
  | activate id => cases ho
  | split mode => cases ho
  | execute id line => cases ho
  | clear id => cases ho
  | save => cases ho

theorem held_execute (hs : s.studio.world.Held) (now : Timestamp) (id : Option String)
    (line : String) : (s.execute now id line).2.studio.world.Held := by
  have hheld : (s.studio.execute (s.host now) s.settings id line).2.world.Held := by
    unfold Studio.execute
    split
    · exact hs
    next t _ =>
    split
    · exact hs
    · exact hs.led (t.led_execute ⟨s.host now, s.settings, _⟩ s.studio.world _ line)
  unfold execute
  dsimp only
  split
  · exact hheld
  · exact hheld

theorem held_carryOut (hs : s.studio.world.Held) (now : Timestamp) (o : Order) :
    (s.carryOut now o).2.studio.world.Held := by
  cases ho : o.operation? s with
  | some op =>
    rw [(runs_carryOut ho now).service]
    have hone : World.Led (s.host now) (fun _ => True) s.studio.world
        (op.run (s.host now) s.studio.world).2 := .one trivial _ _
    exact hs.led hone
  | none =>
    cases o with
    | create kind name parent content =>
      cases parent with
      | id id => cases ho
      | path path =>
        have hparent : s.nodeAt path "/" = .error (.noSuchPath path) := by
          rw [nodeAt, Option.map_eq_none_iff.1 ho]
        simp only [carryOut, create, hparent, Except.map]
        exact hs
    | openTerminal shell =>
      unfold carryOut openTerminal
      dsimp only
      split
      · exact hs
      · exact hs
    | closeTerminal id =>
      unfold carryOut closeTerminal
      dsimp only
      split
      · exact hs
      · exact hs
      · exact hs
    | activate id =>
      unfold carryOut
      dsimp only
      split
      · exact hs
      · exact hs
    | split mode =>
      unfold carryOut
      dsimp only
      split
      · exact hs
      · exact hs
    | execute id line => exact held_execute hs now id line
    | clear id =>
      unfold carryOut
      dsimp only
      split
      · exact hs
      · exact hs
    | save =>
      have hsaved : s.save.2.studio.world.Held :=
        hs.changed (Store.named_save hs.named s.storePath s.desk)
      unfold carryOut
      dsimp only
      split
      · next he =>
        rw [he] at hsaved
        exact hsaved
      · next he =>
        rw [he] at hsaved
        exact hsaved
    | _ => cases ho

/-! ## What is reached -/

/-- What a service is led to from its start. -/
inductive Reachable : Service → Prop
  | started {settings : Settings} {fs : FileSystem} (hfs : fs.Named) {now : Timestamp}
      {s : Service} (hs : Service.start settings fs now = .ok s) : Reachable s
  | responded {s : Service} (hs : Reachable s) (now : Timestamp) (r : Request) :
      Reachable (s.respond now r).2
  | worked {s : Service} (hs : Reachable s) (now : Timestamp) (terminalId entryId : String)
      (job : Job) :
      Reachable { s with studio := s.studio.doJob (s.host now) s.settings terminalId entryId job }
  | elsewhere {s : Service} (hs : Reachable s) {fs : FileSystem} (hfs : fs.Named) :
      Reachable (s.withFiles fs)

theorem held_start {settings : Settings} {fs : FileSystem} (hfs : fs.Named)
    (hs : Service.start settings fs now = .ok s) : s.studio.world.Held := by
  obtain ⟨w, hw, hs⟩ := bind_eq_ok.1 hs
  obtain ⟨stored, -, hs⟩ := bind_eq_ok.1 hs
  obtain ⟨desk, -, hs⟩ := bind_eq_ok.1 hs
  obtain rfl := Except.ok.inj hs
  have hnew : ∀ home, World.Held ⟨.new home now, fs⟩ := fun home =>
    ⟨⟨.new home now, ⟨fs, hfs⟩⟩, rfl, .new home now _⟩
  have hplanted : ∀ home, World.Held ⟨Seed.planted home now, fs⟩ := fun home =>
    ⟨⟨Seed.planted home now, ⟨fs, hfs⟩⟩, rfl, .planted home now _⟩
  unfold firstWorld at hw
  split at hw
  · obtain rfl := Except.ok.inj hw
    dsimp only
    split
    · exact hplanted settings.home
    · exact hnew settings.home
  · next root _ =>
    split at hw
    · next he =>
      obtain rfl := Except.ok.inj hw
      have hone : World.Led (hostAt settings now) (fun _ => True) ⟨.new settings.home now, fs⟩
          ((Operation.bind root).run (hostAt settings now) ⟨.new settings.home now, fs⟩).2 :=
        .one trivial _ _
      have hbound := (hnew settings.home).led hone
      simp only [Operation.run, World.answered, he] at hbound
      exact hbound
    · cases hw
    · cases hw

theorem held_respond (hs : s.studio.world.Held) (now : Timestamp) (r : Request) :
    (s.respond now r).2.studio.world.Held := by
  unfold respond
  split
  · exact hs
  · exact hs
  · exact hs
  · exact hs
  · split
    · exact hs
    · exact hs
  · next o _ =>
    have hcarried := held_carryOut hs now o
    split
    · next he =>
      rw [he] at hcarried
      exact hcarried
    · next he =>
      rw [he] at hcarried
      exact hcarried

theorem Reachable.held (hs : s.Reachable) : s.studio.world.Held := by
  induction hs with
  | started hfs hs => exact held_start hfs hs
  | responded _ now r ih => exact held_respond ih now r
  | @worked s _ now terminalId entryId job ih =>
    exact ih.led (s.studio.led_doJob (s.host now) s.settings terminalId entryId job)
  | elsewhere _ hfs ih => exact ih.changed hfs

/-- The tree, the tabs and the ids of a service are sound, bound or not. -/
theorem Reachable.sound (hs : s.Reachable) : s.space.Sound := hs.held.sound

end Service

end Workbench
