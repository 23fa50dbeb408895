import Workbench.Proofs.Terminal.Restored

/-!
# Terminals while they are attended

From their start until they are shut down, there is always a terminal, all terminals are open, and
the active one is among them (`Desk.InOrder`). This is so whatever is stored at the start, whatever
is asked for and whether or not it can be had.

The mode of a shared view and its partner belong together, with one exception: where the only
terminal has the last number that can be written, the mode is set before it shows that no partner
can be opened. Which calls lead to that state and out of it is said by `isHalfSplit_after_iff`.
-/

namespace Workbench

variable {settings : Settings}

/-- What is asked of the terminals of a workspace. -/
inductive DeskCall where
  | openTerminal (shell : Option String) (front : Bool)
  | close (id : String)
  | activate (id : String)
  | share (mode : String)
  | execute (id : Option String) (line : String)
  | clear (id : Option String)
  | save (path : Option String)
  deriving DecidableEq

/-- What is left after a call, whether it succeeds or fails. -/
def DeskCall.after (h : Host FileSystem) (settings : Settings) (b : Studio FileSystem) :
    DeskCall → Studio FileSystem
  | openTerminal shell front =>
    { b with desk := (b.desk.openTerminal settings b.world.space shell front).2 }
  | close id =>
    match b.desk.close id with
    | .ok (_, d) => { b with desk := d }
    | .error _ => b
  | activate id =>
    match b.desk.activate id with
    | .ok d => { b with desk := d }
    | .error _ => b
  | share word =>
    match SplitMode.ofText? word with
    | some mode => { b with desk := (b.desk.toggleSplit settings b.world.space mode).2 }
    | none => b
  | execute id line => (b.execute h settings id line).2
  | clear id =>
    match b.desk.pick id with
    | .ok t => { b with desk := b.desk.put t.clear }
    | .error _ => b
  | save path =>
    { b with world := { b.world with disk := (Store.save b.world.disk path b.desk).2 } }

namespace Studio

variable {b : Studio FileSystem}

/-- What is reached from the start of the terminals by calls, by jobs that are done, and by what
happens to the workspace and the repository. Ids may be drawn elsewhere, but none that is in use. -/
inductive Attended (settings : Settings) : Studio FileSystem → Prop
  | started {w : World FileSystem} {repository : Option Repository} {now : Timestamp}
      {draws : Draws} {stored : Option String} {d : Desk}
      (hd : Desk.start settings w.space now draws stored = .ok d) :
      Attended settings ⟨w, repository, d⟩
  | elsewhere {b : Studio FileSystem} (hb : Attended settings b) (w : World FileSystem)
      (repository : Option Repository) (draws : Draws) :
      Attended settings ⟨w, repository, { b.desk with draws := draws }⟩
  | called {b : Studio FileSystem} (hb : Attended settings b) (hf : b.desk.HasFreshId)
      (h : Host FileSystem) (call : DeskCall) : Attended settings (call.after h settings b)
  | worked {b : Studio FileSystem} (hb : Attended settings b) (h : Host FileSystem)
      (terminalId entryId : String) (job : Job) :
      Attended settings (b.doJob h settings terminalId entryId job)

theorem Attended.reachable (hb : b.Attended settings) : b.Reachable settings := by
  induction hb with
  | started hd => exact .started hd
  | elsewhere _ w repository draws ih => exact .elsewhere ih w repository draws
  | worked _ h terminalId entryId job ih => exact .worked ih h terminalId entryId job
  | @called b _ hf h call ih =>
    cases call with
    | openTerminal shell front => exact .opened ih hf shell front
    | close id =>
      dsimp only [DeskCall.after]
      split
      · next hd => exact .closed ih hd
      · exact ih
    | activate id =>
      dsimp only [DeskCall.after]
      split
      · next hd => exact .activated ih hd
      · exact ih
    | share word =>
      dsimp only [DeskCall.after]
      split
      · next mode _ => exact .shared ih hf mode
      · exact ih
    | execute id line => exact .executed ih h id line
    | clear id =>
      dsimp only [DeskCall.after]
      split
      · next t ht => exact .handled ih ht .cleared
      · exact ih
    | save path => exact .elsewhere ih _ b.repository b.desk.draws

end Studio

/-! ## Open terminals, and shared views without a partner -/

theorem Terminal.closed_execute {σ : Type} (t : Terminal) (b : Bench σ) (w : World σ)
    (drawn : Nat) (line : String) : (t.execute b w drawn line).terminal.closed = t.closed := by
  unfold Terminal.execute
  dsimp only
  split
  · rfl
  split
  · rfl
  split
  · rfl
  · rfl

namespace Desk

variable {d d' : Desk} {s : Workspace} {draws : Draws} {id : String} {mode : SplitMode}

/-- What holds of all terminals. -/
def Every (P : Terminal → Prop) (d : Desk) : Prop := ∀ id t, d.table.get? id = some t → P t

/-- No terminal has been shut down. -/
def IsOpen (d : Desk) : Prop := ∀ id t, d.table.get? id = some t → t.closed = false

/-- There is no terminal but the active one. -/
def IsAlone (d : Desk) : Prop := ∀ id, d.table.contains id = true → id = d.activeId

namespace Every

variable {P : Terminal → Prop}

theorem put (h : d.Every P) {t : Terminal} (ht : P t) : (d.put t).Every P := by
  intro id' t' hget
  exact Table.forall_insert (P := fun _ t => P t) (h _ _) ht hget

theorem modify (h : d.Every P) (id : String) {f : Terminal → Terminal}
    (hf : ∀ t, P t → P (f t)) : Every P { d with table := d.table.modify id f } := by
  intro id' t' hget
  rw [Table.get?_modify] at hget
  split at hget
  · obtain ⟨t, ht, rfl⟩ := Option.map_eq_some_iff.1 hget
    apply hf
    exact h _ t ht
  · exact h id' t' hget

theorem openTerminal (h : d.Every P) {s : Workspace}
    (hnew : ∀ id name shell, P (.new settings s id name shell "")) (word : Option String)
    (activate : Bool) : (d.openTerminal settings s word activate).2.Every P := by
  obtain ⟨e, he, -⟩ | ⟨e, name, -, -, he⟩ | ⟨id, name, shell, -, -, -, he⟩ :=
    d.openTerminal_cases settings s word activate
  · rw [he]
    exact h
  · rw [he]
    exact h
  · rw [he]
    exact h.put (hnew id name shell)

theorem close (h : d.Every P) {closed : Bool} (hc : d.close id = .ok (closed, d')) :
    d'.Every P := by
  unfold Desk.close at hc
  obtain ⟨t, -, hc⟩ := bind_eq_ok.1 hc
  split at hc
  · obtain ⟨-, rfl⟩ := Prod.mk.inj (Except.ok.inj hc)
    exact h
  · obtain ⟨-, rfl⟩ := Prod.mk.inj (Except.ok.inj hc)
    intro id' t' hget
    rw [Table.get?_erase] at hget
    split at hget
    · cases hget
    · exact h id' t' hget

theorem toggleSplit (h : d.Every P) {s : Workspace}
    (hnew : ∀ id name shell, P (.new settings s id name shell "")) (mode : SplitMode) :
    (d.toggleSplit settings s mode).2.Every P := by
  have hopened := h.openTerminal hnew none false
  unfold Desk.toggleSplit
  split
  · exact h
  split
  · exact h
  split
  · next he =>
    rw [he] at hopened
    exact hopened
  · next he =>
    rw [he] at hopened
    exact hopened

theorem new {s : Workspace} (hnew : ∀ id name shell, P (.new settings s id name shell ""))
    (draws : Draws) : (Desk.new settings s draws).Every P := by
  apply openTerminal _ hnew
  intro id t ht
  cases ht

end Every

theorem IsOpen.reopened (h : d.IsOpen) (settings : Settings) (s : Workspace)
    (l : List SavedTerminal) : (l.foldl (reopen settings s) d).IsOpen := by
  induction l generalizing d with
  | nil => exact h
  | cons saved rest ih =>
    apply ih
    unfold reopen
    dsimp only
    split
    · exact h
    · exact Every.put (d := { d with draws := _ }) h rfl

/-- In a shared view that is restored there is a partner, and all terminals are open. -/
theorem open_of_restored {saved : SavedSession} {draws' : Draws}
    (hd : Desk.restored settings s draws saved = .ok (some d, draws')) :
    d.IsOpen ∧ ¬ d.IsHalfSplit := by
  have hempty : ({ draws := draws } : Desk).IsOpen := fun _ _ ht => by cases ht
  have hopen := hempty.reopened settings s saved.terminals
  unfold Desk.restored at hd
  dsimp only at hd
  split at hd
  · cases hd
  split at hd
  · cases hd
  obtain ⟨hd, -⟩ := Prod.mk.inj (Except.ok.inj hd)
  obtain rfl := Option.some.inj hd
  refine ⟨hopen, ?_⟩
  rintro ⟨mode, hsplit⟩
  dsimp only at hsplit
  split at hsplit
  · cases hsplit
  · cases hsplit

theorem open_of_start {now : Timestamp} {stored : Option String}
    (hd : Desk.start settings s now draws stored = .ok d) : d.IsOpen ∧ ¬ d.IsHalfSplit := by
  rcases start_cases hd with ⟨draws, rfl⟩ | ⟨saved, draws, draws', hr⟩
  · refine ⟨Every.new (fun _ _ _ => rfl) draws, ?_⟩
    rintro ⟨mode, hsplit⟩
    obtain ⟨e, he, -⟩ | ⟨e, name, -, -, he⟩ | ⟨id, name, shell, -, -, -, he⟩ :=
      openTerminal_cases { draws := draws } settings s none true
    all_goals
      rw [Desk.new, he] at hsplit
      cases hsplit
  · exact open_of_restored hr

theorem partner?_eq_none_iff : d.partner? = none ↔ d.IsAlone := by
  constructor
  · intro hnone id hid
    by_contra hne
    unfold partner? at hnone
    split at hnone
    · cases hnone
    · have hall := List.find?_eq_none.1 hnone id (Table.mem_keys_iff.2 (Table.contains_iff.1 hid))
      simp [hne] at hall
  · intro halone
    by_contra hsome
    obtain ⟨p, hp⟩ := Option.ne_none_iff_exists'.1 hsome
    obtain ⟨hc, hne⟩ := partner?_eq_some hp
    exact hne (halone p hc)

theorem IsAlone.size (h : d.IsAlone) (ha : d.table.contains d.activeId = true) :
    d.table.size = 1 := by
  have hpos := size_pos ha
  have hall : ∀ id ∈ d.table.keys, id = d.activeId := fun id hmem =>
    h id (Table.contains_iff.2 (Table.mem_keys_iff.1 hmem))
  have hnodup : d.table.keys.Nodup := d.table.nodup
  rw [List.eq_replicate_of_mem hall, List.nodup_replicate, Table.length_keys] at hnodup
  omega

theorem IsAlone.put (h : d.IsAlone) {t : Terminal} (ht : t.id = id)
    (hid : d.table.contains id = true) : (d.put t).IsAlone := by
  intro id' hid'
  rw [Desk.put, Table.contains, Table.get?_insert, ht] at hid'
  split at hid'
  · next he => exact he ▸ h id hid
  · exact h id' hid'

/-- A shared view gets a mode without a partner where there is no other terminal and none can be
opened. -/
theorem isHalfSplit_toggleSplit_iff (settings : Settings) (s : Workspace) :
    (d.toggleSplit settings s mode).2.IsHalfSplit ↔
      d.split.map Split.mode ≠ some mode ∧ d.IsAlone ∧ 10 ^ Text.digitLimit ≤ d.counter + 1 := by
  have hmode : (d.split.any fun x => x.mode == mode) = true ↔
      d.split.map Split.mode = some mode := by
    cases d.split <;> simp
  unfold Desk.toggleSplit
  split
  · next hsame => simp [IsHalfSplit, hmode.1 hsame]
  next hother =>
  rw [hmode] at hother
  split
  · next p hp =>
    have hnot : ¬ d.IsAlone := fun halone => by
      rw [partner?_eq_none_iff.2 halone] at hp
      cases hp
    simp [IsHalfSplit, hnot]
  next hnone =>
  have halone := partner?_eq_none_iff.1 hnone
  obtain ⟨e, he, hname⟩ | ⟨e, name, -, hshell, -⟩ | ⟨id, name, shell, -, hname, -, he⟩ :=
    d.openTerminal_cases settings s none false
  · obtain ⟨-, hcounter⟩ := nextName_eq_error_iff.1 hname
    simp [he, IsHalfSplit, hother, halone, hcounter]
  · cases hshell
  · have hcounter : ¬ 10 ^ Text.digitLimit ≤ d.counter + 1 := by
      intro hlong
      rw [nextName_eq_error_iff.2 ⟨rfl, hlong⟩] at hname
      cases hname
    simp only [he, IsHalfSplit, hcounter, and_false, iff_false]
    rintro ⟨mode', hsplit⟩
    cases hsplit

theorem isHalfSplit_congr (h : d'.split = d.split) : d'.IsHalfSplit ↔ d.IsHalfSplit := by
  rw [IsHalfSplit, IsHalfSplit, h]

theorem split_openTerminal (d : Desk) (settings : Settings) (s : Workspace)
    (word : Option String) (activate : Bool) :
    (d.openTerminal settings s word activate).2.split = d.split := by
  obtain ⟨e, he, -⟩ | ⟨e, name, -, -, he⟩ | ⟨id, name, shell, -, -, -, he⟩ :=
    d.openTerminal_cases settings s word activate
  all_goals rw [he]

theorem isHalfSplit_close {closed : Bool} (hc : d.close id = .ok (closed, d')) :
    d'.IsHalfSplit ↔ d.IsHalfSplit := by
  unfold Desk.close at hc
  obtain ⟨t, -, hc⟩ := bind_eq_ok.1 hc
  split at hc
  · obtain ⟨-, rfl⟩ := Prod.mk.inj (Except.ok.inj hc)
    exact Iff.rfl
  · obtain ⟨-, rfl⟩ := Prod.mk.inj (Except.ok.inj hc)
    constructor
    · rintro ⟨mode, hsplit⟩
      exact ⟨mode, (Option.filter_eq_some_iff.1 hsplit).1⟩
    · rintro ⟨mode, hsplit⟩
      exact ⟨mode, Option.filter_eq_some_iff.2 ⟨hsplit, rfl⟩⟩

theorem isHalfSplit_activate (hc : d.activate id = .ok d') : d'.IsHalfSplit ↔ d.IsHalfSplit := by
  unfold Desk.activate at hc
  obtain ⟨t, -, hc⟩ := bind_eq_ok.1 hc
  obtain rfl := Except.ok.inj hc
  constructor
  · rintro ⟨mode, hsplit⟩
    obtain ⟨⟨mode', partner⟩, hold, he⟩ := Option.map_eq_some_iff.1 hsplit
    dsimp only at he
    split at he
    · cases he
    · obtain ⟨rfl, rfl⟩ := Split.mk.inj he
      exact ⟨_, hold⟩
  · rintro ⟨mode, hsplit⟩
    exact ⟨mode, by simp [hsplit]⟩

end Desk

/-! ## What is asked for -/

/-- Executing a line changes one terminal at most. -/
theorem Studio.desk_execute (b : Studio FileSystem) (h : Host FileSystem) (settings : Settings)
    (id : Option String) (line : String) : (b.execute h settings id line).2.desk = b.desk ∨
      ∃ id' t t' draws, b.desk.table.get? id' = some t ∧ t.GoesOn t' ∧
        (b.execute h settings id line).2.desk = { b.desk.put t' with draws := draws } := by
  unfold Studio.execute
  split
  · exact .inl rfl
  next t ht =>
  split
  · exact .inl rfl
  · exact .inr ⟨_, t, _, _, Desk.get_eq_ok_iff.1 ht, .execute .., rfl⟩

namespace DeskCall

variable {b : Studio FileSystem} {h : Host FileSystem} {call : DeskCall}

/-- A call that shares the view in another mode than before, where there is no other terminal and
none can be opened. -/
def Halves (d : Desk) : DeskCall → Prop
  | share word => ∃ mode, SplitMode.ofText? word = some mode ∧ d.split.map Split.mode ≠ some mode ∧
      d.IsAlone ∧ 10 ^ Text.digitLimit ≤ d.counter + 1
  | _ => False

/-- A call that names the mode of the shared view again. -/
def EndsSplit (d : Desk) : DeskCall → Prop
  | share word => ∃ mode, SplitMode.ofText? word = some mode ∧ d.split.map Split.mode = some mode
  | _ => False

/-- What holds of new terminals and is kept by the screen and by lines holds of all terminals. -/
theorem every_after {P : Terminal → Prop} (hp : b.desk.Every P)
    (hnew : ∀ id name shell, P (.new settings b.world.space id name shell ""))
    (hclear : ∀ t, P t → P t.clear)
    (hline : ∀ t drawn line, P t →
      P (t.execute ⟨h, settings, b.repository.isSome⟩ b.world drawn line).terminal) :
    (call.after h settings b).desk.Every P := by
  cases call with
  | openTerminal shell front => exact hp.openTerminal hnew shell front
  | close id =>
    dsimp only [after]
    split
    · next hd => exact hp.close hd
    · exact hp
  | activate id =>
    dsimp only [after]
    split
    · next d hd =>
      unfold Desk.activate at hd
      obtain ⟨t, -, hd⟩ := bind_eq_ok.1 hd
      obtain rfl := Except.ok.inj hd
      exact hp
    · exact hp
  | share word =>
    dsimp only [after]
    split
    · next mode _ => exact hp.toggleSplit hnew mode
    · exact hp
  | execute id line =>
    dsimp only [after]
    unfold Studio.execute
    split
    · exact hp
    next t ht =>
    split
    · exact hp
    · exact hp.put (hline t _ line (hp _ t (Desk.get_eq_ok_iff.1 ht)))
  | clear id =>
    dsimp only [after]
    split
    · next t ht => exact hp.put (hclear t (hp _ t (Desk.get_eq_ok_iff.1 ht)))
    · exact hp
  | save path => exact hp

theorem isOpen_after (ho : b.desk.IsOpen) : (call.after h settings b).desk.IsOpen :=
  every_after ho (fun _ _ _ => rfl) (fun _ ht => ht)
    fun _ _ _ ht => (Terminal.closed_execute ..).trans ht

theorem alone_after (hs : b.desk.Sound settings) (ha : b.desk.IsHalfSplit → b.desk.IsAlone)
    (hhalf : (call.after h settings b).desk.IsHalfSplit) :
    (call.after h settings b).desk.IsAlone := by
  cases call with
  | openTerminal shell front =>
    have hbefore : b.desk.IsHalfSplit :=
      (Desk.isHalfSplit_congr (Desk.split_openTerminal b.desk settings _ shell front)).1 hhalf
    obtain ⟨mode, hsplit⟩ := hbefore
    have hname := hs.alone hsplit
    have hsame : (b.desk.openTerminal settings b.world.space shell front).2 = b.desk := by
      unfold Desk.openTerminal
      rw [hname]
    rw [after, hsame]
    exact ha ⟨mode, hsplit⟩
  | close id =>
    dsimp only [after] at hhalf ⊢
    split
    · next d hd =>
      rw [hd] at hhalf
      have halone := ha ((Desk.isHalfSplit_close hd).1 hhalf)
      unfold Desk.close at hd
      obtain ⟨t, -, hd⟩ := bind_eq_ok.1 hd
      rw [if_pos (by simp [halone.size hs.active])] at hd
      obtain ⟨-, rfl⟩ := Prod.mk.inj (Except.ok.inj hd)
      exact halone
    · next he =>
      rw [he] at hhalf
      exact ha hhalf
  | activate id =>
    dsimp only [after] at hhalf ⊢
    split
    · next d hd =>
      rw [hd] at hhalf
      have halone := ha ((Desk.isHalfSplit_activate hd).1 hhalf)
      unfold Desk.activate at hd
      obtain ⟨t, ht, hd⟩ := bind_eq_ok.1 hd
      obtain rfl := Except.ok.inj hd
      intro id' hid'
      exact (halone id' hid').trans (halone id (Desk.contains_of_get ht)).symm
    · next he =>
      rw [he] at hhalf
      exact ha hhalf
  | share word =>
    dsimp only [after] at hhalf ⊢
    split
    · next mode he =>
      rw [he] at hhalf
      obtain ⟨hmode, halone, hlong⟩ := (Desk.isHalfSplit_toggleSplit_iff settings _).1 hhalf
      rw [Desk.toggleSplit_alone hmode (Desk.partner?_eq_none_iff.2 halone) hlong]
      exact halone
    · next he =>
      rw [he] at hhalf
      exact ha hhalf
  | execute id line =>
    dsimp only [after] at hhalf ⊢
    rcases b.desk_execute h settings id line with he | ⟨id', t, t', draws, ht, hg, he⟩
    · rw [he] at hhalf ⊢
      exact ha hhalf
    · rw [he] at hhalf ⊢
      exact (ha hhalf).put (hg.id.trans (hs.fits ht).held) (Table.contains_iff.2 ⟨t, ht⟩)
  | clear id =>
    dsimp only [after] at hhalf ⊢
    split
    · next t ht =>
      rw [ht] at hhalf
      have hheld : t.clear.id = _ := (hs.fits (Desk.get_eq_ok_iff.1 ht)).held
      exact (ha hhalf).put hheld (Desk.contains_of_get ht)
    · next he =>
      rw [he] at hhalf
      exact ha hhalf
  | save path => exact ha hhalf

/-- Exactly these calls lead to a shared view without a partner, and only naming its mode again
leads out of it. -/
theorem isHalfSplit_after_iff (hs : b.desk.Sound settings)
    (ha : b.desk.IsHalfSplit → b.desk.IsAlone) : (call.after h settings b).desk.IsHalfSplit ↔
      call.Halves b.desk ∨ b.desk.IsHalfSplit ∧ ¬ call.EndsSplit b.desk := by
  have hsame : ∀ {P : Prop}, (P ↔ b.desk.IsHalfSplit) →
      (P ↔ False ∨ b.desk.IsHalfSplit ∧ ¬ False) := fun hp => by simp [hp]
  cases call with
  | openTerminal shell front =>
    exact hsame (Desk.isHalfSplit_congr (Desk.split_openTerminal b.desk settings _ shell front))
  | close id =>
    apply hsame
    dsimp only [after]
    split
    · next hd => exact Desk.isHalfSplit_close hd
    · exact Iff.rfl
  | activate id =>
    apply hsame
    dsimp only [after]
    split
    · next hd => exact Desk.isHalfSplit_activate hd
    · exact Iff.rfl
  | share word =>
    dsimp only [after, Halves, EndsSplit]
    cases hword : SplitMode.ofText? word with
    | none => simp
    | some mode =>
      simp only [Option.some.injEq, exists_eq_left']
      rw [Desk.isHalfSplit_toggleSplit_iff]
      constructor
      · exact .inl
      · rintro (hhalves | ⟨hhalf, hother⟩)
        · exact hhalves
        · exact ⟨hother, ha hhalf, hs.counter_of_isHalfSplit hhalf⟩
  | execute id line =>
    apply hsame
    apply Desk.isHalfSplit_congr
    rcases b.desk_execute h settings id line with he | ⟨id', t, t', draws, -, -, he⟩
    · exact congrArg Desk.split he
    · have hsplit := congrArg Desk.split he
      exact hsplit
  | clear id =>
    apply hsame
    dsimp only [after]
    split
    · exact Iff.rfl
    · exact Iff.rfl
  | save path => exact hsame Iff.rfl

end DeskCall

/-! ## Terminals in order -/

/-- Terminals of which one is active, and which are seen beside it while the view is shared. -/
structure Desk.InOrder (d : Desk) : Prop where
  active : ∃ t, d.table.get? d.activeId = some t
  /-- All terminals are held under their ids, and none has been shut down. -/
  held : ∀ {id t}, d.table.get? id = some t → t.id = id ∧ t.closed = false
  partner : ∀ p ∈ d.split.bind Split.partner, p ≠ d.activeId ∧ ∃ t, d.table.get? p = some t
  /-- The active terminal is seen first. -/
  first : d.visible.head? = some d.activeId
  distinct : d.visible.Nodup
  seen : ∀ id ∈ d.visible, ∃ t, d.table.get? id = some t
  /-- Two terminals are seen when there is a partner, and one otherwise. -/
  many : d.visible.length = if (d.split.bind Split.partner).isSome then 2 else 1

theorem Desk.Sound.inOrder {d : Desk} (h : d.Sound settings) (ho : d.IsOpen) : d.InOrder := by
  have hactive : ∃ t, d.table.get? d.activeId = some t := Table.contains_iff.1 h.active
  have hpartner : ∀ p ∈ d.split.bind Split.partner,
      p ≠ d.activeId ∧ d.table.contains p = true := by
    intro p hp
    obtain ⟨⟨mode, partner⟩, hsplit, rfl⟩ := Option.bind_eq_some_iff.1 hp
    exact (h.partner hsplit).symm
  have hvisible : d.visible = d.activeId :: (d.split.bind Split.partner).toList := by
    rw [Desk.visible]
    cases hp : d.split.bind Split.partner with
    | none => rfl
    | some p => rw [Option.filter_some, if_pos (hpartner p hp).2]
  refine ⟨hactive, fun ht => ⟨(h.fits ht).held, ho _ _ ht⟩, ?_, rfl, ?_, ?_, ?_⟩
  · intro p hp
    exact ⟨(hpartner p hp).1, Table.contains_iff.1 (hpartner p hp).2⟩
  · rw [hvisible]
    cases hp : d.split.bind Split.partner with
    | none => simp
    | some p => simp [Ne.symm (hpartner p hp).1]
  · rw [hvisible]
    intro id hid
    rcases List.mem_cons.1 hid with rfl | hid
    · exact hactive
    · exact Table.contains_iff.1 (hpartner id (Option.mem_toList.1 hid)).2
  · rw [hvisible]
    cases d.split.bind Split.partner <;> rfl

namespace Studio

variable {b : Studio FileSystem}

theorem Attended.isOpen (hb : b.Attended settings) :
    b.desk.IsOpen ∧ (b.desk.IsHalfSplit → b.desk.IsAlone) := by
  induction hb with
  | started hd =>
    obtain ⟨hopen, hwhole⟩ := Desk.open_of_start hd
    exact ⟨hopen, fun hhalf => absurd hhalf hwhole⟩
  | elsewhere _ w repository draws ih => exact ih
  | called hb hf h call ih =>
    exact ⟨DeskCall.isOpen_after ih.1, DeskCall.alone_after hb.reachable.sound ih.2⟩
  | @worked b hb h terminalId entryId job ih =>
    obtain ⟨ho, ha⟩ := ih
    obtain ⟨a, he⟩ := b.desk_doJob h settings terminalId entryId job
    rw [he]
    refine ⟨Desk.Every.modify ho terminalId fun t ht => ht, fun hhalf id hid => ha hhalf id ?_⟩
    rw [Table.contains, Option.isSome_iff_ne_none, ne_eq, Table.get?_modify_eq_none_iff] at hid
    rwa [Table.contains, Option.isSome_iff_ne_none]

/-- Whatever was stored and whatever is asked for, the terminals are in order. The mode of a shared
view and its partner belong together but where the only terminal has the last number; exactly the
calls that share its view lead there, and there is no way out but to end that. -/
theorem attended_inOrder (hb : b.Attended settings) :
    b.desk.InOrder ∧
    ((b.desk.split.map Split.mode).isSome = (b.desk.split.bind Split.partner).isSome ↔
      ¬ b.desk.IsHalfSplit) ∧
    (b.desk.IsHalfSplit → b.desk.IsAlone ∧ 10 ^ Text.digitLimit ≤ b.desk.counter + 1) ∧
    ∀ h call, (DeskCall.after h settings b call).desk.IsHalfSplit ↔
      call.Halves b.desk ∨ b.desk.IsHalfSplit ∧ ¬ call.EndsSplit b.desk := by
  have hsound := hb.reachable.sound
  obtain ⟨hopen, halone⟩ := hb.isOpen
  refine ⟨hsound.inOrder hopen, ?_, ?_, fun h call => DeskCall.isHalfSplit_after_iff hsound halone⟩
  case refine_2 =>
    intro hhalf
    exact ⟨halone hhalf, hsound.counter_of_isHalfSplit hhalf⟩
  cases hsplit : b.desk.split with
  | none => simp [Desk.IsHalfSplit, hsplit]
  | some x =>
    obtain ⟨mode, _ | p⟩ := x
    · simp [Desk.IsHalfSplit, hsplit]
    · simp [Desk.IsHalfSplit, hsplit]

/-- Two terminals, of which the older is seen beside the newer. -/
def pairStudio : Studio FileSystem :=
  DeskCall.after ⟨none, default⟩ {}
    (DeskCall.after ⟨none, default⟩ {} ⟨homeWorld, none, .new {} homeWorld.space {}⟩
      (.openTerminal none true))
    (.share "vertical")

theorem pairStudio_inOrder :
    pairStudio.Attended {} ∧ pairStudio.desk.visible = ["t2", "t1"] ∧
      pairStudio.desk.InOrder ∧ ¬ pairStudio.desk.IsHalfSplit := by
  have hstart : Desk.start {} homeWorld.space default {} none =
      .ok (.new {} homeWorld.space {}) := rfl
  have hpair : pairStudio.Attended {} := by
    refine .called (.called (.started hstart) ?_ _ _) ?_ _ _
    · decide +kernel
    · decide +kernel
  have hsplit : pairStudio.desk.visible = ["t2", "t1"] ∧
      pairStudio.desk.split = some ⟨.vertical, some "t1"⟩ := by decide +kernel
  obtain ⟨horder, hboth, -⟩ := attended_inOrder hpair
  refine ⟨hpair, hsplit.1, horder, hboth.1 ?_⟩
  rw [hsplit.2]
  rfl

/-- The terminal with the last number is to be seen with another one: a mode is set, but there is
no partner. -/
theorem mode_without_partner :
    let b := DeskCall.after ⟨none, default⟩ {} lastStudio (.share "horizontal")
    Desk.start {} lastStudio.world.space default {} (some (SavedSession.ofDesk lastDesk).text) =
        .ok lastStudio.desk ∧
      b.Attended {} ∧ b.desk.split.map Split.mode = some .horizontal ∧
      b.desk.split.bind Split.partner = none := by
  have hlast : lastStudio.Attended {} := .started start_lastDesk
  have hmode : lastStudio.desk.split.map Split.mode ≠ some .horizontal := nofun
  have hword : SplitMode.ofText? "horizontal" = some .horizontal := rfl
  have hsplit : (DeskCall.after ⟨none, default⟩ {} lastStudio (.share "horizontal")).desk =
      { lastStudio.desk with split := some ⟨.horizontal, none⟩ } := by
    simp only [DeskCall.after, hword, Desk.toggleSplit_alone hmode rfl le_lastNumber]
  dsimp only
  rw [hsplit]
  exact ⟨start_lastDesk, .called hlast rfl _ _, rfl, rfl⟩

end Studio

end Workbench
