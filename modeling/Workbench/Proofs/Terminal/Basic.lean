import Workbench.Terminal.Basic

/-!
# What is done to a terminal

Whatever is done to a terminal leaves it its id, its name and the limit of its history, and its
history stays within that limit (`Terminal.GoesOn`). This is so for executing a line and for
the end of a job, and for the rest that can be done to it (`Terminal.Handled`).
-/

namespace Workbench

variable {σ : Type}

namespace History

theorem length_lastOf_le {α : Type} (n : Nat) (l : List α) : (lastOf n l).length ≤ n := by
  rw [lastOf, List.length_drop]
  omega

theorem lastOf_eq {α : Type} {n : Nat} {l : List α} (h : l.length ≤ n) : lastOf n l = l := by
  rw [lastOf, Nat.sub_eq_zero_of_le h, List.drop_zero]

/-- Walking back changes no more than the cursor. -/
theorem previous_same (h : History) :
    h.previous.2.limit = h.limit ∧ h.previous.2.entries = h.entries := by
  unfold previous
  split
  · exact ⟨rfl, rfl⟩
  · exact ⟨rfl, rfl⟩

theorem next_same (h : History) : h.next.2.limit = h.limit ∧ h.next.2.entries = h.entries := by
  unfold next
  split
  · exact ⟨rfl, rfl⟩
  · split
    · exact ⟨rfl, rfl⟩
    · exact ⟨rfl, rfl⟩

end History

namespace Terminal

variable {t t' t'' : Terminal}

/-- A terminal that keeps its id and its name, and whose history stays within its limit. -/
structure GoesOn (t t' : Terminal) : Prop where
  id : t'.id = t.id
  name : t'.name = t.name
  limit : t'.history.limit = t.history.limit
  history : t.history.entries.length ≤ t.history.limit →
    t'.history.entries.length ≤ t'.history.limit

/-- What is done to a terminal apart from executing lines and doing its jobs. -/
inductive Handled (t : Terminal) : Terminal → Prop
  | cleared : Handled t t.clear
  | shutDown : Handled t t.shutdown
  | walkedBack : Handled t t.historyPrevious.2
  | walkedOn : Handled t t.historyNext.2

namespace GoesOn

theorem refl (t : Terminal) : t.GoesOn t := ⟨rfl, rfl, rfl, fun h => h⟩

theorem trans (h : t.GoesOn t') (h' : t'.GoesOn t'') : t.GoesOn t'' :=
  ⟨h'.id.trans h.id, h'.name.trans h.name, h'.limit.trans h.limit,
    fun hl => h'.history (h.history hl)⟩

/-- A terminal with its history as it was goes on. -/
theorem of_history_eq (hid : t'.id = t.id) (hname : t'.name = t.name)
    (hlimit : t'.history.limit = t.history.limit)
    (hentries : t'.history.entries = t.history.entries) : t.GoesOn t' :=
  ⟨hid, hname, hlimit, fun h => by rwa [hlimit, hentries]⟩

theorem complete (t : Terminal) (entryId : String) (a : Reply) : t.GoesOn (t.complete entryId a) :=
  .of_history_eq rfl rfl rfl rfl

theorem shutdown (t : Terminal) : t.GoesOn t.shutdown := by
  have hall : ∀ (ids : List String) (t : Terminal),
      t.GoesOn (ids.foldl (fun t entryId => t.complete entryId cancelled) t) := by
    intro ids
    induction ids with
    | nil => exact refl
    | cons entryId rest ih => exact fun t => (complete t entryId cancelled).trans (ih _)
  exact (hall t.pending.keys t).trans (.of_history_eq rfl rfl rfl rfl)

theorem handled (h : t.Handled t') : t.GoesOn t' := by
  cases h with
  | cleared => exact .of_history_eq rfl rfl rfl rfl
  | shutDown => exact shutdown t
  | walkedBack =>
    obtain ⟨hlimit, hentries⟩ := t.history.previous_same
    exact .of_history_eq rfl rfl hlimit hentries
  | walkedOn =>
    obtain ⟨hlimit, hentries⟩ := t.history.next_same
    exact .of_history_eq rfl rfl hlimit hentries

theorem recorded (t : Terminal) (line : String) :
    t.GoesOn { t with history := (t.history.record line).2 } := by
  unfold History.record
  dsimp only
  split
  · exact .of_history_eq rfl rfl rfl rfl
  · exact ⟨rfl, rfl, rfl, fun _ => History.length_lastOf_le _ _⟩

theorem concluded (t : Terminal) (b : Bench σ) (w : World σ) (drawn : Nat) (line : String)
    (a : Reply) (job : Option Job) : t.GoesOn (t.conclude b w drawn line a job).terminal :=
  .of_history_eq rfl rfl rfl rfl

theorem moved (t : Terminal) (cwd : String) (shell : Shell) :
    t.GoesOn { t with cwd := cwd, shell := shell } :=
  .of_history_eq rfl rfl rfl rfl

/-- The end of a line whose command has been carried out. -/
theorem turned (t : Terminal) (b : Bench σ) (drawn : Nat) (line : String) (turn : Turn σ) :
    t.GoesOn (if turn.clears then (⟨{}, t.clear, turn.world, drawn⟩ : Execution σ)
      else t.conclude b turn.world drawn line turn.reply turn.job).terminal := by
  split
  · exact handled .cleared
  · exact concluded t b turn.world drawn line turn.reply turn.job

theorem execute (t : Terminal) (b : Bench σ) (w : World σ) (drawn : Nat) (line : String) :
    t.GoesOn (t.execute b w drawn line).terminal := by
  refine (recorded t line).trans ?_
  unfold Terminal.execute
  dsimp only
  cases Text.words line with
  | nil => exact refl _
  | cons word args =>
    dsimp only
    refine (moved _ (w.space.settle t.cwd) t.shell).trans ?_
    cases Command.ofText? (Text.lower word) with
    | none => exact concluded _ b w drawn line _ none
    | some command =>
      dsimp only
      generalize carryOut _ b w command args = turn
      exact (moved _ turn.cwd turn.shell).trans (turned _ b drawn line turn)

end GoesOn

/-- A terminal that is held under an id and whose history is within the limit that is set. -/
structure Fits (settings : Settings) (id : String) (t : Terminal) : Prop where
  ne_empty : id ≠ ""
  held : t.id = id
  limit : t.history.limit = settings.historyLimit
  history : t.history.entries.length ≤ settings.historyLimit

theorem GoesOn.fits {id : String} (h : t.GoesOn t') (ht : t.Fits settings id) :
    t'.Fits settings id := by
  refine ⟨ht.ne_empty, h.id.trans ht.held, h.limit.trans ht.limit, ?_⟩
  have hl := h.history (by rw [ht.limit]; exact ht.history)
  rwa [h.limit, ht.limit] at hl

theorem fits_new {id : String} (hid : id ≠ "") (s : Workspace) (name : String) (shell : Shell)
    (cwd : String) : (new settings s id name shell cwd).Fits settings id :=
  ⟨hid, rfl, rfl, Nat.zero_le _⟩

end Terminal

end Workbench
