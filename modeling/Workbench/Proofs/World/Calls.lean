import Workbench.Workspace.Operation
import Workbench.Proofs.Workspace.Rebuilt

/-!
# Calls to the disk

Calls change the disk and leave the workspace alone; only a rebuilding changes it, and from a sound
workspace makes a sound one when the listing is proper. One lemma for each of the steps of which
the operations are made.
-/

namespace Workbench

variable {σ α : Type}

/-- A bridge whose listings are proper. Nothing is said of its calls, which may succeed, fail or
break down, nor of what they do to the disk. -/
def Bridge.Lawful (b : Bridge σ) : Prop :=
  ∀ {now root d F d'}, b.list now root d = (.ok F, d') → ProperListing F

/-- A host whose bridge, if there is one, is lawful. -/
def Host.Lawful (h : Host σ) : Prop := ∀ b, h.bridge = some b → b.Lawful

namespace World

variable {w : World σ} {id : NodeId}

@[simp] theorem refuse_snd (w : World σ) (r : Refusal) :
    (w.refuse r : Outcome σ α).2 = w := rfl

@[simp] theorem finish_snd (w : World σ) (s : Workspace) (a : α) :
    (w.finish s a).2 = { w with space := s } := rfl

@[simp] theorem answer_snd (w : World σ) (id : NodeId) : (w.answer id).2 = w := by
  unfold answer
  split <;> rfl

theorem answer_eq_ok {n : Node} (hn : w.space.node? id = some n) : w.answer id = (.ok n, w) := by
  unfold answer
  rw [Workspace.require_eq_ok_iff.2 hn]

theorem placeIn_eq {d : Node} {q : List String} (h : w.space.arena.IsTree)
    (hl : w.space.arena.Leads d.id q) (name : String) : w.placeIn d name = q ++ [name] := by
  obtain ⟨n, hn⟩ := h.mem_of_leads hl
  rw [placeIn, (h.leads_iff hn).1 hl]

/-! ## The steps of creating directories -/

section Steps

variable {h : Host σ} {n c : Node} {segment : String} (hn : w.space.node? id = some n)

include hn

theorem ensureBelow_nil : w.ensureBelow h [] id = (.ok n, w) := by
  rw [ensureBelow, answer_eq_ok hn]

theorem ensureBelow_dot (rest : List String) :
    w.ensureBelow h ("." :: rest) id = w.ensureBelow h rest id := by
  simp [ensureBelow, hn]

theorem ensureBelow_dots (rest : List String) :
    w.ensureBelow h (".." :: rest) id = w.ensureBelow h rest (n.parentId.getD id) := by
  simp [ensureBelow, hn]

variable (hdot : segment ≠ ".") (hdots : segment ≠ "..")

include hdot hdots

theorem ensureBelow_child (hc : w.space.arena.childNamed? n segment = some c)
    (hk : c.isDirectory = true) (rest : List String) :
    w.ensureBelow h (segment :: rest) id = w.ensureBelow h rest c.id := by
  simp [ensureBelow, hn, hdot, hdots, hc, hk]

theorem ensureBelow_file (hc : w.space.arena.childNamed? n segment = some c)
    (hk : ¬ c.isDirectory = true) (rest : List String) :
    w.ensureBelow h (segment :: rest) id = w.refuse (.notDirectory (w.space.pathOf c.id)) := by
  simp [ensureBelow, hn, hdot, hdots, hc, hk]

theorem ensureBelow_missing (hc : w.space.arena.childNamed? n segment = none)
    (rest : List String) : w.ensureBelow h (segment :: rest) id =
      match w.create h .directory segment id "" with
      | (.ok n, w) => w.ensureBelow h rest n.id
      | (.error e, w) => (.error e, w) := by
  rcases hmade : w.create h .directory segment id "" with ⟨e | m, w'⟩
  · simp [ensureBelow, hn, hdot, hdots, hc, hmade]
  · simp [ensureBelow, hn, hdot, hdots, hc, hmade]

end Steps

end World

namespace Host

variable {h : Host σ} {w : World σ} {call : DiskCall} {carried : Workspace.Carried}

theorem perform_space (h : Host σ) (w : World σ) (call : DiskCall) :
    (h.perform w call).2.space = w.space := by
  unfold perform
  repeat' split
  all_goals rfl

theorem list_space (h : Host σ) (w : World σ) (root : String) :
    (h.list w root).2.space = w.space := by
  unfold list
  repeat' split
  all_goals rfl

theorem performAll_space (h : Host σ) (w : World σ) (calls : List DiskCall) :
    (h.performAll w calls).2.space = w.space := by
  induction calls generalizing w with
  | nil => rfl
  | cons call rest ih =>
    have hp := h.perform_space w call
    rw [performAll]
    split
    · next w' he =>
      rw [he] at hp
      rw [ih, hp]
    · next he =>
      rw [he] at hp
      exact hp

theorem space_of_performAll {calls : List DiskCall} {a : Except Refusal Unit} {w' : World σ}
    (he : h.performAll w calls = (a, w')) : w'.space = w.space := by
  have hs := h.performAll_space w calls
  rwa [he] at hs

theorem space_of_list {root : String} {a : Except Refusal (List DiskEntry)} {w' : World σ}
    (he : h.list w root = (a, w')) : w'.space = w.space := by
  have hs := h.list_space w root
  rwa [he] at hs

theorem performAll_singleton (h : Host σ) (w : World σ) (call : DiskCall) :
    h.performAll w [call] = h.perform w call := by
  rw [performAll]
  split
  · next he => rw [he, performAll]
  · next he => rw [he]

/-- A single call is done by itself. -/
theorem perform_of_performAll {w' : World σ} (h : Host σ)
    (hd : h.performAll w [call] = (.ok (), w')) : h.perform w call = (.ok (), w') :=
  (h.performAll_singleton w call).symm.trans hd

theorem resync_disk (h : Host σ) (w : World σ) (carried : Workspace.Carried) :
    (h.resync w carried).2.disk = (h.list w (w.space.boundRoot.getD "")).2.disk := by
  unfold resync
  split
  · next he => rw [he]
  · next he => rw [he]

theorem Lawful.proper (hh : h.Lawful) {root : String} {F : List DiskEntry} {w' : World σ}
    (hl : h.list w root = (.ok F, w')) : ProperListing F := by
  unfold list at hl
  split at hl
  · cases hl
  · next b hb =>
    split at hl
    · next F' d he =>
      obtain rfl : F' = F := by
        have := congrArg Prod.fst hl
        exact Except.ok.inj this
      exact hh b hb he
    · cases hl

/-- A rebuilding either fails and leaves the workspace, or rebuilds it from a listing. -/
theorem resync_cases (h : Host σ) (w : World σ) (carried : Workspace.Carried) :
    (∃ r, (h.list w (w.space.boundRoot.getD "")).1 = .error r ∧
      (h.resync w carried).1 = .error r ∧ (h.resync w carried).2.space = w.space) ∨
    ∃ F, (h.list w (w.space.boundRoot.getD "")).1 = .ok F ∧ (h.resync w carried).1 = .ok () ∧
      (h.resync w carried).2.space = w.space.rebuilt F carried h.now := by
  have hs := h.list_space w (w.space.boundRoot.getD "")
  unfold resync
  split
  · next F w' he =>
    rw [he] at hs
    have hs : w'.space = w.space := hs
    exact .inr ⟨F, by rw [he], rfl, by rw [← hs]⟩
  · next r w' he =>
    rw [he] at hs
    exact .inl ⟨r, by rw [he], rfl, hs⟩

theorem rebuilt_of_resync {w' : World σ} (he : h.resync w carried = (.ok (), w')) :
    ∃ F, w'.space = w.space.rebuilt F carried h.now := by
  rcases h.resync_cases w carried with ⟨r, -, hr, -⟩ | ⟨F, -, -, hw⟩
  · rw [he] at hr
    cases hr
  · rw [he] at hw
    exact ⟨F, hw⟩

/-- A call that is written through fails and leaves the workspace, or succeeds and is followed by a
rebuilding. -/
theorem writeThrough_cases (h : Host σ) (w : World σ) (call : DiskCall)
    (carried : Workspace.Carried) :
    (∃ r, (h.perform w call).1 = .error r ∧ (h.writeThrough w call carried).1 = .error r ∧
      (h.writeThrough w call carried).2.space = w.space) ∨
    ((h.perform w call).1 = .ok () ∧
      h.writeThrough w call carried = h.resync (h.perform w call).2 carried) := by
  have hs := h.perform_space w call
  unfold writeThrough
  split
  · next w' he => exact .inr ⟨by rw [he], by rw [he]⟩
  · next r w' he =>
    rw [he] at hs
    exact .inl ⟨r, by rw [he], rfl, hs⟩

/-- After a call that is written through and succeeds the workspace is rebuilt from some listing. -/
theorem rebuilt_of_writeThrough {w' : World σ} (he : h.writeThrough w call carried = (.ok (), w')) :
    ∃ F, w'.space = w.space.rebuilt F carried h.now := by
  rcases h.writeThrough_cases w call carried with ⟨r, -, hr, -⟩ | ⟨-, hs⟩
  · rw [he] at hr
    cases hr
  rw [he] at hs
  obtain ⟨F, hF⟩ := rebuilt_of_resync hs.symm
  exact ⟨F, h.perform_space w call ▸ hF⟩

/-- What a workspace is bound to is not changed by a rebuilding. -/
theorem boundRoot_resync (h : Host σ) (w : World σ) (carried : Workspace.Carried) :
    (h.resync w carried).2.space.boundRoot = w.space.boundRoot := by
  rcases h.resync_cases w carried with ⟨r, -, -, he⟩ | ⟨F, -, -, he⟩
  · rw [he]
  · rw [he]
    rfl

theorem boundRoot_writeThrough (h : Host σ) (w : World σ) (call : DiskCall)
    (carried : Workspace.Carried) :
    (h.writeThrough w call carried).2.space.boundRoot = w.space.boundRoot := by
  rcases h.writeThrough_cases w call carried with ⟨r, -, -, he⟩ | ⟨-, he⟩
  · rw [he]
  · rw [he, boundRoot_resync, perform_space]

/-- A rebuilding keeps the workspace sound, however it ends. -/
theorem sound_of_resync {a : Except Refusal Unit} {w' : World σ} (hh : h.Lawful)
    (hs : w.space.Sound) (hc : carried.Fit w.space) (he : h.resync w carried = (a, w')) :
    w'.space.Sound := by
  have hw : (h.resync w carried).2.space.Sound := by
    rcases h.resync_cases w carried with ⟨r, -, -, he⟩ | ⟨F, hF, -, he⟩
    · rw [he]
      exact hs
    · rw [he]
      exact hs.rebuilt hc (hh.proper (Prod.ext hF rfl)) h.now
  rw [he] at hw
  exact hw

/-- Writing through keeps the workspace sound, however it ends. -/
theorem sound_of_writeThrough {a : Except Refusal Unit} {w' : World σ} (hh : h.Lawful)
    (hs : w.space.Sound) (hc : carried.Fit w.space) (he : h.writeThrough w call carried = (a, w')) :
    w'.space.Sound := by
  rcases h.writeThrough_cases w call carried with ⟨r, -, -, hw⟩ | ⟨-, hw⟩
  · rw [he] at hw
    have hw : w'.space = w.space := hw
    exact hw ▸ hs
  · have hp := h.perform_space w call
    exact sound_of_resync hh (hp ▸ hs) (hp ▸ hc) (hw.symm.trans he)

end Host

end Workbench
