import Workbench.Form.Reading

/-!
# Readings that succeed

What the parts of a reading that succeeds have read.
-/

namespace Workbench.Form

namespace Checked

variable {α β : Type} {x : Checked α} {a : α} {b : β}

theorem under_eq_ok {name : String} : x.under name = .ok a ↔ x = .ok a := by
  cases x with
  | ok a' => exact Iff.rfl
  | bad issues => simp [under]

theorem andThen_eq_ok {f : α → Checked β} : x.andThen f = .ok b ↔ ∃ a, x = .ok a ∧ f a = .ok b := by
  cases x with
  | ok a' => simp [andThen]
  | bad issues => simp [andThen]

theorem map_eq_ok {f : α → β} : f <$> x = .ok b ↔ ∃ a, x = .ok a ∧ f a = b := by
  cases x with
  | ok a' => simp [Functor.map]
  | bad issues => simp [Functor.map]

theorem seq_eq_ok {f : Checked (α → β)} :
    f <*> x = .ok b ↔ ∃ g a, f = .ok g ∧ x = .ok a ∧ g a = b := by
  cases f with
  | ok g =>
    cases x with
    | ok a' => simp [Seq.seq]
    | bad issues => simp [Seq.seq]
  | bad issues =>
    cases x with
    | ok a' => simp [Seq.seq]
    | bad issues' => simp [Seq.seq]

end Checked

variable {α : Type} {fields : List (String × Json)} {name : String} {read : Reading α} {a d : α}

/-- A field that may be left out has its default or what has been read. -/
theorem of_optional {P : α → Prop} (hd : P d) (hread : ∀ {v a}, read v = .ok a → P a)
    (h : optional fields name d read = .ok a) : P a := by
  unfold optional at h
  split at h
  · exact hread (Checked.under_eq_ok.1 h)
  · exact Checked.ok.inj h ▸ hd

end Workbench.Form
