import Workbench.Text.Blank

/-!
# Texts

Facts about texts that are put together from others, and about the words of a line: none of them is
empty, and none holds a blank.
-/

namespace Workbench.Text

/-- What is written with a number at its end tells the number. -/
theorem append_toString_injective (s : String) {j k : Nat}
    (h : s ++ toString j = s ++ toString k) : j = k := by
  have ht := congrArg String.toList h
  rw [String.toList_append, String.toList_append] at ht
  have hd : Nat.toDigits 10 j = Nat.toDigits 10 k := by
    rw [← Nat.toList_repr, ← Nat.toList_repr]
    exact List.append_cancel_left ht
  rw [← @Nat.ofDigitChars_ten_toDigits j, hd, Nat.ofDigitChars_ten_toDigits]

/-- Separated parts hold nothing that separates, and only what was there. -/
theorem of_mem_splitOnP {α : Type} {p : α → Bool} {cs ds : List α} (h : ds ∈ cs.splitOnP p) :
    ∀ x ∈ ds, p x = false ∧ x ∈ cs := by
  induction cs generalizing ds with
  | nil =>
    rw [List.splitOnP_nil, List.mem_singleton] at h
    simp [h]
  | cons c rest ih =>
    rw [List.splitOnP_cons_eq_if_modifyHead] at h
    intro x hx
    split at h
    · rcases List.mem_cons.1 h with rfl | h
      · cases hx
      · obtain ⟨hp, hmem⟩ := ih h x hx
        exact ⟨hp, List.mem_cons_of_mem c hmem⟩
    · next hc =>
      cases hs : rest.splitOnP p with
      | nil => exact absurd hs (List.splitOnP_ne_nil p rest)
      | cons e es =>
        rw [hs, List.modifyHead_cons] at h
        rcases List.mem_cons.1 h with rfl | h
        · rcases List.mem_cons.1 hx with rfl | hx
          · exact ⟨Bool.eq_false_iff.2 hc, List.mem_cons_self⟩
          · obtain ⟨hp, hmem⟩ := ih (hs ▸ List.mem_cons_self) x hx
            exact ⟨hp, List.mem_cons_of_mem c hmem⟩
        · obtain ⟨hp, hmem⟩ := ih (hs ▸ List.mem_cons_of_mem e h) x hx
          exact ⟨hp, List.mem_cons_of_mem c hmem⟩

/-! ## Words -/

/-- A text of characters that are not blanks, and of at least one. -/
structure IsToken (s : String) : Prop where
  ne_empty : s ≠ ""
  solid : ∀ c ∈ s.toList, isBlank c = false

instance (s : String) : Decidable (IsToken s) :=
  decidable_of_iff (s ≠ "" ∧ (s.toList.all fun c => !isBlank c) = true)
    ⟨fun h => ⟨h.1, by simpa using h.2⟩, fun h => ⟨h.1, by simpa using h.2⟩⟩

theorem isToken_of_mem_words {s line : String} (h : s ∈ words line) : IsToken s := by
  obtain ⟨cs, hcs, rfl⟩ := List.mem_map.1 h
  obtain ⟨hmem, hne⟩ := List.mem_filter.1 hcs
  constructor
  · rintro he
    have hnil : cs = [] := by simpa using congrArg String.toList he
    rw [hnil] at hne
    cases hne
  · intro c hc
    rw [String.toList_ofList] at hc
    exact (of_mem_splitOnP hmem c hc).1

theorem trim_of_solid {cs : List Char} (h : ∀ c ∈ cs, isBlank c = false) : trim cs = cs :=
  trim_eq_self_of_not_blank (fun c hc => h c (List.mem_of_mem_head? hc))
    fun c hc => h c (List.mem_of_mem_getLast? hc)

namespace IsToken

variable {s t : String}

theorem strip (h : IsToken s) : strip s = s := by
  rw [Text.strip, trim_of_solid h.solid, String.ofList_toList]

theorem exists_cons (h : IsToken s) : ∃ c cs, s.toList = c :: cs := by
  apply List.exists_cons_of_ne_nil
  intro hnil
  exact h.ne_empty (String.toList_inj.1 hnil)

theorem isBlankText (h : IsToken s) : isBlankText s = false := by
  obtain ⟨c, cs, hs⟩ := h.exists_cons
  have hc := h.solid c (hs ▸ List.mem_cons_self)
  simp [Text.isBlankText, hs, hc]

/-- A token with something solid after it is a token. -/
theorem append (hs : IsToken s) (ht : ∀ c ∈ t.toList, isBlank c = false) : IsToken (s ++ t) := by
  constructor
  · intro he
    obtain ⟨c, cs, hcs⟩ := hs.exists_cons
    simpa [hcs] using congrArg String.toList he
  · intro c hc
    rw [String.toList_append, List.mem_append] at hc
    exact hc.elim (hs.solid c) (ht c)

end IsToken

end Workbench.Text
