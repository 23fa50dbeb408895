import Mathlib.Data.List.Forall2
import Workbench.Proofs.Tabs

/-!
# Tab bars that show the same

Two bars over different ids show the same when their tabs correspond one by one and so do the
active ones. Opening and closing corresponding tabs keeps it so, whichever tab becomes active.
-/

namespace Workbench.Tabs

open Relator (BiUnique)

/-- The tabs of two bars correspond in order, and the active ones as well. -/
structure Alike (R : String → String → Prop) (t u : Tabs) : Prop where
  openIds : List.Forall₂ R t.openIds u.openIds
  activeId : Option.Rel R t.activeId u.activeId

variable {R R' : String → String → Prop} {t u : Tabs} {x y : String} {l l' : List String}

theorem rel_iff (h : BiUnique R) {x' y' : String} (hxy : R x y) (hxy' : R x' y') :
    x = x' ↔ y = y' :=
  ⟨fun he => h.2 hxy (he ▸ hxy'), fun he => h.1 hxy (he ▸ hxy')⟩

theorem idxOf_eq (h : BiUnique R) (hl : List.Forall₂ R l l') (hxy : R x y) :
    l.idxOf x = l'.idxOf y := by
  induction hl with
  | nil => rfl
  | @cons a b l l' hab _ ih =>
    have hiff := rel_iff h hab hxy
    by_cases ha : a = x
    · obtain rfl := ha
      obtain rfl := hiff.1 rfl
      rw [List.idxOf_cons_self, List.idxOf_cons_self]
    · have hb : b ≠ y := fun hb => ha (hiff.2 hb)
      rw [List.idxOf_cons_ne l ha, List.idxOf_cons_ne l' hb, ih]

theorem forall₂_erase (h : BiUnique R) (hl : List.Forall₂ R l l') (hxy : R x y) :
    List.Forall₂ R (l.erase x) (l'.erase y) := by
  induction hl with
  | nil => exact .nil
  | @cons a b l l' hab hl ih =>
    have hiff := rel_iff h hab hxy
    by_cases ha : a = x
    · obtain rfl := ha
      obtain rfl := hiff.1 rfl
      simpa using hl
    · have hb : b ≠ y := fun hb => ha (hiff.2 hb)
      rw [List.erase_cons_tail (by simpa using ha), List.erase_cons_tail (by simpa using hb)]
      exact .cons hab ih

theorem rel_getElem? (hl : List.Forall₂ R l l') (k : Nat) : Option.Rel R l[k]? l'[k]? := by
  induction hl generalizing k with
  | nil => exact .none
  | cons hab _ ih =>
    cases k with
    | zero => exact .some hab
    | succ k => simpa using ih k

namespace Alike

theorem mono (h : Alike R t u) (ht : t.Sound) (hR : ∀ {x y}, x ∈ t.openIds → R x y → R' x y) :
    Alike R' t u where
  openIds := by
    have : ∀ {l l'}, (∀ x ∈ l, x ∈ t.openIds) → List.Forall₂ R l l' → List.Forall₂ R' l l' := by
      intro l l' hmem hl
      induction hl with
      | nil => exact .nil
      | cons hab _ ih =>
        exact .cons (hR (hmem _ List.mem_cons_self) hab)
          (ih fun x hx => hmem x (List.mem_cons_of_mem _ hx))
    exact this (fun _ hx => hx) h.openIds
  activeId := by
    have := h.activeId
    generalize hx : t.activeId = ox at this
    generalize hy : u.activeId = oy at this
    cases this with
    | none => exact .none
    | some hxy => exact .some (hR (ht.activeId_mem hx) hxy)

theorem mem_iff (hR : BiUnique R) (h : Alike R t u) (hxy : R x y) :
    x ∈ t.openIds ↔ y ∈ u.openIds :=
  List.rel_mem hR hxy h.openIds

theorem contains_eq (hR : BiUnique R) (h : Alike R t u) (hxy : R x y) :
    t.openIds.contains x = u.openIds.contains y := by
  have := h.mem_iff hR hxy
  rw [Bool.eq_iff_iff]
  simpa using this

theorem opened (hR : BiUnique R) (h : Alike R t u) (hxy : R x y) :
    Alike R (t.opened x) (u.opened y) where
  openIds := by
    simp only [Tabs.opened, h.contains_eq hR hxy]
    split
    · exact h.openIds
    · exact List.rel_append h.openIds (.cons hxy .nil)
  activeId := .some hxy

theorem close (hR : BiUnique R) (h : Alike R t u) (hxy : R x y) :
    (t.close x).1 = (u.close y).1 ∧ Alike R (t.close x).2 (u.close y).2 := by
  simp only [Tabs.close, h.contains_eq hR hxy]
  split
  · refine ⟨rfl, forall₂_erase hR h.openIds hxy, ?_⟩
    have herase := forall₂_erase hR h.openIds hxy
    simp only [closed, idxOf_eq hR h.openIds hxy, herase.length_eq]
    -- the tab that closes is active in both bars or in neither
    have := h.activeId
    generalize t.activeId = ox at this
    generalize u.activeId = oy at this
    cases this with
    | none => exact .none
    | @some a b hab =>
      have hiff := rel_iff hR hab hxy
      by_cases ha : a = x
      · rw [if_pos (congrArg some ha), if_pos (congrArg some (hiff.1 ha))]
        exact rel_getElem? herase _
      · rw [if_neg (fun he => ha (Option.some.inj he)),
          if_neg (fun he => ha (hiff.2 (Option.some.inj he)))]
        exact .some hab
  · exact ⟨rfl, h⟩

theorem foldl_close (hR : BiUnique R) (h : Alike R t u) (hl : List.Forall₂ R l l') :
    Alike R (l.foldl (fun t x => (t.close x).2) t) (l'.foldl (fun t x => (t.close x).2) u) := by
  induction hl generalizing t u with
  | nil => exact h
  | cons hab _ ih => exact ih (h.close hR hab).2

/-- Closing many tabs, when the targets correspond as far as they are open. -/
theorem closeMany (hR : BiUnique R) (h : Alike R t u) {targets targets' : List String}
    (ht : ∀ {x y}, R x y → (x ∈ targets ↔ y ∈ targets')) :
    Alike R (t.closeMany targets).2 (u.closeMany targets').2 := by
  refine h.foldl_close hR (List.rel_filter (fun x y hxy => ?_) h.openIds)
  simpa using ht hxy

end Alike

end Workbench.Tabs
