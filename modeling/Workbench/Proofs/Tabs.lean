import Mathlib.Data.List.Nodup
import Workbench.Tabs

/-!
# Sound tab bars

A bar is sound when no tab is open twice, the active tab is open, and some tab is active whenever
one is open. Every operation keeps a bar sound. Closing many tabs leaves the others in their order.

Which tab becomes active when others close is told by a queue in which all open tabs stand
(`Tabs.queue`): the active tab is the first in it, and a tab that closes leaves it, wherever it
stands (`Sound.queue_close`). So it does not matter in which order and in how many stages tabs close
(`Thinned.trans`).
-/

namespace Workbench.Tabs

/-- No tab twice, the active tab among the open ones, and one active if any is open. -/
structure Sound (t : Tabs) : Prop where
  nodup : t.openIds.Nodup
  activeId_mem : ∀ {id}, t.activeId = some id → id ∈ t.openIds
  activeId_eq_none_iff : t.activeId = none ↔ t.openIds = []

variable {t : Tabs} {id : String}

theorem Sound.empty : Sound {} :=
  ⟨List.nodup_nil, fun h => (nomatch h), fun _ => rfl, fun _ => rfl⟩

theorem Sound.closeAll : t.closeAll.Sound := .empty

theorem mem_opened {x : String} : x ∈ (t.opened id).openIds ↔ x = id ∨ x ∈ t.openIds := by
  unfold opened
  by_cases h : t.openIds.contains id = true
  · have hmem : id ∈ t.openIds := by simpa using h
    simp only [h, ↓reduceIte]
    exact ⟨.inr, fun hx => hx.elim (fun he => he ▸ hmem) fun hx => hx⟩
  · simp only [h, Bool.false_eq_true, ↓reduceIte, List.mem_append, List.mem_singleton]
    exact or_comm

theorem Sound.opened (h : t.Sound) (id : String) : (t.opened id).Sound := by
  have hmem : id ∈ (t.opened id).openIds := mem_opened.2 (.inl rfl)
  refine ⟨?_, ?_, ?_⟩
  · unfold Tabs.opened
    by_cases hc : t.openIds.contains id = true
    · simp only [hc, ↓reduceIte]
      exact h.nodup
    · simp only [hc, Bool.false_eq_true, ↓reduceIte]
      refine h.nodup.append (List.nodup_singleton _) fun x hx hxid => ?_
      obtain rfl := List.mem_singleton.1 hxid
      exact hc (by simpa using hx)
  · intro x hx
    obtain rfl : id = x := Option.some.inj hx
    exact hmem
  · refine ⟨fun hx => (nomatch hx), fun hx => ?_⟩
    rw [hx] at hmem
    cases hmem

/-! ## Closing -/

theorem openIds_close (t : Tabs) (id : String) : (t.close id).2.openIds = t.openIds.erase id := by
  unfold close
  split
  · rfl
  · next h =>
    rw [List.erase_of_not_mem]
    simpa using h

theorem activeId_close (hne : t.activeId ≠ some id) : (t.close id).2.activeId = t.activeId := by
  unfold close
  split
  · exact if_neg hne
  · rfl

/-- When the active tab closes, an open tab becomes active, if one is left. -/
theorem activeId_close_self (hid : t.activeId = some id) (hmem : id ∈ t.openIds) :
    (∃ x ∈ (t.close id).2.openIds, (t.close id).2.activeId = some x) ∨
      ((t.close id).2.openIds = [] ∧ (t.close id).2.activeId = none) := by
  have hc : t.openIds.contains id = true := by simpa using hmem
  simp only [close, hc, ↓reduceIte, closed, hid]
  cases hr : t.openIds.erase id with
  | nil => exact .inr ⟨rfl, rfl⟩
  | cons x rest =>
    have hlt : min (t.openIds.idxOf id) ((x :: rest).length - 1) < (x :: rest).length := by
      simp only [List.length_cons]
      omega
    exact .inl ⟨_, List.getElem_mem hlt, List.getElem?_eq_getElem hlt⟩

theorem Sound.close (h : t.Sound) (id : String) : (t.close id).2.Sound := by
  have hnd : (t.close id).2.openIds.Nodup := openIds_close t id ▸ h.nodup.erase id
  by_cases hact : t.activeId = some id
  · rcases activeId_close_self hact (h.activeId_mem hact) with ⟨x, hx, he⟩ | ⟨hnil, he⟩
    · refine ⟨hnd, fun {y} hy => ?_, ?_⟩
      · obtain rfl := Option.some.inj (he.symm.trans hy)
        exact hx
      · rw [he]
        refine ⟨fun hn => (by cases hn), fun hn => ?_⟩
        rw [hn] at hx
        cases hx
    · exact ⟨hnd, fun {y} hy => (by rw [he] at hy; cases hy), by rw [he, hnil]; simp⟩
  · have he := activeId_close hact
    have hmem : ∀ {x}, t.activeId = some x → x ∈ (t.close id).2.openIds := by
      intro x hx
      rw [openIds_close, h.nodup.mem_erase_iff]
      exact ⟨fun hxid => hact (hxid ▸ hx), h.activeId_mem hx⟩
    refine ⟨hnd, fun hy => hmem (he ▸ hy), ?_⟩
    rw [he]
    refine ⟨fun hn => ?_, fun hn => ?_⟩
    · rw [openIds_close, h.activeId_eq_none_iff.1 hn, List.erase_nil]
    · cases hx : t.activeId with
      | none => rfl
      | some x =>
        have := hmem hx
        rw [hn] at this
        cases this

/-- The bar after tabs are closed one after another. -/
theorem Sound.foldl_close (h : t.Sound) (ids : List String) :
    (ids.foldl (fun t id => (t.close id).2) t).Sound ∧
      (ids.foldl (fun t id => (t.close id).2) t).openIds = t.openIds.filter (· ∉ ids) := by
  induction ids generalizing t with
  | nil => simpa using h
  | cons id rest ih =>
    obtain ⟨hs, ho⟩ := ih (h.close id)
    refine ⟨hs, ?_⟩
    rw [List.foldl_cons, ho, openIds_close, h.nodup.erase_eq_filter, List.filter_filter]
    refine List.filter_congr fun x _ => ?_
    by_cases hx : x = id <;> simp [hx]

theorem Sound.closeMany (h : t.Sound) (targets : List String) : (t.closeMany targets).2.Sound :=
  (h.foldl_close _).1

/-- Closing many tabs leaves the others, in their order. -/
theorem Sound.openIds_closeMany (h : t.Sound) (targets : List String) :
    (t.closeMany targets).2.openIds = t.openIds.filter (· ∉ targets) := by
  rw [Tabs.closeMany, (h.foldl_close _).2]
  refine List.filter_congr fun x hx => ?_
  simp [List.mem_filter, hx]

theorem Sound.mem_closeMany (h : t.Sound) {targets : List String} {x : String} :
    x ∈ (t.closeMany targets).2.openIds ↔ x ∈ t.openIds ∧ x ∉ targets := by
  rw [h.openIds_closeMany, List.mem_filter, decide_eq_true_eq]

/-- Closing depends on the targets only as far as they are open. -/
theorem closeMany_congr {targets targets' : List String}
    (h : ∀ x ∈ t.openIds, x ∈ targets ↔ x ∈ targets') :
    t.closeMany targets = t.closeMany targets' := by
  have : t.openIds.filter targets.contains = t.openIds.filter targets'.contains :=
    List.filter_congr fun x hx => by rw [Bool.eq_iff_iff]; simpa using h x hx
  rw [closeMany, closeMany, this]

/-- Closing tabs that are not open changes nothing. -/
theorem closeMany_of_disjoint {targets : List String} (h : ∀ x ∈ t.openIds, x ∉ targets) :
    (t.closeMany targets).2 = t := by
  have : t.openIds.filter targets.contains = [] := by
    rw [List.filter_eq_nil_iff]
    intro x hx
    simpa using h x hx
  rw [closeMany, this]
  rfl

/-! ## The tab that becomes active -/

/-- The open tabs in the order in which they become active as those before them close: the active
one, those to the right of it, and then those to the left of it from the nearest on. -/
def queue (t : Tabs) : List String :=
  match t.activeId with
  | none => []
  | some a => t.openIds.dropWhile (· != a) ++ (t.openIds.takeWhile (· != a)).reverse

variable {t' t'' : Tabs} {a : String} {left right : List String} {gone gone' : String → Bool}

theorem queue_eq_nil (ha : t.activeId = none) : t.queue = [] := by
  simp only [queue, ha]

theorem queue_eq (ha : t.activeId = some a) (ho : t.openIds = left ++ a :: right)
    (hl : a ∉ left) : t.queue = a :: right ++ left.reverse := by
  have hbefore : ∀ x ∈ left, (x != a) = true := fun x hx => bne_iff_ne.2 fun he => hl (he ▸ hx)
  simp only [queue, ha]
  rw [ho, List.dropWhile_append_of_pos hbefore, List.takeWhile_append_of_pos hbefore]
  simp

/-- The tabs on both sides of the active one. -/
theorem Sound.exists_sides (h : t.Sound) (ha : t.activeId = some a) :
    ∃ left right, t.openIds = left ++ a :: right ∧ a ∉ left ∧ a ∉ right := by
  obtain ⟨left, right, ho⟩ := List.append_of_mem (h.activeId_mem ha)
  have hnd : (left ++ a :: right).Nodup := ho ▸ h.nodup
  exact ⟨left, right, ho,
    fun hmem => List.disjoint_of_nodup_append hnd hmem List.mem_cons_self,
    (List.nodup_cons.1 (List.nodup_append.1 hnd).2.1).1⟩

theorem Sound.head?_queue (h : t.Sound) : t.queue.head? = t.activeId := by
  cases ha : t.activeId with
  | none => rw [queue_eq_nil ha, List.head?_nil]
  | some a =>
    obtain ⟨left, right, ho, hl, -⟩ := h.exists_sides ha
    rw [queue_eq ha ho hl]
    rfl

theorem Sound.mem_queue (h : t.Sound) {x : String} : x ∈ t.queue ↔ x ∈ t.openIds := by
  cases ha : t.activeId with
  | none => rw [queue_eq_nil ha, h.activeId_eq_none_iff.1 ha]
  | some a =>
    obtain ⟨left, right, ho, hl, -⟩ := h.exists_sides ha
    rw [queue_eq ha ho hl, ho]
    simp only [List.cons_append, List.mem_cons, List.mem_append, List.mem_reverse]
    tauto

/-- The neighbour of the active tab that becomes active when this is closed. -/
theorem activeId_close_between (ha : t.activeId = some a) (ho : t.openIds = left ++ a :: right)
    (hl : a ∉ left) :
    (t.close a).2.openIds = left ++ right ∧
      (t.close a).2.activeId = right.head?.or left.getLast? := by
  have hrest : t.openIds.erase a = left ++ right := by
    rw [ho, List.erase_append_right _ hl, List.erase_cons_head]
  have hplace : t.openIds.idxOf a = left.length := by
    rw [ho, List.idxOf_append_of_notMem hl, List.idxOf_cons_self, Nat.add_zero]
  have hc : t.openIds.contains a = true := by simp [ho]
  refine ⟨(openIds_close t a).trans hrest, ?_⟩
  simp only [close, hc, ↓reduceIte, closed, ha, hrest, hplace]
  cases right with
  | nil => simp [List.getLast?_eq_getElem?]
  | cons b rest => simp

/-- A tab that closes leaves the queue; all others keep their places in it. -/
theorem Sound.queue_close (h : t.Sound) (id : String) :
    (t.close id).2.queue = t.queue.filter (· != id) := by
  cases ha : t.activeId with
  | none =>
    have hidle : (t.close id).2.activeId = none := (activeId_close (by simp [ha])).trans ha
    rw [queue_eq_nil ha, queue_eq_nil hidle, List.filter_nil]
  | some a =>
    obtain ⟨left, right, ho, hl, hr⟩ := h.exists_sides ha
    have hnd : (left ++ a :: right).Nodup := ho ▸ h.nodup
    rw [queue_eq ha ho hl]
    by_cases hid : id = a
    · -- the next tab in the queue is a neighbour of the active one
      subst hid
      obtain ⟨hopen, hactive⟩ := activeId_close_between ha ho hl
      have hkept : (right ++ left.reverse).filter (· != id) = right ++ left.reverse :=
        List.filter_eq_self.2 fun x hx => bne_iff_ne.2 <| by
          rintro rfl
          simp [hl, hr] at hx
      rw [List.cons_append, List.filter_cons_of_neg (by simp), hkept]
      cases right with
      | cons b rest =>
        have hb : b ∉ left := fun hmem =>
          List.disjoint_of_nodup_append hnd hmem (List.mem_cons_of_mem _ List.mem_cons_self)
        exact queue_eq hactive hopen hb
      | nil =>
        rcases List.eq_nil_or_concat left with rfl | ⟨rest, c, rfl⟩
        · exact queue_eq_nil hactive
        · rw [List.concat_eq_append] at hopen hactive hnd ⊢
          rw [List.head?_nil, Option.none_or, List.getLast?_concat] at hactive
          rw [List.append_nil] at hopen
          have hc : c ∉ rest := fun hmem =>
            List.disjoint_of_nodup_append (List.nodup_append.1 hnd).1 hmem List.mem_cons_self
          rw [queue_eq hactive hopen hc, List.reverse_append]
          rfl
    · have hactive : (t.close id).2.activeId = some a :=
        (activeId_close (by simpa [ha] using Ne.symm hid)).trans ha
      have hopen : (t.close id).2.openIds =
          left.filter (· != id) ++ a :: right.filter (· != id) := by
        rw [openIds_close, h.nodup.erase_eq_filter, ho, List.filter_append,
          List.filter_cons_of_pos (by simpa using Ne.symm hid)]
      rw [queue_eq hactive hopen fun hmem => hl (List.mem_filter.1 hmem).1, List.cons_append,
        List.cons_append, List.filter_cons_of_pos (by simpa using Ne.symm hid), List.filter_append,
        List.filter_reverse]

/-- A bar without the tabs of a set. -/
structure Thinned (t : Tabs) (gone : String → Bool) (t' : Tabs) : Prop where
  openIds : t'.openIds = t.openIds.filter (!gone ·)
  queue : t'.queue = t.queue.filter (!gone ·)

namespace Thinned

theorem congr (hw : t.Thinned gone t') (h : t.Sound) (he : ∀ x ∈ t.openIds, gone x = gone' x) :
    t.Thinned gone' t' where
  openIds := hw.openIds.trans (List.filter_congr fun x hx => by rw [he x hx])
  queue := hw.queue.trans (List.filter_congr fun x hx => by rw [he x (h.mem_queue.1 hx)])

/-- It does not matter in how many stages tabs are closed. -/
theorem trans (hw : t.Thinned gone t') (hw' : t'.Thinned gone' t'') :
    t.Thinned (fun x => gone x || gone' x) t'' := by
  have hfilter : ∀ l : List String, (l.filter (!gone ·)).filter (!gone' ·) =
      l.filter fun x => !(gone x || gone' x) := fun l => by
    rw [List.filter_filter]
    exact List.filter_congr fun x _ => by rw [Bool.not_or, Bool.and_comm]
  exact ⟨by rw [hw'.openIds, hw.openIds, hfilter], by rw [hw'.queue, hw.queue, hfilter]⟩

end Thinned

theorem Sound.thinned_foldl_close (h : t.Sound) (ids : List String) :
    t.Thinned ids.contains (ids.foldl (fun t id => (t.close id).2) t) := by
  induction ids generalizing t with
  | nil => exact ⟨by simp, by simp⟩
  | cons id rest ih =>
    have hone : t.Thinned (· == id) (t.close id).2 :=
      ⟨(openIds_close t id).trans (h.nodup.erase_eq_filter id), h.queue_close id⟩
    refine (hone.trans (ih (h.close id))).congr h fun x _ => ?_
    rw [List.contains_cons]

theorem Sound.thinned_closeMany (h : t.Sound) (targets : List String) :
    t.Thinned targets.contains (t.closeMany targets).2 := by
  refine (h.thinned_foldl_close _).congr h fun x hx => ?_
  rw [Bool.eq_iff_iff]
  simp [hx]

/-- What is left of a bar without the tabs of a set. If the active tab is gone, the first one to the
right of it that is left is active, or else the last one that is left. -/
structure Without (t : Tabs) (gone : String → Bool) (t' : Tabs) : Prop where
  openIds : t'.openIds = t.openIds.filter (!gone ·)
  idle : t.activeId = none → t'.activeId = none
  stays : ∀ {a}, t.activeId = some a → gone a = false → t'.activeId = some a
  moves : ∀ {a left right}, t.activeId = some a → t.openIds = left ++ a :: right →
    gone a = true → t'.activeId = (right.find? (!gone ·)).or t'.openIds.getLast?

theorem Thinned.without (hw : t.Thinned gone t') (h : t.Sound) (h' : t'.Sound) :
    t.Without gone t' := by
  have hactive : t'.activeId = t.queue.find? (!gone ·) := by
    rw [← h'.head?_queue, hw.queue, List.head?_filter]
  refine ⟨hw.openIds, fun hnone => ?idle, fun {a} ha hkept => ?stays,
    fun {a left right} ha ho hgone => ?moves⟩
  case idle => rw [hactive, queue_eq_nil hnone, List.find?_nil]
  case stays =>
    obtain ⟨left, right, ho, hl, -⟩ := h.exists_sides ha
    rw [hactive, queue_eq ha ho hl]
    simp [hkept]
  case moves =>
    have hl : a ∉ left := fun hmem =>
      List.disjoint_of_nodup_append (ho ▸ h.nodup) hmem List.mem_cons_self
    have hnext : t'.activeId = (right ++ left.reverse).find? (!gone ·) := by
      rw [hactive, queue_eq ha ho hl, List.cons_append, List.find?_cons_of_neg (by simp [hgone])]
    have hopen : t'.openIds = left.filter (!gone ·) ++ right.filter (!gone ·) := by
      rw [hw.openIds, ho, List.filter_append, List.filter_cons_of_neg (by simp [hgone])]
    rw [hnext, hopen, List.find?_append]
    cases hright : right.find? (!gone ·) with
    | some b => rfl
    | none =>
      rw [List.filter_eq_nil_iff.2 (List.find?_eq_none.1 hright), List.append_nil,
        ← List.head?_filter, List.filter_reverse, List.head?_reverse]

end Workbench.Tabs
