import Mathlib.Data.List.Nodup
import Mathlib.Data.List.Perm.Subperm
import Workbench.Table

/-!
# Laws of ordered tables

What a look-up finds after `modify`, `insertMany`, `eraseMany`, `filter` and a change of all keys.
Keys and entries are read through `get?`: a key is present when something is found under it, and
an entry is in the list when it is what is found.
-/

namespace Workbench.Table

universe u v w

variable {α : Type u} {β : Type v} [DecidableEq α]

/-! ## Keys and entries through look-ups -/

theorem mem_keys_iff {t : Table α β} {k : α} : k ∈ t.keys ↔ ∃ b, t.get? k = some b := by
  rw [← Option.isSome_iff_exists, Option.isSome_iff_ne_none, ne_eq, get?_eq_none_iff, not_not]

theorem contains_iff {t : Table α β} {k : α} :
    t.contains k = true ↔ ∃ b, t.get? k = some b := by
  rw [contains, Option.isSome_iff_exists]

theorem contains_eq_false_iff {t : Table α β} {k : α} :
    t.contains k = false ↔ t.get? k = none := by
  rw [contains, Option.isSome_eq_false_iff, Option.isNone_iff_eq_none]

omit [DecidableEq α] in
theorem length_keys (t : Table α β) : t.keys.length = t.size := by
  simp [keys, size]

theorem mem_of_lookup {k : α} {b : β} {l : List (α × β)} (h : lookup k l = some b) :
    (k, b) ∈ l := by
  induction l with
  | nil => simp [lookup] at h
  | cons e r ih =>
    obtain ⟨a, c⟩ := e
    by_cases ha : a = k
    · simp only [lookup, ha, ↓reduceIte, Option.some.injEq] at h
      subst ha; subst h
      exact List.mem_cons_self
    · simp only [lookup, ha, ↓reduceIte] at h
      exact List.mem_cons_of_mem _ (ih h)

theorem lookup_of_mem {k : α} {b : β} {l : List (α × β)} (hl : (l.map Prod.fst).Nodup)
    (h : (k, b) ∈ l) : lookup k l = some b := by
  induction l with
  | nil => simp at h
  | cons e r ih =>
    obtain ⟨a, c⟩ := e
    simp only [List.map_cons, List.nodup_cons] at hl
    rcases List.mem_cons.1 h with he | hr
    · obtain ⟨rfl, rfl⟩ := Prod.mk.inj he
      simp [lookup]
    · have hne : a ≠ k := fun e => hl.1 (e ▸ List.mem_map.2 ⟨(k, b), hr, rfl⟩)
      simpa [lookup, hne] using ih hl.2 hr

/-- An entry is in the list exactly when it is what a look-up finds. -/
theorem mem_entries_iff {t : Table α β} {k : α} {b : β} :
    (k, b) ∈ t.entries ↔ t.get? k = some b :=
  ⟨lookup_of_mem t.nodup, mem_of_lookup⟩

/-- Distinct keys that are all present are at most as many as the keys. -/
theorem length_le_size {t : Table α β} {l : List α} (hl : l.Nodup)
    (h : ∀ k ∈ l, ∃ b, t.get? k = some b) : l.length ≤ t.size := by
  rw [← length_keys]
  exact (hl.subperm fun k hk => mem_keys_iff.2 (h k hk)).length_le

/-! ## Look-ups after a change -/

theorem get?_mapValues {γ : Type w} (t : Table α β) (f : β → γ) (k : α) :
    (t.mapValues f).get? k = (t.get? k).map f := by
  have key : ∀ l : List (α × β), lookup k (l.map fun e => (e.1, f e.2)) = (lookup k l).map f := by
    intro l
    induction l with
    | nil => rfl
    | cons e rest ih =>
      by_cases he : e.1 = k
      · simp [lookup, he]
      · simpa [lookup, he] using ih
  exact key t.entries

theorem contains_mapValues {γ : Type w} (t : Table α β) (f : β → γ) :
    (t.mapValues f).contains = t.contains := by
  funext k
  rw [contains, get?_mapValues, Option.isSome_map, contains]

omit [DecidableEq α] in
theorem keys_mapValues {γ : Type w} (t : Table α β) (f : β → γ) :
    (t.mapValues f).keys = t.keys := by
  simp [keys, mapValues]

omit [DecidableEq α] in
theorem values_mapValues {γ : Type w} (t : Table α β) (f : β → γ) :
    (t.mapValues f).values = t.values.map f := by
  simp [values, mapValues]

/-- Modifying a key changes what is found under it, if it is present. -/
theorem get?_modify (t : Table α β) (k k' : α) (f : β → β) :
    (t.modify k f).get? k' = if k' = k then (t.get? k).map f else t.get? k' := by
  unfold modify
  cases h : t.get? k with
  | none =>
    by_cases hk : k' = k
    · simp [hk, h]
    · simp [hk]
  | some b => simp [get?_insert]

theorem get?_modify_of_ne {t : Table α β} {k k' : α} (h : k' ≠ k) (f : β → β) :
    (t.modify k f).get? k' = t.get? k' := by
  simp [get?_modify, h]

theorem get?_modify_self (t : Table α β) (k : α) (f : β → β) :
    (t.modify k f).get? k = (t.get? k).map f := by
  simp [get?_modify]

theorem get?_modify_eq_none_iff {t : Table α β} {k k' : α} {f : β → β} :
    (t.modify k f).get? k' = none ↔ t.get? k' = none := by
  rw [get?_modify]
  split
  · next hk => rw [hk, Option.map_eq_none_iff]
  · exact Iff.rfl

theorem exists_get?_modify {t : Table α β} {k' : α} (h : ∃ b, t.get? k' = some b) (k : α)
    (f : β → β) : ∃ b, (t.modify k f).get? k' = some b := by
  rw [← Option.ne_none_iff_exists'] at h ⊢
  rwa [ne_eq, get?_modify_eq_none_iff]

theorem get?_insert_of_ne {t : Table α β} {k k' : α} (h : k' ≠ k) (b : β) :
    (t.insert k b).get? k' = t.get? k' := by
  simp [get?_insert, h]

theorem get?_insert_self (t : Table α β) (k : α) (b : β) : (t.insert k b).get? k = some b := by
  simp [get?_insert]

/-- An entry under a new key leaves all others as they are. -/
theorem get?_insert_of_get? {t : Table α β} {k k' : α} {a : β} (hnew : t.contains k = false)
    (h : t.get? k' = some a) (b : β) : (t.insert k b).get? k' = some a := by
  rw [get?_insert_of_ne _ b, h]
  rintro rfl
  rw [contains_eq_false_iff, h] at hnew
  cases hnew

theorem forall_insert {t : Table α β} {P : α → β → Prop} {k : α} {b : β}
    (ht : ∀ {k' b'}, t.get? k' = some b' → P k' b') (hb : P k b) {k' : α} {b' : β}
    (h : (t.insert k b).get? k' = some b') : P k' b' := by
  rw [get?_insert] at h
  split at h
  · next hk =>
    obtain rfl := Option.some.inj h
    exact hk ▸ hb
  · exact ht h

/-- A total over the values does not change when one that counts for nothing, or none, is replaced
by another one that counts for nothing. -/
theorem total_insert {t : Table α β} {count : β → Nat} {k : α} {b : β} (hb : count b = 0)
    (hk : ∀ b', t.get? k = some b' → count b' = 0) :
    ((t.insert k b).values.map count).foldr Nat.add 0 = (t.values.map count).foldr Nat.add 0 := by
  unfold insert values
  split
  · have hsame : ((replace k b t.entries).map Prod.snd).map count =
        (t.entries.map Prod.snd).map count := by
      rw [replace, List.map_map, List.map_map, List.map_map]
      refine List.map_congr_left fun e he => ?_
      simp only [Function.comp_apply]
      split
      · next hek =>
        obtain ⟨k', b'⟩ := e
        subst hek
        rw [hb, hk b' (mem_entries_iff.1 he)]
      · rfl
    rw [hsame]
  · simp only [List.map_append, List.map_cons, List.map_nil, List.foldr_append, List.foldr_cons,
      List.foldr_nil, hb]

theorem exists_get?_insert {t : Table α β} {k' : α} (h : ∃ b, t.get? k' = some b) (k : α) (b : β) :
    ∃ b', (t.insert k b).get? k' = some b' := by
  rw [get?_insert]
  split
  · exact ⟨b, rfl⟩
  · exact h

/-- Erasing many keys leaves nothing under them and the rest as it was. -/
theorem get?_eraseMany (t : Table α β) (ks : List α) (k : α) :
    (t.eraseMany ks).get? k = if k ∈ ks then none else t.get? k := by
  induction ks generalizing t with
  | nil => simp [eraseMany]
  | cons a r ih =>
    have step : t.eraseMany (a :: r) = (t.erase a).eraseMany r := rfl
    rw [step, ih, get?_erase]
    by_cases h1 : k ∈ r <;> by_cases h2 : k = a <;> simp [h1, h2]

/-- Some keys of another table, erased from a table. -/
theorem get?_eraseMany_filter (t u : Table α β) (f : α → Bool) (k : α) :
    (t.eraseMany (u.keys.filter f)).get? k = if f k && u.contains k then none else t.get? k := by
  rw [get?_eraseMany]
  refine if_congr ?_ rfl rfl
  rw [List.mem_filter, mem_keys_iff, Bool.and_eq_true, contains_iff, and_comm]

theorem get?_insertMany_of_not_mem {l : List (α × β)} {k : α} (h : k ∉ l.map Prod.fst)
    (t : Table α β) : (t.insertMany l).get? k = t.get? k := by
  induction l generalizing t with
  | nil => rfl
  | cons e r ih =>
    simp only [List.map_cons, List.mem_cons, not_or] at h
    have step : t.insertMany (e :: r) = (t.insert e.1 e.2).insertMany r := rfl
    rw [step, ih h.2, get?_insert_of_ne h.1]

/-- A key that is written is present afterwards. -/
theorem exists_get?_insertMany {l : List (α × β)} {k : α} (h : k ∈ l.map Prod.fst)
    (t : Table α β) : ∃ b, (t.insertMany l).get? k = some b := by
  induction l generalizing t with
  | nil => cases h
  | cons e r ih =>
    have step : t.insertMany (e :: r) = (t.insert e.1 e.2).insertMany r := rfl
    by_cases hr : k ∈ r.map Prod.fst
    · exact ih hr _
    · rcases List.mem_cons.1 h with rfl | h
      · exact ⟨e.2, by rw [step, get?_insertMany_of_not_mem hr, get?_insert_self]⟩
      · exact absurd h hr

theorem of_mem_keys_insertMany {l : List (α × β)} {k : α} {t : Table α β}
    (h : k ∈ (t.insertMany l).keys) : k ∈ t.keys ∨ k ∈ l.map Prod.fst := by
  by_cases hk : k ∈ l.map Prod.fst
  · exact .inr hk
  · rw [mem_keys_iff, get?_insertMany_of_not_mem hk, ← mem_keys_iff] at h
    exact .inl h

theorem of_mem_keys_eraseMany {ks : List α} {k : α} {t : Table α β}
    (h : k ∈ (t.eraseMany ks).keys) : k ∈ t.keys := by
  obtain ⟨b, hb⟩ := mem_keys_iff.1 h
  rw [get?_eraseMany] at hb
  split at hb
  · cases hb
  · exact mem_keys_iff.2 ⟨b, hb⟩

theorem of_mem_keys_insert {k k' : α} {b : β} {t : Table α β} (h : k' ∈ (t.insert k b).keys) :
    k' = k ∨ k' ∈ t.keys := by
  rw [keys_insert] at h
  split at h
  · exact .inr h
  · rw [List.mem_append, List.mem_singleton] at h
    exact h.symm

/-- Of entries with distinct keys, each is found after all are written. -/
theorem get?_insertMany_of_mem {l : List (α × β)} (hl : (l.map Prod.fst).Nodup) {k : α} {b : β}
    (h : (k, b) ∈ l) (t : Table α β) : (t.insertMany l).get? k = some b := by
  induction l generalizing t with
  | nil => simp at h
  | cons e r ih =>
    simp only [List.map_cons, List.nodup_cons] at hl
    have step : t.insertMany (e :: r) = (t.insert e.1 e.2).insertMany r := rfl
    rw [step]
    rcases List.mem_cons.1 h with rfl | hr
    · rw [get?_insertMany_of_not_mem hl.1, get?_insert_self]
    · exact ih hl.2 hr _

/-- Some entries of another table, written into a table. -/
theorem get?_insertMany_filter (t u : Table α β) (f : α → Bool) (k : α) :
    (t.insertMany (u.entries.filter fun e => f e.1)).get? k =
      if f k && u.contains k then u.get? k else t.get? k := by
  split
  · next h =>
    rw [Bool.and_eq_true, contains_iff] at h
    obtain ⟨hf, b, hb⟩ := h
    rw [hb]
    exact get?_insertMany_of_mem (u.nodup.sublist (List.filter_sublist.map _))
      (List.mem_filter.2 ⟨mem_entries_iff.2 hb, hf⟩) t
  · next h =>
    refine get?_insertMany_of_not_mem (fun hm => h ?_) t
    obtain ⟨⟨k', b⟩, he, rfl⟩ := List.mem_map.1 hm
    obtain ⟨he, hf⟩ := List.mem_filter.1 he
    rw [Bool.and_eq_true, contains_iff]
    exact ⟨hf, b, mem_entries_iff.1 he⟩

theorem entries_insert_of_not_mem {t : Table α β} {k : α} (h : k ∉ t.keys) (b : β) :
    (t.insert k b).entries = t.entries ++ [(k, b)] := by
  rw [insert, dif_neg h]

/-- Entries with new keys are written one after another behind those that are there. -/
theorem entries_insertMany {l : List (α × β)} {t : Table α β}
    (h : ((t.entries ++ l).map Prod.fst).Nodup) : (t.insertMany l).entries = t.entries ++ l := by
  induction l generalizing t with
  | nil => exact (List.append_nil _).symm
  | cons e rest ih =>
    have hnew : e.1 ∉ t.keys := by
      rw [List.map_append, List.nodup_append] at h
      exact fun hmem => h.2.2 _ hmem _ List.mem_cons_self rfl
    have hentries := entries_insert_of_not_mem hnew e.2
    have step : t.insertMany (e :: rest) = (t.insert e.1 e.2).insertMany rest := rfl
    rw [step, ih ?_, hentries, List.append_assoc, List.singleton_append]
    rwa [hentries, List.append_assoc, List.singleton_append]

omit [DecidableEq α] in
theorem ext_entries {s t : Table α β} (h : s.entries = t.entries) : s = t := by
  cases s
  cases t
  cases h
  rfl

/-- The order of the keys and what is found under them determine a table. -/
theorem ext_get? {s t : Table α β} (hk : s.keys = t.keys) (h : ∀ k, s.get? k = t.get? k) :
    s = t := by
  have hentries : ∀ u : Table α β,
      u.keys.filterMap (fun k => (u.get? k).map fun b => (k, b)) = u.entries := by
    intro u
    rw [keys, List.filterMap_map]
    refine (List.filterMap_congr fun e he => ?_).trans List.filterMap_some
    rw [Function.comp_apply, mem_entries_iff.1 he, Option.map_some]
  have hget : s.get? = t.get? := funext h
  exact ext_entries (by rw [← hentries s, ← hentries t, hk, hget])

/-! ## One change after another -/

theorem keys_modify (t : Table α β) (k : α) (f : β → β) : (t.modify k f).keys = t.keys := by
  unfold modify
  cases h : t.get? k with
  | none => rfl
  | some b => rw [keys_insert, if_pos (mem_keys_iff.2 ⟨b, h⟩)]

theorem modify_modify (t : Table α β) (k : α) (f g : β → β) :
    (t.modify k f).modify k g = t.modify k fun b => g (f b) := by
  refine ext_get? (by simp only [keys_modify]) fun k' => ?_
  simp only [get?_modify, if_pos, Option.map_map]
  split
  · rfl
  · rfl

theorem modify_insert_self (t : Table α β) (k : α) (b : β) (f : β → β) :
    (t.insert k b).modify k f = t.insert k (f b) := by
  refine ext_get? (by simp only [keys_modify, keys_insert]) fun k' => ?_
  simp only [get?_modify, get?_insert, if_pos, Option.map_some]
  split
  · rfl
  · rfl

theorem modify_insert_of_ne {k k' : α} (hk : k ≠ k') (t : Table α β) (b : β) (f : β → β) :
    (t.insert k' b).modify k f = (t.modify k f).insert k' b := by
  refine ext_get? (by simp only [keys_modify, keys_insert]) fun x => ?_
  simp only [get?_modify, get?_insert, if_neg hk]
  by_cases hx : x = k
  · subst hx
    simp only [↓reduceIte, if_neg hk]
  · simp only [if_neg hx]

/-- Other keys may be written before or after a key is modified. -/
theorem modify_insertMany {l : List (α × β)} {k : α} (hk : k ∉ l.map Prod.fst) (t : Table α β)
    (f : β → β) : (t.insertMany l).modify k f = (t.modify k f).insertMany l := by
  induction l generalizing t with
  | nil => rfl
  | cons e rest ih =>
    obtain ⟨hne, hrest⟩ := not_or.1 (List.mem_cons.not.1 hk)
    calc (t.insertMany (e :: rest)).modify k f
      _ = ((t.insert e.1 e.2).insertMany rest).modify k f := rfl
      _ = ((t.insert e.1 e.2).modify k f).insertMany rest := ih hrest _
      _ = ((t.modify k f).insert e.1 e.2).insertMany rest := by rw [modify_insert_of_ne hne]
      _ = (t.modify k f).insertMany (e :: rest) := rfl

theorem ofList_entries (t : Table α β) : ofList t.entries = t :=
  ext_entries (entries_insertMany (t := empty) t.nodup)

/-- A key of a table of entries with distinct keys is found as one of them. -/
theorem get?_ofList_iff {l : List (α × β)} (hl : (l.map Prod.fst).Nodup) {k : α} {b : β} :
    (ofList l).get? k = some b ↔ (k, b) ∈ l := by
  refine ⟨fun h => ?_, fun h => get?_insertMany_of_mem hl h _⟩
  by_cases hk : k ∈ l.map Prod.fst
  · obtain ⟨⟨k', c⟩, hc, rfl⟩ := List.mem_map.1 hk
    have := get?_insertMany_of_mem hl hc empty
    rw [← ofList, h, Option.some.injEq] at this
    exact this ▸ hc
  · have := get?_insertMany_of_not_mem hk (empty : Table α β)
    rw [← ofList, h, get?_empty] at this
    cases this

theorem get?_filter_iff {t : Table α β} {p : α → β → Bool} {k : α} {b : β} :
    (t.filter p).get? k = some b ↔ t.get? k = some b ∧ p k b = true := by
  rw [← mem_entries_iff, ← mem_entries_iff]
  simp [filter]

end Workbench.Table
