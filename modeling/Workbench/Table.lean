/-!
# Ordered tables

A finite map that remembers the order in which its keys were first entered. Writing to a key that
is present keeps the key's place; a new key goes to the end. The keys are distinct by
construction, so a table is determined by its list of entries, and the number of entries is the
number of keys.
-/

namespace Workbench

universe u v w

/-- A finite map with distinct keys in the order of their first entry. -/
structure Table (α : Type u) (β : Type v) where
  /-- The entries, oldest key first. -/
  entries : List (α × β)
  nodup : (entries.map Prod.fst).Nodup

namespace Table

variable {α : Type u} {β : Type v} {γ : Type w}

instance [DecidableEq α] [DecidableEq β] : DecidableEq (Table α β) := fun s t =>
  if h : s.entries = t.entries then
    .isTrue (by cases s; cases t; cases h; rfl)
  else .isFalse (fun e => h (by rw [e]))

def empty : Table α β := ⟨[], by simp⟩

instance : Inhabited (Table α β) := ⟨empty⟩

/-- The keys, oldest first. -/
def keys (t : Table α β) : List α := t.entries.map Prod.fst

def values (t : Table α β) : List β := t.entries.map Prod.snd

def size (t : Table α β) : Nat := t.entries.length

/-- The value of the first entry under a key. -/
def lookup [DecidableEq α] (k : α) : List (α × β) → Option β
  | [] => none
  | (a, b) :: rest => if a = k then some b else lookup k rest

def replace [DecidableEq α] (k : α) (b : β) (l : List (α × β)) : List (α × β) :=
  l.map fun e => if e.1 = k then (e.1, b) else e

theorem keys_replace [DecidableEq α] (k : α) (b : β) (l : List (α × β)) :
    (replace k b l).map Prod.fst = l.map Prod.fst := by
  induction l with
  | nil => rfl
  | cons e r ih =>
    simp only [replace, List.map_cons, List.cons.injEq] at ih ⊢
    exact ⟨by split <;> rfl, ih⟩

section

variable [DecidableEq α]

def get? (t : Table α β) (k : α) : Option β := lookup k t.entries

def contains (t : Table α β) (k : α) : Bool := (t.get? k).isSome

def getD (t : Table α β) (k : α) (d : β) : β := (t.get? k).getD d

theorem lookup_eq_none {k : α} {l : List (α × β)} :
    lookup k l = none ↔ k ∉ l.map Prod.fst := by
  induction l with
  | nil => simp [lookup]
  | cons e r ih =>
    obtain ⟨a, b⟩ := e
    by_cases h : a = k
    · simp [lookup, h]
    · simp [lookup, h, ih, Ne.symm h]

/-- Writes a value: in place when the key is present, at the end otherwise. -/
def insert (t : Table α β) (k : α) (b : β) : Table α β :=
  if h : k ∈ t.keys then
    ⟨replace k b t.entries, by rw [keys_replace]; exact t.nodup⟩
  else
    ⟨t.entries ++ [(k, b)], by
      have hk : k ∉ t.entries.map Prod.fst := h
      simp only [List.map_append, List.map_cons, List.map_nil]
      rw [List.nodup_append]
      exact ⟨t.nodup, by simp, fun a ha b hb => by
        simp only [List.mem_cons, List.not_mem_nil, or_false] at hb
        exact fun e => hk (by rw [← hb, ← e]; exact ha)⟩⟩

def erase (t : Table α β) (k : α) : Table α β :=
  ⟨t.entries.filter (fun e => !decide (e.1 = k)), by
    have := t.nodup
    exact List.Nodup.sublist (List.Sublist.map _ List.filter_sublist) this⟩

/-- Applies a function to the value under a key, if the key is present. -/
def modify (t : Table α β) (k : α) (f : β → β) : Table α β :=
  match t.get? k with
  | some b => t.insert k (f b)
  | none => t

/-- Writes entries one after another. -/
def insertMany (t : Table α β) (l : List (α × β)) : Table α β :=
  l.foldl (fun t e => t.insert e.1 e.2) t

/-- The table of a list of entries; of two entries with one key, the later value counts. -/
def ofList (l : List (α × β)) : Table α β := empty.insertMany l

def eraseMany (t : Table α β) (ks : List α) : Table α β := ks.foldl erase t

end

def mapValues (t : Table α β) (f : β → γ) : Table α γ :=
  ⟨t.entries.map fun e => (e.1, f e.2), by
    have h : (t.entries.map fun e => (e.1, f e.2)).map Prod.fst = t.entries.map Prod.fst := by
      simp [List.map_map, Function.comp_def]
    rw [h]; exact t.nodup⟩

def filter (t : Table α β) (p : α → β → Bool) : Table α β :=
  ⟨t.entries.filter fun e => p e.1 e.2,
    List.Nodup.sublist (List.Sublist.map _ List.filter_sublist) t.nodup⟩

/-! ## Look-up after each operation -/

section Laws

variable [DecidableEq α]

@[simp] theorem get?_empty (k : α) : (empty : Table α β).get? k = none := rfl

theorem get?_eq_none_iff {t : Table α β} {k : α} : t.get? k = none ↔ k ∉ t.keys := lookup_eq_none

theorem lookup_replace_self (k : α) (b : β) (l : List (α × β)) (h : k ∈ l.map Prod.fst) :
    lookup k (replace k b l) = some b := by
  induction l with
  | nil => simp at h
  | cons e r ih =>
    by_cases ha : e.1 = k
    · simp [replace, lookup, ha]
    · have hr : k ∈ r.map Prod.fst := by simpa [Ne.symm ha] using h
      simpa [replace, lookup, ha] using ih hr

theorem lookup_replace_of_ne {k k' : α} (h : k' ≠ k) (b : β) (l : List (α × β)) :
    lookup k' (replace k b l) = lookup k' l := by
  induction l with
  | nil => rfl
  | cons e r ih =>
    by_cases ha : e.1 = k
    · have hk : e.1 ≠ k' := fun x => h (x ▸ ha)
      simpa [replace, lookup, ha, hk, Ne.symm h] using ih
    · simpa [replace, lookup, ha] using by rw [show lookup k' (r.map _) = _ from ih]

theorem lookup_append (k : α) (l m : List (α × β)) :
    lookup k (l ++ m) = (lookup k l).or (lookup k m) := by
  induction l with
  | nil => simp [lookup]
  | cons e r ih => by_cases h : e.1 = k <;> simp [lookup, h, ih]

/-- What a written table holds: the new value under its key, the old ones elsewhere. -/
theorem get?_insert (t : Table α β) (k k' : α) (b : β) :
    (t.insert k b).get? k' = if k' = k then some b else t.get? k' := by
  unfold insert
  split
  · next h =>
    by_cases hk : k' = k
    · subst hk; simpa [get?] using lookup_replace_self k' b t.entries h
    · simpa [get?, hk] using lookup_replace_of_ne hk b t.entries
  · next h =>
    have hn : lookup k t.entries = none := lookup_eq_none.2 h
    by_cases hk : k' = k
    · subst hk; simp [get?, lookup_append, hn, lookup]
    · simp [get?, lookup_append, hk, lookup, Ne.symm hk]

/-- What is left after a removal: nothing under the key, the old values elsewhere. -/
theorem get?_erase (t : Table α β) (k k' : α) :
    (t.erase k).get? k' = if k' = k then none else t.get? k' := by
  have key : ∀ l : List (α × β), lookup k' (l.filter fun e => !decide (e.1 = k)) =
      if k' = k then none else lookup k' l := by
    intro l
    induction l with
    | nil => simp [lookup]
    | cons e r ih =>
      by_cases hk : k' = k
      · subst hk
        by_cases ha : e.1 = k' <;> simp_all [lookup]
      · have hn := Ne.symm hk
        by_cases ha : e.1 = k <;> simp_all [lookup]
  exact key t.entries

/-- A written key keeps its place, a new one goes to the end. -/
theorem keys_insert (t : Table α β) (k : α) (b : β) :
    (t.insert k b).keys = if k ∈ t.keys then t.keys else t.keys ++ [k] := by
  unfold insert
  by_cases h : k ∈ t.keys
  · simp only [h, ↓reduceDIte, ↓reduceIte]; exact keys_replace k b t.entries
  · simp only [h, ↓reduceDIte, ↓reduceIte]
    simp [keys]

theorem keys_erase (t : Table α β) (k : α) :
    (t.erase k).keys = t.keys.filter fun a => !decide (a = k) := by
  simp [keys, erase, List.filter_map, Function.comp_def]

end Laws

end Table

end Workbench
