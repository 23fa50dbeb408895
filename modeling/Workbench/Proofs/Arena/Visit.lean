import Mathlib.Algebra.Group.Nat.Defs
import Workbench.Proofs.Arena.Subtree

/-!
# Which visits end

On an arena that is no tree, a visit may meet a listed node that is missing, or run in a circle.
`Visitable a top` says that neither lies below `top`, and a visit from `top` ends exactly then
(`visitFrom_eq_ok_iff`): where a stack is spanned, a child is spanned by less than its parent, so
nothing can come back to itself; and without circles the nodes of a way down are distinct, which
bounds the depth of a visit by the number of nodes and its length by `visitBound`.
-/

namespace Workbench.Arena

/-- The first node lists the second as a child. -/
def Lists (a : Arena) (p c : NodeId) : Prop := ∃ n, a.get? p = some n ∧ c ∈ n.children

/-- Whatever is met on the way down from a node is there and does not lie below itself. -/
structure Visitable (a : Arena) (top : NodeId) : Prop where
  present : ∀ {x}, Relation.ReflTransGen a.Lists top x → ∃ n, a.get? x = some n
  acyclic : ∀ {x}, Relation.ReflTransGen a.Lists top x → ¬ Relation.TransGen a.Lists x x

variable {a : Arena} {top x y c : NodeId} {n : Node} {stack out : List NodeId}

/-! ## What a span tells -/

theorem Spans.unique {out' : List NodeId} (h : Spans a stack out) (h' : Spans a stack out') :
    out = out' := by
  induction h generalizing out' with
  | nil =>
    cases h'
    rfl
  | cons hn _ _ ihb iha =>
    cases h' with
    | cons hm hb' ha' =>
      obtain rfl := Option.some.inj (hn.symm.trans hm)
      rw [ihb hb', iha ha']

theorem Spans.of_append {s t : List NodeId} (h : Spans a (s ++ t) out) :
    ∃ below after, Spans a s below ∧ Spans a t after ∧ out = below ++ after := by
  induction s generalizing out with
  | nil => exact ⟨[], out, .nil, h, rfl⟩
  | cons id rest ih =>
    cases h with
    | @cons _ n _ below _ hn hb ha =>
      obtain ⟨mid, after, hmid, hafter, rfl⟩ := ih ha
      exact ⟨id :: (below ++ mid), after, .cons hn hb hmid, hafter, by simp⟩

theorem Spans.of_mem (h : Spans a stack out) (hx : x ∈ stack) :
    ∃ o, Spans a [x] o ∧ o.length ≤ out.length := by
  obtain ⟨s, t, rfl⟩ := List.append_of_mem hx
  obtain ⟨before, rest, -, hrest, rfl⟩ := h.of_append
  obtain ⟨o, after, ho, -, rfl⟩ := Spans.of_append (s := [x]) hrest
  refine ⟨o, ho, ?_⟩
  simp only [List.length_append]
  omega

/-- A child is spanned by less than the node that lists it. -/
theorem Spans.child (h : Spans a [x] out) (hc : a.Lists x c) :
    ∃ o, Spans a [c] o ∧ o.length < out.length := by
  cases h with
  | cons hn hb ha =>
    obtain ⟨m, hm, hmem⟩ := hc
    obtain rfl := Option.some.inj (hn.symm.trans hm)
    obtain ⟨o, ho, hle⟩ := hb.of_mem hmem
    refine ⟨o, ho, ?_⟩
    simp only [List.length_cons, List.length_append]
    omega

theorem Spans.descend (h : Spans a [x] out) (hy : Relation.TransGen a.Lists x y) :
    ∃ o, Spans a [y] o ∧ o.length < out.length := by
  induction hy with
  | single hc => exact h.child hc
  | tail _ hc ih =>
    obtain ⟨o, ho, hlt⟩ := ih
    obtain ⟨o', ho', hlt'⟩ := ho.child hc
    exact ⟨o', ho', Nat.lt_trans hlt' hlt⟩

theorem Spans.visitable (h : Spans a [top] out) : a.Visitable top := by
  have met : ∀ {x}, Relation.ReflTransGen a.Lists top x → ∃ o, Spans a [x] o := by
    intro x hx
    rcases Relation.reflTransGen_iff_eq_or_transGen.1 hx with rfl | hx
    · exact ⟨out, h⟩
    · obtain ⟨o, ho, -⟩ := h.descend hx
      exact ⟨o, ho⟩
  refine ⟨fun hx => ?_, fun hx hcircle => ?_⟩
  · obtain ⟨o, ho⟩ := met hx
    cases ho with
    | cons hn => exact ⟨_, hn⟩
  · obtain ⟨o, ho⟩ := met hx
    obtain ⟨o', ho', hlt⟩ := ho.descend hcircle
    rw [ho.unique ho'] at hlt
    exact Nat.lt_irrefl _ hlt

/-- What a stack spans is what can be met from it. -/
theorem Spans.mem_iff (h : Spans a stack out) :
    y ∈ out ↔ ∃ x ∈ stack, Relation.ReflTransGen a.Lists x y := by
  induction h with
  | nil => simp
  | @cons id n rest below after hn _ _ ihb iha =>
    have hid : Relation.ReflTransGen a.Lists id y ↔
        y = id ∨ ∃ x ∈ n.children, Relation.ReflTransGen a.Lists x y := by
      rw [Relation.ReflTransGen.cases_head_iff, eq_comm]
      refine or_congr_right ⟨?_, ?_⟩
      · rintro ⟨c, ⟨m, hm, hc⟩, hy⟩
        obtain rfl := Option.some.inj (hn.symm.trans hm)
        exact ⟨c, hc, hy⟩
      · rintro ⟨c, hc, hy⟩
        exact ⟨c, ⟨n, hn, hc⟩, hy⟩
    simp only [List.mem_cons, List.mem_append, ihb, iha, exists_eq_or_imp, hid, or_assoc]

/-- A visit that ends has spanned its stack. -/
theorem spans_of_visit {fuel : Nat} {seen : List NodeId}
    (h : a.visit fuel stack seen = .ok out) :
    ∃ below, Spans a stack below ∧ out = seen.reverse ++ below := by
  induction fuel generalizing stack seen with
  | zero =>
    cases stack with
    | nil => exact ⟨[], .nil, by rw [← Except.ok.inj h, List.append_nil]⟩
    | cons id rest => cases h
  | succ fuel ih =>
    cases stack with
    | nil => exact ⟨[], .nil, by rw [← Except.ok.inj h, List.append_nil]⟩
    | cons id rest =>
      rw [visit] at h
      split at h
      · cases h
      · next n hn =>
        obtain ⟨spanned, hs, rfl⟩ := ih h
        obtain ⟨below, after, hb, ha, rfl⟩ := hs.of_append
        exact ⟨id :: (below ++ after), .cons hn hb ha, by simp⟩

/-! ## How long a visit can be -/

/-- As many children as the arena lists at most. -/
def listed (a : Arena) : Nat := (a.values.map fun n => n.children.length).foldr Nat.add 0

theorem length_children_le (hn : a.get? x = some n) : n.children.length ≤ a.listed := by
  have hmem : n.children.length ∈ a.values.map fun n => n.children.length :=
    List.mem_map.2 ⟨n, List.mem_map.2 ⟨_, Table.mem_entries_iff.2 hn, rfl⟩, rfl⟩
  unfold listed
  generalize a.values.map (fun n => n.children.length) = l at hmem
  induction l with
  | nil => cases hmem
  | cons k rest ih =>
    rw [List.foldr_cons]
    rcases List.mem_cons.1 hmem with rfl | hmem
    · exact Nat.le_add_right _ _
    · exact Nat.le_trans (ih hmem) (Nat.le_add_left _ _)

theorem exists_spans_of_forall {bound : Nat}
    (h : ∀ c ∈ stack, ∃ out, Spans a [c] out ∧ out.length ≤ bound) :
    ∃ out, Spans a stack out ∧ out.length ≤ stack.length * bound := by
  induction stack with
  | nil => exact ⟨[], .nil, Nat.zero_le _⟩
  | cons c rest ih =>
    obtain ⟨o, ho, hle⟩ := h c List.mem_cons_self
    obtain ⟨out, hout, hle'⟩ := ih fun d hd => h d (List.mem_cons_of_mem _ hd)
    refine ⟨o ++ out, ho.append hout, ?_⟩
    rw [List.length_append, List.length_cons, Nat.succ_mul]
    omega

namespace Visitable

/-- Below a way of distinct nodes there is room for a way as long as the nodes that are left. -/
theorem exists_spans_within (h : a.Visitable top) {k : Nat} {way : List NodeId}
    (hway : way.Nodup) (hx : Relation.ReflTransGen a.Lists top x)
    (hmem : ∀ y ∈ way, (∃ n, a.get? y = some n) ∧ Relation.ReflTransGen a.Lists y x)
    (hk : a.size < way.length + k) : ∃ out, Spans a [x] out ∧ out.length ≤ (a.listed + 2) ^ k := by
  induction k generalizing x way with
  | zero => exact absurd (Table.length_le_size hway fun y hy => (hmem y hy).1) (by omega)
  | succ k ih =>
    obtain ⟨n, hn⟩ := h.present hx
    have hchild : ∀ c ∈ n.children, ∃ out, Spans a [c] out ∧ out.length ≤ (a.listed + 2) ^ k := by
      intro c hc
      have hxc : a.Lists x c := ⟨n, hn, hc⟩
      -- a child that is on the way already would close a circle
      have hnew : c ∉ way := fun hcw =>
        h.acyclic (hx.tail hxc) (Relation.TransGen.tail' (hmem c hcw).2 hxc)
      refine ih (List.nodup_cons.2 ⟨hnew, hway⟩) (hx.tail hxc) (fun y hy => ?_) ?_
      · rcases List.mem_cons.1 hy with rfl | hy
        · exact ⟨h.present (hx.tail hxc), .refl⟩
        · exact ⟨(hmem y hy).1, (hmem y hy).2.tail hxc⟩
      · rw [List.length_cons]
        omega
    obtain ⟨out, hout, hle⟩ := exists_spans_of_forall hchild
    refine ⟨x :: (out ++ []), .cons hn hout .nil, ?_⟩
    have hfew : n.children.length * (a.listed + 2) ^ k ≤ a.listed * (a.listed + 2) ^ k :=
      Nat.mul_le_mul_right _ (length_children_le hn)
    have hpos : 0 < (a.listed + 2) ^ k := Nat.pow_pos (by omega)
    rw [List.length_cons, List.append_nil, Nat.pow_succ, Nat.mul_comm _ (a.listed + 2),
      Nat.add_mul]
    omega

theorem visitFrom_eq_ok (h : a.Visitable top) : ∃ ids, a.visitFrom top = .ok ids := by
  obtain ⟨out, hout, hle⟩ := h.exists_spans_within (List.nodup_singleton top) .refl
    (fun y hy => by
      obtain rfl := List.mem_singleton.1 hy
      exact ⟨h.present .refl, .refl⟩)
    (show a.size < [top].length + a.size by rw [List.length_singleton]; omega)
  have hbound : (a.listed + 2) ^ a.size ≤ a.visitBound :=
    Nat.pow_le_pow_right (by omega) (by omega)
  exact ⟨out, visit_of_spans_self hout (Nat.le_trans hle hbound)⟩

end Visitable

/-- A visit ends exactly where nothing below its start is missing or lies below itself. -/
theorem visitFrom_eq_ok_iff : (∃ ids, a.visitFrom top = .ok ids) ↔ a.Visitable top := by
  refine ⟨fun ⟨ids, h⟩ => ?_, Visitable.visitFrom_eq_ok⟩
  obtain ⟨below, hs, -⟩ := spans_of_visit h
  exact hs.visitable

theorem mem_visitFrom_iff {ids : List NodeId} (h : a.visitFrom top = .ok ids) :
    y ∈ ids ↔ Relation.ReflTransGen a.Lists top y := by
  obtain ⟨below, hs, he⟩ := spans_of_visit h
  rw [he, List.reverse_nil, List.nil_append, hs.mem_iff]
  simp only [List.mem_singleton, exists_eq_left]

end Workbench.Arena
