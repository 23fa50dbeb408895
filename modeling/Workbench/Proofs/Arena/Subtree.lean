import Mathlib.Data.List.Nodup
import Workbench.Proofs.Arena.Tree

/-!
# Visiting a subtree

`Spans a stack out` is the visit of a stack as a relation: each node of the stack is followed by
the visit of its children, then by the rest. It says nothing of fuel or of a list that grows, so
what a visit yields is proved on it: in a tree every visit ends (`IsTree.exists_spans`), yields
what lies at or below the stack (`IsTree.mem_of_spans`) and yields it once
(`IsTree.nodup_of_spans`). The visit itself follows it with any fuel that is not smaller than what
is yielded (`visit_of_spans`).
-/

namespace Workbench.Arena

/-- What a visit of a stack yields, each node before its children. -/
inductive Spans (a : Arena) : List NodeId → List NodeId → Prop
  | nil : Spans a [] []
  | cons {id : NodeId} {n : Node} {rest below after : List NodeId} (hn : a.get? id = some n)
      (hb : Spans a n.children below) (ha : Spans a rest after) :
      Spans a (id :: rest) (id :: (below ++ after))

variable {a : Arena}

theorem Spans.append {s t out out' : List NodeId} (h : Spans a s out) (h' : Spans a t out') :
    Spans a (s ++ t) (out ++ out') := by
  induction h with
  | nil => exact h'
  | cons hn hb _ _ iha =>
    rw [List.cons_append, List.cons_append, List.append_assoc]
    exact .cons hn hb iha

/-- A visit of a stack ends when that of each of its nodes does. -/
theorem Spans.exists_of_each {stack : List NodeId} (h : ∀ id ∈ stack, ∃ out, Spans a [id] out) :
    ∃ out, Spans a stack out := by
  induction stack with
  | nil => exact ⟨[], .nil⟩
  | cons id rest ih =>
    obtain ⟨out, ho⟩ := h id List.mem_cons_self
    obtain ⟨out', ho'⟩ := ih fun x hx => h x (List.mem_cons_of_mem _ hx)
    exact ⟨out ++ out', ho.append ho'⟩

/-- The visit yields what spans the stack, as long as the fuel lasts. -/
theorem visit_of_spans {stack out : List NodeId} (h : Spans a stack out) (more seen : List NodeId)
    {fuel : Nat} (hf : out.length ≤ fuel) :
    a.visit fuel (stack ++ more) seen = a.visit (fuel - out.length) more (out.reverse ++ seen) := by
  induction h generalizing more seen fuel with
  | nil => simp
  | @cons id n rest below after hn hb ha ihb iha =>
    simp only [List.length_cons, List.length_append] at hf
    obtain ⟨f, rfl⟩ : ∃ f, fuel = f + 1 := ⟨fuel - 1, by omega⟩
    simp only [List.cons_append, visit, hn]
    rw [ihb (rest ++ more) (id :: seen) (by omega), iha more _ (by omega)]
    congr 1
    · simp only [List.length_cons, List.length_append]; omega
    · simp

theorem visit_of_spans_self {stack out : List NodeId} (h : Spans a stack out) {fuel : Nat}
    (hf : out.length ≤ fuel) : a.visit fuel stack [] = .ok out := by
  have := visit_of_spans h [] [] hf
  rw [List.append_nil, List.append_nil] at this
  rw [this]
  cases fuel - out.length <;> simp [visit]

/-- On any arena, a visit that ends has met its stack and what it had seen before. -/
theorem mem_of_visit {fuel : Nat} {stack seen out : List NodeId} {y : NodeId}
    (h : a.visit fuel stack seen = .ok out) (hy : y ∈ seen ∨ y ∈ stack) : y ∈ out := by
  induction fuel generalizing stack seen with
  | zero =>
    cases stack with
    | nil =>
      simp only [visit, Except.ok.injEq] at h
      rw [← h, List.mem_reverse]
      exact hy.resolve_right List.not_mem_nil
    | cons id rest => cases h
  | succ fuel ih =>
    cases stack with
    | nil =>
      simp only [visit, Except.ok.injEq] at h
      rw [← h, List.mem_reverse]
      exact hy.resolve_right List.not_mem_nil
    | cons id rest =>
      rw [visit] at h
      split at h
      · cases h
      · refine ih h ?_
        rcases hy with hy | hy
        · exact .inl (List.mem_cons_of_mem _ hy)
        · rcases List.mem_cons.1 hy with rfl | hy
          · exact .inl List.mem_cons_self
          · exact .inr (List.mem_append_right _ hy)

namespace IsTree

/-- Every visit of nodes of a tree ends. -/
theorem exists_spans (h : a.IsTree) {stack : List NodeId}
    (hs : ∀ id ∈ stack, ∃ n, a.get? id = some n) : ∃ out, Spans a stack out := by
  refine Spans.exists_of_each fun id hid => ?_
  obtain ⟨n, hn⟩ := hs id hid
  obtain ⟨names, hl⟩ := h.exists_leads hn
  refine h.descend (P := fun id _ => ∃ out, Spans a [id] out) ?_ hl
  intro id names n _ hn below
  obtain ⟨out, ho⟩ := Spans.exists_of_each fun c hc =>
    let ⟨_, _, hc'⟩ := below c hc
    hc'
  exact ⟨id :: (out ++ []), .cons hn ho .nil⟩

/-- A visit yields the nodes at or below the stack. -/
theorem mem_of_spans (h : a.IsTree) {stack out : List NodeId} (hs : Spans a stack out)
    {y : NodeId} : y ∈ out ↔ ∃ x ∈ stack, a.AtOrBelow x y := by
  induction hs with
  | nil => simp
  | @cons id n rest below after hn _ _ ihb iha =>
    have hid : a.AtOrBelow id y ↔ y = id ∨ ∃ x ∈ n.children, a.AtOrBelow x y := by
      constructor
      · intro hb
        rcases Relation.ReflTransGen.cases_head hb with he | ⟨c, hc, hb'⟩
        · exact .inl he.symm
        · exact .inr ⟨c, (h.mem_children_iff hn).2 hc, hb'⟩
      · rintro (rfl | ⟨c, hc, hb⟩)
        · exact .refl a y
        · exact .head ((h.mem_children_iff hn).1 hc) hb
    simp only [List.mem_cons, List.mem_append, ihb, iha, exists_eq_or_imp, hid, or_assoc]

/-- A visit of nodes that do not lie below each other yields no node twice. -/
theorem nodup_of_spans (h : a.IsTree) {stack out : List NodeId} (hs : Spans a stack out)
    (hd : stack.Pairwise fun x y => ¬ a.AtOrBelow x y ∧ ¬ a.AtOrBelow y x) : out.Nodup := by
  induction hs with
  | nil => exact List.nodup_nil
  | @cons id n rest below after hn hb ha ihb iha =>
    obtain ⟨hrest, hd⟩ := List.pairwise_cons.1 hd
    have hchild : ∀ c ∈ n.children, a.Holds id c := fun c hc => (h.mem_children_iff hn).1 hc
    have hsib : n.children.Pairwise fun x y => ¬ a.AtOrBelow x y ∧ ¬ a.AtOrBelow y x := by
      have hne : ∀ {x y}, x ∈ n.children → y ∈ n.children → x ≠ y → ¬ a.AtOrBelow x y := by
        intro x y hx hy hxy hbelow
        have := hbelow.parent_of_ne (Ne.symm hxy) (hchild y hy)
        exact h.not_below_parent (hchild x hx) this
      exact (h.once hn).imp_of_mem fun hx hy hxy => ⟨hne hx hy hxy, hne hy hx (Ne.symm hxy)⟩
    rw [List.nodup_cons, List.nodup_append]
    refine ⟨?_, ihb hsib, iha hd, ?_⟩
    · rw [List.mem_append, h.mem_of_spans hb, h.mem_of_spans ha]
      rintro (⟨c, hc, hbelow⟩ | ⟨x, hx, hbelow⟩)
      · exact h.not_below_parent (hchild c hc) hbelow
      · exact (hrest x hx).2 hbelow
    · intro y hy z hz hyz
      subst hyz
      obtain ⟨c, hc, hcy⟩ := (h.mem_of_spans hb).1 hy
      obtain ⟨x, hx, hxy⟩ := (h.mem_of_spans ha).1 hz
      rcases (AtOrBelow.head (hchild c hc) hcy).comparable hxy with hb' | hb'
      · exact (hrest x hx).1 hb'
      · exact (hrest x hx).2 hb'

/-- In a visit every node comes after its parent, unless it is on the stack itself. -/
theorem parent_of_spans (h : a.IsTree) {stack out before after : List NodeId} {y : NodeId}
    (hs : Spans a stack out) (he : out = before ++ y :: after) :
    y ∈ stack ∨ ∃ p ∈ before, a.Holds p y := by
  induction hs generalizing before after with
  | nil => simp at he
  | @cons id n rest below after' hn hb ha ihb iha =>
    cases before with
    | nil => exact .inl (by rw [(List.cons.inj he).1]; exact List.mem_cons_self)
    | cons b before =>
      rw [List.cons_append, List.cons.injEq] at he
      obtain ⟨rfl, he⟩ := he
      -- the node is visited below the first of the stack, or after it
      rcases List.append_eq_append_iff.1 he with ⟨m, rfl, hm⟩ | ⟨m, hbelow, hm⟩
      · rcases iha hm with hy | ⟨p, hp, hpy⟩
        · exact .inl (List.mem_cons_of_mem _ hy)
        · exact .inr ⟨p, List.mem_cons_of_mem _ (List.mem_append_right _ hp), hpy⟩
      · cases m with
        | nil =>
          have hm : after' = [] ++ y :: after := hm.symm
          rcases iha hm with hy | ⟨p, hp, -⟩
          · exact .inl (List.mem_cons_of_mem _ hy)
          · cases hp
        | cons z m =>
          obtain ⟨rfl, -⟩ := List.cons.inj hm
          rcases ihb hbelow with hy | ⟨p, hp, hpy⟩
          · exact .inr ⟨id, List.mem_cons_self, (h.mem_children_iff hn).1 hy⟩
          · exact .inr ⟨p, List.mem_cons_of_mem _ hp, hpy⟩

/-! ## The ids of a subtree -/

theorem size_le_visitBound (a : Arena) : a.size ≤ a.visitBound := by
  have h2 : 2 ≤ (a.values.map fun n => n.children.length).foldr Nat.add 0 + 2 := by omega
  calc a.size ≤ 2 ^ a.size := Nat.le_of_lt Nat.lt_two_pow_self
    _ ≤ 2 ^ (a.size + 1) := Nat.pow_le_pow_right (by omega) (by omega)
    _ ≤ a.visitBound := Nat.pow_le_pow_left h2 _

/-- The visit of a subtree succeeds and spans it. -/
theorem spans_subtreeIds (h : a.IsTree) {id : NodeId} {n : Node} (hn : a.get? id = some n) :
    a.visitFrom id = .ok (a.subtreeIds id) ∧ Spans a [id] (a.subtreeIds id) := by
  have hin : ∀ x ∈ [id], ∃ m, a.get? x = some m := fun x hx => by
    rw [List.mem_singleton.1 hx]
    exact ⟨n, hn⟩
  obtain ⟨out, ho⟩ := h.exists_spans hin
  have hnd : out.Nodup := h.nodup_of_spans ho (List.pairwise_singleton _ _)
  have hlen : out.length ≤ a.size := Table.length_le_size hnd fun k hk => by
    obtain ⟨x, hx, hxk⟩ := (h.mem_of_spans ho).1 hk
    obtain rfl := List.mem_singleton.1 hx
    exact hxk.exists_node hn
  have hv : a.visitFrom id = .ok out :=
    visit_of_spans_self ho (Nat.le_trans hlen (size_le_visitBound a))
  rw [subtreeIds, hv]
  exact ⟨rfl, ho⟩

/-- The ids of a subtree are those of the nodes at or below its top. -/
theorem mem_subtreeIds_iff (h : a.IsTree) {id y : NodeId} {n : Node} (hn : a.get? id = some n) :
    y ∈ a.subtreeIds id ↔ a.AtOrBelow id y := by
  rw [h.mem_of_spans (h.spans_subtreeIds hn).2]
  simp

theorem nodup_subtreeIds (h : a.IsTree) {id : NodeId} {n : Node} (hn : a.get? id = some n) :
    (a.subtreeIds id).Nodup :=
  h.nodup_of_spans (h.spans_subtreeIds hn).2 (List.pairwise_singleton _ _)

/-- The nodes of a subtree, by their ids. -/
theorem map_id_subtree (h : a.IsTree) {id : NodeId} {n : Node} (hn : a.get? id = some n) :
    (a.subtree id).map Node.id = a.subtreeIds id := by
  have hmem : ∀ y ∈ a.subtreeIds id, ∃ m, a.get? y = some m := fun y hy =>
    ((h.mem_subtreeIds_iff hn).1 hy).exists_node hn
  unfold subtree
  generalize a.subtreeIds id = ids at hmem
  induction ids with
  | nil => rfl
  | cons y rest ih =>
    obtain ⟨m, hm⟩ := hmem y List.mem_cons_self
    rw [List.filterMap_cons_some hm, List.map_cons, h.keyed hm,
      ih fun z hz => hmem z (List.mem_cons_of_mem _ hz)]

theorem get?_of_mem_subtree (h : a.IsTree) {id : NodeId} {m : Node} (hm : m ∈ a.subtree id) :
    a.get? m.id = some m := by
  obtain ⟨y, -, hy⟩ := List.mem_filterMap.1 hm
  rw [h.keyed hy]
  exact hy

/-! ## Ancestors -/

/-- Climbing meets a node exactly when it lies strictly above the start, if the fuel lasts for the
way to the root. -/
theorem isAncestorFrom_iff (h : a.IsTree) {id : NodeId} {names : List String}
    (hl : a.Leads id names) (top : NodeId) {fuel : Nat} (hf : names.length < fuel) :
    a.isAncestorFrom top fuel id = true ↔ Relation.TransGen a.Holds top id := by
  induction hl generalizing fuel with
  | root =>
    obtain ⟨f, rfl⟩ : ∃ f, fuel = f + 1 := ⟨fuel - 1, by omega⟩
    obtain ⟨r, hr, -, hnone⟩ := h.root
    simp only [isAncestorFrom, hr, Option.bind_some, hnone, Bool.false_eq_true, false_iff]
    intro ht
    obtain ⟨y, -, hy⟩ := Relation.TransGen.tail'_iff.1 ht
    exact h.not_holds_root hy
  | @child p c n names above hn hp ih =>
    simp only [List.length_append, List.length_singleton] at hf
    obtain ⟨f, rfl⟩ : ∃ f, fuel = f + 1 := ⟨fuel - 1, by omega⟩
    simp only [isAncestorFrom, hn, Option.bind_some, hp, Bool.or_eq_true, beq_iff_eq,
      ih (show names.length < f by omega)]
    constructor
    · rintro (rfl | ht)
      · exact .single ⟨n, hn, hp⟩
      · exact .tail ht ⟨n, hn, hp⟩
    · intro ht
      rcases Relation.TransGen.tail'_iff.1 ht with ⟨q, htq, hqc⟩
      obtain rfl := hqc.unique ⟨n, hn, hp⟩
      rcases Relation.reflTransGen_iff_eq_or_transGen.1 htq with he | ht'
      · exact .inl he
      · exact .inr ht'

theorem isAncestor_iff (h : a.IsTree) {top id : NodeId} {n : Node} (hn : a.get? id = some n) :
    a.isAncestor top id = true ↔ Relation.TransGen a.Holds top id := by
  obtain ⟨names, hl⟩ := h.exists_leads hn
  have := h.length_lt_size hl
  exact h.isAncestorFrom_iff hl top (by omega)

theorem eq_or_isAncestor_iff (h : a.IsTree) {top id : NodeId} {n : Node}
    (hn : a.get? id = some n) : id = top ∨ a.isAncestor top id = true ↔ a.AtOrBelow top id := by
  rw [h.isAncestor_iff hn]
  exact Relation.reflTransGen_iff_eq_or_transGen.symm

end IsTree

end Workbench.Arena
