import Workbench.Proofs.Workspace.Effect

/-!
# The effect of a rebuilding

A rebuilding has the effect of an edit when the listing holds what the edit would lead to and each
node is known for the place to which the edit would take it. Nothing has to be carried where nodes
stay or go away (`Effect.rebuilt_nil`); where a subtree moves, its nodes are carried to their new
places (`Effect.rebuilt_carriedTo`).
-/

namespace Workbench.Workspace

variable {s : Workspace} {τ : Course} {S : Shape} {x y id : NodeId} {n m : Node} {now : Timestamp}
  {p q place : List String} {F : List DiskEntry} {carried : Carried}

theorem lastAt?_of_unique {l : List (List String × NodeId)} (hx : (place, x) ∈ l)
    (hone : ∀ y, (place, y) ∈ l → y = x) : lastAt? place l = some x := by
  cases hl : lastAt? place l with
  | some y => rw [hone y (mem_of_lastAt? hl)]
  | none =>
    exfalso
    clear hone
    induction l with
    | nil => cases hx
    | cons e rest ih =>
      rw [lastAt?, Option.or_eq_none_iff] at hl
      rcases List.mem_cons.1 hx with rfl | hx
      · simp at hl
      · exact ih hx hl.1

/-- A listing that holds a shape, apart from the directory that is listed. -/
def ListsShape (F : List DiskEntry) (S : Shape) : Prop := ∀ {q c}, Lists F q c ↔ q ≠ [] ∧ S q c

/-- What a node needs to be at a place after a rebuilding: it alone is known for the place, and
there is something of its kind. -/
structure KeptAt (k : Known) (S : Shape) (place : List String) (x : NodeId) (n : Node) : Prop where
  known : (place, x) ∈ k.idAt
  unique : ∀ y, (place, y) ∈ k.idAt → y = x
  shown : ∃ c, S place c ∧ (c = none ↔ n.shown = none)

/-! ## What is loaded -/

/-- What is loaded from a listing of a shape shows the shape. -/
theorem shows_loaded (h : s.Sound) (hc : carried.Fit s) (hF : ProperListing F) (hS : S.IsTree)
    (hl : ListsShape F S) (now : Timestamp) :
    (loaded (s.known carried) F s.drawn now).arena.Shows = S := by
  funext q c
  rw [shows_loaded_iff (h.filled hc hF now), hl]
  refine propext ⟨?_, fun hs => ?_⟩
  · rintro (⟨rfl, rfl⟩ | ⟨-, hs⟩)
    · exact hS.root
    · exact hs
  · by_cases hq : q = []
    · subst hq
      exact .inl ⟨rfl, hS.single hs hS.root⟩
    · exact .inr ⟨hq, hs⟩

theorem root_known (h : s.Sound) (hc : carried.Fit s) : ([], rootId) ∈ (s.known carried).idAt := by
  obtain ⟨r, hr, -⟩ := h.tree.root
  refine mem_known_iff.2 (.inl ⟨(h.tree.leads_iff hr).1 .root, Table.mem_keys_iff.2 ⟨r, hr⟩, ?_⟩)
  intro hmem
  obtain ⟨⟨q, _⟩, hq, rfl⟩ := List.mem_map.1 hmem
  exact (hc.live hq).1 rfl

/-- A node that is still there after loading is at a place for which it is known. -/
theorem known_of_loaded (h : s.Sound) (hc : carried.Fit s) (hF : ProperListing F) (hS : S.IsTree)
    (hl : ListsShape F S) (hn : s.arena.get? x = some n)
    (hm : (loaded (s.known carried) F s.drawn now).arena.get? x = some m) :
    ∃ q c, (q, x) ∈ (s.known carried).idAt ∧ S q c := by
  rcases h.loaded_cases hc hF hm with rfl | ⟨q, -, hq, ⟨_, hk, -⟩ | ⟨hnone, -⟩⟩
  · exact ⟨[], none, root_known h hc, hS.root⟩
  · exact ⟨q, _, hk, (hl.1 hq).2⟩
  · rw [hnone] at hn
    cases hn

/-- A node is loaded at a place for which it alone is known. -/
theorem leads_loaded (h : s.Sound) (hc : carried.Fit s) (hF : ProperListing F) (hS : S.IsTree)
    (hl : ListsShape F S) (hn : s.arena.get? x = some n)
    (hk : KeptAt (s.known carried) S q x n) (now : Timestamp) :
    (loaded (s.known carried) F s.drawn now).arena.Leads x q := by
  obtain ⟨hmem, hone, c, hs, hkind⟩ := hk
  by_cases hq : q = []
  · subst hq
    rw [← hone _ (root_known h hc)]
    exact .root
  · have hf := h.filled hc hF now
    have ht := hf.grows.isTree
    -- what is loaded at the place gets the id that is known for it
    rw [← shows_loaded h hc hF hS hl now] at hs
    obtain ⟨y, m, hy, hm, rfl⟩ := hs
    rcases Workspace.loaded_cases hf hm with rfl | ⟨q', hy', -, hg⟩
    · exact absurd (ht.leads_unique hy .root) hq
    · obtain rfl := ht.leads_unique hy hy'
      have hkind' : n.kind = m.kind := by
        rw [Node.shown_eq_none_iff, Node.shown_eq_none_iff] at hkind
        cases hmk : m.kind <;> cases hnk : n.kind <;> simp [hmk, hnk] at hkind ⊢
      have hnode : (s.known carried).node? q m.kind = some n := by
        have hget : (s.known carried).arena.get? x = some n := hn
        rw [Known.node?, lastAt?_of_unique hmem hone, Option.bind_some, hget, Option.filter_some,
          hkind', beq_self_eq_true]
        rfl
      unfold Known.Gives at hg
      rw [hnode] at hg
      have hid : n.id = y := hg
      rw [h.tree.keyed hn] at hid
      exact hid ▸ hy

/-- A rebuilding that takes nodes along a course: each node is kept where the course takes it, and
where a node is known that is to go away there is nothing. -/
theorem Effect.rebuilt (h : s.Sound) (hc : carried.Fit s) (hF : ProperListing F) (hS : S.IsTree)
    (hl : ListsShape F S)
    (hkept : ∀ {x n q q'}, s.arena.Leads x q → s.arena.get? x = some n → τ q = some q' →
      KeptAt (s.known carried) S q' x n)
    (hgone : ∀ {x q q'}, s.arena.Leads x q → τ q = none → (q', x) ∈ (s.known carried).idAt →
      S.Free q') (now : Timestamp) : Effect τ S s (s.rebuilt F carried now) where
  home := rfl
  boundRoot := rfl
  sound := h.rebuilt hc hF now
  shows := shows_loaded h hc hF hS hl now
  goes hx hτ := by
    obtain ⟨n, hn⟩ := h.tree.mem_of_leads hx
    exact leads_loaded h hc hF hS hl hn (hkept hx hn hτ) now
  gone {x q} hx hτ := by
    cases hm : (loaded (s.known carried) F s.drawn now).arena.get? x with
    | none => exact hm
    | some m =>
      obtain ⟨n, hn⟩ := h.tree.mem_of_leads hx
      obtain ⟨q', c, hk, hs⟩ := known_of_loaded h hc hF hS hl hn hm
      exact absurd hs (hgone hx hτ hk c)
  tabs := by
    refine ⟨_, rfl, fun x hx => ?_⟩
    rw [List.mem_filter, Bool.not_eq_true', Table.contains_eq_false_iff]
    exact ⟨And.right, fun hnone => ⟨hx, hnone⟩⟩
  fresh {x m} hm hnone := by
    rcases h.loaded_cases hc hF hm with rfl | ⟨q, -, -, ⟨n, -, hn, -⟩ | ⟨-, hj⟩⟩
    · obtain ⟨r, hr, -⟩ := h.tree.root
      rw [hnone] at hr
      cases hr
    · rw [hnone] at hn
      cases hn
    · exact hj
  drawn_le := (h.filled hc hF now).drawn_le

/-- A place that is free, unless the node that may go there is there already. -/
theorem Sound.free_place {t : NodeId} {name : String} (hs : s.Sound)
    (hg : s.arena.MayGo x t name) (hn : s.arena.get? x = some n) (hl : s.arena.Leads t q)
    (hne : n.parentId = some t → n.name ≠ name) : Shape.Free s.arena.Shows (q ++ [name]) := by
  refine hs.tree.free_iff.2 fun z hz => ?_
  obtain ⟨k, hk, hp, hname⟩ := (hs.tree.leads_append_iff hl).1 hz
  by_cases hzx : z = x
  · subst hzx
    obtain rfl := Option.some.inj (hn.symm.trans hk)
    exact hne hp hname
  · exact hg.free hk hzx hp hname

namespace Effect

/-! ## Nodes that stay or go away -/

theorem mem_known_nil_iff (h : s.Sound) : (q, x) ∈ (s.known []).idAt ↔ s.arena.Leads x q := by
  rw [mem_known_iff]
  constructor
  · rintro (⟨rfl, hx, -⟩ | hx)
    · obtain ⟨n, hn⟩ := Table.mem_keys_iff.1 hx
      exact h.tree.leads_namesTo hn
    · cases hx
  · intro hl
    obtain ⟨n, hn⟩ := h.tree.mem_of_leads hl
    exact .inl ⟨(h.tree.leads_iff hn).1 hl, Table.mem_keys_iff.2 ⟨n, hn⟩, List.not_mem_nil⟩

theorem rebuilt_nil (h : s.Sound) (hF : ProperListing F) (hS : S.IsTree) (hl : ListsShape F S)
    (hkept : ∀ {q q' c}, s.arena.Shows q c → τ q = some q' →
      q' = q ∧ ∃ c', S q c' ∧ (c' = none ↔ c = none))
    (hgone : ∀ {q}, τ q = none → S.Free q) (now : Timestamp) :
    Effect τ S s (s.rebuilt F [] now) := by
  refine rebuilt h .nil hF hS hl (fun {x n q q'} hx hn hτ => ?_) (fun {x q q'} hx hτ hk => ?_) now
  · obtain ⟨rfl, hs⟩ := hkept ⟨x, n, hx, hn, rfl⟩ hτ
    exact ⟨(mem_known_nil_iff h).2 hx,
      fun y hy => h.tree.leads_injective ((mem_known_nil_iff h).1 hy) hx, hs⟩
  · rw [← h.tree.leads_unique hx ((mem_known_nil_iff h).1 hk)]
    exact hgone hτ

/-- A rebuilding in which something of its kind is still at every place. -/
theorem rebuilt_stay (h : s.Sound) (hF : ProperListing F) (hS : S.IsTree) (hl : ListsShape F S)
    (hkept : ∀ {q c}, s.arena.Shows q c → ∃ c', S q c' ∧ (c' = none ↔ c = none))
    (now : Timestamp) : Effect .stay S s (s.rebuilt F [] now) :=
  rebuilt_nil h hF hS hl (fun hs hτ => ⟨(Option.some.inj hτ).symm, hkept hs⟩)
    (fun hτ => (nomatch hτ)) now

/-! ## Nodes on their way -/

theorem mem_carriedTo_iff_leads (h : s.Sound) (hx : s.arena.Leads x p) (place : List String) :
    (q, y) ∈ s.carriedTo x place ↔ ∃ r, q = place ++ r ∧ s.arena.Leads y (p ++ r) := by
  obtain ⟨n, hn⟩ := h.tree.mem_of_leads hx
  rw [mem_carriedTo_iff, h.tree.mem_subtreeIds_iff hn, (h.tree.leads_iff hn).1 hx]
  constructor
  · rintro ⟨hb, rfl⟩
    obtain ⟨m, hm⟩ := hb.exists_node hn
    have hy := h.tree.leads_namesTo hm
    obtain ⟨r, hr⟩ := h.tree.leads_below hb hx hy
    exact ⟨r, by rw [hr, List.drop_left], hr ▸ hy⟩
  · rintro ⟨r, rfl, hy⟩
    obtain ⟨m, hm⟩ := h.tree.mem_of_leads hy
    exact ⟨h.tree.below_of_leads hx hy, by rw [(h.tree.leads_iff hm).1 hy, List.drop_left]⟩

theorem mem_known_carriedTo_iff (h : s.Sound) (hx : s.arena.Leads x p) (place : List String) :
    (q, y) ∈ (s.known (s.carriedTo x place)).idAt ↔
      (s.arena.Leads y q ∧ ¬ p <+: q) ∨ ∃ r, q = place ++ r ∧ s.arena.Leads y (p ++ r) := by
  rw [mem_known_iff, mem_carriedTo_iff_leads h hx]
  refine or_congr_left ?_
  constructor
  · rintro ⟨rfl, hy, hnot⟩
    obtain ⟨m, hm⟩ := Table.mem_keys_iff.1 hy
    have hl := h.tree.leads_namesTo hm
    refine ⟨hl, fun ⟨r, hr⟩ => hnot ?_⟩
    exact List.mem_map.2 ⟨_, (mem_carriedTo_iff_leads h hx place).2 ⟨r, rfl, hr.symm ▸ hl⟩, rfl⟩
  · rintro ⟨hl, hnot⟩
    obtain ⟨m, hm⟩ := h.tree.mem_of_leads hl
    refine ⟨(h.tree.leads_iff hm).1 hl, Table.mem_keys_iff.2 ⟨m, hm⟩, fun hmem => ?_⟩
    obtain ⟨⟨q', _⟩, hq', rfl⟩ := List.mem_map.1 hmem
    obtain ⟨r, -, hr⟩ := (mem_carriedTo_iff_leads h hx place).1 hq'
    exact hnot (h.tree.leads_unique hl hr ▸ List.prefix_append p r)

/-- A rebuilding that carries a subtree to a place where nothing was. -/
theorem rebuilt_carriedTo (h : s.Sound) (hx : s.arena.Leads x p) (hxr : x ≠ rootId)
    (hfree : Shape.Free s.arena.Shows place) (hF : ProperListing F)
    (hS : (s.arena.Shows.shifted p place).IsTree)
    (hl : ListsShape F (s.arena.Shows.shifted p place)) (now : Timestamp) :
    Effect (.along p place) (s.arena.Shows.shifted p place) s
      (s.rebuilt F (s.carriedTo x place) now) := by
  obtain ⟨n, hn⟩ := h.tree.mem_of_leads hx
  have hplace : ∀ {y r}, ¬ s.arena.Leads y (place ++ r) := fun {y r} =>
    h.tree.free_iff.1 (h.tree.shape.free_append hfree r) y
  refine rebuilt h (.carriedTo h.tree hn hxr place) hF hS hl (fun {y m q q'} hy hm hτ => ?_)
    (fun {y q q'} hy hτ _ => ?_) now
  · by_cases hpre : p <+: q
    · obtain ⟨r, rfl⟩ := hpre
      rw [Course.along_append, Option.some.injEq] at hτ
      subst hτ
      refine ⟨(mem_known_carriedTo_iff h hx place).2 (.inr ⟨r, rfl, hy⟩), fun z hz => ?_,
        m.shown, .inr ⟨r, rfl, y, m, hy, hm, rfl⟩, .rfl⟩
      rcases (mem_known_carriedTo_iff h hx place).1 hz with ⟨hz, -⟩ | ⟨r', hr', hz⟩
      · exact absurd hz hplace
      · rw [← List.append_cancel_left hr'] at hz
        exact h.tree.leads_injective hz hy
    · rw [Course.along_of_not_prefix _ hpre, Option.some.injEq] at hτ
      subst hτ
      refine ⟨(mem_known_carriedTo_iff h hx place).2 (.inl ⟨hy, hpre⟩), fun z hz => ?_,
        m.shown, .inl ⟨⟨y, m, hy, hm, rfl⟩, hpre⟩, .rfl⟩
      rcases (mem_known_carriedTo_iff h hx place).1 hz with ⟨hz, -⟩ | ⟨r', rfl, -⟩
      · exact h.tree.leads_injective hz hy
      · exact absurd hy hplace
  · unfold Course.along at hτ
    split at hτ <;> cases hτ

end Effect

end Workbench.Workspace
