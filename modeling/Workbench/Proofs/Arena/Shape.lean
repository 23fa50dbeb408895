import Workbench.Proofs.Arena.Relocation
import Workbench.Proofs.Shape

/-!
# The shape of a tree

What a tree shows at each place, and what becomes of it when a node is added, when a subtree is
taken out, moved or copied, and when a file gets another text. In a tree every place is that of one
node, so it is enough to follow the nodes (`IsTree.shows_eq`).
-/

namespace Workbench

/-- What a node is apart from its place: the content of a file, or nothing for a directory. -/
def Node.shown (n : Node) : Option String := if n.isFile then some n.content else none

theorem Node.Alike.shown {m n : Node} (h : m.Alike n) : m.shown = n.shown := by
  unfold Node.shown Node.isFile
  rw [h.kind, h.content]

theorem Node.shown_eq_none_iff {n : Node} : n.shown = none ↔ n.kind = .directory := by
  unfold Node.shown Node.isFile
  cases n.kind <;> simp

theorem Node.kind_eq_of_shown {m n : Node} (h : m.shown = n.shown) : m.kind = n.kind := by
  unfold Node.shown Node.isFile at h
  cases hm : m.kind <;> cases hn : n.kind <;> simp [hm, hn] at h ⊢

namespace Arena

/-- What a tree shows: at the place with these names, the node that they lead to. -/
def Shows (a : Arena) : Shape := fun q c =>
  ∃ id n, a.Leads id q ∧ a.get? id = some n ∧ n.shown = c

variable {a a' : Arena} {x y t : NodeId} {n m : Node} {name : String} {p q names : List String}
  {c : Option String}

namespace IsTree

theorem shows_iff (h : a.IsTree) (hl : a.Leads x q) (hn : a.get? x = some n) :
    a.Shows q c ↔ n.shown = c := by
  constructor
  · rintro ⟨y, m, hy, hm, rfl⟩
    obtain rfl := h.leads_injective hl hy
    rw [Option.some.inj (hn.symm.trans hm)]
  · rintro rfl
    exact ⟨x, n, hl, hn, rfl⟩

theorem free_iff (h : a.IsTree) : a.Shows.Free q ↔ ∀ y, ¬ a.Leads y q := by
  constructor
  · intro hf y hy
    obtain ⟨n, hn⟩ := h.mem_of_leads hy
    exact hf _ ⟨y, n, hy, hn, rfl⟩
  · rintro hf c ⟨y, n, hy, -, -⟩
    exact hf y hy

theorem shape (h : a.IsTree) : Shape.IsTree a.Shows where
  root := by
    obtain ⟨r, hr, hk, -⟩ := h.root
    exact ⟨rootId, r, .root, hr, Node.shown_eq_none_iff.2 hk⟩
  names := by
    rintro q c ⟨y, n, hy, -, -⟩
    exact h.isName_of_leads hy
  above := by
    rintro q s c ⟨y, n, hy, -, -⟩
    generalize he : q ++ [s] = l at hy
    cases hy with
    | root => simp at he
    | child hl hn hp =>
      obtain ⟨rfl, -⟩ := List.append_inj' he rfl
      obtain ⟨d, hd, -, hk⟩ := h.parent hn hp
      exact ⟨_, d, hl, hd, Node.shown_eq_none_iff.2 hk⟩
  single := by
    rintro q c c' ⟨y, n, hy, hn, rfl⟩ hs
    exact (h.shows_iff hy hn).1 hs

/-- What a tree shows below a directory is a child of its name. -/
theorem exists_childNamed? (h : a.IsTree) (hl : a.Leads x q) (hs : a.Shows (q ++ [name]) c) :
    ∃ d n, a.get? x = some d ∧ a.childNamed? d name = some n ∧ a.get? n.id = some n ∧
      a.Leads n.id (q ++ [name]) := by
  obtain ⟨y, n, hy, hn, -⟩ := hs
  obtain ⟨m, hm, hp, hname⟩ := (h.leads_append_iff hl).1 hy
  obtain rfl := Option.some.inj (hn.symm.trans hm)
  obtain ⟨d, hd, -⟩ := h.parent hn hp
  have hid := h.keyed hn
  subst hid
  exact ⟨d, n, hd, (h.childNamed?_eq_some_iff hd).2 ⟨hn, hp, hname⟩, hn, hy⟩

theorem free_of_childNamed? (h : a.IsTree) (hl : a.Leads x q) (hd : a.get? x = some n)
    (hf : a.childNamed? n name = none) : Shape.Free a.Shows (q ++ [name]) := by
  refine h.free_iff.2 fun y hy => ?_
  obtain ⟨m, hm, hp, hname⟩ := (h.leads_append_iff hl).1 hy
  exact (h.childNamed?_eq_none_iff hd).1 hf y m hm hp hname

/-- A node lies at or below another exactly when the way to it begins with the way to the other. -/
theorem atOrBelow_iff (h : a.IsTree) (hx : a.Leads x p) (hy : a.Leads y q) :
    a.AtOrBelow x y ↔ p <+: q := by
  constructor
  · intro hb
    obtain ⟨r, rfl⟩ := h.leads_below hb hx hy
    exact List.prefix_append p r
  · rintro ⟨r, rfl⟩
    exact h.below_of_leads hx hy

/-- The shape of a tree, when every node shows something of it and nothing of it is missing. -/
theorem shows_eq (h : a.IsTree) {S : Shape}
    (hb : ∀ {y m}, a.get? y = some m → ∃ q, a.Leads y q ∧ S q m.shown)
    (hf : ∀ {q c}, S q c → a.Shows q c) : a.Shows = S := by
  funext q c
  refine propext ⟨?_, hf⟩
  rintro ⟨y, m, hy, hm, rfl⟩
  obtain ⟨q', hy', hs⟩ := hb hm
  exact h.leads_unique hy hy' ▸ hs

end IsTree

/-! ## Changes -/

theorem Grows.shows {p : NodeId} (h : a.Grows p names a') (hs : a.Shows q c) : a'.Shows q c := by
  obtain ⟨id, n, hl, hn, rfl⟩ := hs
  obtain ⟨m, hm, hmn⟩ := h.kept hn
  exact ⟨id, m, h.leads hl, hm, hmn.shown⟩

theorem Grows.shows_eq {p : NodeId} (hg : a.Grows p names a') (h : a.IsTree)
    (hx : a'.Leads x q) (hn : a'.get? x = some n)
    (hone : ∀ {y m}, a'.get? y = some m → y = x ∨ ∃ m₀, a.get? y = some m₀) :
    a'.Shows = a.Shows.grown q n.shown := by
  refine hg.isTree.shows_eq (fun {y m} hm => ?_) fun {q' c'} hs => ?_
  · rcases hone hm with rfl | ⟨m₀, hm₀⟩
    · obtain rfl := Option.some.inj (hn.symm.trans hm)
      exact ⟨q, hx, .inr ⟨rfl, rfl⟩⟩
    · obtain ⟨q', hl⟩ := h.exists_leads hm₀
      obtain ⟨m', hm', ha⟩ := hg.kept hm₀
      obtain rfl := Option.some.inj (hm.symm.trans hm')
      exact ⟨q', hg.leads hl, .inl ⟨y, m₀, hl, hm₀, ha.shown.symm⟩⟩
  · rcases hs with hs | ⟨rfl, rfl⟩
    · exact hg.shows hs
    · exact ⟨x, n, hx, hn, rfl⟩

theorem Pruned.shows_eq (hp : a.Pruned x a') (h : a.IsTree) (hr : x ≠ rootId)
    (hx : a.Leads x p) : a'.Shows = a.Shows.pruned p := by
  refine (hp.isTree h hr).shows_eq (fun {y m} hm => ?_) fun {q' c'} hs => ?_
  · obtain ⟨hy, n, hn, ha, -⟩ := hp.origin hm
    obtain ⟨q, hl⟩ := h.exists_leads hn
    exact ⟨q, hp.leads hl hy, ⟨y, n, hl, hn, ha.shown.symm⟩,
      fun hpre => hy ((h.atOrBelow_iff hx hl).2 hpre)⟩
  · obtain ⟨⟨y, n, hl, hn, rfl⟩, hnot⟩ := hs
    have hy : ¬ a.AtOrBelow x y := fun hb => hnot ((h.atOrBelow_iff hx hl).1 hb)
    obtain ⟨m, hm, ha, -⟩ := hp.kept hy hn
    exact ⟨y, m, hp.leads hl hy, hm, ha.shown⟩

theorem Moved.shows_eq (hm : a.Moved x t name a') (h : a.IsTree) (hg : a.MayGo x t name)
    (hx : a.Leads x p) (ht : a.Leads t q) : a'.Shows = a.Shows.shifted p (q ++ [name]) := by
  -- every node with its place before and after
  have place : ∀ {y r k}, a.Leads y r → a.get? y = some k → ∃ m, a'.get? y = some m ∧
      m.shown = k.shown ∧ ((¬ p <+: r ∧ a'.Leads y r) ∨
        ∃ r', r = p ++ r' ∧ a'.Leads y (q ++ [name] ++ r')) := by
    intro y r k hy hk
    have hkept : ∃ m, a'.get? y = some m ∧ m.shown = k.shown := by
      by_cases hyx : y = x
      · subst hyx
        obtain ⟨m, hm', ha, -⟩ := hm.top hk
        exact ⟨m, hm', ha.shown⟩
      · obtain ⟨m, hm', ha, -⟩ := hm.kept hyx hk
        exact ⟨m, hm', ha.shown⟩
    obtain ⟨m, hm', hs⟩ := hkept
    refine ⟨m, hm', hs, ?_⟩
    by_cases hb : a.AtOrBelow x y
    · obtain ⟨r', rfl⟩ := (h.atOrBelow_iff hx hy).1 hb
      exact .inr ⟨r', rfl, hm.leads_inside h hg ht hx hb hy⟩
    · exact .inl ⟨fun hpre => hb ((h.atOrBelow_iff hx hy).2 hpre), hm.leads_outside hy hb⟩
  refine (hm.isTree h hg).shows_eq (fun {y m} hm' => ?_) fun {q' c'} hs => ?_
  · obtain ⟨k, hk⟩ := hm.back hm'
    obtain ⟨r, hr⟩ := h.exists_leads hk
    obtain ⟨m', hm'', hs, hplace⟩ := place hr hk
    obtain rfl := Option.some.inj (hm'.symm.trans hm'')
    rcases hplace with ⟨hnot, hl⟩ | ⟨r', rfl, hl⟩
    · exact ⟨r, hl, .inl ⟨⟨y, k, hr, hk, hs.symm⟩, hnot⟩⟩
    · exact ⟨_, hl, .inr ⟨r', rfl, y, k, hr, hk, hs.symm⟩⟩
  · rcases hs with ⟨⟨y, k, hy, hk, rfl⟩, hnot⟩ | ⟨r, rfl, y, k, hy, hk, rfl⟩
    · obtain ⟨m, hm', hs, ⟨-, hl⟩ | ⟨r', rfl, -⟩⟩ := place hy hk
      · exact ⟨y, m, hl, hm', hs⟩
      · exact absurd (List.prefix_append p r') hnot
    · obtain ⟨m, hm', hs, ⟨hnot, -⟩ | ⟨r', he, hl⟩⟩ := place hy hk
      · exact absurd (List.prefix_append p r) hnot
      · rw [List.append_cancel_left he]
        exact ⟨y, m, hl, hm', hs⟩

theorem Grafted.shows_eq {σ : NodeId → NodeId} (hc : a.Grafted x t name σ a') (h : a.IsTree)
    (h' : a'.IsTree) (hn : a.get? x = some n) (hx : a.Leads x p) (ht : a.Leads t q) :
    a'.Shows = a.Shows.doubled p (q ++ [name]) := by
  have old : ∀ {y k}, a.get? y = some k → ∃ m, a'.get? y = some m ∧ m.shown = k.shown := by
    intro y k hk
    obtain ⟨m, hm, ha, -⟩ := hc.old hk
    exact ⟨m, hm, ha.shown⟩
  have copy : ∀ {y k}, a.AtOrBelow x y → a.get? y = some k →
      ∃ m, a'.get? (σ y) = some m ∧ m.shown = k.shown := by
    intro y k hb hk
    obtain ⟨m, hm, ha, -⟩ := hc.exists_copy hb hk
    exact ⟨m, hm, ha.shown⟩
  refine h'.shows_eq (fun {z m} hm => ?_) fun {q' c'} hs => ?_
  · rcases hc.back hm with ⟨k, hk⟩ | ⟨y, hb, rfl⟩
    · obtain ⟨r, hr⟩ := h.exists_leads hk
      obtain ⟨m', hm', hs⟩ := old hk
      obtain rfl := Option.some.inj (hm.symm.trans hm')
      exact ⟨r, hc.leads_old hr, .inl ⟨z, k, hr, hk, hs.symm⟩⟩
    · obtain ⟨k, hk⟩ := hb.exists_node hn
      obtain ⟨r, hr⟩ := h.exists_leads hk
      obtain ⟨r', rfl⟩ := (h.atOrBelow_iff hx hr).1 hb
      obtain ⟨m', hm', hs⟩ := copy hb hk
      obtain rfl := Option.some.inj (hm.symm.trans hm')
      exact ⟨_, hc.leads_copy h hn ht hx hb hr, .inr ⟨r', rfl, y, k, hr, hk, hs.symm⟩⟩
  · rcases hs with ⟨y, k, hy, hk, rfl⟩ | ⟨r, rfl, y, k, hy, hk, rfl⟩
    · obtain ⟨m, hm, hs⟩ := old hk
      exact ⟨y, m, hc.leads_old hy, hm, hs⟩
    · have hb := h.below_of_leads hx hy
      obtain ⟨m, hm, hs⟩ := copy hb hk
      exact ⟨σ y, m, hc.leads_copy h hn ht hx hb hy, hm, hs⟩

/-! ## Heights -/

theorem foldl_max_le_iff {l : List Nat} {b k : Nat} :
    l.foldl max b ≤ k ↔ b ≤ k ∧ ∀ v ∈ l, v ≤ k := by
  induction l generalizing b with
  | nil => simp
  | cons v rest ih => rw [List.foldl_cons, ih, Nat.max_le, List.forall_mem_cons, and_assoc]

/-- The name that leads on from a node is that of one of its children. -/
theorem IsTree.exists_child_of_leads (h : a.IsTree) (hx : a.Leads x p) (hn : a.get? x = some n)
    {s : String} {r : List String} (hy : a.Leads y (p ++ s :: r)) :
    ∃ c ∈ n.children, a.Leads c (p ++ [s]) := by
  obtain ⟨c, hc⟩ : ∃ c, a.Leads c (p ++ [s]) := by
    by_cases hr : r = []
    · exact ⟨y, hr ▸ hy⟩
    · obtain ⟨m, hm⟩ := h.mem_of_leads hy
      rw [← List.singleton_append, ← List.append_assoc] at hy
      obtain ⟨c, -, hc, -⟩ := h.shape.directory hr ⟨y, m, hy, hm, rfl⟩
      exact ⟨c, hc⟩
  obtain ⟨m, hm, hp, -⟩ := (h.leads_append_iff hx).1 hc
  exact ⟨c, (h.mem_children_iff hn).2 ⟨m, hm, hp⟩, hc⟩

/-- A bound on the height of a node is one on what the recursion finds for each of its children. -/
theorem IsTree.height_le_iff_of_children (h : a.IsTree) (hn : a.get? x = some n) {k : Nat} :
    a.height x ≤ k ↔ ∀ c ∈ n.children, a.height c + 1 ≤ k := by
  have hchild : n.children.filterMap
      (a.fold? fun _ _ below => (below.map (· + 1)).foldl max 0) = n.children.map a.height :=
    h.filterMap_children hn fun hm => by rw [height, h.fold?_eq hm, Option.getD_some]
  rw [height, h.fold?_eq hn, hchild, Option.getD_some, foldl_max_le_iff]
  simp

/-- The height of a node is the length of the longest way below it. -/
theorem IsTree.height_le_iff (h : a.IsTree) (hx : a.Leads x p) {k : Nat} :
    a.height x ≤ k ↔ ∀ y r, a.Leads y (p ++ r) → r.length ≤ k := by
  refine h.descend (P := fun x p => ∀ k, a.height x ≤ k ↔
    ∀ y r, a.Leads y (p ++ r) → r.length ≤ k) ?_ hx k
  intro x p n hx hn below k
  rw [h.height_le_iff_of_children hn]
  constructor
  · intro hle y r hy
    cases r with
    | nil => exact Nat.zero_le k
    | cons s r =>
      obtain ⟨c, hmem, hc⟩ := h.exists_child_of_leads hx hn hy
      obtain ⟨s', hs', hbelow⟩ := below c hmem
      obtain rfl := (List.cons.inj (List.append_cancel_left (h.leads_unique hc hs'))).1
      have hlen := (hbelow _).1 (Nat.le_refl _) y r (by rwa [List.append_assoc])
      exact Nat.le_trans (Nat.succ_le_succ hlen) (hle c hmem)
  · intro hall c hc
    obtain ⟨s, hs, hbelow⟩ := below c hc
    have hone : 1 ≤ k := hall c [s] hs
    have hle := (hbelow (k - 1)).2 fun y r hy => by
      rw [List.append_assoc] at hy
      exact Nat.le_sub_one_of_lt (hall y _ hy)
    omega

end Arena

end Workbench
