import Workbench.Proofs.Arena.Tree

/-!
# Trees that grow

`IsTree.of_samePlace` keeps a tree a tree when nodes change but stay at their places. `Room` says
that a new node fits below a directory; attaching it there gives a tree again. `Grows` is what is
left of a growing tree seen from outside: nothing that was there changes its place, and what is
new lies below one directory under one of a few names, or below something new. It composes, so
that trees which are planted node by node are trees.
-/

namespace Workbench

/-- Two nodes that take the same place in a tree. -/
structure Node.SamePlace (m n : Node) : Prop where
  id : m.id = n.id
  kind : m.kind = n.kind
  parentId : m.parentId = n.parentId
  children : m.children = n.children

/-- Two nodes that differ at most in children, time and marks. -/
structure Node.Alike (m n : Node) : Prop where
  id : m.id = n.id
  name : m.name = n.name
  kind : m.kind = n.kind
  content : m.content = n.content
  size : m.size = n.size
  parentId : m.parentId = n.parentId

namespace Node.Alike

variable {k m n : Node}

theorem refl (n : Node) : n.Alike n := ⟨rfl, rfl, rfl, rfl, rfl, rfl⟩

theorem trans (h : k.Alike m) (h' : m.Alike n) : k.Alike n :=
  ⟨h.id.trans h'.id, h.name.trans h'.name, h.kind.trans h'.kind, h.content.trans h'.content,
    h.size.trans h'.size, h.parentId.trans h'.parentId⟩

theorem fit (h : m.Alike n) (hn : n.Fit) (hc : m.kind = .file → m.children = []) : m.Fit where
  named hid := h.name ▸ hn.named (h.id ▸ hid)
  leaf := hc
  sized := by rw [h.size, h.content]; exact hn.sized
  bare hk := h.content.trans (hn.bare (h.kind ▸ hk))

end Node.Alike

namespace Arena

variable {a a' a'' : Arena} {id p q c : NodeId} {n d k m : Node} {names names' : List String}

theorem atOrBelow_of_leads (hl : a.Leads id names) : a.AtOrBelow rootId id := by
  induction hl with
  | root => exact .refl a _
  | child _ hn hp ih => exact ih.tail ⟨_, hn, hp⟩

theorem Leads.mono (hl : a.Leads id names)
    (hk : ∀ {id n}, a.get? id = some n →
      ∃ m, a'.get? id = some m ∧ m.name = n.name ∧ m.parentId = n.parentId) :
    a'.Leads id names := by
  induction hl with
  | root => exact .root
  | child _ hn hp ih =>
    obtain ⟨m, hm, hname, hparent⟩ := hk hn
    rw [← hname]
    exact .child ih hm (hparent.trans hp)

/-- Changing nodes at their places keeps a tree a tree, if they stay fit and siblings keep
different names. -/
theorem IsTree.of_samePlace (h : a.IsTree)
    (hs : ∀ id, Option.Rel Node.SamePlace (a'.get? id) (a.get? id))
    (hfit : ∀ {id n}, a'.get? id = some n → n.Fit)
    (hsib : ∀ {c d m n}, a'.get? c = some m → a'.get? d = some n → m.parentId = n.parentId →
      m.name = n.name → c = d)
    (hroot : ∀ {r}, a'.get? rootId = some r → r.name = "") : a'.IsTree := by
  have back : ∀ {id m}, a'.get? id = some m → ∃ n, a.get? id = some n ∧ m.SamePlace n := by
    intro id m hm
    have hr := hs id
    rw [hm] at hr
    cases hn : a.get? id with
    | none => rw [hn] at hr; cases hr
    | some n => rw [hn] at hr; cases hr with | some hr => exact ⟨n, rfl, hr⟩
  have forth : ∀ {id n}, a.get? id = some n → ∃ m, a'.get? id = some m ∧ m.SamePlace n := by
    intro id n hn
    have hr := hs id
    rw [hn] at hr
    cases hm : a'.get? id with
    | none => rw [hm] at hr; cases hr
    | some m => rw [hm] at hr; cases hr with | some hr => exact ⟨m, rfl, hr⟩
  have hedge : ∀ {p c}, a.Holds p c → a'.Holds p c := by
    rintro p c ⟨n, hn, hp⟩
    obtain ⟨m, hm, hmn⟩ := forth hn
    exact ⟨m, hm, hmn.parentId.trans hp⟩
  refine ⟨?_, ?_, ?_, ?_, ?_, hsib, hfit, ?_, hroot⟩
  · obtain ⟨r, hr, hk, hp⟩ := h.root
    obtain ⟨m, hm, hmr⟩ := forth hr
    exact ⟨m, hm, hmr.kind.trans hk, hmr.parentId.trans hp⟩
  · intro id m hm
    obtain ⟨n, hn, hmn⟩ := back hm
    exact hmn.id.trans (h.keyed hn)
  · intro id m hm hne
    obtain ⟨n, hn, hmn⟩ := back hm
    obtain ⟨p, d, hp, hd, hmem⟩ := h.held hn hne
    obtain ⟨d', hd', hdd⟩ := forth hd
    exact ⟨p, d', hmn.parentId.trans hp, hd', hdd.children ▸ hmem⟩
  · intro id m c hm hc
    obtain ⟨n, hn, hmn⟩ := back hm
    obtain ⟨k, hk, hp⟩ := h.listed hn (hmn.children ▸ hc)
    obtain ⟨k', hk', hkk⟩ := forth hk
    exact ⟨k', hk', hkk.parentId.trans hp⟩
  · intro id m hm
    obtain ⟨n, hn, hmn⟩ := back hm
    exact hmn.children ▸ h.once hn
  · intro id m hm
    obtain ⟨n, hn, -⟩ := back hm
    exact Relation.ReflTransGen.mono (fun _ _ => hedge) _ _ (h.reached hn)

/-- Changing a node at its place without changing its name keeps a tree a tree. -/
theorem IsTree.modify (h : a.IsTree) {f : Node → Node}
    (hf : ∀ n, a.get? id = some n → (f n).SamePlace n ∧ (f n).name = n.name ∧ (f n).Fit) :
    IsTree (Table.modify a id f) := by
  have hget : ∀ {k m}, (Table.modify a id f).get? k = some m →
      ∃ n, a.get? k = some n ∧ m.SamePlace n ∧ m.name = n.name ∧ m.Fit := by
    intro k m hm
    rw [Table.get?_modify] at hm
    split at hm
    · next hk =>
      subst hk
      obtain ⟨n, hn, rfl⟩ := Option.map_eq_some_iff.1 hm
      exact ⟨n, hn, hf n hn⟩
    · exact ⟨m, hm, ⟨rfl, rfl, rfl, rfl⟩, rfl, h.fit hm⟩
  refine h.of_samePlace (fun k => ?_) (fun hm => ?_) (fun hm hn hp hname => ?_) (fun hr => ?_)
  · rw [Table.get?_modify]
    split
    · next hk =>
      subst hk
      cases hn : a.get? k with
      | none => exact .none
      | some n => exact .some (hf n hn).1
    · cases a.get? k with
      | none => exact .none
      | some n => exact .some ⟨rfl, rfl, rfl, rfl⟩
  · obtain ⟨-, -, -, -, hfit⟩ := hget hm
    exact hfit
  · obtain ⟨m', hm', hms, hmn, -⟩ := hget hm
    obtain ⟨n', hn', hns, hnn, -⟩ := hget hn
    exact h.siblings hm' hn' (hms.parentId.symm.trans (hp.trans hns.parentId))
      (hmn.symm.trans (hname.trans hnn))
  · obtain ⟨r', hr', -, hrn, -⟩ := hget hr
    exact hrn.trans (h.unnamed hr')

/-- Changing a node no more than in time and marks keeps a tree a tree. -/
theorem IsTree.modify_alike (h : a.IsTree) {f : Node → Node}
    (hf : ∀ n, (f n).Alike n ∧ (f n).children = n.children) :
    IsTree (Table.modify a id f) :=
  h.modify fun n hn =>
    have ⟨ha, hc⟩ := hf n
    ⟨⟨ha.id, ha.kind, ha.parentId, hc⟩, ha.name,
      ha.fit (h.fit hn) fun hk => hc.trans ((h.fit hn).leaf (ha.kind ▸ hk))⟩

theorem exists_alike_modify {f : Node → Node} (hf : ∀ n, (f n).Alike n)
    (hn : a.get? c = some n) (id : NodeId) :
    ∃ m, (Table.modify a id f).get? c = some m ∧ m.Alike n := by
  by_cases hc : c = id
  · subst hc
    exact ⟨f n, by rw [Table.get?_modify_self, hn]; rfl, hf n⟩
  · exact ⟨n, by rw [Table.get?_modify_of_ne hc, hn], .refl n⟩

theorem alike_of_modify {f : Node → Node} (hf : ∀ n, (f n).Alike n)
    (hm : (Table.modify a id f).get? c = some m) : ∃ n, a.get? c = some n ∧ m.Alike n := by
  rw [Table.get?_modify] at hm
  split at hm
  · next hc =>
    subst hc
    obtain ⟨n, hn, rfl⟩ := Option.map_eq_some_iff.1 hm
    exact ⟨n, hn, hf n⟩
  · exact ⟨m, hm, .refl m⟩

/-! ## Attaching a node -/

/-- A new node fits below a directory. -/
structure Room (a : Arena) (p : NodeId) (n : Node) : Prop where
  directory : ∃ d, a.get? p = some d ∧ d.kind = .directory
  fresh : a.get? n.id = none
  parentId : n.parentId = some p
  children : n.children = []
  fit : n.Fit
  free : ∀ {c m}, a.get? c = some m → m.parentId = some p → m.name ≠ n.name

namespace Room

theorem ne_new (hr : a.Room p n) (hm : a.get? c = some m) : c ≠ n.id := by
  rintro rfl
  rw [hr.fresh] at hm
  cases hm

theorem ne (hr : a.Room p n) : p ≠ n.id := by
  obtain ⟨d, hd, -⟩ := hr.directory
  exact hr.ne_new hd

/-- The arena with the node attached: the new node, the directory that lists it now, and all else
as it was. -/
theorem get?_attach (hr : a.Room p n) (hd : a.get? p = some d) (k : NodeId) :
    (a.attach p n).get? k =
      if k = p then some { d with children := d.children ++ [n.id] }
      else if k = n.id then some n else a.get? k := by
  unfold attach adopt
  rw [Table.get?_modify, Table.get?_insert_of_ne hr.ne, hd, Table.get?_insert]
  rfl

theorem get?_new (hr : a.Room p n) : (a.attach p n).get? n.id = some n := by
  obtain ⟨d, hd, -⟩ := hr.directory
  rw [hr.get?_attach hd, if_neg (Ne.symm hr.ne), if_pos rfl]

theorem get?_parent (hr : a.Room p n) (hd : a.get? p = some d) :
    (a.attach p n).get? p = some { d with children := d.children ++ [n.id] } := by
  rw [hr.get?_attach hd, if_pos rfl]

theorem exists_of_get? (hr : a.Room p n) (hm : a.get? c = some m) :
    ∃ m', (a.attach p n).get? c = some m' ∧
      m' = { m with children := if c = p then m.children ++ [n.id] else m.children } := by
  obtain ⟨d, hd, -⟩ := hr.directory
  rw [hr.get?_attach hd]
  by_cases hp : c = p
  · subst hp
    obtain rfl := Option.some.inj (hd.symm.trans hm)
    exact ⟨_, if_pos rfl, by rw [if_pos rfl]⟩
  · exact ⟨m, by rw [if_neg hp, if_neg (hr.ne_new hm), hm], by rw [if_neg hp]⟩

theorem get?_cases (hr : a.Room p n) (hm : (a.attach p n).get? c = some m) :
    (c = n.id ∧ m = n) ∨ ∃ m₀, a.get? c = some m₀ ∧
      m = { m₀ with children := if c = p then m₀.children ++ [n.id] else m₀.children } := by
  by_cases hc : c = n.id
  · subst hc
    rw [hr.get?_new, Option.some.injEq] at hm
    exact .inl ⟨rfl, hm.symm⟩
  · obtain ⟨d, hd, -⟩ := hr.directory
    by_cases hp : c = p
    · subst hp
      obtain ⟨m', hm', he⟩ := hr.exists_of_get? hd
      exact .inr ⟨d, hd, (Option.some.inj (hm.symm.trans hm')).trans he⟩
    · rw [hr.get?_attach hd, if_neg hp, if_neg hc] at hm
      exact .inr ⟨m, hm, by rw [if_neg hp]⟩

theorem leads_attach (hr : a.Room p n) (hl : a.Leads id names) : (a.attach p n).Leads id names :=
  hl.mono fun hm => by
    obtain ⟨m', hm', rfl⟩ := hr.exists_of_get? hm
    exact ⟨_, hm', rfl, rfl⟩

theorem held (hr : a.Room p n) (h : a.IsTree) (hm : (a.attach p n).get? c = some m)
    (hne : c ≠ rootId) :
    ∃ q e, m.parentId = some q ∧ (a.attach p n).get? q = some e ∧ c ∈ e.children := by
  rcases hr.get?_cases hm with ⟨rfl, rfl⟩ | ⟨m₀, hm₀, rfl⟩
  · obtain ⟨d, hd, -⟩ := hr.directory
    exact ⟨p, _, hr.parentId, hr.get?_parent hd, by simp⟩
  · obtain ⟨q, e, hq, he, hmem⟩ := h.held hm₀ hne
    obtain ⟨e', he', rfl⟩ := hr.exists_of_get? he
    refine ⟨q, _, hq, he', ?_⟩
    split
    · exact List.mem_append_left _ hmem
    · exact hmem

theorem listed (hr : a.Room p n) (h : a.IsTree) (hm : (a.attach p n).get? c = some m)
    (hq : q ∈ m.children) : ∃ k, (a.attach p n).get? q = some k ∧ k.parentId = some c := by
  rcases hr.get?_cases hm with ⟨rfl, rfl⟩ | ⟨m₀, hm₀, rfl⟩
  · rw [hr.children] at hq
    cases hq
  · have old : q ∈ m₀.children → ∃ k, (a.attach p n).get? q = some k ∧ k.parentId = some c := by
      intro hq
      obtain ⟨k, hk, hkp⟩ := h.listed hm₀ hq
      obtain ⟨k', hk', rfl⟩ := hr.exists_of_get? hk
      exact ⟨_, hk', hkp⟩
    by_cases hcp : c = p
    · simp only [hcp, ↓reduceIte, List.mem_append, List.mem_singleton] at hq
      rcases hq with hq | rfl
      · exact old hq
      · exact ⟨n, hr.get?_new, hcp ▸ hr.parentId⟩
    · simp only [hcp, ↓reduceIte] at hq
      exact old hq

theorem once (hr : a.Room p n) (h : a.IsTree) (hm : (a.attach p n).get? c = some m) :
    m.children.Nodup := by
  rcases hr.get?_cases hm with ⟨rfl, rfl⟩ | ⟨m₀, hm₀, rfl⟩
  · rw [hr.children]
    exact List.nodup_nil
  · dsimp only
    split
    · refine List.Nodup.append (h.once hm₀) (List.nodup_singleton _) fun x hx hxn => ?_
      obtain rfl := List.mem_singleton.1 hxn
      obtain ⟨k, hk, -⟩ := h.listed hm₀ hx
      exact hr.ne_new hk rfl
    · exact h.once hm₀

theorem siblings (hr : a.Room p n) (h : a.IsTree) (hm : (a.attach p n).get? c = some m)
    (hk : (a.attach p n).get? q = some k) (hp : m.parentId = k.parentId)
    (hname : m.name = k.name) : c = q := by
  rcases hr.get?_cases hm with ⟨rfl, rfl⟩ | ⟨m₀, hm₀, rfl⟩
  · rcases hr.get?_cases hk with ⟨rfl, rfl⟩ | ⟨k₀, hk₀, rfl⟩
    · rfl
    · have hfree : k₀.name ≠ m.name := hr.free hk₀ (hp.symm.trans hr.parentId)
      exact absurd hname.symm hfree
  · rcases hr.get?_cases hk with ⟨rfl, rfl⟩ | ⟨k₀, hk₀, rfl⟩
    · have hfree : m₀.name ≠ k.name := hr.free hm₀ (hp.trans hr.parentId)
      exact absurd hname hfree
    · exact h.siblings hm₀ hk₀ hp hname

theorem fit_attach (hr : a.Room p n) (h : a.IsTree) (hm : (a.attach p n).get? c = some m) :
    m.Fit := by
  rcases hr.get?_cases hm with ⟨rfl, rfl⟩ | ⟨m₀, hm₀, rfl⟩
  · exact hr.fit
  · have hf := h.fit hm₀
    refine ⟨hf.named, fun hk => ?_, hf.sized, hf.bare⟩
    have hne : c ≠ p := by
      rintro rfl
      obtain ⟨d, hd, hdk⟩ := hr.directory
      obtain rfl := Option.some.inj (hd.symm.trans hm₀)
      exact absurd (hk.symm.trans hdk) (by decide)
    simp only [hne, ↓reduceIte]
    exact hf.leaf hk

theorem reached (hr : a.Room p n) (h : a.IsTree) (hm : (a.attach p n).get? c = some m) :
    (a.attach p n).AtOrBelow rootId c := by
  rcases hr.get?_cases hm with ⟨rfl, rfl⟩ | ⟨m₀, hm₀, rfl⟩
  · obtain ⟨d, hd, -⟩ := hr.directory
    obtain ⟨names, hl⟩ := h.exists_leads hd
    exact (atOrBelow_of_leads (hr.leads_attach hl)).tail ⟨m, hr.get?_new, hr.parentId⟩
  · obtain ⟨names, hl⟩ := h.exists_leads hm₀
    exact atOrBelow_of_leads (hr.leads_attach hl)

/-- Where there is room for a node, attaching it gives a tree. -/
theorem isTree (hr : a.Room p n) (h : a.IsTree) : (a.attach p n).IsTree := by
  refine ⟨?_, fun {c m} hm => ?_, hr.held h, hr.listed h, hr.once h, hr.siblings h,
    hr.fit_attach h, hr.reached h, fun {r} hm => ?_⟩
  · obtain ⟨r, hrt, hk, hp⟩ := h.root
    obtain ⟨m, hm, rfl⟩ := hr.exists_of_get? hrt
    exact ⟨_, hm, hk, hp⟩
  · rcases hr.get?_cases hm with ⟨rfl, rfl⟩ | ⟨m₀, hm₀, rfl⟩
    · rfl
    · have hid : m₀.id = c := h.keyed hm₀
      exact hid
  · rcases hr.get?_cases hm with ⟨he, -⟩ | ⟨m₀, hm₀, rfl⟩
    · obtain ⟨r₀, hr₀, -⟩ := h.root
      exact absurd he (hr.ne_new hr₀)
    · have hname : m₀.name = "" := h.unnamed hm₀
      exact hname

end Room

/-! ## Growth -/

/-- A tree that has grown: what was there keeps its place and its content, and what is new lies in
the directory `p` under one of the names, or in something new. -/
structure Grows (a : Arena) (p : NodeId) (names : List String) (a' : Arena) : Prop where
  isTree : a'.IsTree
  kept : ∀ {id n}, a.get? id = some n → ∃ m, a'.get? id = some m ∧ m.Alike n
  added : ∀ {id m}, a'.get? id = some m → (∃ n, a.get? id = some n) ∨
    (m.parentId = some p ∧ m.name ∈ names) ∨ ∃ q, m.parentId = some q ∧ a.get? q = none

namespace Grows

theorem refl (h : a.IsTree) (p : NodeId) : a.Grows p [] a where
  isTree := h
  kept hn := ⟨_, hn, .refl _⟩
  added hm := .inl ⟨_, hm⟩

theorem exists_of_get? (h : a.Grows p names a') (hn : a.get? id = some n) :
    ∃ m, a'.get? id = some m := by
  obtain ⟨m, hm, -⟩ := h.kept hn
  exact ⟨m, hm⟩

theorem get?_eq_none (h : a.Grows p names a') (hn : a'.get? id = none) : a.get? id = none := by
  cases hk : a.get? id with
  | none => rfl
  | some n =>
    obtain ⟨m, hm⟩ := h.exists_of_get? hk
    rw [hn] at hm
    cases hm

/-- Growth in one directory adds up. -/
theorem trans (h : a.Grows p names a') (h' : a'.Grows p names' a'') :
    a.Grows p (names ++ names') a'' where
  isTree := h'.isTree
  kept hn := by
    obtain ⟨m, hm, hmn⟩ := h.kept hn
    obtain ⟨k, hk, hkm⟩ := h'.kept hm
    exact ⟨k, hk, hkm.trans hmn⟩
  added hm := by
    rcases h'.added hm with ⟨n, hn⟩ | ⟨hp, hname⟩ | ⟨q, hq, hnone⟩
    · obtain ⟨k, hk, hkn⟩ := h'.kept hn
      obtain rfl := Option.some.inj (hm.symm.trans hk)
      rcases h.added hn with hold | ⟨hp, hname⟩ | ⟨q, hq, hnone⟩
      · exact .inl hold
      · exact .inr (.inl ⟨hkn.parentId.trans hp, hkn.name ▸ List.mem_append_left _ hname⟩)
      · exact .inr (.inr ⟨q, hkn.parentId.trans hq, hnone⟩)
    · exact .inr (.inl ⟨hp, List.mem_append_right _ hname⟩)
    · exact .inr (.inr ⟨q, hq, h.get?_eq_none hnone⟩)

/-- Growth in a directory that is itself new is no more than the directory. -/
theorem below (h : a.Grows p names a') (h' : a'.Grows q names' a'') (hq : a.get? q = none) :
    a.Grows p names a'' where
  isTree := h'.isTree
  kept hn := by
    obtain ⟨m, hm, hmn⟩ := h.kept hn
    obtain ⟨k, hk, hkm⟩ := h'.kept hm
    exact ⟨k, hk, hkm.trans hmn⟩
  added hm := by
    rcases h'.added hm with ⟨n, hn⟩ | ⟨hp, -⟩ | ⟨r, hr, hnone⟩
    · obtain ⟨k, hk, hkn⟩ := h'.kept hn
      obtain rfl := Option.some.inj (hm.symm.trans hk)
      rcases h.added hn with hold | ⟨hp, hname⟩ | ⟨r, hr, hnone⟩
      · exact .inl hold
      · exact .inr (.inl ⟨hkn.parentId.trans hp, hkn.name ▸ hname⟩)
      · exact .inr (.inr ⟨r, hkn.parentId.trans hr, hnone⟩)
    · exact .inr (.inr ⟨q, hp, hq⟩)
    · exact .inr (.inr ⟨r, hr, h.get?_eq_none hnone⟩)

/-- Changing marks and times afterwards is no growth. -/
theorem modify (h : a.Grows p names a') {f : Node → Node}
    (hf : ∀ n, (f n).Alike n ∧ (f n).children = n.children) :
    a.Grows p names (Table.modify a' id f) where
  isTree := h.isTree.modify_alike hf
  kept hn := by
    obtain ⟨m, hm, hmn⟩ := h.kept hn
    obtain ⟨k, hk, hkm⟩ := exists_alike_modify (fun n => (hf n).1) hm id
    exact ⟨k, hk, hkm.trans hmn⟩
  added hm := by
    obtain ⟨n, hn, hmn⟩ := alike_of_modify (fun n => (hf n).1) hm
    rw [hmn.name, hmn.parentId]
    exact h.added hn

theorem stamp (h : a.Grows p names a') (id : NodeId) (now : Timestamp) :
    a.Grows p names (a'.stamp id now) :=
  h.modify fun _ => ⟨⟨rfl, rfl, rfl, rfl, rfl, rfl⟩, rfl⟩

theorem leads (h : a.Grows p names a') {ns : List String} (hl : a.Leads id ns) :
    a'.Leads id ns :=
  hl.mono fun hn => by
    obtain ⟨m, hm, hmn⟩ := h.kept hn
    exact ⟨m, hm, hmn.name, hmn.parentId⟩

end Grows

theorem Room.grows (hr : a.Room p n) (h : a.IsTree) : a.Grows p [n.name] (a.attach p n) where
  isTree := hr.isTree h
  kept hm := by
    obtain ⟨m', hm', rfl⟩ := hr.exists_of_get? hm
    exact ⟨_, hm', rfl, rfl, rfl, rfl, rfl, rfl⟩
  added hm := by
    rcases hr.get?_cases hm with ⟨rfl, rfl⟩ | ⟨m₀, hm₀, rfl⟩
    · exact .inr (.inl ⟨hr.parentId, List.mem_singleton_self _⟩)
    · exact .inl ⟨m₀, hm₀⟩

end Arena

end Workbench
