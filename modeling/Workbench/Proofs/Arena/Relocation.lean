import Mathlib.Data.List.Perm.Basic
import Mathlib.Data.List.Nodup
import Workbench.Proofs.Arena.Growth

/-!
# Taking subtrees out, moving and copying them

Three relations between a tree and what a change makes of it, each with the proof that a tree comes
out and with the ways that lead to its nodes. `Pruned` is the tree without a subtree, `Moved` the
tree with a subtree at another place, and `Grafted` the tree with a copy of a subtree, whose nodes
are named by `σ`. They say nothing of the order of children where it does not matter and nothing
of times and marks, so that a new name in place is a move to the same directory.
-/

namespace Workbench.Arena

variable {a a' : Arena} {x y z t : NodeId} {k l m n : Node} {names : List String}

/-- Ways that avoid a subtree go on leading where the nodes outside it keep names and parents. -/
theorem Leads.elsewhere (hl : a.Leads y names) (hy : ¬ a.AtOrBelow x y)
    (hk : ∀ {y n}, ¬ a.AtOrBelow x y → a.get? y = some n →
      ∃ m, a'.get? y = some m ∧ m.name = n.name ∧ m.parentId = n.parentId) :
    a'.Leads y names := by
  induction hl with
  | root => exact .root
  | child _ hn hp ih =>
    have hpx : ¬ a.AtOrBelow x _ := fun hb => hy (hb.tail ⟨_, hn, hp⟩)
    obtain ⟨m, hm, hname, hparent⟩ := hk hy hn
    rw [← hname]
    exact .child (ih hpx) hm (hparent.trans hp)

/-- Ways into a subtree that is carried to another place lead through that place. -/
theorem Leads.carried {σ : NodeId → NodeId} (h : a.IsTree) {old place : List String}
    (hx : a.Leads x old) (hx' : a'.Leads (σ x) place)
    (hk : ∀ {y n}, a.AtOrBelow x y → y ≠ x → a.get? y = some n →
      ∃ m, a'.get? (σ y) = some m ∧ m.name = n.name ∧ m.parentId = n.parentId.map σ)
    (hxy : a.AtOrBelow x y) {rest : List String} (hy : a.Leads y (old ++ rest)) :
    a'.Leads (σ y) (place ++ rest) := by
  induction hxy generalizing rest with
  | refl =>
    have : rest = [] := List.append_right_eq_self.1 (h.leads_unique hy hx)
    rw [this, List.append_nil]
    exact hx'
  | @tail q z hxq hqz ih =>
    have hzx : z ≠ x := by
      rintro rfl
      exact h.not_below_parent hqz hxq
    obtain ⟨n, hn, hp⟩ := hqz
    obtain ⟨qs, hq⟩ := h.exists_leads (h.mem_of_holds ⟨n, hn, hp⟩).choose_spec
    obtain ⟨mid, rfl⟩ := h.leads_below hxq hx hq
    have hz := Leads.child hq hn hp
    have hrest : rest = mid ++ [n.name] :=
      List.append_cancel_left ((h.leads_unique hy hz).trans (List.append_assoc _ _ _))
    obtain ⟨m, hm, hname, hparent⟩ := hk (hxq.tail ⟨n, hn, hp⟩) hzx hn
    rw [hrest, ← List.append_assoc, ← hname]
    exact .child (ih hq) hm (by rw [hparent, hp]; rfl)

/-! ## Taking a subtree out -/

/-- The tree without the subtree of a node. -/
structure Pruned (a : Arena) (x : NodeId) (a' : Arena) : Prop where
  gone : ∀ {y}, a.AtOrBelow x y → a'.get? y = none
  kept : ∀ {y n}, ¬ a.AtOrBelow x y → a.get? y = some n →
    ∃ m, a'.get? y = some m ∧ m.Alike n ∧ m.children = n.children.erase x
  back : ∀ {y m}, a'.get? y = some m → ∃ n, a.get? y = some n

namespace Pruned

theorem origin (hp : a.Pruned x a') (hm : a'.get? y = some m) : ¬ a.AtOrBelow x y ∧
    ∃ n, a.get? y = some n ∧ m.Alike n ∧ m.children = n.children.erase x := by
  have hy : ¬ a.AtOrBelow x y := fun hb => by
    rw [hp.gone hb] at hm
    cases hm
  obtain ⟨n, hn⟩ := hp.back hm
  obtain ⟨m', hm', hk⟩ := hp.kept hy hn
  obtain rfl := Option.some.inj (hm.symm.trans hm')
  exact ⟨hy, n, hn, hk⟩

theorem leads (hp : a.Pruned x a') (hl : a.Leads y names) (hy : ¬ a.AtOrBelow x y) :
    a'.Leads y names :=
  hl.elsewhere hy fun hy hn => by
    obtain ⟨m, hm, ha, -⟩ := hp.kept hy hn
    exact ⟨m, hm, ha.name, ha.parentId⟩

/-- What is left when a subtree other than the whole is taken out is a tree. -/
theorem isTree (hp : a.Pruned x a') (h : a.IsTree) (hx : x ≠ rootId) : a'.IsTree := by
  refine ⟨?_, ?_, ?_, ?_, ?_, ?_, ?_, ?_, ?_⟩
  · obtain ⟨r, hr, hk, hnone⟩ := h.root
    obtain ⟨m, hm, ha, -⟩ := hp.kept (fun hb => hx (h.eq_of_below_root hb)) hr
    exact ⟨m, hm, ha.kind.trans hk, ha.parentId.trans hnone⟩
  · intro y m hm
    obtain ⟨-, n, hn, ha, -⟩ := hp.origin hm
    exact ha.id.trans (h.keyed hn)
  · intro y m hm hne
    obtain ⟨hy, n, hn, ha, -⟩ := hp.origin hm
    obtain ⟨p, d, hpar, hd, hmem⟩ := h.held hn hne
    have hout : ¬ a.AtOrBelow x p := fun hb => hy (hb.tail ⟨n, hn, hpar⟩)
    obtain ⟨d', hd', -, hc⟩ := hp.kept hout hd
    have hyx : y ≠ x := by
      rintro rfl
      exact hy (.refl a y)
    exact ⟨p, d', ha.parentId.trans hpar, hd', hc ▸ (List.mem_erase_of_ne hyx).2 hmem⟩
  · intro y m c hm hc
    obtain ⟨hy, n, hn, -, hch⟩ := hp.origin hm
    rw [hch, (h.once hn).mem_erase_iff] at hc
    obtain ⟨k, hk, hpar⟩ := h.listed hn hc.2
    have hout : ¬ a.AtOrBelow x c := fun hb => hy (hb.parent_of_ne hc.1 ⟨k, hk, hpar⟩)
    obtain ⟨k', hk', ha, -⟩ := hp.kept hout hk
    exact ⟨k', hk', ha.parentId.trans hpar⟩
  · intro y m hm
    obtain ⟨-, n, hn, -, hch⟩ := hp.origin hm
    exact hch ▸ (h.once hn).erase x
  · intro y z m k hm hk hpar hname
    obtain ⟨-, m₀, hm₀, ha, -⟩ := hp.origin hm
    obtain ⟨-, k₀, hk₀, hb, -⟩ := hp.origin hk
    exact h.siblings hm₀ hk₀ (ha.parentId.symm.trans (hpar.trans hb.parentId))
      (ha.name.symm.trans (hname.trans hb.name))
  · intro y m hm
    obtain ⟨-, n, hn, ha, hch⟩ := hp.origin hm
    refine ha.fit (h.fit hn) fun hk => ?_
    rw [hch, (h.fit hn).leaf (ha.kind ▸ hk), List.erase_nil]
  · intro y m hm
    obtain ⟨hy, n, hn, -, -⟩ := hp.origin hm
    obtain ⟨names, hl⟩ := h.exists_leads hn
    exact atOrBelow_of_leads (hp.leads hl hy)
  · intro r hm
    obtain ⟨-, n, hn, ha, -⟩ := hp.origin hm
    exact ha.name.trans (h.unnamed hn)

end Pruned

/-! ## Moving a subtree -/

/-- The tree with the subtree of `x` in the directory `t`, under a name. -/
structure Moved (a : Arena) (x t : NodeId) (name : String) (a' : Arena) : Prop where
  kept : ∀ {y n}, y ≠ x → a.get? y = some n → ∃ m, a'.get? y = some m ∧ m.Alike n ∧
    m.children.Perm (n.children.erase x ++ if y = t then [x] else [])
  top : ∀ {n}, a.get? x = some n → ∃ m, a'.get? x = some m ∧
    m.Alike { n with name := name, parentId := some t } ∧ m.children = n.children
  back : ∀ {y m}, a'.get? y = some m → ∃ n, a.get? y = some n

/-- A node may go to a directory: neither it nor anything below it is the directory, and the name
is not taken there by another node. -/
structure MayGo (a : Arena) (x t : NodeId) (name : String) : Prop where
  node : ∃ n, a.get? x = some n
  directory : ∃ d, a.get? t = some d ∧ d.kind = .directory
  notRoot : x ≠ rootId
  outside : ¬ a.AtOrBelow x t
  isName : Path.isName name = true
  free : ∀ {c m}, a.get? c = some m → c ≠ x → m.parentId = some t → m.name ≠ name

namespace Moved

variable {name : String}

theorem leads_outside (hm : a.Moved x t name a') (hl : a.Leads y names)
    (hy : ¬ a.AtOrBelow x y) : a'.Leads y names :=
  hl.elsewhere hy fun hy hn => by
    obtain ⟨m, hm, ha, -⟩ := hm.kept (fun he => hy (he ▸ .refl a _)) hn
    exact ⟨m, hm, ha.name, ha.parentId⟩

/-- The way to the node at its new place. -/
theorem leads_top (hm : a.Moved x t name a') (hg : a.MayGo x t name) (hl : a.Leads t names) :
    a'.Leads x (names ++ [name]) := by
  obtain ⟨n, hn⟩ := hg.node
  obtain ⟨m, hm', ha, -⟩ := hm.top hn
  have hname : m.name = name := ha.name
  have := Leads.child (hm.leads_outside hl hg.outside) hm' ha.parentId
  rwa [hname] at this

/-- The way to a node below, which goes with the subtree. -/
theorem leads_inside (hm : a.Moved x t name a') (h : a.IsTree) (hg : a.MayGo x t name)
    (hl : a.Leads t names) {old rest : List String} (hx : a.Leads x old) (hxy : a.AtOrBelow x y)
    (hy : a.Leads y (old ++ rest)) : a'.Leads y (names ++ [name] ++ rest) := by
  refine Leads.carried (σ := id) h hx (hm.leads_top hg hl) (fun _ hyx hn => ?_) hxy hy
  obtain ⟨m, hm', ha, -⟩ := hm.kept hyx hn
  exact ⟨m, hm', ha.name, by rw [ha.parentId, Option.map_id]; rfl⟩

theorem origin (hm : a.Moved x t name a') (hk : a'.get? y = some m) :
    (y = x ∧ ∃ n, a.get? x = some n ∧ m.Alike { n with name := name, parentId := some t } ∧
      m.children = n.children) ∨
    (y ≠ x ∧ ∃ n, a.get? y = some n ∧ m.Alike n ∧
      m.children.Perm (n.children.erase x ++ if y = t then [x] else [])) := by
  obtain ⟨n, hn⟩ := hm.back hk
  by_cases hy : y = x
  · subst hy
    obtain ⟨m', hm', hrest⟩ := hm.top hn
    obtain rfl := Option.some.inj (hk.symm.trans hm')
    exact .inl ⟨rfl, n, hn, hrest⟩
  · obtain ⟨m', hm', hrest⟩ := hm.kept hy hn
    obtain rfl := Option.some.inj (hk.symm.trans hm')
    exact .inr ⟨hy, n, hn, hrest⟩

theorem held (hm : a.Moved x t name a') (h : a.IsTree) (hg : a.MayGo x t name)
    (hk : a'.get? y = some m) (hne : y ≠ rootId) :
    ∃ p d, m.parentId = some p ∧ a'.get? p = some d ∧ y ∈ d.children := by
  rcases hm.origin hk with ⟨rfl, n, hn, ha, -⟩ | ⟨hyx, n, hn, ha, -⟩
  · obtain ⟨d, hd, -⟩ := hg.directory
    have hty : t ≠ y := fun he => hg.outside (he ▸ .refl a _)
    obtain ⟨d', hd', -, hperm⟩ := hm.kept hty hd
    exact ⟨t, d', ha.parentId, hd', hperm.mem_iff.2 (by simp)⟩
  · obtain ⟨p, e, hpar, he, hmem⟩ := h.held hn hne
    by_cases hpx : p = x
    · subst hpx
      obtain ⟨e', he', -, hc⟩ := hm.top he
      exact ⟨p, e', ha.parentId.trans hpar, he', hc ▸ hmem⟩
    · obtain ⟨e', he', -, hperm⟩ := hm.kept hpx he
      refine ⟨p, e', ha.parentId.trans hpar, he', hperm.mem_iff.2 (List.mem_append_left _ ?_)⟩
      exact (List.mem_erase_of_ne hyx).2 hmem

/-- What a node listed before, other than the node that was moved, is still there. -/
theorem listed_of_ne (hm : a.Moved x t name a') (h : a.IsTree) (hn : a.get? y = some n)
    (hzx : z ≠ x) (hz : z ∈ n.children) : ∃ k, a'.get? z = some k ∧ k.parentId = some y := by
  obtain ⟨k, hk, hpar⟩ := h.listed hn hz
  obtain ⟨k', hk', ha, -⟩ := hm.kept hzx hk
  exact ⟨k', hk', ha.parentId.trans hpar⟩

theorem listed (hm : a.Moved x t name a') (h : a.IsTree) (hg : a.MayGo x t name)
    (hk : a'.get? y = some m) (hz : z ∈ m.children) :
    ∃ k, a'.get? z = some k ∧ k.parentId = some y := by
  rcases hm.origin hk with ⟨rfl, n, hn, -, hch⟩ | ⟨-, n, hn, -, hperm⟩
  · rw [hch] at hz
    exact hm.listed_of_ne h hn (h.child_below (.refl a _) hn hz).2.1 hz
  · rcases List.mem_append.1 (hperm.mem_iff.1 hz) with hz | hz
    · rw [(h.once hn).mem_erase_iff] at hz
      exact hm.listed_of_ne h hn hz.1 hz.2
    · split at hz
      · next hyt =>
        obtain rfl := List.mem_singleton.1 hz
        obtain ⟨k, hk⟩ := hg.node
        obtain ⟨k', hk', ha, -⟩ := hm.top hk
        exact ⟨k', hk', hyt ▸ ha.parentId⟩
      · cases hz

theorem once (hm : a.Moved x t name a') (h : a.IsTree) (hk : a'.get? y = some m) :
    m.children.Nodup := by
  rcases hm.origin hk with ⟨rfl, n, hn, -, hch⟩ | ⟨-, n, hn, -, hperm⟩
  · exact hch ▸ h.once hn
  · rw [hperm.nodup_iff]
    refine ((h.once hn).erase x).append (by split <;> simp) fun c hc hcx => ?_
    rw [(h.once hn).mem_erase_iff] at hc
    split at hcx
    · exact hc.1 (List.mem_singleton.1 hcx)
    · cases hcx

theorem siblings (hm : a.Moved x t name a') (h : a.IsTree) (hg : a.MayGo x t name)
    (hk : a'.get? y = some m) (hl : a'.get? z = some l) (hp : m.parentId = l.parentId)
    (hname : m.name = l.name) : y = z := by
  rcases hm.origin hk with ⟨rfl, n, hn, ha, -⟩ | ⟨hyx, n, hn, ha, -⟩
  · rcases hm.origin hl with ⟨rfl, -⟩ | ⟨hzx, k, hk, hb, -⟩
    · rfl
    · have hpt : k.parentId = some t := hb.parentId.symm.trans (hp.symm.trans ha.parentId)
      exact absurd (hb.name.symm.trans (hname.symm.trans ha.name)) (hg.free hk hzx hpt)
  · rcases hm.origin hl with ⟨rfl, k, hk, hb, -⟩ | ⟨hzx, k, hk, hb, -⟩
    · have hpt : n.parentId = some t := ha.parentId.symm.trans (hp.trans hb.parentId)
      exact absurd (ha.name.symm.trans (hname.trans hb.name)) (hg.free hn hyx hpt)
    · exact h.siblings hn hk (ha.parentId.symm.trans (hp.trans hb.parentId))
        (ha.name.symm.trans (hname.trans hb.name))

theorem fit (hm : a.Moved x t name a') (h : a.IsTree) (hg : a.MayGo x t name)
    (hk : a'.get? y = some m) : m.Fit := by
  rcases hm.origin hk with ⟨rfl, n, hn, ha, hch⟩ | ⟨-, n, hn, ha, hperm⟩
  · have hf := h.fit hn
    have hf' : Node.Fit { n with name := name, parentId := some t } :=
      ⟨fun _ => hg.isName, hf.leaf, hf.sized, hf.bare⟩
    exact ha.fit hf' fun hkind => hch.trans (hf.leaf (ha.kind.symm.trans hkind))
  · refine ha.fit (h.fit hn) fun hkind => ?_
    have hnk : n.kind = .file := ha.kind.symm.trans hkind
    have hyt : y ≠ t := by
      rintro rfl
      obtain ⟨d, hd, hdk⟩ := hg.directory
      obtain rfl := Option.some.inj (hd.symm.trans hn)
      exact absurd (hdk.symm.trans hnk) (by decide)
    rw [(h.fit hn).leaf hnk, if_neg hyt] at hperm
    exact List.perm_nil.1 hperm

theorem reached (hm : a.Moved x t name a') (h : a.IsTree) (hg : a.MayGo x t name)
    (hk : a'.get? y = some m) : a'.AtOrBelow rootId y := by
  obtain ⟨n, hn⟩ := hm.back hk
  obtain ⟨ys, hy⟩ := h.exists_leads hn
  by_cases hxy : a.AtOrBelow x y
  · obtain ⟨d, hd, -⟩ := hg.directory
    obtain ⟨names, hl⟩ := h.exists_leads hd
    obtain ⟨k, hk⟩ := hg.node
    obtain ⟨xs, hx⟩ := h.exists_leads hk
    obtain ⟨rest, rfl⟩ := h.leads_below hxy hx hy
    exact atOrBelow_of_leads (hm.leads_inside h hg hl hx hxy hy)
  · exact atOrBelow_of_leads (hm.leads_outside hy hxy)

/-- Moving a subtree to where it may go gives a tree. -/
theorem isTree (hm : a.Moved x t name a') (h : a.IsTree) (hg : a.MayGo x t name) :
    a'.IsTree := by
  refine ⟨?_, fun {y m} hk => ?_, hm.held h hg, hm.listed h hg, hm.once h, hm.siblings h hg,
    hm.fit h hg, hm.reached h hg, fun {r} hk => ?_⟩
  · obtain ⟨r, hr, hk, hnone⟩ := h.root
    obtain ⟨m, hm', ha, -⟩ := hm.kept (Ne.symm hg.notRoot) hr
    exact ⟨m, hm', ha.kind.trans hk, ha.parentId.trans hnone⟩
  · rcases hm.origin hk with ⟨rfl, n, hn, ha, -⟩ | ⟨-, n, hn, ha, -⟩
    · have hid : m.id = n.id := ha.id
      exact hid.trans (h.keyed hn)
    · exact ha.id.trans (h.keyed hn)
  · rcases hm.origin hk with ⟨hx, -⟩ | ⟨-, n, hn, ha, -⟩
    · exact absurd hx.symm hg.notRoot
    · exact ha.name.trans (h.unnamed hn)

end Moved

/-! ## Copying a subtree -/

/-- The tree with a copy of the subtree of `x` in the directory `t`, under a name; `σ` names the
copy of each node. -/
structure Grafted (a : Arena) (x t : NodeId) (name : String) (σ : NodeId → NodeId) (a' : Arena) :
    Prop where
  old : ∀ {y n}, a.get? y = some n → ∃ m, a'.get? y = some m ∧ m.Alike n ∧
    m.children = n.children ++ if y = t then [σ x] else []
  top : ∀ {n}, a.get? x = some n → ∃ m, a'.get? (σ x) = some m ∧
    m.Alike { n with id := σ x, name := name, parentId := some t } ∧
    m.children = n.children.map σ
  inner : ∀ {y n}, a.AtOrBelow x y → y ≠ x → a.get? y = some n → ∃ m, a'.get? (σ y) = some m ∧
    m.Alike { n with id := σ y, parentId := n.parentId.map σ } ∧ m.children = n.children.map σ
  back : ∀ {z m}, a'.get? z = some m →
    (∃ n, a.get? z = some n) ∨ ∃ y, a.AtOrBelow x y ∧ z = σ y
  fresh : ∀ {y}, a.AtOrBelow x y → a.get? (σ y) = none
  injective : ∀ {y z}, a.AtOrBelow x y → a.AtOrBelow x z → σ y = σ z → y = z

namespace Grafted

variable {name : String} {σ : NodeId → NodeId}

/-- What the copy of a node is like. The top goes to the directory under its new name; the others
keep their names and go to the copies of their directories. -/
def image (x t : NodeId) (name : String) (σ : NodeId → NodeId) (y : NodeId) (n : Node) : Node :=
  { n with
    id := σ y
    name := if y = x then name else n.name
    parentId := if y = x then some t else n.parentId.map σ }

theorem exists_copy (hc : a.Grafted x t name σ a') (hxy : a.AtOrBelow x y)
    (hn : a.get? y = some n) : ∃ m, a'.get? (σ y) = some m ∧ m.Alike (image x t name σ y n) ∧
      m.children = n.children.map σ := by
  by_cases hyx : y = x
  · subst hyx
    simpa only [image, ↓reduceIte] using hc.top hn
  · simpa only [image, if_neg hyx] using hc.inner hxy hyx hn

theorem origin (hc : a.Grafted x t name σ a') (hx : a.get? x = some n)
    (hm : a'.get? z = some m) :
    (∃ k, a.get? z = some k ∧ m.Alike k ∧
      m.children = k.children ++ if z = t then [σ x] else []) ∨
    ∃ y k, a.AtOrBelow x y ∧ z = σ y ∧ a.get? y = some k ∧ m.Alike (image x t name σ y k) ∧
      m.children = k.children.map σ := by
  rcases hc.back hm with ⟨k, hk⟩ | ⟨y, hxy, rfl⟩
  · obtain ⟨m', hm', hrest⟩ := hc.old hk
    obtain rfl := Option.some.inj (hm.symm.trans hm')
    exact .inl ⟨k, hk, hrest⟩
  · obtain ⟨k, hk⟩ := hxy.exists_node hx
    obtain ⟨m', hm', hrest⟩ := hc.exists_copy hxy hk
    obtain rfl := Option.some.inj (hm.symm.trans hm')
    exact .inr ⟨y, k, hxy, rfl, hk, hrest⟩

/-- A copy lies where the subtree goes, or in the copy of a directory. -/
theorem parentId_copy (h : a.IsTree) (hxy : a.AtOrBelow x y) (hn : a.get? y = some n)
    (ha : m.Alike (image x t name σ y n)) :
    (y = x ∧ m.parentId = some t ∧ m.name = name) ∨
    ∃ q, n.parentId = some q ∧ a.AtOrBelow x q ∧ m.parentId = some (σ q) ∧ m.name = n.name := by
  rw [ha.parentId, ha.name, image]
  by_cases hyx : y = x
  · exact .inl ⟨hyx, if_pos hyx, if_pos hyx⟩
  · obtain ⟨q, hq, hxq⟩ := h.parent_below hxy hyx hn
    exact .inr ⟨q, hq, hxq, (if_neg hyx).trans (by rw [hq]; rfl), if_neg hyx⟩

theorem ne_copy (hc : a.Grafted x t name σ a') (hn : a.get? z = some n)
    (hy : a.AtOrBelow x y) : z ≠ σ y := by
  rintro rfl
  rw [hc.fresh hy] at hn
  cases hn

theorem leads_old (hc : a.Grafted x t name σ a') (hl : a.Leads y names) : a'.Leads y names :=
  hl.mono fun hn => by
    obtain ⟨m, hm, ha, -⟩ := hc.old hn
    exact ⟨m, hm, ha.name, ha.parentId⟩

theorem leads_top (hc : a.Grafted x t name σ a') (hx : a.get? x = some n)
    (hl : a.Leads t names) : a'.Leads (σ x) (names ++ [name]) := by
  obtain ⟨m, hm, ha, -⟩ := hc.top hx
  have hname : m.name = name := ha.name
  have := Leads.child (hc.leads_old hl) hm ha.parentId
  rwa [hname] at this

/-- The way to a copy goes on from the copy of the top as the way to its model does. -/
theorem leads_copy (hc : a.Grafted x t name σ a') (h : a.IsTree) (hx : a.get? x = some n)
    (hl : a.Leads t names) {old rest : List String} (hlx : a.Leads x old)
    (hxy : a.AtOrBelow x y) (hy : a.Leads y (old ++ rest)) :
    a'.Leads (σ y) (names ++ [name] ++ rest) := by
  refine Leads.carried h hlx (hc.leads_top hx hl) (fun hb hne hk => ?_) hxy hy
  obtain ⟨m, hm, ha, -⟩ := hc.inner hb hne hk
  exact ⟨m, hm, ha.name, ha.parentId⟩

theorem held (hc : a.Grafted x t name σ a') (h : a.IsTree) (hx : a.get? x = some n)
    (ht : ∃ d, a.get? t = some d) (hm : a'.get? z = some m) (hne : z ≠ rootId) :
    ∃ p d, m.parentId = some p ∧ a'.get? p = some d ∧ z ∈ d.children := by
  rcases hc.origin hx hm with ⟨k, hk, ha, -⟩ | ⟨y, k, hxy, rfl, hk, ha, -⟩
  · obtain ⟨p, e, hp, he, hmem⟩ := h.held hk hne
    obtain ⟨e', he', -, hch⟩ := hc.old he
    exact ⟨p, e', ha.parentId.trans hp, he', hch ▸ List.mem_append_left _ hmem⟩
  · rcases parentId_copy h hxy hk ha with ⟨rfl, hp, -⟩ | ⟨q, hq, hxq, hp, -⟩
    · obtain ⟨d, hd⟩ := ht
      obtain ⟨d', hd', -, hch⟩ := hc.old hd
      exact ⟨t, d', hp, hd', by rw [hch]; simp⟩
    · obtain ⟨e, he, hmem, -⟩ := h.parent hk hq
      obtain ⟨e', he', -, hch⟩ := hc.exists_copy hxq he
      exact ⟨_, e', hp, he', hch ▸ List.mem_map_of_mem hmem⟩

theorem listed (hc : a.Grafted x t name σ a') (h : a.IsTree) (hx : a.get? x = some n)
    (hm : a'.get? z = some m) (hy : y ∈ m.children) :
    ∃ l, a'.get? y = some l ∧ l.parentId = some z := by
  rcases hc.origin hx hm with ⟨k, hk, -, hch⟩ | ⟨b, k, hxb, rfl, hk, -, hch⟩
  · rw [hch] at hy
    rcases List.mem_append.1 hy with hy | hy
    · obtain ⟨l, hl, hp⟩ := h.listed hk hy
      obtain ⟨l', hl', ha, -⟩ := hc.old hl
      exact ⟨l', hl', ha.parentId.trans hp⟩
    · split at hy
      · next hzt =>
        obtain rfl := List.mem_singleton.1 hy
        obtain ⟨m', hm', ha, -⟩ := hc.top hx
        exact ⟨m', hm', hzt ▸ ha.parentId⟩
      · cases hy
  · rw [hch] at hy
    obtain ⟨c, hcb, rfl⟩ := List.mem_map.1 hy
    obtain ⟨hxc, hcx, l, hl, hp⟩ := h.child_below hxb hk hcb
    obtain ⟨l', hl', ha, -⟩ := hc.inner hxc hcx hl
    exact ⟨l', hl', by rw [ha.parentId, hp]; rfl⟩

theorem once (hc : a.Grafted x t name σ a') (h : a.IsTree) (hx : a.get? x = some n)
    (hm : a'.get? z = some m) : m.children.Nodup := by
  rcases hc.origin hx hm with ⟨k, hk, -, hch⟩ | ⟨y, k, hxy, rfl, hk, -, hch⟩
  · rw [hch]
    refine (h.once hk).append (by split <;> simp) fun c hmem hcx => ?_
    split at hcx
    · obtain rfl := List.mem_singleton.1 hcx
      obtain ⟨l, hl, -⟩ := h.listed hk hmem
      exact hc.ne_copy hl (.refl a x) rfl
    · cases hcx
  · rw [hch]
    refine (h.once hk).map_on fun b hb c hmem he => ?_
    exact hc.injective (h.child_below hxy hk hb).1 (h.child_below hxy hk hmem).1 he

/-- No old node has the directory and the name of a copy. -/
theorem name_ne_copy (hc : a.Grafted x t name σ a') (h : a.IsTree)
    (hfree : ∀ {c m}, a.get? c = some m → m.parentId = some t → m.name ≠ name)
    (hk : a.get? z = some k) (hl : l.Alike k) (hxy : a.AtOrBelow x y) (hn : a.get? y = some n)
    (hm : m.Alike (image x t name σ y n)) (hp : l.parentId = m.parentId) : l.name ≠ m.name := by
  rcases parentId_copy h hxy hn hm with ⟨-, hmp, hname⟩ | ⟨q, -, hxq, hmp, -⟩
  · rw [hl.name, hname]
    exact hfree hk (hl.parentId.symm.trans (hp.trans hmp))
  · obtain ⟨e, he, -⟩ := h.parent hk (hl.parentId.symm.trans (hp.trans hmp))
    exact absurd rfl (hc.ne_copy he hxq)

/-- Copies in one directory and of one name are copies of one node. -/
theorem copy_siblings (hc : a.Grafted x t name σ a') (h : a.IsTree)
    (ht : ∃ d, a.get? t = some d) (hxy : a.AtOrBelow x y) (hn : a.get? y = some n)
    (hm : m.Alike (image x t name σ y n)) (hxz : a.AtOrBelow x z) (hk : a.get? z = some k)
    (hl : l.Alike (image x t name σ z k)) (hp : m.parentId = l.parentId)
    (hname : m.name = l.name) : y = z := by
  obtain ⟨d, hd⟩ := ht
  rcases parentId_copy h hxy hn hm with ⟨rfl, hmp, -⟩ | ⟨q, hq, hxq, hmp, hmn⟩
  · rcases parentId_copy h hxz hk hl with ⟨rfl, -⟩ | ⟨r, -, hxr, hlp, -⟩
    · rfl
    · exact absurd (Option.some.inj (hmp.symm.trans (hp.trans hlp))) (hc.ne_copy hd hxr)
  · rcases parentId_copy h hxz hk hl with ⟨rfl, hlp, -⟩ | ⟨r, hr, hxr, hlp, hln⟩
    · exact absurd (Option.some.inj (hlp.symm.trans (hp.symm.trans hmp))) (hc.ne_copy hd hxq)
    · have hqr : q = r := hc.injective hxq hxr (Option.some.inj (hmp.symm.trans (hp.trans hlp)))
      exact h.siblings hn hk (by rw [hq, hr, hqr]) (hmn.symm.trans (hname.trans hln))

theorem fit (hc : a.Grafted x t name σ a') (h : a.IsTree) (hx : a.get? x = some n)
    (ht : ∃ d, a.get? t = some d ∧ d.kind = .directory) (hname : Path.isName name = true)
    (hm : a'.get? z = some m) : m.Fit := by
  rcases hc.origin hx hm with ⟨k, hk, ha, hch⟩ | ⟨y, k, hxy, rfl, hk, ha, hch⟩
  · refine ha.fit (h.fit hk) fun hkind => ?_
    have hkk : k.kind = .file := ha.kind.symm.trans hkind
    have hzt : z ≠ t := by
      rintro rfl
      obtain ⟨d, hd, hdk⟩ := ht
      obtain rfl := Option.some.inj (hd.symm.trans hk)
      exact absurd (hdk.symm.trans hkk) (by decide)
    rw [hch, (h.fit hk).leaf hkk, if_neg hzt, List.append_nil]
  · have hf := h.fit hk
    have hnamed : Path.isName (if y = x then name else k.name) = true := by
      split
      · exact hname
      · next hyx =>
        refine hf.named ?_
        rw [h.keyed hk]
        rintro rfl
        exact hyx (h.eq_of_below_root hxy).symm
    have himage : (image x t name σ y k).Fit := ⟨fun _ => hnamed, hf.leaf, hf.sized, hf.bare⟩
    refine ha.fit himage fun hkind => ?_
    rw [hch, hf.leaf (ha.kind.symm.trans hkind), List.map_nil]

theorem reached (hc : a.Grafted x t name σ a') (h : a.IsTree) (hx : a.get? x = some n)
    (ht : ∃ d, a.get? t = some d) (hm : a'.get? z = some m) : a'.AtOrBelow rootId z := by
  rcases hc.origin hx hm with ⟨k, hk, -⟩ | ⟨y, k, hxy, rfl, hk, -⟩
  · obtain ⟨ks, hl⟩ := h.exists_leads hk
    exact atOrBelow_of_leads (hc.leads_old hl)
  · obtain ⟨d, hd⟩ := ht
    obtain ⟨names, hl⟩ := h.exists_leads hd
    obtain ⟨xs, hxs⟩ := h.exists_leads hx
    obtain ⟨ks, hks⟩ := h.exists_leads hk
    obtain ⟨rest, rfl⟩ := h.leads_below hxy hxs hks
    exact atOrBelow_of_leads (hc.leads_copy h hx hl hxs hxy hks)

/-- A copied subtree fits where the name is free. -/
theorem isTree (hc : a.Grafted x t name σ a') (h : a.IsTree) (hx : a.get? x = some n)
    (ht : ∃ d, a.get? t = some d ∧ d.kind = .directory) (hname : Path.isName name = true)
    (hfree : ∀ {c m}, a.get? c = some m → m.parentId = some t → m.name ≠ name) :
    a'.IsTree := by
  have hd : ∃ d, a.get? t = some d := ht.imp fun _ hd => hd.1
  refine ⟨?_, fun {z m} hm => ?_, hc.held h hx hd, hc.listed h hx, hc.once h hx,
    fun {z w m l} hm hl hp hn => ?_, hc.fit h hx ht hname, hc.reached h hx hd, fun {r} hm => ?_⟩
  · obtain ⟨r, hr, hk, hnone⟩ := h.root
    obtain ⟨m, hm, ha, -⟩ := hc.old hr
    exact ⟨m, hm, ha.kind.trans hk, ha.parentId.trans hnone⟩
  · rcases hc.origin hx hm with ⟨k, hk, ha, -⟩ | ⟨y, k, -, rfl, -, ha, -⟩
    · exact ha.id.trans (h.keyed hk)
    · exact ha.id
  · rcases hc.origin hx hm with ⟨k, hk, ha, -⟩ | ⟨y, k, hxy, rfl, hk, ha, -⟩
    · rcases hc.origin hx hl with ⟨j, hj, hb, -⟩ | ⟨b, j, hxb, rfl, hj, hb, -⟩
      · exact h.siblings hk hj (ha.parentId.symm.trans (hp.trans hb.parentId))
          (ha.name.symm.trans (hn.trans hb.name))
      · exact absurd hn (hc.name_ne_copy h hfree hk ha hxb hj hb hp)
    · rcases hc.origin hx hl with ⟨j, hj, hb, -⟩ | ⟨b, j, hxb, rfl, hj, hb, -⟩
      · exact absurd hn.symm (hc.name_ne_copy h hfree hj hb hxy hk ha hp.symm)
      · exact congrArg σ (hc.copy_siblings h hd hxy hk ha hxb hj hb hp hn)
  · obtain ⟨r₀, hr₀, -⟩ := h.root
    obtain ⟨m, hm', ha, -⟩ := hc.old hr₀
    rw [Option.some.inj (hm.symm.trans hm'), ha.name, h.unnamed hr₀]

end Grafted

end Workbench.Arena
