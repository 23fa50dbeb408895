import Workbench.Proofs.Workspace.Rebuilt

/-!
# What a change does to a workspace

`Effect` tells a change without naming ids: where the node at each place goes (`Course`), and what
the tree shows afterwards. Everything that has no place any more loses its tab, and what is new has
an id that was never in use. An edit of a free workspace and the rebuilding of a bound one are both
put into this form; two changes of one effect can then be compared however they are carried out.
-/

namespace Workbench

/-- Where the node at a place goes, if it stays at all. -/
abbrev Course := List String → Option (List String)

namespace Course

/-- Everything stays where it is. -/
def stay : Course := some

/-- What is at or below a place goes away. -/
def without (p : List String) : Course := fun q => if p <+: q then none else some q

/-- What is at or below the first place goes to the second. -/
def along (p p' : List String) : Course := fun q =>
  if p <+: q then some (p' ++ q.drop p.length) else some q

variable {p p' q : List String}

theorem without_eq_some_iff : without p q = some p' ↔ ¬ p <+: q ∧ p' = q := by
  unfold without
  split
  · next h => simp [h]
  · next h => simp [h, eq_comm]

theorem without_eq_none_iff : without p q = none ↔ p <+: q := by
  unfold without
  split
  · next h => simp [h]
  · next h => simp [h]

theorem along_append (p p' r : List String) : along p p' (p ++ r) = some (p' ++ r) := by
  rw [along, if_pos (List.prefix_append p r), List.drop_left]

theorem along_of_not_prefix (p' : List String) (h : ¬ p <+: q) : along p p' q = some q := if_neg h

end Course

def NodeKind.shown (kind : NodeKind) (content : String) : Option String :=
  match kind with
  | .file => some content
  | .directory => none

namespace Workspace

/-- A change that takes nodes along a course and leads to a shape. -/
structure Effect (τ : Course) (S : Shape) (s s' : Workspace) : Prop where
  home : s'.home = s.home
  boundRoot : s'.boundRoot = s.boundRoot
  sound : s'.Sound
  shows : s'.arena.Shows = S
  goes : ∀ {x q q'}, s.arena.Leads x q → τ q = some q' → s'.arena.Leads x q'
  gone : ∀ {x q}, s.arena.Leads x q → τ q = none → s'.arena.get? x = none
  tabs : ∃ closed, s'.tabs = (s.tabs.closeMany closed).2 ∧
    ∀ x ∈ s.tabs.openIds, x ∈ closed ↔ s'.arena.get? x = none
  fresh : ∀ {x n}, s'.arena.get? x = some n → s.arena.get? x = none →
    ∃ j, s.drawn < j ∧ x = drawnNodeId j
  drawn_le : s.drawn ≤ s'.drawn

variable {s s' : Workspace} {τ : Course} {S : Shape} {x id : NodeId} {n d : Node}
  {p : Placement} {now : Timestamp} {q place : List String} {F : List DiskEntry}
  {carried : Carried}

namespace Effect

/-- The course of a node says exactly where it is afterwards. -/
theorem leads_iff (h : Effect τ S s s') (hx : s.arena.Leads x q) {q' : List String} :
    s'.arena.Leads x q' ↔ τ q = some q' := by
  refine ⟨fun hl => ?_, h.goes hx⟩
  cases hτ : τ q with
  | none =>
    obtain ⟨m, hm⟩ := h.sound.tree.mem_of_leads hl
    rw [h.gone hx hτ] at hm
    cases hm
  | some q'' => rw [h.sound.tree.leads_unique hl (h.goes hx hτ)]

/-- A change of the tree under which every node stays somewhere. -/
theorem replant (h : s.Sound) {a : Arena} {drawn : Nat}
    (hs : Sound { s with arena := a, drawn := drawn }) (hshows : a.Shows = S)
    (hgoes : ∀ {x q}, s.arena.Leads x q → ∃ q', τ q = some q' ∧ a.Leads x q')
    (hfresh : ∀ {x n}, a.get? x = some n → s.arena.get? x = none →
      ∃ j, s.drawn < j ∧ x = drawnNodeId j)
    (hle : s.drawn ≤ drawn) : Effect τ S s { s with arena := a, drawn := drawn } where
  home := rfl
  boundRoot := rfl
  sound := hs
  shows := hshows
  goes hx hτ := by
    obtain ⟨q', hq, hl⟩ := hgoes hx
    obtain rfl := Option.some.inj (hτ.symm.trans hq)
    exact hl
  gone hx hτ := by
    obtain ⟨q', hq, -⟩ := hgoes hx
    rw [hτ] at hq
    cases hq
  tabs := by
    refine ⟨[], (Tabs.closeMany_of_disjoint fun _ _ => List.not_mem_nil).symm, fun x hx => ?_⟩
    refine ⟨fun hn => (nomatch hn), fun hn => ?_⟩
    obtain ⟨n, hxn, -⟩ := h.files hx
    obtain ⟨q, hl⟩ := h.tree.exists_leads hxn
    obtain ⟨q', -, hl'⟩ := hgoes hl
    obtain ⟨m, hm⟩ := hs.tree.mem_of_leads hl'
    have hm : a.get? x = some m := hm
    have hn : a.get? x = none := hn
    rw [hn] at hm
    cases hm
  fresh := hfresh
  drawn_le := hle

/-! ## Edits -/

/-- Nodes that differ in time and marks only. -/
theorem modify (h : s.Sound) {f : Node → Node}
    (hf : ∀ n, (f n).Alike n ∧ (f n).children = n.children) :
    Effect .stay s.arena.Shows s { s with arena := s.arena.modify id f } := by
  have hlead : ∀ {x q}, s.arena.Leads x q → Arena.Leads (s.arena.modify id f) x q := fun hl =>
    hl.mono fun hn => by
      obtain ⟨m, hm, ha⟩ := Arena.exists_alike_modify (fun n => (hf n).1) hn id
      exact ⟨m, hm, ha.name, ha.parentId⟩
  have hs : Sound { s with arena := s.arena.modify id f } := h.modify hf
  refine replant h hs (hs.tree.shows_eq (fun {y m} hm => ?_) ?_) (fun hl => ⟨_, rfl, hlead hl⟩)
    (fun {x n} hn hnone => ?_) (Nat.le_refl _)
  · obtain ⟨n, hn, ha⟩ := Arena.alike_of_modify (fun n => (hf n).1) hm
    obtain ⟨q, hl⟩ := h.tree.exists_leads hn
    exact ⟨q, hlead hl, y, n, hl, hn, ha.shown.symm⟩
  · rintro q c ⟨y, n, hl, hn, rfl⟩
    obtain ⟨m, hm, ha⟩ := Arena.exists_alike_modify (fun n => (hf n).1) hn id
    exact ⟨y, m, hlead hl, hm, ha.shown⟩
  · obtain ⟨m, hm, -⟩ := Arena.alike_of_modify (fun n => (hf n).1) hn
    rw [hnone] at hm
    cases hm

theorem touched (h : s.Sound) (id : NodeId) (now : Timestamp) :
    Effect .stay s.arena.Shows s (s.touched id now) :=
  modify h fun _ => ⟨⟨rfl, rfl, rfl, rfl, rfl, rfl⟩, rfl⟩

theorem marked (h : s.Sound) (id : NodeId) (changes : NodeUpdate) :
    Effect .stay s.arena.Shows s (s.marked id changes) :=
  modify h fun _ => ⟨⟨rfl, rfl, rfl, rfl, rfl, rfl⟩, rfl⟩

theorem refilled (h : s.Sound) (hl : s.arena.Leads id q) (hn : s.arena.get? id = some n)
    (hk : n.kind = .file) (content : String) (now : Timestamp) :
    Effect .stay (s.arena.Shows.refilled q content) s (s.refilled id content now) := by
  have hs := h.refilled hn hk content now
  have hget : ∀ y, (s.refilled id content now).arena.get? y =
      if y = id then some (n.withContent content now) else s.arena.get? y := fun y => by
    simp only [Workspace.refilled, Table.get?_modify, hn, Option.map_some]
  have hlead : ∀ {x q}, s.arena.Leads x q → (s.refilled id content now).arena.Leads x q :=
    fun hl => hl.mono fun {y m} hm => by
      rw [hget]
      split
      · next hy =>
        subst hy
        obtain rfl := Option.some.inj (hn.symm.trans hm)
        exact ⟨_, rfl, rfl, rfl⟩
      · exact ⟨m, hm, rfl, rfl⟩
  have hshown : (n.withContent content now).shown = some content := by
    have hf : (n.withContent content now).isFile = true := Node.isFile_iff.2 hk
    rw [Node.shown, if_pos hf]
    rfl
  refine replant h hs (hs.tree.shows_eq (fun {y m} hm => ?_) ?_) (fun hl => ⟨_, rfl, hlead hl⟩)
    (fun {x m} hm hnone => ?_) (Nat.le_refl _)
  · rw [hget] at hm
    split at hm
    · next hy =>
      subst hy
      obtain rfl := Option.some.inj hm
      exact ⟨q, hlead hl, .inr ⟨rfl, hshown⟩⟩
    · next hy =>
      obtain ⟨q', hl'⟩ := h.tree.exists_leads hm
      refine ⟨q', hlead hl', .inl ⟨⟨y, m, hl', hm, rfl⟩, ?_⟩⟩
      rintro rfl
      exact hy (h.tree.leads_injective hl' hl)
  · rintro q' c (⟨⟨y, m, hl', hm, rfl⟩, hne⟩ | ⟨rfl, rfl⟩)
    · refine ⟨y, m, hlead hl', ?_, rfl⟩
      rw [hget, if_neg]
      · exact hm
      · rintro rfl
        exact hne (h.tree.leads_unique hl' hl)
    · exact ⟨id, _, hlead hl, by rw [hget, if_pos rfl], hshown⟩
  · have hm : (s.refilled id content now).arena.get? x = some m := hm
    rw [hget] at hm
    split at hm
    · next hy =>
      rw [hy, hn] at hnone
      cases hnone
    · rw [hnone] at hm
      cases hm

theorem added (h : s.Sound) (hl : s.arena.Leads id q) (hr : s.arena.Room id n)
    (hid : n.id = drawnNodeId (s.drawn + 1)) (now : Timestamp) :
    Effect .stay (s.arena.Shows.grown (q ++ [n.name]) n.shown) s (s.added n id now) := by
  obtain ⟨hs, hg⟩ := h.added hr hid now
  have hone : ∀ {y m}, (s.added n id now).arena.get? y = some m →
      y = n.id ∨ ∃ m₀, s.arena.get? y = some m₀ := by
    intro y m hm
    obtain ⟨m', hm', -⟩ := Arena.alike_of_modify (f := fun k => { k with modifiedAt := now })
      (fun _ => ⟨rfl, rfl, rfl, rfl, rfl, rfl⟩) hm
    rcases hr.get?_cases hm' with ⟨hy, -⟩ | ⟨m₀, hm₀, -⟩
    · exact .inl hy
    · exact .inr ⟨m₀, hm₀⟩
  have hnew : ∃ m, (s.added n id now).arena.get? n.id = some m ∧ m.Alike n :=
    Arena.exists_alike_modify (f := fun k => { k with modifiedAt := now })
      (fun _ => ⟨rfl, rfl, rfl, rfl, rfl, rfl⟩) hr.get?_new id
  obtain ⟨m, hm, ha⟩ := hnew
  have hx : (s.added n id now).arena.Leads n.id (q ++ [n.name]) := by
    have := Arena.Leads.child (hg.leads hl) hm (ha.parentId.trans hr.parentId)
    rwa [ha.name] at this
  have hshows := hg.shows_eq h.tree hx hm hone
  rw [ha.shown] at hshows
  refine replant h hs hshows (fun hl => ⟨_, rfl, hg.leads hl⟩) (fun {x k} hk hnone => ?_)
    (Nat.le_succ _)
  rcases hone hk with rfl | ⟨m₀, hm₀⟩
  · exact ⟨_, Nat.lt_succ_self _, hid⟩
  · rw [hnone] at hm₀
    cases hm₀

/-- Adding a node in memory, and the node that is added. -/
theorem created {name : String} (hs : s.Sound) (hc : s.checkCreate name d.id = .ok d)
    (hl : s.arena.Leads d.id q) (kind : NodeKind) (content : String) (now : Timestamp) :
    Effect .stay (Shape.grown s.arena.Shows (q ++ [name]) (kind.shown content)) s
        (s.added (s.drawnNode kind name d.id content now) d.id now) ∧
      (s.added (s.drawnNode kind name d.id content now) d.id now).arena.get?
          (s.drawnNode kind name d.id content now).id =
        some (s.drawnNode kind name d.id content now) ∧
      (s.added (s.drawnNode kind name d.id content now) d.id now).arena.Leads
        (s.drawnNode kind name d.id content now).id (q ++ [name]) := by
  obtain ⟨hname, hd, hk, hf⟩ := checkCreate_eq_ok_iff.1 hc
  have hroom := hs.room hd hk hname hf kind content now
  have hid : (s.drawnNode kind name d.id content now).id = drawnNodeId (s.drawn + 1) := by
    cases kind <;> rfl
  have hshown : (s.drawnNode kind name d.id content now).shown = kind.shown content := by
    cases kind <;> rfl
  have hnamed : (s.drawnNode kind name d.id content now).name = name := by cases kind <;> rfl
  have heff := Effect.added hs hl hroom hid now
  rw [hshown, hnamed] at heff
  have hnew : (s.added _ d.id now).arena.get? _ = some _ :=
    (Table.get?_modify_of_ne hroom.ne.symm _).trans hroom.get?_new
  refine ⟨heff, hnew, ?_⟩
  have := Arena.Leads.child (heff.goes hl rfl) hnew hroom.parentId
  rwa [hnamed] at this

theorem removed (h : s.Sound) (hl : s.arena.Leads id q) (hn : s.arena.get? id = some n)
    {parent : NodeId} (hp : n.parentId = some parent) (now : Timestamp) :
    Effect (.without q) (s.arena.Shows.pruned q) s (s.removed n parent now) := by
  have hid := h.tree.keyed hn
  subst hid
  have hne : n.id ≠ rootId := by
    intro he
    rw [(h.tree.parentId_eq_none_iff hn).2 he] at hp
    cases hp
  have hpr : s.arena.Pruned n.id (s.removed n parent now).arena :=
    Arena.pruned_erase h.tree hn hp now
  refine ⟨rfl, rfl, h.removed hn hp now, hpr.shows_eq h.tree hne hl, fun {x q₁ q₂} hx hτ => ?_,
    fun {x q₁} hx hτ => ?_, ⟨s.arena.subtreeIds n.id, rfl, fun x hx => ?_⟩,
    fun {x m} hm hnone => ?_, Nat.le_refl _⟩
  · obtain ⟨hnot, rfl⟩ := Course.without_eq_some_iff.1 hτ
    exact hpr.leads hx fun hb => hnot ((h.tree.atOrBelow_iff hl hx).1 hb)
  · exact hpr.gone ((h.tree.atOrBelow_iff hl hx).2 (Course.without_eq_none_iff.1 hτ))
  · rw [h.tree.mem_subtreeIds_iff hn]
    refine ⟨hpr.gone, fun hnone => ?_⟩
    by_contra hb
    obtain ⟨k, hk, -⟩ := h.files hx
    obtain ⟨m, hm, -⟩ := hpr.kept hb hk
    rw [hnone] at hm
    cases hm
  · obtain ⟨k, hk⟩ := hpr.back hm
    rw [hnone] at hk
    cases hk

/-- Moving a subtree, or giving its top another name. -/
theorem moved (h : s.Sound) {x t : NodeId} {name : String} {a : Arena} {qx qt : List String}
    (hm : s.arena.Moved x t name a) (hg : s.arena.MayGo x t name) (hx : s.arena.Leads x qx)
    (ht : s.arena.Leads t qt) : Effect (.along qx (qt ++ [name]))
      (s.arena.Shows.shifted qx (qt ++ [name])) s { s with arena := a } := by
  refine replant h (h.replant_moved hm hg) (hm.shows_eq h.tree hg hx ht) (fun {y q} hy => ?_)
    (fun {y m} hk hnone => ?_) (Nat.le_refl _)
  · by_cases hb : s.arena.AtOrBelow x y
    · obtain ⟨r, rfl⟩ := h.tree.leads_below hb hx hy
      exact ⟨_, Course.along_append _ _ r, hm.leads_inside h.tree hg ht hx hb hy⟩
    · exact ⟨q, Course.along_of_not_prefix _ fun hpre => hb ((h.tree.atOrBelow_iff hx hy).2 hpre),
        hm.leads_outside hy hb⟩
  · obtain ⟨k, hk⟩ := hm.back hk
    rw [hnone] at hk
    cases hk

theorem copied (h : s.Sound) {qx qt : List String} (hx : s.arena.Leads p.node.id qx)
    (ht : s.arena.Leads p.target.id qt) (hn : s.arena.get? p.node.id = some n)
    (hd : s.arena.get? p.target.id = some d) (hk : d.kind = .directory)
    (hname : Path.isName p.name = true)
    (hfree : ∀ {c m}, s.arena.get? c = some m → m.parentId = some p.target.id → m.name ≠ p.name)
    (now : Timestamp) : Effect .stay (s.arena.Shows.doubled qx (qt ++ [p.name])) s
      (s.copied p now) := by
  have hc := grafted_copied h.tree h.unused hn ⟨d, hd⟩ now
  have hs := h.copied hn hd hk hname hfree now
  refine replant h hs (hc.shows_eq h.tree hs.tree hn hx ht)
    (fun hl => ⟨_, rfl, hc.leads_old hl⟩) (fun {y m} hm hnone => ?_) (Nat.le_add_right _ _)
  rcases hc.back hm with ⟨k, hk⟩ | ⟨z, -, rfl⟩
  · rw [hnone] at hk
    cases hk
  · exact ⟨_, by omega, rfl⟩

end Effect

end Workspace

end Workbench
