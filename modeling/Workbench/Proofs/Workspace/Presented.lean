import Workbench.Proofs.Workspace.Carried

/-!
# A rebuilt tree and its listing

A rebuilt tree is the listing with ids: the children of the root stand for the entries of the
listing, one for one and in their order, and so on below (`Arena.Presents`). Which id stands at
which place is said by `Resynced`: the one that lived at the place, if it is of the kind of the
entry, or else one that was never in use.

The order comes out of the loading. While entries are added to a directory, every other list of
children stays as it is, and so does what stands below the entries that are there.
-/

namespace Workbench

/-- The entries in an entry. -/
def DiskEntry.inside : DiskEntry → List DiskEntry
  | file .. => []
  | directory _ _ children => children

namespace Arena

/-- Children of a node that stand for entries, in their order, with what is below them. -/
inductive Presents (a : Arena) : NodeId → List NodeId → List DiskEntry → Prop
  | nil {p : NodeId} : Presents a p [] []
  | cons {p id : NodeId} {n : Node} {e : DiskEntry} {ids : List NodeId} {F : List DiskEntry}
      (hn : a.get? id = some n) (hp : n.parentId = some p) (hname : n.name = e.name)
      (hshown : n.shown = e.shown) (below : Presents a id n.children e.inside)
      (rest : Presents a p ids F) : Presents a p (id :: ids) (e :: F)

variable {a b : Arena} {p x y : NodeId} {n m : Node} {ids ids' : List NodeId}
  {F F' : List DiskEntry}

namespace Presents

theorem append (h : Presents a p ids F) (h' : Presents a p ids' F') :
    Presents a p (ids ++ ids') (F ++ F') := by
  induction h with
  | nil => exact h'
  | cons hn hp hname hshown below _ _ ih => exact .cons hn hp hname hshown below (ih h')

theorem holds (h : Presents a p ids F) (hx : x ∈ ids) : a.Holds p x := by
  induction h with
  | nil => cases hx
  | cons hn hp _ _ _ _ _ ih =>
    rcases List.mem_cons.1 hx with rfl | hx
    · exact ⟨_, hn, hp⟩
    · exact ih hx

/-- What stands for entries goes on to do so where nothing at or below it changes but times and
marks. -/
theorem keep (h : Presents a p ids F) (ha : a.IsTree)
    (hk : ∀ {x y n}, x ∈ ids → a.AtOrBelow x y → a.get? y = some n →
      ∃ m, b.get? y = some m ∧ m.Alike n ∧ m.children = n.children) :
    Presents b p ids F := by
  induction h with
  | nil => exact .nil
  | @cons p id n e ids F hn hp hname hshown below rest ihb ihr =>
    obtain ⟨m, hm, halike, hc⟩ := hk List.mem_cons_self (.refl a id) hn
    refine .cons hm (halike.parentId.trans hp) (halike.name.trans hname)
      (halike.shown.trans hshown) ?_ (ihr fun hx => hk (List.mem_cons_of_mem _ hx))
    rw [hc]
    exact ihb fun hx hxy => hk List.mem_cons_self (.head ((ha.mem_children_iff hn).1 hx) hxy)

end Presents

end Arena

namespace Workspace

/-! ## Loading in order -/

/-- A directory to which nodes have been added at the end, which stand for entries. -/
structure Appended (p : NodeId) (ids : List NodeId) (F : List DiskEntry) (a b : Arena) : Prop where
  kept : ∀ {y n}, a.get? y = some n → ∃ m, b.get? y = some m ∧ m.Alike n ∧
    m.children = n.children ++ if y = p then ids else []
  presents : b.Presents p ids F

variable {k : Known} {p x : NodeId} {above : List String} {F G : List DiskEntry} {e : DiskEntry}
  {l l' : Loading} {a b c : Arena} {ids ids' : List NodeId}

namespace Appended

theorem refl (p : NodeId) (a : Arena) : Appended p [] [] a a where
  kept {y n} hn := ⟨n, hn, .refl n, by split <;> simp⟩
  presents := .nil

theorem trans (hb : b.IsTree) (h : Appended p ids F a b) (h' : Appended p ids' G b c) :
    Appended p (ids ++ ids') (F ++ G) a c where
  kept {y n} hn := by
    obtain ⟨m, hm, hmn, hc⟩ := h.kept hn
    obtain ⟨m', hm', hmm, hc'⟩ := h'.kept hm
    refine ⟨m', hm', hmm.trans hmn, ?_⟩
    rw [hc', hc]
    split <;> simp
  presents := by
    refine (h.presents.keep hb fun {x y n} hx hxy hn => ?_).append h'.presents
    -- nothing below the entries that are there is the directory itself
    have hyp : y ≠ p := by
      rintro rfl
      exact hb.not_below_parent (h.presents.holds hx) hxy
    obtain ⟨m, hm, hmn, hc⟩ := h'.kept hn
    rw [if_neg hyp, List.append_nil] at hc
    exact ⟨m, hm, hmn, hc⟩

end Appended

/-- Adding an entry stores a node for it, without children, at the end of its directory. -/
theorem Ready.add_eq (h : Ready k p above (e :: F) l) : ∃ n, l.arena.Room p n ∧
    n.id = (l.add k p (above ++ [e.name]) e).1 ∧ n.name = e.name ∧ n.shown = e.shown ∧
      (l.add k p (above ++ [e.name]) e).2.arena = l.arena.attach p n := by
  rcases hi : l.identity k (above ++ [e.name]) e.kind with ⟨id, marks, drawn⟩
  have hr := h.room (h.identity hi).1 marks
  refine ⟨entryNode id p marks e, hr, ?_, entryNode_name .., entryNode_shown .., ?_⟩
  · rw [entryNode_id]
    simp only [Loading.add, hi]
  · simp only [Loading.add, hi]

/-- An entry that has been added, and what is loaded below it, stand at the end of the directory. -/
theorem Ready.appended (h : Ready k p above (e :: F) l)
    (hi : Appended (l.add k p (above ++ [e.name]) e).1 ids e.inside
      (l.add k p (above ++ [e.name]) e).2.arena b) :
    Appended p [(l.add k p (above ++ [e.name]) e).1] [e] l.arena b := by
  obtain ⟨n, hr, hid, hname, hshown, harena⟩ := h.add_eq
  rw [harena, ← hid] at hi
  rw [← hid]
  refine ⟨fun {y m} hm => ?_, ?_⟩
  · obtain ⟨m', hm', rfl⟩ := hr.exists_of_get? hm
    obtain ⟨m'', hm'', ha, hc⟩ := hi.kept hm'
    refine ⟨m'', hm'', ⟨ha.id, ha.name, ha.kind, ha.content, ha.size, ha.parentId⟩, ?_⟩
    rw [hc, if_neg (hr.ne_new hm), List.append_nil]
    split <;> simp
  · obtain ⟨m, hm, ha, hc⟩ := hi.kept hr.get?_new
    refine .cons hm (ha.parentId.trans hr.parentId) (ha.name.trans hname)
      (ha.shown.trans hshown) ?_ .nil
    rw [hc, hr.children, if_pos rfl, List.nil_append]
    exact hi.presents

mutual

theorem appended_loadEntry {k : Known} {p : NodeId} {above : List String} {l : Loading} :
    ∀ {e : DiskEntry}, Ready k p above [e] l →
      ∃ ids, Appended p ids [e] l.arena (loadEntry k p above e l).arena
  | .file name content size t, h => by
    rw [loadEntry]
    exact ⟨_, h.appended (.refl _ _)⟩
  | .directory name t children, h => by
    rw [loadEntry]
    obtain ⟨ids, hi⟩ := appended_loadEntries h.inside
    exact ⟨_, h.appended hi⟩

/-- Loading entries puts nodes for them at the end of the directory, in order. -/
theorem appended_loadEntries {k : Known} {p : NodeId} {above : List String} {l : Loading} :
    ∀ {F : List DiskEntry}, Ready k p above F l →
      ∃ ids, Appended p ids F l.arena (loadEntries k p above F l).arena
  | [], h => by
    rw [loadEntries]
    exact ⟨[], .refl p _⟩
  | e :: F, h => by
    have he := h.mono (List.singleton_sublist.2 List.mem_cons_self)
    have hf := filled_loadEntry he
    obtain ⟨ids, hi⟩ := appended_loadEntry he
    obtain ⟨ids', hi'⟩ := appended_loadEntries (h.rest hf)
    rw [loadEntries]
    exact ⟨ids ++ ids', hi.trans hf.grows.isTree hi'⟩

end

/-! ## What a rebuilding makes of a workspace -/

variable {s s' : Workspace} {carried : Carried} {now : Timestamp} {n : Node}
  {lived : List String → NodeId → Prop} {q old place : List String} {kind : NodeKind}

/-- A workspace rebuilt from a listing, where `lived` says which id belongs to which place. -/
structure Resynced (s : Workspace) (F : List DiskEntry) (lived : List String → NodeId → Prop)
    (s' : Workspace) : Prop where
  /-- The tree is the listing, in its order. -/
  presents : ∃ r, s'.node? rootId = some r ∧ s'.arena.Presents rootId r.children F
  /-- There are no other nodes, and none is met twice. -/
  reached : ∀ {id n}, s'.node? id = some n → Relation.ReflTransGen s'.arena.Holds rootId id
  distinct : ((s'.walk rootId).map Node.id).Nodup
  /-- An entry has the id that belongs to its place, when that is the id of a node of its kind, and
  a new one otherwise. -/
  ids : ∀ {q c}, Lists F q c → ∃ id m, s'.arena.Leads id q ∧ s'.node? id = some m ∧ m.shown = c ∧
    ((lived q id ∧ ∃ n, s.node? id = some n ∧ n.kind = m.kind) ∨
      (∀ {x n}, lived q x → s.node? x = some n → n.kind ≠ m.kind) ∧
        s.node? id = none ∧ ∃ j, s.drawn < j ∧ id = drawnNodeId j)
  /-- The tabs of the nodes that are still there are open, in their order. -/
  tabs : s'.tabs.openIds = s.tabs.openIds.filter fun id => (s'.node? id).isSome

/-- The ids belong to the places where their nodes are. -/
def livedAt (s : Workspace) (q : List String) (x : NodeId) : Prop := s.arena.Leads x q

/-- The node that is known for a place and a kind is the one whose id belongs there. -/
theorem known_node?_eq_some_iff (h : s.Sound)
    (hl : ∀ {q x}, (q, x) ∈ (s.known carried).idAt ↔ lived q x)
    (hu : ∀ {q x y}, lived q x → lived q y → x = y) :
    (s.known carried).node? q kind = some n ↔
      lived q n.id ∧ s.arena.get? n.id = some n ∧ n.kind = kind := by
  constructor
  · intro hn
    obtain ⟨hmem, hget, hkind⟩ := Known.node?_eq_some h.tree.keyed hn
    exact ⟨hl.1 hmem, hget, hkind⟩
  · rintro ⟨hlived, hget, rfl⟩
    have hat : lastAt? q (s.known carried).idAt = some n.id :=
      lastAt?_of_unique (hl.2 hlived) fun y hy => hu (hl.1 hy) hlived
    have hget : (s.known carried).arena.get? n.id = some n := hget
    rw [Known.node?, hat, Option.bind_some, hget, Option.filter_some, beq_self_eq_true]
    rfl

/-- What is rebuilt with ids that are known for one place each. -/
theorem Sound.resynced (h : s.Sound) (hc : carried.Fit s) (hF : ProperListing F) (now : Timestamp)
    (hl : ∀ {q x}, (q, x) ∈ (s.known carried).idAt ↔ lived q x)
    (hu : ∀ {q x y}, lived q x → lived q y → x = y) :
    s.Resynced F lived (s.rebuilt F carried now) := by
  have hf := h.filled hc hF now
  have ht : (s.rebuilt F carried now).arena.IsTree := hf.grows.isTree
  obtain ⟨r, hr, -⟩ := ht.root
  refine ⟨?_, ht.reached, ?_, fun {q c} hq => ?_, ?_⟩
  · obtain ⟨ids, hi⟩ :=
      appended_loadEntries (ready_new (h.apart hc) (h.known_root hc) hF now)
    obtain ⟨r', hr', -, hch⟩ := hi.kept (y := rootId) ((Arena.get?_new _).trans (if_pos rfl))
    rw [if_pos rfl] at hch
    have hch : r'.children = ids := hch
    exact ⟨r', hr', hch ▸ hi.presents⟩
  · rw [walk, ht.map_id_subtree hr]
    exact ht.nodup_subtreeIds hr
  · obtain ⟨id, m, hlead, hm, rfl⟩ := (shows_loaded_iff hf).2 (.inr hq)
    refine ⟨id, m, hlead, hm, rfl, ?_⟩
    have hgives : (s.known carried).Gives s.drawn q m.kind id := by
      rcases Workspace.loaded_cases hf hm with rfl | ⟨q', hl', -, hg⟩
      · -- the root is no entry of a listing
        obtain rfl := ht.leads_unique hlead .root
        cases hq
      · exact ht.leads_unique hlead hl' ▸ hg
    unfold Known.Gives at hgives
    split at hgives
    · next n hn =>
      obtain ⟨hlived, hget, hkind⟩ := (known_node?_eq_some_iff h hl hu).1 hn
      exact .inl ⟨hgives ▸ hlived, n, hgives ▸ hget, hkind⟩
    · next hnone =>
      obtain ⟨j, hj, rfl⟩ := hgives
      refine .inr ⟨fun {x n} hx hn hkind => ?_, h.unused j hj, j, hj, rfl⟩
      obtain rfl := h.tree.keyed hn
      rw [(known_node?_eq_some_iff h hl hu).2 ⟨hx, hn, hkind⟩] at hnone
      cases hnone
  · have hopen : (s.rebuilt F carried now).tabs.openIds = s.tabs.openIds.filter
        (· ∉ s.tabs.openIds.filter fun id => !(s.rebuilt F carried now).arena.contains id) :=
      h.tabs.openIds_closeMany _
    rw [hopen]
    refine List.filter_congr fun id hid => ?_
    rw [node?, ← Table.contains]
    simp [hid]

/-- A plain rebuilding gives ids to the places where their nodes were. -/
theorem Sound.resynced_nil (h : s.Sound) (hF : ProperListing F) (now : Timestamp) :
    s.Resynced F s.livedAt (s.rebuilt F [] now) :=
  h.resynced .nil hF now (Effect.mem_known_nil_iff h) fun hx hy => h.tree.leads_injective hx hy

end Workspace

end Workbench
