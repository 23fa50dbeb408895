import Workbench.Workspace.Rebuild
import Workbench.Proofs.Arena.Shape
import Workbench.Proofs.Workspace.Edits

/-!
# What a rebuilding yields

A rebuilt tree shows (`Arena.Shows`) what the listing holds (`Lists`) and nothing else, and each of
its nodes has the id that is known for its place, or else an id that was never in use.

Both are proved for one directory at a time: `Ready` is what a directory must be like before
entries are added to it, `Filled` what has come of it. `Filled` composes along a listing
(`Filled.trans`) and into directories (`Filled.below`), as the loading does.
-/

namespace Workbench

namespace Workspace

/-! ## Known ids -/

/-- The id that a node at a place gets when it comes new: the one that is known for the place, or
else one that is drawn. -/
def Known.Gives (k : Known) (drawn : Nat) (place : List String) (kind : NodeKind) (id : NodeId) :
    Prop :=
  match k.node? place kind with
  | some n => n.id = id
  | none => ∃ j, drawn < j ∧ id = drawnNodeId j

theorem Known.Gives.mono {k : Known} {drawn drawn' : Nat} {place : List String} {kind : NodeKind}
    {id : NodeId} (h : k.Gives drawn' place kind id) (hd : drawn ≤ drawn') :
    k.Gives drawn place kind id := by
  unfold Known.Gives at h ⊢
  split
  · next n hn =>
    rw [hn] at h
    exact h
  · next hn =>
    rw [hn] at h
    obtain ⟨j, hj, rfl⟩ := h
    exact ⟨j, by omega, rfl⟩

/-- Every id is known for one place, and none that is still to be drawn is known. -/
structure Known.Apart (k : Known) (drawn : Nat) : Prop where
  once : ∀ {q q' id}, (q, id) ∈ k.idAt → (q', id) ∈ k.idAt → q = q'
  keyed : ∀ {id n}, k.arena.get? id = some n → n.id = id
  old : ∀ {q id}, (q, id) ∈ k.idAt → ∀ j, drawn < j → id ≠ drawnNodeId j

theorem Known.Apart.mono {k : Known} {drawn drawn' : Nat} (h : k.Apart drawn)
    (hd : drawn ≤ drawn') : k.Apart drawn' :=
  ⟨h.once, h.keyed, fun hm j hj => h.old hm j (by omega)⟩

theorem mem_of_lastAt? {place : List String} {l : List (List String × NodeId)} {id : NodeId}
    (h : lastAt? place l = some id) : (place, id) ∈ l := by
  induction l with
  | nil => cases h
  | cons e rest ih =>
    obtain ⟨p, i⟩ := e
    rw [lastAt?] at h
    cases hr : lastAt? place rest with
    | some j =>
      rw [hr, Option.some_or, Option.some.injEq] at h
      exact List.mem_cons_of_mem _ (ih (h ▸ hr))
    | none =>
      rw [hr, Option.none_or] at h
      split at h
      · next hp =>
        obtain rfl := Option.some.inj h
        obtain rfl : p = place := by simpa using hp
        exact List.mem_cons_self
      · cases h

/-- A node that is known for a place is one of the nodes as they were, of the kind that is asked
for. -/
theorem Known.node?_eq_some {k : Known} {place : List String} {kind : NodeKind} {n : Node}
    (hk : ∀ {id n}, k.arena.get? id = some n → n.id = id) (h : k.node? place kind = some n) :
    (place, n.id) ∈ k.idAt ∧ k.arena.get? n.id = some n ∧ n.kind = kind := by
  unfold Known.node? at h
  rw [Option.filter_eq_some_iff, Option.bind_eq_some_iff] at h
  obtain ⟨⟨id, hid, hn⟩, hkind⟩ := h
  obtain rfl := hk hn
  exact ⟨mem_of_lastAt? hid, hn, by simpa using hkind⟩

/-! ## Filling a directory -/

/-- A directory to which entries can be added: the tree is in order, no entry's name is taken, and
every node of the tree is where it is known to be. -/
structure Ready (k : Known) (p : NodeId) (above : List String) (F : List DiskEntry)
    (l : Loading) : Prop where
  tree : l.arena.IsTree
  unused : l.arena.Unused l.drawn
  leads : l.arena.Leads p above
  directory : ∃ d, l.arena.get? p = some d ∧ d.kind = .directory
  proper : ProperListing F
  free : ∀ {c m}, l.arena.get? c = some m → m.parentId = some p → m.name ∉ F.map DiskEntry.name
  apart : k.Apart l.drawn
  placed : ∀ {id q q'}, l.arena.Leads id q → (q', id) ∈ k.idAt → q' = q

/-- What has come of a directory: the tree has grown by what `R` says, and each new node has the id
that its place gives. -/
structure Filled (k : Known) (p : NodeId) (above : List String) (names : List String)
    (R : List String → Option String → Prop) (l l' : Loading) : Prop where
  grows : l.arena.Grows p names l'.arena
  unused : l'.arena.Unused l'.drawn
  drawn_le : l.drawn ≤ l'.drawn
  placed : ∀ {id m}, l'.arena.get? id = some m → l.arena.get? id = none →
    ∃ q, l'.arena.Leads id (above ++ q) ∧ R q m.shown ∧ k.Gives l.drawn (above ++ q) m.kind id
  covers : ∀ {q c}, R q c → l'.arena.Shows (above ++ q) c

variable {k : Known} {p x : NodeId} {above names names' : List String} {F : List DiskEntry}
  {e : DiskEntry} {l l' l'' : Loading} {R R' : List String → Option String → Prop}

namespace Filled

theorem refl (ht : l.arena.IsTree) (hu : l.arena.Unused l.drawn) (hr : ∀ {q c}, ¬ R q c) :
    Filled k p above [] R l l where
  grows := .refl ht p
  unused := hu
  drawn_le := Nat.le_refl _
  placed hm hnone := by
    rw [hm] at hnone
    cases hnone
  covers h := absurd h hr

theorem congr (h : Filled k p above names R l l') (hr : ∀ {q c}, R q c ↔ R' q c) :
    Filled k p above names R' l l' where
  grows := h.grows
  unused := h.unused
  drawn_le := h.drawn_le
  placed hm hnone := by
    obtain ⟨q, hl, hq, hg⟩ := h.placed hm hnone
    exact ⟨q, hl, hr.1 hq, hg⟩
  covers hq := h.covers (hr.2 hq)

/-- A node that is new in the end was new in between or came after. -/
theorem placed_of_grows {b : Arena} {id : NodeId} {m : Node} (h : Filled k p above names R l l')
    (hb : l'.arena.Grows x names' b) (hm : b.get? id = some m) (hnone : l.arena.get? id = none) :
    l'.arena.get? id = none ∨ ∃ q, b.Leads id (above ++ q) ∧ R q m.shown ∧
      k.Gives l.drawn (above ++ q) m.kind id := by
  cases hn : l'.arena.get? id with
  | none => exact .inl rfl
  | some n =>
    obtain ⟨q, hl, hq, hg⟩ := h.placed hn hnone
    obtain ⟨m', hm', ha⟩ := hb.kept hn
    obtain rfl := Option.some.inj (hm.symm.trans hm')
    exact .inr ⟨q, hb.leads hl, ha.shown.symm ▸ hq, ha.kind.symm ▸ hg⟩

/-- Filling a directory in two goes. -/
theorem trans (h : Filled k p above names R l l') (h' : Filled k p above names' R' l' l'') :
    Filled k p above (names ++ names') (fun q c => R q c ∨ R' q c) l l'' where
  grows := h.grows.trans h'.grows
  unused := h'.unused
  drawn_le := Nat.le_trans h.drawn_le h'.drawn_le
  placed hm hnone := by
    rcases h.placed_of_grows h'.grows hm hnone with hnone' | ⟨q, hl, hq, hg⟩
    · obtain ⟨q, hl, hq, hg⟩ := h'.placed hm hnone'
      exact ⟨q, hl, .inr hq, hg.mono h.drawn_le⟩
    · exact ⟨q, hl, .inl hq, hg⟩
  covers hq := hq.elim (fun hq => h'.grows.shows (h.covers hq)) h'.covers

/-- Filling a directory, and then a directory that has come new into it. -/
theorem below {name : String} (h : Filled k p above names R l l')
    (h' : Filled k x (above ++ [name]) names' R' l' l'') (hx : l.arena.get? x = none) :
    Filled k p above names (fun q c => R q c ∨ ∃ r, q = name :: r ∧ R' r c) l l'' where
  grows := h.grows.below h'.grows hx
  unused := h'.unused
  drawn_le := Nat.le_trans h.drawn_le h'.drawn_le
  placed hm hnone := by
    rcases h.placed_of_grows h'.grows hm hnone with hnone' | ⟨q, hl, hq, hg⟩
    · obtain ⟨r, hl, hr, hg⟩ := h'.placed hm hnone'
      rw [List.append_assoc, List.singleton_append] at hl hg
      exact ⟨name :: r, hl, .inr ⟨r, rfl, hr⟩, hg.mono h.drawn_le⟩
    · exact ⟨q, hl, .inl hq, hg⟩
  covers := by
    rintro q c (hq | ⟨r, rfl, hr⟩)
    · exact h'.grows.shows (h.covers hq)
    · have := h'.covers hr
      rwa [List.append_assoc, List.singleton_append] at this

end Filled

namespace Ready

theorem mono (h : Ready k p above F l) {G : List DiskEntry} (hs : G.Sublist F) :
    Ready k p above G l where
  tree := h.tree
  unused := h.unused
  leads := h.leads
  directory := h.directory
  proper := ⟨h.proper.nodup.sublist (hs.map _), fun e he => h.proper.entries e (hs.subset he)⟩
  free hm hp hmem := h.free hm hp ((hs.map _).subset hmem)
  apart := h.apart
  placed := h.placed

/-- Every node stays where it is known to be while a directory is filled. -/
theorem placed_of_filled (h : Ready k p above F l) (hf : Filled k p above names R l l')
    {id : NodeId} {q q' : List String} (hl : l'.arena.Leads id q) (hk : (q', id) ∈ k.idAt) :
    q' = q := by
  cases hn : l.arena.get? id with
  | some n =>
    obtain ⟨q₀, hl₀⟩ := h.tree.exists_leads hn
    rw [hf.grows.isTree.leads_unique hl (hf.grows.leads hl₀)]
    exact h.placed hl₀ hk
  | none =>
    obtain ⟨m, hm⟩ := hf.grows.isTree.mem_of_leads hl
    obtain ⟨r, hr, -, hg⟩ := hf.placed hm hn
    rw [hf.grows.isTree.leads_unique hl hr]
    unfold Known.Gives at hg
    split at hg
    · next n hn =>
      obtain ⟨hmem, -⟩ := Known.node?_eq_some h.apart.keyed hn
      rw [hg] at hmem
      exact h.apart.once hk hmem
    · obtain ⟨j, hj, he⟩ := hg
      exact absurd he (h.apart.old hk j hj)

/-- When the first entry has been added, the directory is ready for the rest. -/
theorem rest (h : Ready k p above (e :: F) l) (hf : Filled k p above [e.name] R l l') :
    Ready k p above F l' where
  tree := hf.grows.isTree
  unused := hf.unused
  leads := hf.grows.leads h.leads
  directory := by
    obtain ⟨d, hd, hk⟩ := h.directory
    obtain ⟨d', hd', ha⟩ := hf.grows.kept hd
    exact ⟨d', hd', ha.kind.trans hk⟩
  proper := (h.mono (List.sublist_cons_self e F)).proper
  free {c m} hm hp hmem := by
    have hnd := List.nodup_cons.1 h.proper.nodup
    rcases hf.grows.added hm with ⟨n, hn⟩ | ⟨-, hname⟩ | ⟨q, hq, hnone⟩
    · obtain ⟨m', hm', ha⟩ := hf.grows.kept hn
      obtain rfl := Option.some.inj (hm.symm.trans hm')
      exact h.free hn (ha.parentId.symm.trans hp) (ha.name ▸ List.mem_cons_of_mem _ hmem)
    · rw [List.mem_singleton.1 hname] at hmem
      exact hnd.1 hmem
    · obtain rfl := Option.some.inj (hp.symm.trans hq)
      obtain ⟨d, hd, -⟩ := h.directory
      rw [hnone] at hd
      cases hd
  apart := h.apart.mono hf.drawn_le
  placed := h.placed_of_filled hf

end Ready

/-! ## Adding one entry -/

theorem entryNode_id (id parentId : NodeId) (marks : Marks) (e : DiskEntry) :
    (entryNode id parentId marks e).id = id := by cases e <;> rfl

theorem entryNode_name (id parentId : NodeId) (marks : Marks) (e : DiskEntry) :
    (entryNode id parentId marks e).name = e.name := by cases e <;> rfl

theorem entryNode_kind (id parentId : NodeId) (marks : Marks) (e : DiskEntry) :
    (entryNode id parentId marks e).kind = e.kind := by cases e <;> rfl

theorem entryNode_shown (id parentId : NodeId) (marks : Marks) (e : DiskEntry) :
    (entryNode id parentId marks e).shown = e.shown := by cases e <;> rfl

theorem entryNode_parentId (id parentId : NodeId) (marks : Marks) (e : DiskEntry) :
    (entryNode id parentId marks e).parentId = some parentId := by cases e <;> rfl

theorem entryNode_children (id parentId : NodeId) (marks : Marks) (e : DiskEntry) :
    (entryNode id parentId marks e).children = [] := by cases e <;> rfl

theorem entryNode_fit (id parentId : NodeId) (marks : Marks) {e : DiskEntry}
    (he : Path.isName e.name = true) : (entryNode id parentId marks e).Fit := by
  cases e with
  | file => exact ⟨fun _ => he, fun _ => rfl, rfl, fun hk => nomatch hk⟩
  | directory => exact ⟨fun _ => he, fun _ => rfl, rfl, fun _ => rfl⟩

/-- What has come of adding an entry: a new node at its place with nothing in it, and the directory
filled with the entry. -/
structure Added (k : Known) (p : NodeId) (above : List String) (e : DiskEntry) (l : Loading)
    (id : NodeId) (l' : Loading) : Prop where
  fresh : l.arena.get? id = none
  stored : ∃ m, l'.arena.get? id = some m ∧ m.kind = e.kind
  leads : l'.arena.Leads id (above ++ [e.name])
  empty : ∀ {c m}, l'.arena.get? c = some m → m.parentId ≠ some id
  filled : Filled k p above [e.name] (fun q c => q = [e.name] ∧ c = e.shown) l l'

namespace Ready

/-- No node is at the place of an entry yet. -/
theorem not_leads (h : Ready k p above (e :: F) l) (id : NodeId) :
    ¬ l.arena.Leads id (above ++ [e.name]) := by
  intro hl
  obtain ⟨m, hm, hp, hname⟩ := (h.tree.leads_append_iff h.leads).1 hl
  exact h.free hm hp (hname ▸ List.mem_cons_self)

/-- The id of an entry is the one that its place gives, is not in use, and counts as drawn. -/
theorem identity (h : Ready k p above (e :: F) l) {id : NodeId} {marks : Marks} {drawn : Nat}
    (hi : l.identity k (above ++ [e.name]) e.kind = (id, marks, drawn)) :
    l.arena.get? id = none ∧ k.Gives l.drawn (above ++ [e.name]) e.kind id ∧ l.drawn ≤ drawn ∧
      ∀ j, drawn < j → id ≠ drawnNodeId j := by
  unfold Loading.identity at hi
  unfold Known.Gives
  cases hn : k.node? (above ++ [e.name]) e.kind with
  | none =>
    simp only [hn, Option.filter_none, Prod.mk.injEq] at hi
    obtain ⟨rfl, -, rfl⟩ := hi
    refine ⟨h.unused _ (by omega), ⟨_, Nat.lt_succ_self _, rfl⟩, by omega, fun j hj he => ?_⟩
    have := drawnNodeId_injective he
    omega
  | some n =>
    obtain ⟨hmem, -, -⟩ := Known.node?_eq_some h.apart.keyed hn
    have hfree : l.arena.get? n.id = none := by
      cases hm : l.arena.get? n.id with
      | none => rfl
      | some m =>
        obtain ⟨q, hl⟩ := h.tree.exists_leads hm
        rw [← h.placed hl hmem] at hl
        exact absurd hl (h.not_leads n.id)
    have hnot : l.arena.contains n.id = false := Table.contains_eq_false_iff.2 hfree
    simp only [hn, Option.filter_some, hnot, Bool.not_false, ↓reduceIte, Prod.mk.injEq] at hi
    obtain ⟨rfl, -, rfl⟩ := hi
    exact ⟨hfree, rfl, Nat.le_refl _, h.apart.old hmem⟩

/-- Where there is room for entries, there is room for the node of the first. -/
theorem room (h : Ready k p above (e :: F) l) {id : NodeId} (hfresh : l.arena.get? id = none)
    (marks : Marks) : l.arena.Room p (entryNode id p marks e) where
  directory := h.directory
  fresh := (congrArg l.arena.get? (entryNode_id ..)).trans hfresh
  parentId := entryNode_parentId ..
  children := entryNode_children ..
  fit := entryNode_fit _ _ _ (h.proper.entries e List.mem_cons_self).isName
  free hm hp he := by
    refine h.free hm hp ?_
    rw [he, entryNode_name]
    exact List.mem_cons_self

/-- Attaching the node of an entry, under the id that its place gives, adds the entry. -/
theorem added (h : Ready k p above (e :: F) l) {id : NodeId} {drawn : Nat}
    (hfresh : l.arena.get? id = none) (hgives : k.Gives l.drawn (above ++ [e.name]) e.kind id)
    (hle : l.drawn ≤ drawn) (hold : ∀ j, drawn < j → id ≠ drawnNodeId j) (marks : Marks) :
    Added k p above e l id ⟨l.arena.attach p (entryNode id p marks e), drawn⟩ := by
  have hr := h.room hfresh marks
  have hnew := hr.get?_new
  rw [entryNode_id] at hnew
  have hgrows := hr.grows h.tree
  rw [entryNode_name] at hgrows
  have hlead : (l.arena.attach p (entryNode id p marks e)).Leads id (above ++ [e.name]) := by
    have := Arena.Leads.child (hgrows.leads h.leads) hnew (entryNode_parentId ..)
    rwa [entryNode_name] at this
  -- a node of the grown arena is the new one or an old one
  have hcases : ∀ {c m}, (l.arena.attach p (entryNode id p marks e)).get? c = some m →
      (c = id ∧ m = entryNode id p marks e) ∨ ∃ m₀, l.arena.get? c = some m₀ ∧ m.Alike m₀ := by
    intro c m hm
    rcases hr.get?_cases hm with ⟨rfl, rfl⟩ | ⟨m₀, hm₀, rfl⟩
    · exact .inl ⟨entryNode_id .., rfl⟩
    · exact .inr ⟨m₀, hm₀, rfl, rfl, rfl, rfl, rfl, rfl⟩
  refine ⟨hfresh, ⟨_, hnew, entryNode_kind ..⟩, hlead, fun {c m} hm hp => ?_, hgrows,
    fun j hj => ?_, hle, fun {c m} hm hnone => ?_, ?_⟩
  · rcases hcases hm with ⟨-, rfl⟩ | ⟨m₀, hm₀, ha⟩
    · rw [entryNode_parentId, Option.some.injEq] at hp
      exact hr.ne (hp.trans (entryNode_id ..).symm)
    · obtain ⟨d, hd, -⟩ := h.tree.parent hm₀ (ha.parentId.symm.trans hp)
      rw [hfresh] at hd
      cases hd
  · have hj : drawn < j := hj
    refine Option.eq_none_iff_forall_ne_some.2 fun m hm => ?_
    rcases hcases hm with ⟨he, -⟩ | ⟨m₀, hm₀, -⟩
    · exact hold j hj he.symm
    · rw [h.unused j (by omega)] at hm₀
      cases hm₀
  · rcases hcases hm with ⟨rfl, rfl⟩ | ⟨m₀, hm₀, -⟩
    · rw [entryNode_shown, entryNode_kind]
      exact ⟨[e.name], hlead, ⟨rfl, rfl⟩, hgives⟩
    · rw [hnone] at hm₀
      cases hm₀
  · rintro q c ⟨rfl, rfl⟩
    exact ⟨id, _, hlead, hnew, entryNode_shown ..⟩

theorem add (h : Ready k p above (e :: F) l) :
    Added k p above e l (l.add k p (above ++ [e.name]) e).1
      (l.add k p (above ++ [e.name]) e).2 := by
  rcases hi : l.identity k (above ++ [e.name]) e.kind with ⟨id, marks, drawn⟩
  obtain ⟨hfresh, hgives, hle, hold⟩ := h.identity hi
  simp only [Loading.add, hi]
  exact h.added hfresh hgives hle hold marks

/-- A directory that has just been added is ready for its own entries. -/
theorem inside {name : String} {t : Timestamp} {children : List DiskEntry}
    (h : Ready k p above (.directory name t children :: F) l) :
    Ready k (l.add k p (above ++ [name]) (.directory name t children)).1 (above ++ [name])
      children (l.add k p (above ++ [name]) (.directory name t children)).2 := by
  have ha := h.add
  have hf := ha.filled
  refine ⟨hf.grows.isTree, hf.unused, ha.leads, ha.stored, ?_,
    fun hm hp => absurd hp (ha.empty hm), h.apart.mono hf.drawn_le, h.placed_of_filled hf⟩
  cases h.proper.entries _ List.mem_cons_self with
  | directory _ hd hc => exact ⟨hd, hc⟩

end Ready

/-! ## Loading -/

theorem Loading.exists_get?_add {l : Loading} {x : NodeId} (hx : ∃ n, l.arena.get? x = some n)
    (k : Known) (p : NodeId) (place : List String) (e : DiskEntry) :
    ∃ n, (l.add k p place e).2.arena.get? x = some n :=
  Table.exists_get?_modify (Table.exists_get?_insert hx _ _) _ _

mutual

theorem exists_get?_loadEntry {k : Known} {p : NodeId} {above : List String} {l : Loading}
    {x : NodeId} (hx : ∃ n, l.arena.get? x = some n) :
    ∀ e : DiskEntry, ∃ n, (loadEntry k p above e l).arena.get? x = some n
  | .file name content size t => by
    rw [loadEntry]
    exact Loading.exists_get?_add hx ..
  | .directory name t children => by
    rw [loadEntry]
    exact exists_get?_loadEntries (Loading.exists_get?_add hx ..) children

/-- No node goes while entries are loaded, of whatever form the listing is. -/
theorem exists_get?_loadEntries {k : Known} {p : NodeId} {above : List String} {l : Loading}
    {x : NodeId} (hx : ∃ n, l.arena.get? x = some n) :
    ∀ F : List DiskEntry, ∃ n, (loadEntries k p above F l).arena.get? x = some n
  | [] => by
    rw [loadEntries]
    exact hx
  | e :: F => by
    rw [loadEntries]
    exact exists_get?_loadEntries (exists_get?_loadEntry hx e) F

end

theorem exists_root_loaded (k : Known) (F : List DiskEntry) (drawn : Nat) (now : Timestamp) :
    ∃ r, (loaded k F drawn now).arena.get? rootId = some r :=
  exists_get?_loadEntries ⟨_, Table.get?_insert_self _ _ _⟩ F

mutual

/-- Loading an entry fills the directory with what the entry holds. -/
theorem filled_loadEntry {k : Known} {p : NodeId} {above : List String} {l : Loading} :
    ∀ {e : DiskEntry}, Ready k p above [e] l →
      Filled k p above [e.name] (Lists [e]) l (loadEntry k p above e l)
  | .file name content size t, h => by
    rw [loadEntry]
    exact h.add.filled.congr lists_file_iff.symm
  | .directory name t children, h => by
    have ha := h.add
    rw [loadEntry]
    exact (ha.filled.below (filled_loadEntries h.inside) ha.fresh).congr lists_directory_iff.symm

/-- Loading entries fills the directory with what the listing holds. -/
theorem filled_loadEntries {k : Known} {p : NodeId} {above : List String} {l : Loading} :
    ∀ {F : List DiskEntry}, Ready k p above F l →
      Filled k p above (F.map DiskEntry.name) (Lists F) l (loadEntries k p above F l)
  | [], h => by
    rw [loadEntries]
    exact .refl h.tree h.unused not_lists_nil
  | e :: F, h => by
    have he := filled_loadEntry (h.mono (List.singleton_sublist.2 List.mem_cons_self))
    rw [loadEntries]
    exact (he.trans (filled_loadEntries (h.rest he))).congr lists_cons_iff.symm

end

end Workspace

end Workbench
