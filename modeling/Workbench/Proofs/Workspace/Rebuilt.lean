import Workbench.Proofs.Workspace.Rebuild
import Workbench.Proofs.Workspace.Sound

/-!
# Rebuilt workspaces

What a rebuilding makes of a sound workspace: the tree shows the listing, a node has the id that
was known for its place, and the workspace is sound again. A tab stays open only where its node is
still there, and a node that is still there is still a file, because an id is only given again to
a node of the same kind.
-/

namespace Workbench.Workspace

variable {s : Workspace} {k : Known} {F : List DiskEntry} {drawn : Nat} {now : Timestamp}
  {id x : NodeId} {n m : Node} {carried : Carried}

/-! ## The tree of a listing -/

/-- A new tree is ready for the entries of a listing. -/
theorem ready_new (hk : k.Apart drawn) (hr : ∀ {q}, (q, rootId) ∈ k.idAt → q = [])
    (hF : ProperListing F) (now : Timestamp) : Ready k rootId [] F ⟨.new now, drawn⟩ := by
  have hroot : ∀ {c m}, (Arena.new now).get? c = some m → c = rootId ∧ m = .newRoot now := by
    intro c m hm
    rw [Arena.get?_new] at hm
    split at hm
    · next hc => exact ⟨hc, (Option.some.inj hm).symm⟩
    · cases hm
  refine ⟨.new now, .new now _, .root, ⟨.newRoot now, ?_, rfl⟩, hF,
    fun hm hp => ?_, hk, fun {id q q'} hl hq => ?_⟩
  · rw [Arena.get?_new, if_pos rfl]
  · obtain ⟨-, rfl⟩ := hroot hm
    cases hp
  · obtain ⟨m, hm⟩ := (Arena.IsTree.new now).mem_of_leads hl
    obtain ⟨rfl, -⟩ := hroot hm
    rw [(Arena.IsTree.new now).leads_unique hl .root]
    exact hr hq

/-- The tree of a listing is the root filled with it. -/
theorem filled_loaded (hk : k.Apart drawn) (hr : ∀ {q}, (q, rootId) ∈ k.idAt → q = [])
    (hF : ProperListing F) (now : Timestamp) :
    Filled k rootId [] (F.map DiskEntry.name) (Lists F) ⟨.new now, drawn⟩
      (loaded k F drawn now) :=
  filled_loadEntries (ready_new hk hr hF now)

/-- A node of the tree of a listing is the root, or an entry under the id that its place gives. -/
theorem loaded_cases (hf : Filled k rootId [] (F.map DiskEntry.name) (Lists F) ⟨.new now, drawn⟩
    (loaded k F drawn now)) (hm : (loaded k F drawn now).arena.get? id = some m) :
    id = rootId ∨ ∃ q, (loaded k F drawn now).arena.Leads id q ∧ Lists F q m.shown ∧
      k.Gives drawn q m.kind id := by
  by_cases hid : id = rootId
  · exact .inl hid
  · refine .inr (hf.placed hm ?_)
    show (Arena.new now).get? id = none
    rw [Arena.get?_new, if_neg hid]

/-- The tree of a listing shows the listing, and the root. -/
theorem shows_loaded_iff (hf : Filled k rootId [] (F.map DiskEntry.name) (Lists F)
    ⟨.new now, drawn⟩ (loaded k F drawn now)) {q : List String} {c : Option String} :
    (loaded k F drawn now).arena.Shows q c ↔ (q = [] ∧ c = none) ∨ Lists F q c := by
  have ht := hf.grows.isTree
  obtain ⟨r, hr, hrk, -⟩ := ht.root
  constructor
  · rintro ⟨id, m, hl, hm, rfl⟩
    rcases loaded_cases hf hm with rfl | ⟨q', hl', hq, -⟩
    · obtain rfl := Option.some.inj (hr.symm.trans hm)
      exact .inl ⟨ht.leads_unique hl .root, Node.shown_eq_none_iff.2 hrk⟩
    · exact .inr (ht.leads_unique hl hl' ▸ hq)
  · rintro (⟨rfl, rfl⟩ | hq)
    · exact ⟨rootId, r, .root, hr, Node.shown_eq_none_iff.2 hrk⟩
    · exact hf.covers hq

/-! ## What is known of a sound workspace -/

/-- Nodes on their way: each has one place to go to, is there, and is not the root. -/
structure Carried.Fit (s : Workspace) (carried : Carried) : Prop where
  once : ∀ {q q' id}, (q, id) ∈ carried → (q', id) ∈ carried → q = q'
  live : ∀ {q id}, (q, id) ∈ carried → id ≠ rootId ∧ ∃ n, s.arena.get? id = some n

theorem Carried.Fit.nil : Carried.Fit s [] := ⟨fun h => (nomatch h), fun h => (nomatch h)⟩

theorem mem_carriedTo_iff {place q : List String} : (q, id) ∈ s.carriedTo x place ↔
    id ∈ s.arena.subtreeIds x ∧
      q = place ++ (s.arena.namesTo id).drop (s.arena.namesTo x).length := by
  simp only [carriedTo, List.mem_map, Prod.mk.injEq]
  constructor
  · rintro ⟨_, hi, rfl, rfl⟩
    exact ⟨hi, rfl⟩
  · rintro ⟨hi, rfl⟩
    exact ⟨id, hi, rfl, rfl⟩

theorem Carried.Fit.carriedTo (h : s.arena.IsTree) (hx : s.arena.get? x = some n)
    (hr : x ≠ rootId) (place : List String) : Carried.Fit s (s.carriedTo x place) where
  once hq hq' := (mem_carriedTo_iff.1 hq).2.trans (mem_carriedTo_iff.1 hq').2.symm
  live hq := by
    have hb := (h.mem_subtreeIds_iff hx).1 (mem_carriedTo_iff.1 hq).1
    refine ⟨fun he => hr (h.eq_of_below_root (he ▸ hb)), hb.exists_node hx⟩

/-- What is known for a place: a node on its way there, or a node that is there and not on its
way. -/
theorem mem_known_iff {q : List String} : (q, id) ∈ (s.known carried).idAt ↔
    (s.arena.namesTo id = q ∧ id ∈ s.arena.keys ∧ id ∉ carried.map Prod.snd) ∨
      (q, id) ∈ carried := by
  simp only [known, List.mem_append, List.mem_filter, List.mem_map, Prod.mk.injEq,
    Bool.not_eq_eq_eq_not, Bool.not_true, List.contains_eq_mem, decide_eq_false_iff_not]
  constructor
  · rintro (⟨⟨_, hi, rfl, rfl⟩, hnot⟩ | hc)
    · exact .inl ⟨rfl, hi, hnot⟩
    · exact .inr hc
  · rintro (⟨rfl, hi, hnot⟩ | hc)
    · exact .inl ⟨⟨id, hi, rfl, rfl⟩, hnot⟩
    · exact .inr hc

theorem live_of_known (hc : carried.Fit s) {q : List String}
    (hq : (q, id) ∈ (s.known carried).idAt) : ∃ n, s.arena.get? id = some n := by
  rcases mem_known_iff.1 hq with ⟨-, hi, -⟩ | hq
  · exact Table.mem_keys_iff.1 hi
  · exact (hc.live hq).2

theorem Sound.apart (h : s.Sound) (hc : carried.Fit s) : (s.known carried).Apart s.drawn where
  once {q q' id} hq hq' := by
    rcases mem_known_iff.1 hq with ⟨rfl, -, hnot⟩ | hm
    · rcases mem_known_iff.1 hq' with ⟨rfl, -, -⟩ | hm'
      · rfl
      · exact absurd (List.mem_map.2 ⟨_, hm', rfl⟩) hnot
    · rcases mem_known_iff.1 hq' with ⟨-, -, hnot⟩ | hm'
      · exact absurd (List.mem_map.2 ⟨_, hm, rfl⟩) hnot
      · exact hc.once hm hm'
  keyed := h.tree.keyed
  old hq j hj := by
    rintro rfl
    obtain ⟨n, hn⟩ := live_of_known hc hq
    rw [h.unused j hj] at hn
    cases hn

theorem Sound.known_root (h : s.Sound) (hc : carried.Fit s) {q : List String}
    (hq : (q, rootId) ∈ (s.known carried).idAt) : q = [] := by
  rcases mem_known_iff.1 hq with ⟨rfl, -, -⟩ | hm
  · obtain ⟨r, hr, -⟩ := h.tree.root
    exact (h.tree.leads_iff hr).1 .root
  · exact absurd rfl (hc.live hm).1

theorem Sound.filled (h : s.Sound) (hc : carried.Fit s) (hF : ProperListing F)
    (now : Timestamp) :
    Filled (s.known carried) rootId [] (F.map DiskEntry.name) (Lists F) ⟨.new now, s.drawn⟩
      (loaded (s.known carried) F s.drawn now) :=
  filled_loaded (h.apart hc) (h.known_root hc) hF now

/-! ## Soundness -/

/-- The id of a node of the rebuilt tree was in use for a node of its kind, which was known for the
place, or is new. -/
theorem Sound.loaded_cases (h : s.Sound) (hc : carried.Fit s) (hF : ProperListing F)
    (hm : (loaded (s.known carried) F s.drawn now).arena.get? id = some m) :
    id = rootId ∨ ∃ q, (loaded (s.known carried) F s.drawn now).arena.Leads id q ∧
      Lists F q m.shown ∧
      ((∃ n, (q, id) ∈ (s.known carried).idAt ∧ s.arena.get? id = some n ∧ n.kind = m.kind) ∨
        (s.arena.get? id = none ∧ ∃ j, s.drawn < j ∧ id = drawnNodeId j)) := by
  refine (Workspace.loaded_cases (h.filled hc hF now) hm).imp_right ?_
  rintro ⟨q, hl, hq, hg⟩
  refine ⟨q, hl, hq, ?_⟩
  unfold Known.Gives at hg
  split at hg
  · next n hn =>
    obtain ⟨hmem, hget, hkind⟩ := Known.node?_eq_some h.tree.keyed hn
    exact .inl ⟨n, hg ▸ hmem, hg ▸ hget, hkind⟩
  · obtain ⟨j, hj, rfl⟩ := hg
    exact .inr ⟨h.unused j hj, j, hj, rfl⟩

/-- An id that was in use is given again only to a node of its kind. -/
theorem Sound.kind_of_loaded (h : s.Sound) (hc : carried.Fit s) (hF : ProperListing F)
    (hn : s.arena.get? id = some n)
    (hm : (loaded (s.known carried) F s.drawn now).arena.get? id = some m) : m.kind = n.kind := by
  rcases h.loaded_cases hc hF hm with rfl | ⟨q, -, -, ⟨k, -, hk, hkind⟩ | ⟨hnone, -⟩⟩
  · obtain ⟨r, hr, hrk, -⟩ := (h.filled hc hF now).grows.isTree.root
    obtain ⟨r', hr', hrk', -⟩ := h.tree.root
    rw [Option.some.inj (hm.symm.trans hr), Option.some.inj (hn.symm.trans hr'), hrk, hrk']
  · rw [Option.some.inj (hn.symm.trans hk), hkind]
  · rw [hnone] at hn
    cases hn

theorem Sound.rebuilt (h : s.Sound) (hc : carried.Fit s) (hF : ProperListing F)
    (now : Timestamp) : (s.rebuilt F carried now).Sound := by
  have hf := h.filled hc hF now
  refine ⟨hf.grows.isTree, h.tabs.closeMany _, fun {id} hid => ?_, hf.unused⟩
  obtain ⟨hopen, hlive⟩ := h.tabs.mem_closeMany.1 hid
  obtain ⟨n, hn, hk⟩ := h.files hopen
  cases hm : (loaded (s.known carried) F s.drawn now).arena.get? id with
  | none =>
    refine absurd (List.mem_filter.2 ⟨hopen, ?_⟩) hlive
    rw [Table.contains_eq_false_iff.2 hm]
    rfl
  | some m => exact ⟨m, hm, (h.kind_of_loaded hc hF hn hm).trans hk⟩

theorem filled_bound (hF : ProperListing F) (drawn : Nat) (now : Timestamp) :
    Filled .nothing rootId [] (F.map DiskEntry.name) (Lists F) ⟨.new now, drawn⟩
      (loaded .nothing F drawn now) := by
  have hk : Known.nothing.Apart drawn :=
    ⟨fun h => (nomatch h), fun h => (nomatch h), fun h => (nomatch h)⟩
  exact filled_loaded hk (fun h => (nomatch h)) hF now

/-- A workspace that is bound to a directory with a proper listing is sound. -/
theorem Sound.bound (hF : ProperListing F) (root : String) (now : Timestamp) :
    (s.bound root F now).Sound := by
  have hf := filled_bound hF s.drawn now
  exact ⟨hf.grows.isTree, .empty, fun hid => (nomatch hid), hf.unused⟩

end Workbench.Workspace
