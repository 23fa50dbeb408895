import Workbench.Proofs.Lockstep.Step

/-!
# Copies on the disk

A copy on the disk is made by one call for each node of the subtree, each node before its children.
Every call can be carried out: the directory that it creates in is there already, because it is the
target or has been created before, and nothing is yet where it creates. Together the calls make of
the shape what copying in memory does (`becomesAll_copyCalls`).
-/

namespace Workbench

open Disk (below)

variable {σ : Type} {root : String} {w : World σ} {s : Workspace} {x : NodeId}
  {p place : List String} {done rest : List NodeId}

namespace Workspace

/-- What is shown once some nodes below a place have been copied to another. -/
def copiedShape (s : Workspace) (p place : List String) (done : List NodeId) : Shape := fun q c =>
  s.arena.Shows q c ∨ ∃ i ∈ done, ∃ r n, s.arena.Leads i (p ++ r) ∧ s.arena.get? i = some n ∧
    q = place ++ r ∧ c = n.shown

theorem copiedShape_nil (s : Workspace) (p place : List String) :
    s.copiedShape p place [] = s.arena.Shows := by
  funext q c
  refine propext ⟨?_, .inl⟩
  rintro (hs | ⟨i, hi, -⟩)
  · exact hs
  · cases hi

/-- One more node that is copied. -/
theorem copiedShape_append {i : NodeId} {r : List String} {n : Node} (h : s.arena.IsTree)
    (hi : s.arena.Leads i (p ++ r)) (hn : s.arena.get? i = some n) :
    s.copiedShape p place (done ++ [i]) =
      Shape.grown (s.copiedShape p place done) (place ++ r) n.shown := by
  funext q c
  refine propext ⟨?_, ?_⟩
  · rintro (hs | ⟨j, hj, r', m, hl, hm, rfl, rfl⟩)
    · exact .inl (.inl hs)
    · rcases List.mem_append.1 hj with hj | hj
      · exact .inl (.inr ⟨j, hj, r', m, hl, hm, rfl, rfl⟩)
      · obtain rfl := List.mem_singleton.1 hj
        obtain rfl := Option.some.inj (hn.symm.trans hm)
        exact .inr ⟨by rw [List.append_cancel_left (h.leads_unique hl hi)], rfl⟩
  · rintro ((hs | ⟨j, hj, hrest⟩) | ⟨rfl, rfl⟩)
    · exact .inl hs
    · exact .inr ⟨j, List.mem_append_left _ hj, hrest⟩
    · exact .inr ⟨i, List.mem_append_right _ List.mem_cons_self, r, n, hi, hn, rfl, rfl⟩

/-- Once all nodes of a subtree have been copied, it is there twice. -/
theorem copiedShape_subtreeIds {n : Node} (h : s.arena.IsTree) (hx : s.arena.Leads x p)
    (hn : s.arena.get? x = some n) :
    s.copiedShape p place (s.arena.subtreeIds x) = Shape.doubled s.arena.Shows p place := by
  funext q c
  refine propext ⟨?_, ?_⟩
  · rintro (hs | ⟨i, -, r, m, hl, hm, rfl, rfl⟩)
    · exact .inl hs
    · exact .inr ⟨r, rfl, i, m, hl, hm, rfl⟩
  · rintro (hs | ⟨r, rfl, i, m, hl, hm, rfl⟩)
    · exact .inl hs
    · exact .inr ⟨i, (h.mem_subtreeIds_iff hn).2 (h.below_of_leads hx hl), r, m, hl, hm, rfl, rfl⟩

/-- Where a node is to be copied nothing is yet, since no node is copied twice. -/
theorem free_copiedShape {i : NodeId} {r : List String} {n : Node} (h : s.arena.IsTree)
    (hn : s.arena.get? x = some n) (hids : s.arena.subtreeIds x = done ++ i :: rest)
    (hl : s.arena.Leads i (p ++ r)) (hf : Shape.Free s.arena.Shows place) :
    Shape.Free (s.copiedShape p place done) (place ++ r) := by
  rintro c (hs | ⟨j, hj, r', k, hlj, -, he, -⟩)
  · exact h.shape.free_append hf r c hs
  · rw [← List.append_cancel_left he] at hlj
    obtain rfl := h.leads_injective hl hlj
    have hnd := h.nodup_subtreeIds hn
    rw [hids] at hnd
    exact (List.nodup_append.1 hnd).2.2 i hj i List.mem_cons_self rfl

/-- The place of a copy is a name in a directory that is there: in the target for the top, and else
in the copy of the directory, which is visited before. -/
theorem place_of_copy {i : NodeId} {q r : List String} {name : String} {n : Node}
    (h : s.arena.IsTree) (hx : s.arena.Leads x p) (hn : s.arena.get? x = some n)
    (hids : s.arena.subtreeIds x = done ++ i :: rest) (hl : s.arena.Leads i (p ++ r))
    (hq : s.arena.Shows q none) (hname : Path.isName name = true) :
    ∃ q' t, q ++ [name] ++ r = q' ++ [t] ∧ Path.isName t = true ∧
      s.copiedShape p (q ++ [name]) done q' none := by
  rcases List.eq_nil_or_concat r with rfl | ⟨r', t, rfl⟩
  · exact ⟨q, name, List.append_nil _, hname, .inl hq⟩
  · rw [List.concat_eq_append, ← List.append_assoc] at hl
    refine ⟨q ++ [name] ++ r', t, by rw [List.concat_eq_append, List.append_assoc _ r' [t]],
      h.isName_of_leads hl t (List.mem_append_right _ List.mem_cons_self), .inr ?_⟩
    rcases h.parent_of_spans (h.spans_subtreeIds hn).2 hids with hi | ⟨j, hj, hji⟩
    · obtain rfl := List.mem_singleton.1 hi
      have hlen := congrArg List.length (h.leads_unique hl hx)
      simp at hlen
    · obtain ⟨k, hk⟩ := h.mem_of_holds hji
      obtain ⟨u, hu⟩ := h.exists_leads hk
      obtain ⟨m, hm, hpar⟩ := hji
      have hc := Arena.Leads.child hu hm hpar
      obtain ⟨rfl, -⟩ := List.append_inj' (h.leads_unique hl hc) rfl
      obtain ⟨d, hd, -, hdk⟩ := h.parent hm hpar
      exact ⟨j, hj, r', d, hu, hd, rfl, (Node.shown_eq_none_iff.2 hdk).symm⟩

end Workspace

namespace World

/-- The call that copies a node to a place. -/
def copyCall (w : World σ) (place : List String) (n : Node) : DiskCall :=
  match n.kind with
  | .file => .createFile (w.diskPath place.dropLast) (place.getLastD "") n.content
  | .directory => .createDirectory (w.diskPath place.dropLast) (place.getLastD "")

/-- The call that copies what lies below a place to another place. -/
def copyCall? (w : World σ) (p place : List String) (i : NodeId) : Option DiskCall :=
  (w.space.node? i).map (w.copyCall (place ++ (w.space.arena.namesTo i).drop p.length))

/-- The call that copies a node can be carried out where its directory is there and its place is
free. -/
theorem becomes_copyCall {S : Shape} {q : List String} {name : String} {n : Node}
    (hb : w.space.boundRoot = some root) (hq : S q none) (hname : Path.isName name = true)
    (hf : S.Free (q ++ [name])) : Shape.Becomes root S (w.copyCall (q ++ [name]) n)
      (S.grown (q ++ [name]) n.shown) := by
  have hpath : w.diskPath q = below root q := by rw [diskPath, hb, Option.getD_some]
  have hlast : (q ++ [name]).getLastD "" = name := by simp
  unfold copyCall
  rw [List.dropLast_concat, hlast, hpath]
  cases hk : n.kind with
  | file =>
    have hs : n.shown = some n.content := if_pos (Node.isFile_iff.2 hk)
    rw [hs]
    exact .createFile hq hname hf n.content
  | directory =>
    rw [Node.shown_eq_none_iff.2 hk]
    exact .createDirectory hq hname hf

/-- The call for the next node of a subtree, when those before it have been copied. -/
theorem becomes_next {n : Node} {q : List String} {name : String} {i : NodeId}
    (h : w.space.arena.IsTree) (hb : w.space.boundRoot = some root)
    (hx : w.space.arena.Leads x p) (hn : w.space.arena.get? x = some n)
    (hq : w.space.arena.Shows q none) (hname : Path.isName name = true)
    (hf : Shape.Free w.space.arena.Shows (q ++ [name]))
    (hids : w.space.arena.subtreeIds x = done ++ i :: rest)
    (hS : (w.space.copiedShape p (q ++ [name]) done).IsTree) :
    ∃ call, w.copyCall? p (q ++ [name]) i = some call ∧
      Shape.Becomes root (w.space.copiedShape p (q ++ [name]) done) call
        (w.space.copiedShape p (q ++ [name]) (done ++ [i])) ∧
      (w.space.copiedShape p (q ++ [name]) (done ++ [i])).IsTree := by
  have hmem : i ∈ w.space.arena.subtreeIds x := by
    rw [hids]
    exact List.mem_append_right _ List.mem_cons_self
  have hbelow := (h.mem_subtreeIds_iff hn).1 hmem
  obtain ⟨m, hm⟩ := hbelow.exists_node hn
  have hl := h.leads_namesTo hm
  obtain ⟨r, hr⟩ := h.leads_below hbelow hx hl
  rw [hr] at hl
  have hfree := Workspace.free_copiedShape h hn hids hl hf
  obtain ⟨q', s, he, hs, hdir⟩ := Workspace.place_of_copy h hx hn hids hl hq hname
  rw [he] at hfree
  have hstep := becomes_copyCall (w := w) (n := m) hb hdir hs hfree
  have hgrown := hS.grown hdir hs hfree m.shown
  rw [← he] at hstep hgrown
  rw [← Workspace.copiedShape_append h hl hm] at hstep hgrown
  refine ⟨_, ?_, hstep, hgrown⟩
  rw [copyCall?, Workspace.node?, hm, hr, List.drop_left]
  rfl

/-- The calls for the next nodes of a subtree, when those before them have been copied. -/
theorem becomesAll_copies {n : Node} {q : List String} {name : String} {more : List NodeId}
    (h : w.space.arena.IsTree) (hb : w.space.boundRoot = some root)
    (hx : w.space.arena.Leads x p) (hn : w.space.arena.get? x = some n)
    (hq : w.space.arena.Shows q none) (hname : Path.isName name = true)
    (hf : Shape.Free w.space.arena.Shows (q ++ [name]))
    (hids : w.space.arena.subtreeIds x = done ++ (rest ++ more))
    (hS : (w.space.copiedShape p (q ++ [name]) done).IsTree) :
    Shape.BecomesAll root (w.space.copiedShape p (q ++ [name]) done)
      (rest.filterMap (w.copyCall? p (q ++ [name])))
      (w.space.copiedShape p (q ++ [name]) (done ++ rest)) := by
  induction rest generalizing done with
  | nil =>
    rw [List.append_nil]
    exact .nil
  | cons i rest ih =>
    obtain ⟨call, hcall, hstep, hgrown⟩ := becomes_next h hb hx hn hq hname hf hids hS
    rw [List.filterMap_cons_some hcall]
    have hids' : w.space.arena.subtreeIds x = done ++ [i] ++ (rest ++ more) := by
      rw [hids, List.append_assoc]
      rfl
    have hrest := ih hids' hgrown
    rw [List.append_assoc, List.singleton_append] at hrest
    exact .cons hstep hgrown hrest

theorem copyCalls_eq {pl : Workspace.Placement} {n : Node} {q : List String}
    (h : w.space.arena.IsTree) (hx : w.space.arena.Leads pl.node.id p)
    (hn : w.space.arena.get? pl.node.id = some n)
    (ht : w.space.arena.Leads pl.target.id q) :
    w.copyCalls pl = (w.space.arena.subtreeIds pl.node.id).filterMap
      (w.copyCall? p (q ++ [pl.name])) := by
  rw [copyCalls, placeIn_eq h ht, Workspace.carriedTo, List.filterMap_map, (h.leads_iff hn).1 hx]
  rfl

/-- The calls of a copy make of the shape what copying in memory does. -/
theorem becomesAll_copyCalls {pl : Workspace.Placement} {n : Node} {q : List String}
    (h : w.space.arena.IsTree) (hb : w.space.boundRoot = some root)
    (hx : w.space.arena.Leads pl.node.id p) (hn : w.space.arena.get? pl.node.id = some n)
    (ht : w.space.arena.Leads pl.target.id q) (hq : w.space.arena.Shows q none)
    (hname : Path.isName pl.name = true) (hf : Shape.Free w.space.arena.Shows (q ++ [pl.name])) :
    Shape.BecomesAll root w.space.arena.Shows (w.copyCalls pl)
      (Shape.doubled w.space.arena.Shows p (q ++ [pl.name])) := by
  have hids : w.space.arena.subtreeIds pl.node.id =
      [] ++ (w.space.arena.subtreeIds pl.node.id ++ []) := by rw [List.append_nil, List.nil_append]
  have hall := becomesAll_copies h hb hx hn hq hname hf hids
    (by rw [Workspace.copiedShape_nil]; exact h.shape)
  rw [List.nil_append, Workspace.copiedShape_nil, Workspace.copiedShape_subtreeIds h hx hn] at hall
  rw [copyCalls_eq h hx hn ht]
  exact hall

end World

end Workbench
