import Workbench.Proofs.Path
import Workbench.Proofs.World.Runs

/-!
# What a move and a new name do to paths

In a free workspace, a node that is moved or renamed takes everything below it along and leaves all
else where it is. `Workspace.Relocated` says this of the paths of all nodes, of what the nodes hold,
and of the lists of children. It is read off the relation `Arena.Moved` between the two trees, which
covers a move, a new name in place, and a move to where the node is.
-/

namespace Workbench

namespace Path

variable {names names' : List String}

theorem child_ofNames (h : AreNames names) (name : String) :
    child (ofNames names) name = ofNames (names ++ [name]) := by
  have hsteps : ∀ s ∈ names, s ≠ "" ∧ '/' ∉ s.toList := fun s hs =>
    ⟨(isName_iff.1 (h s hs)).1, h.no_slash s hs⟩
  rw [← String.toList_inj, toList_ofNames (by simp), Disk.trail_append, child, String.toList_append,
    String.toList_append, toList_dropSlashes_ofNames hsteps]
  simp [Disk.trail]

/-- What further names add to the text of a path does not depend on the path, unless it is that of
the root. -/
theorem exists_suffix (h : names = [] ↔ names' = []) (rest : List String) :
    ∃ suffix, ofNames (names ++ rest) = ofNames names ++ suffix ∧
      ofNames (names' ++ rest) = ofNames names' ++ suffix := by
  by_cases hn : names = []
  · obtain rfl := h.1 hn
    subst hn
    exact ⟨"/".intercalate rest, by simp [ofNames], by simp [ofNames]⟩
  · have hn' : names' ≠ [] := fun he => hn (h.2 he)
    refine ⟨.ofList (Disk.trail rest), ?_, ?_⟩
    · rw [← String.toList_inj, String.toList_append, toList_ofNames hn,
        toList_ofNames (by simp [hn]), Disk.trail_append, String.toList_ofList]
    · rw [← String.toList_inj, String.toList_append, toList_ofNames hn',
        toList_ofNames (by simp [hn']), Disk.trail_append, String.toList_ofList]

end Path

/-! ## What becomes of the tree -/

/-- The lists of children after a node has left a directory for the end of another. -/
def relisted (id source target : NodeId) (y : NodeId) (l : List NodeId) : List NodeId :=
  (if y = source then l.erase id else l) ++ if y = target then [id] else []

/-- A workspace in which the subtree of a node has got another path. The nodes and what they hold
are the same; `relist` is what becomes of the list of children of each node. -/
structure Workspace.Relocated (s : Workspace) (id : NodeId) (path : String)
    (relist : NodeId → List NodeId → List NodeId) (s' : Workspace) : Prop where
  nodes : ∀ y, (∃ m, s'.node? y = some m) ↔ ∃ n, s.node? y = some n
  kept : ∀ {y n m}, s.node? y = some n → s'.node? y = some m →
    m.id = n.id ∧ m.kind = n.kind ∧ m.content = n.content ∧ m.size = n.size ∧
      m.children = relist y n.children
  top : s'.pathOf id = path
  below : ∀ {y}, s.arena.AtOrBelow id y →
    ∃ suffix, s.pathOf y = s.pathOf id ++ suffix ∧ s'.pathOf y = s'.pathOf id ++ suffix
  outside : ∀ {y n}, s.node? y = some n → ¬ s.arena.AtOrBelow id y → s'.pathOf y = s.pathOf y

namespace Arena

variable {a a' : Arena} {x y p t : NodeId} {n d : Node} {name : String}

/-- A node may go where it is. -/
theorem IsTree.mayGo_here (h : a.IsTree) (hx : a.get? x = some n) (hp : n.parentId = some p) :
    a.MayGo x p n.name := by
  obtain ⟨d, hd, -, hk⟩ := h.parent hx hp
  have hroot : x ≠ rootId := by
    rintro rfl
    exact h.not_holds_root ⟨n, hx, hp⟩
  refine ⟨⟨n, hx⟩, ⟨d, hd, hk⟩, hroot, h.not_below_parent ⟨n, hx, hp⟩,
    (h.fit hx).named (by rwa [h.keyed hx]), fun hc hcx hcp he => ?_⟩
  exact hcx (h.siblings hc hx (hcp.trans hp.symm) he)

/-- A change of times and marks is no further move. -/
theorem Moved.modify (hm : a.Moved x t name a') (id : NodeId) {f : Node → Node}
    (hf : ∀ n, (f n).Alike n ∧ (f n).children = n.children) :
    a.Moved x t name (Table.modify a' id f) := by
  have changed : ∀ {y m}, a'.get? y = some m →
      ∃ k, (Table.modify a' id f).get? y = some k ∧ k.Alike m ∧ k.children = m.children := by
    intro y m hy
    by_cases hyi : y = id
    · subst hyi
      exact ⟨f m, by rw [Table.get?_modify_self, hy]; rfl, hf m⟩
    · exact ⟨m, by rw [Table.get?_modify_of_ne hyi, hy], .refl m, rfl⟩
  refine ⟨fun hyx hn => ?_, fun hn => ?_, fun hk => ?_⟩
  · obtain ⟨m, hy, ha, hc⟩ := hm.kept hyx hn
    obtain ⟨k, hk, hkm, hkc⟩ := changed hy
    exact ⟨k, hk, hkm.trans ha, hkc ▸ hc⟩
  · obtain ⟨m, hy, ha, hc⟩ := hm.top hn
    obtain ⟨k, hk, hkm, hkc⟩ := changed hy
    exact ⟨k, hk, hkm.trans ha, hkc.trans hc⟩
  · obtain ⟨m, hy, -⟩ := alike_of_modify (fun n => (hf n).1) hk
    exact hm.back hy

theorem children_modify (a : Arena) (id y : NodeId) {f : Node → Node}
    (hf : ∀ n, (f n).children = n.children) :
    (Table.get? (Table.modify a id f) y).map Node.children = (a.get? y).map Node.children := by
  rw [Table.get?_modify]
  split
  · next hy =>
    subst hy
    rw [Option.map_map]
    exact Option.map_congr fun n _ => hf n
  · rfl

/-- The list of children of each node after a node has been taken out of its directory and stored
anew in another. -/
theorem children_attach (hx : a.get? x = some n) (htx : t ≠ x) (hpx : p ≠ x)
    {k : Node} (hid : k.id = x) (hc : k.children = n.children) (now : Timestamp) {m m' : Node}
    (hm : a.get? y = some m)
    (hm' : Table.get? ((Arena.attach ((a.detach p x).stamp p now) t k).stamp t now) y = some m') :
    m'.children = relisted x p t y m.children := by
  unfold relisted
  simp only [stamp, attach, adopt, detach, Table.get?_modify, Table.get?_insert, hid, htx,
    ↓reduceIte] at hm'
  by_cases hyx : y = x
  · subst hyx
    simp only [Ne.symm htx, ↓reduceIte, Option.some.injEq] at hm'
    obtain rfl := Option.some.inj (hx.symm.trans hm)
    rw [if_neg (Ne.symm hpx), if_neg (Ne.symm htx), List.append_nil, ← hm', hc]
  · by_cases hyt : y = t
    · subst hyt
      by_cases hyp : y = p
      · subst hyp
        simp only [↓reduceIte, hm, Option.map_some, Option.some.injEq] at hm'
        rw [if_pos rfl, if_pos rfl, ← hm']
      · simp only [hyp, ↓reduceIte, hm, Option.map_some, Option.some.injEq] at hm'
        rw [if_neg hyp, if_pos rfl, ← hm']
    · by_cases hyp : y = p
      · subst hyp
        simp only [hyt, hyx, ↓reduceIte, hm, Option.map_some, Option.some.injEq] at hm'
        rw [if_pos rfl, if_neg hyt, List.append_nil, ← hm']
      · simp only [hyt, hyx, hyp, ↓reduceIte, hm, Option.some.injEq] at hm'
        rw [if_neg hyp, if_neg hyt, List.append_nil, hm']

end Arena

namespace Workspace

variable {s s' : Workspace} {id t q : NodeId} {n : Node} {p : Placement} {name : String}
  {relist : NodeId → List NodeId → List NodeId}

/-- What a move to another place leaves, with the lists of children as they are told. -/
theorem Sound.relocated (h : s.Sound) (hm : s.arena.Moved id t name s'.arena)
    (hg : s.arena.MayGo id t name)
    (hl : ∀ {y n m}, s.node? y = some n → s'.node? y = some m →
      m.children = relist y n.children) :
    s.Relocated id (Path.child (s.pathOf t) name) relist s' := by
  have htree : s'.arena.IsTree := hm.isTree h.tree hg
  obtain ⟨k, hk⟩ := hg.node
  obtain ⟨d, hd, -⟩ := hg.directory
  have hkeep : ∀ {y n}, s.arena.get? y = some n → ∃ m, s'.arena.get? y = some m ∧
      m.id = n.id ∧ m.kind = n.kind ∧ m.content = n.content ∧ m.size = n.size := by
    intro y n hn
    by_cases hy : y = id
    · subst hy
      obtain ⟨m, hm', ha, -⟩ := hm.top hn
      exact ⟨m, hm', ha.id, ha.kind, ha.content, ha.size⟩
    · obtain ⟨m, hm', ha, -⟩ := hm.kept hy hn
      exact ⟨m, hm', ha.id, ha.kind, ha.content, ha.size⟩
  have hnames : ∀ {y names}, s'.arena.Leads y names → s'.arena.namesTo y = names := by
    intro y names hy
    obtain ⟨m, hm'⟩ := htree.mem_of_leads hy
    exact (htree.leads_iff hm').1 hy
  have ht := h.tree.leads_namesTo hd
  have hx := h.tree.leads_namesTo hk
  have htop := hnames (hm.leads_top hg ht)
  have hplain : Path.AreNames (s.arena.namesTo t) := h.tree.isName_of_leads ht
  refine ⟨fun y => ⟨fun ⟨m, hm'⟩ => hm.back hm', fun ⟨n, hn⟩ => ?_⟩, fun {y n m} hn hm' => ?_, ?_,
    fun {y} hb => ?_, fun {y n} hn hb => ?_⟩
  · obtain ⟨m, hm', -⟩ := hkeep hn
    exact ⟨m, hm'⟩
  · obtain ⟨m', hm'', hid, hkind, hcontent, hsize⟩ := hkeep hn
    obtain rfl := Option.some.inj (hm'.symm.trans hm'')
    exact ⟨hid, hkind, hcontent, hsize, hl hn hm'⟩
  · rw [pathOf, Arena.pathOf, htop, pathOf, Arena.pathOf, Path.child_ofNames hplain]
  · obtain ⟨n, hn⟩ := hb.exists_node hk
    obtain ⟨rest, hrest⟩ := h.tree.leads_below hb hx (h.tree.leads_namesTo hn)
    have hy := hnames (hm.leads_inside h.tree hg ht hx hb (hrest ▸ h.tree.leads_namesTo hn))
    have hne : s.arena.namesTo id ≠ [] := fun he =>
      hg.notRoot (h.tree.leads_injective (he ▸ hx) .root)
    simp only [pathOf, Arena.pathOf, htop, hy, hrest]
    exact Path.exists_suffix (by simp [hne]) rest
  · have hy := hnames (hm.leads_outside (h.tree.leads_namesTo hn) hb)
    rw [pathOf, Arena.pathOf, hy, pathOf, Arena.pathOf]

/-- What is left when nothing changes but times and marks: each node is where it was. -/
theorem Sound.relocated_here (h : s.Sound) (htree : s'.arena.IsTree)
    (hsame : ∀ {y n}, s.arena.get? y = some n →
      ∃ m, s'.arena.get? y = some m ∧ m.Alike n ∧ m.children = n.children)
    (hback : ∀ {y m}, s'.arena.get? y = some m → ∃ n, s.arena.get? y = some n)
    (hn : s.arena.get? id = some n) :
    s.Relocated id (s.pathOf id) (fun _ l => l) s' := by
  have hpath : ∀ {y k}, s.arena.get? y = some k → s'.pathOf y = s.pathOf y := by
    intro y k hk
    obtain ⟨m, hm, -⟩ := hsame hk
    have hl : s'.arena.Leads y (s.arena.namesTo y) := (h.tree.leads_namesTo hk).mono fun hk => by
      obtain ⟨m, hm, ha, -⟩ := hsame hk
      exact ⟨m, hm, ha.name, ha.parentId⟩
    rw [pathOf, Arena.pathOf, (htree.leads_iff hm).1 hl, pathOf, Arena.pathOf]
  refine ⟨fun y => ⟨fun ⟨m, hm⟩ => hback hm, fun ⟨k, hk⟩ => ?_⟩, fun {y k m} hk hm => ?_, hpath hn,
    fun {y} hb => ?_, fun hk _ => hpath hk⟩
  · obtain ⟨m, hm, -⟩ := hsame hk
    exact ⟨m, hm⟩
  · obtain ⟨m', hm', ha, hc⟩ := hsame hk
    obtain rfl := Option.some.inj (hm.symm.trans hm')
    exact ⟨ha.id, ha.kind, ha.content, ha.size, hc⟩
  · obtain ⟨k, hk⟩ := hb.exists_node hn
    obtain ⟨rest, hrest⟩ := h.tree.leads_below hb (h.tree.leads_namesTo hn)
      (h.tree.leads_namesTo hk)
    obtain ⟨suffix, hsuffix, -⟩ := Path.exists_suffix (Iff.refl (s.arena.namesTo id = [])) rest
    have hy : s.pathOf y = s.pathOf id ++ suffix := by
      rw [pathOf, Arena.pathOf, hrest, hsuffix, pathOf, Arena.pathOf]
    exact ⟨suffix, hy, by rw [hpath hk, hpath hn, hy]⟩

theorem Sound.relocated_marked (h : s.Sound) (hn : s.arena.get? id = some n)
    (changes : NodeUpdate) :
    s.Relocated id (s.pathOf id) (fun _ l => l) (s.marked id changes) := by
  refine h.relocated_here (h.marked id changes).tree (fun {y k} hk => ?_) (fun hm => ?_) hn
  · unfold Workspace.marked
    by_cases hy : y = id
    · subst hy
      exact ⟨{ k with marks := changes.marks k.marks }, by rw [Table.get?_modify_self, hk]; rfl,
        ⟨rfl, rfl, rfl, rfl, rfl, rfl⟩, rfl⟩
    · exact ⟨k, by rw [Table.get?_modify_of_ne hy, hk], .refl k, rfl⟩
  · obtain ⟨k, hk, -⟩ := Arena.alike_of_modify
      (f := fun n => { n with marks := changes.marks n.marks })
      (fun _ => ⟨rfl, rfl, rfl, rfl, rfl, rfl⟩) hm
    exact ⟨k, hk⟩

theorem children_renamed_marked (s : Workspace) (p : Placement) (now : Timestamp) (id : NodeId)
    (changes : NodeUpdate) (y : NodeId) :
    (((s.renamed p now).marked id changes).node? y).map Node.children =
      (s.node? y).map Node.children := by
  unfold node? marked renamed Arena.stamp
  rw [Arena.children_modify, Arena.children_modify, Arena.children_modify]
  all_goals exact fun _ => rfl

theorem pathOf_of_parentId (h : s.arena.IsTree) (hn : s.arena.get? id = some n)
    (hp : n.parentId = some q) : s.pathOf id = Path.child (s.pathOf q) n.name := by
  obtain ⟨d, hd, -⟩ := h.parent hn hp
  have hq := h.leads_namesTo hd
  rw [pathOf, Arena.pathOf, (h.leads_iff hn).1 (.child hq hn hp), pathOf, Arena.pathOf,
    Path.child_ofNames (h.isName_of_leads hq)]

/-! ## When a move or a new name is not refused -/

/-- A move passes its check exactly when the node may go to its place. -/
theorem exists_checkMove_iff (h : s.arena.IsTree) {name? : Option String} :
    (∃ p, s.checkMove id t name? = .ok p) ↔
      ∃ n, s.node? id = some n ∧ s.arena.MayGo id t (name?.getD n.name) := by
  constructor
  · rintro ⟨p, hp⟩
    have hf := found_of_checkMove h hp
    refine ⟨p.node, hf.nodeId ▸ hf.node, ?_⟩
    rw [hf.name, ← hf.nodeId, ← hf.targetId]
    by_cases hs : p.isSame = true
    · simp only [Placement.isSame, Bool.and_eq_true, beq_iff_eq] at hs
      rw [hs.2]
      exact h.mayGo_here hf.node hs.1.symm
    · exact mayGo_of_checkMove h hp (by simpa using hs)
  · rintro ⟨n, hn, hg⟩
    obtain ⟨d, hd, hk⟩ := hg.directory
    have hid : n.id = id := h.keyed hn
    have htid : d.id = t := h.keyed hd
    have hpl : s.checkPlacement .rootMoved id t name? = .ok ⟨n, d, name?.getD n.name⟩ :=
      checkPlacement_eq_ok_iff.2 ⟨hn, hid.symm ▸ hg.notRoot, hd, hk, rfl, hg.isName⟩
    have hin : s.isInside ⟨n, d, name?.getD n.name⟩ = false := by
      rw [Bool.eq_false_iff, ne_eq, isInside_iff h (htid.symm ▸ hd), hid, htid]
      exact hg.outside
    refine ⟨⟨n, d, name?.getD n.name⟩, bind_eq_ok.2 ⟨_, hpl, ?_⟩⟩
    simp only [hin, Bool.false_eq_true, ↓reduceIte]
    split
    · rfl
    · split
      · rfl
      · next k hk =>
        obtain ⟨hk, hkp, hkname⟩ := (h.childNamed?_eq_some_iff (htid.symm ▸ hd)).1 hk
        have hkid : k.id = id := by
          by_contra hne
          exact hg.free hk hne (htid ▸ hkp) hkname
        rw [hkid, hid, beq_self_eq_true, if_pos rfl]
        rfl

theorem checkUpdate_of_name {changes : NodeUpdate} (hn : s.arena.get? id = some n)
    (hc : changes.name = some name) : s.checkUpdate id changes =
      if name = n.name then .ok (n, none)
      else if n.id = rootId then .error .rootRenamed
      else checkName name >>= fun _ =>
        match s.parent? n.id with
        | none => .ok (n, none)
        | some parent => s.checkFree parent name >>= fun _ => .ok (n, some ⟨n, parent, name⟩) := by
  rw [checkUpdate_eq, require_eq_ok_iff.2 hn, hc]
  rfl

/-- An update that passes without a place for a new name asks for the name that the node has. -/
theorem name_of_checkUpdate_none (h : s.arena.IsTree) {changes : NodeUpdate}
    (hr : s.checkUpdate id changes = .ok (n, none)) (hc : changes.name = some name) :
    s.arena.get? id = some n ∧ name = n.name := by
  obtain ⟨hn, hkeep⟩ := checkUpdate_none hr
  refine ⟨hn, by_contra fun hne => ?_⟩
  have hid : n.id = id := h.keyed hn
  by_cases hroot : id = rootId
  · rw [checkUpdate_of_name hn hc, if_neg hne, if_pos (hid.trans hroot)] at hr
    cases hr
  · obtain ⟨q, d, hq, hd, -⟩ := h.held hn hroot
    have hpar : s.parent? n.id = some d := by
      rw [parent?, hid, node?, hn, Option.bind_some, hq, Option.bind_some]
      exact hd
    rcases hkeep name hc with he | hnone
    · exact hne he
    · rw [hpar] at hnone
      cases hnone

/-- A new name that is a name passes its check exactly when the node may have it where it is. -/
theorem exists_checkUpdate_iff (h : s.arena.IsTree) {changes : NodeUpdate}
    (hc : changes.name = some name) (hname : Path.isName name = true) :
    (∃ r, s.checkUpdate id changes = .ok r) ↔
      ∃ n q, s.node? id = some n ∧ n.parentId = some q ∧ s.arena.MayGo id q name := by
  constructor
  · rintro ⟨⟨n, p?⟩, hr⟩
    cases p? with
    | some p =>
      obtain ⟨hnode, hn, hpname, -⟩ := checkUpdate_some hr
      obtain ⟨-, hq, hg⟩ := mayGo_of_checkUpdate h hr
      subst hnode
      rw [h.keyed hn, Option.some.inj (hpname.symm.trans hc)] at hg
      exact ⟨p.node, p.target.id, hn, hq, hg⟩
    | none =>
      obtain ⟨hn, rfl⟩ := name_of_checkUpdate_none h hr hc
      have hroot : id ≠ rootId := by
        rintro rfl
        rw [h.unnamed hn] at hname
        cases hname
      obtain ⟨q, -, hq, -⟩ := h.held hn hroot
      exact ⟨n, q, hn, hq, h.mayGo_here hn hq⟩
  · rintro ⟨n, q, hn, hq, hg⟩
    have hid : n.id = id := h.keyed hn
    obtain ⟨d, hd, -⟩ := h.parent hn hq
    rw [checkUpdate_of_name hn hc]
    by_cases hsame : name = n.name
    · exact ⟨(n, none), if_pos hsame⟩
    · have hfree : s.checkFree d name = .ok () :=
        checkFree_eq_ok_iff.2 <| (h.childNamed?_eq_none_iff hd).2 fun c m hm hp he => by
          refine hg.free hm ?_ hp he
          rintro rfl
          obtain rfl := Option.some.inj (hn.symm.trans hm)
          exact hsame he.symm
      have hpar : s.parent? n.id = some d := by
        rw [parent?, hid, hn, Option.bind_some, hq, Option.bind_some]
        exact hd
      refine ⟨(n, some ⟨n, d, name⟩), ?_⟩
      rw [if_neg hsame, if_neg (hid.symm ▸ hg.notRoot), checkName_eq_ok_iff.2 hname, hpar]
      exact bind_eq_ok.2 ⟨(), rfl, bind_eq_ok.2 ⟨(), hfree, rfl⟩⟩

end Workspace

namespace World

variable {σ : Type} {h : Host σ} {w : World σ} {id t : NodeId} {name : String}

/-- What a move does that its check has passed. -/
theorem move_of_checkMove (hs : w.space.Sound) (hf : w.space.boundRoot = none)
    {name? : Option String} {p : Workspace.Placement}
    (hc : w.space.checkMove id t name? = .ok p) :
    ∃ m w', w.move h id t name? = (.ok m, w') ∧ ∃ n q, w.space.node? id = some n ∧
      n.parentId = some q ∧
      w.space.Relocated id (Path.child (w.space.pathOf t) (name?.getD n.name))
        (if q = t ∧ name?.getD n.name = n.name then fun _ l => l else relisted id q t)
        w'.space := by
  have hp := Workspace.found_of_checkMove hs.tree hc
  obtain ⟨q, hq⟩ := hp.held
  have hn := hp.node
  have hname := hp.name
  have htid := hp.targetId
  have hqt : p.isSame = true ↔ q = t ∧ name?.getD p.node.name = p.node.name := by
    rw [Workspace.Placement.isSame, Bool.and_eq_true, beq_iff_eq, beq_iff_eq, hq, hname, htid,
      Option.some.injEq, eq_comm (a := t)]
  obtain rfl := hp.nodeId
  rcases he : w.move h p.node.id t name? with ⟨a, w'⟩
  cases move_ends he with
  | rejected hc' => cases hc.symm.trans hc'
  | unlisted _ _ hb | failed _ _ hb | written _ _ hb => cases hf.symm.trans hb
  | kept hc' hsame =>
    obtain rfl := Except.ok.inj (hc.symm.trans hc')
    obtain ⟨rfl, hnamed⟩ := hqt.1 hsame
    refine ⟨p.node, w, rfl, p.node, q, hn, hq, ?_⟩
    rw [if_pos ⟨rfl, hnamed⟩, hnamed, ← Workspace.pathOf_of_parentId hs.tree hn hq]
    exact hs.relocated_here hs.tree (fun {_ k} hk => ⟨k, hk, .refl k, rfl⟩) (fun hm => ⟨_, hm⟩) hn
  | moved hc' hsame _ hw ha =>
    obtain rfl := Except.ok.inj (hc.symm.trans hc')
    have hg := Workspace.mayGo_of_checkMove hs.tree hc hsame
    have hm := hs.moved_moved hn hq hg h.now
    obtain ⟨m, hm', -⟩ := hm.top hn
    rw [hq, Option.getD_some] at hw
    have hm' : w'.space.node? p.node.id = some m := hw ▸ hm'
    rw [answer_eq_ok hm'] at ha
    refine ⟨m, w', by rw [← ha], p.node, q, hn, hq, ?_⟩
    subst hw
    rw [if_neg fun he => Bool.eq_false_iff.1 hsame (hqt.2 he), hname, ← htid]
    refine hs.relocated hm hg fun {y k m} hk hkm => ?_
    let left : Node :=
      { p.node with name := p.name, parentId := some p.target.id, modifiedAt := h.now }
    refine Arena.children_attach (k := left) hn (fun he => ?_) (fun he => ?_) rfl rfl h.now hk hkm
    · exact hg.outside (he ▸ .refl _ _)
    · exact hs.tree.acyclic q (.single ⟨_, he ▸ hn, hq⟩)

/-- What an update with a name does that its check has passed. -/
theorem update_of_checkUpdate (hs : w.space.Sound) (hf : w.space.boundRoot = none)
    {changes : NodeUpdate} (hname : changes.name = some name)
    {r : Node × Option Workspace.Placement} (hc : w.space.checkUpdate id changes = .ok r) :
    ∃ m w', w.update h id changes = (.ok m, w') ∧ ∃ n, w.space.node? id = some n ∧
      w.space.Relocated id
        ((n.parentId.map fun q => Path.child (w.space.pathOf q) name).getD (Path.ofNames []))
        (fun _ l => l) w'.space := by
  rcases he : w.update h id changes with ⟨a, w'⟩
  cases update_ends he with
  | rejected hc' => cases hc.symm.trans hc'
  | @marked n _ _ hc' hm =>
    obtain rfl := Except.ok.inj (hc.symm.trans hc')
    obtain ⟨hn, rfl⟩ := Workspace.name_of_checkUpdate_none hs.tree hc hname
    have hpath : w.space.pathOf id =
        (n.parentId.map fun q => Path.child (w.space.pathOf q) n.name).getD (Path.ofNames []) := by
      cases hq : n.parentId with
      | none =>
        obtain rfl := (hs.tree.parentId_eq_none_iff hn).1 hq
        rw [Workspace.pathOf, Arena.pathOf, (hs.tree.leads_iff hn).1 .root]
        rfl
      | some q => exact Workspace.pathOf_of_parentId hs.tree hn hq
    cases hm with
    | missing hnone => cases hnone.symm.trans hn
    | marked => exact ⟨_, _, rfl, n, hn, hpath ▸ hs.relocated_marked hn changes⟩
  | unnamed _ hr =>
    cases relabel_ends hr with
    | unlisted hb | failed hb => cases hf.symm.trans hb
  | @renamed n p _ _ _ hc' hr hmark =>
    obtain rfl := Except.ok.inj (hc.symm.trans hc')
    obtain ⟨rfl, hget, hpname, -⟩ := Workspace.checkUpdate_some hc
    obtain ⟨hn, hq, hg⟩ := Workspace.mayGo_of_checkUpdate hs.tree hc
    have hid : p.node.id = id := hs.tree.keyed hget
    subst hid
    obtain rfl := Option.some.inj (hpname.symm.trans hname)
    have hm := hs.moved_renamed hn hq h.now
    obtain ⟨k, hk, -⟩ := hm.top hn
    cases relabel_ends hr with
    | written hb => cases hf.symm.trans hb
    | renamed =>
      cases hmark with
      | missing hnone => cases hnone.symm.trans hk
      | marked =>
        refine ⟨_, _, rfl, p.node, hn, ?_⟩
        rw [hq, Option.map_some, Option.getD_some]
        have hmoved : w.space.arena.Moved p.node.id p.target.id p.name
            ((w.space.renamed p h.now).marked p.node.id changes).arena :=
          hm.modify p.node.id fun n => ⟨⟨rfl, rfl, rfl, rfl, rfl, rfl⟩, rfl⟩
        refine hs.relocated hmoved hg fun {y n m} hy hy' => ?_
        have hlist := Workspace.children_renamed_marked w.space p h.now p.node.id changes y
        rw [hy', hy] at hlist
        exact Option.some.inj hlist

theorem checked_of_move {name? : Option String} {m : Node} {w' : World σ}
    (he : w.move h id t name? = (.ok m, w')) : ∃ p, w.space.checkMove id t name? = .ok p := by
  cases move_ends he with
  | kept hc | moved hc | written hc => exact ⟨_, hc⟩

theorem checked_of_update {changes : NodeUpdate} {m : Node} {w' : World σ}
    (he : w.update h id changes = (.ok m, w')) : ∃ r, w.space.checkUpdate id changes = .ok r := by
  cases update_ends he with
  | marked hc | renamed hc => exact ⟨_, hc⟩

/-- What a move and a new name that succeed in a free workspace make of it, and when they succeed.
To rename a node is to update nothing but its name. -/
theorem relocated_of_reachable (hr : w.Reachable) (hf : w.space.boundRoot = none) (h : Host σ) :
    (∀ {id t name? m w'}, w.move h id t name? = (.ok m, w') → ∃ n q,
      w.space.node? id = some n ∧ n.parentId = some q ∧
        w.space.Relocated id (Path.child (w.space.pathOf t) (name?.getD n.name))
          (if q = t ∧ name?.getD n.name = n.name then fun _ l => l else relisted id q t)
          w'.space) ∧
    (∀ {id changes name m w'}, changes.name = some name →
      w.update h id changes = (.ok m, w') → ∃ n, w.space.node? id = some n ∧
        w.space.Relocated id
          ((n.parentId.map fun q => Path.child (w.space.pathOf q) name).getD (Path.ofNames []))
          (fun _ l => l) w'.space) ∧
    (∀ {id t name?}, (∃ m w', w.move h id t name? = (.ok m, w')) ↔
      ∃ n, w.space.node? id = some n ∧ w.space.arena.MayGo id t (name?.getD n.name)) ∧
    ∀ {id changes name}, changes.name = some name → Path.isName name = true →
      ((∃ m w', w.update h id changes = (.ok m, w')) ↔ ∃ n q, w.space.node? id = some n ∧
        n.parentId = some q ∧ w.space.arena.MayGo id q name) := by
  have hs := hr.sound
  refine ⟨fun {id t name? m w'} he => ?_, fun {id changes name m w'} hname he => ?_,
    fun {id t name?} => ⟨fun ⟨m, w', he⟩ => ?_, fun hg => ?_⟩,
    fun {id changes name} hname hok => ⟨fun ⟨m, w', he⟩ => ?_, fun hg => ?_⟩⟩
  · obtain ⟨p, hp⟩ := checked_of_move he
    obtain ⟨m', w'', he', hmoved⟩ := move_of_checkMove (h := h) hs hf hp
    obtain ⟨-, rfl⟩ := Prod.mk.inj (he.symm.trans he')
    exact hmoved
  · obtain ⟨r, hc⟩ := checked_of_update he
    obtain ⟨m', w'', he', hnamed⟩ := update_of_checkUpdate (h := h) hs hf hname hc
    obtain ⟨-, rfl⟩ := Prod.mk.inj (he.symm.trans he')
    exact hnamed
  · exact (Workspace.exists_checkMove_iff hs.tree).1 (checked_of_move he)
  · obtain ⟨p, hp⟩ := (Workspace.exists_checkMove_iff hs.tree).2 hg
    obtain ⟨m, w', he, -⟩ := move_of_checkMove (h := h) hs hf hp
    exact ⟨m, w', he⟩
  · exact (Workspace.exists_checkUpdate_iff hs.tree hname hok).1 (checked_of_update he)
  · obtain ⟨r, hc⟩ := (Workspace.exists_checkUpdate_iff hs.tree hname hok).2 hg
    obtain ⟨m, w', he, -⟩ := update_of_checkUpdate (h := h) hs hf hname hc
    exact ⟨m, w', he⟩

/-- A host without a bridge. -/
def memoryHost : Host Unit := ⟨none, default⟩

theorem lawful_memoryHost : memoryHost.Lawful := by
  intro b hb
  cases hb

/-- A file in one directory, and another directory beside it. -/
def nestedWorld : World Unit :=
  let first := ((Operation.create .directory "a" rootId "").run memoryHost
    ⟨.new "/home/user" default, ()⟩).2
  let second := ((Operation.create .directory "b" rootId "").run memoryHost first).2
  ((Operation.create .file "c" "n1" "text").run memoryHost second).2

theorem reachable_nestedWorld : nestedWorld.Reachable :=
  .step (.step (.step (.new _ _ _) lawful_memoryHost _) lawful_memoryHost _) lawful_memoryHost _

/-- The first directory moves into the second under another name, and takes its file along; it may
not have a name that is taken. -/
theorem relocated_nested :
    (nestedWorld.Reachable ∧ nestedWorld.space.boundRoot = none) ∧
      (∃ m w', nestedWorld.move memoryHost "n1" "n2" (some "d") = (.ok m, w') ∧
        w'.space.pathOf "n3" = "/b/d/c" ∧
        nestedWorld.space.Relocated "n1" "/b/d" (relisted "n1" rootId "n2") w'.space) ∧
      ¬ ∃ m w', nestedWorld.update memoryHost "n1" { name := some "b" } = (.ok m, w') := by
  have hfree : nestedWorld.space.boundRoot = none := by decide +kernel
  obtain ⟨hmove, -, -, hupdate⟩ :=
    relocated_of_reachable reachable_nestedWorld hfree memoryHost
  refine ⟨⟨reachable_nestedWorld, hfree⟩, ?_, fun hok => ?_⟩
  · have hok : (nestedWorld.move memoryHost "n1" "n2" (some "d")).1.isOk = true ∧
        (nestedWorld.move memoryHost "n1" "n2" (some "d")).2.space.pathOf "n3" = "/b/d/c" ∧
        (nestedWorld.space.node? "n1").map Node.parentId = some (some rootId) ∧
        Path.child (nestedWorld.space.pathOf "n2") "d" = "/b/d" := by decide +kernel
    obtain ⟨hmoved, hpath, hparent, hplace⟩ := hok
    obtain ⟨m, hm⟩ := exists_of_isOk hmoved
    have he : nestedWorld.move memoryHost "n1" "n2" (some "d") =
        (.ok m, (nestedWorld.move memoryHost "n1" "n2" (some "d")).2) := Prod.ext hm rfl
    obtain ⟨n, q, hn, hq, hrelocated⟩ := hmove he
    rw [hn, Option.map_some, hq] at hparent
    obtain rfl : q = rootId := Option.some.inj (Option.some.inj hparent)
    refine ⟨m, _, he, hpath, ?_⟩
    rw [Option.getD_some, hplace, if_neg fun he => absurd he.1 (by decide)] at hrelocated
    exact hrelocated
  · obtain ⟨n, q, hn, hq, hg⟩ := (hupdate rfl (by decide)).1 hok
    have hparent : (nestedWorld.space.node? "n1").map Node.parentId = some (some rootId) ∧
        (nestedWorld.space.node? "n2").map (fun k => (k.parentId, k.name)) =
          some (some rootId, "b") := by decide +kernel
    rw [hn, Option.map_some, hq] at hparent
    obtain rfl : q = rootId := Option.some.inj (Option.some.inj hparent.1)
    obtain ⟨k, hk, he⟩ := Option.map_eq_some_iff.1 hparent.2
    obtain ⟨hkp, hkname⟩ := Prod.mk.inj he
    exact hg.free hk (by decide) hkp hkname

end World

end Workbench
