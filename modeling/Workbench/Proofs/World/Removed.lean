import Workbench.Proofs.World.Free
import Workbench.Proofs.World.Relocated

/-!
# What a deletion leaves

In a free workspace a deletion takes away exactly the nodes whose paths are at or below the path of
the deleted node, and leaves every other node as it was, but for the list of its directory
(`Workspace.Removed`). No way leads to what is gone: a route that ended there enters the subtree
at its top, by the name that the directory no longer has (`Arena.Pruned.follow?_eq_none`). Routes
that only pass through the subtree may still end elsewhere, so that this is said of ends alone.
-/

namespace Workbench

open Workbench.Path (AreNames)

/-! ## Paths below paths -/

namespace Path

variable {names names' : List String}

theorem isAtOrBelow_ofNames_iff (h : AreNames names) (h' : AreNames names') :
    isAtOrBelow (ofNames names') (ofNames names) = true ↔ names <+: names' := by
  have htop : (dropSlashes (ofNames names) ++ "/").toList = Disk.trail names ++ ['/'] := by
    rw [String.toList_append, toList_dropSlashes_ofNames fun s hs =>
      ⟨(isName_iff.1 (h s hs)).1, h.no_slash s hs⟩]
    rfl
  rw [isAtOrBelow, Bool.or_eq_true, beq_iff_eq, Text.startsWith, List.isPrefixOf_iff_prefix, htop]
  constructor
  · rintro (he | ⟨rest, hrest⟩)
    · obtain rfl := ofNames_injective h' h he
      exact List.prefix_rfl
    · by_cases hne : names' = []
      · -- the path of the root is a slash, which is all of the trail
        subst hne
        have hlen := congrArg List.length hrest
        cases names with
        | nil => exact List.prefix_rfl
        | cons s rest' => simp [Disk.trail_cons, ofNames] at hlen
      · rw [toList_ofNames hne, List.append_assoc] at hrest
        obtain ⟨r, -, rfl⟩ := Disk.prefix_of_trail h.no_slash h' hrest.symm
        exact List.prefix_append names r
  · rintro ⟨r, rfl⟩
    cases r with
    | nil => exact .inl (by rw [List.append_nil])
    | cons s rest =>
      refine .inr ⟨s.toList ++ Disk.trail rest, ?_⟩
      rw [toList_ofNames (by simp), Disk.trail_append, Disk.trail_cons]
      simp

end Path

namespace Arena

variable {a a' : Arena} {x y p : NodeId} {n n' k : Node} {now : Timestamp}

theorem IsTree.isAtOrBelow_pathOf_iff (h : a.IsTree) (hx : a.get? x = some n)
    (hy : a.get? y = some k) :
    Path.isAtOrBelow (a.pathOf y) (a.pathOf x) = true ↔ a.AtOrBelow x y := by
  have hlx := h.leads_namesTo hx
  have hly := h.leads_namesTo hy
  rw [pathOf, pathOf, Path.isAtOrBelow_ofNames_iff (h.isName_of_leads hlx) (h.isName_of_leads hly),
    h.atOrBelow_iff hlx hly]

/-! ## What is left of a tree -/

theorem IsTree.get?_pruned (h : a.IsTree) (hx : a.get? x = some n) (hy : ¬ a.AtOrBelow x y) :
    Table.get? (((a.detach p x).stamp p now).eraseMany (a.subtreeIds x)) y =
      (a.get? y).map fun k =>
        if y = p then { k with children := k.children.erase x, modifiedAt := now } else k := by
  rw [Table.get?_eraseMany, if_neg (fun hmem => hy ((h.mem_subtreeIds_iff hx).1 hmem))]
  simp only [stamp, detach, Table.get?_modify]
  by_cases hyp : y = p
  · simp only [hyp, ↓reduceIte, Option.map_map]
    rfl
  · simp only [hyp, ↓reduceIte, Option.map_id']

namespace Pruned

theorem parent_kept (hp : a.Pruned x a') (h : a.IsTree) (hn : a.get? y = some n)
    (hn' : a'.get? y = some n') {q : NodeId} (hq : n.parentId = some q) :
    ∃ d d', a.get? q = some d ∧ a'.get? q = some d' := by
  obtain ⟨hy, -⟩ := hp.origin hn'
  obtain ⟨d, hd, -⟩ := h.parent hn hq
  obtain ⟨d', hd', -⟩ := hp.kept (fun hb => hy (hb.tail ⟨n, hn, hq⟩)) hd
  exact ⟨d, d', hd, hd'⟩

/-- A route that led to what has been removed leads nowhere. -/
theorem follow?_eq_none (hp : a.Pruned x a') (h : a.IsTree) (h' : a'.IsTree)
    (hn : a.get? y = some n) (hn' : a'.get? y = some n') {route : List String}
    (hf : a.follow? route n = some k) (hk : a.AtOrBelow x k.id) : a'.follow? route n' = none := by
  induction route generalizing y n n' with
  | nil =>
    obtain rfl := Option.some.inj hf
    rw [h.keyed hn] at hk
    exact absurd hk (hp.origin hn').1
  | cons s rest ih =>
    obtain ⟨hy, e, he, ha, -⟩ := hp.origin hn'
    obtain rfl := Option.some.inj (hn.symm.trans he)
    have hdir : n'.isDirectory = n.isDirectory := by
      rw [Node.isDirectory, Node.isDirectory, ha.kind]
    rw [follow?] at hf ⊢
    rw [hdir, ha.parentId]
    split at hf
    · next hs => rw [if_pos hs]; exact ih hn hn' hf
    next hs =>
    rw [if_neg hs]
    split at hf
    · cases hf
    next hd =>
    rw [if_neg hd]
    split at hf
    · next hdot => rw [if_pos hdot]; exact ih hn hn' hf
    next hdot =>
    rw [if_neg hdot]
    split at hf
    · next hdots =>
      rw [if_pos hdots]
      cases hq : n.parentId with
      | none =>
        rw [hq] at hf
        exact ih hn hn' hf
      | some q =>
        obtain ⟨d, d', hd, hd'⟩ := hp.parent_kept h hn hn' hq
        rw [hq, Option.bind_some, hd] at hf
        rw [Option.bind_some, hd']
        exact ih hd hd' hf
    next hdots =>
    rw [if_neg hdots]
    cases hc : a.childNamed? n s with
    | none =>
      rw [hc] at hf
      cases hf
    | some c =>
      rw [hc] at hf
      obtain ⟨hcget, hcp, hcname⟩ := (h.childNamed?_eq_some_iff hn).1 hc
      by_cases hb : a.AtOrBelow x c.id
      · -- the only child of that name is gone
        have hnone : a'.childNamed? n' s = none := by
          rw [h'.childNamed?_eq_none_iff hn']
          intro z m hm hmp hmname
          obtain ⟨hz, m', hm', hma, -⟩ := hp.origin hm
          have hzc : z = c.id := h.siblings hm' hcget
            (hma.parentId.symm.trans (hmp.trans hcp.symm))
            (hma.name.symm.trans (hmname.trans hcname.symm))
          exact hz (hzc ▸ hb)
        rw [hnone]
      · obtain ⟨c', hc', hca, -⟩ := hp.kept hb hcget
        have hcid : c'.id = c.id := h'.keyed hc'
        have hsome : a'.childNamed? n' s = some c' := (h'.childNamed?_eq_some_iff hn').2
          ⟨by rw [hcid]; exact hc', hca.parentId.trans hcp, hca.name.trans hcname⟩
        rw [hsome]
        exact ih hcget hc' hf

end Pruned

end Arena

/-! ## What a deletion makes of a workspace -/

namespace Workspace

variable {s s' : Workspace} {id q y : NodeId} {n k m : Node} {now : Timestamp}

/-- The subtree of `id` has been removed from the directory `q`. -/
structure Removed (s : Workspace) (id q : NodeId) (now : Timestamp) (s' : Workspace) : Prop where
  gone : ∀ {y k}, s.node? y = some k →
    (s'.node? y = none ↔ Path.isAtOrBelow (s.pathOf y) (s.pathOf id) = true)
  kept : ∀ {y k}, s.node? y = some k → ¬ Path.isAtOrBelow (s.pathOf y) (s.pathOf id) = true →
    s'.node? y =
      some (if y = q then { k with children := k.children.erase id, modifiedAt := now } else k)
  only : ∀ {y m}, s'.node? y = some m → ∃ k, s.node? y = some k
  paths : ∀ {y m}, s'.node? y = some m → s'.pathOf y = s.pathOf y
  dead : ∀ {path cwd k}, s.resolve? path cwd = some k →
    Path.isAtOrBelow (s.pathOf k.id) (s.pathOf id) = true → s'.resolve? path cwd = none
  openIds : s'.tabs.openIds =
    s.tabs.openIds.filter fun y => !Path.isAtOrBelow (s.pathOf y) (s.pathOf id)
  rest : s' = { s with arena := s'.arena, tabs := s'.tabs }

theorem Sound.removed_removed (h : s.Sound) (hn : s.node? id = some n) (hq : n.parentId = some q)
    (now : Timestamp) : s.Removed id q now (s.removed n q now) := by
  have hid := h.tree.keyed hn
  subst hid
  have hp := Arena.pruned_erase h.tree hn hq now
  have hroot : n.id ≠ rootId := by
    intro he
    rw [(h.tree.parentId_eq_none_iff hn).2 he] at hq
    cases hq
  have htree := hp.isTree h.tree hroot
  have hbelow : ∀ {y k}, s.node? y = some k →
      (Path.isAtOrBelow (s.pathOf y) (s.pathOf n.id) = true ↔ s.arena.AtOrBelow n.id y) :=
    fun hk => h.tree.isAtOrBelow_pathOf_iff hn hk
  have hget : ∀ {y k}, s.node? y = some k → ¬ s.arena.AtOrBelow n.id y →
      (s.removed n q now).node? y = some
        (if y = q then { k with children := k.children.erase n.id, modifiedAt := now } else k) :=
    fun hk hy => by
      exact (h.tree.get?_pruned hn hy).trans (congrArg (Option.map _) hk)
  refine ⟨fun hk => ?gone, fun hk hy => hget hk fun hb => hy ((hbelow hk).2 hb), hp.back,
    fun {y m} hm => ?paths, fun {path cwd k} hk hb => ?dead, ?openIds, rfl⟩
  case gone =>
    rw [hbelow hk]
    refine ⟨fun hnone => ?_, fun hb => hp.gone hb⟩
    by_contra hb
    rw [hget hk hb] at hnone
    cases hnone
  case paths =>
    obtain ⟨hy, k, hk, -⟩ := hp.origin hm
    have hl := hp.leads (h.tree.leads_namesTo hk) hy
    exact congrArg Path.ofNames ((htree.leads_iff hm).1 hl)
  case dead =>
    have hk' := node?_of_resolve? h.tree hk
    obtain ⟨r, hr, hf⟩ := Option.bind_eq_some_iff.1 hk
    obtain ⟨r', hr', -⟩ := hp.kept (fun hb' => hroot (h.tree.eq_of_below_root hb')) hr
    refine Option.bind_eq_none_iff.2 fun r'' hr'' => ?_
    obtain rfl := Option.some.inj (hr'.symm.trans hr'')
    exact hp.follow?_eq_none h.tree htree hr hr' hf ((hbelow hk').1 hb)
  case openIds =>
    refine (h.tabs.openIds_closeMany _).trans (List.filter_congr fun y hy => ?_)
    obtain ⟨k, hk, -⟩ := h.files hy
    rw [Bool.eq_iff_iff, decide_eq_true_eq, Bool.not_eq_true', Bool.eq_false_iff, ne_eq,
      hbelow hk, h.tree.mem_subtreeIds_iff hn]

end Workspace

/-! ## Deletions that succeed -/

namespace World

variable {σ : Type} {h : Host σ} {w : World σ} {id : NodeId} {recursive : Bool}

/-- What a deletion does that its check has passed. -/
theorem delete_of_checkDelete (hs : w.space.Sound) (hf : w.space.boundRoot = none) {n : Node}
    (hc : w.space.checkDelete id recursive = .ok n) : ∃ w', w.delete h id recursive = (.ok (), w') ∧
      w'.disk = w.disk ∧ ∃ q, w.space.node? id = some n ∧ n.parentId = some q ∧
        w.space.Removed id q h.now w'.space := by
  obtain ⟨hn, hroot, -⟩ := Workspace.checkDelete_eq_ok_iff.1 hc
  have hid := hs.tree.keyed hn
  obtain ⟨q, -, hq, -⟩ := hs.tree.held hn (hid ▸ hroot)
  rcases he : w.delete h id recursive with ⟨a, w'⟩
  cases delete_ends he with
  | rejected hc' => cases hc.symm.trans hc'
  | failed _ hb | written _ hb => cases hf.symm.trans hb
  | removed hc' =>
    obtain rfl := Except.ok.inj (hc.symm.trans hc')
    refine ⟨_, rfl, rfl, q, hn, hq, ?_⟩
    rw [hq]
    exact hs.removed_removed hn hq h.now

/-- When a deletion in a free workspace succeeds, and what it leaves. -/
theorem removed_of_reachable (hr : w.Reachable) (hf : w.space.boundRoot = none) (h : Host σ) :
    (∀ {id recursive w'}, w.delete h id recursive = (.ok (), w') → w'.disk = w.disk ∧
      ∃ n q, w.space.node? id = some n ∧ n.parentId = some q ∧
        w.space.Removed id q h.now w'.space) ∧
    ∀ {id recursive}, (∃ w', w.delete h id recursive = (.ok (), w')) ↔
      ∃ n, w.space.node? id = some n ∧ id ≠ rootId ∧
        (n.kind = .file ∨ n.children = [] ∨ recursive = true) := by
  have hs := hr.sound
  have checked : ∀ {id recursive w'}, w.delete h id recursive = (.ok (), w') →
      ∃ n, w.space.checkDelete id recursive = .ok n := by
    intro id recursive w' he
    unfold delete at he
    split at he
    · cases he
    · next n hn => exact ⟨n, hn⟩
  refine ⟨fun {id recursive w'} he => ?_, fun {id recursive} => ⟨fun ⟨w', he⟩ => ?_, ?_⟩⟩
  · obtain ⟨n, hc⟩ := checked he
    obtain ⟨w'', he', hdisk, q, hn, hq, hremoved⟩ := delete_of_checkDelete (h := h) hs hf hc
    obtain rfl := (Prod.mk.inj (he.symm.trans he')).2
    exact ⟨hdisk, n, q, hn, hq, hremoved⟩
  · obtain ⟨n, hc⟩ := checked he
    obtain ⟨hn, hroot, hempty⟩ := Workspace.checkDelete_eq_ok_iff.1 hc
    refine ⟨n, hn, hs.tree.keyed hn ▸ hroot, ?_⟩
    cases hk : n.kind with
    | file => exact .inl rfl
    | directory =>
      by_cases hch : n.children = []
      · exact .inr (.inl hch)
      · exact .inr (.inr (hempty hk hch))
  · rintro ⟨n, hn, hroot, hempty⟩
    have hc : w.space.checkDelete id recursive = .ok n := by
      refine Workspace.checkDelete_eq_ok_iff.2 ⟨hn, hs.tree.keyed hn ▸ hroot, fun hk hch => ?_⟩
      rcases hempty with hfile | hnone | hrec
      · rw [hk] at hfile
        cases hfile
      · exact absurd hnone hch
      · exact hrec
    obtain ⟨w', he, -⟩ := delete_of_checkDelete (h := h) hs hf hc
    exact ⟨w', he⟩

/-- The file in the first directory is open. -/
def openWorld : World Unit := ((Operation.openTab "n3").run memoryHost nestedWorld).2

/-- The directory of the open file is deleted when this is asked for, and not while it holds the
file otherwise. -/
theorem removed_open :
    (openWorld.Reachable ∧ openWorld.space.boundRoot = none) ∧
      (∃ w', openWorld.delete memoryHost "n1" true = (.ok (), w') ∧
        openWorld.space.Removed "n1" rootId default w'.space ∧
        openWorld.space.tabs.openIds = ["n3"] ∧ w'.space.tabs.openIds = [] ∧
        (∃ k, openWorld.space.resolve? "b/../a/c" "/" = some k) ∧
        w'.space.resolve? "b/../a/c" "/" = none) ∧
      ¬ ∃ w', openWorld.delete memoryHost "n1" false = (.ok (), w') := by
  have hreach : openWorld.Reachable := .step reachable_nestedWorld lawful_memoryHost _
  have hfree : openWorld.space.boundRoot = none := by decide +kernel
  obtain ⟨hdelete, hok⟩ := removed_of_reachable hreach hfree memoryHost
  have hcheck : (openWorld.space.node? "n1").map (fun n => (n.parentId, n.kind, n.children)) =
        some (some rootId, .directory, ["n3"]) ∧
      (openWorld.space.resolve? "b/../a/c" "/").isSome = true ∧
      (openWorld.space.resolve? "b/../a/c" "/").map (fun k => openWorld.space.pathOf k.id) =
        some "/a/c" ∧ openWorld.space.pathOf "n1" = "/a" ∧
      openWorld.space.tabs.openIds = ["n3"] ∧ openWorld.space.pathOf "n3" = "/a/c" := by
    decide +kernel
  obtain ⟨hparent, hthere, hplace, htop, htabs, hfile⟩ := hcheck
  refine ⟨⟨hreach, hfree⟩, ?_, fun hagain => ?_⟩
  · obtain ⟨n, hn, -⟩ := Option.map_eq_some_iff.1 hparent
    have hroot : ("n1" : NodeId) ≠ rootId := by decide
    obtain ⟨w', he⟩ := hok.2 ⟨n, hn, hroot, .inr (.inr rfl)⟩
    obtain ⟨-, n', q, hn', hq, hremoved⟩ := hdelete he
    rw [hn', Option.map_some, hq] at hparent
    obtain rfl : q = rootId := Option.some.inj (Prod.mk.inj (Option.some.inj hparent)).1
    obtain ⟨k, hk⟩ := Option.isSome_iff_exists.1 hthere
    rw [hk, Option.map_some] at hplace
    refine ⟨w', he, hremoved, htabs, ?_, ⟨k, hk⟩, hremoved.dead hk ?_⟩
    · rw [hremoved.openIds, htabs, List.filter_cons, hfile, htop]
      decide
    · rw [Option.some.inj hplace, htop]
      decide
  · obtain ⟨n, hn, -, hempty⟩ := hok.1 hagain
    rw [hn, Option.map_some] at hparent
    obtain ⟨-, hrest⟩ := Prod.mk.inj (Option.some.inj hparent)
    obtain ⟨hkind, hchildren⟩ := Prod.mk.inj hrest
    rcases hempty with hfile' | hnone | hrec
    · rw [hkind] at hfile'
      cases hfile'
    · rw [hchildren] at hnone
      cases hnone
    · cases hrec

end World

end Workbench
