import Workbench.Proofs.Workspace.Effect
import Workbench.Proofs.World.RoundTrip

/-!
# Free workspaces by their shapes

In a workspace that is not bound to a disk an operation is an edit of the tree, and where the
operation succeeds its shape tells all of it: what is deleted is gone from its place, what is
written is there, and the rest is as it was. A path of proper names none of which ends with a blank
leads along these names (`Workspace.resolve?_ofNames`), so that paths and places can be exchanged.
-/

namespace Workbench

open Workbench.Path (AreNames)
open Workspace (Effect)

namespace Shape

/-- A shape without what lies at one place. -/
def dropped (S : Shape) (p : List String) : Shape := fun q c => S q c ∧ q ≠ p

/-- A shape with directories along names that lead on from a place. -/
def paved (S : Shape) (p names : List String) : Shape := fun q c =>
  S q c ∨ c = none ∧ ∃ r, r ≠ [] ∧ r <+: names ∧ q = p ++ r

variable {S : Shape} {p q r names : List String} {s : String} {c : Option String}

theorem IsTree.pruned_eq_dropped (h : S.IsTree) (hb : ∀ s, S.Free (p ++ [s])) :
    S.pruned p = S.dropped p := by
  funext q c
  refine propext (and_congr_right fun hs => not_congr ⟨?_, fun he => he ▸ List.prefix_rfl⟩)
  rintro ⟨r, rfl⟩
  cases r with
  | nil => rw [List.append_nil]
  | cons s r =>
    rw [List.append_cons] at hs
    exact absurd hs (h.free_append (hb s) r c)

/-- A new directory is empty. -/
theorem IsTree.grown_bare (h : S.IsTree) (hf : S.Free p) :
    S.grown p none p none ∧ ∀ s, (S.grown p none).Free (p ++ [s]) := by
  refine ⟨.inr ⟨rfl, rfl⟩, fun s c hc => ?_⟩
  rcases hc with hc | ⟨he, -⟩
  · exact h.free_append hf [s] c hc
  · simp at he

theorem paved_nil (S : Shape) (p : List String) : S.paved p [] = S := by
  funext q c
  refine propext ⟨?_, .inl⟩
  rintro (hs | ⟨-, r, hr, hpre, -⟩)
  · exact hs
  · exact absurd (List.prefix_nil.1 hpre) hr

theorem IsTree.paved_self (h : S.IsTree) (names : List String) : S.paved [] names names none := by
  by_cases hn : names = []
  · exact .inl (hn ▸ h.root)
  · exact .inr ⟨rfl, names, hn, List.prefix_rfl, (List.nil_append names).symm⟩

/-- Directories along names leave room for more names. -/
theorem Free.paved (hf : S.Free (names ++ [s])) : (S.paved [] names).Free (names ++ [s]) := by
  rintro c (hs | ⟨-, r, -, hpre, he⟩)
  · exact hf c hs
  · rw [List.nil_append] at he
    exact absurd (he ▸ hpre).length_le (by simp)

/-- Directories along names are a directory of the first and the directories from there. -/
theorem paved_cons (hs : S (p ++ [s]) none) :
    S.paved p (s :: names) = S.paved (p ++ [s]) names := by
  funext q c
  refine propext ⟨?_, ?_⟩
  · rintro (hq | ⟨rfl, r, hr, hpre, rfl⟩)
    · exact .inl hq
    · obtain ⟨t, r, rfl⟩ := List.exists_cons_of_ne_nil hr
      obtain ⟨rfl, hrest⟩ := List.cons_prefix_cons.1 hpre
      cases r with
      | nil => exact .inl hs
      | cons u r => exact .inr ⟨rfl, u :: r, by simp, hrest, by simp⟩
  · rintro (hq | ⟨rfl, r, hr, hpre, rfl⟩)
    · exact .inl hq
    · exact .inr ⟨rfl, s :: r, by simp, List.cons_prefix_cons.2 ⟨rfl, hpre⟩, by simp⟩

theorem paved_grown (S : Shape) (p : List String) (s : String) (names : List String) :
    (S.grown (p ++ [s]) none).paved (p ++ [s]) names = S.paved p (s :: names) := by
  rw [← paved_cons (p := p) (.inr ⟨rfl, rfl⟩)]
  funext q c
  refine propext ⟨?_, ?_⟩
  · rintro ((hq | ⟨rfl, rfl⟩) | h)
    · exact .inl hq
    · exact .inr ⟨rfl, [s], by simp, List.cons_prefix_cons.2 ⟨rfl, List.nil_prefix⟩, rfl⟩
    · exact .inr h
  · rintro (hq | h)
    · exact .inl (.inl hq)
    · exact .inr h

end Shape

namespace Arena

variable {a : Arena} {n r : Node} {names : List String}

/-- Proper names lead from the root to the node at their place. -/
theorem IsTree.follow?_names_iff (h : a.IsTree) (hr : a.get? rootId = some r)
    (hnames : AreNames names) :
    a.follow? names r = some n ↔ a.Leads n.id names ∧ a.get? n.id = some n := by
  constructor
  · intro hf
    induction names using List.reverseRecOn generalizing n with
    | nil =>
      obtain rfl := Option.some.inj hf
      have hid := h.keyed hr
      rw [hid]
      exact ⟨.root, hr⟩
    | append_singleton names s ih =>
      obtain ⟨hnames, hs⟩ := AreNames.append_iff.1 hnames
      have hs := AreNames.singleton_iff.1 hs
      rw [follow?_append] at hf
      obtain ⟨d, hd, hf⟩ := Option.bind_eq_some_iff.1 hf
      obtain ⟨hl, hget⟩ := ih hnames hd
      cases hk : d.kind with
      | file =>
        have hne : s.isEmpty = false := by
          simpa [String.isEmpty_iff] using (Path.isName_iff.1 hs).1
        simp [follow?, hne, Node.isDirectory, hk] at hf
      | directory =>
        rw [follow?_name hk hs, h.childNamed?_eq_some_iff hget] at hf
        obtain ⟨hn, hp, rfl⟩ := hf
        exact ⟨.child hl hn hp, hn⟩
  · rintro ⟨hl, hn⟩
    exact h.follow?_leads hl hr hn

/-- Following a route leads from a node of the tree to nodes of the tree. -/
theorem IsTree.get?_of_follow? (h : a.IsTree) {m : Node} (hn : a.get? n.id = some n)
    (hf : a.follow? names n = some m) : a.get? m.id = some m := by
  have stored : ∀ {id k}, a.get? id = some k → a.get? k.id = some k := fun hk => by
    rw [h.keyed hk]
    exact hk
  induction names generalizing n with
  | nil => exact Option.some.inj hf ▸ hn
  | cons s rest ih =>
    rw [follow?] at hf
    split at hf
    · exact ih hn hf
    · split at hf
      · cases hf
      · split at hf
        · exact ih hn hf
        · split at hf
          · split at hf
            · next d hd =>
              obtain ⟨p, -, hp⟩ := Option.bind_eq_some_iff.1 hd
              exact ih (stored hp) hf
            · exact ih hn hf
          · split at hf
            · next c hc =>
              obtain ⟨x, -, hx⟩ := List.mem_filterMap.1 (List.mem_of_find?_eq_some hc)
              exact ih (stored hx) hf
            · cases hf

end Arena

namespace Workspace

variable {s : Workspace} {n : Node} {q : List String} {path cwd : String}

theorem node?_of_resolve? (h : s.arena.IsTree) (hn : s.resolve? path cwd = some n) :
    s.node? n.id = some n := by
  obtain ⟨r, hr, hf⟩ := Option.bind_eq_some_iff.1 hn
  exact h.get?_of_follow? (by rw [h.keyed hr]; exact hr) hf

/-- A path of names leads along them, if the last one does not end with a blank. -/
theorem resolve?_ofNames (h : s.arena.IsTree) (hq : AreNames q)
    (hplain : ∀ t ∈ q.getLast?, Path.IsPlain t) (cwd : String) :
    s.resolve? (Path.ofNames q) cwd = some n ↔
      s.arena.Leads n.id q ∧ s.arena.get? n.id = some n := by
  obtain ⟨r, hr, -⟩ := h.root
  rw [resolve?, Arena.resolve?, hr, Option.bind_some, ← h.follow?_names_iff hr hq]
  cases q using List.reverseRecOn with
  | nil =>
    rw [Path.route_root]
    rfl
  | append_singleton q t =>
    obtain ⟨hslash, ht⟩ := AreNames.append_iff.1 hq
    have hplain : Path.IsPlain t := hplain t (by simp)
    rw [Path.route_ofNames _ _ hslash.no_slash (ht.no_slash t List.mem_cons_self),
      Text.dropEndBlanks_eq_iff.2 hplain]
    rfl

theorem resolve?_ofNames_eq_none_iff (h : s.arena.IsTree) (hq : AreNames q)
    (hplain : ∀ t ∈ q.getLast?, Path.IsPlain t) (cwd : String) :
    s.resolve? (Path.ofNames q) cwd = none ↔ Shape.Free s.arena.Shows q := by
  rw [h.free_iff, Option.eq_none_iff_forall_ne_some]
  constructor
  · intro hnone y hy
    obtain ⟨n, hn⟩ := h.mem_of_leads hy
    have hid := h.keyed hn
    subst hid
    exact hnone n ((resolve?_ofNames h hq hplain cwd).2 ⟨hy, hn⟩)
  · intro hfree n hn
    exact hfree n.id ((resolve?_ofNames h hq hplain cwd).1 hn).1

end Workspace

namespace World

variable {σ : Type} {h : Host σ} {w w' : World σ} {id : NodeId} {n : Node} {q names : List String}
  {name content : String}

/-- A sound workspace that is not bound to a disk. -/
structure Free (w : World σ) : Prop where
  unbound : w.space.boundRoot = none
  sound : w.space.Sound

theorem Free.effect {τ : Course} {S : Shape} (hf : w.Free)
    (he : Effect τ S w.space w'.space) : w'.Free :=
  ⟨he.boundRoot.trans hf.unbound, he.sound⟩

/-- A deletion that is not recursive takes away what is at one place, and nothing was below it. -/
theorem shows_of_delete (hf : w.Free) (hl : w.space.arena.Leads id q)
    (hd : w.delete h id false = (.ok (), w')) :
    w'.Free ∧ w'.space.arena.Shows = Shape.dropped w.space.arena.Shows q := by
  have ht := hf.sound.tree
  cases delete_ends hd with
  | written _ hb => cases hf.unbound.symm.trans hb
  | @removed n hc =>
    obtain ⟨hn, hroot, hempty⟩ := Workspace.checkDelete_eq_ok_iff.1 hc
    obtain rfl := ht.keyed hn
    obtain ⟨p, -, hp, -⟩ := ht.held hn hroot
    have he := Effect.removed hf.sound hl hn hp h.now
    rw [hp]
    refine ⟨hf.effect he, he.shows.trans (ht.shape.pruned_eq_dropped fun s => ?_)⟩
    -- a node below would be a child, and neither a file nor this directory has one
    rw [ht.free_iff]
    intro y hy
    obtain ⟨m, hm, hmp, -⟩ := (ht.leads_append_iff hl).1 hy
    have hchild : y ∈ n.children := (ht.mem_children_iff hn).2 ⟨m, hm, hmp⟩
    have hk := Node.kind_of_mem_children (ht.fit hn) hchild
    cases hempty hk (List.ne_nil_of_mem hchild)

theorem shows_of_setContent (hf : w.Free) (hl : w.space.arena.Leads id q)
    (hd : w.setContent h id content = (.ok n, w')) :
    w'.Free ∧ w'.space.arena.Shows = Shape.refilled w.space.arena.Shows q content ∧
      ∃ old, w.space.arena.Shows q (some old) := by
  cases setContent_ends hd with
  | written _ hb => cases hf.unbound.symm.trans hb
  | @refilled m _ _ hc _ hw =>
    obtain ⟨hm, hk⟩ := Workspace.requireFile_eq_ok_iff.1 hc
    obtain rfl := hf.sound.tree.keyed hm
    have he := Effect.refilled hf.sound hl hm hk content h.now
    subst hw
    refine ⟨hf.effect he, he.shows, m.content, m.id, m, hl, hm, ?_⟩
    rw [Node.shown, if_pos (Node.isFile_iff.2 hk)]

theorem shows_of_create {kind : NodeKind} (hf : w.Free) (hl : w.space.arena.Leads id q)
    (hd : w.create h kind name id content = (.ok n, w')) :
    w'.Free ∧ w'.space.arena.Shows =
        Shape.grown w.space.arena.Shows (q ++ [name]) (kind.shown content) ∧
      w'.space.arena.Leads n.id (q ++ [name]) ∧ w.space.arena.Shows q none ∧
      Shape.Free w.space.arena.Shows (q ++ [name]) := by
  cases create_ends hd with
  | written _ hb => cases hf.unbound.symm.trans hb
  | added hc =>
    obtain ⟨-, hget, hk, hfree⟩ := Workspace.checkCreate_eq_ok_iff.1 hc
    obtain rfl := hf.sound.tree.keyed hget
    obtain ⟨he, -, hlead⟩ := Effect.created hf.sound hc hl kind content h.now
    refine ⟨hf.effect he, he.shows, hlead, ⟨_, _, hl, hget, Node.shown_eq_none_iff.2 hk⟩, ?_⟩
    exact hf.sound.tree.free_of_childNamed? hl hget hfree

/-- Following proper names creates the directories that are missing on the way. -/
theorem shows_of_ensureBelow (hf : w.Free) (hl : w.space.arena.Leads id q)
    (hnames : AreNames names) (hd : w.ensureBelow h names id = (.ok n, w')) :
    w'.Free ∧ w'.space.arena.Shows = Shape.paved w.space.arena.Shows q names ∧
      w'.space.arena.Leads n.id (q ++ names) := by
  induction names generalizing w id q with
  | nil =>
    obtain ⟨m, hm⟩ := hf.sound.tree.mem_of_leads hl
    rw [ensureBelow_nil hm] at hd
    obtain ⟨ha, rfl⟩ := Prod.mk.inj hd
    obtain rfl := Except.ok.inj ha
    rw [Shape.paved_nil, List.append_nil, hf.sound.tree.keyed hm]
    exact ⟨hf, rfl, hl⟩
  | cons s rest ih =>
    obtain ⟨hs, hrest⟩ := List.forall_mem_cons.1 hnames
    obtain ⟨-, hdot, hdots, -⟩ := Path.isName_iff.1 hs
    rw [List.append_cons]
    cases ensureBelow_ends hd with
    | here _ he => exact absurd he hdot
    | above _ he => exact absurd he hdots
    | below hn hc hk hr =>
      obtain ⟨hcget, hp, rfl⟩ := (hf.sound.tree.childNamed?_eq_some_iff hn).1 hc
      have hchild := Arena.Leads.child hl hcget hp
      have hshown : w.space.arena.Shows (q ++ [_]) none :=
        ⟨_, _, hchild, hcget, Node.shown_eq_none_iff.2 (Node.isDirectory_iff.1 hk)⟩
      obtain ⟨hf', hshows, hlead⟩ := ih hf hchild hrest hr
      exact ⟨hf', hshows.trans (Shape.paved_cons hshown).symm, hlead⟩
    | made _ _ hm hr =>
      obtain ⟨hf₁, hshows₁, hlead₁, -⟩ := shows_of_create hf hl hm
      obtain ⟨hf', hshows, hlead⟩ := ih hf₁ hlead₁ hrest hr
      refine ⟨hf', ?_, hlead⟩
      rw [hshows, hshows₁]
      exact Shape.paved_grown _ _ _ _

/-- The directories along a path of proper names that do not end with blanks. -/
theorem shows_of_ensureDirectories (hf : w.Free) (hnames : AreNames names)
    (hplain : ∀ s ∈ names.getLast?, Path.IsPlain s) {cwd : String}
    (hd : w.ensureDirectories h (Path.ofNames names) cwd = (.ok n, w')) :
    w'.Free ∧ w'.space.arena.Shows = Shape.paved w.space.arena.Shows [] names ∧
      w'.space.arena.Leads n.id names := by
  unfold ensureDirectories at hd
  rw [Path.isBlankText_ofNames, if_neg (by simp),
    Path.absolute_of_strip (Path.strip_ofNames_of_isPlain hplain),
    Path.segments_ofNames hnames] at hd
  simpa using shows_of_ensureBelow hf .root hnames hd

end World

end Workbench
