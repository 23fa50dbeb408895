import Workbench.Proofs.Arena.Ways
import Workbench.Proofs.World.Free

/-!
# Directories along a path

Creating the directories of a path and looking the path up are two walks over the same segments.
In a free workspace the first leaves a tree in which the second passes
(`World.passes_of_ensureBelow`), and where the second passes the first changes nothing
(`World.ensureBelow_of_passes`); so creating the directories once more gives the same one. What is
there before stays as it was, but for the directories that have got new ones
(`Workspace.Extended`).

The two read a relative path from the working directory in different ways, though. Creating takes
the working directory as it is written; looking up reads it like a path of its own, which drops the
blanks around it and expands a tilde. They find the same directory where the two readings lead to
the same place (`World.ensured_of_reachable`), and always where they have the same segments.
-/

namespace Workbench

open Workbench.Path (AreNames)

/-- A node that has got more children at the end, and another time with them. -/
structure Node.Extends (m n : Node) : Prop where
  rest : m = { n with children := m.children, modifiedAt := m.modifiedAt }
  children : n.children <+: m.children
  same : m.children = n.children → m = n

namespace Node.Extends

variable {k m n : Node}

theorem refl (n : Node) : n.Extends n := ⟨rfl, List.prefix_rfl, fun _ => rfl⟩

theorem trans (h : k.Extends m) (h' : m.Extends n) : k.Extends n where
  rest := by
    rw [h.rest, h'.rest]
  children := h'.children.trans h.children
  same he := by
    have hm : m.children = n.children :=
      (h'.children.eq_of_length_le (he ▸ h.children.length_le)).symm
    exact (h.same (he.trans hm.symm)).trans (h'.same hm)

theorem alike (h : m.Extends n) : m.Alike n := by
  rw [h.rest]
  exact ⟨rfl, rfl, rfl, rfl, rfl, rfl⟩

end Node.Extends

namespace Workspace

variable {s s' s'' : Workspace} {id x : NodeId} {n d m : Node} {q q' steps : List String}
  {c : Option String} {now : Timestamp}

/-- A workspace in which there are more directories, and nothing else is different. -/
structure Extended (s s' : Workspace) : Prop where
  home : s'.home = s.home
  boundRoot : s'.boundRoot = s.boundRoot
  tabs : s'.tabs = s.tabs
  kept : ∀ {id n}, s.node? id = some n → ∃ m, s'.node? id = some m ∧ m.Extends n
  /-- What is new is a directory, and another directory lists it. -/
  added : ∀ {id m}, s'.node? id = some m → s.node? id = none → m.kind = .directory ∧
    ∃ p d, m.parentId = some p ∧ s'.node? p = some d ∧ d.kind = .directory ∧ id ∈ d.children

namespace Extended

theorem refl (s : Workspace) : s.Extended s where
  home := rfl
  boundRoot := rfl
  tabs := rfl
  kept hn := ⟨_, hn, .refl _⟩
  added hm hn := by cases hm.symm.trans hn

theorem trans (h : s.Extended s') (h' : s'.Extended s'') : s.Extended s'' where
  home := h'.home.trans h.home
  boundRoot := h'.boundRoot.trans h.boundRoot
  tabs := h'.tabs.trans h.tabs
  kept hn := by
    obtain ⟨m, hm, hmn⟩ := h.kept hn
    obtain ⟨k, hk, hkm⟩ := h'.kept hm
    exact ⟨k, hk, hkm.trans hmn⟩
  added {id k} hk hnone := by
    cases hm : s'.node? id with
    | none => exact h'.added hk hm
    | some m =>
      obtain ⟨hkind, p, d, hp, hd, hdk, hmem⟩ := h.added hm hnone
      obtain ⟨k', hk', hkm⟩ := h'.kept hm
      obtain rfl := Option.some.inj (hk.symm.trans hk')
      obtain ⟨e, he, hed⟩ := h'.kept hd
      exact ⟨hkm.alike.kind.trans hkind, p, e, hkm.alike.parentId.trans hp, he,
        hed.alike.kind.trans hdk, hed.children.subset hmem⟩

theorem leads (h : s.Extended s') (hl : s.arena.Leads x q) : s'.arena.Leads x q :=
  hl.mono fun hn => by
    obtain ⟨m, hm, hmn⟩ := h.kept hn
    exact ⟨m, hm, hmn.alike.name, hmn.alike.parentId⟩

theorem shows (h : s.Extended s') (hs : s.arena.Shows q c) : s'.arena.Shows q c := by
  obtain ⟨id, n, hl, hn, rfl⟩ := hs
  obtain ⟨m, hm, hmn⟩ := h.kept hn
  exact ⟨id, m, h.leads hl, hm, hmn.alike.shown⟩

end Extended

theorem node?_added (hr : s.arena.Room id n) (now : Timestamp) :
    (s.added n id now).node? n.id = some n :=
  (Table.get?_modify_of_ne hr.ne.symm _).trans hr.get?_new

/-- A new directory extends a workspace. -/
theorem extended_added (hr : s.arena.Room id n) (hk : n.kind = .directory) (now : Timestamp) :
    s.Extended (s.added n id now) := by
  obtain ⟨d, hd, hdk⟩ := hr.directory
  have hget : ∀ x, (s.added n id now).node? x = if x = id then
      some { d with children := d.children ++ [n.id], modifiedAt := now }
      else if x = n.id then some n else s.node? x := by
    intro x
    rw [node?, added, Arena.stamp, Table.get?_modify]
    by_cases hx : x = id
    · rw [if_pos hx, if_pos hx, hr.get?_parent hd]
      rfl
    · rw [if_neg hx, if_neg hx, hr.get?_attach hd, if_neg hx, node?]
  refine ⟨rfl, rfl, rfl, fun {x m} hm => ?_, fun {x m} hm hnone => ?_⟩
  · rw [hget]
    by_cases hx : x = id
    · subst hx
      obtain rfl := Option.some.inj (hd.symm.trans hm)
      rw [if_pos rfl]
      refine ⟨_, rfl, rfl, List.prefix_append _ _, fun he => ?_⟩
      simp at he
    · rw [if_neg hx, if_neg (hr.ne_new hm), hm]
      exact ⟨m, rfl, .refl m⟩
  · rw [hget] at hm
    split at hm
    · next hx =>
      subst hx
      cases hd.symm.trans hnone
    · split at hm
      · next hx =>
        obtain rfl := Option.some.inj hm
        have hparent := (hget id).trans (if_pos rfl)
        exact ⟨hk, id, _, hr.parentId, hparent, hdk, hx ▸ List.mem_append_right _ (by simp)⟩
      · cases hnone.symm.trans hm

end Workspace

namespace World

variable {σ : Type} {h : Host σ} {w w' : World σ} {id : NodeId} {n d : Node}
  {q q' steps : List String} {name content path cwd : String}

/-! ## The two walks -/

/-- What is created in a free workspace is a new node, for which there is room. -/
theorem added_of_create {kind : NodeKind} (hf : w.Free)
    (hd : w.create h kind name id content = (.ok n, w')) :
    Path.isName name = true ∧ n = w.space.drawnNode kind name id content h.now ∧
      w.space.arena.Room id n ∧ w' = { w with space := w.space.added n id h.now } := by
  cases create_ends hd with
  | written _ hb => cases hf.unbound.symm.trans hb
  | added hc =>
    obtain ⟨hname, hget, hk, hfree⟩ := Workspace.checkCreate_eq_ok_iff.1 hc
    obtain rfl := hf.sound.tree.keyed hget
    exact ⟨hname, rfl, hf.sound.room hget hk hname hfree kind content h.now, rfl⟩

/-- A directory that is created in a free workspace extends it. -/
theorem extended_of_create (hf : w.Free)
    (hd : w.create h .directory name id content = (.ok n, w')) :
    w.space.Extended w'.space ∧ w'.disk = w.disk ∧ w'.space.node? n.id = some n ∧
      n.kind = .directory := by
  obtain ⟨-, rfl, hr, rfl⟩ := added_of_create hf hd
  exact ⟨Workspace.extended_added hr rfl h.now, rfl, Workspace.node?_added hr h.now, rfl⟩

/-- Where steps pass and end at a directory, creating directories along them only finds it. -/
theorem ensureBelow_of_passes (hs : w.space.Sound) (h : Host σ) (hn : w.space.node? id = some d)
    (hl : w.space.arena.Leads id q) (hp : w.space.arena.Shows.Passes q steps q')
    (hq : w.space.arena.Shows q' none) (hne : ∀ s ∈ steps, s ≠ "") :
    ∃ n, w.ensureBelow h steps id = (.ok n, w) ∧ w.space.arena.Leads n.id q' ∧
      w.space.node? n.id = some n := by
  have ht := hs.tree
  induction hp generalizing id d with
  | stop q =>
    obtain rfl := ht.keyed hn
    exact ⟨d, ensureBelow_nil hn, hl, hn⟩
  | skip => exact absurd rfl (hne "" List.mem_cons_self)
  | @step q q' rest s hs' hdir hp ih =>
    have hne' : ∀ t ∈ rest, t ≠ "" := fun t ht => hne t (List.mem_cons_of_mem _ ht)
    by_cases hdot : s = "."
    · subst hdot
      rw [ensureBelow_dot hn]
      exact ih hn (Path.onward_dot q ▸ hl) hq hne'
    by_cases hdots : s = ".."
    · subst hdots
      obtain ⟨u, hu, hlu, -⟩ := ht.exists_above hn hl
      rw [ensureBelow_dots hn]
      exact ih hu (Path.onward_dots q ▸ hlu) hq hne'
    -- a name is that of a directory, because the way goes on or ends there
    rw [Path.onward_name q hdot hdots] at hp ih
    have hshown : w.space.arena.Shows (q ++ [s]) none := by
      cases hp with
      | stop => exact hq
      | skip => exact absurd rfl (hne "" (by simp))
      | step _ hdir _ => exact hdir
    obtain ⟨e, c, he, hc, hcget, hlc⟩ := ht.exists_childNamed? hl hshown
    obtain rfl := Option.some.inj (hn.symm.trans he)
    have hk := Node.shown_eq_none_iff.1 ((ht.shows_iff hlc hcget).1 hshown)
    rw [ensureBelow_child hn hdot hdots hc (Node.isDirectory_iff.2 hk)]
    exact ih hcget hlc hq hne'

/-- In a free workspace a name is all that it takes to create what is missing. -/
theorem create_of_missing (kind : NodeKind) (hf : w.Free) (hn : w.space.node? id = some d)
    (hk : d.kind = .directory) (hc : w.space.arena.childNamed? d name = none) (h : Host σ)
    (content : String) : (∃ n w', w.create h kind name id content = (.ok n, w')) ∨
      Path.isName name = false ∧ ∃ e, w.create h kind name id content = (.error e, w) := by
  rcases he : w.create h kind name id content with ⟨a, w'⟩
  cases create_ends he with
  | added => exact .inl ⟨_, _, rfl⟩
  | unlisted _ hb | failed _ hb | written _ hb => cases hf.unbound.symm.trans hb
  | rejected hcheck =>
    refine .inr ⟨Bool.eq_false_iff.2 fun hname => ?_, _, rfl⟩
    cases hcheck.symm.trans (Workspace.checkCreate_eq_ok_iff.2 ⟨hname, hn, hk, hc⟩)

/-- A step along which the directories of a path are created has led to a directory, which was there
or is new. -/
structure Stepped (w : World σ) (q : List String) (s : String) (w₁ : World σ) (d : Node) :
    Prop where
  free : w₁.Free
  disk : w₁.disk = w.disk
  extended : w.space.Extended w₁.space
  node : w₁.space.node? d.id = some d
  directory : d.kind = .directory
  leads : w₁.space.arena.Leads d.id (Path.onward q s)
  shows : ∀ {p c}, w₁.space.arena.Shows p c →
    w.space.arena.Shows p c ∨ c = none ∧ p = Path.onward q s

/-- A step leads on, or it ends at a file or at what is no name. -/
theorem ensureBelow_cons (hf : w.Free) (hn : w.space.node? id = some d) (hk : d.kind = .directory)
    (hl : w.space.arena.Leads id q) {s : String} (hs : s ≠ "") (h : Host σ) (rest : List String) :
    (∃ w₁ d₁, w.Stepped q s w₁ d₁ ∧
        w.ensureBelow h (s :: rest) id = w₁.ensureBelow h rest d₁.id) ∨
      ((∃ text, w.space.arena.Shows (Path.onward q s) (some text)) ∨ '/' ∈ s.toList) ∧
        ∃ e, w.ensureBelow h (s :: rest) id = (.error e, w) := by
  have ht := hf.sound.tree
  by_cases hdot : s = "."
  · subst hdot
    obtain rfl := ht.keyed hn
    rw [ensureBelow_dot hn]
    exact .inl ⟨w, d, ⟨hf, rfl, .refl _, hn, hk, (Path.onward_dot q).symm ▸ hl, .inl⟩, rfl⟩
  by_cases hdots : s = ".."
  · subst hdots
    obtain ⟨u, hu, hlu, huk, -⟩ := ht.exists_above hn hl
    have hid := ht.keyed hu
    rw [ensureBelow_dots hn, ← hid]
    rw [← hid] at hu hlu
    exact .inl ⟨w, u, ⟨hf, rfl, .refl _, hu, huk hk, (Path.onward_dots q).symm ▸ hlu, .inl⟩, rfl⟩
  rw [Path.onward_name q hdot hdots]
  rcases hc : w.space.arena.childNamed? d s with _ | c
  · rw [ensureBelow_missing hn hdot hdots hc]
    obtain ⟨n, w₁, he⟩ | ⟨hname, e, he⟩ :=
      create_of_missing .directory hf hn hk hc h ""
    · obtain ⟨hext, hdisk, hget, hnk⟩ := extended_of_create hf he
      obtain ⟨hf₁, hshows, hlead, -⟩ := shows_of_create hf hl he
      rw [he]
      refine .inl ⟨w₁, n, ⟨hf₁, hdisk, hext, hget, hnk, ?_, fun hp => ?_⟩, rfl⟩
      · rwa [Path.onward_name q hdot hdots]
      · rw [hshows] at hp
        rw [Path.onward_name q hdot hdots]
        exact hp.imp_right fun hp => ⟨hp.2, hp.1⟩
    · rw [he]
      refine .inr ⟨.inr ?_, e, rfl⟩
      by_contra hslash
      rw [Path.isName_iff.2 ⟨hs, hdot, hdots, hslash⟩] at hname
      cases hname
  · obtain ⟨hcget, hp, rfl⟩ := (ht.childNamed?_eq_some_iff hn).1 hc
    have hlc := Arena.Leads.child hl hcget hp
    by_cases hck : c.isDirectory = true
    · rw [ensureBelow_child hn hdot hdots hc hck]
      refine .inl ⟨w, c, ⟨hf, rfl, .refl _, hcget, Node.isDirectory_iff.1 hck, ?_, .inl⟩, rfl⟩
      rwa [Path.onward_name q hdot hdots]
    · rw [ensureBelow_file hn hdot hdots hc hck]
      refine .inr ⟨.inl ?_, _, rfl⟩
      cases hshown : c.shown with
      | none => exact absurd (Node.isDirectory_iff.2 (Node.shown_eq_none_iff.1 hshown)) hck
      | some text => exact ⟨text, c.id, c, hlc, hcget, hshown⟩

/-- After directories have been created along steps, the steps pass and lead to the last one. -/
theorem passes_of_ensureBelow (hf : w.Free) (hn : w.space.node? id = some d)
    (hk : d.kind = .directory) (hl : w.space.arena.Leads id q)
    (hd : w.ensureBelow h steps id = (.ok n, w')) (hne : ∀ s ∈ steps, s ≠ "") :
    w'.Free ∧ w'.disk = w.disk ∧ w.space.Extended w'.space ∧ w'.space.node? n.id = some n ∧
      n.kind = .directory ∧
      ∃ q', w'.space.arena.Shows.Passes q steps q' ∧ w'.space.arena.Leads n.id q' := by
  induction steps generalizing w id d q with
  | nil =>
    rw [ensureBelow_nil hn] at hd
    obtain ⟨he, rfl⟩ := Prod.mk.inj hd
    obtain rfl := Except.ok.inj he
    obtain rfl := hf.sound.tree.keyed hn
    exact ⟨hf, rfl, .refl _, hn, hk, q, .stop q, hl⟩
  | cons s rest ih =>
    obtain ⟨hs, hrest⟩ := List.forall_mem_cons.1 hne
    obtain ⟨w₁, d₁, hstep, he⟩ | ⟨-, e, he⟩ := ensureBelow_cons hf hn hk hl hs h rest
    · rw [he] at hd
      obtain ⟨hf', hdisk, hext, hget, hkn, q', hp, hln⟩ :=
        ih hstep.free hstep.node hstep.directory hstep.leads hd hrest
      have hshown := (hf.sound.tree.shows_iff hl hn).2 (Node.shown_eq_none_iff.2 hk)
      have hext := hstep.extended.trans hext
      exact ⟨hf', hdisk.trans hstep.disk, hext, hget, hkn, q',
        .step hs (hext.shows hshown) hp, hln⟩
    · rw [he] at hd
      cases hd

/-- However far directories have been created along steps, all that is new is directories at the
places to which the steps lead. -/
theorem ensureBelow_adds (hf : w.Free) (hn : w.space.node? id = some d)
    (hk : d.kind = .directory) (hl : w.space.arena.Leads id q) (hne : ∀ s ∈ steps, s ≠ "")
    (h : Host σ) : (w.ensureBelow h steps id).2.Free ∧
      w.space.Extended (w.ensureBelow h steps id).2.space ∧
      ∀ {p c}, (w.ensureBelow h steps id).2.space.arena.Shows p c → w.space.arena.Shows p c ∨
        c = none ∧ ∃ above, above <+: steps ∧ above.foldl Path.onward q = p := by
  induction steps generalizing w id d q with
  | nil =>
    rw [ensureBelow_nil hn]
    exact ⟨hf, .refl _, .inl⟩
  | cons s rest ih =>
    obtain ⟨hs, hrest⟩ := List.forall_mem_cons.1 hne
    obtain ⟨w₁, d₁, hstep, he⟩ | ⟨-, e, he⟩ := ensureBelow_cons hf hn hk hl hs h rest
    · obtain ⟨hf', hext, hshows⟩ := ih hstep.free hstep.node hstep.directory hstep.leads hrest
      rw [he]
      refine ⟨hf', hstep.extended.trans hext, fun {p c} hp => ?_⟩
      rcases hshows hp with hp | ⟨rfl, above, habove, rfl⟩
      · refine (hstep.shows hp).imp_right fun hp => ⟨hp.1, [s], ?_, hp.2.symm⟩
        exact List.cons_prefix_cons.2 ⟨rfl, List.nil_prefix⟩
      · exact .inr ⟨rfl, s :: above, List.cons_prefix_cons.2 ⟨rfl, habove⟩, rfl⟩
    · rw [he]
      exact ⟨hf, .refl _, .inl⟩

/-- Directories are created along steps as far as no file is on the way, whatever comes after
them. -/
theorem passes_of_clear (hf : w.Free) (hn : w.space.node? id = some d) (hk : d.kind = .directory)
    (hl : w.space.arena.Leads id q) (hsteps : ∀ s ∈ steps, s ≠ "" ∧ '/' ∉ s.toList)
    {rest : List String} (hrest : ∀ s ∈ rest, s ≠ "")
    (hclear : ∀ above, above <+: steps → ∀ text,
      ¬ w.space.arena.Shows (above.foldl Path.onward q) (some text)) (h : Host σ) :
    (w.ensureBelow h (steps ++ rest) id).2.space.arena.Shows.Passes q steps
        (steps.foldl Path.onward q) ∧
      (w.ensureBelow h (steps ++ rest) id).2.space.arena.Shows
        (steps.foldl Path.onward q) none := by
  have hshown := (hf.sound.tree.shows_iff hl hn).2 (Node.shown_eq_none_iff.2 hk)
  have hne : ∀ s ∈ steps ++ rest, s ≠ "" := fun s hs =>
    (List.mem_append.1 hs).elim (fun hs => (hsteps s hs).1) (hrest s)
  -- where the steps start there is a directory, and there still is in the end
  obtain ⟨-, hext, -⟩ := ensureBelow_adds hf hn hk hl hne h
  have hstart := hext.shows hshown
  induction steps generalizing w id d q with
  | nil => exact ⟨.stop q, hstart⟩
  | cons s steps ih =>
    obtain ⟨⟨hs, hslash⟩, hsteps⟩ := List.forall_mem_cons.1 hsteps
    have hon : ∀ above, above <+: steps → ∀ text,
        ¬ w.space.arena.Shows (above.foldl Path.onward (Path.onward q s)) (some text) :=
      fun above habove => hclear (s :: above) (List.cons_prefix_cons.2 ⟨rfl, habove⟩)
    rw [List.cons_append] at hstart hne ⊢
    obtain ⟨w₁, d₁, hstep, he⟩ | ⟨⟨text, hfile⟩ | hno, -⟩ :=
      ensureBelow_cons hf hn hk hl hs h (steps ++ rest)
    · have hne := List.forall_mem_cons.1 hne
      have hshown₁ := (hstep.free.sound.tree.shows_iff hstep.leads hstep.node).2
        (Node.shown_eq_none_iff.2 hstep.directory)
      obtain ⟨-, hext₁, -⟩ :=
        ensureBelow_adds hstep.free hstep.node hstep.directory hstep.leads hne.2 h
      obtain ⟨hp, hq⟩ := ih hstep.free hstep.node hstep.directory hstep.leads hsteps
        (fun above habove text hp => (hstep.shows hp).elim (hon above habove text)
          fun hp => nomatch hp.1) hshown₁ hne.2 hext₁ (hext₁.shows hshown₁)
      rw [he] at hstart ⊢
      exact ⟨.step hs hstart hp, hq⟩
    · exact absurd hfile (hon [] List.nil_prefix text)
    · exact absurd hno hslash

/-! ## The readings of a path -/

/-- What creating the directories of a path has done when it gives a node. -/
structure Ensured (w : World σ) (path cwd : String) (n : Node) (w' : World σ) : Prop where
  directory : n.kind = .directory ∧ w'.space.node? n.id = some n
  extended : w.space.Extended w'.space ∧ w'.disk = w.disk
  again : ∀ h : Host σ, w'.ensureDirectories h path cwd = (.ok n, w')
  /-- Looking the path up gives the node exactly when both readings lead to one place. -/
  found_iff : w'.space.resolve? path cwd = some n ↔
    ∃ q, w'.space.arena.Shows.Passes [] (Path.segments (Path.absolute w.space.home path cwd)) q ∧
      w'.space.arena.Shows.Passes [] (Path.route w.space.home path cwd) q
  /-- They do for a path that starts at the root or at the home directory, and for a working
  directory that is read as it is written. -/
  found : Text.startsWith (Path.expanded w.space.home path) "/" = true ∨
      Path.segments cwd = Path.segments (Path.absolute w.space.home cwd "/") →
    w'.space.resolve? path cwd = some n

theorem passes_of_ensureDirectories (hf : w.Free)
    (hd : w.ensureDirectories h path cwd = (.ok n, w')) :
    w'.Free ∧ w'.disk = w.disk ∧ w.space.Extended w'.space ∧ w'.space.node? n.id = some n ∧
      n.kind = .directory ∧ ∃ q, w'.space.arena.Leads n.id q ∧
        w'.space.arena.Shows.Passes [] (Path.segments (Path.absolute w.space.home path cwd)) q := by
  unfold ensureDirectories at hd
  split at hd
  · cases hd
  · obtain ⟨r, hr, hrk, -⟩ := hf.sound.tree.root
    obtain ⟨hf', hdisk, hext, hn, hk, q, hp, hl⟩ :=
      passes_of_ensureBelow hf hr hrk .root hd fun s hs => (Path.of_mem_segments hs).1
    exact ⟨hf', hdisk, hext, hn, hk, q, hl, hp⟩

theorem ensured_of_ensureDirectories (hf : w.Free)
    (hd : w.ensureDirectories h path cwd = (.ok n, w')) : w.Ensured path cwd n w' := by
  have hblank : ¬ Text.isBlankText path = true := by
    intro he
    rw [ensureDirectories, if_pos he] at hd
    cases hd
  have hne : ∀ s ∈ Path.segments (Path.absolute w.space.home path cwd), s ≠ "" := fun s hs =>
    (Path.of_mem_segments hs).1
  obtain ⟨hf', hdisk, hext, hn, hk, q, hl, hp⟩ := passes_of_ensureDirectories hf hd
  have ht := hf'.sound.tree
  obtain ⟨r', hr', -⟩ := ht.root
  have hresolve : w'.space.resolve? path cwd = some n ↔
      w'.space.arena.Shows.Passes [] (Path.route w.space.home path cwd) q := by
    rw [Workspace.resolve?, Arena.resolve?, hr', Option.bind_some, hext.home,
      ht.follow?_eq_some_iff hr' .root]
    constructor
    · rintro ⟨q', hp', hl', -⟩
      rwa [ht.leads_unique hl hl']
    · exact fun hp' => ⟨q, hp', hl, hn⟩
  refine ⟨⟨hk, hn⟩, ⟨hext, hdisk⟩, fun h => ?_, ?_, fun hsame => ?_⟩
  · have hq : w'.space.arena.Shows q none := ⟨_, n, hl, hn, Node.shown_eq_none_iff.2 hk⟩
    obtain ⟨m, hm, hlm, hmget⟩ := ensureBelow_of_passes hf'.sound h hr' .root hp hq hne
    rw [ht.leads_injective hlm hl] at hmget
    obtain rfl := Option.some.inj (hn.symm.trans hmget)
    rw [ensureDirectories, if_neg hblank, hext.home]
    exact hm
  · rw [hresolve]
    constructor
    · exact fun hp' => ⟨q, hp, hp'⟩
    · rintro ⟨q', hq, hq'⟩
      rwa [hp.unique hq]
  · rw [hresolve, ← Shape.Passes.filter_iff, Path.route, if_neg hblank]
    rw [← Path.segments_absolute_eq_iff] at hsame
    rw [hsame] at hp
    exact hp

/-- In every free workspace that is reached, creating the directories of a path adds directories and
nothing else, finds the same directory when it is done again, and agrees with looking the path up
wherever the two read the working directory alike. -/
theorem ensured_of_reachable (hr : w.Reachable) (hfree : w.space.boundRoot = none)
    (hd : w.ensureDirectories h path cwd = (.ok n, w')) : w.Ensured path cwd n w' :=
  ensured_of_ensureDirectories ⟨hfree, hr.sound⟩ hd

/-- A new workspace with a directory whose name ends with a blank. -/
def edgedWorld : World Unit :=
  ((Operation.create .directory "x " rootId "").run ⟨none, default⟩
    ⟨.new "/home/user" default, ()⟩).2

theorem reachable_edgedWorld : edgedWorld.Reachable := by
  have hh : Host.Lawful (⟨none, default⟩ : Host Unit) := fun _ hb => by cases hb
  exact .step (.new _ _ _) hh _

/-- What becomes of it when directories are created below that one. -/
def edgedAnd (path cwd : String) : World Unit :=
  (edgedWorld.ensureDirectories ⟨none, default⟩ path cwd).2

/-- A path leads through its dots and empty segments to what it has made. -/
theorem ensured_edged : ∃ n, n.id = "n5" ∧ (edgedAnd "~/a/.././/b" "/x ").space.pathOf "n5" =
      "/home/user/b" ∧
    edgedWorld.ensureDirectories ⟨none, default⟩ "~/a/.././/b" "/x " =
      (.ok n, edgedAnd "~/a/.././/b" "/x ") ∧
    (edgedAnd "~/a/.././/b" "/x ").space.resolve? "~/a/.././/b" "/x " = some n := by
  obtain ⟨n, hn, hid⟩ := exists_of_all
    (x := (edgedWorld.ensureDirectories ⟨none, default⟩ "~/a/.././/b" "/x ").1)
    (p := fun n => n.id == "n5") (by decide +kernel) (by decide +kernel)
  have hd : edgedWorld.ensureDirectories ⟨none, default⟩ "~/a/.././/b" "/x " =
      (.ok n, edgedAnd "~/a/.././/b" "/x ") := Prod.ext hn rfl
  have hens := ensured_of_reachable reachable_edgedWorld (by decide +kernel) hd
  exact ⟨n, by simpa using hid, by decide +kernel, hd, hens.found (.inl (by decide +kernel))⟩

/-- Below the directory with the blank after its name, what is created is not found: the blank
belongs to the working directory for the one, and not for the other. -/
theorem not_found_edged :
    edgedWorld.Reachable ∧ edgedWorld.space.boundRoot = none ∧
      (edgedWorld.ensureDirectories ⟨none, default⟩ "a" "/x ").1.isOk = true ∧
      (edgedAnd "a" "/x ").space.pathOf "n2" = "/x /a" ∧
      (edgedAnd "a" "/x ").space.resolve? "a" "/x " = none :=
  ⟨reachable_edgedWorld, by decide +kernel, by decide +kernel, by decide +kernel, by decide +kernel⟩

end World

end Workbench
