import Workbench.Proofs.Terminal.Split
import Workbench.Proofs.World.Relocated

/-!
# What commands make where

A command that makes something splits its word as a text, and afterwards the word is looked up along
its segments. What `mkdir` and `touch` make is found under the word (`World.made_of_create`),
because what is only added leaves every way open. A move takes directories away from where they
were, and a way may have gone through them: then the word leads nowhere any more, otherwise to the
node that was moved (`World.MovedTo`).

The tilde is a name for the first and the home directory for the second (`World.AtTilde`), and the
two read a working directory with a blank at an end in different ways. What was made there is found
only if both lead to one place (`Change.atTilde_of_reachable`, `Change.ensured_of_mkdir`).
-/

namespace Workbench

open Text (IsToken)
open Workspace (Effect)

/-! ## Ways and moves -/

namespace Shape

variable {S : Shape} {p p' v : List String}

/-- Where nothing was at the new place, a shift leaves the directories outside what it takes
away. -/
theorem IsTree.shifted_iff (h : S.IsTree) (hf : S.Free p') (hv : S v none) :
    S.shifted p p' v none ↔ ¬ p <+: v := by
  constructor
  · rintro (⟨-, hnot⟩ | ⟨r, rfl, -⟩)
    · exact hnot
    · exact absurd hv (h.free_append hf r none)
  · exact fun hnot => .inl ⟨hv, hnot⟩

end Shape

namespace Workspace

variable {s : Workspace} {path cwd : String} {id : NodeId} {q v p' : List String}

/-- On its way to its last segment, a path comes to a node or to something below it. -/
def LeadsThrough (s : Workspace) (path cwd : String) (id : NodeId) : Prop :=
  ∃ above below n, Path.way s.home path cwd = above ++ below ∧ below ≠ [] ∧
    (s.arena.get? rootId).bind (s.arena.follow? above) = some n ∧ s.arena.AtOrBelow id n.id

theorem leadsThrough_iff (h : s.arena.IsTree) (hid : s.arena.Leads id q) :
    s.LeadsThrough path cwd id ↔ ∃ above below v c, Path.way s.home path cwd = above ++ below ∧
      below ≠ [] ∧ s.arena.Shows.Passes [] above v ∧ s.arena.Shows v c ∧ q <+: v := by
  obtain ⟨r, hr, -⟩ := h.root
  unfold LeadsThrough
  rw [hr]
  constructor
  · rintro ⟨above, below, n, hway, hbelow, hf, hb⟩
    obtain ⟨v, hv, hl, hn⟩ := (h.follow?_eq_some_iff hr .root).1 hf
    have hpre := (h.atOrBelow_iff hid hl).1 hb
    exact ⟨above, below, v, _, hway, hbelow, hv, ⟨n.id, n, hl, hn, rfl⟩, hpre⟩
  · rintro ⟨above, below, v, c, hway, hbelow, hv, ⟨y, n, hl, hn, -⟩, hpre⟩
    obtain rfl := h.keyed hn
    exact ⟨above, below, n, hway, hbelow, (h.follow?_eq_some_iff hr .root).2 ⟨v, hv, hl, hn⟩,
      (h.atOrBelow_iff hid hl).2 hpre⟩

/-- A way to a file does not lead through it. -/
theorem not_leadsThrough_file (h : s.arena.IsTree) (hid : s.arena.Leads id q) {text : String}
    (hq : s.arena.Shows q (some text))
    (hp : s.arena.Shows.Passes [] (Path.way s.home path cwd) q) : ¬ s.LeadsThrough path cwd id := by
  rw [leadsThrough_iff h hid]
  rintro ⟨above, below, v, c, hway, hbelow, hv, -, r, rfl⟩
  have hdir : s.arena.Shows (q ++ r) none :=
    (hp.iff_of_passes fun _ => Path.ne_empty_of_mem_way).1 hp above below _ hway hbelow hv
  have hhere : s.arena.Shows q none := by
    by_cases hr : r = []
    · rwa [hr, List.append_nil] at hdir
    · exact h.shape.directory hr hdir
  cases h.shape.single hq hhere

/-- When what is at or below a node is shifted, a way stays open exactly if it does not lead through
the node. -/
theorem passes_shifted_iff (h : s.arena.IsTree) (hid : s.arena.Leads id q)
    (hfree : Shape.Free s.arena.Shows p')
    (hopen : s.arena.Shows.Passes [] (Path.way s.home path cwd) v) :
    (Shape.shifted s.arena.Shows q p').Passes [] (Path.way s.home path cwd) v ↔
      ¬ s.LeadsThrough path cwd id := by
  have hdirs := (hopen.iff_of_passes fun _ => Path.ne_empty_of_mem_way).1 hopen
  rw [hopen.iff_of_passes fun _ => Path.ne_empty_of_mem_way, leadsThrough_iff h hid]
  constructor
  · rintro hall ⟨above, below, v, c, he, hb, hv, -, hpre⟩
    have hdir := hdirs above below v he hb hv
    exact (h.shape.shifted_iff hfree hdir).1 (hall above below v he hb hv) hpre
  · intro hno above below v he hb hv
    have hdir := hdirs above below v he hb hv
    exact (h.shape.shifted_iff hfree hdir).2 fun hpre =>
      hno ⟨above, below, v, none, he, hb, hv, hdir, hpre⟩

end Workspace

namespace World

variable {σ : Type} {h : Host σ} {w w' : World σ} {id t : NodeId} {n d m : Node}
  {name path parent cwd : String}

/-- What a move does in a free workspace: it leaves a node that is there already, or shifts what is
at or below the node to a free place. -/
theorem moved_of_move (hf : w.Free) (he : w.move h id t (some name) = (.ok m, w')) :
    Path.isName name = true ∧
      (w'.space.node? id = some m ∧ m.id = id ∧ m.parentId = some t ∧ m.name = name) ∧
      (w' = w ∨ ∃ qx qt, w.space.arena.Leads id qx ∧ w.space.arena.Leads t qt ∧
        Shape.Free w.space.arena.Shows (qt ++ [name]) ∧
        Effect (.along qx (qt ++ [name])) (Shape.shifted w.space.arena.Shows qx (qt ++ [name]))
          w.space w'.space) := by
  have hs := hf.sound
  have ht := hs.tree
  obtain ⟨p, hc⟩ := checked_of_move he
  have hp := Workspace.found_of_checkMove ht hc
  have hn := hp.node
  have hnamed := hp.isName
  obtain ⟨q, hq⟩ := hp.held
  obtain rfl := hp.nodeId
  obtain rfl := hp.targetId
  obtain rfl : name = p.name := hp.name
  cases move_ends he with
  | kept hc' hsame =>
    obtain rfl := Except.ok.inj (hc.symm.trans hc')
    rw [Workspace.Placement.isSame, Bool.and_eq_true, beq_iff_eq, beq_iff_eq] at hsame
    exact ⟨hnamed, ⟨hn, rfl, hsame.1.symm, hsame.2.symm⟩, .inl rfl⟩
  | written _ _ hb => cases hf.unbound.symm.trans hb
  | moved hc' hsame _ hw ha =>
    obtain rfl := Except.ok.inj (hc.symm.trans hc')
    have hg := Workspace.mayGo_of_checkMove ht hc hsame
    have hm := hs.moved_moved hn hq hg h.now
    obtain ⟨k, hk, hkept, -⟩ := hm.top hn
    rw [hq, Option.getD_some] at hw
    have hk' : w'.space.node? p.node.id = some k := hw ▸ hk
    rw [answer_eq_ok hk'] at ha
    obtain rfl := Except.ok.inj ha
    obtain ⟨qx, hx⟩ := ht.exists_leads hn
    obtain ⟨qt, htl⟩ := ht.exists_leads hp.target
    refine ⟨hnamed, ⟨hk', hkept.id, hkept.parentId, hkept.name⟩,
      .inr ⟨qx, qt, hx, htl, ?_, hw ▸ Effect.moved hs hm hg hx htl⟩⟩
    rw [ht.free_iff]
    intro y hy
    obtain ⟨c, hcy, hcp, hcn⟩ := (ht.leads_append_iff htl).1 hy
    by_cases hyx : y = p.node.id
    · subst hyx
      obtain rfl := Option.some.inj (hn.symm.trans hcy)
      refine Bool.eq_false_iff.1 hsame ?_
      rw [Workspace.Placement.isSame, Bool.and_eq_true, beq_iff_eq, beq_iff_eq]
      exact ⟨hcp.symm, hcn.symm⟩
    · exact hg.free hcy hyx hcp hcn

/-! ## What is found afterwards -/

/-- A word under which there is a node that was made for it, and nothing before. -/
structure Made (w : World σ) (path cwd : String) (n : Node) (w' : World σ) : Prop where
  before : w.space.resolve? path cwd = none
  fresh : w.space.node? n.id = none
  found : w'.space.resolve? path cwd = some n

theorem made_of_create {kind : NodeKind} (hf : w.Free) (hp : IsToken path)
    (hhome : Text.startsWith w.space.home "/" = true)
    (hsplit : Arguments.splitPath path = (parent, name)) (htilde : Path.dropSlashes path ≠ "~")
    (hd : (w.space.resolve? parent cwd).filter Node.isDirectory = some d)
    (hc : w.create h kind name d.id "" = (.ok n, w')) :
    w.Made path cwd n w' ∧ n.kind = kind ∧ n.content = "" := by
  have ht := hf.sound.tree
  obtain ⟨hname, hdrawn, hr, hw⟩ := added_of_create hf hc
  obtain ⟨above, q, hway, hpass, hl, -, -⟩ :=
    Workspace.exists_way_of_splitPath ht hp hhome hsplit hname htilde hd
  obtain ⟨hf', hshows, hln, hq, hfree⟩ := shows_of_create hf hl hc
  have hopen := hpass.concat hq hname
  refine ⟨⟨?_, hr.fresh, ?_⟩, ?_⟩
  · rw [Option.eq_none_iff_forall_ne_some]
    intro m hm
    obtain ⟨v, hv, hlm, hget⟩ := (Workspace.resolve?_eq_some_iff ht hp).1 hm
    rw [hway] at hv
    obtain rfl := hv.unique hopen
    exact hfree _ ⟨m.id, m, hlm, hget, rfl⟩
  · have hhome' : w'.space.home = w.space.home := congrArg (fun w => w.space.home) hw
    have hnew : w'.space.node? n.id = some n := hw ▸ Workspace.node?_added hr h.now
    refine (Workspace.resolve?_eq_some_iff hf'.sound.tree hp).2 ⟨q ++ [name], ?_, hln, hnew⟩
    rw [hhome', hway, hshows]
    exact hopen.mono fun v hv => .inl hv
  · rw [hdrawn]
    cases kind <;> exact ⟨rfl, rfl⟩

/-- Directories that are created along a word are found under it where the working directory is read
as it is written. The last of them is new, unless there was a directory where the word leads by its
text alone; and this can only be where the word leads back up. -/
theorem found_of_ensureDirectories (hf : w.Free) (hp : IsToken path)
    (hnone : (w.space.resolve? path cwd).filter Node.isDirectory = none)
    (hread : Text.startsWith (Path.expanded w.space.home path) "/" = true ∨
      Path.segments cwd = Path.segments (Path.absolute w.space.home cwd "/"))
    (hd : w.ensureDirectories h path cwd = (.ok n, w')) :
    n.kind = .directory ∧ w'.space.resolve? path cwd = some n ∧
      (w.space.node? n.id = none ↔
        ¬ w.space.arena.Shows (Path.place w.space.home path cwd) none) ∧
      (w.space.node? n.id = none ∨ ".." ∈ Path.way w.space.home path cwd) := by
  have ht := hf.sound.tree
  have hfound := (ensured_of_ensureDirectories hf hd).found hread
  obtain ⟨hf', -, hext, hn, hk, -⟩ := passes_of_ensureDirectories hf hd
  have ht' := hf'.sound.tree
  obtain ⟨v, hv, hlv, -⟩ := (Workspace.resolve?_eq_some_iff ht' hp).1 hfound
  rw [hext.home] at hv
  have hplace : Path.place w.space.home path cwd = v :=
    hv.foldl_onward fun _ => Path.ne_empty_of_mem_way
  have hold : w.space.arena.Shows v none ↔ w.space.node? n.id ≠ none := by
    constructor
    · rintro ⟨y, k, hl, hkget, -⟩
      obtain rfl := ht'.leads_injective (hext.leads hl) hlv
      exact Option.ne_none_iff_exists'.2 ⟨k, hkget⟩
    · intro hsome
      obtain ⟨k, hkget⟩ := Option.ne_none_iff_exists'.1 hsome
      obtain ⟨m, hm, hmk⟩ := hext.kept hkget
      obtain rfl := Option.some.inj (hn.symm.trans hm)
      obtain ⟨q, hl⟩ := ht.exists_leads hkget
      obtain rfl := ht'.leads_unique hlv (hext.leads hl)
      exact ⟨_, k, hl, hkget, Node.shown_eq_none_iff.2 (hmk.alike.kind.symm.trans hk)⟩
  refine ⟨hk, hfound, by rw [hplace, hold, not_not], ?_⟩
  by_contra hnot
  obtain ⟨hsome, hup⟩ := not_or.1 hnot
  -- all directories above the place were there before, so that the word already found this one
  have hshows := hold.2 hsome
  obtain ⟨y, k, hl, hkget, hshown⟩ := hshows
  obtain rfl := ht.keyed hkget
  have hbefore : w.space.resolve? path cwd = some k :=
    (Workspace.resolve?_eq_some_iff ht hp).2
      ⟨v, hv.open_of_not_mem ht.shape (hold.2 hsome) hup, hl, hkget⟩
  have hkdir := Node.isDirectory_iff.2 (Node.shown_eq_none_iff.1 hshown)
  rw [hbefore, Option.filter_some, if_pos hkdir] at hnone
  cases hnone

/-- What has become of a node that was moved to a word. -/
structure MovedTo (w : World σ) (n : Node) (path cwd : String) (w' : World σ) : Prop where
  /-- It has kept its name in the directory that the word named. -/
  into : ∀ {d}, w.space.resolve? path cwd = some d → d.kind = .directory →
    ∃ d' m, w'.space.node? d.id = some d' ∧ w'.space.arena.childNamed? d' n.name = some m ∧
      m.id = n.id
  /-- The word finds it that named no directory, if the way of the word did not lead through it. -/
  found : (∀ d, w.space.resolve? path cwd = some d → d.kind = .file) →
    Path.dropSlashes path ≠ "~" → ¬ w.space.LeadsThrough path cwd n.id →
    ∃ m, w'.space.resolve? path cwd = some m ∧ m.id = n.id
  lost : (∀ d, w.space.resolve? path cwd = some d → d.kind = .file) →
    Path.dropSlashes path ≠ "~" → w.space.LeadsThrough path cwd n.id →
    w'.space.resolve? path cwd = none

theorem free_of_move (hf : w.Free) (he : w.move h id t (some name) = (.ok m, w')) : w'.Free := by
  obtain ⟨-, -, rfl | ⟨_, _, -, -, -, heff⟩⟩ := moved_of_move hf he
  · exact hf
  · exact hf.effect heff

theorem movedTo_of_into (hf : w.Free) (hd : w.space.resolve? path cwd = some d)
    (hk : d.kind = .directory) (he : w.move h n.id d.id (some n.name) = (.ok m, w')) :
    w.MovedTo n path cwd w' := by
  have hdir : (∀ d, w.space.resolve? path cwd = some d → d.kind = .file) → False := fun hfile => by
    cases hk.symm.trans (hfile d hd)
  refine ⟨fun {d'} hd' _ => ?_, fun hfile => (hdir hfile).elim, fun hfile => (hdir hfile).elim⟩
  obtain rfl := Option.some.inj (hd.symm.trans hd')
  obtain ⟨-, ⟨hm, hid, hmp, hname⟩, -⟩ := moved_of_move hf he
  have ht := (free_of_move hf he).sound.tree
  obtain ⟨e, hget, -⟩ := ht.parent hm hmp
  exact ⟨e, m, hget, (ht.childNamed?_eq_some_iff hget).2 ⟨hid.symm ▸ hm, hmp, hname⟩, hid⟩

/-- What a word finds after a node has been moved to its last name: the node, unless the way of the
word led through it. -/
theorem resolve?_of_move (hf : w.Free) (hp : IsToken path)
    (hhome : Text.startsWith w.space.home "/" = true)
    (hsplit : Arguments.splitPath path = (parent, name)) (htilde : Path.dropSlashes path ≠ "~")
    (hfile : ∀ {k}, w.space.resolve? path cwd = some k → k.kind = .file)
    (hd : (w.space.resolve? parent cwd).filter Node.isDirectory = some d)
    (he : w.move h id d.id (some name) = (.ok m, w')) :
    (¬ w.space.LeadsThrough path cwd id → w'.space.resolve? path cwd = some m) ∧
      (w.space.LeadsThrough path cwd id → w'.space.resolve? path cwd = none) := by
  have ht := hf.sound.tree
  have ht' := (free_of_move hf he).sound.tree
  obtain ⟨hnamed, ⟨hm, hid, hmp, hname⟩, hmoved⟩ := moved_of_move hf he
  subst hid
  obtain ⟨above, q, hway, hpass, hl, hget, hk⟩ :=
    Workspace.exists_way_of_splitPath ht hp hhome hsplit hnamed htilde hd
  have hopen := hpass.concat ((ht.shows_iff hl hget).2 (Node.shown_eq_none_iff.2 hk)) hnamed
  rw [← hway] at hopen
  rcases hmoved with rfl | ⟨qx, qt, hx, hlt, hfree, heff⟩
  · -- the node is what the word names, and it is a file
    have hlm : w'.space.arena.Leads m.id (q ++ [name]) := hname ▸ .child hl hm hmp
    have hfound : w'.space.resolve? path cwd = some m :=
      (Workspace.resolve?_eq_some_iff ht hp).2 ⟨_, hopen, hlm, hm⟩
    have hshown : w'.space.arena.Shows (q ++ [name]) (some m.content) :=
      ⟨_, m, hlm, hm, by rw [Node.shown, if_pos (Node.isFile_iff.2 (hfile hfound))]⟩
    refine ⟨fun _ => hfound, fun hthrough => absurd hthrough ?_⟩
    exact Workspace.not_leadsThrough_file ht hlm hshown hopen
  · obtain rfl := ht.leads_unique hl hlt
    have hgoes : w'.space.arena.Leads m.id (q ++ [name]) := by
      have hcourse : Course.along qx (q ++ [name]) qx = some (q ++ [name]) := by
        simpa using Course.along_append qx (q ++ [name]) []
      exact heff.goes hx hcourse
    have hiff := Workspace.passes_shifted_iff ht hx hfree hopen
    rw [← heff.shows] at hiff
    refine ⟨fun hno => ?_, fun hthrough => ?_⟩
    · refine (Workspace.resolve?_eq_some_iff ht' hp).2 ⟨_, ?_, hgoes, hm⟩
      rw [heff.home]
      exact hiff.2 hno
    · rw [Option.eq_none_iff_forall_ne_some]
      intro k hk
      obtain ⟨v, hv, -⟩ := (Workspace.resolve?_eq_some_iff ht' hp).1 hk
      rw [heff.home] at hv
      obtain rfl := hv.unique hopen
      exact hiff.1 hv hthrough

theorem movedTo_of_onto (hf : w.Free) (hp : IsToken path)
    (hhome : Text.startsWith w.space.home "/" = true)
    (hnone : (w.space.resolve? path cwd).filter Node.isDirectory = none)
    (hsplit : Arguments.splitPath path = (parent, name))
    (hd : (w.space.resolve? parent cwd).filter Node.isDirectory = some d)
    (he : w.move h n.id d.id (some name) = (.ok m, w')) : w.MovedTo n path cwd w' := by
  have hfile : ∀ {k}, w.space.resolve? path cwd = some k → k.kind = .file := by
    intro k hk
    cases hkind : k.kind with
    | file => rfl
    | directory =>
      rw [hk, Option.filter_some, if_pos (Node.isDirectory_iff.2 hkind)] at hnone
      cases hnone
  obtain ⟨-, ⟨-, hid, -⟩, -⟩ := moved_of_move hf he
  refine ⟨fun {k} hk hdir => ?_, fun _ htilde hno => ⟨m, ?_, hid⟩, fun _ htilde => ?_⟩
  · cases hdir.symm.trans (hfile hk)
  · exact (resolve?_of_move hf hp hhome hsplit htilde hfile hd he).1 hno
  · exact (resolve?_of_move hf hp hhome hsplit htilde hfile hd he).2

/-- What has become of a node that was made under the tilde or moved to it: it has this name in the
working directory. -/
structure AtTilde (w : World σ) (path cwd : String) (n : Node) (w' : World σ) : Prop where
  node : w'.space.node? n.id = some n
  name : n.name = "~"
  held : ∃ d, w.space.resolve? "." cwd = some d ∧ n.parentId = some d.id
  /-- The word finds it only if the path of the home directory leads to it. -/
  found_iff : w'.space.resolve? path cwd = some n ↔
    w'.space.arena.Shows.Passes [] (Path.segments w.space.home)
      (Path.segments (w'.space.pathOf n.id))

theorem atTilde_of_held (ht : w'.space.arena.IsTree) (he : w'.space.home = w.space.home)
    (hp : IsToken path) (hhome : Text.startsWith w.space.home "/" = true)
    (htilde : Path.dropSlashes path = "~")
    (hd : (w.space.resolve? "." cwd).filter Node.isDirectory = some d)
    (hn : w'.space.node? n.id = some n) (hname : n.name = "~") (hparent : n.parentId = some d.id) :
    w.AtTilde path cwd n w' := by
  have hl := ht.leads_namesTo hn
  have hsegments : Path.segments (w'.space.pathOf n.id) = w'.space.arena.namesTo n.id :=
    Path.segments_ofNames (ht.isName_of_leads hl)
  refine ⟨hn, hname, ⟨d, (Option.filter_eq_some_iff.1 hd).1, hparent⟩, ?_⟩
  rw [Workspace.resolve?_eq_some_iff ht hp, he, Path.way_of_tilde hp hhome htilde, hsegments]
  constructor
  · rintro ⟨q, hpass, hq, -⟩
    rwa [ht.leads_unique hl hq]
  · exact fun hpass => ⟨_, hpass, hl, hn⟩

theorem atTilde_of_create {kind : NodeKind} (hf : w.Free) (hp : IsToken path)
    (hhome : Text.startsWith w.space.home "/" = true) (htilde : Path.dropSlashes path = "~")
    (hd : (w.space.resolve? "." cwd).filter Node.isDirectory = some d)
    (hc : w.create h kind "~" d.id "" = (.ok n, w')) :
    n.kind = kind ∧ w.space.node? n.id = none ∧ w.AtTilde path cwd n w' := by
  obtain ⟨q, hl⟩ := hf.sound.tree.exists_leads
    (Workspace.node?_of_resolve? hf.sound.tree (Option.filter_eq_some_iff.1 hd).1)
  obtain ⟨hf', -⟩ := shows_of_create hf hl hc
  obtain ⟨-, rfl, hr, rfl⟩ := added_of_create hf hc
  refine ⟨?_, hr.fresh, ?_⟩
  · cases kind <;> rfl
  · refine atTilde_of_held hf'.sound.tree rfl hp hhome htilde hd (Workspace.node?_added hr h.now)
      ?_ ?_
    · cases kind <;> rfl
    · cases kind <;> rfl

theorem atTilde_of_move (hf : w.Free) (hp : IsToken path)
    (hhome : Text.startsWith w.space.home "/" = true) (htilde : Path.dropSlashes path = "~")
    (hd : (w.space.resolve? "." cwd).filter Node.isDirectory = some d)
    (he : w.move h id d.id (some "~") = (.ok m, w')) : m.id = id ∧ w.AtTilde path cwd m w' := by
  have hf' := free_of_move hf he
  obtain ⟨-, ⟨hm, hid, hparent, hname⟩, hmoved⟩ := moved_of_move hf he
  have hsame : w'.space.home = w.space.home := by
    rcases hmoved with rfl | ⟨_, _, -, -, -, heff⟩
    · rfl
    · exact heff.home
  rw [← hid] at hm
  exact ⟨hid, atTilde_of_held hf'.sound.tree hsame hp hhome htilde hd hm hname hparent⟩

end World

/-! ## What commands say -/

namespace Change

variable {σ α : Type} {t : Stage σ} {w w' : World σ} {args : List String} {path here : String}
  {r : Reply} {o : Outcome σ α} {onOk : List Reply} {onRefusal : Refusal → String}

theorem together_each_one (f : World σ → String → Turnout σ) (w : World σ) (a : String) :
    together (each f w [a]) = together (f w a) := by
  rw [each]
  rcases f w a with ⟨e | replies, w'⟩
  · rfl
  · simp [each, said]

theorem together_said_one (w : World σ) (r : Reply) : together (said w [r]) = (.ok r, w) := by
  simp [together, said, Except.map]

theorem together_said_nil (w : World σ) : together (said w []) = (.ok {}, w) := rfl

/-- An operation was carried out or refused, if there is a reply. -/
theorem sayOf_cases (h : together (sayOf o onOk onRefusal) = (.ok r, w')) :
    ((∃ a, o = (.ok a, w')) ∧ together (said w' onOk) = (.ok r, w')) ∨
      ∃ cause, r = .error (onRefusal cause) := by
  rcases o with ⟨(cause | id) | a, w₁⟩
  · refine .inr ⟨cause, ?_⟩
    rw [sayOf, together_said_one] at h
    exact (Except.ok.inj (Prod.mk.inj h).1).symm
  · cases h
  · obtain ⟨-, rfl⟩ := Prod.mk.inj h
    exact .inl ⟨⟨a, rfl⟩, h⟩

theorem exists_of_silent (h : silent o onRefusal = (.ok r, w')) (hr : r.isError = false) :
    ∃ a, o = (.ok a, w') := by
  rcases sayOf_cases h with ⟨ha, -⟩ | ⟨cause, rfl⟩
  · exact ha
  · cases hr

theorem head?_append {s : String} {c : Char} (h : s.toList.head? = some c) (u : String) :
    (s ++ u).toList.head? = some c := by
  rw [String.toList_append, List.head?_append, h, Option.some_or]

theorem head?_mkdirRefusal (path : String) (cause : Refusal) :
    (mkdirRefusal path cause).toList.head? = some 'm' :=
  head?_append (head?_append (head?_append (by decide) _) _) _

theorem head?_touchRefusal (path reason : String) :
    (touchRefusal path reason).toList.head? = some 't' :=
  head?_append (head?_append (head?_append (by decide) _) _) _

/-- When `mkdir` says that it has created a directory. -/
theorem mkdir_cases (hops : Arguments.operands args = [path]) (h : mkdir t w args = (.ok r, w'))
    (hr : r.output = "Created directory: " ++ path) :
    (Arguments.hasFlag args 'p' = true ∧
      (w.space.resolve? path t.scene.cwd).filter Node.isDirectory = none ∧
      ∃ n, w.ensureDirectories t.host path t.scene.cwd = (.ok n, w')) ∨
    (Arguments.hasFlag args 'p' = false ∧ ∃ d n,
      (w.space.resolve? (Arguments.splitPath path).1 t.scene.cwd).filter Node.isDirectory = some d ∧
      w.create t.host .directory (Arguments.splitPath path).2 d.id "" = (.ok n, w')) := by
  have hhead : r.output.toList.head? = some 'C' := hr ▸ head?_append (by decide) _
  unfold mkdir at h
  rw [hops] at h
  dsimp only at h
  rw [together_each_one] at h
  unfold mkdirOne at h
  dsimp only at h
  split at h
  · next hflag =>
    split at h
    · obtain ⟨hreply, -⟩ := Prod.mk.inj h
      obtain rfl := Except.ok.inj hreply
      cases hhead
    · next hnone =>
      rcases sayOf_cases h with ⟨⟨n, hn⟩, -⟩ | ⟨cause, rfl⟩
      · exact .inl ⟨hflag, hnone, n, hn⟩
      · cases (head?_mkdirRefusal path cause).symm.trans hhead
  · next hflag =>
    split at h
    · rw [together_said_one] at h
      obtain ⟨hreply, -⟩ := Prod.mk.inj h
      obtain rfl := Except.ok.inj hreply
      have hm : "mkdir: cannot create directory '".toList.head? = some 'm' := by decide
      cases (head?_append (head?_append hm path) _).symm.trans hhead
    · next d hd =>
      rcases sayOf_cases h with ⟨⟨n, hn⟩, -⟩ | ⟨cause, rfl⟩
      · exact .inr ⟨Bool.eq_false_iff.2 hflag, d, n, hd, hn⟩
      · cases (head?_mkdirRefusal path cause).symm.trans hhead

/-- When `touch` says that it has created a file. -/
theorem touch_cases (h : touch t w [path] = (.ok r, w'))
    (hr : r.output = "Created file: " ++ path) :
    ∃ d n,
      (w.space.resolve? (Arguments.splitPath path).1 t.scene.cwd).filter Node.isDirectory = some d ∧
      w.create t.host .file (Arguments.splitPath path).2 d.id "" = (.ok n, w') := by
  have hhead : r.output.toList.head? = some 'C' := hr ▸ head?_append (by decide) _
  unfold touch at h
  rw [if_neg (by simp), together_each_one] at h
  unfold touchOne at h
  dsimp only at h
  split at h
  · rcases sayOf_cases h with ⟨-, hsaid⟩ | ⟨cause, rfl⟩
    · rw [together_said_nil] at hsaid
      obtain rfl := Except.ok.inj (Prod.mk.inj hsaid).1
      cases hhead
    · cases (head?_touchRefusal path cause.message).symm.trans hhead
  · split at h
    · rw [together_said_one] at h
      obtain ⟨hreply, -⟩ := Prod.mk.inj h
      obtain rfl := Except.ok.inj hreply
      cases (head?_touchRefusal path _).symm.trans hhead
    · next d hd =>
      rcases sayOf_cases h with ⟨⟨n, hn⟩, -⟩ | ⟨cause, rfl⟩
      · exact ⟨d, n, hd, hn⟩
      · cases (head?_touchRefusal path cause.message).symm.trans hhead

/-- When `mv` has moved a node. -/
theorem mv_cases (hops : Arguments.operands args = [here, path]) (h : mv t w args = (.ok r, w'))
    (hr : r.isError = false) : ∃ n d name m, w.space.resolve? here t.scene.cwd = some n ∧
      (t.sceneIn w).destination? n path = some (d, name) ∧
      w.move t.host n.id d.id (some name) = (.ok m, w') := by
  unfold mv at h
  rw [hops] at h
  dsimp only at h
  split at h
  · obtain rfl := Except.ok.inj (Prod.mk.inj h).1
    cases hr
  next n hn =>
  split at h
  · obtain rfl := Except.ok.inj (Prod.mk.inj h).1
    cases hr
  next d name hd =>
  split at h
  · obtain rfl := Except.ok.inj (Prod.mk.inj h).1
    cases hr
  · obtain ⟨m, hm⟩ := exists_of_silent h hr
    exact ⟨n, d, name, m, hn, hd, hm⟩

/-- Where a node goes that is moved or copied to a word. -/
theorem destination?_cases {c : Scene} {n d : Node} {name : String}
    (h : c.destination? n path = some (d, name)) :
    (c.space.resolve? path c.cwd = some d ∧ d.kind = .directory ∧ name = n.name) ∨
      ((c.space.resolve? path c.cwd).filter Node.isDirectory = none ∧
        ∃ parent, Arguments.splitPath path = (parent, name) ∧
          (c.space.resolve? parent c.cwd).filter Node.isDirectory = some d) := by
  unfold Scene.destination? at h
  split at h
  · next hd =>
    obtain ⟨rfl, rfl⟩ := Prod.mk.inj (Option.some.inj h)
    obtain ⟨hd, hk⟩ := Option.filter_eq_some_iff.1 hd
    exact .inl ⟨hd, Node.isDirectory_iff.1 hk, rfl⟩
  · next hnone =>
    rcases hsplit : Arguments.splitPath path with ⟨parent, last⟩
    rw [hsplit] at h
    obtain ⟨e, he, hpair⟩ := Option.map_eq_some_iff.1 h
    obtain ⟨rfl, rfl⟩ := Prod.mk.inj hpair
    exact .inr ⟨hnone, parent, rfl, he⟩

/-- What commands have made is found under the word that they were given, but for what is said of
`mkdir -p` and of `mv`; and but for the tilde, which names the home directory. -/
theorem named_of_reachable (hr : w.Reachable) (hfree : w.space.boundRoot = none)
    (hhome : Text.startsWith w.space.home "/" = true) (hp : IsToken path) (t : Stage σ) :
    (∀ {args r w'}, Arguments.operands args = [path] → mkdir t w args = (.ok r, w') →
      r.output = "Created directory: " ++ path →
      (Arguments.hasFlag args 'p' = false → Path.dropSlashes path ≠ "~" →
        ∃ n, n.kind = .directory ∧ w.Made path t.scene.cwd n w') ∧
      (Arguments.hasFlag args 'p' = true →
        (Text.startsWith (Path.expanded w.space.home path) "/" = true ∨
          Path.segments t.scene.cwd = Path.segments (Path.absolute w.space.home t.scene.cwd "/")) →
        (w.space.resolve? path t.scene.cwd).filter Node.isDirectory = none ∧
        ∃ n, n.kind = .directory ∧ w'.space.resolve? path t.scene.cwd = some n ∧
          (w.space.node? n.id = none ↔
            ¬ w.space.arena.Shows (Path.place w.space.home path t.scene.cwd) none) ∧
          (w.space.node? n.id = none ∨ ".." ∈ Path.way w.space.home path t.scene.cwd))) ∧
    (∀ {r w'}, touch t w [path] = (.ok r, w') → r.output = "Created file: " ++ path →
      Path.dropSlashes path ≠ "~" →
      ∃ n, n.kind = .file ∧ n.content = "" ∧ w.Made path t.scene.cwd n w') ∧
    ∀ {args here r w'}, Arguments.operands args = [here, path] → mv t w args = (.ok r, w') →
      r.isError = false → ∃ n, w.space.resolve? here t.scene.cwd = some n ∧
        w.MovedTo n path t.scene.cwd w' := by
  have hf : w.Free := ⟨hfree, hr.sound⟩
  refine ⟨fun {args r w'} hops h hsaid => ?_, fun {r w'} h hsaid htilde => ?_,
    fun {args here r w'} hops h hok => ?_⟩
  · rcases mkdir_cases hops h hsaid with ⟨hflag, hnone, n, hn⟩ | ⟨hflag, d, n, hd, hn⟩
    · have hnot : Arguments.hasFlag args 'p' ≠ false := by simp [hflag]
      refine ⟨fun hno => absurd hno hnot, fun _ hread => ⟨hnone, n, ?_⟩⟩
      exact World.found_of_ensureDirectories hf hp hnone hread hn
    · have hnot : Arguments.hasFlag args 'p' ≠ true := by simp [hflag]
      refine ⟨fun _ htilde => ?_, fun hyes => absurd hyes hnot⟩
      obtain ⟨hmade, hk, -⟩ := World.made_of_create hf hp hhome (Prod.eta _).symm htilde hd hn
      exact ⟨n, hk, hmade⟩
  · obtain ⟨d, n, hd, hn⟩ := touch_cases h hsaid
    obtain ⟨hmade, hk, hcontent⟩ := World.made_of_create hf hp hhome (Prod.eta _).symm htilde hd hn
    exact ⟨n, hk, hcontent, hmade⟩
  · obtain ⟨n, d, name, m, hn, hdest, hm⟩ := mv_cases hops h hok
    refine ⟨n, hn, ?_⟩
    rcases destination?_cases hdest with ⟨hd, hk, rfl⟩ | ⟨hnone, parent, hsplit, hd⟩
    · exact World.movedTo_of_into hf hd hk hm
    · exact World.movedTo_of_onto hf hp hhome hnone hsplit hd hm

open World (memoryHost nestedWorld reachable_nestedWorld)

/-- A terminal at the root of a workspace in memory. -/
def rootStage : Stage Unit where
  host := memoryHost
  scene :=
    { space := nestedWorld.space, settings := {}, history := {}, cwd := "/", shell := .henu,
      now := default }

/-- The way of a word may go through a dot, and slashes at its end make no difference. -/
theorem named_nested :
    (∃ n, n.kind = .directory ∧
      nestedWorld.Made "b/./x//" "/" n (mkdir rootStage nestedWorld ["b/./x//"]).2) ∧
    (∃ n, n.kind = .directory ∧ (mkdir rootStage nestedWorld ["-p", "y/b/"]).2.space.resolve?
      "y/b/" "/" = some n ∧ nestedWorld.space.node? n.id = none) ∧
    (∃ n, n.kind = .file ∧ n.content = "" ∧
      nestedWorld.Made "b/./x//" "/" n (touch rootStage nestedWorld ["b/./x//"]).2) ∧
    ∃ n, nestedWorld.space.resolve? "a" "/" = some n ∧
      nestedWorld.MovedTo n "b/./x//" "/" (mv rootStage nestedWorld ["a", "b/./x//"]).2 := by
  have hfree : nestedWorld.space.boundRoot = none := by decide +kernel
  have hhome : Text.startsWith nestedWorld.space.home "/" = true := by decide +kernel
  have hword : IsToken "b/./x//" := by decide
  have hlong : IsToken "y/b/" := by decide
  have hnamed := fun {path : String} (hp : IsToken path) =>
    named_of_reachable reachable_nestedWorld hfree hhome hp rootStage
  have hsaid : (mkdir rootStage nestedWorld ["b/./x//"]).1 =
        .ok (.ok "Created directory: b/./x//") ∧
      (mkdir rootStage nestedWorld ["-p", "y/b/"]).1 = .ok (.ok "Created directory: y/b/") ∧
      (touch rootStage nestedWorld ["b/./x//"]).1 = .ok (.ok "Created file: b/./x//") ∧
      (mv rootStage nestedWorld ["a", "b/./x//"]).1 = .ok {} := by decide +kernel
  obtain ⟨hmkdir, hparents, htouch, hmv⟩ := hsaid
  refine ⟨?_, ?_, ?_, ?_⟩
  · have hrun : mkdir rootStage nestedWorld ["b/./x//"] = (.ok _, _) := Prod.ext hmkdir rfl
    exact ((hnamed hword).1 (by decide) hrun rfl).1 (by decide) (by decide)
  · have hrun : mkdir rootStage nestedWorld ["-p", "y/b/"] = (.ok _, _) := Prod.ext hparents rfl
    obtain ⟨-, n, hk, hfound, -, hnew | hup⟩ :=
      ((hnamed hlong).1 (by decide) hrun rfl).2 (by decide) (.inr (by decide +kernel))
    · exact ⟨n, hk, hfound, hnew⟩
    · exact absurd hup (by decide +kernel)
  · exact (hnamed hword).2.1 (Prod.ext htouch rfl) rfl (by decide)
  · have hrun : mv rootStage nestedWorld ["a", "b/./x//"] = (.ok _, _) := Prod.ext hmv rfl
    exact (hnamed hword).2.2 (by decide) hrun rfl

/-- A move takes away the directory that its own word leads through, so that the word finds nothing
although it named the new place. -/
theorem not_found_moved :
    nestedWorld.Reachable ∧ nestedWorld.space.boundRoot = none ∧
      (nestedWorld.space.resolve? "a" "/").map Node.id = some "n1" ∧
      nestedWorld.space.resolve? "a/../d" "/" = none ∧
      (mv rootStage nestedWorld ["a", "a/../d"]).1 = .ok {} ∧
      (mv rootStage nestedWorld ["a", "a/../d"]).2.space.pathOf "n1" = "/d" ∧
      (mv rootStage nestedWorld ["a", "a/../d"]).2.space.resolve? "a/../d" "/" = none :=
  ⟨reachable_nestedWorld, by decide +kernel, by decide +kernel, by decide +kernel,
    by decide +kernel, by decide +kernel, by decide +kernel⟩

/-! ## The tilde, and working directories with blanks at their ends -/

/-- What commands make under the tilde, or move to it, gets this name in the working directory. It
is found under the tilde only where this is the home directory. -/
theorem atTilde_of_reachable (hr : w.Reachable) (hfree : w.space.boundRoot = none)
    (hhome : Text.startsWith w.space.home "/" = true) (hp : IsToken path)
    (htilde : Path.dropSlashes path = "~") (t : Stage σ) :
    (∀ {args r w'}, Arguments.operands args = [path] → Arguments.hasFlag args 'p' = false →
      mkdir t w args = (.ok r, w') → r.output = "Created directory: " ++ path →
      ∃ n, n.kind = .directory ∧ w.space.node? n.id = none ∧ w.AtTilde path t.scene.cwd n w') ∧
    (∀ {r w'}, touch t w [path] = (.ok r, w') → r.output = "Created file: " ++ path →
      ∃ n, n.kind = .file ∧ w.space.node? n.id = none ∧ w.AtTilde path t.scene.cwd n w') ∧
    ∀ {args here r w'}, Arguments.operands args = [here, path] → mv t w args = (.ok r, w') →
      r.isError = false → (∀ d, w.space.resolve? path t.scene.cwd = some d → d.kind = .file) →
      ∃ n m, w.space.resolve? here t.scene.cwd = some n ∧ m.id = n.id ∧
        w.AtTilde path t.scene.cwd m w' := by
  have hf : w.Free := ⟨hfree, hr.sound⟩
  have hsplit := Arguments.splitPath_of_tilde htilde
  refine ⟨fun {args r w'} hops hflag h hsaid => ?_, fun {r w'} h hsaid => ?_,
    fun {args here r w'} hops h hok hfile => ?_⟩
  · rcases mkdir_cases hops h hsaid with ⟨hyes, -⟩ | ⟨-, d, n, hd, hn⟩
    · cases hflag.symm.trans hyes
    · rw [hsplit] at hd hn
      exact ⟨n, World.atTilde_of_create hf hp hhome htilde hd hn⟩
  · obtain ⟨d, n, hd, hn⟩ := touch_cases h hsaid
    rw [hsplit] at hd hn
    exact ⟨n, World.atTilde_of_create hf hp hhome htilde hd hn⟩
  · obtain ⟨n, d, name, m, hn, hdest, hm⟩ := mv_cases hops h hok
    rcases destination?_cases hdest with ⟨hd, hk, -⟩ | ⟨-, parent, hparent, hd⟩
    · cases hk.symm.trans (hfile d hd)
    · obtain ⟨rfl, rfl⟩ := Prod.mk.inj (hsplit.symm.trans hparent)
      exact ⟨n, m, hn, World.atTilde_of_move hf hp hhome htilde hd hm⟩

/-- The directory is named like the tilde, and the tilde still leads nowhere. -/
theorem not_found_tilde :
    nestedWorld.Reachable ∧ nestedWorld.space.boundRoot = none ∧
      nestedWorld.space.resolve? "~" "/" = none ∧
      (mkdir rootStage nestedWorld ["~"]).1 = .ok (.ok "Created directory: ~") ∧
      (mkdir rootStage nestedWorld ["~"]).2.space.pathOf "n4" = "/~" ∧
      (mkdir rootStage nestedWorld ["~"]).2.space.resolve? "~" "/" = none :=
  ⟨reachable_nestedWorld, by decide +kernel, by decide +kernel, by decide +kernel,
    by decide +kernel, by decide +kernel⟩

/-- With `-p` the directories are made from the working directory as it is written. The word finds
the last of them where looking it up leads to the same place. -/
theorem ensured_of_mkdir (hr : w.Reachable) (hfree : w.space.boundRoot = none)
    (hops : Arguments.operands args = [path]) (hflag : Arguments.hasFlag args 'p' = true)
    (h : mkdir t w args = (.ok r, w')) (hsaid : r.output = "Created directory: " ++ path) :
    ∃ n, w.Ensured path t.scene.cwd n w' := by
  rcases mkdir_cases hops h hsaid with ⟨-, -, n, hn⟩ | ⟨hno, -⟩
  · exact ⟨n, World.ensured_of_ensureDirectories ⟨hfree, hr.sound⟩ hn⟩
  · cases hno.symm.trans hflag

open World (edgedWorld reachable_edgedWorld)

/-- A terminal in the directory whose name ends with a blank. -/
def edgedStage : Stage Unit where
  host := memoryHost
  scene := { rootStage.scene with space := edgedWorld.space, cwd := "/x " }

/-- The directory is made there, and the word is looked up where there is none. -/
theorem not_found_edgedStage :
    edgedWorld.Reachable ∧ edgedWorld.space.boundRoot = none ∧
      (mkdir edgedStage edgedWorld ["-p", "a"]).1 = .ok (.ok "Created directory: a") ∧
      (mkdir edgedStage edgedWorld ["-p", "a"]).2.space.pathOf "n2" = "/x /a" ∧
      (mkdir edgedStage edgedWorld ["-p", "a"]).2.space.resolve? "a" "/x " = none :=
  ⟨reachable_edgedWorld, by decide +kernel, by decide +kernel, by decide +kernel,
    by decide +kernel⟩

end Change

end Workbench
