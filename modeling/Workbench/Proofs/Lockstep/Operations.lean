import Workbench.Proofs.Lockstep.Copies

/-!
# Operations in step

One theorem for each operation: from worlds in step, and with arguments that stand for the same,
the operation in the bound world and the operation in the free one end in step and alike.
-/

namespace Workbench

open Workspace (SameNode SameId Effect)

variable {σ ρ : Type} {root : String} {Mirrors : σ → Shape → Prop} {h : Host σ} {g : Host ρ}
  {w : World σ} {v : World ρ} {x y x' y' : NodeId}

/-! ## Creating -/

theorem together_create (hh : h.Serves root Mirrors) (hi : InStep root Mirrors w v)
    (hx : w.space.SameId v.space x y) (kind : NodeKind) (name content : String) :
    Together root Mirrors w v SameNode (w.create h kind name x content)
      (v.create g kind name y content) := by
  have hc := hi.twin.checkCreate hx name
  unfold World.create
  generalize ha : w.space.checkCreate name x = a at hc
  generalize hb : v.space.checkCreate name y = b at hc
  cases hc with
  | error hk => exact hi.refuse hk
  | @ok d e hde =>
    obtain ⟨hname, hd, hdk, hdf⟩ := Workspace.checkCreate_eq_ok_iff.1 ha
    obtain ⟨-, he, -⟩ := Workspace.checkCreate_eq_ok_iff.1 hb
    have hdx := hi.twin.left.tree.keyed hd
    have hey := hi.twin.right.tree.keyed he
    subst hdx
    subst hey
    obtain ⟨q, hl, hl'⟩ := hde.paired
    obtain ⟨hfree, hnew, hlead'⟩ := Effect.created hi.twin.right hb hl' kind content g.now
    rw [← hi.twin.shows] at hfree
    have hdir : w.space.arena.Shows q none := ⟨_, d, hl, hd, Node.shown_eq_none_iff.2 hdk⟩
    have hq := hi.twin.left.tree.free_of_childNamed? hl hd hdf
    have hS := hi.twin.left.tree.shape
    have hS' := hS.grown hdir hname hq (kind.shown content)
    -- whichever call is made, the new node is found in the rebuilt tree
    have key : ∀ {call}, Shape.Becomes root w.space.arena.Shows call
        (Shape.grown w.space.arena.Shows (q ++ [name]) (kind.shown content)) →
        ∃ w₁ d₁ n₁, h.writeThrough w call [] = (.ok (), w₁) ∧ w₁.space.node? d.id = some d₁ ∧
          w₁.space.arena.childNamed? d₁ name = some n₁ ∧
          Together root Mirrors w v SameNode (.ok n₁, w₁)
            (v.finish (v.space.added (v.space.drawnNode kind name e.id content g.now) e.id g.now)
              (v.space.drawnNode kind name e.id content g.now)) := by
      intro call hcall
      obtain ⟨w₁, hw, heff, hm⟩ := hh.writeThrough hi.bound hi.mirrors hS hcall hS'
        (fun hF hlist => Effect.rebuilt_stay hi.twin.left hF hS' hlist
          (fun hs => ⟨_, .inl hs, .rfl⟩) h.now)
      have hshows : w₁.space.arena.Shows (q ++ [name]) (kind.shown content) := by
        rw [heff.shows]
        exact .inr ⟨rfl, rfl⟩
      obtain ⟨d₁, n₁, hd₁, hn₁, hget, hlead⟩ := heff.sound.tree.exists_childNamed?
        (heff.goes hl rfl) hshows
      obtain ⟨hi', ho⟩ := hi.effect heff hm hfree
      exact ⟨w₁, d₁, n₁, hw, hd₁, hn₁, hi', ho,
        .ok (hi'.twin.sameNode ⟨_, hlead, hlead'⟩ hget hnew)⟩
    simp only [hi.isBound, hi.isFree, hh.checkListed, Bool.false_eq_true, ↓reduceIte]
    rw [hi.nodePath_eq hl]
    cases kind with
    | file =>
      obtain ⟨w₁, d₁, n₁, hw, hd₁, hn₁, ht⟩ := key (.createFile hdir hname hq content)
      simp only [hw, hd₁, hn₁]
      exact ht
    | directory =>
      obtain ⟨w₁, d₁, n₁, hw, hd₁, hn₁, ht⟩ := key (.createDirectory hdir hname hq)
      simp only [hw, hd₁, hn₁]
      exact ht

theorem together_ensureBelow (hh : h.Serves root Mirrors) (hi : InStep root Mirrors w v)
    (hx : w.space.Paired v.space x y) (segments : List String) :
    Together root Mirrors w v SameNode (w.ensureBelow h segments x)
      (v.ensureBelow g segments y) := by
  induction segments generalizing w v x y with
  | nil =>
    rw [World.ensureBelow, World.ensureBelow]
    exact .answer hi (.inl hx) (.refl hi.twin)
  | cons segment rest ih =>
    have hn := hi.twin.rel_node? (.inl hx)
    rw [World.ensureBelow, World.ensureBelow]
    generalize ha : w.space.node? x = a at hn
    generalize hb : v.space.node? y = b at hn
    cases hn with
    | none =>
      obtain ⟨q, hl, -⟩ := hx
      obtain ⟨n, hn⟩ := hi.twin.left.tree.mem_of_leads hl
      rw [Workspace.node?, hn] at ha
      cases ha
    | @some n m hnm =>
      dsimp only
      by_cases hdot : (segment == ".") = true
      · rw [if_pos hdot, if_pos hdot]
        exact ih hi hx
      · rw [if_neg hdot, if_neg hdot]
        by_cases hdots : (segment == "..") = true
        · rw [if_pos hdots, if_pos hdots]
          have hp := hnm.parentId
          generalize n.parentId = p at hp
          generalize m.parentId = p' at hp
          cases hp with
          | none => exact ih hi hx
          | some hp => exact ih hi hp
        · rw [if_neg hdots, if_neg hdots]
          have hc := hi.twin.rel_childNamed? hnm segment
          generalize w.space.arena.childNamed? n segment = c at hc
          generalize v.space.arena.childNamed? m segment = c' at hc
          cases hc with
          | @some k l hkl =>
            dsimp only
            rw [hkl.isDirectory_eq]
            split
            · exact ih hi hkl.paired
            · exact hi.refuse rfl
          | none =>
            have ht := together_create (g := g) hh hi (.inl hx) .directory segment ""
            dsimp only
            generalize w.create h .directory segment x "" = o at ht
            generalize v.create g .directory segment y "" = o' at ht
            obtain ⟨hi', ho, he⟩ := ht
            obtain ⟨e, w₁⟩ := o
            obtain ⟨e', v₁⟩ := o'
            cases he with
            | ok hkl => exact (ih hi' hkl.paired).after hi.twin hi'.twin ho
            | error he => exact ⟨hi', ho, .error he⟩

theorem together_ensureDirectories (hh : h.Serves root Mirrors) (hi : InStep root Mirrors w v)
    (path cwd : String) : Together root Mirrors w v SameNode (w.ensureDirectories h path cwd)
      (v.ensureDirectories g path cwd) := by
  unfold World.ensureDirectories
  rw [hi.twin.home]
  split
  · exact hi.refuse rfl
  · exact together_ensureBelow hh hi (Workspace.Twin.paired_root _ _) _

/-! ## Deleting -/

theorem together_delete (hh : h.Serves root Mirrors) (hi : InStep root Mirrors w v)
    (hx : w.space.SameId v.space x y) (recursive : Bool) :
    Together root Mirrors w v (fun _ _ _ _ => True) (w.delete h x recursive)
      (v.delete g y recursive) := by
  have hc := hi.twin.checkDelete hx recursive
  unfold World.delete
  generalize ha : w.space.checkDelete x recursive = a at hc
  generalize hb : v.space.checkDelete y recursive = b at hc
  cases hc with
  | error hk => exact hi.refuse hk
  | @ok n m hnm =>
    obtain ⟨-, hroot, -⟩ := Workspace.checkDelete_eq_ok_iff.1 hb
    obtain ⟨q, hl, hl'⟩ := hnm.paired
    obtain ⟨p, -, hp, -⟩ := hi.twin.right.tree.held hnm.right hroot
    have hfree := Effect.removed hi.twin.right hl' hnm.right hp g.now
    have hS' : (Shape.pruned v.space.arena.Shows q).IsTree :=
      hfree.shows ▸ hfree.sound.tree.shape
    rw [← hi.twin.shows] at hfree hS'
    have hcall : Shape.Becomes root w.space.arena.Shows (.delete (w.nodePath n.id))
        (Shape.pruned w.space.arena.Shows q) := by
      rw [hi.nodePath_eq hl]
      exact .delete ⟨_, n, hl, hnm.left, rfl⟩
    obtain ⟨w₁, hw, heff, hm⟩ := hh.writeThrough (τ := .without q) hi.bound hi.mirrors
      hi.twin.left.tree.shape hcall hS' fun hF hlist =>
        Effect.rebuilt_nil hi.twin.left hF hS' hlist
          (fun {q₁ q₂ c} hs hτ => by
            obtain ⟨hnot, rfl⟩ := Course.without_eq_some_iff.1 hτ
            exact ⟨rfl, c, ⟨hs, hnot⟩, .rfl⟩)
          (fun hτ c hs => hs.2 (Course.without_eq_none_iff.1 hτ)) h.now
    -- the tabs of what is gone have been closed by the rebuilding
    have htabs : (w₁.space.tabs.closeMany (w.space.arena.subtreeIds n.id)).2 = w₁.space.tabs := by
      refine Tabs.closeMany_of_disjoint fun z hz hmem => ?_
      have hb := (hi.twin.left.tree.mem_subtreeIds_iff hnm.left).1 hmem
      obtain ⟨k, hk⟩ := hb.exists_node hnm.left
      obtain ⟨r, hr⟩ := hi.twin.left.tree.exists_leads hk
      obtain ⟨k', hk', -⟩ := heff.sound.files hz
      rw [heff.gone hr (Course.without_eq_none_iff.2
        ((hi.twin.left.tree.atOrBelow_iff hl hr).1 hb))] at hk'
      cases hk'
    obtain ⟨hi', ho⟩ := hi.effect heff hm hfree
    simp only [hi.isBound, hi.isFree, hw, htabs, hp, Option.getD_some, Bool.false_eq_true,
      ↓reduceIte]
    exact ⟨hi', ho, .ok trivial⟩

/-! ## Changing names and marks -/

theorem together_mark (hi : InStep root Mirrors w v) (hx : w.space.SameId v.space x y)
    (changes : NodeUpdate) :
    Together root Mirrors w v SameNode (w.mark x changes) (v.mark y changes) := by
  have hr := hi.twin.require hx
  unfold World.mark
  generalize ha : w.space.require x = a at hr
  generalize hb : v.space.require y = b at hr
  cases hr with
  | error hk => exact hi.refuse hk
  | @ok n m hnm =>
    have hx : n.id = x := hi.twin.left.tree.keyed (Workspace.require_eq_ok_iff.1 ha)
    have hy : m.id = y := hi.twin.right.tree.keyed (Workspace.require_eq_ok_iff.1 hb)
    subst hx
    subst hy
    have hmarked := Effect.marked hi.twin.right m.id changes
    rw [← hi.twin.shows] at hmarked
    obtain ⟨hi', ho⟩ := hi.effect (.marked hi.twin.left n.id changes) hi.mirrors hmarked
    exact .answer hi' (ho.sameId hi'.twin hnm.paired) ho

/-- Both sides of taking a node to a free place: writing it through, and editing it. -/
theorem together_carried (hh : h.Serves root Mirrors) (hi : InStep root Mirrors w v)
    {n t : Node} {name : String} {q qt : List String} {call : DiskCall} {s' : Workspace}
    (hn : w.space.arena.get? n.id = some n) (hg : w.space.arena.MayGo n.id t.id name)
    (hl : w.space.arena.Leads n.id q) (hlt : w.space.arena.Leads t.id qt)
    (hne : n.parentId = some t.id → n.name ≠ name)
    (hcall : call = .rename (Disk.below root q) (Disk.below root (qt ++ [name])) ∨
      call = .move (Disk.below root q) (Disk.below root (qt ++ [name])))
    (hfree : Effect (.along q (qt ++ [name])) (Shape.shifted w.space.arena.Shows q (qt ++ [name]))
      v.space s') :
    ∃ w₁, h.writeThrough w call (w.space.carriedTo n.id (qt ++ [name])) = (.ok (), w₁) ∧
      InStep root Mirrors w₁ { v with space := s' } ∧
      w.space.Onward v.space w₁.space s' := by
  have hplace := hi.twin.left.free_place hg hn hlt hne
  have hnames : Path.AreNames (qt ++ [name]) :=
    Path.AreNames.append_iff.2 ⟨hi.twin.left.tree.isName_of_leads hlt,
      Path.AreNames.singleton_iff.2 hg.isName⟩
  have hS' : (Shape.shifted w.space.arena.Shows q (qt ++ [name])).IsTree :=
    hfree.shows ▸ hfree.sound.tree.shape
  have hshows : w.space.arena.Shows q n.shown := ⟨_, n, hl, hn, rfl⟩
  have hb : Shape.Becomes root w.space.arena.Shows call
      (Shape.shifted w.space.arena.Shows q (qt ++ [name])) := by
    rcases hcall with rfl | rfl
    · exact .rename hshows hnames hplace
    · exact .move hshows hnames hplace
  obtain ⟨w₁, hw, heff, hm⟩ := hh.writeThrough hi.bound hi.mirrors hi.twin.left.tree.shape hb hS'
    fun hF hlist => Effect.rebuilt_carriedTo hi.twin.left hl hg.notRoot hplace hF hS' hlist h.now
  obtain ⟨hi', ho⟩ := hi.effect heff hm hfree
  exact ⟨w₁, hw, hi', ho⟩

theorem together_relabel (hh : h.Serves root Mirrors) (hi : InStep root Mirrors w v)
    {changes : NodeUpdate} {n m : Node} {p p' : Workspace.Placement}
    (ha : w.space.checkUpdate x changes = .ok (n, some p))
    (hb : v.space.checkUpdate y changes = .ok (m, some p'))
    (hp : w.space.SamePlacement v.space p p') :
    Together root Mirrors w v (fun _ _ _ _ => True) (w.relabel h p) (v.relabel g p') := by
  obtain ⟨hn, hpar, hg⟩ := Workspace.mayGo_of_checkUpdate hi.twin.left.tree ha
  obtain ⟨hn', hpar', hg'⟩ := Workspace.mayGo_of_checkUpdate hi.twin.right.tree hb
  obtain ⟨rfl, -, -, hname, -⟩ := Workspace.checkUpdate_some ha
  obtain ⟨q, hl, hl'⟩ := hp.node.paired
  obtain ⟨qt, hlt, hlt'⟩ := hp.target.paired
  have hmoved := hi.twin.right.moved_renamed hn' hpar' g.now
  have hfree := Effect.moved hi.twin.right hmoved hg' hl' hlt'
  rw [← hi.twin.shows, ← hp.name] at hfree
  obtain ⟨w₁, hw, hi', ho⟩ := together_carried hh hi hn hg hl hlt (fun _ he => hname he.symm)
    (.inl rfl) hfree
  unfold World.relabel
  simp only [hi.isBound, hi.isFree, hh.checkListed, hi.nodePath_eq hl, hi.diskPath_eq,
    World.placeIn_eq hi.twin.left.tree hlt, hw, Bool.false_eq_true, ↓reduceIte]
  exact ⟨hi', ho, .ok trivial⟩

theorem together_update (hh : h.Serves root Mirrors) (hi : InStep root Mirrors w v)
    (hx : w.space.SameId v.space x y) (changes : NodeUpdate) :
    Together root Mirrors w v SameNode (w.update h x changes) (v.update g y changes) := by
  have hc := hi.twin.checkUpdate hx changes
  unfold World.update
  generalize ha : w.space.checkUpdate x changes = a at hc
  generalize hb : v.space.checkUpdate y changes = b at hc
  cases hc with
  | error hk => exact hi.refuse hk
  | @ok a b hab =>
    obtain ⟨n, op⟩ := a
    obtain ⟨m, op'⟩ := b
    obtain ⟨hnm, hp⟩ := hab
    cases hp with
    | none => exact together_mark hi hx changes
    | some hp =>
      have hr := together_relabel (g := g) hh hi ha hb hp
      obtain ⟨-, hn, -⟩ := Workspace.checkUpdate_some ha
      obtain ⟨-, hm, -⟩ := Workspace.checkUpdate_some hb
      have hx : n.id = x := hi.twin.left.tree.keyed hn
      have hy : m.id = y := hi.twin.right.tree.keyed hm
      subst hx
      subst hy
      dsimp only
      generalize w.relabel h _ = o at hr
      generalize v.relabel g _ = o' at hr
      obtain ⟨hi', ho, he⟩ := hr
      obtain ⟨e, w₁⟩ := o
      obtain ⟨e', v₁⟩ := o'
      cases he with
      | ok _ =>
        exact (together_mark hi' (ho.sameId hi'.twin hnm.paired) changes).after hi.twin hi'.twin ho
      | error he => exact ⟨hi', ho, .error he⟩

/-! ## Moving and copying -/

theorem together_move (hh : h.Serves root Mirrors) (hi : InStep root Mirrors w v)
    (hx : w.space.SameId v.space x y) (hx' : w.space.SameId v.space x' y')
    (name? : Option String) :
    Together root Mirrors w v SameNode (w.move h x x' name?) (v.move g y y' name?) := by
  have hc := hi.twin.checkMove hx hx' name?
  unfold World.move
  generalize ha : w.space.checkMove x x' name? = a at hc
  generalize hb : v.space.checkMove y y' name? = b at hc
  cases hc with
  | error hk => exact hi.refuse hk
  | @ok p p' hp =>
    have hsame := hi.twin.isSame_eq hp
    dsimp only
    cases hs : p.isSame with
    | true =>
      rw [← hsame, hs]
      exact ⟨hi, .refl hi.twin, .ok hp.node⟩
    | false =>
      rw [hs] at hsame
      have hg := Workspace.mayGo_of_checkMove hi.twin.left.tree ha hs
      have hg' := Workspace.mayGo_of_checkMove hi.twin.right.tree hb hsame.symm
      have hf := Workspace.found_of_checkMove hi.twin.left.tree ha
      have hf' := Workspace.found_of_checkMove hi.twin.right.tree hb
      obtain ⟨r, hr⟩ := hf'.held
      obtain ⟨q, hl, hl'⟩ := hp.node.paired
      obtain ⟨qt, hlt, hlt'⟩ := hp.target.paired
      have hfree := Effect.moved hi.twin.right (hi.twin.right.moved_moved hf'.node hr hg' g.now)
        hg' hl' hlt'
      rw [← hi.twin.shows, ← hp.name] at hfree
      have hne : p.node.parentId = some p.target.id → p.node.name ≠ p.name := by
        intro hpar hname
        rw [Workspace.Placement.isSame, hpar, hname, beq_self_eq_true, beq_self_eq_true] at hs
        cases hs
      have hcall : ∀ (c : Bool) (old new : String),
          (if c then DiskCall.rename old new else .move old new) = .rename old new ∨
            (if c then DiskCall.rename old new else .move old new) = .move old new := by
        rintro (_ | _) old new
        · exact .inr rfl
        · exact .inl rfl
      obtain ⟨w₁, hw, hi', ho⟩ := together_carried hh hi hf.node hg hl hlt hne
        (hcall (some p.target.id == p.node.parentId) _ _) hfree
      simp only [← hsame, hi.isBound, hi.isFree, hh.checkListed, hi.nodePath_eq hl, hi.diskPath_eq,
        World.placeIn_eq hi.twin.left.tree hlt, hw, hr, Option.getD_some, Bool.false_eq_true,
        ↓reduceIte]
      rw [← hf.nodeId, ← hf'.nodeId]
      exact .answer hi' (ho.sameId hi'.twin hp.node.paired) ho

theorem together_copy (hh : h.Serves root Mirrors) (hi : InStep root Mirrors w v)
    (hx : w.space.SameId v.space x y) (hx' : w.space.SameId v.space x' y')
    (name? : Option String) :
    Together root Mirrors w v SameNode (w.copy h x x' name?) (v.copy g y y' name?) := by
  have hc := hi.twin.checkCopy hx hx' name?
  unfold World.copy
  generalize ha : w.space.checkCopy x x' name? = a at hc
  generalize hb : v.space.checkCopy y y' name? = b at hc
  cases hc with
  | error hk => exact hi.refuse hk
  | @ok p p' hp =>
    obtain ⟨-, -, hcf⟩ := Workspace.checkCopy_eq_ok ha
    have hf := Workspace.found_of_checkCopy hi.twin.left.tree ha
    have hf' := Workspace.found_of_checkCopy hi.twin.right.tree hb
    obtain ⟨-, hfree'⟩ := Workspace.free_of_checkCopy hi.twin.right.tree hb
    obtain ⟨q, hl, hl'⟩ := hp.node.paired
    obtain ⟨qt, hlt, hlt'⟩ := hp.target.paired
    -- in the free world
    have heff' := Effect.copied hi.twin.right hl' hlt' hf'.node hf'.target hf'.directory
      hf'.isName hfree' g.now
    have hgraft := Workspace.grafted_copied hi.twin.right.tree hi.twin.right.unused hf'.node
      ⟨_, hf'.target⟩
      g.now
    have htop := hgraft.leads_top hf'.node hlt'
    rw [← hi.twin.shows, ← hp.name] at heff'
    rw [← hp.name] at htop
    -- in the bound world
    have hS' : (Shape.doubled w.space.arena.Shows q (qt ++ [p.name])).IsTree :=
      heff'.shows ▸ heff'.sound.tree.shape
    have hdir : w.space.arena.Shows qt none :=
      ⟨_, p.target, hlt, hf.target, Node.shown_eq_none_iff.2 hf.directory⟩
    have hplace := hi.twin.left.tree.free_of_childNamed? hlt hf.target hcf
    obtain ⟨w₁, hw₁, hs₁, hm₁⟩ := hh.performAll hi.mirrors hi.twin.left.tree.shape
      (World.becomesAll_copyCalls hi.twin.left.tree hi.bound hl hf.node hlt hdir hf.isName
        hplace)
    have hrebuilt : ∀ {F}, ProperListing F →
        Workspace.ListsShape F (Shape.doubled w.space.arena.Shows q (qt ++ [p.name])) →
        Effect .stay (Shape.doubled w.space.arena.Shows q (qt ++ [p.name])) w₁.space
          (w₁.space.rebuilt F [] h.now) := by
      intro F hF hlist
      rw [hs₁]
      exact Effect.rebuilt_stay hi.twin.left hF hS' hlist (fun hs => ⟨_, .inl hs, .rfl⟩) h.now
    obtain ⟨w₂, hw₂, heff, hm₂⟩ := hh.resync (hs₁ ▸ hi.bound) hm₁ hS' hrebuilt
    rw [hs₁] at heff
    obtain ⟨hi', ho⟩ := hi.effect heff hm₂ heff'
    have hshows : w₂.space.arena.Shows (qt ++ [p.name]) p.node.shown := by
      rw [heff.shows]
      exact .inr ⟨[], (List.append_nil _).symm, _, p.node, by rwa [List.append_nil], hf.node, rfl⟩
    obtain ⟨d₂, n₂, hd₂, hn₂, hget, hlead⟩ := heff.sound.tree.exists_childNamed?
      (heff.goes hlt rfl) hshows
    have hd₂ : w₂.space.node? x' = some d₂ := hf.targetId ▸ hd₂
    obtain ⟨m, hm, hnm⟩ := hi'.twin.exists_sameNode ⟨_, hlead, htop⟩ hget
    have hanswer : { v with space := v.space.copied p' g.now }.answer
        (Workspace.copyId v.space.drawn (v.space.arena.subtreeIds p'.node.id) p'.node.id) =
        (.ok m, { v with space := v.space.copied p' g.now }) := by
      rw [World.answer, Workspace.require_eq_ok_iff.2 hm]
    simp only [hi.isBound, hi.isFree, hh.checkListed, hw₁, hw₂, hd₂, hn₂, Bool.false_eq_true,
      ↓reduceIte]
    rw [hanswer]
    exact ⟨hi', ho, .ok hnm⟩

/-! ## Contents and times -/

/-- Writing the text that a file has changes nothing of the shape. -/
theorem Shape.IsTree.refilled_self {S : Shape} {q : List String} {text : String} (hS : S.IsTree)
    (hq : S q (some text)) : S.refilled q text = S := by
  funext q' c
  refine propext ⟨?_, fun hs => ?_⟩
  · rintro (⟨hs, -⟩ | ⟨rfl, rfl⟩)
    · exact hs
    · exact hq
  · by_cases hqq : q' = q
    · subst hqq
      exact .inr ⟨rfl, hS.single hs hq⟩
    · exact .inl ⟨hs, hqq⟩

/-- Writing a file through, next to a change in memory that leads to the same shape. -/
theorem together_refilled (hh : h.Serves root Mirrors) (hi : InStep root Mirrors w v)
    {n m : Node} {content : String} {q : List String} {s' : Workspace}
    (hnm : w.space.SameNode v.space n m) (hk : n.kind = .file)
    (hl : w.space.arena.Leads n.id q)
    (hfree : Effect .stay (Shape.refilled w.space.arena.Shows q content) v.space s') :
    Together root Mirrors w v SameNode (w.setContent h n.id content)
      ({ v with space := s' }.answer m.id) := by
  have hfile : w.space.requireFile n.id = .ok n :=
    Workspace.requireFile_eq_ok_iff.2 ⟨hnm.left, hk⟩
  have hshown : n.shown = some n.content := if_pos (Node.isFile_iff.2 hk)
  have hold : w.space.arena.Shows q (some n.content) := ⟨_, n, hl, hnm.left, hshown⟩
  have hS' : (Shape.refilled w.space.arena.Shows q content).IsTree :=
    hfree.shows ▸ hfree.sound.tree.shape
  obtain ⟨w₁, hw, heff, hm⟩ := hh.writeThrough (τ := .stay) hi.bound hi.mirrors
    hi.twin.left.tree.shape (.writeFile hold content) hS' fun hF hlist =>
      Effect.rebuilt_stay hi.twin.left hF hS' hlist (fun {q' c} hs => by
        by_cases hq : q' = q
        · subst hq
          obtain rfl := hi.twin.left.tree.shape.single hs hold
          exact ⟨some content, .inr ⟨rfl, rfl⟩, by simp⟩
        · exact ⟨c, .inl ⟨hs, hq⟩, .rfl⟩) h.now
  obtain ⟨hi', ho⟩ := hi.effect heff hm hfree
  simp only [World.setContent, hfile, hi.isBound, hi.nodePath_eq hl, hw, Bool.false_eq_true,
    ↓reduceIte]
  exact .answer hi' (ho.sameId hi'.twin hnm.paired) ho

theorem together_setContent (hh : h.Serves root Mirrors) (hi : InStep root Mirrors w v)
    (hx : w.space.SameId v.space x y) (content : String) :
    Together root Mirrors w v SameNode (w.setContent h x content) (v.setContent g y content) := by
  have hc := hi.twin.requireFile hx
  generalize ha : w.space.requireFile x = a at hc
  generalize hb : v.space.requireFile y = b at hc
  cases hc with
  | error hk =>
    simp only [World.setContent, ha, hb]
    exact hi.refuse hk
  | @ok n m hnm =>
    obtain ⟨hn, hk⟩ := Workspace.requireFile_eq_ok_iff.1 ha
    obtain ⟨hm, hk'⟩ := Workspace.requireFile_eq_ok_iff.1 hb
    have hx := hi.twin.left.tree.keyed hn
    have hy := hi.twin.right.tree.keyed hm
    subst hx
    subst hy
    obtain ⟨q, hl, hl'⟩ := hnm.paired
    have hfree := Effect.refilled hi.twin.right hl' hnm.right hk' content g.now
    rw [← hi.twin.shows] at hfree
    have := together_refilled hh hi hnm hk hl hfree
    have he : v.setContent g m.id content =
        { v with space := v.space.refilled m.id content g.now }.answer m.id := by
      simp only [World.setContent, hb, hi.isFree, ↓reduceIte]
    rw [he]
    exact this

theorem together_touch (hh : h.Serves root Mirrors) (hi : InStep root Mirrors w v)
    (hx : w.space.SameId v.space x y) :
    Together root Mirrors w v SameNode (w.touch h x) (v.touch g y) := by
  have hc := hi.twin.require hx
  unfold World.touch
  generalize ha : w.space.require x = a at hc
  generalize hb : v.space.require y = b at hc
  cases hc with
  | error hk => exact hi.refuse hk
  | @ok n m hnm =>
    have hx := hi.twin.left.tree.keyed (Workspace.require_eq_ok_iff.1 ha)
    have hy := hi.twin.right.tree.keyed (Workspace.require_eq_ok_iff.1 hb)
    subst hx
    subst hy
    obtain ⟨q, hl, hl'⟩ := hnm.paired
    have htouched := Effect.touched hi.twin.right m.id g.now
    rw [← hi.twin.shows] at htouched
    simp only [hi.bound, hi.free, Option.isSome_some, Option.isSome_none, Bool.and_true,
      Bool.and_false, Bool.false_eq_true, ↓reduceIte]
    by_cases hf : n.isFile = true
    · rw [if_pos hf]
      have hshown : n.shown = some n.content := if_pos hf
      have hold : w.space.arena.Shows q (some n.content) := ⟨_, n, hl, hnm.left, hshown⟩
      rw [← hi.twin.left.tree.shape.refilled_self hold] at htouched
      exact together_refilled hh hi hnm (Node.isFile_iff.1 hf) hl htouched
    · rw [if_neg hf]
      obtain ⟨hi', ho⟩ := hi.effect (.touched hi.twin.left n.id h.now) hi.mirrors htouched
      exact .answer hi' (ho.sameId hi'.twin hnm.paired) ho

/-! ## Tabs -/

theorem InStep.retab (hi : InStep root Mirrors w v) {t u : Tabs} (ht : t.Sound) (hu : u.Sound)
    (hft : ∀ {id}, id ∈ t.openIds → ∃ n, w.space.arena.get? id = some n ∧ n.kind = .file)
    (hfu : ∀ {id}, id ∈ u.openIds → ∃ n, v.space.arena.get? id = some n ∧ n.kind = .file)
    (ha : Tabs.Alike (w.space.Paired v.space) t u) :
    InStep root Mirrors { w with space := { w.space with tabs := t } }
        { v with space := { v.space with tabs := u } } ∧
      w.space.Onward v.space { w.space with tabs := t } { v.space with tabs := u } :=
  have ho := Workspace.Onward.refl hi.twin
  ⟨⟨⟨hi.twin.left.retab ht hft, hi.twin.right.retab hu hfu, hi.twin.home, hi.twin.shows, ha⟩,
    hi.bound, hi.free, hi.mirrors⟩, ⟨ho.leads_iff, ho.left, ho.right, ho.left_le, ho.right_le⟩⟩

theorem together_openTab (hi : InStep root Mirrors w v) (hx : w.space.SameId v.space x y) :
    Together root Mirrors w v SameNode (w.openTab x) (v.openTab y) := by
  have hc := hi.twin.requireFile hx
  unfold World.openTab Workspace.openTab
  generalize ha : w.space.requireFile x = a at hc
  generalize hb : v.space.requireFile y = b at hc
  cases hc with
  | error hk => exact hi.refuse hk
  | @ok n m hnm =>
    obtain ⟨hn, hk⟩ := Workspace.requireFile_eq_ok_iff.1 ha
    obtain ⟨hm, hk'⟩ := Workspace.requireFile_eq_ok_iff.1 hb
    have hso := hi.twin.left.opened hnm.left hk
    have hso' := hi.twin.right.opened hnm.right hk'
    obtain ⟨hi', ho⟩ := hi.retab hso.tabs hso'.tabs hso.files hso'.files
      (hi.twin.tabs.opened hi.twin.biUnique hnm.paired)
    exact ⟨hi', ho, .ok ⟨hnm.left, hnm.right, hnm.paired, hnm.name, hnm.kind, hnm.content,
      hnm.size, hnm.parentId⟩⟩

theorem together_closeTab (hi : InStep root Mirrors w v) (hx : w.space.SameId v.space x y) :
    Together root Mirrors w v (fun _ _ => Eq)
      (w.finish (w.space.closeTab x).2 (w.space.closeTab x).1)
      (v.finish (v.space.closeTab y).2 (v.space.closeTab y).1) := by
  have halike : (w.space.tabs.close x).1 = (v.space.tabs.close y).1 ∧
      Tabs.Alike (w.space.Paired v.space) (w.space.tabs.close x).2 (v.space.tabs.close y).2 := by
    rcases hx with hp | ⟨hs, ht⟩
    · exact hi.twin.tabs.close hi.twin.biUnique hp
    · have hnot : w.space.tabs.openIds.contains x = false := by
        rw [Bool.eq_false_iff]
        intro hmem
        obtain ⟨n, hn, -⟩ := hi.twin.left.files (by simpa using hmem)
        rw [hs] at hn
        cases hn
      have hnot' : v.space.tabs.openIds.contains y = false := by
        rw [Bool.eq_false_iff]
        intro hmem
        obtain ⟨n, hn, -⟩ := hi.twin.right.files (by simpa using hmem)
        rw [ht] at hn
        cases hn
      simp only [Tabs.close, hnot, hnot', Bool.false_eq_true, ↓reduceIte]
      exact ⟨trivial, hi.twin.tabs⟩
  have hso := hi.twin.left.closeTab x
  have hso' := hi.twin.right.closeTab y
  obtain ⟨hi', ho⟩ := hi.retab hso.tabs hso'.tabs hso.files hso'.files halike.2
  exact ⟨hi', ho, .ok halike.1⟩

theorem together_closeAllTabs (hi : InStep root Mirrors w v) :
    Together root Mirrors w v (fun _ _ _ _ => True) (w.finish w.space.closeAllTabs ())
      (v.finish v.space.closeAllTabs ()) := by
  have hso := hi.twin.left.closeAllTabs
  have hso' := hi.twin.right.closeAllTabs
  obtain ⟨hi', ho⟩ := hi.retab hso.tabs hso'.tabs hso.files hso'.files ⟨.nil, .none⟩
  exact ⟨hi', ho, .ok trivial⟩

end Workbench
