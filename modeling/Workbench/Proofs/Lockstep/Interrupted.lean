import Workbench.Proofs.Disk.Listing
import Workbench.Proofs.Lockstep.Runs
import Workbench.Proofs.Workspace.Presented

/-!
# Copies that are interrupted

A copy to the disk is the one operation that takes several calls. When one of them goes wrong, what
the calls before it have created stays, and the tree is rebuilt from a new listing, so that the
workspace shows the part of the copy that is there and has lost nothing (`World.interrupted_copy`).

Where the calls go wrong is left open: all that is asked of the bridge is that a call that is not
carried out leaves the disk as it was (`Bridge.Steady`). A faithful bridge of which any calls are
made to fail is such a bridge (`Bridge.Faithful.steady_interrupted`).
-/

namespace Workbench

variable {σ : Type} {root : String} {Mirrors : σ → Shape → Prop}

/-! ## Bridges of which calls go wrong -/

namespace Bridge

/-- A bridge that leaves nothing out of the listings that it makes, and that carries out a call as a
whole or not at all. -/
structure Steady (b : Bridge σ) (root : String) (Mirrors : σ → Shape → Prop) : Prop where
  ignored : b.ignored = []
  maxDepth : b.maxDepth = none
  list : ∀ {d S F d' now}, Mirrors d S → S.IsTree → b.list now root d = (.ok F, d') →
    Mirrors d' S ∧ ProperListing F ∧ Workspace.ListsShape F S
  done : ∀ {d S call S' now path d'}, Mirrors d S → S.IsTree → Shape.Becomes root S call S' →
    b.perform now call d = (.ok (.done path), d') → Mirrors d' S'
  undone : ∀ {d S call S' now a d'}, Mirrors d S → S.IsTree → Shape.Becomes root S call S' →
    b.perform now call d = (a, d') → (∀ path, a ≠ .ok (.done path)) → Mirrors d' S

/-- The same bridge, of which some calls are answered with a failure or break down instead of being
carried out. The calls are counted; `plan` tells how the calls end that are not carried out. -/
def interrupted (b : Bridge σ) (plan : Nat → Option (Except Breakdown (Option String))) :
    Bridge (σ × Nat) where
  ignored := b.ignored
  maxDepth := b.maxDepth
  list now root t :=
    let (answer, d) := b.list now root t.1
    (answer, d, t.2)
  perform now call t :=
    match plan t.2 with
    | some e => (e.map .failed, t.1, t.2 + 1)
    | none =>
      let (answer, d) := b.perform now call t.1
      (answer, d, t.2 + 1)

theorem Faithful.steady_interrupted {b : Bridge σ} (hb : b.Faithful root Mirrors)
    (plan : Nat → Option (Except Breakdown (Option String))) :
    (b.interrupted plan).Steady root fun t S => Mirrors t.1 S where
  ignored := hb.ignored
  maxDepth := hb.maxDepth
  list {d S F d' now} hm hS he := by
    obtain ⟨F', d₁, hl, hm', hF, hlists⟩ := hb.list now hm hS
    simp only [interrupted, hl, Prod.mk.injEq, Except.ok.injEq] at he
    obtain ⟨rfl, rfl⟩ := he
    exact ⟨hm', hF, hlists⟩
  done {d S call S' now path d'} hm hS hc he := by
    obtain ⟨path', d₁, hp, hm'⟩ := hb.perform now hm hS hc
    simp only [interrupted, hp] at he
    split at he
    · next e _ =>
      cases e <;> cases (Prod.mk.inj he).1
    · obtain rfl := (Prod.mk.inj he).2
      exact hm'
  undone {d S call S' now a d'} hm hS hc he ha := by
    obtain ⟨path', d₁, hp, -⟩ := hb.perform now hm hS hc
    simp only [interrupted, hp] at he
    split at he
    · obtain rfl := (Prod.mk.inj he).2
      exact hm
    · exact absurd (Prod.mk.inj he).1.symm (ha path')

end Bridge

theorem Node.Fit.content_eq_of_shown {m n : Node} (hm : m.Fit) (hn : n.Fit)
    (h : m.shown = n.shown) : m.content = n.content := by
  have hk := Node.kind_eq_of_shown h
  cases hd : n.kind with
  | file =>
    rw [Node.shown, Node.shown, if_pos (Node.isFile_iff.2 hd),
      if_pos (Node.isFile_iff.2 (hk.trans hd))] at h
    exact Option.some.inj h
  | directory => rw [hm.bare (hk.trans hd), hn.bare hd]

theorem Arena.Leads.step {a : Arena} {p c : NodeId} {name : String} {names : List String}
    (hl : a.Leads p names)
    (hc : (a.get? c).map (fun n => (n.name, n.parentId)) = some (name, some p)) :
    a.Leads c (names ++ [name]) := by
  obtain ⟨n, hn, he⟩ := Option.map_eq_some_iff.1 hc
  obtain ⟨rfl, hp⟩ := Prod.mk.inj he
  exact .child hl hn hp

/-! ## Calls up to one that goes wrong -/

variable {S S' : Shape} {calls : List DiskCall}

theorem Shape.BecomesAll.isTree (h : Shape.BecomesAll root S calls S') (hS : S.IsTree) :
    S'.IsTree := by
  induction h with
  | nil => exact hS
  | cons _ hS' _ ih => exact ih hS'

namespace Host

variable {h : Host σ} {b : Bridge σ} {w w₁ w₂ : World σ} {call : DiskCall} {cause : Refusal}

theorem mirrors_of_perform (hb : h.bridge = some b) (hf : b.Steady root Mirrors)
    (hm : Mirrors w.disk S) (hS : S.IsTree) (hc : Shape.Becomes root S call S') {u : Unit}
    (he : h.perform w call = (.ok u, w₁)) : Mirrors w₁.disk S' := by
  simp only [perform, hb] at he
  split at he
  · next hp =>
    obtain rfl := (Prod.mk.inj he).2
    exact hf.done hm hS hc hp
  · cases he
  · cases he

/-- A call that goes wrong leaves the disk as it was. -/
theorem mirrors_of_perform_error (hb : h.bridge = some b) (hf : b.Steady root Mirrors)
    (hm : Mirrors w.disk S) (hS : S.IsTree) (hc : Shape.Becomes root S call S')
    (he : h.perform w call = (.error cause, w₁)) : Mirrors w₁.disk S := by
  simp only [perform, hb] at he
  split at he
  · cases he
  · next hp =>
    obtain rfl := (Prod.mk.inj he).2
    exact hf.undone hm hS hc hp fun path hd => by cases hd
  · next hp =>
    obtain rfl := (Prod.mk.inj he).2
    exact hf.undone hm hS hc hp fun path hd => by cases hd

theorem mirrors_of_performAll (hb : h.bridge = some b) (hf : b.Steady root Mirrors)
    (hm : Mirrors w.disk S) (hS : S.IsTree) (hc : Shape.BecomesAll root S calls S') {u : Unit}
    (he : h.performAll w calls = (.ok u, w₁)) : Mirrors w₁.disk S' := by
  induction hc generalizing w with
  | nil =>
    obtain rfl := (Prod.mk.inj he).2
    exact hm
  | cons hc hS' _ ih =>
    rw [performAll] at he
    split at he
    · next hp => exact ih (mirrors_of_perform hb hf hm hS hc hp) hS' he
    · cases he

/-- Calls end with the first that goes wrong. -/
theorem performAll_append_error {u : Unit} (hdone : h.performAll w calls = (.ok u, w₁))
    (hfail : h.perform w₁ call = (.error cause, w₂)) (rest : List DiskCall) :
    h.performAll w (calls ++ call :: rest) = (.error cause, w₂) := by
  induction calls generalizing w with
  | nil =>
    obtain rfl := (Prod.mk.inj hdone).2
    rw [List.nil_append, performAll, hfail]
  | cons first others ih =>
    rw [performAll] at hdone
    rw [List.cons_append, performAll]
    split at hdone
    · exact ih hdone
    · cases hdone

end Host

/-! ## The part of a copy that is made -/

/-- Where something is made of every element, the first results are those of the first elements. -/
theorem filterMap_of_total {α β : Type} {f : α → Option β} {l : List α}
    (h : ∀ a ∈ l, ∃ b, f a = some b) (k : Nat) :
    (l.filterMap f).take k = (l.take k).filterMap f ∧ (l.filterMap f)[k]? = l[k]?.bind f := by
  induction l generalizing k with
  | nil => simp
  | cons a l ih =>
    obtain ⟨b, hb⟩ := h a List.mem_cons_self
    rw [List.filterMap_cons_some hb]
    cases k with
    | zero => simp [hb]
    | succ k =>
      obtain ⟨htake, hget⟩ := ih (fun x hx => h x (List.mem_cons_of_mem _ hx)) k
      simp [List.filterMap_cons_some hb, htake, hget]

namespace World

variable {h : Host σ} {b : Bridge σ} {w w₁ w₂ : World σ} {id t : NodeId} {name? : Option String}
  {pl : Workspace.Placement} {k : Nat} {call : DiskCall} {cause : Refusal}

/-- What is shown when the first nodes of a subtree have been copied to a place, each node before
its children. -/
def copiedFirst (w : World σ) (pl : Workspace.Placement) (k : Nat) : Shape :=
  w.space.copiedShape (w.space.arena.namesTo pl.node.id) (w.placeIn pl.target pl.name)
    ((w.space.arena.subtreeIds pl.node.id).take k)

/-- The first calls of a copy, and the one after them. -/
theorem becomes_copiedFirst (hs : w.space.Sound) (hb : w.space.boundRoot = some root)
    (hc : w.space.checkCopy id t name? = .ok pl) (hcall : (w.copyCalls pl)[k]? = some call) :
    Shape.BecomesAll root w.space.arena.Shows ((w.copyCalls pl).take k) (w.copiedFirst pl k) ∧
      Shape.Becomes root (w.copiedFirst pl k) call (w.copiedFirst pl (k + 1)) := by
  obtain ⟨-, -, hfree⟩ := Workspace.checkCopy_eq_ok hc
  obtain ⟨-, -, hn, hd, hdk, -, -, hname, -⟩ := Workspace.found_of_checkCopy hs.tree hc
  have hx := hs.tree.leads_namesTo hn
  have ht := hs.tree.leads_namesTo hd
  have hdir : w.space.arena.Shows (w.space.arena.namesTo pl.target.id) none :=
    ⟨_, pl.target, ht, hd, Node.shown_eq_none_iff.2 hdk⟩
  have hplace := hs.tree.free_of_childNamed? ht hd hfree
  have hids := List.take_append_drop k (w.space.arena.subtreeIds pl.node.id)
  have hall := becomesAll_copies hs.tree hb hx hn hdir hname hplace hids.symm
    (by rw [Workspace.copiedShape_nil]; exact hs.tree.shape)
  have htotal : ∀ i ∈ w.space.arena.subtreeIds pl.node.id, ∃ c, w.copyCall?
      (w.space.arena.namesTo pl.node.id) (w.space.arena.namesTo pl.target.id ++ [pl.name]) i =
        some c := fun i hi => by
    obtain ⟨m, hm⟩ := ((hs.tree.mem_subtreeIds_iff hn).1 hi).exists_node hn
    exact ⟨_, by rw [copyCall?, Workspace.node?, hm]; rfl⟩
  obtain ⟨htake, hget⟩ := filterMap_of_total htotal k
  rw [copyCalls_eq hs.tree hx hn ht] at hcall ⊢
  rw [List.nil_append, Workspace.copiedShape_nil] at hall
  refine ⟨htake ▸ hall, ?_⟩
  rw [hget, Option.bind_eq_some_iff] at hcall
  obtain ⟨i, hi, hcall⟩ := hcall
  obtain ⟨hlt, rfl⟩ := List.getElem?_eq_some_iff.1 hi
  rw [List.drop_eq_getElem_cons hlt] at hids
  obtain ⟨call', hcall', hstep, -⟩ := becomes_next hs.tree hb hx hn hdir hname hplace hids.symm
    (hall.isTree hs.tree.shape)
  obtain rfl := Option.some.inj (hcall'.symm.trans hcall)
  rw [List.take_append_getElem hlt] at hstep
  exact hstep

/-- A copy to the disk of which a call goes wrong ends with the setback of that call. The disk holds
the nodes that were copied before, the tree is the listing of it, and the nodes of before are where
they were, with what they held. -/
theorem interrupted_copy (hs : w.space.Sound) (hroot : w.space.boundRoot = some root)
    (hb : h.bridge = some b) (hf : b.Steady root Mirrors)
    (hm : Mirrors w.disk w.space.arena.Shows) (hc : w.space.checkCopy id t name? = .ok pl)
    (hcall : (w.copyCalls pl)[k]? = some call)
    (hdone : h.performAll w ((w.copyCalls pl).take k) = (.ok (), w₁))
    (hfail : h.perform w₁ call = (.error cause, w₂)) {F : List DiskEntry} {d : σ}
    (hlist : b.list h.now root w₂.disk = (.ok F, d)) :
    ∃ w', w.copy h id t name? = (.error (.refused cause), w') ∧ w'.disk = d ∧
      Mirrors d (w.copiedFirst pl k) ∧ w'.space.arena.Shows = w.copiedFirst pl k ∧
      w.space.Resynced F w.space.livedAt w'.space ∧
      ∀ {y n}, w.space.node? y = some n → ∃ m, w'.space.node? y = some m ∧ m.kind = n.kind ∧
        m.content = n.content ∧ w'.space.pathOf y = w.space.pathOf y := by
  obtain ⟨hall, hnext⟩ := becomes_copiedFirst hs hroot hc hcall
  have hS := hall.isTree hs.tree.shape
  have hm₁ := Host.mirrors_of_performAll hb hf hm hs.tree.shape hall hdone
  have hm₂ := Host.mirrors_of_perform_error hb hf hm₁ hS hnext hfail
  obtain ⟨hmd, hF, hlists⟩ := hf.list hm₂ hS hlist
  have hspace₁ : w₁.space = w.space := by
    have := h.performAll_space w ((w.copyCalls pl).take k)
    rwa [hdone] at this
  have hspace₂ : w₂.space = w.space := by
    have := h.perform_space w₁ call
    rw [hfail] at this
    exact this.trans hspace₁
  have heff : Workspace.Effect .stay (w.copiedFirst pl k) w.space (w.space.rebuilt F [] h.now) :=
    .rebuilt_stay hs hF hS hlists (fun hq => ⟨_, .inl hq, .rfl⟩) h.now
  have hlt : k < (w.copyCalls pl).length := (List.getElem?_eq_some_iff.1 hcall).1
  have hcalls : w.copyCalls pl =
      (w.copyCalls pl).take k ++ call :: (w.copyCalls pl).drop (k + 1) := by
    conv_lhs => rw [← List.take_append_drop k (w.copyCalls pl), List.drop_eq_getElem_cons hlt]
    rw [(List.getElem?_eq_some_iff.1 hcall).2]
  have hfailed := Host.performAll_append_error hdone hfail ((w.copyCalls pl).drop (k + 1))
  rw [← hcalls] at hfailed
  refine ⟨⟨w.space.rebuilt F [] h.now, d⟩, ?_, rfl, hmd, heff.shows, hs.resynced_nil hF h.now,
    fun {y n} hn => ?_⟩
  · have hlisted :
        h.checkListed w pl.target pl.name (w.space.arena.height pl.node.id) = .ok () := by
      simp only [Host.checkListed, hb, hf.ignored, hf.maxDepth]
      rfl
    unfold copy
    simp only [hc, hroot, Option.isNone_some, Bool.false_eq_true, ↓reduceIte, hlisted, hfailed,
      Host.resync, Host.list, hb, hspace₂, Option.getD_some, hlist]
    rfl
  · have hl := hs.tree.leads_namesTo hn
    have hl' := heff.goes hl rfl
    obtain ⟨m, hm'⟩ := heff.sound.tree.mem_of_leads hl'
    have hshown : m.shown = n.shown := by
      have hnew : Arena.Shows _ (w.space.arena.namesTo y) m.shown := ⟨y, m, hl', hm', rfl⟩
      rw [heff.shows] at hnew
      exact hS.single hnew (.inl ⟨y, n, hl, hn, rfl⟩)
    exact ⟨m, hm', Node.kind_eq_of_shown hshown,
      (heff.sound.tree.fit hm').content_eq_of_shown (hs.tree.fit hn) hshown,
      congrArg Path.ofNames ((heff.sound.tree.leads_iff hm').1 hl')⟩

/-- A directory in another on a disk in memory. -/
def innerWorld : World MemoryDisk :=
  ((Operation.create .directory "c" "n1" "").run (.memory default) madeWorld).2

def innerUnboundWorld : World Unit :=
  ((Operation.create .directory "c" "n1" "").run ⟨none, default⟩ madeUnboundWorld).2

/-- The nested directories with a file in the inner one. -/
def stockedWorld : World MemoryDisk :=
  ((Operation.create .file "x" "n2" "one").run (.memory default) innerWorld).2

theorem paired_inner : Workspace.Paired innerWorld.space innerUnboundWorld.space "n2" "n2" := by
  have hbound : (innerWorld.space.node? "n1").map (fun n => (n.name, n.parentId)) =
        some ("d", some rootId) ∧
      (innerWorld.space.node? "n2").map (fun n => (n.name, n.parentId)) =
        some ("c", some "n1") := by decide +kernel
  have hfree : (innerUnboundWorld.space.node? "n1").map (fun n => (n.name, n.parentId)) =
        some ("d", some rootId) ∧
      (innerUnboundWorld.space.node? "n2").map (fun n => (n.name, n.parentId)) =
        some ("c", some "n1") := by decide +kernel
  exact ⟨_, .step (.step .root hbound.1) hbound.2, .step (.step .root hfree.1) hfree.2⟩

theorem inStep_stockedWorld :
    ∃ v : World Unit, InStep "/disk" (MemoryDisk.Mirrors "/disk") stockedWorld v := by
  have hroot : Disk.IsRoot "/disk" := ⟨by decide +kernel, by decide +kernel⟩
  have hsound : diskWorld.space.Sound :=
    ⟨.new default, .empty, fun hid => (nomatch hid), .new default _⟩
  have hdisk : InStep "/disk" (MemoryDisk.Mirrors "/disk") diskWorld unboundWorld :=
    ⟨.unbound hsound, rfl, rfl, mirrors_diskWorld⟩
  have hserves := Host.serves_memory hroot default
  have hmade := together_run (g := ⟨none, default⟩) hserves hdisk
    (.create (.inl (Workspace.Twin.paired_root _ _)) .directory "d" "")
  have hinner := together_run (g := ⟨none, default⟩) hserves hmade.inStep
    (.create (.inl paired_made) .directory "c" "")
  have hstocked := together_run (g := ⟨none, default⟩) hserves hinner.inStep
    (.create (.inl paired_inner) .file "x" "one")
  exact ⟨_, hstocked.inStep⟩

/-- The disk runs full at the third call. -/
def fullBridge : Bridge (MemoryDisk × Nat) :=
  (MemoryDisk.bridge [] none).interrupted fun i => if i = 2 then some (.ok (some "full")) else none

/-- The nested directories, before any call to a disk that runs full. -/
def fullWorld : World (MemoryDisk × Nat) := ⟨stockedWorld.space, stockedWorld.disk, 0⟩

/-- The directories are copied, the file in them is not. -/
theorem interrupted_full :
    fullWorld.space.Sound ∧
      fullBridge.Steady "/disk" (fun t S => MemoryDisk.Mirrors "/disk" t.1 S) ∧
      ∃ pl w', fullWorld.space.checkCopy "n1" rootId (some "e") = .ok pl ∧
        fullWorld.copyCalls pl = [.createDirectory "/disk" "e", .createDirectory "/disk/e" "c",
          .createFile "/disk/e/c" "x" "one"] ∧
        fullWorld.copy ⟨some fullBridge, default⟩ "n1" rootId (some "e") =
          (.error (.refused (.bridgeFailed "create_file" (some "full"))), w') ∧
        MemoryDisk.Mirrors "/disk" w'.disk.1 (fullWorld.copiedFirst pl 2) ∧
        w'.disk.1.shown? "/disk/e/c" = some none ∧ w'.disk.1.shown? "/disk/e/c/x" = none := by
  have hroot : Disk.IsRoot "/disk" := ⟨by decide +kernel, by decide +kernel⟩
  obtain ⟨v, hi⟩ := inStep_stockedWorld
  have hsteady : fullBridge.Steady "/disk" fun t S => MemoryDisk.Mirrors "/disk" t.1 S :=
    (MemoryDisk.faithful_bridge hroot).steady_interrupted _
  have hcheck :
      (fullWorld.space.checkCopy "n1" rootId (some "e")).toOption.map fullWorld.copyCalls =
        some [.createDirectory "/disk" "e", .createDirectory "/disk/e" "c",
          .createFile "/disk/e/c" "x" "one"] := by decide +kernel
  have hdisk : (fullWorld.copy ⟨some fullBridge, default⟩ "n1" rootId (some "e")).2.disk.1.shown?
        "/disk/e/c" = some none ∧
      (fullWorld.copy ⟨some fullBridge, default⟩ "n1" rootId (some "e")).2.disk.1.shown?
        "/disk/e/c/x" = none := by decide +kernel
  cases hc : fullWorld.space.checkCopy "n1" rootId (some "e") with
  | error e =>
    rw [hc] at hcheck
    cases hcheck
  | ok pl =>
    rw [hc] at hcheck
    have hcalls := Option.some.inj hcheck
    have hcall : (fullWorld.copyCalls pl)[2]? = some (.createFile "/disk/e/c" "x" "one") := by
      rw [hcalls]
      rfl
    have hstart : (Host.performAll ⟨some fullBridge, default⟩ fullWorld
          ((fullWorld.copyCalls pl).take 2)).1.isOk = true ∧
        (Host.performAll ⟨some fullBridge, default⟩ fullWorld
          ((fullWorld.copyCalls pl).take 2)).2.disk.2 = 2 ∧
        (fullBridge.list default "/disk" ((Host.performAll ⟨some fullBridge, default⟩ fullWorld
          ((fullWorld.copyCalls pl).take 2)).2.disk.1, 3)).1.isOk = true := by
      rw [hcalls]
      decide +kernel
    generalize hrun : Host.performAll ⟨some fullBridge, default⟩ fullWorld
      ((fullWorld.copyCalls pl).take 2) = run at hstart
    obtain ⟨a, w₁⟩ := run
    obtain ⟨hok, hcount, hlist⟩ := hstart
    obtain ⟨u, rfl⟩ := exists_of_isOk hok
    obtain ⟨F, hF⟩ := exists_of_isOk hlist
    have hfail : Host.perform ⟨some fullBridge, default⟩ w₁ (.createFile "/disk/e/c" "x" "one") =
        (.error (.bridgeFailed "create_file" (some "full")), ⟨w₁.space, w₁.disk.1, 3⟩) := by
      have hcount : w₁.disk.2 = 2 := hcount
      simp only [Host.perform, fullBridge, Bridge.interrupted, hcount, ↓reduceIte]
      rfl
    have hlisted : fullBridge.list default "/disk" (w₁.disk.1, 3) =
        (.ok F, (fullBridge.list default "/disk" (w₁.disk.1, 3)).2) := Prod.ext hF rfl
    obtain ⟨w', he, hd, hm, -⟩ := interrupted_copy (w := fullWorld)
      (h := ⟨some fullBridge, default⟩) hi.twin.left hi.bound rfl hsteady hi.mirrors hc hcall
      hrun hfail hlisted
    rw [← hd] at hm
    rw [he] at hdisk
    exact ⟨hi.twin.left, hsteady, pl, w', rfl, hcalls, he, hm, hdisk⟩

end World

end Workbench
