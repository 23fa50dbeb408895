import Workbench.Proofs.Disk.Listing
import Workbench.Proofs.Lockstep.Operations
import Workbench.Proofs.World.Runs

/-!
# Bound and free runs

A workspace that is bound to a disk in memory, and a free workspace with the same tree, are given
the same operations: of the same arguments, where an id stands for the node at its place. Each
operation ends alike in both, and after each the workspaces agree and the disk holds what the tree
shows (`agreement_of_lockstep`).

Ids that are drawn on the way may differ, since a rebuilding draws them in the order of the listing.
So nodes correspond by their places; those of the tree at the start correspond to themselves for
as long as they live.
-/

namespace Workbench

open Workspace (SameNode SameId Paired Twin Onward)
open MemoryDisk (Mirrors isWithin)

variable {σ ρ : Type}

/-- Operations of the same arguments in two workspaces. Binding, freeing and resyncing are not among
them, since a free workspace and a bound one differ there by intent. -/
inductive Operation.Same (s t : Workspace) : Operation → Operation → Prop
  | create {x y : NodeId} (hx : SameId s t x y) (kind : NodeKind) (name content : String) :
      Same s t (.create kind name x content) (.create kind name y content)
  | ensureDirectories (path cwd : String) :
      Same s t (.ensureDirectories path cwd) (.ensureDirectories path cwd)
  | delete {x y : NodeId} (hx : SameId s t x y) (recursive : Bool) :
      Same s t (.delete x recursive) (.delete y recursive)
  | rename {x y : NodeId} (hx : SameId s t x y) (name : String) :
      Same s t (.rename x name) (.rename y name)
  | update {x y : NodeId} (hx : SameId s t x y) (changes : NodeUpdate) :
      Same s t (.update x changes) (.update y changes)
  | move {x y x' y' : NodeId} (hx : SameId s t x y) (hx' : SameId s t x' y')
      (name : Option String) : Same s t (.move x x' name) (.move y y' name)
  | copy {x y x' y' : NodeId} (hx : SameId s t x y) (hx' : SameId s t x' y')
      (name : Option String) : Same s t (.copy x x' name) (.copy y y' name)
  | setContent {x y : NodeId} (hx : SameId s t x y) (content : String) :
      Same s t (.setContent x content) (.setContent y content)
  | touch {x y : NodeId} (hx : SameId s t x y) : Same s t (.touch x) (.touch y)
  | openTab {x y : NodeId} (hx : SameId s t x y) : Same s t (.openTab x) (.openTab y)
  | closeTab {x y : NodeId} (hx : SameId s t x y) : Same s t (.closeTab x) (.closeTab y)
  | closeAllTabs : Same s t .closeAllTabs .closeAllTabs

/-- The operations that leave a workspace bound or free. -/
def Operation.StaysBound : Operation → Prop
  | bind _ | unbind | resync => False
  | _ => True

inductive Answer.Same (s t : Workspace) : Answer → Answer → Prop
  | node {n m : Node} (h : SameNode s t n m) : Same s t (.node n) (.node m)
  | flag (b : Bool) : Same s t (.flag b) (.flag b)
  | done : Same s t .done .done

/-! ## One operation -/

variable {root : String} {w : World σ} {v : World ρ} {h : Host σ} {g : Host ρ} {op op' : Operation}

theorem Together.answered {α β α' β' : Type} {Mirrors : σ → Shape → Prop}
    {R : Workspace → Workspace → α → β → Prop} {R' : Workspace → Workspace → α' → β' → Prop}
    {o : Outcome σ α} {o' : Outcome ρ β} {f : α → α'} {f' : β → β'}
    (ht : Together root Mirrors w v R o o') (hR : ∀ {s t a b}, R s t a b → R' s t (f a) (f' b)) :
    Together root Mirrors w v R' (World.answered f o) (World.answered f' o') := by
  obtain ⟨hi, ho, he⟩ := ht
  refine ⟨hi, ho, ?_⟩
  obtain ⟨a, w'⟩ := o
  obtain ⟨b, v'⟩ := o'
  cases he with
  | ok hab => exact .ok (hR hab)
  | error he => exact .error he

/-- An operation and the same operation lead from worlds in step to worlds in step, and end
alike. -/
theorem together_run {Mirrors : σ → Shape → Prop} (hh : h.Serves root Mirrors)
    (hi : InStep root Mirrors w v) (ho : op.Same w.space v.space op') :
    Together root Mirrors w v Answer.Same (op.run h w) (op'.run g v) := by
  cases ho with
  | create hx kind name content => exact (together_create hh hi hx kind name content).answered .node
  | ensureDirectories path cwd => exact (together_ensureDirectories hh hi path cwd).answered .node
  | delete hx recursive => exact (together_delete hh hi hx recursive).answered fun _ => .done
  | rename hx name => exact (together_update hh hi hx _).answered .node
  | update hx changes => exact (together_update hh hi hx changes).answered .node
  | move hx hx' name => exact (together_move hh hi hx hx' name).answered .node
  | copy hx hx' name => exact (together_copy hh hi hx hx' name).answered .node
  | setContent hx content => exact (together_setContent hh hi hx content).answered .node
  | touch hx => exact (together_touch hh hi hx).answered .node
  | openTab hx => exact (together_openTab hi hx).answered .node
  | closeTab hx =>
    exact (together_closeTab hi hx).answered fun {s t a b} (he : a = b) => he ▸ Answer.Same.flag a
  | closeAllTabs => exact (together_closeAllTabs hi).answered fun _ => Answer.Same.done

/-- Every operation has one of the same arguments. -/
theorem Workspace.Twin.exists_same {s t : Workspace} (h : s.Twin t) (hop : op.StaysBound) :
    ∃ op', op.Same s t op' := by
  have hid : ∀ x, ∃ y, SameId s t x y := by
    intro x
    cases hn : s.arena.get? x with
    | none => exact ⟨_, .inr ⟨hn, h.right.unused (t.drawn + 1) (Nat.lt_succ_self _)⟩⟩
    | some n =>
      obtain ⟨y, hp⟩ := h.exists_paired hn
      exact ⟨y, .inl hp⟩
  cases op with
  | create kind name x content =>
    obtain ⟨y, hx⟩ := hid x
    exact ⟨_, .create hx kind name content⟩
  | ensureDirectories path cwd => exact ⟨_, .ensureDirectories path cwd⟩
  | delete x recursive =>
    obtain ⟨y, hx⟩ := hid x
    exact ⟨_, .delete hx recursive⟩
  | rename x name =>
    obtain ⟨y, hx⟩ := hid x
    exact ⟨_, .rename hx name⟩
  | update x changes =>
    obtain ⟨y, hx⟩ := hid x
    exact ⟨_, .update hx changes⟩
  | move x x' name =>
    obtain ⟨y, hx⟩ := hid x
    obtain ⟨y', hx'⟩ := hid x'
    exact ⟨_, .move hx hx' name⟩
  | copy x x' name =>
    obtain ⟨y, hx⟩ := hid x
    obtain ⟨y', hx'⟩ := hid x'
    exact ⟨_, .copy hx hx' name⟩
  | setContent x content =>
    obtain ⟨y, hx⟩ := hid x
    exact ⟨_, .setContent hx content⟩
  | touch x =>
    obtain ⟨y, hx⟩ := hid x
    exact ⟨_, .touch hx⟩
  | openTab x =>
    obtain ⟨y, hx⟩ := hid x
    exact ⟨_, .openTab hx⟩
  | closeTab x =>
    obtain ⟨y, hx⟩ := hid x
    exact ⟨_, .closeTab hx⟩
  | closeAllTabs => exact ⟨_, .closeAllTabs⟩
  | bind _ => cases hop
  | unbind => cases hop
  | resync => cases hop

/-! ## Runs -/

/-- The host of a disk in memory that leaves nothing out of its listings. -/
def Host.memory (now : Timestamp) : Host MemoryDisk := ⟨some (MemoryDisk.bridge [] none), now⟩

/-- Where a bound run and a free run lead that take the same steps, each step at its own times. -/
inductive Lockstep (w₀ : World MemoryDisk) (v₀ : World ρ) : World MemoryDisk → World ρ → Prop
  | start : Lockstep w₀ v₀ w₀ v₀
  | step {w : World MemoryDisk} {v : World ρ} (hl : Lockstep w₀ v₀ w v) {op op' : Operation}
      (ho : op.Same w.space v.space op') (now : Timestamp) (g : Host ρ) :
      Lockstep w₀ v₀ (op.run (.memory now) w).2 (op'.run g v).2

/-- What a bound world and a free one have in common after runs from one tree. -/
structure Agreement (root : String) (start : Workspace) (w : World MemoryDisk) (v : World ρ) :
    Prop where
  /-- Nodes correspond one by one, and the nodes that correspond agree. -/
  biUnique : Relator.BiUnique (Paired w.space v.space)
  left : ∀ {x n}, w.space.node? x = some n → ∃ m, SameNode w.space v.space n m
  right : ∀ {y m}, v.space.node? y = some m → ∃ n, SameNode w.space v.space n m
  children : ∀ {n m c d}, SameNode w.space v.space n m → Paired w.space v.space c d →
    (c ∈ n.children ↔ d ∈ m.children)
  /-- A node of the tree at the start is itself in both worlds, or gone from both. -/
  kept : ∀ {x n}, start.node? x = some n →
    Option.Rel (SameNode w.space v.space) (w.space.node? x) (v.space.node? x)
  openIds : List.Forall₂ (Paired w.space v.space) w.space.tabs.openIds v.space.tabs.openIds
  activeId : Option.Rel (Paired w.space v.space) w.space.tabs.activeId v.space.tabs.activeId
  /-- Below the root the disk holds what the tree shows and nothing else. -/
  disk : ∀ {path c}, isWithin path root = true → (w.disk.shown? path = some c ↔
    ∃ x n, w.space.node? x = some n ∧ w.nodePath x = path ∧ n.shown = c)

variable {w₀ w : World MemoryDisk} {v₀ v : World ρ}

theorem Host.serves_memory (hr : Disk.IsRoot root) (now : Timestamp) :
    (Host.memory now).Serves root (Mirrors root) :=
  ⟨_, rfl, MemoryDisk.faithful_bridge hr⟩

/-- Runs that take the same steps from worlds in step lead to worlds in step. -/
theorem Lockstep.inStep (hr : Disk.IsRoot root) (hi : InStep root (Mirrors root) w₀ v₀)
    (hl : Lockstep w₀ v₀ w v) :
    InStep root (Mirrors root) w v ∧ w₀.space.Onward v₀.space w.space v.space := by
  induction hl with
  | start => exact ⟨hi, .refl hi.twin⟩
  | step _ ho now g ih =>
    obtain ⟨hi', hon⟩ := ih
    obtain ⟨hi'', hon', -⟩ := together_run (g := g) (Host.serves_memory hr now) hi' ho
    exact ⟨hi'', hon.trans hon' hi.twin hi'.twin hi''.twin⟩

/-- A workspace and the same workspace freed from the disk agree. -/
theorem Workspace.Twin.unbound {s : Workspace} (h : s.Sound) : s.Twin s.unbound :=
  ⟨h, h.unbound, rfl, rfl, (Twin.refl h).tabs⟩

theorem Workspace.Paired.self {s : Workspace} {x : NodeId} {n : Node} (h : s.Sound)
    (hn : s.node? x = some n) : s.Paired s.unbound x x := by
  obtain ⟨q, hl⟩ := h.tree.exists_leads hn
  exact ⟨q, hl, hl⟩

theorem InStep.agreement {s : Workspace} (hi : InStep root (Mirrors root) w v)
    (hkept : ∀ {x n}, s.node? x = some n → SameId w.space v.space x x) :
    Agreement root s w v where
  biUnique := hi.twin.biUnique
  left hn := by
    obtain ⟨y, hp⟩ := hi.twin.exists_paired hn
    obtain ⟨m, -, hnm⟩ := hi.twin.exists_sameNode hp hn
    exact ⟨m, hnm⟩
  right hm := by
    obtain ⟨x, q, hx, hy⟩ := hi.twin.exists_paired' hm
    obtain ⟨n, hn⟩ := hi.twin.left.tree.mem_of_leads hx
    exact ⟨n, hi.twin.sameNode ⟨q, hx, hy⟩ hn hm⟩
  children := hi.twin.mem_children_iff
  kept hn := hi.twin.rel_node? (hkept hn)
  openIds := hi.twin.tabs.openIds
  activeId := hi.twin.tabs.activeId
  disk {path c} hw := by
    rw [hi.mirrors.shown? hw]
    constructor
    · rintro ⟨q, rfl, x, n, hl, hn, hs⟩
      exact ⟨x, n, hn, hi.nodePath_eq hl, hs⟩
    · rintro ⟨x, n, hn, rfl, hs⟩
      obtain ⟨q, hl⟩ := hi.twin.left.tree.exists_leads hn
      exact ⟨q, hi.nodePath_eq hl, x, n, hl, hn, hs⟩

/-- A bound workspace behaves like a free one. After any run the worlds agree; every further
operation has one of the same arguments; and the two end alike and take the nodes that correspond
on together. -/
theorem agreement_of_lockstep (hr : Disk.IsRoot root) (hs : w₀.space.Sound)
    (hb : w₀.space.boundRoot = some root) (hm : Mirrors root w₀.disk w₀.space.arena.Shows)
    (hv : v₀.space = w₀.space.unbound) (hl : Lockstep w₀ v₀ w v) :
    Agreement root w₀.space w v ∧
      (∀ op : Operation, op.StaysBound → ∃ op', op.Same w.space v.space op') ∧
      ∀ {op op' : Operation}, op.Same w.space v.space op' → ∀ (now : Timestamp) (g : Host ρ),
        Agrees Setback.SameKind
            (Answer.Same (op.run (.memory now) w).2.space (op'.run g v).2.space)
            (op.run (.memory now) w).1 (op'.run g v).1 ∧
          ∀ {x y}, Paired w.space v.space x y →
            Option.Rel (SameNode (op.run (.memory now) w).2.space (op'.run g v).2.space)
              ((op.run (.memory now) w).2.space.node? x) ((op'.run g v).2.space.node? y) := by
  have hi₀ : InStep root (Mirrors root) w₀ v₀ :=
    ⟨hv ▸ Twin.unbound hs, hb, by rw [hv]; rfl, hm⟩
  obtain ⟨hi, hon⟩ := hl.inStep hr hi₀
  refine ⟨hi.agreement fun hn => ?_, fun op hop => hi.twin.exists_same hop,
    fun {op op'} ho now g => ?_⟩
  · refine hon.sameId hi.twin ?_
    rw [hv]
    exact .self hs hn
  · obtain ⟨hi', hon', hends⟩ := together_run (g := g) (Host.serves_memory hr now) hi ho
    exact ⟨hends, fun hp => hi'.twin.rel_node? (hon'.sameId hi'.twin hp)⟩

/-- A new workspace bound to a directory of a disk in memory in which there is nothing. -/
def diskWorld : World MemoryDisk where
  space := { Workspace.new "/home/user" default with boundRoot := some "/disk" }
  disk := { items := .ofList [("/disk", ⟨none, default⟩)] }

def unboundWorld : World Unit := ⟨diskWorld.space.unbound, ()⟩

/-- The bound workspace with a directory in it. -/
def madeWorld : World MemoryDisk :=
  ((Operation.create .directory "d" rootId "").run (.memory default) diskWorld).2

/-- The free workspace with a directory in it. -/
def madeUnboundWorld : World Unit :=
  ((Operation.create .directory "d" rootId "").run ⟨none, default⟩ unboundWorld).2

theorem mirrors_diskWorld : Mirrors "/disk" diskWorld.disk diskWorld.space.arena.Shows where
  plain := ⟨rfl, rfl, rfl⟩
  shown? {path c} _ := by
    have hroot : (Arena.new default).get? rootId = some (.newRoot default) := by
      rw [Arena.get?_new, if_pos rfl]
    have hshows : ∀ {q c}, Arena.Shows (.new default) q c ↔ q = [] ∧ c = none := by
      intro q c
      constructor
      · rintro ⟨x, n, hl, hn, rfl⟩
        rw [Arena.get?_new] at hn
        split at hn
        · next hx =>
          subst hx
          obtain rfl := Option.some.inj hn
          exact ⟨(Arena.IsTree.new default).leads_unique hl .root, rfl⟩
        · cases hn
      · rintro ⟨rfl, rfl⟩
        exact ⟨rootId, _, .root, hroot, rfl⟩
    have hitem : diskWorld.disk.shown? path = if path = "/disk" then some none else none := by
      rw [MemoryDisk.shown?, diskWorld, Table.ofList, Table.insertMany, List.foldl_cons,
        List.foldl_nil, Table.get?_insert, Table.get?_empty]
      split <;> rfl
    rw [hitem]
    constructor
    · intro h
      split at h
      · next hp =>
        obtain rfl := Option.some.inj h
        exact ⟨[], hp.trans (by decide +kernel), hshows.2 ⟨rfl, rfl⟩⟩
      · cases h
    · rintro ⟨q, rfl, hs⟩
      obtain ⟨rfl, rfl⟩ := hshows.1 hs
      rw [if_pos (by decide +kernel)]

theorem paired_made : Paired madeWorld.space madeUnboundWorld.space "n1" "n1" := by
  obtain ⟨n, hn, hn'⟩ : ∃ n, madeWorld.space.node? "n1" = some n ∧
      (n.name, n.parentId) = ("d", some rootId) := Option.map_eq_some_iff.1 (by decide +kernel)
  obtain ⟨m, hm, hm'⟩ : ∃ m, madeUnboundWorld.space.node? "n1" = some m ∧
      (m.name, m.parentId) = ("d", some rootId) := Option.map_eq_some_iff.1 (by decide +kernel)
  obtain ⟨hname, hp⟩ := Prod.mk.inj hn'
  obtain ⟨hname', hp'⟩ := Prod.mk.inj hm'
  have hl := Arena.Leads.child .root hn hp
  have hl' := Arena.Leads.child .root hm hp'
  rw [hname] at hl
  rw [hname'] at hl'
  exact ⟨_, hl, hl'⟩

/-- A directory is created and gets another name, on the disk and in memory. -/
theorem agreement_of_renamed :
    ((Operation.rename "n1" "e").run (.memory default) madeWorld).2.disk.shown? "/disk/e" =
        some none ∧
      Agreement "/disk" diskWorld.space
        ((Operation.rename "n1" "e").run (.memory default) madeWorld).2
        ((Operation.rename "n1" "e").run ⟨none, default⟩ madeUnboundWorld).2 := by
  refine ⟨by decide +kernel, ?_⟩
  have hroot : Disk.IsRoot "/disk" := ⟨by decide +kernel, by decide +kernel⟩
  have hsound : diskWorld.space.Sound :=
    ⟨.new default, .empty, fun hid => (nomatch hid), .new default _⟩
  have hmade : Lockstep diskWorld unboundWorld madeWorld madeUnboundWorld :=
    .step .start (.create (.inl (Twin.paired_root _ _)) .directory "d" "") default ⟨none, default⟩
  have hrenamed := Lockstep.step hmade (.rename (.inl paired_made) "e") default ⟨none, default⟩
  exact (agreement_of_lockstep hroot hsound rfl mirrors_diskWorld rfl hrenamed).1

end Workbench
