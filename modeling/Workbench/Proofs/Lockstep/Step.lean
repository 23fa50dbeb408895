import Workbench.Proofs.Lockstep.Checks
import Workbench.Proofs.Workspace.Carried
import Workbench.Proofs.World.Calls

/-!
# Bound and free worlds in step

A bound world and a free one are in step when their workspaces agree and the disk of the bound one
holds what its tree shows. Over a faithful bridge a call that can be carried out is followed by a
rebuilding from a listing of what the call has made of the disk, so that writing through has the
effect of the edit it stands for (`Host.Serves.writeThrough`).
-/

namespace Workbench

variable {σ ρ α β : Type} {root : String} {Mirrors : σ → Shape → Prop}

/-- Setbacks of one kind. A lost node is like nothing else, so that ends that agree lose none. -/
def Setback.SameKind : Setback → Setback → Prop
  | .refused r, .refused r' => r.kind = r'.kind
  | _, _ => False

/-- A bound world and a free world that agree, with the disk that the bound one shows. -/
structure InStep (root : String) (Mirrors : σ → Shape → Prop) (w : World σ) (v : World ρ) :
    Prop where
  twin : w.space.Twin v.space
  bound : w.space.boundRoot = some root
  free : v.space.boundRoot = none
  mirrors : Mirrors w.disk w.space.arena.Shows

/-- Two operations from worlds in step end in step, and end alike. `R` relates their answers. -/
structure Together (root : String) (Mirrors : σ → Shape → Prop) (w : World σ) (v : World ρ)
    (R : Workspace → Workspace → α → β → Prop) (o : Outcome σ α) (o' : Outcome ρ β) : Prop where
  inStep : InStep root Mirrors o.2 o'.2
  onward : w.space.Onward v.space o.2.space o'.2.space
  ends : Agrees Setback.SameKind (R o.2.space o'.2.space) o.1 o'.1

variable {w w' w'' : World σ} {v v' v'' : World ρ} {R : Workspace → Workspace → α → β → Prop}
  {τ : Course} {S S' : Shape}

namespace InStep

/-- Changes of one effect lead from worlds in step to worlds in step. -/
theorem effect {s t : Workspace} {d : σ} (h : InStep root Mirrors w v)
    (hs : Workspace.Effect τ S w.space s) (hm : Mirrors d S)
    (ht : Workspace.Effect τ S v.space t) :
    InStep root Mirrors ⟨s, d⟩ { v with space := t } ∧ w.space.Onward v.space s t := by
  obtain ⟨htwin, honward⟩ := h.twin.effect hs ht
  exact ⟨⟨htwin, hs.boundRoot.trans h.bound, ht.boundRoot.trans h.free, hs.shows.symm ▸ hm⟩,
    honward⟩

theorem isBound (h : InStep root Mirrors w v) : w.space.boundRoot.isNone = false := by
  rw [h.bound]
  rfl

theorem isFree (h : InStep root Mirrors w v) : v.space.boundRoot.isNone = true := by
  rw [h.free]
  rfl

theorem refuse (h : InStep root Mirrors w v) {r r' : Refusal} (hr : r.SameKind r') :
    Together root Mirrors w v R (w.refuse r) (v.refuse r') :=
  ⟨h, .refl h.twin, .error hr⟩

theorem diskPath_eq (h : InStep root Mirrors w v) (q : List String) :
    w.diskPath q = Disk.below root q := by
  rw [World.diskPath, h.bound, Option.getD_some]

theorem nodePath_eq (h : InStep root Mirrors w v) {id : NodeId} {q : List String}
    (hl : w.space.arena.Leads id q) : w.nodePath id = Disk.below root q := by
  obtain ⟨n, hn⟩ := h.twin.left.tree.mem_of_leads hl
  rw [World.nodePath, (h.twin.left.tree.leads_iff hn).1 hl, h.diskPath_eq]

end InStep

/-- Nodes that corresponded correspond still, or both are gone. -/
theorem Workspace.Onward.sameId {s t s' t' : Workspace} {x y : NodeId}
    (h : s.Onward t s' t') (ht : s'.Twin t') (hp : s.Paired t x y) : s'.SameId t' x y := by
  cases hn : s'.arena.get? x with
  | some n =>
    obtain ⟨q, hl⟩ := ht.left.tree.exists_leads hn
    exact .inl ⟨q, hl, (h.leads_iff hp).1 hl⟩
  | none =>
    refine .inr ⟨hn, ?_⟩
    cases hm : t'.arena.get? y with
    | none => rfl
    | some m =>
      obtain ⟨q, hl⟩ := ht.right.tree.exists_leads hm
      obtain ⟨n, hn'⟩ := ht.left.tree.mem_of_leads ((h.leads_iff hp).2 hl)
      rw [hn] at hn'
      cases hn'

namespace Together

/-- A step that starts where two others have led. -/
theorem after {o : Outcome σ α} {o' : Outcome ρ β} (h : Together root Mirrors w' v' R o o')
    (ht : w.space.Twin v.space) (hi : w'.space.Twin v'.space)
    (ho : w.space.Onward v.space w'.space v'.space) : Together root Mirrors w v R o o' :=
  ⟨h.inStep, ho.trans h.onward ht hi h.inStep.twin, h.ends⟩

/-- Worlds in step answer with a node alike. -/
theorem answer {x y : NodeId} (h : InStep root Mirrors w' v') (hx : w'.space.SameId v'.space x y)
    (ho : w.space.Onward v.space w'.space v'.space) :
    Together root Mirrors w v Workspace.SameNode (w'.answer x) (v'.answer y) := by
  have hr := h.twin.require hx
  unfold World.answer
  generalize w'.space.require x = a at hr
  generalize v'.space.require y = b at hr
  cases hr with
  | ok hnm => exact ⟨h, ho, .ok hnm⟩
  | error hk => exact ⟨h, ho, .error hk⟩

end Together

/-! ## Writing through a faithful bridge -/

namespace Host

variable {h : Host σ} {call : DiskCall} {carried : Workspace.Carried}

def Serves (h : Host σ) (root : String) (Mirrors : σ → Shape → Prop) : Prop :=
  ∃ b, h.bridge = some b ∧ b.Faithful root Mirrors

namespace Serves

theorem checkListed (hh : h.Serves root Mirrors) (w : World σ) (d : Node) (name : String)
    (height : Nat) : h.checkListed w d name height = .ok () := by
  obtain ⟨b, hb, hf⟩ := hh
  simp only [Host.checkListed, hb, hf.ignored, hf.maxDepth]
  rfl

theorem perform (hh : h.Serves root Mirrors) (hm : Mirrors w.disk S) (hS : S.IsTree)
    (hc : Shape.Becomes root S call S') :
    ∃ w', h.perform w call = (.ok (), w') ∧ w'.space = w.space ∧ Mirrors w'.disk S' := by
  obtain ⟨b, hb, hf⟩ := hh
  obtain ⟨path, d', hp, hm'⟩ := hf.perform h.now hm hS hc
  refine ⟨{ w with disk := d' }, ?_, rfl, hm'⟩
  simp only [Host.perform, hb, hp]

theorem performAll {calls : List DiskCall} (hh : h.Serves root Mirrors) (hm : Mirrors w.disk S)
    (hS : S.IsTree) (hc : Shape.BecomesAll root S calls S') :
    ∃ w', h.performAll w calls = (.ok (), w') ∧ w'.space = w.space ∧ Mirrors w'.disk S' := by
  induction hc generalizing w with
  | nil => exact ⟨w, rfl, rfl, hm⟩
  | cons hc hS' _ ih =>
    obtain ⟨w₁, hp, hs, hm₁⟩ := hh.perform hm hS hc
    obtain ⟨w₂, hr, hs₂, hm₂⟩ := ih hm₁ hS'
    refine ⟨w₂, ?_, hs₂.trans hs, hm₂⟩
    rw [Host.performAll, hp]
    exact hr

/-- A rebuilding from a listing of what the disk holds. -/
theorem resync (hh : h.Serves root Mirrors) (hb : w.space.boundRoot = some root)
    (hm : Mirrors w.disk S) (hS : S.IsTree)
    (he : ∀ {F}, ProperListing F → Workspace.ListsShape F S →
      Workspace.Effect τ S w.space (w.space.rebuilt F carried h.now)) :
    ∃ w', h.resync w carried = (.ok (), w') ∧ Workspace.Effect τ S w.space w'.space ∧
      Mirrors w'.disk S := by
  obtain ⟨b, hbr, hf⟩ := hh
  obtain ⟨F, d', hl, hm', hF, hlists⟩ := hf.list h.now hm hS
  refine ⟨⟨w.space.rebuilt F carried h.now, d'⟩, ?_, he hF hlists, hm'⟩
  simp only [Host.resync, Host.list, hbr, hb, Option.getD_some, hl]

/-- Writing through has the effect that rebuilding from the changed shape has. -/
theorem writeThrough (hh : h.Serves root Mirrors) (hb : w.space.boundRoot = some root)
    (hm : Mirrors w.disk S) (hS : S.IsTree) (hc : Shape.Becomes root S call S')
    (hS' : S'.IsTree) (he : ∀ {F}, ProperListing F → Workspace.ListsShape F S' →
      Workspace.Effect τ S' w.space (w.space.rebuilt F carried h.now)) :
    ∃ w', h.writeThrough w call carried = (.ok (), w') ∧ Workspace.Effect τ S' w.space w'.space ∧
      Mirrors w'.disk S' := by
  obtain ⟨w₁, hp, hs, hm₁⟩ := hh.perform hm hS hc
  obtain ⟨w₂, hr, he₂, hm₂⟩ := hh.resync (hs.symm ▸ hb) hm₁ hS' (hs.symm ▸ he)
  refine ⟨w₂, ?_, hs ▸ he₂, hm₂⟩
  rw [Host.writeThrough, hp]
  exact hr

end Serves

end Host

end Workbench
