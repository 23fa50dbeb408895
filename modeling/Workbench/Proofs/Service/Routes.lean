import Workbench.Proofs.Except
import Workbench.Proofs.Form
import Workbench.Service.Basic

/-!
# Requests that only ask

A route that gets something leads to a question, and never to an order (`Route.Looks`). So no
request with that method changes anything (`Service.ne_get_of_order`).
-/

namespace Workbench

namespace Service

variable {x : Route} {pieces : List String}

/-- Where the route gets something, it leads to no order. -/
def Route.Looks (x : Route) : Prop := x.method = .get → ∀ s o, x.read s ≠ .ok (.order o)

theorem looks_of_ne (h : x.method ≠ .get) : x.Looks := fun hget => absurd hget h

theorem looks_asks (q : Question) : (asks q).Looks := by
  intro _ s o he
  cases he

theorem looks_asksWith {read : List (String × Json) → Form.Checked Demand}
    (hread : ∀ fields d, read fields = .ok d → ∃ q, d = .ask q) : (asksWith read).Looks := by
  intro _ s o he
  obtain ⟨q, hq⟩ := hread _ _ (Form.Checked.under_eq_ok.1 he)
  cases hq

theorem looks_posts (o : Order) : (posts o).Looks := looks_of_ne nofun

theorem looks_sends {method : Method} (h : method ≠ .get)
    (read : List (String × Json) → Form.Checked Order) : (sends method read).Looks :=
  looks_of_ne h

theorem ask_of_readPlace {f : String → String → Question} {path : Form.Checked String}
    {fields : List (String × Json)} {d : Demand} (h : readPlace f path fields = .ok d) :
    ∃ q, d = .ask q := by
  obtain ⟨g, cwd, hg, -, rfl⟩ := Form.Checked.seq_eq_ok.1 h
  obtain ⟨p, -, rfl⟩ := Form.Checked.map_eq_ok.1 hg
  exact ⟨f p cwd, rfl⟩

/-- A place of one route. -/
theorem looks_one (h : x.Looks) : ∀ y ∈ [x], y.Looks := List.forall_mem_singleton.2 h

theorem looks_treeRoutes (pieces : List String) : ∀ x ∈ treeRoutes pieces, x.Looks := by
  unfold treeRoutes
  split
  · exact looks_one (looks_asks _)
  · exact looks_one (looks_asksWith fun _ _ hd => ask_of_readPlace hd)
  · exact looks_one (looks_asksWith fun _ _ hd => ask_of_readPlace hd)
  · exact looks_one (looks_sends (by decide) _)
  · apply List.forall_mem_cons.2 ⟨looks_asks _, _⟩
    apply List.forall_mem_cons.2 ⟨looks_sends (by decide) _, _⟩
    exact looks_one (looks_of_ne (by simp))
  · exact looks_one (looks_sends (by decide) _)
  · exact looks_one (looks_sends (by decide) _)
  · exact looks_one (looks_sends (by decide) _)
  · exact looks_one (looks_sends (by decide) _)
  · exact looks_one (looks_posts _)
  · exact looks_one (looks_posts _)
  · exact looks_one (looks_asks _)
  · exact List.forall_mem_nil _

theorem looks_tabRoutes (pieces : List String) : ∀ x ∈ tabRoutes pieces, x.Looks := by
  unfold tabRoutes
  split
  · exact looks_one (looks_asks _)
  · exact looks_one (looks_sends (by decide) _)
  · exact looks_one (looks_posts _)
  · exact looks_one (looks_posts _)
  · exact List.forall_mem_nil _

theorem looks_terminalRoutes (pieces : List String) : ∀ x ∈ terminalRoutes pieces, x.Looks := by
  unfold terminalRoutes
  split
  · apply List.forall_mem_cons.2 ⟨looks_asks _, _⟩
    exact looks_one (looks_sends (by decide) _)
  · apply List.forall_mem_cons.2 ⟨looks_of_ne (by simp), _⟩
    split
    · exact looks_one (looks_sends (by decide) _)
    · exact looks_one (looks_sends (by decide) _)
    · exact looks_one (looks_posts _)
    · exact List.forall_mem_nil _
  · exact looks_one (looks_posts _)
  · exact looks_one (looks_sends (by decide) _)
  · exact looks_one (looks_asks _)
  · exact looks_one (looks_asks _)
  · exact looks_one (looks_posts _)
  · apply looks_one (looks_asksWith _)
    intro fields d hd
    obtain ⟨text, -, rfl⟩ := Form.Checked.map_eq_ok.1 hd
    exact ⟨_, rfl⟩
  · exact List.forall_mem_nil _

theorem looks_exactRoutes (pieces : List String) : ∀ x ∈ exactRoutes pieces, x.Looks := by
  have hplain : ∀ d, (∀ o, d ≠ .order o) → Route.Looks ⟨.get, false, plain d⟩ := by
    intro d hd _ s o he
    exact hd o (Form.Checked.ok.inj he)
  unfold exactRoutes
  split
  · exact looks_one (hplain .greeting nofun)
  split
  · exact List.forall_mem_nil _
  split
  · exact looks_one (hplain .health nofun)
  · exact looks_treeRoutes _
  · exact looks_tabRoutes _
  · exact looks_terminalRoutes _
  · exact List.forall_mem_nil _

theorem looks_routesAt (pieces : List String) : ∀ x ∈ routesAt pieces, x.Looks := by
  unfold routesAt
  rw [List.forall_mem_append]
  refine ⟨looks_exactRoutes pieces, ?_⟩
  cases withoutLineEnd? pieces with
  | none => exact List.forall_mem_nil _
  | some pieces' => exact looks_exactRoutes pieces'

/-- A request that is to get something is no order. -/
theorem ne_get_of_order {r : Request} {o : Order} (h : demandOf r = .ok (.ok (.order o))) :
    r.method ≠ .get := by
  intro hget
  unfold demandOf at h
  dsimp only at h
  split at h
  · cases h
  · cases h
  · next x hx =>
    split at h
    · have hlooks := looks_routesAt r.pieces x (List.mem_of_find?_eq_some hx)
      have hmethod : x.method = r.method := by simpa using List.find?_some hx
      exact hlooks (hmethod.trans hget) _ o (Except.ok.inj h)
    · cases h
    · cases h
    · cases h

end Service

end Workbench
