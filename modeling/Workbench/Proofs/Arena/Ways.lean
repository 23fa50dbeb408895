import Workbench.Proofs.Arena.Shape

/-!
# Ways through a tree

A path is followed step by step: a name leads into a directory, a single dot stays, two dots lead
up, and an empty step does nothing. Where the steps would lead by their texts alone is one thing
(`Path.onward`), whether the tree lets one through is another: each step that is not empty must
start at a directory (`Shape.Passes`). What following a path finds is said by the two together
(`Arena.IsTree.follow?_eq_some_iff`), so that whatever keeps the directories of a tree keeps the
ways through it (`Shape.Passes.mono`).
-/

namespace Workbench

namespace Path

/-- Where a step leads from a place. -/
def onward (q : List String) (s : String) : List String :=
  if s = "." then q else if s = ".." then q.dropLast else q ++ [s]

theorem onward_dot (q : List String) : onward q "." = q := if_pos rfl

theorem onward_dots (q : List String) : onward q ".." = q.dropLast := by
  rw [onward, if_neg (by decide), if_pos rfl]

theorem onward_name (q : List String) {s : String} (hdot : s ≠ ".") (hdots : s ≠ "..") :
    onward q s = q ++ [s] := by
  rw [onward, if_neg hdot, if_neg hdots]

end Path

namespace Shape

variable {S S' : Shape} {q q' q'' steps rest : List String} {s : String}

/-- Steps lead from one place to another, through directories only. -/
inductive Passes (S : Shape) : List String → List String → List String → Prop
  | stop (q : List String) : Passes S q [] q
  | skip {q q' rest : List String} (h : Passes S q rest q') : Passes S q ("" :: rest) q'
  | step {q q' rest : List String} {s : String} (hs : s ≠ "") (hd : S q none)
      (h : Passes S (Path.onward q s) rest q') : Passes S q (s :: rest) q'

namespace Passes

theorem mono (h : S.Passes q steps q') (hS : ∀ q, S q none → S' q none) :
    S'.Passes q steps q' := by
  induction h with
  | stop q => exact .stop q
  | skip _ ih => exact .skip ih
  | step hs hd _ ih => exact .step hs (hS _ hd) ih

theorem unique (h : S.Passes q steps q') (h' : S'.Passes q steps q'') : q' = q'' := by
  induction h with
  | stop q =>
    cases h'
    rfl
  | skip _ ih =>
    cases h' with
    | skip h' => exact ih h'
    | step hs => exact absurd rfl hs
  | step hs _ _ ih =>
    cases h' with
    | skip _ => exact absurd rfl hs
    | step _ _ h' => exact ih h'

/-- A way that is open ends where its steps lead by their texts alone. -/
theorem foldl_onward (h : S.Passes q steps q') (hne : ∀ s ∈ steps, s ≠ "") :
    steps.foldl Path.onward q = q' := by
  induction h with
  | stop => rfl
  | skip => exact absurd rfl (hne "" List.mem_cons_self)
  | step _ _ _ ih => exact ih fun s hs => hne s (List.mem_cons_of_mem _ hs)

/-- Empty steps make no difference. -/
theorem filter_iff :
    S.Passes q (steps.filter fun s => !s.isEmpty) q' ↔ S.Passes q steps q' := by
  induction steps generalizing q with
  | nil => rfl
  | cons s rest ih =>
    by_cases hs : s = ""
    · subst hs
      rw [List.filter_cons_of_neg (by decide), ih]
      constructor
      · exact .skip
      · intro h
        cases h with
        | skip h => exact h
        | step hs => exact absurd rfl hs
    · rw [List.filter_cons_of_pos (by simpa [String.isEmpty_iff] using hs)]
      constructor
      · intro h
        cases h with
        | skip => exact absurd rfl hs
        | step hs hd h => exact .step hs hd (ih.1 h)
      · intro h
        cases h with
        | skip => exact absurd rfl hs
        | step hs hd h => exact .step hs hd (ih.2 h)

theorem append_iff : S.Passes q (steps ++ rest) q' ↔
    ∃ m, S.Passes q steps m ∧ S.Passes m rest q' := by
  constructor
  · intro h
    induction steps generalizing q with
    | nil => exact ⟨q, .stop q, h⟩
    | cons s steps ih =>
      cases h with
      | skip h =>
        obtain ⟨m, hm, hrest⟩ := ih h
        exact ⟨m, .skip hm, hrest⟩
      | step hs hd h =>
        obtain ⟨m, hm, hrest⟩ := ih h
        exact ⟨m, .step hs hd hm, hrest⟩
  · rintro ⟨m, hm, hrest⟩
    induction hm with
    | stop => exact hrest
    | skip _ ih => exact .skip (ih hrest)
    | step hs hd _ ih => exact .step hs hd (ih hrest)

/-- A way goes on to a name below a directory. -/
theorem concat (h : S.Passes q steps q') (hd : S q' none) (hs : Path.isName s = true) :
    S.Passes q (steps ++ [s]) (q' ++ [s]) := by
  obtain ⟨hne, hdot, hdots, -⟩ := Path.isName_iff.1 hs
  refine append_iff.2 ⟨q', h, .step hne hd ?_⟩
  rw [Path.onward_name q' hdot hdots]
  exact .stop _

/-- A way is open in another shape exactly when each place where a step starts is a directory there
as well. -/
theorem iff_of_passes (h : S.Passes q steps q') (hne : ∀ s ∈ steps, s ≠ "") :
    S'.Passes q steps q' ↔
      ∀ above below v, steps = above ++ below → below ≠ [] → S.Passes q above v → S' v none := by
  constructor
  · rintro h' above below v rfl hbelow hv
    obtain ⟨m, hm, hrest⟩ := append_iff.1 h'
    obtain rfl := hv.unique hm
    cases hrest with
    | stop => exact absurd rfl hbelow
    | skip => exact absurd rfl (hne "" (by simp))
    | step _ hd _ => exact hd
  · intro hdirs
    induction h with
    | stop q => exact .stop q
    | skip => exact absurd rfl (hne "" List.mem_cons_self)
    | @step q q' rest s hs hd h ih =>
      refine .step hs (hdirs [] _ q rfl (by simp) (.stop q))
        (ih ?_ fun above below v he hb hv => ?_)
      · exact fun t ht => hne t (List.mem_cons_of_mem s ht)
      · exact hdirs (s :: above) below v (by rw [he, List.cons_append]) hb (.step hs hd hv)

/-- A way that never leads up stays below where it starts. -/
theorem prefix_of_not_mem (h : S.Passes q steps q') (hup : ".." ∉ steps) : q <+: q' := by
  induction h with
  | stop q => exact List.prefix_rfl
  | skip _ ih => exact ih fun hm => hup (List.mem_cons_of_mem _ hm)
  | @step q q' rest s hs hd h ih =>
    have hbelow := ih fun hm => hup (List.mem_cons_of_mem _ hm)
    by_cases hdot : s = "."
    · rwa [hdot, Path.onward_dot] at hbelow
    · have hdots : s ≠ ".." := fun he => hup (he ▸ List.mem_cons_self)
      rw [Path.onward_name q hdot hdots] at hbelow
      exact (List.prefix_append q [s]).trans hbelow

/-- A way that never leads up is open wherever there is a directory at its end. -/
theorem open_of_not_mem (h : S.Passes q steps q') (hS : S'.IsTree) (hq : S' q' none)
    (hup : ".." ∉ steps) : S'.Passes q steps q' := by
  induction h with
  | stop q => exact .stop q
  | skip _ ih => exact .skip (ih hq fun hm => hup (List.mem_cons_of_mem _ hm))
  | @step q q' rest s hs hd h ih =>
    obtain ⟨r, rfl⟩ := (h.step hs hd).prefix_of_not_mem hup
    refine .step hs ?_ (ih hq fun hm => hup (List.mem_cons_of_mem _ hm))
    by_cases hr : r = []
    · rwa [hr, List.append_nil] at hq
    · exact hS.directory hr hq

/-- A way to a directory starts at a directory. -/
theorem directory (h : S.Passes q steps q') (hq : S q' none) : S q none := by
  induction h with
  | stop q => exact hq
  | skip _ ih => exact ih hq
  | step _ hd _ _ => exact hd

/-- A way to something starts at something. -/
theorem shows (h : S.Passes q steps q') {c : Option String} (hc : S q' c) : ∃ c, S q c := by
  induction h with
  | stop q => exact ⟨c, hc⟩
  | skip _ ih => exact ih hc
  | step _ hd _ _ => exact ⟨none, hd⟩

end Passes

end Shape

namespace Arena

variable {a : Arena} {id : NodeId} {n m d : Node} {q steps rest : List String} {s : String}

theorem follow?_file (hk : n.kind ≠ .directory) (hs : s ≠ "") :
    a.follow? (s :: rest) n = none := by
  simp [follow?, String.isEmpty_iff, hs, Node.isDirectory, hk]

theorem follow?_dot (hk : n.kind = .directory) :
    a.follow? ("." :: rest) n = a.follow? rest n := by
  simp [follow?, Node.isDirectory, hk]

theorem follow?_child (hk : n.kind = .directory) (hs : s ≠ "") (hdot : s ≠ ".") (hdots : s ≠ "..") :
    a.follow? (s :: rest) n = (a.childNamed? n s).bind (a.follow? rest) := by
  simp only [follow?, String.isEmpty_iff, hs, hdot, hdots, Node.isDirectory, hk, beq_self_eq_true,
    Bool.not_true, beq_iff_eq, Bool.false_eq_true, ↓reduceIte]
  cases a.childNamed? n s <;> rfl

/-- The node that is one step up: the parent, and for the root itself. -/
theorem IsTree.exists_above (h : a.IsTree) (hn : a.get? id = some n) (hl : a.Leads id q) :
    ∃ d, a.get? (n.parentId.getD id) = some d ∧ a.Leads (n.parentId.getD id) q.dropLast ∧
      (n.kind = .directory → d.kind = .directory) ∧
      ∀ rest, n.kind = .directory → a.follow? (".." :: rest) n = a.follow? rest d := by
  cases hl with
  | root =>
    have hnone := (h.parentId_eq_none_iff hn).2 rfl
    rw [hnone]
    refine ⟨n, hn, .root, fun hk => hk, fun rest hk => ?_⟩
    simp [follow?, Node.isDirectory, hk, hnone]
  | @child p _ m names above hm hp =>
    obtain rfl := Option.some.inj (hm.symm.trans hn)
    obtain ⟨d, hd, -, hdk⟩ := h.parent hm hp
    rw [hp, List.dropLast_concat]
    refine ⟨d, hd, above, fun _ => hdk, fun rest hk => ?_⟩
    simp [follow?, Node.isDirectory, hk, hp, hd]

/-- Following steps from a node leads to the node at the place where they lead, if they pass. -/
theorem IsTree.follow?_eq_some_iff (h : a.IsTree) (hn : a.get? id = some n)
    (hl : a.Leads id q) : a.follow? steps n = some m ↔
      ∃ q', a.Shows.Passes q steps q' ∧ a.Leads m.id q' ∧ a.get? m.id = some m := by
  have hid := h.keyed hn
  subst hid
  induction steps generalizing n q with
  | nil =>
    constructor
    · intro hf
      obtain rfl := Option.some.inj hf
      exact ⟨q, .stop q, hl, hn⟩
    · rintro ⟨q', hp, hm, hget⟩
      cases hp
      rw [h.leads_injective hm hl] at hget
      exact hn.symm.trans hget
  | cons s rest ih =>
    by_cases hs : s = ""
    · subst hs
      refine (ih hn hl).trans ⟨?_, ?_⟩
      · rintro ⟨q', hp, hm⟩
        exact ⟨q', .skip hp, hm⟩
      · rintro ⟨q', hp, hm⟩
        cases hp with
        | skip hp => exact ⟨q', hp, hm⟩
        | step hs => exact absurd rfl hs
    -- a step that is not empty starts at a directory, and the others are those that follow it
    have hpass : (∃ q', a.Shows.Passes q (s :: rest) q' ∧ a.Leads m.id q' ∧ a.get? m.id = some m) ↔
        n.kind = .directory ∧ ∃ q', a.Shows.Passes (Path.onward q s) rest q' ∧
          a.Leads m.id q' ∧ a.get? m.id = some m := by
      constructor
      · rintro ⟨q', hp, hm⟩
        cases hp with
        | skip => exact absurd rfl hs
        | step _ hd hp =>
          exact ⟨Node.shown_eq_none_iff.1 ((h.shows_iff hl hn).1 hd), q', hp, hm⟩
      · rintro ⟨hk, q', hp, hm⟩
        exact ⟨q', .step hs ((h.shows_iff hl hn).2 (Node.shown_eq_none_iff.2 hk)) hp, hm⟩
    rw [hpass]
    by_cases hk : n.kind = .directory
    · rw [and_iff_right hk]
      by_cases hdot : s = "."
      · subst hdot
        rw [follow?_dot hk, Path.onward_dot]
        exact ih hn hl
      by_cases hdots : s = ".."
      · subst hdots
        obtain ⟨d, hd, hld, -, hup⟩ := h.exists_above hn hl
        rw [hup rest hk, Path.onward_dots]
        have hid := h.keyed hd
        rw [← hid] at hd hld
        exact ih hd hld
      rw [follow?_child hk hs hdot hdots, Path.onward_name q hdot hdots]
      rcases hc : a.childNamed? n s with _ | c
      · rw [Option.bind_none]
        refine iff_of_false (by simp) ?_
        rintro ⟨q', hp, hm, hget⟩
        obtain ⟨c, hc'⟩ := hp.shows ⟨m.id, m, hm, hget, rfl⟩
        exact h.free_of_childNamed? hl hn hc c hc'
      · obtain ⟨hcget, hp, rfl⟩ := (h.childNamed?_eq_some_iff hn).1 hc
        rw [Option.bind_some]
        exact ih hcget (.child hl hcget hp)
    · rw [follow?_file hk hs]
      exact iff_of_false (by simp) fun hd => hk hd.1

/-- Empty steps make no difference. -/
theorem follow?_filter (steps : List String) (n : Node) :
    a.follow? (steps.filter fun s => !s.isEmpty) n = a.follow? steps n := by
  induction steps generalizing n with
  | nil => rfl
  | cons s rest ih =>
    by_cases hs : s = ""
    · subst hs
      exact ih n
    · rw [List.filter_cons_of_pos (by simpa [String.isEmpty_iff] using hs), follow?, follow?]
      simp only [ih]

end Arena

end Workbench
