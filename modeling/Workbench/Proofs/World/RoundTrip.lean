import Workbench.Proofs.Path
import Workbench.Proofs.World.Runs

/-!
# Paths of nodes lead back to them

The path of a node is written from the raw names on the way to it, but blanks around a path are
dropped when it is read. So the path of a node leads back to it exactly when its name does not end
with a blank, and names may end with blanks. Every name above the node keeps its blanks, because a
slash follows it.
-/

namespace Workbench

namespace Arena

variable {a : Arena} {id p : NodeId} {n d m r : Node} {names : List String}

theorem follow?_append (ps qs : List String) (n : Node) :
    a.follow? (ps ++ qs) n = (a.follow? ps n).bind (a.follow? qs) := by
  induction ps generalizing n with
  | nil => rfl
  | cons p rest ih =>
    rw [List.cons_append, follow?, follow?]
    repeat' split
    all_goals first | exact ih _ | rfl

/-- A proper name leads from a directory to the child that it names. -/
theorem follow?_name (hd : d.kind = .directory) {s : String} (hs : Path.isName s = true) :
    a.follow? [s] d = a.childNamed? d s := by
  obtain ⟨hne, hdot, hdots, -⟩ := Path.isName_iff.1 hs
  have hempty : s.isEmpty = false := by simpa [String.isEmpty_iff] using hne
  have hdir : d.isDirectory = true := Node.isDirectory_iff.2 hd
  rw [follow?]
  simp only [hempty, hdir, hdot, hdots, beq_iff_eq, Bool.not_true, Bool.false_eq_true, ↓reduceIte]
  cases a.childNamed? d s <;> rfl

theorem IsTree.follow?_leads (h : a.IsTree) (hl : a.Leads id names) (hr : a.get? rootId = some r)
    (hn : a.get? id = some n) : a.follow? names r = some n := by
  induction hl generalizing n with
  | root =>
    obtain rfl := Option.some.inj (hr.symm.trans hn)
    rfl
  | @child p c m names above hm hp ih =>
    obtain rfl := Option.some.inj (hm.symm.trans hn)
    obtain ⟨d, hd, -, hdk⟩ := h.parent hm hp
    have hname := h.isName_of_leads (.child above hm hp) m.name (by simp)
    rw [follow?_append, ih hd, Option.bind_some, follow?_name hdk hname]
    exact (h.childNamed?_eq_some_iff hd).2 ⟨by rw [h.keyed hm]; exact hm, hp, rfl⟩

/-- Anything but its name misses a child. -/
theorem IsTree.follow?_ne (h : a.IsTree) (hd : a.get? p = some d) (hn : a.get? id = some n)
    (hp : n.parentId = some p) {s : String} (hs : s ≠ n.name) : a.follow? [s] d ≠ some n := by
  have hnotd : d ≠ n := by
    rintro rfl
    have hid : p = id := (h.keyed hd).symm.trans (h.keyed hn)
    exact h.not_below_parent ⟨d, hn, hp⟩ (hid ▸ .refl a _)
  intro hf
  rw [follow?] at hf
  split at hf
  · exact hnotd (Option.some.inj hf)
  · split at hf
    · cases hf
    · split at hf
      · exact hnotd (Option.some.inj hf)
      · split at hf
        · split at hf
          · next e he =>
            obtain rfl : e = n := Option.some.inj hf
            obtain ⟨q, hq, he⟩ := Option.bind_eq_some_iff.1 he
            have hid : q = id := (h.keyed he).symm.trans (h.keyed hn)
            have hbelow : a.AtOrBelow id p := .tail (.refl a _) ⟨d, hd, hid ▸ hq⟩
            exact h.not_below_parent ⟨e, hn, hp⟩ hbelow
          · exact hnotd (Option.some.inj hf)
        · split at hf
          · next c hc =>
            obtain rfl : c = n := Option.some.inj hf
            exact hs ((h.childNamed?_eq_some_iff hd).1 hc).2.2.symm
          · cases hf

end Arena

namespace Workspace

variable {s : Workspace} {id : NodeId} {n : Node}

/-- The path of a node leads back to it exactly when its name does not end with a blank. -/
theorem resolve?_pathOf_iff (h : s.arena.IsTree) (hn : s.arena.get? id = some n) (cwd : String) :
    s.resolve? (s.pathOf id) cwd = some n ↔
      id = rootId ∨ ∀ c ∈ n.name.toList.getLast?, Text.isBlank c = false := by
  obtain ⟨r, hr, -, hrp⟩ := h.root
  have hl := h.leads_namesTo hn
  have hslash : ∀ {names}, s.arena.Leads id names → ∀ t ∈ names, '/' ∉ t.toList := fun hl t ht =>
    (Path.isName_iff.1 (h.isName_of_leads hl t ht)).2.2.2
  rw [resolve?, Arena.resolve?, hr, Option.bind_some, pathOf, Arena.pathOf]
  generalize s.arena.namesTo id = names at hl
  cases hl with
  | root =>
    obtain rfl := Option.some.inj (hr.symm.trans hn)
    rw [Path.route_root]
    exact ⟨fun _ => .inl rfl, fun _ => rfl⟩
  | @child p _ m names above hm hp =>
    obtain rfl := Option.some.inj (hm.symm.trans hn)
    obtain ⟨d, hd, -, hdk⟩ := h.parent hm hp
    have hsl := hslash (.child above hm hp)
    have hroot : id ≠ rootId := by
      rintro rfl
      exact h.not_holds_root ⟨m, hm, hp⟩
    have hstart : ∀ route, s.arena.follow? ("" :: route) r = s.arena.follow? route r := fun _ => rfl
    rw [Path.route_ofNames _ _ (fun t ht => hsl t (List.mem_append_left _ ht)) (hsl _ (by simp)),
      hstart, Arena.follow?_append, h.follow?_leads above hr hd, Option.bind_some,
      ← Text.dropEndBlanks_eq_iff]
    constructor
    · intro hf
      by_contra hne
      rw [not_or] at hne
      exact h.follow?_ne hd hm hp hne.2 hf
    · rintro (hid | he)
      · exact absurd hid hroot
      · rw [he, Arena.follow?_name hdk (h.isName_of_leads (.child above hm hp) _ (by simp))]
        exact (h.childNamed?_eq_some_iff hd).2 ⟨by rw [h.keyed hm]; exact hm, hp, rfl⟩

end Workspace

namespace World

variable {σ : Type} {w : World σ} {id : NodeId} {n : Node}

/-- In every workspace that is reached, the path of a node leads back to it, from any working
directory, exactly when it is the root or its name does not end with a blank. -/
theorem resolve?_pathOf_of_reachable (hr : w.Reachable) (hn : w.space.node? id = some n)
    (cwd : String) : w.space.resolve? (w.space.pathOf id) cwd = some n ↔
      id = rootId ∨ ∀ c ∈ n.name.toList.getLast?, Text.isBlank c = false :=
  Workspace.resolve?_pathOf_iff hr.sound.tree hn cwd

/-- A new workspace in which a file has been created in a directory with a blank after its name. -/
def blankWorld : World Unit :=
  ((Operation.create .file "b" "n1" "").run ⟨none, default⟩
    ((Operation.create .directory "a " rootId "").run ⟨none, default⟩
      ⟨.new "/home/user" default, ()⟩).2).2

theorem reachable_blankWorld : blankWorld.Reachable := by
  have hh : Host.Lawful (⟨none, default⟩ : Host Unit) := fun _ hb => nomatch hb
  have hnew : Reachable (⟨.new "/home/user" default, ()⟩ : World Unit) := .new _ _ _
  have hdir := hnew.step hh (.create .directory "a " rootId "")
  exact hdir.step hh (.create .file "b" "n1" "")

/-- The file in it is found by its path. -/
theorem resolve?_pathOf_below_blank : ∃ n, blankWorld.space.node? "n2" = some n ∧
    blankWorld.space.pathOf "n2" = "/a /b" ∧ blankWorld.space.resolve? "/a /b" "/" = some n := by
  obtain ⟨n, hn, hname⟩ : ∃ n, blankWorld.space.node? "n2" = some n ∧ n.name = "b" :=
    Option.map_eq_some_iff.1 (by decide +kernel)
  have hpath : blankWorld.space.pathOf "n2" = "/a /b" := by decide +kernel
  have hb : ∀ c ∈ n.name.toList.getLast?, Text.isBlank c = false := by
    rw [hname]
    intro c hc
    obtain rfl : 'b' = c := Option.some.inj hc
    rfl
  refine ⟨n, hn, hpath, ?_⟩
  rw [← hpath]
  exact (resolve?_pathOf_of_reachable reachable_blankWorld hn "/").2 (.inr hb)

/-- The directory is not: the blank after its name is dropped from its path. -/
theorem resolve?_pathOf_blank : blankWorld.Reachable ∧ (blankWorld.space.node? "n1").isSome = true ∧
    blankWorld.space.pathOf "n1" = "/a " ∧ blankWorld.space.resolve? "/a " "/" = none :=
  ⟨reachable_blankWorld, by decide +kernel, by decide +kernel, by decide +kernel⟩

end World

end Workbench
