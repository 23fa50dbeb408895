import Mathlib.Data.List.Induction
import Workbench.Proofs.Disk.Entries
import Workbench.Proofs.Disk.Path

/-!
# Shapes

A shape says what lies at which place, of a tree in memory as well as of a disk below a directory.
It knows nothing of ids, times and orders. `Becomes` says what each call to a disk makes of a
shape, and when the call can be carried out at all; what a bridge is expected to do and what an edit
in memory does are both stated through it.
-/

namespace Workbench

open Workbench.Path (AreNames)
open Disk (below)

/-- What lies at the places below a directory: the text of a file, or nothing for a directory. -/
abbrev Shape := List String → Option String → Prop

namespace Shape

variable {S : Shape} {p p' q r : List String} {s : String} {c : Option String}

/-- A directory with everything below it. -/
structure IsTree (S : Shape) : Prop where
  root : S [] none
  names : ∀ {q c}, S q c → AreNames q
  above : ∀ {q s c}, S (q ++ [s]) c → S q none
  single : ∀ {q c c'}, S q c → S q c' → c = c'

def Free (S : Shape) (p : List String) : Prop := ∀ c, ¬ S p c

namespace IsTree

/-- Above everything there is a directory. -/
theorem directory (h : S.IsTree) (hr : r ≠ []) (hs : S (q ++ r) c) : S q none := by
  induction r using List.reverseRecOn generalizing c with
  | nil => exact absurd rfl hr
  | append_singleton r s ih =>
    rw [← List.append_assoc] at hs
    by_cases hn : r = []
    · subst hn
      rw [List.append_nil] at hs
      exact h.above hs
    · exact ih hn (h.above hs)

/-- Where nothing is, nothing is below. -/
theorem free_append (h : S.IsTree) (hf : S.Free p) (r : List String) : S.Free (p ++ r) := by
  intro c hs
  by_cases hr : r = []
  · rw [hr, List.append_nil] at hs
    exact hf c hs
  · exact hf none (h.directory hr hs)

end IsTree

/-! ## Changes -/

/-- A shape with something more. -/
def grown (S : Shape) (p : List String) (c : Option String) : Shape := fun q d =>
  S q d ∨ (q = p ∧ d = c)

/-- A shape without what lies at or below a place. -/
def pruned (S : Shape) (p : List String) : Shape := fun q c => S q c ∧ ¬ p <+: q

/-- A shape in which what lies at or below the first place is at or below the second instead. -/
def shifted (S : Shape) (p p' : List String) : Shape := fun q c =>
  (S q c ∧ ¬ p <+: q) ∨ ∃ r, q = p' ++ r ∧ S (p ++ r) c

/-- A shape in which what lies at or below the first place is at or below the second as well. -/
def doubled (S : Shape) (p p' : List String) : Shape := fun q c =>
  S q c ∨ ∃ r, q = p' ++ r ∧ S (p ++ r) c

/-- A shape with a file of another text at a place. -/
def refilled (S : Shape) (p : List String) (text : String) : Shape := fun q c =>
  (S q c ∧ q ≠ p) ∨ (q = p ∧ c = some text)

/-- A tree with something more in one of its directories, where nothing was, is a tree. -/
theorem IsTree.grown (h : S.IsTree) (hp : S p none) (hs : Path.isName s = true)
    (hf : S.Free (p ++ [s])) (c : Option String) : (S.grown (p ++ [s]) c).IsTree where
  root := .inl h.root
  names := by
    rintro q d (hq | ⟨rfl, rfl⟩)
    · exact h.names hq
    · exact AreNames.append_iff.2 ⟨h.names hp, AreNames.singleton_iff.2 hs⟩
  above := by
    rintro q t d (hq | ⟨he, rfl⟩)
    · exact .inl (h.above hq)
    · obtain ⟨rfl, -⟩ := List.append_inj' he rfl
      exact .inl hp
  single := by
    rintro q d d' (hq | ⟨rfl, rfl⟩) (hq' | ⟨hq', rfl⟩)
    · exact h.single hq hq'
    · exact absurd (hq' ▸ hq) (hf d)
    · exact absurd hq' (hf d')
    · rfl

/-! ## Calls -/

/-- What a call makes of what lies below a root, where it can be carried out. -/
inductive Becomes (root : String) (S : Shape) : DiskCall → Shape → Prop
  | createFile {p : List String} {s : String} (hp : S p none) (hs : Path.isName s = true)
      (hf : S.Free (p ++ [s])) (text : String) :
      Becomes root S (.createFile (below root p) s text) (S.grown (p ++ [s]) (some text))
  | createDirectory {p : List String} {s : String} (hp : S p none) (hs : Path.isName s = true)
      (hf : S.Free (p ++ [s])) :
      Becomes root S (.createDirectory (below root p) s) (S.grown (p ++ [s]) none)
  | delete {p : List String} {c : Option String} (hp : S p c) :
      Becomes root S (.delete (below root p)) (S.pruned p)
  | rename {p p' : List String} {c : Option String} (hp : S p c) (hn : AreNames p')
      (hf : S.Free p') : Becomes root S (.rename (below root p) (below root p')) (S.shifted p p')
  | move {p p' : List String} {c : Option String} (hp : S p c) (hn : AreNames p')
      (hf : S.Free p') : Becomes root S (.move (below root p) (below root p')) (S.shifted p p')
  | writeFile {p : List String} {old : String} (hp : S p (some old)) (text : String) :
      Becomes root S (.writeFile (below root p) text) (S.refilled p text)

/-- What calls that are carried out in order make of what lies below a root. -/
inductive BecomesAll (root : String) : Shape → List DiskCall → Shape → Prop
  | nil {S : Shape} : BecomesAll root S [] S
  | cons {S S' S'' : Shape} {call : DiskCall} {rest : List DiskCall} (h : Becomes root S call S')
      (hS : S'.IsTree) (hr : BecomesAll root S' rest S'') : BecomesAll root S (call :: rest) S''

end Shape

/-! ## Faithful bridges -/

variable {σ : Type}

/-- A bridge that leaves nothing out and carries out what can be carried out. `Mirrors` says which
shape a disk holds below the root. -/
structure Bridge.Faithful (b : Bridge σ) (root : String) (Mirrors : σ → Shape → Prop) : Prop where
  ignored : b.ignored = []
  maxDepth : b.maxDepth = none
  list : ∀ {d S} (now : Timestamp), Mirrors d S → S.IsTree →
    ∃ F d', b.list now root d = (.ok F, d') ∧ Mirrors d' S ∧ ProperListing F ∧
      ∀ {q c}, Lists F q c ↔ q ≠ [] ∧ S q c
  perform : ∀ {d S call S'} (now : Timestamp), Mirrors d S → S.IsTree →
    Shape.Becomes root S call S' →
    ∃ path d', b.perform now call d = (.ok (.done path), d') ∧ Mirrors d' S'

end Workbench
