import Workbench.Disk.Bridge
import Workbench.Path

/-!
# Entries of a listing

What it takes for a listing to be proper, and what it says of a place: `Lists F q c` when the names
`q` lead through the entries `F` to a file with the text `c`, or to a directory if `c` is `none`.
-/

namespace Workbench

namespace DiskEntry

/-- What an entry is apart from its place. -/
def shown : DiskEntry → Option String
  | file _ content _ _ => some content
  | directory .. => none

/-- Names that can be names of nodes, different among siblings, at every depth. -/
inductive Proper : DiskEntry → Prop
  | file {name content size modifiedAt} (hn : Path.isName name = true) :
      Proper (.file name content size modifiedAt)
  | directory {name modifiedAt children} (hn : Path.isName name = true)
      (hd : (children.map DiskEntry.name).Nodup) (hc : ∀ e ∈ children, Proper e) :
      Proper (.directory name modifiedAt children)

theorem Proper.isName {e : DiskEntry} (h : e.Proper) : Path.isName e.name = true := by
  cases h with
  | file hn => exact hn
  | directory hn _ _ => exact hn

end DiskEntry

/-- A listing of proper entries under different names. -/
structure ProperListing (F : List DiskEntry) : Prop where
  nodup : (F.map DiskEntry.name).Nodup
  entries : ∀ e ∈ F, e.Proper

/-- A listing holds something at the place with these names. -/
inductive Lists : List DiskEntry → List String → Option String → Prop
  | here {F : List DiskEntry} {e : DiskEntry} (he : e ∈ F) : Lists F [e.name] e.shown
  | inside {F : List DiskEntry} {name : String} {t : Timestamp} {children : List DiskEntry}
      {q : List String} {c : Option String} (he : .directory name t children ∈ F)
      (h : Lists children q c) : Lists F (name :: q) c

theorem not_lists_nil {q : List String} {c : Option String} : ¬ Lists [] q c := by
  intro h
  cases h with
  | here he => cases he
  | inside he _ => cases he

theorem Lists.mono {F G : List DiskEntry} {q : List String} {c : Option String}
    (h : Lists F q c) (hs : F ⊆ G) : Lists G q c := by
  cases h with
  | here he => exact .here (hs he)
  | inside he h => exact .inside (hs he) h

theorem lists_cons_iff {e : DiskEntry} {F : List DiskEntry} {q : List String}
    {c : Option String} : Lists (e :: F) q c ↔ Lists [e] q c ∨ Lists F q c := by
  constructor
  · intro h
    cases h with
    | here he =>
      rcases List.mem_cons.1 he with rfl | he
      · exact .inl (.here List.mem_cons_self)
      · exact .inr (.here he)
    | inside he h =>
      rcases List.mem_cons.1 he with rfl | he
      · exact .inl (.inside List.mem_cons_self h)
      · exact .inr (.inside he h)
  · rintro (h | h)
    · exact h.mono (List.cons_subset.2 ⟨List.mem_cons_self, List.nil_subset _⟩)
    · exact h.mono (List.subset_cons_self _ _)

theorem lists_file_iff {name content : String} {size : Nat} {t : Timestamp} {q : List String}
    {c : Option String} :
    Lists [.file name content size t] q c ↔ q = [name] ∧ c = some content := by
  constructor
  · intro h
    cases h with
    | here he =>
      obtain rfl := List.mem_singleton.1 he
      exact ⟨rfl, rfl⟩
    | inside he _ => cases List.mem_singleton.1 he
  · rintro ⟨rfl, rfl⟩
    exact .here List.mem_cons_self

theorem lists_directory_iff {name : String} {t : Timestamp} {children : List DiskEntry}
    {q : List String} {c : Option String} : Lists [.directory name t children] q c ↔
      (q = [name] ∧ c = none) ∨ ∃ r, q = name :: r ∧ Lists children r c := by
  constructor
  · intro h
    cases h with
    | here he =>
      obtain rfl := List.mem_singleton.1 he
      exact .inl ⟨rfl, rfl⟩
    | inside he h =>
      cases List.mem_singleton.1 he
      exact .inr ⟨_, rfl, h⟩
  · rintro (⟨rfl, rfl⟩ | ⟨r, rfl, h⟩)
    · exact .here List.mem_cons_self
    · exact .inside List.mem_cons_self h

end Workbench
