import Mathlib.Data.List.Basic
import Workbench.Disk.Path

/-!
# Paths below a root

The path of names below a root is the root with a slash and a name for each of them. So it tells
the names (`below_injective`), and one lies at or below another exactly when the names of the other
come first (`toList_below_append`, `below_append_inv`). This is for roots that are written as they
are handed to the disk and that have a last step.
-/

namespace Workbench

/-- Every text of a list can be the name of a node. -/
def Path.AreNames (q : List String) : Prop := ∀ s ∈ q, Path.isName s = true

namespace Path.AreNames

variable {p q : List String} {s : String}

theorem nil : AreNames [] := fun _ h => nomatch h

theorem append_iff : AreNames (p ++ q) ↔ AreNames p ∧ AreNames q := List.forall_mem_append

theorem singleton_iff : AreNames [s] ↔ Path.isName s = true := List.forall_mem_singleton

theorem no_slash (h : AreNames q) : ∀ s ∈ q, '/' ∉ s.toList := fun s hs =>
  (Path.isName_iff.1 (h s hs)).2.2.2

end Path.AreNames

namespace Disk

open Workbench.Path (AreNames)

variable {root : String} {p q : List String} {s : String}

/-- A root as it is written, with at least one step. -/
structure IsRoot (root : String) : Prop where
  tidied : tidied root = root
  steps_ne_nil : steps root ≠ []

/-- A slash and a name, for each of some names. -/
def trail (q : List String) : List Char := q.flatMap fun s => '/' :: s.toList

@[simp] theorem trail_nil : trail [] = [] := rfl

theorem trail_cons (s : String) (q : List String) : trail (s :: q) = '/' :: (s.toList ++ trail q) :=
  rfl

theorem trail_append (p q : List String) : trail (p ++ q) = trail p ++ trail q :=
  List.flatMap_append

theorem toList_intercalate_append (l q : List String) (hl : l ≠ []) :
    ("/".intercalate (l ++ q)).toList = ("/".intercalate l).toList ++ trail q := by
  induction q generalizing l with
  | nil => simp
  | cons s rest ih =>
    rw [← List.singleton_append, ← List.append_assoc, ih (l ++ [s]) (by simp),
      String.intercalate_append_of_ne_nil hl (by simp), trail_append]
    simp [trail]

theorem below_eq_tidied (root : String) : below root [] = Disk.tidied root := by
  rw [below, List.append_nil]
  rfl

theorem below_nil (hr : IsRoot root) : below root [] = root :=
  (below_eq_tidied root).trans hr.tidied

/-- The path of names below a root is the root followed by the names. -/
theorem toList_below (hr : IsRoot root) (q : List String) :
    (below root q).toList = root.toList ++ trail q := by
  have hne : steps root ≠ [] := hr.steps_ne_nil
  have hw : ∀ l : List String, l ≠ [] →
      written (leadingSlashes root) l = leadingSlashes root ++ "/".intercalate l := by
    intro l hl
    rw [written, if_neg (by simp [hl])]
  have hroot : root = leadingSlashes root ++ "/".intercalate (steps root) :=
    hr.tidied.symm.trans (hw _ hne)
  conv_rhs => rw [hroot]
  rw [below, hw _ (by simp [hne]), String.toList_append, String.toList_append,
    toList_intercalate_append _ _ hne, List.append_assoc]

theorem toList_below_append (hr : IsRoot root) (p q : List String) :
    (below root (p ++ q)).toList = (below root p).toList ++ trail q := by
  rw [toList_below hr, toList_below hr, trail_append, List.append_assoc]

/-! ## Reading the names off a path -/

/-- The pieces of a trail are its names, and what follows a further slash. -/
theorem splitOn_trail_slash {x : List Char} (hx : '/' ∉ x) (hp : ∀ s ∈ p, '/' ∉ s.toList)
    (rest : List Char) : (x ++ (trail p ++ '/' :: rest)).splitOn '/' =
      x :: (p.map String.toList ++ rest.splitOn '/') := by
  induction p generalizing x with
  | nil => exact List.splitOn_append_cons_self_of_not_mem hx rest
  | cons s p ih =>
    rw [trail_cons, List.cons_append, List.splitOn_append_cons_self_of_not_mem hx,
      List.append_assoc, ih (hp s List.mem_cons_self) fun t ht => hp t (List.mem_cons_of_mem _ ht)]
    rfl

theorem splitOn_trail {x : List Char} (hx : '/' ∉ x) (hq : ∀ s ∈ q, '/' ∉ s.toList) :
    (x ++ trail q).splitOn '/' = x :: q.map String.toList := by
  induction q generalizing x with
  | nil => simpa using List.splitOn_eq_singleton hx
  | cons s q ih =>
    rw [trail_cons, List.splitOn_append_cons_self_of_not_mem hx,
      ih (hq s List.mem_cons_self) fun t ht => hq t (List.mem_cons_of_mem _ ht)]
    rfl

theorem map_toList_injective {p q : List String} (h : p.map String.toList = q.map String.toList) :
    p = q :=
  List.map_injective_iff.2 (fun _ _ he => String.toList_inj.1 he) h

theorem trail_injective (hp : AreNames p) (hq : AreNames q) (h : trail p = trail q) : p = q := by
  have h1 := splitOn_trail (x := []) List.not_mem_nil hp.no_slash
  have h2 := splitOn_trail (x := []) List.not_mem_nil hq.no_slash
  rw [h, h2] at h1
  exact (map_toList_injective (List.cons.inj h1).2).symm

theorem below_injective (hr : IsRoot root) (hp : AreNames p) (hq : AreNames q)
    (h : below root p = below root q) : p = q := by
  have ht := congrArg String.toList h
  rw [toList_below hr, toList_below hr] at ht
  exact trail_injective hp hq (List.append_cancel_left ht)

/-- A path that begins with another and a slash has the names of the other first. -/
theorem prefix_of_trail (hp : ∀ s ∈ p, '/' ∉ s.toList) (hq : AreNames q) {rest : List Char}
    (h : trail q = trail p ++ '/' :: rest) : ∃ r, r ≠ [] ∧ q = p ++ r := by
  have h1 := splitOn_trail (x := []) List.not_mem_nil hq.no_slash
  have h2 := splitOn_trail_slash (x := []) List.not_mem_nil hp rest
  rw [h] at h1
  have hl : q.map String.toList = p.map String.toList ++ rest.splitOn '/' :=
    (List.cons.inj (h1.symm.trans h2)).2
  obtain ⟨u, v, rfl, hu, hv⟩ := List.map_eq_append_iff.1 hl
  obtain rfl := map_toList_injective hu
  refine ⟨v, ?_, rfl⟩
  rintro rfl
  exact List.splitOn_ne_nil '/' rest hv.symm

/-! ## Paths below paths -/

theorem not_mem_of_mem_splitOn {c : Char} {cs ds : List Char} (h : ds ∈ cs.splitOn c) :
    c ∉ ds := by
  induction cs generalizing ds with
  | nil =>
    rw [List.splitOn_nil, List.mem_singleton] at h
    rw [h]
    exact List.not_mem_nil
  | cons x rest ih =>
    rw [List.splitOn_cons_eq_if_modifyHead] at h
    split at h
    · rcases List.mem_cons.1 h with rfl | h
      · exact List.not_mem_nil
      · exact ih h
    · next hx =>
      have hx : c ≠ x := fun he => hx (by simp [he])
      cases hs : rest.splitOn c with
      | nil => exact absurd hs (List.splitOn_ne_nil c rest)
      | cons e es =>
        rw [hs, List.modifyHead_cons] at h
        rcases List.mem_cons.1 h with rfl | h
        · rw [List.mem_cons, not_or]
          exact ⟨hx, ih (hs ▸ List.mem_cons_self)⟩
        · exact ih (hs ▸ List.mem_cons_of_mem _ h)

/-- A text that stays as it is when a path is tidied: not empty, no dot, no slash in it. -/
def IsStep (s : String) : Prop := s ≠ "" ∧ s ≠ "." ∧ '/' ∉ s.toList

theorem isStep_of_mem_steps : ∀ t ∈ steps root, IsStep t := by
  intro t ht
  simp only [steps, Path.segments, Path.pieces, List.mem_filter, List.mem_map] at ht
  obtain ⟨⟨⟨cs, hcs, rfl⟩, hne⟩, hdot⟩ := ht
  refine ⟨by simpa using hne, by simpa using hdot, ?_⟩
  rw [String.toList_ofList]
  exact not_mem_of_mem_splitOn hcs

theorem isStep_of_isName (h : Path.isName s = true) : IsStep s := by
  obtain ⟨hne, hdot, -, hslash⟩ := Path.isName_iff.1 h
  exact ⟨hne, hdot, hslash⟩

theorem leadingSlashes_cases (root : String) :
    leadingSlashes root = "" ∨ leadingSlashes root = "/" ∨ leadingSlashes root = "//" := by
  unfold leadingSlashes
  split
  · exact .inl rfl
  · exact .inr (.inr rfl)
  · exact .inr (.inl rfl)

/-- A path that is written from slashes and steps has these segments. -/
theorem segments_append {slashes : String} {l : List String}
    (hs : slashes = "" ∨ slashes = "/" ∨ slashes = "//") (hl : ∀ t ∈ l, IsStep t) (hne : l ≠ []) :
    Path.segments (slashes ++ "/".intercalate l) = l := by
  have hsplit : ("/".intercalate l).toList.splitOn '/' = l.map String.toList := by
    rw [String.toList_intercalate]
    exact List.splitOn_intercalate '/' (by simpa using fun t ht => (hl t ht).2.2)
      (by simpa using hne)
  have hback : (l.map String.toList).map String.ofList = l := by simp
  have hfilter : (l.filter fun s => !s.isEmpty) = l :=
    List.filter_eq_self.2 fun t ht => by simp [(hl t ht).1]
  have hcons : ∀ cs : List Char, ('/' :: cs).splitOn '/' = [] :: cs.splitOn '/' := fun cs => by
    rw [List.splitOn_cons_eq_if_modifyHead, if_pos (by simp)]
  simp only [Path.segments, Path.pieces, String.toList_append]
  rcases hs with rfl | rfl | rfl
  · rw [show ("" : String).toList = [] from rfl, List.nil_append, hsplit, hback]
    exact hfilter
  · rw [show ("/" : String).toList = ['/'] by decide, List.singleton_append, hcons, hsplit,
      List.map_cons, hback]
    exact hfilter
  · rw [show ("//" : String).toList = ['/', '/'] by decide, List.cons_append,
      List.singleton_append, hcons, hcons, hsplit, List.map_cons, List.map_cons, hback]
    exact hfilter

/-- And these steps. -/
theorem steps_append {slashes : String} {l : List String}
    (hs : slashes = "" ∨ slashes = "/" ∨ slashes = "//") (hl : ∀ t ∈ l, IsStep t) (hne : l ≠ []) :
    steps (slashes ++ "/".intercalate l) = l := by
  rw [steps, segments_append hs hl hne, List.filter_eq_self]
  intro t ht
  simpa using (hl t ht).2.1

theorem leadingSlashes_append {slashes : String} {l : List String}
    (hs : slashes = "" ∨ slashes = "/" ∨ slashes = "//") (hl : ∀ t ∈ l, IsStep t) (hne : l ≠ []) :
    leadingSlashes (slashes ++ "/".intercalate l) = slashes := by
  have hhead : ∀ cs, ("/".intercalate l).toList = cs → cs.takeWhile (· == '/') = [] := by
    rintro cs rfl
    cases l with
    | nil => exact absurd rfl hne
    | cons t rest =>
      obtain ⟨hne, -, hslash⟩ := hl t List.mem_cons_self
      have ht : ∃ c ds, t.toList = c :: ds ∧ c ≠ '/' := by
        cases hc : t.toList with
        | nil => exact absurd (String.toList_inj.1 hc) hne
        | cons c ds =>
          exact ⟨c, ds, rfl, fun he => hslash (by rw [hc, he]; exact List.mem_cons_self)⟩
      obtain ⟨c, ds, hc, hcs⟩ := ht
      have : ∃ es, ("/".intercalate (t :: rest)).toList = c :: es := by
        cases rest with
        | nil => exact ⟨ds, by simp [hc]⟩
        | cons u us => exact ⟨_, by rw [String.intercalate_cons_cons]; simp [hc]; rfl⟩
      obtain ⟨es, hes⟩ := this
      rw [hes, List.takeWhile_cons_of_neg (by simpa using hcs)]
  have h0 := hhead _ rfl
  unfold leadingSlashes
  rcases hs with rfl | rfl | rfl
  · simp only [String.toList_append, show ("" : String).toList = [] from rfl, List.nil_append, h0]
    rfl
  · have ht : ('/' :: ("/".intercalate l).toList).takeWhile (· == '/') = ['/'] := by
      rw [List.takeWhile_cons_of_pos (by rfl), h0]
    simp only [String.toList_append, show ("/" : String).toList = ['/'] by decide,
      List.singleton_append, ht]
    rfl
  · have ht : ('/' :: '/' :: ("/".intercalate l).toList).takeWhile (· == '/') = ['/', '/'] := by
      rw [List.takeWhile_cons_of_pos (by rfl), List.takeWhile_cons_of_pos (by rfl), h0]
    simp only [String.toList_append, show ("//" : String).toList = ['/', '/'] by decide,
      List.cons_append, List.nil_append, ht]
    rfl

theorem steps_written {slashes : String} {l : List String}
    (hs : slashes = "" ∨ slashes = "/" ∨ slashes = "//") (hl : ∀ t ∈ l, IsStep t) :
    steps (written slashes l) = l := by
  rcases eq_or_ne l [] with rfl | hne
  · rcases hs with rfl | rfl | rfl <;> decide
  · rw [written, if_neg (by simp [hne]), steps_append hs hl hne]

theorem leadingSlashes_written {slashes : String} {l : List String}
    (hs : slashes = "" ∨ slashes = "/" ∨ slashes = "//") (hl : ∀ t ∈ l, IsStep t) :
    leadingSlashes (written slashes l) = slashes := by
  rcases eq_or_ne l [] with rfl | hne
  · rcases hs with rfl | rfl | rfl <;> decide
  · rw [written, if_neg (by simp [hne]), leadingSlashes_append hs hl hne]

theorem isStep_of_mem_append (hp : AreNames p) : ∀ t ∈ steps root ++ p, IsStep t := by
  intro t ht
  rcases List.mem_append.1 ht with ht | ht
  · exact isStep_of_mem_steps t ht
  · exact isStep_of_isName (hp t ht)

/-- Paths below a path below a root are paths below the root. -/
theorem below_below (root : String) (hp : AreNames p) (q : List String) :
    below (below root p) q = below root (p ++ q) := by
  have hl : ∀ t ∈ steps root ++ p, IsStep t := isStep_of_mem_append hp
  have hs := leadingSlashes_cases root
  have hsteps : steps (below root p) = steps root ++ p := steps_written hs hl
  have hlead : leadingSlashes (below root p) = leadingSlashes root := leadingSlashes_written hs hl
  rw [below, hsteps, hlead, List.append_assoc]
  rfl

/-- A path below a root is written as it is handed to the disk. -/
theorem tidied_below (root : String) (hp : AreNames p) :
    Disk.tidied (below root p) = below root p := by
  have hl : ∀ t ∈ steps root ++ p, IsStep t := isStep_of_mem_append hp
  have hs := leadingSlashes_cases root
  have hsteps : steps (below root p) = steps root ++ p := steps_written hs hl
  have hlead : leadingSlashes (below root p) = leadingSlashes root := leadingSlashes_written hs hl
  rw [Disk.tidied, hsteps, hlead]
  rfl

/-- A name seen from a path is the path below it. -/
theorem seenFrom_below (root : String) (hp : AreNames p) (hs : Path.isName s = true) :
    seenFrom (below root p) s = below root (p ++ [s]) := by
  have hstep := isStep_of_isName hs
  have hslash : Text.startsWith s "/" = false := by
    rw [Text.startsWith, ← Bool.not_eq_true, List.isPrefixOf_iff_prefix]
    intro h
    exact hstep.2.2 (h.subset (by decide))
  have hsteps : steps s = [s] := by
    have hw : steps (written "" [s]) = [s] := steps_written (.inl rfl) (by simpa using hstep)
    simpa [written] using hw
  rw [seenFrom, hslash, hsteps, if_neg (by simp), below_below root hp]

/-! ## Segments of tidy paths -/

theorem tidied_tidied (root : String) : Disk.tidied (Disk.tidied root) = Disk.tidied root := by
  rw [← below_eq_tidied root]
  exact tidied_below root .nil

theorem below_tidied (root : String) (q : List String) :
    below (Disk.tidied root) q = below root q := by
  rw [← below_eq_tidied, below_below root .nil, List.nil_append]

theorem segments_below (root : String) (hq : AreNames q) (hne : q ≠ []) :
    Path.segments (below root q) = steps root ++ q := by
  rw [below, written, if_neg (by simp [hne])]
  exact segments_append (leadingSlashes_cases root) (isStep_of_mem_append hq) (by simp [hne])

/-- A path that is written as it is handed to the disk has only its steps, unless it is a dot. -/
theorem segments_of_tidied (hr : Disk.tidied root = root) :
    Path.segments root = steps root ∨ root = "." := by
  rw [Disk.tidied, written] at hr
  split at hr
  · exact .inr hr.symm
  · next hdot =>
    left
    rcases eq_or_ne (steps root) [] with he | hne
    · rw [he] at hr hdot ⊢
      rcases leadingSlashes_cases root with hl | hl | hl
      · exact absurd (by simp [hl]) hdot
      · rw [← hr, hl]
        decide
      · rw [← hr, hl]
        decide
    · have hs := segments_append (leadingSlashes_cases root) isStep_of_mem_steps hne
      rwa [hr] at hs

/-- The path of names below a root has its steps and the names for segments, unless it is a dot. -/
theorem segments_below_or_dot (root : String) (hq : AreNames q) :
    Path.segments (below root q) = steps root ++ q ∨
      below root q = "." ∧ steps root ++ q = [] := by
  have hsteps : steps (below root q) = steps root ++ q :=
    steps_written (leadingSlashes_cases root) (isStep_of_mem_append hq)
  rcases segments_of_tidied (tidied_below root hq) with he | he
  · exact .inl (he.trans hsteps)
  · refine .inr ⟨he, ?_⟩
    rw [← hsteps, he]
    decide

theorem startsWith_slash (root : String) :
    Text.startsWith root "/" = !(leadingSlashes root).isEmpty := by
  unfold Text.startsWith leadingSlashes
  cases root.toList with
  | nil => decide
  | cons c rest =>
    rw [show ("/" : String).toList = ['/'] by decide]
    by_cases hc : c = '/'
    · subst hc
      rw [List.takeWhile_cons_of_pos (by rfl), List.length_cons]
      split
      · next he => cases he
      · rfl
      · rfl
    · rw [List.takeWhile_cons_of_neg (by simpa using hc)]
      have hne : ('/' == c) = false := by simpa using Ne.symm hc
      simp [List.isPrefixOf, hne]

theorem startsWith_below (root : String) (hq : AreNames q) :
    Text.startsWith (below root q) "/" = Text.startsWith root "/" := by
  rw [startsWith_slash, startsWith_slash, below,
    leadingSlashes_written (leadingSlashes_cases root) (isStep_of_mem_append hq)]

end Disk

end Workbench
