import Mathlib.Data.List.Induction
import Mathlib.Data.List.TakeWhile
import Workbench.Proofs.Disk.Path

/-!
# Written paths

The path of names taken apart again. Dropping the blanks around a written path only touches its
last name, because a slash is not a blank; so the pieces of the path are the names, but for the
blanks at the end of the last one.
-/

namespace Workbench

namespace Text

/-- A text without the blanks at its end. -/
def dropEndBlanks (s : String) : String := .ofList (s.toList.reverse.dropWhile isBlank).reverse

theorem dropEndBlanks_eq_iff {s : String} :
    dropEndBlanks s = s ↔ ∀ c ∈ s.toList.getLast?, isBlank c = false := by
  rw [dropEndBlanks, ← String.toList_inj, String.toList_ofList, ← List.head?_reverse,
    List.reverse_eq_iff]
  cases s.toList.reverse with
  | nil => simp
  | cons c rest =>
    simp only [List.head?_cons, Option.mem_def, Option.some.injEq, forall_eq']
    rw [List.dropWhile_cons]
    by_cases hc : isBlank c = true
    · simp only [hc, ↓reduceIte, Bool.true_eq_false, iff_false]
      intro he
      have := (List.dropWhile_sublist (l := rest) isBlank).length_le
      rw [he, List.length_cons] at this
      omega
    · simp [hc]

theorem not_mem_dropEndBlanks {s : String} {c : Char} (h : c ∉ s.toList) :
    c ∉ (dropEndBlanks s).toList := by
  rw [dropEndBlanks, String.toList_ofList, List.mem_reverse]
  exact fun hc => h (List.mem_reverse.1 ((List.dropWhile_sublist isBlank).subset hc))

end Text

namespace Path

theorem isBlank_slash : Text.isBlank '/' = false := by decide

/-- The characters of a path below a directory that is written with a slash at its end. -/
theorem toList_ofNames_append (names : List String) (s : String) :
    ∃ cs, (ofNames (names ++ [s])).toList = '/' :: cs ++ s.toList ∧
      (∀ t : String, (ofNames (names ++ [t])).toList = '/' :: cs ++ t.toList) ∧
      ('/' :: cs).getLast? = some '/' := by
  cases names with
  | nil =>
    refine ⟨[], ?_, fun t => ?_, rfl⟩ <;>
      simp [ofNames]
  | cons a rest =>
    refine ⟨['/'].intercalate ((a :: rest).map String.toList) ++ ['/'], ?_, fun t => ?_, ?_⟩
    · rw [ofNames, String.intercalate_append_of_ne_nil (by simp) (by simp)]
      simp
    · rw [ofNames, String.intercalate_append_of_ne_nil (by simp) (by simp)]
      simp
    · rw [← List.cons_append, List.getLast?_concat]

/-- Dropping the blanks around a path drops those at the end of its last name. -/
theorem strip_ofNames (names : List String) (s : String) :
    Text.strip (ofNames (names ++ [s])) = ofNames (names ++ [Text.dropEndBlanks s]) := by
  obtain ⟨cs, hs, ht, hlast⟩ := toList_ofNames_append names s
  rw [← String.toList_inj, ht, Text.strip, String.toList_ofList, hs, Text.trim, List.cons_append,
    List.dropWhile_cons_of_neg (by simp [isBlank_slash]), ← List.cons_append, List.reverse_append,
    List.dropWhile_append, Text.dropEndBlanks, String.toList_ofList]
  have hcs : ('/' :: cs).reverse.dropWhile Text.isBlank = ('/' :: cs).reverse := by
    rw [← List.head?_reverse] at hlast
    cases hr : ('/' :: cs).reverse with
    | nil => rfl
    | cons c rest =>
      rw [hr, List.head?_cons, Option.some.injEq] at hlast
      rw [List.dropWhile_cons_of_neg (by simp [hlast, isBlank_slash])]
  split
  · next he =>
    rw [List.isEmpty_iff] at he
    rw [hcs, he, List.reverse_reverse, List.reverse_nil, List.append_nil]
  · rw [List.reverse_append, List.reverse_reverse]

/-- The pieces of a written path are its names, after the empty one before the first slash. -/
theorem pieces_ofNames {names : List String} (hn : ∀ s ∈ names, '/' ∉ s.toList)
    (hne : names ≠ []) : pieces (ofNames names) = "" :: names := by
  have hs : (ofNames names).toList = '/' :: ['/'].intercalate (names.map String.toList) := by
    simp [ofNames]
  rw [pieces, hs, List.splitOn_cons_eq_if_modifyHead, if_pos (by simp),
    List.splitOn_intercalate '/' (by simpa using hn) (by simpa using hne)]
  simp

theorem exists_toList_ofNames (names : List String) : ∃ cs, (ofNames names).toList = '/' :: cs :=
  ⟨_, by rw [ofNames, String.toList_append]; rfl⟩

theorem ofNames_ne_empty (names : List String) : ofNames names ≠ "" := by
  obtain ⟨cs, hcs⟩ := exists_toList_ofNames names
  intro he
  simp [he] at hcs

theorem isBlankText_ofNames (names : List String) : Text.isBlankText (ofNames names) = false := by
  obtain ⟨cs, hcs⟩ := exists_toList_ofNames names
  simp [Text.isBlankText, hcs, isBlank_slash]

/-- What starts with a slash is a path from the root as it stands, but for the blanks around it. -/
theorem absolute_of_strip {path : String} {names : List String}
    (h : Text.strip path = ofNames names) (home cwd : String) :
    absolute home path cwd = ofNames names := by
  obtain ⟨cs, hcs⟩ := exists_toList_ofNames names
  have h1 : (ofNames names == "~") = false := by
    rw [beq_eq_false_iff_ne, ne_eq, ← String.toList_inj, hcs]
    simp
  have h2 : Text.startsWith (ofNames names) "~/" = false := by
    rw [Text.startsWith, hcs]
    rfl
  have h3 : Text.startsWith (ofNames names) "/" = true := by
    simp [Text.startsWith, hcs]
  simp only [absolute, h, h1, h2, h3, Bool.or_self, Bool.false_eq_true, ↓reduceIte]

/-- A written path leads through its names, the last one without the blanks at its end. -/
theorem route_ofNames (home cwd : String) {names : List String} {s : String}
    (hn : ∀ t ∈ names, '/' ∉ t.toList) (hs : '/' ∉ s.toList) :
    route home (ofNames (names ++ [s])) cwd = "" :: (names ++ [Text.dropEndBlanks s]) := by
  rw [route, isBlankText_ofNames, if_neg (by simp), absolute_of_strip (strip_ofNames names s)]
  refine pieces_ofNames (fun t ht => ?_) (by simp)
  rcases List.mem_append.1 ht with ht | ht
  · exact hn t ht
  · rw [List.mem_singleton.1 ht]
    exact Text.not_mem_dropEndBlanks hs

theorem strip_root : Text.strip (ofNames []) = ofNames [] := by decide

theorem route_root (home cwd : String) : route home (ofNames []) cwd = ["", ""] := by
  rw [route, isBlankText_ofNames, if_neg (by simp), absolute_of_strip strip_root]
  decide

/-! ## Paths of proper names -/

/-- The names that keep their ends when a path is read. -/
def IsPlain (s : String) : Prop := ∀ c ∈ s.toList.getLast?, Text.isBlank c = false

instance (s : String) : Decidable (IsPlain s) :=
  decidable_of_iff (s.toList.getLast?.all fun c => !Text.isBlank c)
    (by simp [IsPlain, Option.all_eq_true])

variable {names names' : List String}

/-- A path that is written from segments falls apart into them. -/
theorem segments_ofNames_of_steps (h : ∀ s ∈ names, s ≠ "" ∧ '/' ∉ s.toList) :
    segments (ofNames names) = names := by
  cases names with
  | nil => decide
  | cons s rest =>
    have hne : ∀ t ∈ s :: rest, (!t.isEmpty) = true := fun t ht => by
      simpa [String.isEmpty_iff] using (h t ht).1
    rw [segments, pieces_ofNames (fun t ht => (h t ht).2) (by simp),
      List.filter_cons_of_neg (by decide)]
    exact List.filter_eq_self.2 hne

theorem segments_ofNames (h : AreNames names) : segments (ofNames names) = names :=
  segments_ofNames_of_steps fun s hs => ⟨(isName_iff.1 (h s hs)).1, h.no_slash s hs⟩

theorem ofNames_injective (h : AreNames names) (h' : AreNames names')
    (he : ofNames names = ofNames names') : names = names' := by
  rw [← segments_ofNames h, he, segments_ofNames h']

theorem strip_ofNames_of_isPlain (h : ∀ s ∈ names.getLast?, IsPlain s) :
    Text.strip (ofNames names) = ofNames names := by
  cases names using List.reverseRecOn with
  | nil => exact strip_root
  | append_singleton names s =>
    have hs : IsPlain s := h s (by simp)
    rw [strip_ofNames, Text.dropEndBlanks_eq_iff.2 hs]

/-! ## Slashes at the end -/

theorem toList_ofNames (hne : names ≠ []) : (ofNames names).toList = Disk.trail names := by
  cases names with
  | nil => exact absurd rfl hne
  | cons s rest =>
    rw [ofNames, String.toList_append, ← List.singleton_append,
      Disk.toList_intercalate_append [s] rest (by simp), Disk.trail_append]
    simp [Disk.trail]

theorem of_mem_segments {path s : String} (h : s ∈ segments path) : s ≠ "" ∧ '/' ∉ s.toList := by
  rw [segments, pieces, List.mem_filter, List.mem_map] at h
  obtain ⟨⟨cs, hcs, rfl⟩, hne⟩ := h
  refine ⟨by simpa using hne, ?_⟩
  rw [String.toList_ofList]
  exact Disk.not_mem_of_mem_splitOn hcs

/-- Without the slashes at its end, a path is a slash and a name for each of its names. -/
theorem toList_dropSlashes_ofNames (h : ∀ s ∈ names, s ≠ "" ∧ '/' ∉ s.toList) :
    (dropSlashes (ofNames names)).toList = Disk.trail names := by
  rw [dropSlashes, String.toList_ofList]
  cases names using List.reverseRecOn with
  | nil => decide
  | append_singleton names s =>
    obtain ⟨hne, hslash⟩ := h s (by simp)
    have hlast : ∃ cs c, s.toList = cs ++ [c] ∧ c ≠ '/' := by
      obtain he | ⟨cs, c, hc⟩ := List.eq_nil_or_concat s.toList
      · exact absurd (String.toList_inj.1 he) hne
      · rw [List.concat_eq_append] at hc
        exact ⟨cs, c, hc, fun he => hslash (by rw [hc, he]; simp)⟩
    obtain ⟨cs, c, hc, hcs⟩ := hlast
    rw [toList_ofNames (by simp), Disk.trail_append]
    simp [Disk.trail, hc, hcs]

/-! ## Readings -/

variable {p q home path cwd : String}

theorem pieces_join (p q : String) : pieces (p ++ "/" ++ q) = pieces p ++ pieces q := by
  have hchars : (p ++ "/" ++ q).toList = p.toList ++ '/' :: q.toList := by simp
  rw [pieces, hchars, List.splitOn_append_cons_self, List.map_append, pieces, pieces]

theorem segments_join (p q : String) : segments (p ++ "/" ++ q) = segments p ++ segments q := by
  rw [segments, pieces_join, List.filter_append, segments, segments]

theorem exists_slashes (p : String) :
    ∃ slashes : String, (∀ c ∈ slashes.toList, c = '/') ∧ p = dropSlashes p ++ slashes := by
  refine ⟨.ofList (p.toList.reverse.takeWhile (· == '/')).reverse, fun c hc => ?_, ?_⟩
  · rw [String.toList_ofList, List.mem_reverse] at hc
    simpa using List.mem_takeWhile_imp hc
  · rw [dropSlashes, ← String.ofList_append, ← List.reverse_append,
      List.takeWhile_append_dropWhile, List.reverse_reverse, String.ofList_toList]

/-- Slashes at the end separate nothing. -/
theorem segments_append_slashes {slashes : String} (h : ∀ c ∈ slashes.toList, c = '/')
    (p : String) : segments (p ++ slashes) = segments p := by
  have hslashes : ∀ l : List Char, (∀ c ∈ l, c = '/') →
      segments (p ++ .ofList l) = segments p := by
    intro l hl
    induction l using List.reverseRecOn with
    | nil => rw [String.ofList_nil, String.append_empty]
    | append_singleton l c ih =>
      obtain rfl := hl c (by simp)
      have hsplit : p ++ .ofList (l ++ ['/']) = p ++ .ofList l ++ "/" ++ "" := by
        rw [← String.toList_inj]
        simp
      have hnone : segments "" = [] := by decide
      rw [hsplit, segments_join, hnone, List.append_nil]
      exact ih fun c hc => hl c (List.mem_append_left _ hc)
  simpa using hslashes slashes.toList h

theorem segments_dropSlashes (p : String) : segments (dropSlashes p) = segments p := by
  obtain ⟨slashes, hslashes, hp⟩ := exists_slashes p
  conv_rhs => rw [hp]
  exact (segments_append_slashes hslashes _).symm

theorem segments_of_isName {name : String} (h : isName name = true) : segments name = [name] := by
  have hone := segments_ofNames (AreNames.singleton_iff.2 h)
  have hroot : ofNames [name] = "" ++ "/" ++ name := by simp [ofNames]
  have hnone : segments "" = [] := by decide
  rwa [hroot, segments_join, hnone, List.nil_append] at hone

/-- A path without the blanks around it, and with its tilde expanded. -/
def expanded (home path : String) : String :=
  let path := Text.strip path
  if path == "~" || Text.startsWith path "~/" then home ++ Text.dropChars path 1 else path

theorem absolute_eq (home path cwd : String) : absolute home path cwd =
    if Text.startsWith (expanded home path) "/" then expanded home path
    else child (if cwd.isEmpty then "/" else cwd) (expanded home path) := rfl

/-- A path that does not start at the root leads on from the directory that it is seen from. -/
theorem segments_absolute (home path cwd : String) : segments (absolute home path cwd) =
    (if Text.startsWith (expanded home path) "/" then [] else segments cwd) ++
      segments (expanded home path) := by
  have hroot : segments "/" = [] := by decide
  rw [absolute_eq]
  by_cases hs : Text.startsWith (expanded home path) "/" = true
  · rw [if_pos hs, if_pos hs, List.nil_append]
  · rw [if_neg hs, if_neg hs, child, segments_join, segments_dropSlashes]
    by_cases hc : cwd.isEmpty = true
    · have hnone : segments "" = [] := by decide
      rw [if_pos hc, String.isEmpty_iff.1 hc, hroot, hnone]
    · rw [if_neg hc]

/-- Two readings of a path lead through the same segments exactly when it starts at the root or the
directories do. -/
theorem segments_absolute_eq_iff {dir : String} :
    segments (absolute home path cwd) = segments (absolute home path dir) ↔
      Text.startsWith (expanded home path) "/" = true ∨ segments cwd = segments dir := by
  rw [segments_absolute, segments_absolute, List.append_cancel_right_eq]
  split
  · next hs => simp [hs]
  · next hs => simp [hs]

end Path

end Workbench
