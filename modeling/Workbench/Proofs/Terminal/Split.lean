import Workbench.Proofs.Terminal.Places
import Workbench.Proofs.World.Ensured

/-!
# Words taken apart

A command that makes something takes its word apart as a text: into the directory above and the
last name, without the slashes after it. Looking the word up goes along its segments instead. The
two agree (`Workspace.exists_way_of_splitPath`) but for the tilde on its own, which is a name in the
working directory for the one and the home directory for the other.
-/

namespace Workbench

open Text (IsToken)

namespace Path

variable {home path parent name cwd : String}

/-- The segments that a word leads through when it is looked up from a working directory. -/
def way (home path cwd : String) : List String :=
  segments (absolute home path (absolute home cwd "/"))

/-- Where they lead by their texts alone. -/
def place (home path cwd : String) : List String :=
  (way home path cwd).foldl onward []

theorem ne_empty_of_mem_way {s : String} (h : s ∈ way home path cwd) : s ≠ "" :=
  (of_mem_segments h).1

/-- The pieces of a path put together again. -/
theorem intercalate_pieces (p : String) : "/".intercalate (pieces p) = p := by
  rw [← String.toList_inj, String.toList_intercalate, pieces, List.map_map]
  have hid : String.toList ∘ String.ofList = id := funext fun cs => String.toList_ofList
  rw [hid, List.map_id]
  exact List.intercalate_splitOn '/'

end Path

namespace Arguments

variable {path parent name : String}

open Workbench.Path (dropSlashes pieces)

/-- The ways in which a path with a proper last name falls apart. -/
theorem splitPath_cases (h : splitPath path = (parent, name)) (hn : Path.isName name = true) :
    (parent = "." ∧ dropSlashes path = name) ∨
      (parent = "/" ∧ dropSlashes path = "/" ++ name) ∨
      parent ≠ "" ∧ dropSlashes path = parent ++ "/" ++ name := by
  unfold splitPath at h
  dsimp only at h
  generalize htext : (if (dropSlashes path).isEmpty then path else dropSlashes path) = text at h
  have hcases : (parent = "." ∧ text = name) ∨ (parent = "/" ∧ text = "/" ++ name) ∨
      parent ≠ "" ∧ text = parent ++ "/" ++ name := by
    split at h
    · obtain ⟨rfl, rfl⟩ := Prod.mk.inj h
      exact .inl ⟨rfl, rfl⟩
    · obtain ⟨rfl, rfl⟩ := Prod.mk.inj h
      exact .inl ⟨rfl, rfl⟩
    · next last above hmore hpieces =>
      obtain ⟨hparent, rfl⟩ := Prod.mk.inj h
      have habove : above.reverse ≠ [] := fun he => hmore (List.reverse_eq_nil_iff.1 he)
      have hwhole : text = "/".intercalate above.reverse ++ "/" ++ last := by
        rw [← Path.intercalate_pieces text, ← List.reverse_reverse (pieces text), hpieces,
          List.reverse_cons, String.intercalate_append_of_ne_nil habove (by simp)]
        simp
      by_cases hempty : "/".intercalate above.reverse = ""
      · rw [hempty] at hparent hwhole
        exact .inr (.inl ⟨hparent.symm, hwhole⟩)
      · rw [if_neg (by simpa [String.isEmpty_iff] using hempty)] at hparent
        exact .inr (.inr ⟨hparent ▸ hempty, hparent ▸ hwhole⟩)
  by_cases he : dropSlashes path = ""
  · -- there are only slashes, and no name among them
    have hsegments : ∀ above : String, Path.segments (above ++ "/" ++ name) ≠ [] := by
      intro above
      rw [Path.segments_join, Path.segments_of_isName hn]
      simp
    have hnone : Path.segments text = [] := by
      rw [← htext, he, if_pos (by decide), ← Path.segments_dropSlashes, he]
      decide
    exfalso
    rcases hcases with ⟨-, rfl⟩ | ⟨-, rfl⟩ | ⟨-, rfl⟩
    · rw [Path.segments_of_isName hn] at hnone
      cases hnone
    · exact hsegments "" hnone
    · exact hsegments parent hnone
  · rw [if_neg (by simpa [String.isEmpty_iff] using he)] at htext
    rwa [htext]

theorem splitPath_of_tilde (htilde : dropSlashes path = "~") : splitPath path = (".", "~") := by
  have hone : (pieces "~").reverse = ["~"] := by decide
  have hfull : "~".isEmpty = false := by decide
  simp only [splitPath, htilde, hfull, hone, Bool.false_eq_true, ↓reduceIte]

theorem isToken_splitPath (hp : IsToken path) (h : splitPath path = (parent, name))
    (hn : Path.isName name = true) : IsToken parent := by
  obtain ⟨slashes, -, hwhole⟩ := Path.exists_slashes path
  rcases splitPath_cases h hn with ⟨rfl, -⟩ | ⟨rfl, -⟩ | ⟨hne, htext⟩
  · decide
  · decide
  · refine ⟨hne, fun c hc => hp.solid c ?_⟩
    rw [hwhole, htext]
    simp [hc]

end Arguments

namespace Path

variable {home path parent name cwd slashes : String}

theorem expanded_of_not_home (hstrip : Text.strip path = path)
    (h : (path == "~" || Text.startsWith path "~/") = false) : expanded home path = path := by
  simp only [expanded, hstrip, h, Bool.false_eq_true, ↓reduceIte]

theorem segments_absolute_of_relative (hstrip : Text.strip path = path) (h : IsRelative path) :
    segments (absolute home path cwd) = segments cwd ++ segments path := by
  rw [segments_absolute, expanded_of_not_home hstrip h.not_home, h.not_root, if_neg (by decide)]

theorem segments_absolute_of_rooted (hp : IsToken path) (h : Text.startsWith path "/" = true) :
    segments (absolute home path cwd) = segments path := by
  obtain ⟨c, cs, hcs⟩ := hp.exists_cons
  have hc : c = '/' := by
    rw [Text.startsWith, hcs, List.isPrefixOf_iff_prefix] at h
    exact (List.cons_prefix_cons.1 (show '/' :: [] <+: c :: cs from h)).1.symm
  have hhome : (path == "~" || Text.startsWith path "~/") = false := by
    rw [Bool.or_eq_false_iff, beq_eq_false_iff_ne]
    refine ⟨?_, ?_⟩
    · rintro rfl
      exact absurd h (by decide)
    · rw [Text.startsWith, hcs, hc]
      rfl
  rw [segments_absolute, expanded_of_not_home hp.strip hhome, if_pos h, List.nil_append]

/-- A name with slashes after it is relative, unless it is the tilde. -/
theorem isRelative_of_dropSlashes (hn : isName (dropSlashes path) = true)
    (htilde : dropSlashes path ≠ "~") : IsRelative path := by
  obtain ⟨slashes, hslashes, hwhole⟩ := exists_slashes path
  obtain ⟨hne, -, -, hslash⟩ := isName_iff.1 hn
  obtain ⟨c, cs, hcs⟩ : ∃ c cs, (dropSlashes path).toList = c :: cs :=
    List.exists_cons_of_ne_nil fun he => hne (String.toList_inj.1 he)
  have hc : c ≠ '/' := fun he => hslash (by simp [hcs, he])
  have hchars : path.toList = c :: (cs ++ slashes.toList) := by
    conv_lhs => rw [hwhole, String.toList_append, hcs, List.cons_append]
  constructor
  · simp [Text.startsWith, hchars, List.isPrefixOf, hc.symm]
  · rw [Bool.or_eq_false_iff]
    constructor
    · rw [beq_eq_false_iff_ne]
      rintro rfl
      exact htilde (by decide)
    · rw [Text.startsWith, Bool.eq_false_iff, ne_eq, List.isPrefixOf_iff_prefix, hchars]
      intro hpre
      obtain ⟨rfl, hrest⟩ := List.cons_prefix_cons.1 (show '~' :: ['/'] <+: _ from hpre)
      cases cs with
      | nil => exact htilde (String.toList_inj.1 hcs)
      | cons d ds =>
        obtain ⟨rfl, -⟩ := List.cons_prefix_cons.1 hrest
        exact hslash (by simp [hcs])

theorem dropSlashes_of_isName (hn : isName name = true) : dropSlashes name = name := by
  obtain ⟨slashes, hslashes, hwhole⟩ := exists_slashes name
  obtain ⟨-, -, -, hslash⟩ := isName_iff.1 hn
  have hnone : slashes = "" := by
    by_contra hne
    obtain ⟨c, cs, hcs⟩ : ∃ c cs, slashes.toList = c :: cs :=
      List.exists_cons_of_ne_nil fun he => hne (String.toList_inj.1 he)
    obtain rfl := hslashes c (by simp [hcs])
    exact hslash (by rw [hwhole]; simp [hcs])
  rw [hnone, String.append_empty] at hwhole
  exact hwhole.symm

/-- The tilde on its own, with or without slashes after it, is looked up along the home
directory. -/
theorem way_of_tilde (hp : IsToken path) (hhome : Text.startsWith home "/" = true)
    (htilde : dropSlashes path = "~") (cwd : String) : way home path cwd = segments home := by
  obtain ⟨slashes, hslashes, hwhole⟩ := exists_slashes path
  rw [htilde] at hwhole
  have hstart : (path == "~" || Text.startsWith path "~/") = true := by
    rw [hwhole, Bool.or_eq_true, beq_iff_eq, ← String.toList_inj]
    cases hs : slashes.toList with
    | nil => exact .inl (by simp [hs])
    | cons c cs =>
      obtain rfl := hslashes c (by simp [hs])
      exact .inr (by simp [Text.startsWith, hs])
  have hdrop : Text.dropChars path 1 = slashes := by
    rw [hwhole, ← String.toList_inj]
    simp [Text.dropChars]
  have hexpanded : expanded home path = home ++ slashes := by
    simp only [expanded, hp.strip, hstart, hdrop, ↓reduceIte]
  have hrooted : Text.startsWith (home ++ slashes) "/" = true := by
    rw [Text.startsWith, List.isPrefixOf_iff_prefix] at hhome ⊢
    rw [String.toList_append]
    exact hhome.trans (List.prefix_append _ _)
  rw [way, segments_absolute, hexpanded, if_pos hrooted, List.nil_append,
    segments_append_slashes hslashes]

/-- The way of a word is that of the directory it is split into and then the name, but for a dot. -/
theorem exists_way_eq (hp : IsToken path) (hhome : Text.startsWith home "/" = true)
    (h : Arguments.splitPath path = (parent, name)) (hn : isName name = true)
    (htilde : dropSlashes path ≠ "~") (cwd : String) :
    ∃ above, way home path cwd = above ++ [name] ∧
      (way home parent cwd = above ∨ way home parent cwd = above ++ ["."]) := by
  obtain ⟨slashes, hslashes, hwhole⟩ := exists_slashes path
  have hlast : segments (name ++ slashes) = [name] := by
    rw [segments_append_slashes hslashes, segments_of_isName hn]
  rcases Arguments.splitPath_cases h hn with ⟨rfl, rfl⟩ | ⟨rfl, htext⟩ | ⟨hne, htext⟩
  · refine ⟨segments (absolute home cwd "/"), ?_, .inr ?_⟩
    · rw [way, segments_absolute_of_relative hp.strip (isRelative_of_dropSlashes hn htilde)]
      conv_lhs => rw [hwhole, hlast]
    · have hdot : segments "." = ["."] := by decide
      have hrel : IsRelative "." := ⟨by decide, by decide⟩
      rw [way, segments_absolute_of_relative (by decide) hrel, hdot]
  · refine ⟨[], ?_, .inl ?_⟩
    · have hpath : path = "" ++ "/" ++ (name ++ slashes) := by
        rw [String.empty_append, ← String.append_assoc, ← htext, ← hwhole]
      have hroot : Text.startsWith path "/" = true := by
        rw [hpath]
        simp [Text.startsWith]
      have hnone : segments "" = [] := by decide
      rw [way, segments_absolute_of_rooted hp hroot, hpath, segments_join, hlast, hnone]
    · rw [way, segments_absolute_of_rooted (by decide) (by decide)]
      decide
  · refine ⟨way home parent cwd, ?_, .inl rfl⟩
    have hparent := Arguments.isToken_splitPath hp h hn
    have hsolid : ∀ c ∈ (name ++ slashes).toList, Text.isBlank c = false := by
      intro c hc
      refine hp.solid c ?_
      rw [hwhole, htext]
      rw [String.toList_append, List.mem_append] at hc
      simp [hc]
    have hpath : path = parent ++ "/" ++ (name ++ slashes) := by
      rw [← String.append_assoc, ← htext, ← hwhole]
    rw [way, hpath, absolute_join hparent hsolid hhome, segments_join, hlast, way]

end Path

namespace Workspace

variable {s : Workspace} {n d : Node} {path parent name cwd : String}

/-- What a word finds lies where its way leads. -/
theorem resolve?_eq_some_iff (h : s.arena.IsTree) (hp : IsToken path) :
    s.resolve? path cwd = some n ↔ ∃ q, s.arena.Shows.Passes [] (Path.way s.home path cwd) q ∧
      s.arena.Leads n.id q ∧ s.node? n.id = some n := by
  obtain ⟨r, hr, -⟩ := h.root
  rw [resolve?_of_token hp, hr, Option.bind_some, h.follow?_eq_some_iff hr .root]
  exact exists_congr fun q => and_congr_left' Shape.Passes.filter_iff.symm

/-- The directory that a word is split into lies at the end of the way above the last name. -/
theorem exists_way_of_splitPath (h : s.arena.IsTree) (hp : IsToken path)
    (hhome : Text.startsWith s.home "/" = true)
    (hsplit : Arguments.splitPath path = (parent, name)) (hn : Path.isName name = true)
    (htilde : Path.dropSlashes path ≠ "~")
    (hd : (s.resolve? parent cwd).filter Node.isDirectory = some d) :
    ∃ above q, Path.way s.home path cwd = above ++ [name] ∧ s.arena.Shows.Passes [] above q ∧
      s.arena.Leads d.id q ∧ s.node? d.id = some d ∧ d.kind = .directory := by
  obtain ⟨hd, hk⟩ := Option.filter_eq_some_iff.1 hd
  have hparent := Arguments.isToken_splitPath hp hsplit hn
  obtain ⟨q, hpass, hl, hget⟩ := (resolve?_eq_some_iff h hparent).1 hd
  obtain ⟨above, hway, habove | habove⟩ := Path.exists_way_eq hp hhome hsplit hn htilde cwd
  · exact ⟨above, q, hway, habove ▸ hpass, hl, hget, Node.isDirectory_iff.1 hk⟩
  · rw [habove] at hpass
    obtain ⟨v, hv, hdot⟩ := Shape.Passes.append_iff.1 hpass
    have hq : v = q := by
      generalize hs : "." = s at hdot
      cases hdot with
      | skip => exact absurd hs (by decide)
      | step _ _ hrest =>
        rw [← hs, Path.onward_dot] at hrest
        cases hrest
        rfl
    exact ⟨above, v, hway, hv, hq ▸ hl, hget, Node.isDirectory_iff.1 hk⟩

end Workspace

end Workbench
