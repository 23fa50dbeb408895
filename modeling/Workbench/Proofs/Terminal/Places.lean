import Workbench.Proofs.Git.Paths
import Workbench.Proofs.Text
import Workbench.Proofs.World.Plain
import Workbench.Proofs.World.Relocated
import Workbench.Terminal.Basic

/-!
# Working directories

A working directory is kept as a text, while the directories that it names come and go. Where all
names are plain, a text that was written from names names the same place for as long as there is
something, so that the terminal settles on it, or on the nearest directory above
(`Workspace.settle_ofNames`).

A path seen from a directory leads through the pieces of its words one after another, so that two
steps of the way can be taken at once (`Workspace.resolve?_below`, `Workspace.resolve?_join`).
-/

namespace Workbench

open Workbench.Path (AreNames ArePlain)

namespace Path

variable {path p q home cwd : String} {names : List String}

/-- A path that is written from plain names. -/
def IsSpelled (path : String) : Prop :=
  ∃ names, AreNames names ∧ ArePlain names ∧ path = ofNames names

theorem isBlank_of_mem_slash : ∀ c ∈ "/".toList, Text.isBlank c = false := by
  intro c hc
  obtain rfl : c = '/' := by simpa using hc
  exact isBlank_slash

/-- The pieces of a text without blanks are plain. -/
theorem arePlain_pieces (h : ∀ c ∈ path.toList, Text.isBlank c = false) :
    ArePlain (pieces path) := by
  intro s hs c hc
  obtain ⟨cs, hcs, rfl⟩ := List.mem_map.1 hs
  rw [List.splitOn_eq_splitOnP] at hcs
  rw [String.toList_ofList] at hc
  exact h c (Text.of_mem_splitOnP hcs c (List.mem_of_getLast? hc)).2

theorem arePlain_segments (h : ∀ c ∈ path.toList, Text.isBlank c = false) :
    ArePlain (segments path) :=
  fun s hs => arePlain_pieces h s (List.mem_filter.1 hs).1

/-- The paths that are read from the working directory. -/
structure IsRelative (path : String) : Prop where
  not_root : Text.startsWith path "/" = false
  not_home : (path == "~" || Text.startsWith path "~/") = false

instance (path : String) : Decidable (IsRelative path) :=
  decidable_of_iff (Text.startsWith path "/" = false ∧
      (path == "~" || Text.startsWith path "~/") = false)
    ⟨fun h => ⟨h.1, h.2⟩, fun h => ⟨h.not_root, h.not_home⟩⟩

/-- The first step of a relative path is one. -/
theorem IsRelative.exists_pieces (h : IsRelative path) (ht : Text.IsToken path) :
    ∃ s rest, pieces path = s :: rest ∧ s ≠ "" := by
  obtain ⟨c, cs, hcs⟩ := ht.exists_cons
  have hslash : c ≠ '/' := by
    rintro rfl
    have := h.not_root
    rw [Text.startsWith, hcs] at this
    simp at this
  cases hs : cs.splitOn '/' with
  | nil => exact absurd hs (List.splitOn_ne_nil '/' cs)
  | cons d ds =>
    refine ⟨.ofList (c :: d), ds.map .ofList, ?_, ?_⟩
    · rw [pieces, hcs, List.splitOn_cons_eq_if_modifyHead, if_neg (by simpa using hslash), hs]
      rfl
    · intro he
      simpa using congrArg String.toList he

theorem absolute_of_relative (h : IsRelative path) (ht : Text.IsToken path) (home : String)
    (hcwd : cwd ≠ "") : absolute home path cwd = dropSlashes cwd ++ "/" ++ path := by
  have hne : cwd.isEmpty = false := by simpa [String.isEmpty_iff] using hcwd
  simp only [absolute, ht.strip, h.not_home, h.not_root, hne, Bool.false_eq_true, ↓reduceIte, child]

/-- The way through two words is that through the first and then that through the second. -/
theorem absolute_join (hp : Text.IsToken p) (hq : ∀ c ∈ q.toList, Text.isBlank c = false)
    (hhome : Text.startsWith home "/" = true) (cwd : String) :
    absolute home (p ++ "/" ++ q) cwd = absolute home p cwd ++ "/" ++ q := by
  obtain ⟨c, cs, hpc⟩ := hp.exists_cons
  obtain ⟨d, ds, hh⟩ : ∃ d ds, home.toList = d :: ds := by
    cases hd : home.toList with
    | nil => simp [Text.startsWith, hd] at hhome
    | cons d ds => exact ⟨d, ds, rfl⟩
  have hd : '/' = d := by simpa [Text.startsWith, hh] using hhome
  have hroot : Text.startsWith (p ++ "/" ++ q) "/" = Text.startsWith p "/" := by
    simp [Text.startsWith, hpc, List.isPrefixOf]
  have htilde : (p ++ "/" ++ q == "~" || Text.startsWith (p ++ "/" ++ q) "~/") =
      (p == "~" || Text.startsWith p "~/") := by
    rw [Bool.eq_iff_iff, Bool.or_eq_true, Bool.or_eq_true, beq_iff_eq, beq_iff_eq,
      ← String.toList_inj, ← String.toList_inj]
    cases cs with
    | nil =>
      have hone : '~' = c ↔ c = '~' := eq_comm
      simp [Text.startsWith, hpc, hone]
    | cons e es => simp [Text.startsWith, hpc]
  have htoken : Text.IsToken (p ++ "/" ++ q) := (hp.append isBlank_of_mem_slash).append hq
  simp only [absolute, hp.strip, htoken.strip, htilde]
  split
  · have hdrop : Text.dropChars (p ++ "/" ++ q) 1 = Text.dropChars p 1 ++ "/" ++ q := by
      rw [← String.toList_inj]
      simp [Text.dropChars, hpc]
    have hstart : ∀ t : String, Text.startsWith (home ++ t) "/" = true := by
      intro t
      simp [Text.startsWith, hh, ← hd]
    rw [hdrop, hstart, if_pos rfl, hstart, if_pos rfl, ← String.append_assoc, ← String.append_assoc]
  · rw [hroot]
    split
    · rfl
    · simp only [child, String.append_assoc]

end Path

/-! ## Settling -/

theorem exists_find?_range {P : Nat → Bool} {n : Nat} (hn : 0 < n) (h : P 0 = true) :
    ∃ k < n, (List.range n).reverse.find? P = some k ∧ P k = true ∧
      ∀ j < n, P j = true → j ≤ k := by
  induction n with
  | zero => omega
  | succ n ih =>
    rw [List.range_succ, List.reverse_append, List.reverse_singleton, List.singleton_append]
    by_cases hp : P n = true
    · exact ⟨n, Nat.lt_succ_self n, List.find?_cons_of_pos hp, hp, fun j hj _ => by omega⟩
    · have hpos : 0 < n := by
        rcases Nat.eq_zero_or_pos n with rfl | hpos
        · exact absurd h hp
        · exact hpos
      obtain ⟨k, hk, hfind, hpk, hmax⟩ := ih hpos
      refine ⟨k, by omega, (List.find?_cons_of_neg hp).trans hfind, hpk, fun j hj hpj => ?_⟩
      by_cases hjn : j = n
      · exact absurd (hjn ▸ hpj) hp
      · exact hmax j (by omega) hpj

namespace Workspace

variable {s : Workspace} {names q : List String} {n : Node} {cwd p t : String}

theorem isSome_directoryAt_iff (h : s.arena.IsTree) (hq : AreNames q) (hp : ArePlain q)
    (cwd : String) : ((s.resolve? (Path.ofNames q) cwd).filter Node.isDirectory).isSome = true ↔
      s.arena.Shows q none := by
  rw [Option.isSome_iff_exists]
  constructor
  · rintro ⟨n, hn⟩
    obtain ⟨hn, hd⟩ := Option.filter_eq_some_iff.1 hn
    obtain ⟨hl, hget⟩ := (resolve?_ofNames h hq hp.getLast? cwd).1 hn
    exact ⟨n.id, n, hl, hget, Node.shown_eq_none_iff.2 (Node.isDirectory_iff.1 hd)⟩
  · rintro ⟨id, n, hl, hget, hshown⟩
    obtain rfl := h.keyed hget
    refine ⟨n, Option.filter_eq_some_iff.2 ⟨?_, ?_⟩⟩
    · exact (resolve?_ofNames h hq hp.getLast? cwd).2 ⟨hl, hget⟩
    · exact Node.isDirectory_iff.2 (Node.shown_eq_none_iff.1 hshown)

theorem shorterPaths_ofNames (hn : AreNames names) : shorterPaths (Path.ofNames names) =
    (List.range names.length).reverse.map fun k => Path.ofNames (names.take k) := by
  rw [shorterPaths, Path.segments_ofNames hn]

/-- A terminal settles on the longest part of its working directory that is a directory. -/
theorem settle_ofNames (h : s.arena.IsTree) (hn : AreNames names) (hp : ArePlain names) :
    ∃ k ≤ names.length, s.settle (Path.ofNames names) = Path.ofNames (names.take k) ∧
      s.arena.Shows (names.take k) none ∧
      ∀ j ≤ names.length, s.arena.Shows (names.take j) none → j ≤ k := by
  have htake : ∀ k, AreNames (names.take k) ∧ ArePlain (names.take k) := by
    intro k
    exact ⟨fun s hs => hn s (List.mem_of_mem_take hs), fun s hs => hp s (List.mem_of_mem_take hs)⟩
  unfold settle
  split
  · next n hdir =>
    refine ⟨names.length, Nat.le_refl _, ?_, ?_, fun j hj _ => hj⟩
    · rw [List.take_length]
      obtain ⟨hres, -⟩ := Option.filter_eq_some_iff.1 hdir
      obtain ⟨hl, hget⟩ := (resolve?_ofNames h hn hp.getLast? "/").1 hres
      exact (pathOf_eq_iff h hget hn).2 hl
    · rw [List.take_length, ← isSome_directoryAt_iff h hn hp "/", hdir]
      rfl
  · next hnone =>
    have hnot : ¬ s.arena.Shows names none := by
      rw [← isSome_directoryAt_iff h hn hp "/", hnone]
      simp
    have hroot : s.arena.Shows [] none := h.shape.root
    have hpos : 0 < names.length := by
      rw [List.length_pos_iff]
      rintro rfl
      exact hnot hroot
    rw [shorterPaths_ofNames hn, List.find?_map]
    have hiff : ∀ k, ((fun p => ((s.resolve? p "/").filter Node.isDirectory).isSome) ∘
        fun k => Path.ofNames (names.take k)) k = true ↔ s.arena.Shows (names.take k) none :=
      fun k => isSome_directoryAt_iff h (htake k).1 (htake k).2 "/"
    obtain ⟨k, hk, hfind, hshows, hmax⟩ := exists_find?_range hpos ((hiff 0).2 hroot)
    refine ⟨k, Nat.le_of_lt hk, ?_, (hiff k).1 hshows, fun j hj hs => ?_⟩
    · rw [hfind]
      rfl
    · refine hmax j (Nat.lt_of_le_of_ne hj ?_) ((hiff j).2 hs)
      rintro rfl
      rw [List.take_length] at hs
      exact hnot hs

theorem settle_of_shows (h : s.arena.IsTree) (hn : AreNames names) (hp : ArePlain names)
    (hs : s.arena.Shows names none) : s.settle (Path.ofNames names) = Path.ofNames names := by
  obtain ⟨k, hk, he, -, hmax⟩ := settle_ofNames h hn hp
  have hlen : names.length ≤ k := hmax names.length (Nat.le_refl _) (by rwa [List.take_length])
  rw [he, List.take_of_length_le hlen]

theorem isSpelled_settle (h : s.arena.IsTree) (hc : Path.IsSpelled cwd) :
    Path.IsSpelled (s.settle cwd) := by
  obtain ⟨names, hn, hp, rfl⟩ := hc
  obtain ⟨k, -, he, -⟩ := settle_ofNames h hn hp
  refine ⟨names.take k, fun s hs => ?_, fun s hs => ?_, he⟩
  · exact hn s (List.mem_of_mem_take hs)
  · exact hp s (List.mem_of_mem_take hs)

/-! ## Paths seen from a directory -/

theorem resolve?_of_token (ht : Text.IsToken t) (cwd : String) :
    s.resolve? t cwd = (s.arena.get? rootId).bind (s.arena.follow?
      (Path.pieces (Path.absolute s.home t (Path.absolute s.home cwd "/")))) := by
  rw [resolve?, Arena.resolve?, Path.route, ht.isBlankText, if_neg Bool.false_ne_true]

/-- Seen from a directory, a relative path leads on from there. -/
theorem resolve?_below (h : s.arena.IsTree) (hq : AreNames q) (hplain : ArePlain q)
    (hn : s.arena.get? n.id = some n) (hl : s.arena.Leads n.id q) (ht : Text.IsToken t)
    (hr : Path.IsRelative t) :
    s.resolve? t (Path.ofNames q) = s.arena.follow? (Path.pieces t) n := by
  obtain ⟨r, hroot, -⟩ := h.root
  have hcwd : Path.absolute s.home (Path.ofNames q) "/" = Path.ofNames q :=
    Path.absolute_of_strip (Path.strip_ofNames_of_isPlain hplain.getLast?) _ _
  have hway : s.arena.follow? (Path.pieces (Path.dropSlashes (Path.ofNames q))) r = some n := by
    have hsteps : ∀ x ∈ q, x ≠ "" ∧ '/' ∉ x.toList := fun x hx =>
      ⟨(Path.isName_iff.1 (hq x hx)).1, hq.no_slash x hx⟩
    have hchars := Path.toList_dropSlashes_ofNames hsteps
    by_cases hnil : q = []
    · subst hnil
      obtain rfl : n = r := by
        rw [h.leads_injective hl .root] at hn
        exact Option.some.inj (hn.symm.trans hroot)
      rfl
    · rw [← Path.toList_ofNames hnil, String.toList_inj] at hchars
      have hstart : s.arena.follow? ("" :: q) r = s.arena.follow? q r := rfl
      rw [hchars, Path.pieces_ofNames hq.no_slash hnil, hstart]
      exact h.follow?_leads hl hroot hn
  rw [resolve?_of_token ht, hroot, Option.bind_some, hcwd,
    Path.absolute_of_relative hr ht s.home (Path.ofNames_ne_empty q), Path.pieces_join,
    Arena.follow?_append, hway, Option.bind_some]

/-- Two steps of a way taken at once. -/
theorem resolve?_join (hhome : Text.startsWith s.home "/" = true) (hp : Text.IsToken p)
    (ht : Text.IsToken t) (cwd : String) : s.resolve? (p ++ "/" ++ t) cwd =
      (s.resolve? p cwd).bind (s.arena.follow? (Path.pieces t)) := by
  have htoken : Text.IsToken (p ++ "/" ++ t) :=
    (hp.append Path.isBlank_of_mem_slash).append ht.solid
  rw [resolve?_of_token htoken, resolve?_of_token hp, Path.absolute_join hp ht.solid hhome,
    Path.pieces_join, Option.bind_assoc]
  cases s.arena.get? rootId with
  | none => rw [Option.bind_none, Option.bind_none]
  | some r => rw [Option.bind_some, Option.bind_some, Arena.follow?_append]

/-- Nothing lies below a file. -/
theorem follow?_file (hn : n.isDirectory = false) (ht : Text.IsToken t) (hr : Path.IsRelative t) :
    s.arena.follow? (Path.pieces t) n = none := by
  obtain ⟨x, rest, hpieces, hx⟩ := hr.exists_pieces ht
  rw [hpieces, Arena.follow?, if_neg (by simpa [String.isEmpty_iff] using hx),
    if_pos (by simp [hn])]

end Workspace

end Workbench
