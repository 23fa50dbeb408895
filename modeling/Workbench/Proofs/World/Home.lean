import Mathlib.Data.List.Infix
import Workbench.Proofs.World.Ensured
import Workbench.Proofs.World.Plain
import Workbench.Proofs.World.Settled

/-!
# The home directory

The tilde leads through the steps of the home directory as they are written
(`Workspace.found_tilde_iff`). The directories of a home directory are created along the same steps,
but for the blanks at the end of the last one, and no further than to a file. So in a workspace of
plain names the tilde leads to a directory afterwards exactly when no file is on the way, and a
blank at the end of the path does no harm (`World.Plain.home_found_iff`).

What the demo tree shows is read off its plants (`Seed.shows_demoWorld`), and so is where its files
lie.
-/

namespace Workbench

open Workbench.Path (AreNames)

namespace Path

variable {steps : List String} {q : List String}

/-- The places that steps lead through from the root, by their texts alone. -/
def stations (steps : List String) : List (List String) :=
  steps.inits.map fun above => above.foldl onward []

theorem mem_stations :
    q ∈ stations steps ↔ ∃ above, above <+: steps ∧ above.foldl onward [] = q := by
  simp only [stations, List.mem_map, List.mem_inits]

/-- Only a name leads to a place below. -/
theorem eq_of_onward {s t : String} (h : onward q s = q ++ [t]) : s = t := by
  unfold onward at h
  split at h
  · simp at h
  · split at h
    · have hlen := congrArg List.length h
      simp only [List.length_dropLast, List.length_append, List.length_singleton] at hlen
      omega
    · simpa using h

/-- The tilde alone leads through the pieces of the home directory. -/
theorem route_tilde {home : String} (h : Text.startsWith home "/" = true) (cwd : String) :
    route home "~" cwd = pieces home := by
  have hblank : Text.isBlankText "~" = false := by decide
  have hstrip : Text.strip "~" = "~" := by decide
  have hdrop : Text.dropChars "~" 1 = "" := by decide
  have hexpanded : expanded home "~" = home := by
    rw [expanded]
    simp only [hstrip, beq_self_eq_true, Bool.true_or, ↓reduceIte, hdrop, String.append_empty]
  rw [route, hblank, if_neg Bool.false_ne_true, absolute_eq, hexpanded, if_pos h]

theorem rooted_of_ofNames {home : String} (h : ofNames (segments home) = home) :
    Text.startsWith home "/" = true := by
  obtain ⟨cs, hcs⟩ := exists_toList_ofNames (segments home)
  rw [h] at hcs
  simp [Text.startsWith, hcs]

end Path

/-- The tilde leads to a directory where the steps of the home directory do. -/
theorem Workspace.found_tilde_iff {s : Workspace} (h : s.arena.IsTree)
    (hroot : Text.startsWith s.home "/" = true) (cwd : String) :
    (∃ n, s.resolve? "~" cwd = some n ∧ n.kind = .directory) ↔
      ∃ q, s.arena.Shows.Passes [] (Path.segments s.home) q ∧ s.arena.Shows q none := by
  obtain ⟨r, hr, -⟩ := h.root
  simp only [resolve?, Arena.resolve?, hr, Option.bind_some, Path.route_tilde hroot,
    h.follow?_eq_some_iff hr .root, Path.segments, Shape.Passes.filter_iff]
  constructor
  · rintro ⟨n, ⟨q, hp, hl, hn⟩, hk⟩
    exact ⟨q, hp, n.id, n, hl, hn, Node.shown_eq_none_iff.2 hk⟩
  · rintro ⟨q, hp, id, n, hl, hn, hshown⟩
    obtain rfl := h.keyed hn
    exact ⟨n, ⟨q, hp, hl, hn⟩, Node.shown_eq_none_iff.1 hshown⟩

namespace Shape

/-- A home directory that a shape has room for: there is no file on its way, and if its path ends
with a blank, an earlier part of the path leads to the same place. -/
structure Welcomes (S : Shape) (home : String) : Prop where
  clear : ∀ q ∈ Path.stations (Path.segments home), ∀ text, ¬ S q (some text)
  whole : (∀ t ∈ (Path.segments home).getLast?, Path.IsPlain t) ∨
    (Path.segments home).foldl Path.onward [] ∈ Path.stations (Path.segments home).dropLast

end Shape

/-! ## Creating it and finding it -/

namespace World.Plain

/-- The steps along which the directories of the home directory are created. -/
def homeSteps (home : String) : List String := Path.segments (Path.absolute home home "/")

theorem ne_of_mem_homeSteps {home s : String} (hs : s ∈ homeSteps home) : s ≠ "" := by
  rw [homeSteps] at hs
  exact (Path.of_mem_segments hs).1

variable {σ : Type} {home : String} {w w' : World σ} {q : List String}
  (hhome : Path.ofNames (Path.segments home) = home)

include hhome

theorem homeSteps_of_plain (hplain : ∀ t ∈ (Path.segments home).getLast?, Path.IsPlain t) :
    homeSteps home = Path.segments home := by
  have hstrip := Path.strip_ofNames_of_isPlain hplain
  rw [hhome] at hstrip
  rw [homeSteps, Path.absolute_of_strip (hstrip.trans hhome.symm), hhome]

/-- Of the last step the blanks at the end are lost. -/
theorem homeSteps_of_concat {init : List String} {last : String}
    (hs : Path.segments home = init ++ [last]) :
    homeSteps home = init ++ [Text.dropEndBlanks last].filter fun s => !s.isEmpty := by
  have hmem : ∀ s ∈ init ++ [last], s ≠ "" ∧ '/' ∉ s.toList := fun s h =>
    Path.of_mem_segments (hs ▸ h)
  obtain ⟨hinit, hlast⟩ := List.forall_mem_append.1 hmem
  have hstrip := Path.strip_ofNames init last
  rw [← hs, hhome] at hstrip
  have hslash : ∀ s ∈ init ++ [Text.dropEndBlanks last], '/' ∉ s.toList :=
    List.forall_mem_append.2 ⟨fun s h => (hinit s h).2,
      List.forall_mem_singleton.2 (Text.not_mem_dropEndBlanks (hlast last (by simp)).2)⟩
  rw [homeSteps, Path.absolute_of_strip hstrip, Path.segments, Path.pieces_ofNames hslash (by simp),
    List.filter_cons_of_neg (by decide), List.filter_append, List.filter_eq_self.2]
  intro s h
  simpa [String.isEmpty_iff] using (hinit s h).1

theorem ensureDirectories_home (hw : w.Plain home) (h : Host σ) :
    w.ensureDirectories h home "/" = w.ensureBelow h (homeSteps home) rootId := by
  have hblank : ¬ Text.isBlankText home = true := by
    rw [← hhome, Path.isBlankText_ofNames]
    exact Bool.false_ne_true
  rw [World.ensureDirectories, if_neg hblank, hw.home, homeSteps]

variable (hw : w.Plain home) {h : Host σ}
  (hd : (w.ensureDirectories h home "/").2 = w')

include hw hd

theorem adds_home : w'.Free ∧ w.space.Extended w'.space ∧
    ∀ {p c}, w'.space.arena.Shows p c → w.space.arena.Shows p c ∨
      c = none ∧ ∃ above, above <+: homeSteps home ∧ above.foldl Path.onward [] = p := by
  obtain ⟨r, hr, hrk, -⟩ := hw.free.sound.tree.root
  subst hd
  rw [ensureDirectories_home hhome hw]
  exact ensureBelow_adds hw.free hr hrk .root (fun s => ne_of_mem_homeSteps) h

/-- Where the home directory is welcome, its steps pass. -/
theorem passes_of_welcomes (hwelcome : w.space.arena.Shows.Welcomes home) :
    ∃ q, w'.space.arena.Shows.Passes [] (Path.segments home) q ∧
        w'.space.arena.Shows q none := by
  obtain ⟨r, hr, hrk, -⟩ := hw.free.sound.tree.root
  have hmem : ∀ s ∈ Path.segments home, s ≠ "" ∧ '/' ∉ s.toList := fun _ => Path.of_mem_segments
  -- directories are created along the first steps, whatever the others are
  have hclear : ∀ {steps rest}, steps <+: Path.segments home → homeSteps home = steps ++ rest →
      w'.space.arena.Shows.Passes [] steps (steps.foldl Path.onward []) ∧
        w'.space.arena.Shows (steps.foldl Path.onward []) none := by
    intro steps rest hsteps he
    rw [← hd, ensureDirectories_home hhome hw, he]
    have hrest : ∀ s ∈ rest, s ≠ "" := fun s hs =>
      ne_of_mem_homeSteps (he ▸ List.mem_append_right _ hs)
    exact passes_of_clear hw.free hr hrk .root (fun s hs => hmem s (hsteps.subset hs)) hrest
      (fun above habove => hwelcome.clear _
        (Path.mem_stations.2 ⟨above, habove.trans hsteps, rfl⟩)) h
  by_cases hplain : ∀ t ∈ (Path.segments home).getLast?, Path.IsPlain t
  · have he := homeSteps_of_plain hhome hplain
    rw [← List.append_nil (Path.segments home)] at he
    exact ⟨_, hclear List.prefix_rfl he⟩
  -- a blank at the end is lost, but another part of the way leads to the place where it would be
  obtain ⟨above, habove, hsame⟩ := Path.mem_stations.1 (hwelcome.whole.resolve_left hplain)
  obtain hs | ⟨init, last, hs⟩ := List.eq_nil_or_concat' (Path.segments home)
  · simp [hs] at hplain
  have he := homeSteps_of_concat hhome hs
  rw [hs, List.dropLast_concat] at habove
  have hinit : init <+: Path.segments home := ⟨[last], hs.symm⟩
  obtain ⟨hp, hq⟩ := hclear hinit he
  obtain ⟨below, rfl⟩ := habove
  rw [List.append_assoc] at he
  obtain ⟨-, hend⟩ := hclear ((List.prefix_append above below).trans hinit) he
  rw [hsame] at hend
  refine ⟨_, ?_, hend⟩
  rw [hs, List.foldl_concat]
  exact Shape.Passes.append_iff.2 ⟨_, hp, .step (hmem last (by simp [hs])).1 hq (.stop _)⟩

/-- Where the steps of the home directory pass, it is welcome. -/
theorem welcomes_of_passes
    (hp : w'.space.arena.Shows.Passes [] (Path.segments home) q)
    (hq : w'.space.arena.Shows q none) : w.space.arena.Shows.Welcomes home := by
  obtain ⟨hf', hext, hback⟩ := adds_home hhome hw hd
  have hne : ∀ {steps}, steps <+: Path.segments home → ∀ s ∈ steps, s ≠ "" := fun hsteps s hs =>
    (Path.of_mem_segments (hsteps.subset hs)).1
  refine ⟨fun r hr text hfile => ?_, ?_⟩
  · -- each place on the way is a directory
    obtain ⟨above, habove, rfl⟩ := Path.mem_stations.1 hr
    obtain ⟨below, he⟩ := habove
    rw [← he] at hp
    obtain ⟨m, hm, hrest⟩ := Shape.Passes.append_iff.1 hp
    obtain rfl := hm.foldl_onward (hne ⟨below, he⟩)
    cases hf'.sound.tree.shape.single (hrest.directory hq) (hext.shows hfile)
  · rw [or_iff_not_imp_left]
    intro hplain
    obtain hs | ⟨init, last, hs⟩ := List.eq_nil_or_concat' (Path.segments home)
    · simp [hs] at hplain
    have hlast : ¬ Path.IsPlain last := by simpa [hs] using hplain
    -- a name that ends with a blank can only lead to a directory that has been created
    have hend : (Path.segments home).foldl Path.onward [] =
        init.foldl Path.onward [] ++ [last] := by
      rw [hs, List.foldl_concat, Path.onward_name]
      · rintro rfl
        exact hlast (by decide)
      · rintro rfl
        exact hlast (by decide)
    rw [← hp.foldl_onward (hne List.prefix_rfl), hend] at hq
    rw [hend, hs, List.dropLast_concat, Path.mem_stations]
    rcases hback hq with hold | ⟨-, above, habove, he⟩
    · exact absurd (hw.names _ _ hold last (by simp)) hlast
    rw [homeSteps_of_concat hhome hs] at habove
    by_cases hblank : Text.dropEndBlanks last = ""
    · refine ⟨above, ?_, he⟩
      simpa [hblank] using habove
    · rw [List.filter_cons_of_pos (by simpa [String.isEmpty_iff] using hblank), List.filter_nil,
        List.prefix_concat_iff] at habove
      obtain rfl | habove := habove
      · rw [List.foldl_concat] at he
        exact absurd (Text.dropEndBlanks_eq_iff.1 (Path.eq_of_onward he)) hlast
      · exact ⟨above, habove, he⟩

/-- When its directories have been created, the tilde leads to a directory exactly when the home
directory is welcome. -/
theorem home_found_iff (cwd : String) :
    (∃ n, w'.space.resolve? "~" cwd = some n ∧ n.kind = .directory) ↔
      w.space.arena.Shows.Welcomes home := by
  obtain ⟨hf', hext, -⟩ := adds_home hhome hw hd
  have hhere : w'.space.home = home := hext.home.trans hw.home
  rw [Workspace.found_tilde_iff hf'.sound.tree (by rw [hhere]; exact Path.rooted_of_ofNames hhome),
    hhere]
  constructor
  · rintro ⟨q, hp, hq⟩
    exact welcomes_of_passes hhome hw hd hp hq
  · exact passes_of_welcomes hhome hw hd

end World.Plain

namespace Seed

variable {s : Workspace} {id : NodeId} {name : String} {names q r : List String}
  {c : Option String}

/-! ## What has grown -/

mutual

/-- What a plant shows below a place. -/
def places (q : List String) : Plant → List (List String × Option String)
  | .file name content _ => [(q ++ [name], some content)]
  | .directory name _ below => (q ++ [name], none) :: allPlaces (q ++ [name]) below

def allPlaces (q : List String) : List Plant → List (List String × Option String)
  | [] => []
  | p :: rest => places q p ++ allPlaces q rest

end

/-- One new node shows one thing more. -/
theorem Fertile.shows_node (h : Fertile s id (name :: names)) (hname : Path.isName name = true)
    (hl : s.arena.Leads id q) (kind : NodeKind) (content : String) (marks : NodeUpdate)
    (now : Timestamp) :
    let n := s.drawnNode kind name id content now
    let s' := (s.added n id now).marked n.id marks
    s'.arena.Leads n.id (q ++ [name]) ∧
      s'.arena.Shows = s.arena.Shows.grown (q ++ [name]) (kind.shown content) := by
  intro n s'
  obtain ⟨d, hd, hk⟩ := h.directory
  obtain rfl := h.sound.tree.keyed hd
  have hfree : s.arena.childNamed? d name = none :=
    (h.sound.tree.childNamed?_eq_none_iff hd).2 fun c m hm hp he =>
      h.free hm hp (he ▸ List.mem_cons_self)
  have hc : s.checkCreate name d.id = .ok d :=
    Workspace.checkCreate_eq_ok_iff.2 ⟨hname, hd, hk, hfree⟩
  obtain ⟨heff, -, hlead⟩ := Workspace.Effect.created h.sound hc hl kind content now
  have hmarked := Workspace.Effect.marked heff.sound n.id marks
  exact ⟨hmarked.goes hlead rfl, hmarked.shows.trans heff.shows⟩

mutual

theorem Fertile.shows_grow (now : Timestamp) {id : NodeId} {s : Workspace} {names q : List String}
    {r : List String} {c : Option String} :
    ∀ {p : Plant}, Fertile s id (p.name :: names) → isProper p = true → s.arena.Leads id q →
      ((Seed.grow now id p s).arena.Shows r c ↔ s.arena.Shows r c ∨ (r, c) ∈ places q p)
  | .file name content marks, h, hp, hl => by
    have h : Fertile s id (name :: names) := h
    obtain ⟨-, hshows⟩ := h.shows_node hp hl .file content marks now
    rw [Seed.grow, hshows, places, List.mem_singleton, Prod.mk.injEq]
    rfl
  | .directory name marks below, h, hp, hl => by
    have h : Fertile s id (name :: names) := h
    rw [isProper, Bool.and_eq_true] at hp
    obtain ⟨hlead, hshows⟩ := h.shows_node hp.1 hl .directory "" marks now
    obtain ⟨-, -, hfertile⟩ := h.node hp.1 .directory "" marks now
    have hb := Fertile.shows_growAll now (r := r) (c := c) (hfertile rfl _) hp.2 hlead
    rw [Seed.grow, hb, hshows, places, List.mem_cons, Prod.mk.injEq, ← or_assoc]
    rfl

/-- Plants that grow show what they show besides what was there. -/
theorem Fertile.shows_growAll (now : Timestamp) {id : NodeId} {s : Workspace} {q : List String}
    {r : List String} {c : Option String} :
    ∀ {ps : List Plant}, Fertile s id (ps.map Plant.name) → areProper ps = true →
      s.arena.Leads id q →
      ((Seed.growAll now id ps s).arena.Shows r c ↔ s.arena.Shows r c ∨ (r, c) ∈ allPlaces q ps)
  | [], _, _, _ => by
    rw [Seed.growAll, allPlaces]
    simp
  | p :: rest, h, hp, hl => by
    simp only [areProper, Bool.and_eq_true, Bool.not_eq_eq_eq_not, Bool.not_true,
      List.contains_eq_mem, decide_eq_false_iff_not] at hp
    have hg := Fertile.grow now h hp.1.1
    have hone := Fertile.shows_grow now (r := r) (c := c) h hp.1.1 hl
    have hrest := Fertile.shows_growAll now (r := r) (c := c) (h.rest hp.1.2 hg) hp.2
      (hg.grows.leads hl)
    rw [Seed.growAll, hrest, hone, allPlaces, List.mem_append, or_assoc]

end

/-- A new workspace with the demo tree, before the home directory is looked after. -/
def demoWorld (home : String) (now : Timestamp) : World Unit :=
  ⟨growAll now rootId demo (.new home now), ()⟩

/-- The places of the files of the demo tree. -/
def demoFiles : List (List String) :=
  (allPlaces [] demo).filterMap fun e => e.2.map fun _ => e.1

example : demoFiles = [["home", "user", "README.md"], ["home", "user", "script.js"],
    ["etc", "config.json"]] := by decide +kernel

variable {home cwd : String} {now : Timestamp}

theorem plain_demoWorld (home : String) (now : Timestamp) : (demoWorld home now).Plain home :=
  ((Clean.new home now).growAll now arePlain_demo).plain (sound_grown home now) ()

theorem shows_new : (Workspace.new home now).arena.Shows r c ↔ r = [] ∧ c = none := by
  have hroot : (Arena.new now).get? rootId = some (.newRoot now) := by
    rw [Arena.get?_new, if_pos rfl]
  constructor
  · rintro ⟨id, n, hl, hn, rfl⟩
    have hn : (Arena.new now).get? id = some n := hn
    rw [Arena.get?_new, Option.ite_none_right_eq_some, Option.some.injEq] at hn
    obtain ⟨rfl, rfl⟩ := hn
    exact ⟨(Arena.IsTree.new now).leads_unique hl .root, rfl⟩
  · rintro ⟨rfl, rfl⟩
    exact ⟨rootId, _, .root, hroot, rfl⟩

/-- What the demo tree shows. -/
theorem shows_demoWorld : (demoWorld home now).space.arena.Shows r c ↔
    (r = [] ∧ c = none) ∨ (r, c) ∈ allPlaces [] demo := by
  rw [← shows_new]
  exact (fertile_new home now).shows_growAll now isProper_demo .root

theorem exists_text_iff :
    (∃ text, (demoWorld home now).space.arena.Shows r (some text)) ↔ r ∈ demoFiles := by
  simp only [shows_demoWorld, demoFiles, List.mem_filterMap, Option.map_eq_some_iff]
  constructor
  · rintro ⟨text, ⟨-, hc⟩ | hmem⟩
    · cases hc
    · exact ⟨_, hmem, text, rfl, rfl⟩
  · rintro ⟨⟨r, c⟩, hmem, text, rfl, rfl⟩
    exact ⟨text, .inr hmem⟩

/-- A home directory that the demo tree has room for. -/
def Welcomes (home : String) : Prop :=
  (∀ q ∈ Path.stations (Path.segments home), q ∉ demoFiles) ∧
    ((∀ t ∈ (Path.segments home).getLast?, Path.IsPlain t) ∨
      (Path.segments home).foldl Path.onward [] ∈ Path.stations (Path.segments home).dropLast)

instance (home : String) : Decidable (Welcomes home) := by
  unfold Welcomes
  infer_instance

theorem shows_welcomes_iff :
    (demoWorld home now).space.arena.Shows.Welcomes home ↔ Welcomes home := by
  have hclear : ∀ q, (∀ text, ¬ (demoWorld home now).space.arena.Shows q (some text)) ↔
      q ∉ demoFiles := by
    intro q
    rw [← not_exists, exists_text_iff]
  constructor
  · exact fun h => ⟨fun q hq => (hclear q).1 (h.clear q hq), h.whole⟩
  · exact fun h => ⟨fun q hq => (hclear q).2 (h.1 q hq), h.2⟩

end Seed

end Workbench
