import Workbench.Seed
import Workbench.Proofs.World.Sound

/-!
# The demo tree is sound

Plants with proper names that differ among siblings grow into a sound workspace. The names of the
demo tree are such names, so a workspace that starts with it is sound, whatever the home directory
is.
-/

namespace Workbench

def Plant.name : Plant → String
  | .file name .. => name
  | .directory name .. => name

namespace Seed

mutual

/-- Whether the names of a plant and of all below it can be names of nodes. -/
def isProper : Plant → Bool
  | .file name _ _ => Path.isName name
  | .directory name _ below => Path.isName name && areProper below

def areProper : List Plant → Bool
  | [] => true
  | p :: rest => isProper p && !(rest.map Plant.name).contains p.name && areProper rest

end

theorem isProper_demo : areProper demo = true := by decide +kernel

/-- A directory in which plants can grow. -/
structure Fertile (s : Workspace) (id : NodeId) (names : List String) : Prop where
  sound : s.Sound
  directory : ∃ d, s.arena.get? id = some d ∧ d.kind = .directory
  free : ∀ {c m}, s.arena.get? c = some m → m.parentId = some id → m.name ∉ names

/-- What has grown in a directory. -/
structure Grown (s : Workspace) (id : NodeId) (names : List String) (s' : Workspace) : Prop where
  sound : s'.Sound
  grows : s.arena.Grows id names s'.arena

variable {s s' : Workspace} {id : NodeId} {name : String} {names : List String}

/-- When one plant has grown, there is still room for the others. -/
theorem Fertile.rest (h : Fertile s id (name :: names)) (hn : name ∉ names)
    (hg : Grown s id [name] s') : Fertile s' id names where
  sound := hg.sound
  directory := by
    obtain ⟨d, hd, hk⟩ := h.directory
    obtain ⟨d', hd', ha⟩ := hg.grows.kept hd
    exact ⟨d', hd', ha.kind.trans hk⟩
  free {c m} hm hp hmem := by
    rcases hg.grows.added hm with ⟨k, hk⟩ | ⟨-, hname⟩ | ⟨q, hq, hnone⟩
    · obtain ⟨m', hm', ha⟩ := hg.grows.kept hk
      obtain rfl := Option.some.inj (hm.symm.trans hm')
      exact h.free hk (ha.parentId.symm.trans hp) (ha.name ▸ List.mem_cons_of_mem _ hmem)
    · rw [List.mem_singleton.1 hname] at hmem
      exact hn hmem
    · obtain rfl := Option.some.inj (hp.symm.trans hq)
      obtain ⟨d, hd, -⟩ := h.directory
      rw [hnone] at hd
      cases hd

/-- One new node with its marks. In it there is nothing yet. -/
theorem Fertile.node (h : Fertile s id (name :: names)) (hname : Path.isName name = true)
    (kind : NodeKind) (content : String) (marks : NodeUpdate) (now : Timestamp) :
    let n := s.drawnNode kind name id content now
    let s' := (s.added n id now).marked n.id marks
    Grown s id [name] s' ∧ s.arena.get? n.id = none ∧
      (kind = .directory → ∀ names, Fertile s' n.id names) := by
  intro n s'
  have hn : n.name = name ∧ n.kind = kind ∧ n.children = [] ∧
      n.id = drawnNodeId (s.drawn + 1) := by
    cases kind <;> exact ⟨rfl, rfl, rfl, rfl⟩
  obtain ⟨hnn, hnk, hnc, hid⟩ := hn
  obtain ⟨d, hd, hk⟩ := h.directory
  have hr : s.arena.Room id n := by
    refine h.sound.room hd hk hname ?_ kind content now
    refine (h.sound.tree.childNamed?_eq_none_iff hd).2 fun c m hm hp he => ?_
    exact h.free hm hp (he ▸ List.mem_cons_self)
  obtain ⟨hs, hg⟩ := h.sound.added hr hid now
  rw [hnn] at hg
  have hgs : Grown s id [name] s' :=
    ⟨hs.marked n.id marks, hg.modify fun _ => ⟨⟨rfl, rfl, rfl, rfl, rfl, rfl⟩, rfl⟩⟩
  have hget : s'.arena.get? n.id = some { n with marks := marks.marks n.marks } := by
    simp only [s', Workspace.marked, Workspace.added, Table.get?_modify_self, Arena.stamp,
      Table.get?_modify_of_ne (Ne.symm hr.ne), hr.get?_new, Option.map_some]
  refine ⟨hgs, hr.fresh, fun hkind names => ⟨hgs.sound, ⟨_, hget, hnk.trans hkind⟩, ?_⟩⟩
  intro c m hm hp
  have hmem := (hgs.sound.tree.mem_children_iff hget).2 ⟨m, hm, hp⟩
  have hmem : c ∈ n.children := hmem
  rw [hnc] at hmem
  cases hmem

mutual

theorem Fertile.grow (now : Timestamp) {id : NodeId} {s : Workspace} {names : List String} :
    ∀ {p : Plant}, Fertile s id (p.name :: names) → isProper p = true →
      Grown s id [p.name] (grow now id p s)
  | .file name content marks, h, hp => by
    rw [Seed.grow]
    exact (h.node hp .file content marks now).1
  | .directory name marks below, h, hp => by
    rw [isProper, Bool.and_eq_true] at hp
    obtain ⟨hg, hfresh, hfertile⟩ := h.node hp.1 .directory "" marks now
    have hb := Fertile.growAll now (hfertile rfl _) hp.2
    rw [Seed.grow]
    exact ⟨hb.sound, hg.grows.below hb.grows hfresh⟩

/-- Proper plants grow where their names are free. -/
theorem Fertile.growAll (now : Timestamp) {id : NodeId} {s : Workspace} :
    ∀ {ps : List Plant}, Fertile s id (ps.map Plant.name) → areProper ps = true →
      Grown s id (ps.map Plant.name) (growAll now id ps s)
  | [], h, _ => by
    rw [Seed.growAll]
    exact ⟨h.sound, .refl h.sound.tree id⟩
  | p :: rest, h, hp => by
    simp only [areProper, Bool.and_eq_true, Bool.not_eq_eq_eq_not, Bool.not_true,
      List.contains_eq_mem, decide_eq_false_iff_not] at hp
    have hg := Fertile.grow now h hp.1.1
    have hrest := Fertile.growAll now (h.rest hp.1.2 hg) hp.2
    rw [Seed.growAll]
    exact ⟨hrest.sound, hg.grows.trans hrest.grows⟩

end

/-- In a new workspace there is room for the demo tree. -/
theorem fertile_new (home : String) (now : Timestamp) :
    Fertile (.new home now) rootId (demo.map Plant.name) := by
  refine ⟨.new home now, ⟨.newRoot now, ?_, rfl⟩, fun {c m} hm hp => ?_⟩
  · show (Arena.new now).get? rootId = _
    rw [Arena.get?_new, if_pos rfl]
  · have hm : (Arena.new now).get? c = some m := hm
    rw [Arena.get?_new] at hm
    split at hm
    · rw [← Option.some.inj hm] at hp
      cases hp
    · cases hm

theorem sound_grown (home : String) (now : Timestamp) :
    (growAll now rootId demo (.new home now)).Sound :=
  (Fertile.growAll now (fertile_new home now) isProper_demo).sound

theorem sound_planted (home : String) (now : Timestamp) : (planted home now).Sound :=
  World.sound_ensureDirectories (h := ⟨none, now⟩) (fun _ hb => nomatch hb)
    (w := ⟨_, ()⟩) (sound_grown home now) home "/"

end Seed

end Workbench
