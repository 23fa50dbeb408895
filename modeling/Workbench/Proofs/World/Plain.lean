import Workbench.Proofs.Seed
import Workbench.Proofs.World.Free

/-!
# Plain names

A name that does not end with a blank keeps its end when a path is read (`Path.IsPlain`). A free
workspace all of whose names are plain stays so under every operation that is given plain names
only: what an operation does to the shape of the tree brings no other name into it.
-/

namespace Workbench

open Workbench.Path (AreNames)

namespace Path

/-- Plain names only. -/
def ArePlain (names : List String) : Prop := ∀ s ∈ names, IsPlain s

theorem ArePlain.append_iff {p q : List String} : ArePlain (p ++ q) ↔ ArePlain p ∧ ArePlain q :=
  List.forall_mem_append

theorem ArePlain.singleton_iff {s : String} : ArePlain [s] ↔ IsPlain s :=
  List.forall_mem_singleton

theorem ArePlain.concat {p : List String} {s : String} (hp : ArePlain p) (hs : IsPlain s) :
    ArePlain (p ++ [s]) :=
  append_iff.2 ⟨hp, singleton_iff.2 hs⟩

theorem ArePlain.getLast? {p : List String} (hp : ArePlain p) : ∀ s ∈ p.getLast?, IsPlain s :=
  fun s hs => hp s (List.mem_of_getLast? hs)

end Path

/-! ## Shapes -/

namespace Shape

open Workbench.Path (ArePlain)

variable {S : Shape} {p p' : List String} {c : Option String} {text : String}

/-- On the way to everything there are plain names only. -/
def IsPlain (S : Shape) : Prop := ∀ q c, S q c → ArePlain q

namespace IsPlain

theorem grown (h : S.IsPlain) (hp : ArePlain p) : (S.grown p c).IsPlain := by
  rintro q d (hs | ⟨rfl, -⟩)
  · exact h q d hs
  · exact hp

theorem pruned (h : S.IsPlain) : (S.pruned p).IsPlain := fun q c hs => h q c hs.1

theorem refilled (h : S.IsPlain) (hp : ArePlain p) : (S.refilled p text).IsPlain := by
  rintro q d (⟨hs, -⟩ | ⟨rfl, -⟩)
  · exact h q d hs
  · exact hp

theorem below (h : S.IsPlain) (hp : ArePlain p') {r : List String} (hs : S (p ++ r) c) :
    ArePlain (p' ++ r) :=
  ArePlain.append_iff.2 ⟨hp, (ArePlain.append_iff.1 (h _ c hs)).2⟩

theorem shifted (h : S.IsPlain) (hp : ArePlain p') : (S.shifted p p').IsPlain := by
  rintro q d (⟨hs, -⟩ | ⟨r, rfl, hs⟩)
  · exact h q d hs
  · exact h.below hp hs

theorem doubled (h : S.IsPlain) (hp : ArePlain p') : (S.doubled p p').IsPlain := by
  rintro q d (hs | ⟨r, rfl, hs⟩)
  · exact h q d hs
  · exact h.below hp hs

end IsPlain

end Shape

theorem Arena.isPlain_shows {a : Arena} (ha : ∀ {id n}, a.get? id = some n → id ≠ rootId →
    Path.IsPlain n.name) (ht : a.IsTree) : Shape.IsPlain a.Shows := by
  rintro q c ⟨id, n, hl, -⟩
  clear n
  induction hl with
  | root => exact fun s hs => nomatch hs
  | @child p id n q above hn hp ih =>
    refine ih.concat (ha hn ?_)
    rintro rfl
    exact ht.not_holds_root ⟨n, hn, hp⟩

/-! ## Worlds -/

namespace World

open Workspace (Effect)
open Workbench.Path (ArePlain)

variable {σ : Type} {home : String} {w w' : World σ} {id : NodeId} {name : String}

/-- A free workspace with plain names and with this home directory. -/
structure Plain (home : String) (w : World σ) : Prop where
  free : w.Free
  home : w.space.home = home
  names : Shape.IsPlain w.space.arena.Shows

namespace Plain

theorem effect {τ : Course} {S : Shape} (hw : w.Plain home) (he : Effect τ S w.space w'.space)
    (hS : S.IsPlain) : w'.Plain home where
  free := hw.free.effect he
  home := he.home.trans hw.home
  names := he.shows.symm ▸ hS

/-- The disk does not matter. -/
theorem elsewhere {ρ : Type} (hw : w.Plain home) (disk : ρ) : Plain home ⟨w.space, disk⟩ where
  free := ⟨hw.free.unbound, hw.free.sound⟩
  home := hw.home
  names := hw.names

theorem of_leads {q : List String} (hw : w.Plain home) (hl : w.space.arena.Leads id q) :
    ArePlain q := by
  obtain ⟨n, hn⟩ := hw.free.sound.tree.mem_of_leads hl
  exact hw.names q _ ⟨id, n, hl, hn, rfl⟩

theorem create (hw : w.Plain home) (hname : Path.IsPlain name) (h : Host σ) (kind : NodeKind)
    (id : NodeId) (content : String) : (w.create h kind name id content).2.Plain home := by
  rcases he : w.create h kind name id content with ⟨a, w'⟩
  cases create_ends he with
  | rejected | unlisted => exact hw
  | failed _ hb | written _ hb => cases hw.free.unbound.symm.trans hb
  | added hc =>
    obtain ⟨-, hget, -⟩ := Workspace.checkCreate_eq_ok_iff.1 hc
    obtain rfl := hw.free.sound.tree.keyed hget
    obtain ⟨q, hl⟩ := hw.free.sound.tree.exists_leads hget
    exact hw.effect (Effect.created hw.free.sound hc hl kind content h.now).1
      (hw.names.grown ((hw.of_leads hl).concat hname))

theorem ensureDirectories {path cwd : String} (hw : w.Plain home)
    (hs : ArePlain (Path.segments (Path.absolute home path cwd))) (h : Host σ) :
    (w.ensureDirectories h path cwd).2.Plain home :=
  ensureDirectories_keeps (fun hm hv => hv.create (hs _ (hw.home ▸ hm)) h .directory _ "") hw

theorem delete (hw : w.Plain home) (h : Host σ) (id : NodeId) (recursive : Bool) :
    (w.delete h id recursive).2.Plain home := by
  rcases he : w.delete h id recursive with ⟨a, w'⟩
  cases delete_ends he with
  | rejected => exact hw
  | failed _ hb | written _ hb => cases hw.free.unbound.symm.trans hb
  | removed hc =>
    obtain ⟨hn, hroot, -⟩ := Workspace.checkDelete_eq_ok_iff.1 hc
    obtain rfl := hw.free.sound.tree.keyed hn
    obtain ⟨q, hl⟩ := hw.free.sound.tree.exists_leads hn
    obtain ⟨p, -, hp, -⟩ := hw.free.sound.tree.held hn hroot
    rw [hp]
    exact hw.effect (Effect.removed hw.free.sound hl hn hp h.now) hw.names.pruned

theorem move (hw : w.Plain home) (hname : id ≠ rootId → Path.IsPlain name) (h : Host σ)
    (targetId : NodeId) : (w.move h id targetId (some name)).2.Plain home := by
  have hs := hw.free.sound
  rcases he : w.move h id targetId (some name) with ⟨a, w'⟩
  cases move_ends he with
  | rejected | kept | unlisted => exact hw
  | failed _ _ hb | written _ _ hb => cases hw.free.unbound.symm.trans hb
  | moved hc hsame _ hmoved =>
    have hp := Workspace.found_of_checkMove hs.tree hc
    have hg := Workspace.mayGo_of_checkMove hs.tree hc hsame
    obtain ⟨r, hr⟩ := hp.held
    obtain ⟨q, hl⟩ := hs.tree.exists_leads hp.node
    obtain ⟨qt, hlt⟩ := hs.tree.exists_leads hp.target
    rw [hmoved, hr, Option.getD_some]
    refine hw.effect (Effect.moved hs (hs.moved_moved hp.node hr hg h.now) hg hl hlt)
      (hw.names.shifted ((hw.of_leads hlt).concat ?_))
    exact hp.name ▸ hname (hp.nodeId ▸ hp.notRoot)

theorem copy (hw : w.Plain home) (hname : id ≠ rootId → Path.IsPlain name) (h : Host σ)
    (targetId : NodeId) : (w.copy h id targetId (some name)).2.Plain home := by
  have hs := hw.free.sound
  rcases he : w.copy h id targetId (some name) with ⟨a, w'⟩
  cases copy_ends he with
  | rejected | unlisted => exact hw
  | unseen _ hb | interrupted _ hb | written _ hb => cases hw.free.unbound.symm.trans hb
  | copied hc _ hcopied =>
    have hp := Workspace.found_of_checkCopy hs.tree hc
    obtain ⟨q, hl⟩ := hs.tree.exists_leads hp.node
    obtain ⟨qt, hlt⟩ := hs.tree.exists_leads hp.target
    obtain ⟨-, hfree⟩ := Workspace.free_of_checkCopy hs.tree hc
    rw [hcopied]
    refine hw.effect
      (Effect.copied hs hl hlt hp.node hp.target hp.directory hp.isName hfree h.now)
      (hw.names.doubled ((hw.of_leads hlt).concat ?_))
    exact hp.name ▸ hname (hp.nodeId ▸ hp.notRoot)

theorem setContent (hw : w.Plain home) (h : Host σ) (id : NodeId) (content : String) :
    (w.setContent h id content).2.Plain home := by
  rcases he : w.setContent h id content with ⟨a, w'⟩
  cases setContent_ends he with
  | rejected => exact hw
  | failed _ hb | written _ hb => cases hw.free.unbound.symm.trans hb
  | refilled hc _ hrefilled =>
    obtain ⟨hn, hk⟩ := Workspace.requireFile_eq_ok_iff.1 hc
    obtain rfl := hw.free.sound.tree.keyed hn
    obtain ⟨q, hl⟩ := hw.free.sound.tree.exists_leads hn
    rw [hrefilled]
    exact hw.effect (Effect.refilled hw.free.sound hl hn hk content h.now)
      (hw.names.refilled (hw.of_leads hl))

theorem touch (hw : w.Plain home) (h : Host σ) (id : NodeId) : (w.touch h id).2.Plain home := by
  rcases he : w.touch h id with ⟨a, w'⟩
  cases touch_ends he with
  | missing => exact hw
  | rewritten _ _ hb => cases hw.free.unbound.symm.trans hb
  | touched _ _ htouched =>
    rw [htouched]
    exact hw.effect (Effect.touched hw.free.sound _ h.now) hw.names

end Plain

end World

/-! ## New workspaces -/

namespace Seed

mutual

def isPlain : Plant → Bool
  | .file name _ _ => decide (Path.IsPlain name)
  | .directory name _ below => decide (Path.IsPlain name) && arePlain below

/-- Whether no name in some plants ends with a blank. -/
def arePlain : List Plant → Bool
  | [] => true
  | p :: rest => isPlain p && arePlain rest

end

theorem arePlain_demo : arePlain demo = true := by decide +kernel

/-- A free workspace in which nothing but the root has a name that ends with a blank. -/
structure Clean (home : String) (s : Workspace) : Prop where
  home : s.home = home
  unbound : s.boundRoot = none
  names : ∀ {id n}, s.arena.get? id = some n → id ≠ rootId → Path.IsPlain n.name

variable {home name : String} {s : Workspace}

theorem Clean.new (home : String) (now : Timestamp) : Clean home (.new home now) where
  home := rfl
  unbound := rfl
  names {id n} hn hid := by
    have hn : (Arena.new now).get? id = some n := hn
    rw [Arena.get?_new, if_neg hid] at hn
    cases hn

theorem Clean.node (h : Clean home s) (hname : Path.IsPlain name) (kind : NodeKind)
    (parentId : NodeId) (content : String) (marks : NodeUpdate) (now : Timestamp) :
    Clean home ((s.added (s.drawnNode kind name parentId content now) parentId now).marked
      (s.drawnNode kind name parentId content now).id marks) where
  home := h.home
  unbound := h.unbound
  names {id m} hm hid := by
    have hmarked : ∀ n : Node, Node.Alike { n with marks := marks.marks n.marks } n :=
      fun _ => ⟨rfl, rfl, rfl, rfl, rfl, rfl⟩
    have hstamped : ∀ n : Node, Node.Alike { n with modifiedAt := now } n :=
      fun _ => ⟨rfl, rfl, rfl, rfl, rfl, rfl⟩
    have hlisted : ∀ (c : NodeId) (n : Node),
        Node.Alike { n with children := n.children ++ [c] } n :=
      fun _ _ => ⟨rfl, rfl, rfl, rfl, rfl, rfl⟩
    obtain ⟨m₁, hm, he₁⟩ := Arena.alike_of_modify hmarked hm
    obtain ⟨m₂, hm, he₂⟩ := Arena.alike_of_modify hstamped hm
    obtain ⟨m₃, hm, he₃⟩ := Arena.alike_of_modify (hlisted _) hm
    rw [he₁.name, he₂.name, he₃.name]
    rw [Table.get?_insert] at hm
    split at hm
    · obtain rfl := Option.some.inj hm
      cases kind <;> exact hname
    · exact h.names hm hid

mutual

theorem Clean.grow (now : Timestamp) {parentId : NodeId} {s : Workspace} :
    ∀ {p : Plant}, Clean home s → isPlain p = true → Clean home (grow now parentId p s)
  | .file name content marks, h, hp => by
    rw [isPlain, decide_eq_true_eq] at hp
    rw [Seed.grow]
    exact h.node hp ..
  | .directory name marks below, h, hp => by
    rw [isPlain, Bool.and_eq_true, decide_eq_true_eq] at hp
    rw [Seed.grow]
    exact Clean.growAll now (h.node hp.1 ..) hp.2

theorem Clean.growAll (now : Timestamp) {parentId : NodeId} {s : Workspace} :
    ∀ {ps : List Plant}, Clean home s → arePlain ps = true →
      Clean home (growAll now parentId ps s)
  | [], h, _ => by
    rw [Seed.growAll]
    exact h
  | p :: rest, h, hp => by
    rw [arePlain, Bool.and_eq_true] at hp
    rw [Seed.growAll]
    exact Clean.growAll now (Clean.grow now h hp.1) hp.2

end

theorem Clean.plain {σ : Type} (h : Clean home s) (hs : s.Sound) (disk : σ) :
    World.Plain home ⟨s, disk⟩ where
  free := ⟨h.unbound, hs⟩
  home := h.home
  names := Arena.isPlain_shows h.names hs.tree

theorem plain_new {σ : Type} (home : String) (now : Timestamp) (disk : σ) :
    World.Plain home ⟨.new home now, disk⟩ :=
  (Clean.new home now).plain (.new home now) disk

/-- The demo tree has plain names, and so has what leads to a home directory whose path has. -/
theorem plain_planted {σ : Type}
    (hhome : Path.ArePlain (Path.segments (Path.absolute home home "/"))) (now : Timestamp)
    (disk : σ) : World.Plain home ⟨planted home now, disk⟩ := by
  have hclean : Clean home (growAll now rootId demo (.new home now)) :=
    (Clean.new home now).growAll now arePlain_demo
  have hw := (hclean.plain (sound_grown home now) ()).ensureDirectories hhome ⟨none, now⟩
  exact hw.elsewhere disk

end Seed

end Workbench
