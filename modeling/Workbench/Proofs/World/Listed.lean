import Workbench.Proofs.Disk.Straight
import Workbench.Proofs.World.Guarded

/-!
# Writes to the local disk that are listed

A workspace is current when its tree is what a listing of the local disk reports (`Current`). The
check before a write then lets through exactly what the bridge says is listed. Whether a listing
holds the written nodes depends on one thing more: each has to be found at its new path
(`Found`). What is created or copied is found (`found_of_adds`). What is moved is found where there
are no links, as long as the paths are not too long (`found_of_straight`); a link that is moved may
no longer lead to anything.
-/

namespace Workbench

/-- Something that can lie on the disk where a node of a kind is shown. -/
structure FileItem.Suits (i : FileItem) (kind : NodeKind) : Prop where
  holds : kind = .directory → i = .directory
  noLink : ∀ target, i ≠ .link target

namespace FileItem.Suits

theorem file (octets : List Nat) : (FileItem.file octets).Suits .file where
  holds hk := by cases hk
  noLink target he := by cases he

theorem directory (kind : NodeKind) : FileItem.directory.Suits kind where
  holds _ := rfl
  noLink target he := by cases he

end FileItem.Suits

namespace LocalDisk

open Workbench.Path (AreNames)
open Workspace (Placement)

variable {limits : LocalLimits} {now : Timestamp} {root : String} {w w₁ : World FileSystem}
  {fs : FileSystem} {op : Operation} {t : Writing} {calls : List DiskCall} {q : List String}
  {c : Option String} {s : String} {F : List DiskEntry} {i : FileItem} {y : NodeId} {m : Node}
  {p : Placement}

/-- The tree of a workspace on the local disk is what a listing reports now. -/
structure Current (limits : LocalLimits) (now : Timestamp) (root : String)
    (w : World FileSystem) : Prop where
  sound : w.space.Sound
  named : w.disk.Named
  bound : w.space.boundRoot = some root
  listed : ∃ F, list limits now root w.disk = .ok F ∧
    ∀ q c, w.space.arena.Shows q c ↔ (q = [] ∧ c = none) ∨ Lists F q c

namespace Current

theorem covers (h : Current limits now root w) (hs : w.space.arena.Shows q c) :
    (bridge limits).Covers q := by
  obtain ⟨F, hF, hshows⟩ := h.listed
  rcases (hshows q c).1 hs with ⟨rfl, -⟩ | hl
  · exact fun i s hs => by simp at hs
  · exact ((exists_lists_iff h.named hF).1 ⟨c, hl⟩).2.2

/-- What is shown can be looked up. -/
theorem item (h : Current limits now root w) (hl : w.space.arena.Leads y q)
    (hm : w.space.arena.get? y = some m) :
    ∃ i, w.disk.Readable (Disk.tidied root) q i ∧ i.Suits m.kind := by
  obtain ⟨F, hF, hshows⟩ := h.listed
  rcases (hshows q m.shown).1 ⟨y, m, hl, hm, rfl⟩ with ⟨rfl, -⟩ | hlists
  · exact ⟨_, (exists_list_iff.1 ⟨F, hF⟩).2, .directory m.kind⟩
  · obtain ⟨-, ⟨i, hr, hi⟩, -⟩ := (lists_list_iff h.named hF).1 hlists
    refine ⟨i, hr, fun hk => ?_, exists_shown?_iff.1 ⟨_, hi⟩⟩
    rw [Node.shown_eq_none_iff.2 hk] at hi
    cases i with
    | directory => rfl
    | file octets => cases hi
    | link target => cases hi

theorem readable (h : Current limits now root w) (hs : w.space.arena.Shows q none) :
    w.disk.Readable (Disk.tidied root) q .directory := by
  obtain ⟨y, m, hl, hm, hnone⟩ := hs
  obtain ⟨i, hr, hi⟩ := h.item hl hm
  rwa [hi.holds (Node.shown_eq_none_iff.1 hnone)] at hr

end Current

theorem list_eq_ok_iff :
    ((host limits now).list w root).1 = .ok F ↔ list limits now root w.disk = .ok F := by
  simp only [host, Host.list, bridge]
  cases list limits now root w.disk with
  | ok G => simp only [Except.ok.injEq]
  | error e => simp only [reduceCtorEq]

/-- A workspace is current when it has just been bound. -/
theorem current_of_bind {n : Node} (hn : w.disk.Named)
    (h : w.bind (host limits now) root = (.ok n, w₁)) : Current limits now root w₁ := by
  cases World.bind_ends h with
  | @bound F w' _ _ he hw =>
    have hF := list_eq_ok_iff.1 (congrArg Prod.fst he)
    have hproper := properListing_list hn hF
    have hdisk : w'.disk = w.disk := by
      have hlisted := disk_of_list limits now w root
      rwa [he] at hlisted
    subst hw
    refine ⟨.bound hproper root now, hdisk ▸ hn, rfl, F, hdisk ▸ hF, fun q c => ?_⟩
    exact Workspace.shows_loaded_iff (Workspace.filled_bound hproper _ now)

theorem disk_of_perform (limits : LocalLimits) (now : Timestamp) (w : World FileSystem)
    (call : DiskCall) : ((host limits now).perform w call).2.disk = (perform call w.disk).2 := by
  simp only [host, Host.perform, bridge]
  split
  · next h => rw [h]
  · next h => rw [h]
  · next h => rw [h]

theorem named_performAll (limits : LocalLimits) (now : Timestamp) (calls : List DiskCall)
    (hn : w.disk.Named) :
    ((host limits now).performAll w calls).2.disk.Named := by
  induction calls generalizing w with
  | nil => exact hn
  | cons call rest ih =>
    have hp := disk_of_perform limits now w call ▸ named_perform hn call
    rw [Host.performAll]
    split
    · next he =>
      rw [he] at hp
      exact ih hp
    · next he =>
      rw [he] at hp
      exact hp

/-! ## Writes that add to the disk -/

theorem found_concat {p : Place} (hr : fs.Readable (Disk.tidied root) q .directory)
    (hs : Path.isName s = true) (hstat : fs.stat (Disk.below root (q ++ [s])) = .ok (p, i)) :
    fs.Readable (Disk.tidied root) (q ++ [s]) i :=
  (FileSystem.Readable.concat_iff (Disk.tidied_tidied root)).2
    ⟨hr, hs, p, by rwa [Disk.below_tidied]⟩

/-- A subtree is found at a place in a directory when all the paths of its nodes can be looked
up. -/
theorem found_of_stats (hs : w.space.Sound)
    (hn : w.space.arena.get? p.node.id = some p.node) (hname : Path.isName p.name = true)
    (habove : fs.Readable (Disk.tidied root) (w.space.arena.namesTo p.target.id) .directory)
    (hstat : ∀ {y r m}, w.space.arena.Leads y (w.space.arena.namesTo p.node.id ++ r) →
      w.space.arena.get? y = some m → ∃ place i,
        fs.stat (Disk.below root (w.placeIn p.target p.name ++ r)) = .ok (place, i) ∧
          i.Suits m.kind) :
    ∀ q ∈ (w.writingOf p calls).places, Found fs root q := by
  intro q hq
  obtain ⟨y, r, rfl, hy⟩ := (World.mem_places_writingOf hs hn calls).1 hq
  obtain ⟨m, hm⟩ := hs.tree.mem_of_leads hy
  obtain ⟨place, i, hi, hsuits⟩ := hstat hy hm
  refine ⟨i, ?_, hsuits.noLink⟩
  clear hq
  induction r using List.reverseRecOn generalizing y m place i with
  | nil =>
    rw [List.append_nil] at hi ⊢
    exact found_concat habove hname hi
  | append_singleton r s ih =>
    have hlast := hs.tree.isName_of_leads hy s (by simp)
    rw [← List.append_assoc] at hy hi ⊢
    obtain ⟨x, k, hx, hk, hnone⟩ := hs.tree.shape.above ⟨y, m, hy, hm, rfl⟩
    obtain ⟨place', j, hj, hsuitsj⟩ := hstat hx hk
    obtain rfl := hsuitsj.holds (Node.shown_eq_none_iff.1 hnone)
    exact found_concat (ih x hx k hk place' _ hj hsuitsj) hlast hi

/-- What is created is found in the directory that was there. -/
theorem found_of_creation (h : Current limits now root w) {kind : NodeKind} {d : Node}
    {name content : String} (hdir : w.space.arena.Shows (w.space.arena.namesTo d.id) none)
    (hname : Path.isName name = true)
    (hdone : (host limits now).performAll w [w.creation kind d name content] = (.ok (), w₁)) :
    Found w₁.disk root (w.placeIn d name) := by
  have hcreates : ∀ call ∈ [w.creation kind d name content],
      (∃ parent name content, call = .createFile parent name content) ∨
        ∃ parent name, call = .createDirectory parent name := by
    intro call hcall
    obtain rfl := List.mem_singleton.1 hcall
    cases kind with
    | file => exact .inl ⟨_, _, _, rfl⟩
    | directory => exact .inr ⟨_, _, rfl⟩
  obtain ⟨hgrows, hread, hstat⟩ := World.done_of_performAll hcreates hdone
  have habove := (h.readable hdir).of_growsTo hgrows
  have hseen : Disk.seenFrom (w.nodePath d.id) name =
      Disk.below root (w.space.arena.namesTo d.id ++ [name]) := by
    rw [World.nodePath, World.diskPath, h.bound, Option.getD_some]
    exact Disk.seenFrom_below root (h.sound.tree.shape.names hdir) hname
  cases kind with
  | file =>
    obtain ⟨q, hq, hi⟩ := FileSystem.read_eq_ok_iff.1 (hread (List.mem_singleton_self _))
    rw [hseen] at hq
    exact ⟨_, found_concat habove hname (FileSystem.stat_eq_ok_iff.2 ⟨hq, hi⟩),
      (FileItem.Suits.file _).noLink⟩
  | directory =>
    obtain ⟨q, hq⟩ := hstat (List.mem_singleton_self _)
    rw [hseen] at hq
    exact ⟨_, found_concat habove hname hq, (FileItem.Suits.directory .directory).noLink⟩

/-- Every node of a copy is found. -/
theorem found_of_copyCalls (h : Current limits now root w)
    (ht : (w.writingOf p (w.copyCalls p)).Fit w)
    (hn : w.space.arena.get? p.node.id = some p.node)
    (hd : w.space.arena.get? p.target.id = some p.target)
    (hdone : (host limits now).performAll w (w.copyCalls p) = (.ok (), w₁)) :
    ∀ q ∈ (w.writingOf p (w.copyCalls p)).places, Found w₁.disk root q := by
  obtain ⟨hgrows, hread, hstat⟩ :=
    World.done_of_performAll (fun _ hc => World.creates_of_mem_copyCalls hc) hdone
  have hx := h.sound.tree.leads_namesTo hn
  have habove := (h.readable ht.directory).of_growsTo hgrows
  refine found_of_stats h.sound hn ht.name habove fun {y r m} hy hm => ?_
  obtain rfl := h.sound.tree.keyed hm
  have hin := (h.sound.tree.mem_subtreeIds_iff hn).2 (h.sound.tree.below_of_leads hx hy)
  have hr : r = (w.space.arena.namesTo m.id).drop (w.space.arena.namesTo p.node.id).length := by
    rw [(h.sound.tree.leads_iff hm).1 hy, List.drop_left]
  obtain ⟨parent, last, hfile, hdir, hseen⟩ :=
    World.mem_copyCalls h.sound.tree ht.name hd hm hin hr
  rw [World.diskPath, h.bound, Option.getD_some] at hseen
  rw [← hseen]
  cases hk : m.kind with
  | file =>
    obtain ⟨q, hq, hi⟩ := FileSystem.read_eq_ok_iff.1 (hread (hfile hk))
    exact ⟨q, _, FileSystem.stat_eq_ok_iff.2 ⟨hq, hi⟩, .file _⟩
  | directory =>
    obtain ⟨q, hq⟩ := hstat (hdir hk)
    exact ⟨q, _, hq, .directory _⟩

/-! ## Writes that take nodes elsewhere -/

/-- Where there are no links, everything lies at its new place once it has been taken there. -/
theorem items_of_relocation (h : Current limits now root w) (hfs : w.disk.Straight)
    (hroot : AreNames (Disk.steps root)) (ht : (w.writingOf p calls).Fit w)
    (hn : w.space.arena.get? p.node.id = some p.node)
    (hdone : (host limits now).performAll w [w.relocation p.node p.target.id p.name] =
      (.ok (), w₁)) :
    ∃ z, w₁.disk.stat (Disk.below root (w.space.arena.namesTo p.target.id)) =
        .ok (z, .directory) ∧
      w₁.disk.Readable (Disk.tidied root) (w.space.arena.namesTo p.target.id) .directory ∧
      p.name.utf8ByteSize ≤ FileSystem.nameLimit ∧
      ∀ {y r m}, w.space.arena.Leads y (w.space.arena.namesTo p.node.id ++ r) →
        w.space.arena.get? y = some m → ∃ i, w₁.disk.item? (r.reverse ++ p.name :: z) = some i ∧
          i.Suits m.kind ∧ AreNames r ∧ ∀ t ∈ r, t.utf8ByteSize ≤ FileSystem.nameLimit := by
  obtain ⟨a, ha⟩ : ∃ a, relocate w.disk (Disk.below root (w.space.arena.namesTo p.node.id))
      (Disk.below root (w.space.arena.namesTo p.target.id ++ [p.name])) =
        (.ok (.done a), w₁.disk) := by
    obtain ⟨a, ha⟩ := done_of_host ((host limits now).perform_of_performAll hdone)
    simp only [World.relocation, World.nodePath, World.diskPath, h.bound, Option.getD_some] at ha
    split at ha
    · exact ⟨a, ha⟩
    · exact ⟨a, ha⟩
  have hold := h.sound.tree.isName_of_leads (h.sound.tree.leads_namesTo hn)
  obtain ⟨z, hz, habove, hname, hmoved⟩ :=
    done_of_straight hfs hroot hold ht.name ha (h.readable ht.directory)
  refine ⟨z, hz, habove, hname, fun {y r m} hy hm => ?_⟩
  obtain ⟨i, hi, hsuits⟩ := h.item hy hm
  obtain ⟨place, hplace⟩ := hi.stat (Disk.tidied_tidied root)
  rw [Disk.below_tidied] at hplace
  have hr := (AreNames.append_iff.1 hi.areNames).2
  obtain ⟨hitem, hsizes⟩ := hmoved r place i hr hplace
  exact ⟨i, hitem, hsuits, hr, hsizes⟩

/-- So it is found there, if no path is too long. -/
theorem found_of_relocation (h : Current limits now root w) (hfs : w.disk.Straight)
    (hroot : AreNames (Disk.steps root)) (ht : (w.writingOf p calls).Fit w)
    (hn : w.space.arena.get? p.node.id = some p.node)
    (hdone : (host limits now).performAll w [w.relocation p.node p.target.id p.name] =
      (.ok (), w₁))
    (hsize : ∀ q ∈ (w.writingOf p calls).places,
      (Disk.below root q).utf8ByteSize ≤ FileSystem.pathLimit) :
    ∀ q ∈ (w.writingOf p calls).places, Found w₁.disk root q := by
  obtain ⟨z, hz, habove, hname, hitems⟩ := items_of_relocation h hfs hroot ht hn hdone
  have hnames : AreNames (w.placeIn p.target p.name) :=
    AreNames.append_iff.2 ⟨habove.areNames, AreNames.singleton_iff.2 ht.name⟩
  refine found_of_stats h.sound hn ht.name habove fun {y r m} hy hm => ?_
  obtain ⟨i, hi, hsuits, hr, hsizes⟩ := hitems hy hm
  refine ⟨r.reverse ++ p.name :: z, i, ?_, hsuits⟩
  -- on the way there all directories have come along
  induction r using List.reverseRecOn generalizing y m i with
  | nil =>
    rw [List.append_nil]
    exact FileSystem.stat_concat habove.areNames hz ht.name hname (hsize _ ht.top) hi
      hsuits.noLink
  | append_singleton r s ih =>
    have hlimit := hsize _ ((World.mem_places_writingOf h.sound hn calls).2 ⟨y, _, rfl, hy⟩)
    have hs := AreNames.singleton_iff.1 (AreNames.append_iff.1 hr).2
    rw [← List.append_assoc] at hy hlimit ⊢
    obtain ⟨x, k, hx, hk, hnone⟩ := h.sound.tree.shape.above ⟨y, m, hy, hm, rfl⟩
    obtain ⟨j, hj, hsuitsj, hr', hsizes'⟩ := hitems hx hk
    obtain rfl := hsuitsj.holds (Node.shown_eq_none_iff.1 hnone)
    have hstat := ih hx hk _ hj hsuitsj hr' hsizes'
    rw [List.reverse_append] at hi ⊢
    exact FileSystem.stat_concat (AreNames.append_iff.2 ⟨hnames, hr'⟩) hstat hs
      (hsizes s (by simp)) hlimit hi hsuits.noLink

/-! ## Writes that are let through and writes that are not -/

theorem found_of_adds (h : Current limits now root w) (hw : w.Writes op t) (ha : op.Adds)
    (hdone : (host limits now).performAll w t.calls = (.ok (), w₁)) :
    ∀ q ∈ t.places, Found w₁.disk root q := by
  have ht := hw.fit h.sound
  cases hw with
  | create hc =>
    intro q hq
    obtain rfl := List.mem_singleton.1 hq
    exact found_of_creation h ht.directory ht.name hdone
  | @copy id targetId name? p hc =>
    have hp := Workspace.found_of_checkCopy h.sound.tree hc
    exact found_of_copyCalls h ht hp.node hp.target hdone
  | rename hc => cases ha
  | update hc => cases ha
  | move hc hs => cases ha

/-- Everything that is written is found after that on a disk without links, if no path is too
long. -/
theorem found_of_straight (h : Current limits now root w) (hw : w.Writes op t)
    (hfs : w.disk.Straight) (hroot : AreNames (Disk.steps root))
    (hdone : (host limits now).performAll w t.calls = (.ok (), w₁))
    (hsize : ∀ q ∈ t.places, (Disk.below root q).utf8ByteSize ≤ FileSystem.pathLimit) :
    ∀ q ∈ t.places, Found w₁.disk root q := by
  have ht := hw.fit h.sound
  have hupdate : ∀ {id changes n p}, w.space.checkUpdate id changes = .ok (n, some p) →
      w.space.arena.get? p.node.id = some p.node := fun hc =>
    (Workspace.mayGo_of_checkUpdate h.sound.tree hc).1
  cases hw with
  | create hc => exact found_of_adds h (.create hc) trivial hdone
  | copy hc => exact found_of_adds h (.copy hc) trivial hdone
  | rename hc => exact found_of_relocation h hfs hroot ht (hupdate hc) hdone hsize
  | update hc => exact found_of_relocation h hfs hroot ht (hupdate hc) hdone hsize
  | @move id targetId name? p hc hs =>
    have hp := Workspace.found_of_checkMove h.sound.tree hc
    exact found_of_relocation h hfs hroot ht hp.node hdone hsize

/-- The root can be listed where something is found below it. -/
theorem exists_list_of_found (h : Current limits now root w) (hq : Found fs root q) (hne : q ≠ []) :
    ∃ F, list limits now root fs = .ok F := by
  obtain ⟨F, hF, -⟩ := h.listed
  obtain ⟨hnul, -⟩ := exists_list_iff.1 ⟨F, hF⟩
  refine exists_list_iff.2 ⟨hnul, ?_⟩
  obtain ⟨i, hi, -⟩ := hq
  cases q with
  | nil => exact absurd rfl hne
  | cons s rest =>
    obtain ⟨p, hp⟩ := hi.directory_of_cons
    exact .here hp

theorem guard_eq_ok_iff (h : Current limits now root w) (ht : t.Fit w) :
    t.guard (host limits now) w = .ok () ↔ ∀ q ∈ t.places, (bridge limits).Covers q :=
  World.guard_eq_ok_iff ht rfl rfl h.covers

/-- The check refuses exactly the writes of which something would not be listed. -/
theorem guard_eq_error_iff (h : Current limits now root w) (ht : t.Fit w)
    (hfound : ∀ q ∈ t.places, Found w₁.disk root q) (hnamed : w₁.disk.Named)
    (hF : list limits now root w₁.disk = .ok F) :
    (∃ r, t.guard (host limits now) w = .error r) ↔ ∃ q ∈ t.places, ∀ c, ¬ Lists F q c := by
  have hcovered : ∀ q ∈ t.places, (∃ c, Lists F q c) ↔ (bridge limits).Covers q := by
    intro q hq
    have hne := ht.ne_nil hq
    rw [exists_lists_iff hnamed hF]
    exact ⟨fun hl => hl.2.2, fun hc => ⟨hne, hfound q hq, hc⟩⟩
  rw [exists_error_iff, guard_eq_ok_iff h ht]
  simp only [not_forall, exists_prop]
  refine exists_congr fun q => and_congr_right fun hq => ?_
  rw [← hcovered q hq, not_exists]

/-- After a write that has been let through and done the tree shows what is found. -/
theorem shows_run_iff (h : Current limits now root w) (hw : w.Writes op t)
    (hg : t.guard (host limits now) w = .ok ())
    (hdone : (host limits now).performAll w t.calls = (.ok (), w₁)) :
    (op.run (host limits now) w).2.disk = w₁.disk ∧
      ∀ q ∈ t.places, (∃ c, (op.run (host limits now) w).2.space.arena.Shows q c) ↔
        Found w₁.disk root q := by
  have ht := hw.fit h.sound
  have hnamed : w₁.disk.Named := by
    have hn := named_performAll limits now t.calls h.named
    rwa [hdone] at hn
  have hcovers := (guard_eq_ok_iff h ht).1 hg
  obtain ⟨hdisk, hcases⟩ := World.relisted_of_run h.sound h.bound hw hg
    (fun F hF => properListing_list hnamed (list_eq_ok_iff.1 hF)) hdone
  refine ⟨hdisk.trans (disk_of_list limits now w₁ root), fun q hq => ?_⟩
  have hne := ht.ne_nil hq
  rcases hcases with ⟨e, he, hspace⟩ | ⟨F, hF, -, hshows⟩
  · -- the tree is as it was, and there is nothing at the new place
    obtain ⟨r, rfl, -⟩ := ht.below q hq
    rw [hspace]
    refine iff_of_false (fun ⟨c, hc⟩ => ?_) fun hf => ?_
    · exact h.sound.tree.shape.free_append ht.free r c hc
    · obtain ⟨F, hF⟩ := exists_list_of_found h hf hne
      exact nomatch he.symm.trans (list_eq_ok_iff.2 hF)
  · have hl := exists_lists_iff hnamed (list_eq_ok_iff.1 hF) (q := q)
    simp only [hshows, hne, false_and, false_or, hl]
    exact ⟨fun hl => hl.2.1, fun hf => ⟨hne, hf, hcovers q hq⟩⟩

/-- The check before a write matches the listings. -/
theorem guard_matches_listings (h : Current limits now root w) (hw : w.Writes op t) :
    (∀ fs F, fs.Named → list limits now root fs = .ok F → ∀ q,
      (∃ c, Lists F q c) ↔ q ≠ [] ∧ Found fs root q ∧ (bridge limits).Covers q) ∧
    ((∃ r, t.guard (host limits now) w = .error r) ↔ ∃ q ∈ t.places, ¬ (bridge limits).Covers q) ∧
    (∀ r, t.guard (host limits now) w = .error r →
      op.run (host limits now) w = (.error (.refused r), w) ∧ op.asked (host limits now) w = []) ∧
    ∀ w₁, (host limits now).performAll w t.calls = (.ok (), w₁) →
      ((∀ q ∈ t.places, Found w₁.disk root q) → ∃ F, list limits now root w₁.disk = .ok F ∧
        ((∃ r, t.guard (host limits now) w = .error r) ↔ ∃ q ∈ t.places, ∀ c, ¬ Lists F q c)) ∧
      (t.guard (host limits now) w = .ok () →
        (op.run (host limits now) w).2.disk = w₁.disk ∧
          ∀ q ∈ t.places, (∃ c, (op.run (host limits now) w).2.space.arena.Shows q c) ↔
            Found w₁.disk root q) ∧
      (op.Adds → ∀ q ∈ t.places, Found w₁.disk root q) ∧
      (w.disk.Straight → AreNames (Disk.steps root) →
        ((∀ q ∈ t.places, Found w₁.disk root q) ↔
          ∀ q ∈ t.places, (Disk.below root q).utf8ByteSize ≤ FileSystem.pathLimit)) := by
  have ht := hw.fit h.sound
  refine ⟨fun fs F hn hF q => exists_lists_iff hn hF, ?_, fun r hr => ?_, fun w₁ hdone => ?_⟩
  · rw [exists_error_iff, guard_eq_ok_iff h ht]
    simp only [not_forall, exists_prop]
  · exact ⟨World.run_of_guard_error h.bound hw hr, World.asked_of_guard_error h.bound hw hr⟩
  have hnamed : w₁.disk.Named := by
    have hn := named_performAll limits now t.calls h.named
    rwa [hdone] at hn
  refine ⟨fun hfound => ?_, fun hg => shows_run_iff h hw hg hdone,
    fun ha => found_of_adds h hw ha hdone, fun hfs hroot => ⟨fun hfound q hq => ?_,
      found_of_straight h hw hfs hroot hdone⟩⟩
  · obtain ⟨F, hF⟩ := exists_list_of_found h (hfound _ ht.top) (ht.ne_nil ht.top)
    exact ⟨F, hF, guard_eq_error_iff h ht hfound hnamed hF⟩
  · obtain ⟨i, hi, -⟩ := hfound q hq
    obtain ⟨p, hp⟩ := hi.stat (Disk.tidied_tidied root)
    rw [Disk.below_tidied] at hp
    exact (FileSystem.placeOf_eq_ok_iff.1 (FileSystem.stat_eq_ok_iff.1 hp).1).2.1

/-! ## A file and a link that are moved -/

/-- Something deep in a directory, and a file in another. -/
def deepDisk (i : FileItem) : FileSystem where
  items := .ofList [(["a"], .directory), (["x", "a"], .file [111, 110, 101]),
    (["r", "a"], .directory), (["d", "r", "a"], .directory), (["e", "d", "r", "a"], .directory),
    (["l", "e", "d", "r", "a"], i)]

/-- A workspace that is bound to the directory. -/
def deepWorld (i : FileItem) : World FileSystem :=
  (World.bind (host {} default) ⟨.new "/home/user" default, deepDisk i⟩ "/a/r").2

theorem mem_deepDisk {i j : FileItem} {r : Place} (hr : (deepDisk i).items.get? r = some j) :
    (r, j) ∈ [(["a"], FileItem.directory), (["x", "a"], .file [111, 110, 101]),
      (["r", "a"], .directory), (["d", "r", "a"], .directory), (["e", "d", "r", "a"], .directory),
      (["l", "e", "d", "r", "a"], i)] :=
  Table.mem_entries_iff.2 hr

theorem named_deepDisk (i : FileItem) : (deepDisk i).Named where
  items hr := by
    have hnames : ∀ r ∈ [["a"], ["x", "a"], ["r", "a"], ["d", "r", "a"], ["e", "d", "r", "a"],
        ["l", "e", "d", "r", "a"]], ∀ s ∈ r, Path.isName s = true := by decide +kernel
    exact hnames _ (List.mem_map_of_mem (f := Prod.fst) (mem_deepDisk hr))
  start := .nil

theorem straight_deepDisk (octets : List Nat) : (deepDisk (.file octets)).Straight where
  grounded := by
    intro name above i hi
    have hmem := mem_deepDisk hi
    simp only [List.mem_cons, Prod.mk.injEq, List.cons.injEq, List.not_mem_nil, or_false] at hmem
    rcases hmem with ⟨⟨-, rfl⟩, -⟩ | ⟨⟨-, rfl⟩, -⟩ | ⟨⟨-, rfl⟩, -⟩ | ⟨⟨-, rfl⟩, -⟩ | ⟨⟨-, rfl⟩, -⟩ |
      ⟨⟨-, rfl⟩, -⟩ <;> rfl
  linkless p t hi := by
    cases p with
    | nil => cases hi
    | cons name above =>
      have hmem := mem_deepDisk hi
      simp at hmem

theorem current_deepWorld {i : FileItem}
    (hok : (World.bind (host {} default) ⟨.new "/home/user" default, deepDisk i⟩ "/a/r").1.isOk) :
    Current {} default "/a/r" (deepWorld i) := by
  obtain ⟨n, hn⟩ := exists_of_isOk hok
  exact current_of_bind (named_deepDisk i) (Prod.ext hn rfl)

/-- What a move to the root writes, with what is seen of it. -/
theorem exists_writes (w : World FileSystem) (id : NodeId) (check : Writing → Bool)
    (hok : (w.space.checkMove id rootId none).isOk = true)
    (hcheck : (w.space.checkMove id rootId none).toOption.all (fun p =>
      !p.isSame && check (w.writingOf p [w.relocation p.node p.target.id p.name])) = true) :
    ∃ t, w.Writes (.move id rootId none) t ∧ check t = true := by
  obtain ⟨p, hp, hcheck⟩ := exists_of_all hok hcheck
  rw [Bool.and_eq_true, Bool.not_eq_true'] at hcheck
  exact ⟨_, .move hp hcheck.1, hcheck.2⟩

/-- A directory with a file in it is moved, and both are shown. -/
theorem listed_deepFile : ∃ t w₁, (deepWorld (.file [120])).Writes (.move "n2" rootId none) t ∧
    t.places = [["e"], ["e", "l"]] ∧
    (host {} default).performAll (deepWorld (.file [120])) t.calls = (.ok (), w₁) ∧
      ∀ q ∈ t.places, ∃ c, ((Operation.move "n2" rootId none).run (host {} default)
        (deepWorld (.file [120]))).2.space.arena.Shows q c := by
  have hcurrent := current_deepWorld (i := .file [120]) (by decide +kernel)
  have hdisk : (deepWorld (.file [120])).disk = deepDisk (.file [120]) := by decide +kernel
  obtain ⟨t, hw, ht⟩ := exists_writes (deepWorld (.file [120])) "n2"
    (fun t => t.places == [["e"], ["e", "l"]] &&
      (t.guard (host {} default) (deepWorld (.file [120]))).isOk &&
        ((host {} default).performAll (deepWorld (.file [120])) t.calls).1.isOk)
    (by decide +kernel) (by decide +kernel)
  simp only [Bool.and_eq_true, beq_iff_eq] at ht
  obtain ⟨⟨hplaces, hguard⟩, hdone⟩ := ht
  obtain ⟨_, hguard⟩ := exists_of_isOk hguard
  obtain ⟨_, hdone⟩ := exists_of_isOk hdone
  have hdone : (host {} default).performAll (deepWorld (.file [120])) t.calls = (.ok (), _) :=
    Prod.ext hdone rfl
  have hroot : ∀ s ∈ Disk.steps "/a/r", Path.isName s = true := by decide +kernel
  have hsize : ∀ q ∈ [["e"], ["e", "l"]],
      (Disk.below "/a/r" q).utf8ByteSize ≤ FileSystem.pathLimit := by decide +kernel
  obtain ⟨-, -, -, hall⟩ := guard_matches_listings hcurrent hw
  obtain ⟨-, hshows, -, hstraight⟩ := hall _ hdone
  have hfound := (hstraight (hdisk ▸ straight_deepDisk [120]) hroot).2 (hplaces ▸ hsize)
  exact ⟨t, _, hw, hplaces, hdone, fun q hq => ((hshows hguard).2 q hq).2 (hfound q hq)⟩

/-- A link that is moved is let through and leads nowhere then: it is not shown any more. -/
theorem not_listed_deepLink : ∃ t w₁,
    (deepWorld (.link "../../../x")).Writes (.move "n3" rootId none) t ∧ t.places = [["l"]] ∧
      t.guard (host {} default) (deepWorld (.link "../../../x")) = .ok () ∧
      (host {} default).performAll (deepWorld (.link "../../../x")) t.calls = (.ok (), w₁) ∧
        ∀ c, ¬ ((Operation.move "n3" rootId none).run (host {} default)
          (deepWorld (.link "../../../x"))).2.space.arena.Shows ["l"] c := by
  have hcurrent := current_deepWorld (i := .link "../../../x") (by decide +kernel)
  obtain ⟨t, hw, ht⟩ := exists_writes (deepWorld (.link "../../../x")) "n3"
    (fun t => t.places == [["l"]] &&
      (t.guard (host {} default) (deepWorld (.link "../../../x"))).isOk &&
        ((host {} default).performAll (deepWorld (.link "../../../x")) t.calls).1.isOk &&
          !(((host {} default).performAll (deepWorld (.link "../../../x")) t.calls).2.disk.stat
            "/a/r/l").isOk)
    (by decide +kernel) (by decide +kernel)
  simp only [Bool.and_eq_true, beq_iff_eq] at ht
  obtain ⟨⟨⟨hplaces, hguard⟩, hdone⟩, hgone⟩ := ht
  obtain ⟨_, hguard⟩ := exists_of_isOk hguard
  obtain ⟨_, hdone⟩ := exists_of_isOk hdone
  have hdone : (host {} default).performAll (deepWorld (.link "../../../x")) t.calls =
      (.ok (), _) := Prod.ext hdone rfl
  refine ⟨t, _, hw, hplaces, hguard, hdone, fun c hc => ?_⟩
  have hin : ["l"] ∈ t.places := by simp [hplaces]
  obtain ⟨i, hi, -⟩ := ((shows_run_iff hcurrent hw hguard hdone).2 _ hin).1 ⟨c, hc⟩
  obtain ⟨p, hp⟩ := hi.stat (Disk.tidied_tidied "/a/r")
  rw [show Disk.below (Disk.tidied "/a/r") ["l"] = "/a/r/l" by decide +kernel] at hp
  simp [hp, Except.isOk, Except.toBool] at hgone

end LocalDisk

end Workbench
