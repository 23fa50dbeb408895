import Workbench.Disk.Memory
import Workbench.Proofs.Shape
import Workbench.Proofs.Table

/-!
# Calls to a disk in memory

A disk in memory that is not told to fail carries out every call that can be carried out, and what
it holds below a root becomes what the call makes of it. Paths that do not lie below the root play
no part, whatever they look like.
-/

namespace Workbench.MemoryDisk

open Workbench.Path (AreNames)
open Disk (IsRoot below trail)

variable {d d' : MemoryDisk} {root path : String} {S S' : Shape} {p p' q r : List String}
  {s : String} {c : Option String} {now : Timestamp}

/-! ## Paths within paths -/

theorem isWithin_iff {path ancestor : String} : isWithin path ancestor = true ↔
    path = ancestor ∨ ∃ cs, path.toList = ancestor.toList ++ '/' :: cs := by
  have hslash : ("/" : String).toList = ['/'] := by decide
  rw [isWithin, Bool.or_eq_true, beq_iff_eq, Text.startsWith, List.isPrefixOf_iff_prefix,
    String.toList_append, hslash]
  simp only [List.IsPrefix, List.append_assoc, List.singleton_append, eq_comm]

theorem isWithin_below_iff (hr : IsRoot root) (hp : AreNames p) (hq : AreNames q) :
    isWithin (below root q) (below root p) = true ↔ p <+: q := by
  rw [isWithin_iff]
  constructor
  · rintro (he | ⟨cs, he⟩)
    · exact Disk.below_injective hr hq hp he ▸ List.prefix_rfl
    · rw [Disk.toList_below hr, Disk.toList_below hr, List.append_assoc] at he
      obtain ⟨r, -, rfl⟩ := Disk.prefix_of_trail hp.no_slash hq (List.append_cancel_left he)
      exact List.prefix_append p r
  · rintro ⟨r, rfl⟩
    cases r with
    | nil => exact .inl (by rw [List.append_nil])
    | cons s r =>
      exact .inr ⟨s.toList ++ trail r, by rw [Disk.toList_below_append hr, Disk.trail_cons]⟩

theorem isWithin_root (hr : IsRoot root) (hq : AreNames q) :
    isWithin (below root q) root = true := by
  have := (isWithin_below_iff hr .nil hq).2 (List.nil_prefix)
  rwa [Disk.below_nil hr] at this

/-- What lies within a path of names below a root lies within the root. -/
theorem isWithin_root_of_below (hr : IsRoot root) (hp : AreNames p)
    (h : isWithin path (below root p) = true) : isWithin path root = true := by
  rcases isWithin_iff.1 h with rfl | ⟨cs, he⟩
  · exact isWithin_root hr hp
  · rw [Disk.toList_below hr, List.append_assoc] at he
    cases p with
    | nil => exact isWithin_iff.2 (.inr ⟨cs, by simpa using he⟩)
    | cons s p =>
      rw [Disk.trail_cons, List.cons_append] at he
      exact isWithin_iff.2 (.inr ⟨_, he⟩)

/-! ## What a disk holds below a root -/

/-- What lies at a path: the text of a file, or nothing for a directory. -/
def shown? (d : MemoryDisk) (path : String) : Option (Option String) :=
  (d.items.get? path).map MemoryItem.content

/-- A disk that is not told to leave anything out or to fail. -/
structure Plain (d : MemoryDisk) : Prop where
  hidden : d.hidden = []
  failures : d.failures = .empty
  breakdowns : d.breakdowns = .empty

/-- What a disk holds below a root is the shape, under the paths of its places. -/
structure Mirrors (root : String) (d : MemoryDisk) (S : Shape) : Prop where
  plain : d.Plain
  shown? : ∀ {path c}, isWithin path root = true →
    (d.shown? path = some c ↔ ∃ q, path = below root q ∧ S q c)

theorem Mirrors.shown?_below (h : Mirrors root d S) (hr : IsRoot root) (hS : S.IsTree)
    (hq : AreNames q) : d.shown? (below root q) = some c ↔ S q c := by
  rw [h.shown? (isWithin_root hr hq)]
  constructor
  · rintro ⟨q', he, hs⟩
    rwa [Disk.below_injective hr hq (hS.names hs) he]
  · exact fun hs => ⟨q, rfl, hs⟩

theorem holds_iff : d.holds path = true ↔ ∃ c, d.shown? path = some c := by
  rw [holds, Table.contains_iff]
  simp only [MemoryDisk.shown?, Option.map_eq_some_iff]
  constructor
  · rintro ⟨i, hi⟩
    exact ⟨_, i, hi, rfl⟩
  · rintro ⟨_, i, hi, -⟩
    exact ⟨i, hi⟩

theorem isDirectory_iff : d.isDirectory path = true ↔ d.shown? path = some none := by
  unfold isDirectory MemoryDisk.shown?
  cases d.items.get? path with
  | none => simp
  | some i => simp

theorem Mirrors.holds_below (h : Mirrors root d S) (hr : IsRoot root) (hS : S.IsTree)
    (hs : S q c) : d.holds (below root q) = true :=
  holds_iff.2 ⟨c, (h.shown?_below hr hS (hS.names hs)).2 hs⟩

theorem Mirrors.not_holds_below (h : Mirrors root d S) (hr : IsRoot root) (hS : S.IsTree)
    (hq : AreNames q) (hf : S.Free q) : d.holds (below root q) = false := by
  rw [Bool.eq_false_iff]
  intro hh
  obtain ⟨c, hc⟩ := holds_iff.1 hh
  exact hf c ((h.shown?_below hr hS hq).1 hc)

/-! ## Changes -/

theorem shown?_put (d : MemoryDisk) (path path' : String) (content : Option String)
    (now : Timestamp) : (d.put path content now).shown? path' =
      if path' = path then some content else d.shown? path' := by
  simp only [MemoryDisk.shown?, put, Table.get?_insert]
  split <;> rfl

theorem shown?_remove (d : MemoryDisk) (path path' : String) : (d.remove path).shown? path' =
    if isWithin path' path then none else d.shown? path' := by
  have key : ∀ i, Table.get? (d.items.filter fun p _ => !isWithin p path) path' = some i ↔
      d.items.get? path' = some i ∧ isWithin path' path = false := fun i => by
    rw [Table.get?_filter_iff, Bool.not_eq_true']
  simp only [MemoryDisk.shown?, remove]
  split
  · next hw =>
    rw [Option.map_eq_none_iff, Option.eq_none_iff_forall_ne_some]
    intro i hi
    rw [((key i).1 hi).2] at hw
    cases hw
  · next hw =>
    congr 1
    refine Option.ext fun i => ?_
    rw [key]
    exact ⟨And.left, fun hi => ⟨hi, by simpa using hw⟩⟩

/-- The path at which something is after a move. -/
def rebased (old new path : String) : String :=
  if isWithin path old then new ++ Text.dropChars path old.length else path

theorem rebased_below (hr : IsRoot root) (hp : AreNames p) (hq : AreNames (p ++ r))
    (p' : List String) :
    rebased (below root p) (below root p') (below root (p ++ r)) = below root (p' ++ r) := by
  rw [rebased, if_pos ((isWithin_below_iff hr hp hq).2 (List.prefix_append p r))]
  apply String.toList_inj.1
  rw [String.toList_append, Text.dropChars, String.toList_ofList, Disk.toList_below_append hr p r,
    Disk.toList_below_append hr p' r, ← String.length_toList, List.drop_left]

/-- What moves goes where nothing is, so that nothing is lost. -/
theorem Mirrors.rebased_injective (h : Mirrors root d S) (hr : IsRoot root) (hS : S.IsTree)
    (hp : AreNames p) (hp' : AreNames p') (hf : S.Free p') {k k' : String} {c c' : Option String}
    (hk : d.shown? k = some c) (hk' : d.shown? k' = some c')
    (he : rebased (below root p) (below root p') k = rebased (below root p) (below root p') k') :
    k = k' := by
  -- a path within the old one is that of a place, and its new place is free
  have inside : ∀ {k c}, d.shown? k = some c → isWithin k (below root p) = true →
      ∃ r, k = below root (p ++ r) ∧ AreNames (p ++ r) ∧ S (p ++ r) c := by
    intro k c hk hw
    obtain ⟨q, rfl, hs⟩ := (h.shown? (isWithin_root_of_below hr hp hw)).1 hk
    obtain ⟨r, rfl⟩ := (isWithin_below_iff hr hp (hS.names hs)).1 hw
    exact ⟨r, rfl, hS.names hs, hs⟩
  have apart : ∀ {k k' c c'}, d.shown? k = some c → d.shown? k' = some c' →
      isWithin k (below root p) = true → isWithin k' (below root p) = false →
      rebased (below root p) (below root p') k ≠ rebased (below root p) (below root p') k' := by
    intro k k' c c' hk hk' hw hw' he
    obtain ⟨r, rfl, hn, -⟩ := inside hk hw
    rw [rebased_below hr hp hn, rebased, if_neg (by simp [hw'])] at he
    have hn' := AreNames.append_iff.2 ⟨hp', (AreNames.append_iff.1 hn).2⟩
    rw [← he] at hk'
    exact hS.free_append hf r c' ((h.shown?_below hr hS hn').1 hk')
  cases hw : isWithin k (below root p) with
  | true =>
    cases hw' : isWithin k' (below root p) with
    | true =>
      obtain ⟨r, rfl, hn, -⟩ := inside hk hw
      obtain ⟨r', rfl, hn', -⟩ := inside hk' hw'
      rw [rebased_below hr hp hn, rebased_below hr hp hn'] at he
      have hr' := List.append_cancel_left <| Disk.below_injective hr
        (AreNames.append_iff.2 ⟨hp', (AreNames.append_iff.1 hn).2⟩)
        (AreNames.append_iff.2 ⟨hp', (AreNames.append_iff.1 hn').2⟩) he
      rw [hr']
    | false => exact absurd he (apart hk hk' hw hw')
  | false =>
    cases hw' : isWithin k' (below root p) with
    | true => exact absurd he.symm (apart hk' hk hw' hw)
    | false => rwa [rebased, rebased, if_neg (by simp [hw]), if_neg (by simp [hw'])] at he

theorem Mirrors.shown?_relocate (h : Mirrors root d S) (hr : IsRoot root) (hS : S.IsTree)
    (hp : AreNames p) (hp' : AreNames p') (hf : S.Free p') :
    (d.relocate (below root p) (below root p')).shown? path = some c ↔
      ∃ k, rebased (below root p) (below root p') k = path ∧ d.shown? k = some c := by
  have hkey : ∀ {k}, k ∈ d.items.keys → ∃ c, d.shown? k = some c := fun hk => by
    obtain ⟨i, hi⟩ := Table.mem_keys_iff.1 hk
    exact ⟨i.content, by rw [MemoryDisk.shown?, hi]; rfl⟩
  have hnodup : ((d.items.entries.map fun e =>
      (rebased (below root p) (below root p') e.1, e.2)).map Prod.fst).Nodup := by
    have : d.items.keys.Nodup := d.items.nodup
    have := this.map_on fun k hk k' hk' he =>
      have ⟨_, hc⟩ := hkey hk
      have ⟨_, hc'⟩ := hkey hk'
      h.rebased_injective hr hS hp hp' hf hc hc' he
    simpa [Table.keys, Function.comp_def] using this
  have key : ∀ i, (d.relocate (below root p) (below root p')).items.get? path = some i ↔
      ∃ k, rebased (below root p) (below root p') k = path ∧ d.items.get? k = some i := by
    intro i
    have hitems : (d.relocate (below root p) (below root p')).items =
        Table.ofList (d.items.entries.map fun e =>
          (rebased (below root p) (below root p') e.1, e.2)) := rfl
    rw [hitems, Table.get?_ofList_iff hnodup, List.mem_map]
    constructor
    · rintro ⟨⟨k, j⟩, hk, he⟩
      obtain ⟨rfl, rfl⟩ := Prod.mk.inj he
      exact ⟨k, rfl, Table.mem_entries_iff.1 hk⟩
    · rintro ⟨k, rfl, hk⟩
      exact ⟨(k, i), Table.mem_entries_iff.2 hk, rfl⟩
  simp only [MemoryDisk.shown?, Option.map_eq_some_iff, key]
  constructor
  · rintro ⟨i, ⟨k, rfl, hk⟩, rfl⟩
    exact ⟨k, rfl, i, hk, rfl⟩
  · rintro ⟨k, rfl, i, hk, rfl⟩
    exact ⟨i, ⟨k, rfl, hk⟩, rfl⟩

/-! ## What becomes of the shape -/

theorem Mirrors.put_new (h : Mirrors root d S) (hr : IsRoot root) (hS : S.IsTree)
    (hq : AreNames q) (hf : S.Free q) (c : Option String) (now : Timestamp) :
    Mirrors root (d.put (below root q) c now) (S.grown q c) where
  plain := ⟨h.plain.hidden, h.plain.failures, h.plain.breakdowns⟩
  shown? {path c'} hw := by
    rw [shown?_put]
    split
    · next he =>
      subst he
      rw [Option.some.injEq]
      constructor
      · rintro rfl
        exact ⟨q, rfl, .inr ⟨rfl, rfl⟩⟩
      · rintro ⟨q', he, hs | ⟨rfl, rfl⟩⟩
        · exact absurd (Disk.below_injective hr hq (hS.names hs) he ▸ hs) (hf c')
        · rfl
    · next he =>
      rw [h.shown? hw]
      constructor
      · rintro ⟨q', rfl, hs⟩
        exact ⟨q', rfl, .inl hs⟩
      · rintro ⟨q', rfl, hs | ⟨rfl, -⟩⟩
        · exact ⟨q', rfl, hs⟩
        · exact absurd rfl he

theorem Mirrors.put_file (h : Mirrors root d S) (hr : IsRoot root) (hS : S.IsTree)
    (hs : S q c) (text : String) (now : Timestamp) :
    Mirrors root (d.put (below root q) (some text) now) (S.refilled q text) where
  plain := ⟨h.plain.hidden, h.plain.failures, h.plain.breakdowns⟩
  shown? {path c'} hw := by
    rw [shown?_put]
    split
    · next he =>
      subst he
      rw [Option.some.injEq]
      constructor
      · rintro rfl
        exact ⟨q, rfl, .inr ⟨rfl, rfl⟩⟩
      · rintro ⟨q', he, ⟨hs', hne⟩ | ⟨rfl, rfl⟩⟩
        · exact absurd (Disk.below_injective hr (hS.names hs) (hS.names hs') he).symm hne
        · rfl
    · next he =>
      rw [h.shown? hw]
      constructor
      · rintro ⟨q', rfl, hs'⟩
        exact ⟨q', rfl, .inl ⟨hs', fun hq => he (by rw [hq])⟩⟩
      · rintro ⟨q', rfl, ⟨hs', -⟩ | ⟨rfl, -⟩⟩
        · exact ⟨q', rfl, hs'⟩
        · exact absurd rfl he

theorem Mirrors.remove (h : Mirrors root d S) (hr : IsRoot root) (hS : S.IsTree)
    (hp : AreNames p) : Mirrors root (d.remove (below root p)) (S.pruned p) where
  plain := ⟨h.plain.hidden, h.plain.failures, h.plain.breakdowns⟩
  shown? {path c'} hw := by
    rw [shown?_remove]
    split
    · next hin =>
      refine ⟨fun hn => (nomatch hn), ?_⟩
      rintro ⟨q, rfl, hs, hnot⟩
      exact absurd ((isWithin_below_iff hr hp (hS.names hs)).1 hin) hnot
    · next hout =>
      rw [h.shown? hw]
      constructor
      · rintro ⟨q, rfl, hs⟩
        exact ⟨q, rfl, hs, fun hpre => hout ((isWithin_below_iff hr hp (hS.names hs)).2 hpre)⟩
      · rintro ⟨q, rfl, hs, -⟩
        exact ⟨q, rfl, hs⟩

theorem Mirrors.relocate (h : Mirrors root d S) (hr : IsRoot root) (hS : S.IsTree)
    (hp : AreNames p) (hp' : AreNames p') (hf : S.Free p') :
    Mirrors root (d.relocate (below root p) (below root p')) (S.shifted p p') where
  plain := ⟨h.plain.hidden, h.plain.failures, h.plain.breakdowns⟩
  shown? {path c'} hw := by
    rw [h.shown?_relocate hr hS hp hp' hf]
    constructor
    · rintro ⟨k, rfl, hk⟩
      cases hin : isWithin k (below root p) with
      | true =>
        obtain ⟨q, rfl, hs⟩ := (h.shown? (isWithin_root_of_below hr hp hin)).1 hk
        obtain ⟨r, rfl⟩ := (isWithin_below_iff hr hp (hS.names hs)).1 hin
        exact ⟨p' ++ r, rebased_below hr hp (hS.names hs) p', .inr ⟨r, rfl, hs⟩⟩
      | false =>
        rw [rebased, if_neg (by simp [hin])] at hw ⊢
        obtain ⟨q, rfl, hs⟩ := (h.shown? hw).1 hk
        refine ⟨q, rfl, .inl ⟨hs, fun hpre => ?_⟩⟩
        rw [(isWithin_below_iff hr hp (hS.names hs)).2 hpre] at hin
        cases hin
    · rintro ⟨q, rfl, ⟨hs, hnot⟩ | ⟨r, rfl, hs⟩⟩
      · refine ⟨below root q, ?_, (h.shown?_below hr hS (hS.names hs)).2 hs⟩
        exact if_neg fun hin => hnot ((isWithin_below_iff hr hp (hS.names hs)).1 hin)
      · exact ⟨below root (p ++ r), rebased_below hr hp (hS.names hs) p',
          (h.shown?_below hr hS (hS.names hs)).2 hs⟩

/-! ## Calls -/

/-- A disk whose log and whose counts of successes are other ones. -/
theorem Mirrors.of_items (h : Mirrors root d S) (hi : d'.items = d.items) (hp : d'.Plain) :
    Mirrors root d' S where
  plain := hp
  shown? hw := by
    rw [MemoryDisk.shown?, hi]
    exact h.shown? hw

theorem Mirrors.logged (h : Mirrors root d S) (call : LoggedCall) :
    Mirrors root (d.logged call) S :=
  h.of_items rfl ⟨h.plain.hidden, h.plain.failures, h.plain.breakdowns⟩

theorem Mirrors.succeed (h : Mirrors root d S) (operation path : String) :
    ∃ path' d', d.succeed operation path = (.done path', d') ∧ Mirrors root d' S :=
  ⟨some path, _, rfl, h.of_items rfl ⟨h.plain.hidden, h.plain.failures, h.plain.breakdowns⟩⟩

theorem perform_of_plain (h : d.Plain) (now : Timestamp) (call : DiskCall) :
    MemoryDisk.perform now call d = (.ok ((d.logged (.change call)).carryOut now call).1,
      ((d.logged (.change call)).carryOut now call).2) := by
  have hb : (d.logged (.change call)).breakdowns = .empty := h.breakdowns
  have hf : (d.logged (.change call)).failures = .empty := h.failures
  simp only [MemoryDisk.perform, hb, Table.get?_empty, plannedFailure?, hf, Option.filter_none]

theorem Mirrors.create (h : Mirrors root d S) (hr : IsRoot root) (hS : S.IsTree)
    (hp : S p none) (hs : Path.isName s = true) (hf : S.Free (p ++ [s])) (operation : String)
    (c : Option String) (taken : String) (now : Timestamp) :
    ∃ path d', d.create operation (below root p) s c taken now = (.done path, d') ∧
      Mirrors root d' (S.grown (p ++ [s]) c) := by
  have hn := AreNames.append_iff.2 ⟨hS.names hp, AreNames.singleton_iff.2 hs⟩
  have hdir := isDirectory_iff.2 ((h.shown?_below hr hS (hS.names hp)).2 hp)
  have he : d.create operation (below root p) s c taken now =
      (d.put (below root (p ++ [s])) c now).succeed operation (below root (p ++ [s])) := by
    simp only [MemoryDisk.create, Disk.below_below root (hS.names hp),
      h.not_holds_below hr hS hn hf, hdir]
    rfl
  rw [he]
  exact (h.put_new hr hS hn hf c now).succeed _ _

theorem Mirrors.moveTo (h : Mirrors root d S) (hr : IsRoot root) (hS : S.IsTree)
    (hp : S p c) (hp' : AreNames p') (hf : S.Free p') (operation : String) :
    ∃ path d', d.moveTo operation (below root p) (below root p') = (.done path, d') ∧
      Mirrors root d' (S.shifted p p') := by
  have he : d.moveTo operation (below root p) (below root p') =
      (d.relocate (below root p) (below root p')).succeed operation (below root p') := by
    simp only [MemoryDisk.moveTo, h.holds_below hr hS hp, h.not_holds_below hr hS hp' hf]
    rfl
  rw [he]
  exact (h.relocate hr hS (hS.names hp) hp' hf).succeed _ _

/-- A disk in memory carries out what can be carried out. -/
theorem Mirrors.perform (h : Mirrors root d S) (hr : IsRoot root) (hS : S.IsTree)
    {call : DiskCall} (hb : Shape.Becomes root S call S') (now : Timestamp) :
    ∃ path d', MemoryDisk.perform now call d = (.ok (.done path), d') ∧ Mirrors root d' S' := by
  suffices key : ∀ {d}, Mirrors root d S →
      ∃ path d', d.carryOut now call = (.done path, d') ∧ Mirrors root d' S' by
    obtain ⟨path, d', he, hm⟩ := key (h.logged (.change call))
    exact ⟨path, d', by rw [perform_of_plain h.plain, he], hm⟩
  intro d h
  cases hb with
  | createFile hp hs hf text => exact h.create hr hS hp hs hf _ _ _ now
  | createDirectory hp hs hf => exact h.create hr hS hp hs hf _ _ _ now
  | @delete p _ hp =>
    have he : d.carryOut now (.delete (below root p)) =
        (d.remove (below root p)).succeed "delete" (below root p) := by
      simp only [carryOut, h.holds_below hr hS hp]
      rfl
    rw [he]
    exact (h.remove hr hS (hS.names hp)).succeed _ _
  | rename hp hn hf => exact h.moveTo hr hS hp hn hf _
  | move hp hn hf => exact h.moveTo hr hS hp hn hf _
  | @writeFile p _ hp text =>
    have hfile : d.isDirectory (below root p) = false := by
      rw [Bool.eq_false_iff, Ne, isDirectory_iff, h.shown?_below hr hS (hS.names hp)]
      intro hd
      cases hS.single hp hd
    have he : d.carryOut now (.writeFile (below root p) text) =
        (d.put (below root p) (some text) now).succeed "write_file" (below root p) := by
      simp only [carryOut, hfile]
      rfl
    rw [he]
    exact (h.put_file hr hS hp text now).succeed _ _

end Workbench.MemoryDisk
