import Mathlib.Data.List.Nodup
import Workbench.Proofs.Disk.Memory

/-!
# Listings of a disk in memory

The listing below a root holds what the disk holds there, in whatever order. A listing finds what
lies in a directory by splitting every path at its last slash, and goes down at most as many levels
as the disk holds items; there are never more, because the places above a place are all held too
(`Mirrors.length_lt_size`).
-/

namespace Workbench.MemoryDisk

open Workbench.Path (AreNames)
open Disk (IsRoot below trail)

variable {d : MemoryDisk} {root path directory : String} {S : Shape} {q r : List String}
  {s : String} {c : Option String} {x : Placed} {fuel : Nat}

/-! ## Splitting paths -/

theorem splitLast_of_append {path directory s : String} (hs : '/' ∉ s.toList)
    (h : path.toList = directory.toList ++ '/' :: s.toList) : splitLast path = (directory, s) := by
  have hpass : ∀ c ∈ s.toList.reverse, (c != '/') = true := fun c hc => by
    rw [List.mem_reverse] at hc
    exact bne_iff_ne.2 fun he => hs (he ▸ hc)
  have hrev : path.toList.reverse = s.toList.reverse ++ '/' :: directory.toList.reverse := by
    rw [h]
    simp
  have hdrop : path.toList.reverse.dropWhile (· != '/') = '/' :: directory.toList.reverse := by
    rw [hrev, List.dropWhile_append_of_pos hpass]
    rfl
  have htake : path.toList.reverse.takeWhile (· != '/') = s.toList.reverse := by
    rw [hrev, List.takeWhile_append_of_pos hpass]
    simp
  simp only [splitLast, hdrop, htake, List.drop_succ_cons, List.drop_zero, List.reverse_reverse,
    String.ofList_toList]

/-- A path with something before its last slash is put together from its two parts. -/
theorem append_of_splitLast (hd : (splitLast path).1 ≠ "") :
    path.toList = (splitLast path).1.toList ++ '/' :: (splitLast path).2.toList := by
  have hsplit := List.takeWhile_append_dropWhile (p := (· != '/')) (l := path.toList.reverse)
  cases hw : path.toList.reverse.dropWhile (· != '/') with
  | nil =>
    rw [splitLast, hw] at hd
    exact absurd rfl hd
  | cons c rest =>
    have hc : c = '/' := by
      have := List.head?_dropWhile_not (· != '/') path.toList.reverse
      simpa [hw] using this
    rw [hw] at hsplit
    have hrev := congrArg List.reverse hsplit
    rw [List.reverse_reverse, List.reverse_append, List.reverse_cons] at hrev
    simp only [splitLast, hw, List.drop_succ_cons, List.drop_zero, String.toList_ofList]
    simpa [hc] using hrev.symm

theorem splitLast_below (hr : IsRoot root) (hs : Path.isName s = true) (q : List String) :
    splitLast (below root (q ++ [s])) = (below root q, s) := by
  refine splitLast_of_append (Path.isName_iff.1 hs).2.2.2 ?_
  rw [Disk.toList_below_append hr, Disk.trail_cons, Disk.trail_nil, List.append_nil]

theorem below_ne_empty (hr : IsRoot root) (q : List String) : below root q ≠ "" := by
  intro he
  have ht := congrArg String.toList he
  rw [Disk.toList_below hr] at ht
  have hroot : root = "" := String.toList_inj.1 (List.append_eq_nil_iff.1 ht).1
  exact hr.steps_ne_nil (by rw [hroot]; decide)

theorem below_append (hr : IsRoot root) (q : List String) (s : String) :
    below root q ++ "/" ++ s = below root (q ++ [s]) := by
  apply String.toList_inj.1
  have hslash : ("/" : String).toList = ['/'] := by decide
  rw [Disk.toList_below_append hr, Disk.trail_cons, Disk.trail_nil, String.toList_append,
    String.toList_append, hslash]
  simp

/-! ## What lies in a directory -/

theorem mem_placed_iff : x ∈ d.placed ↔ ∃ k i, d.items.get? k = some i ∧
    x = ⟨(splitLast k).1, (splitLast k).2, i⟩ := by
  simp only [placed, List.mem_map, Prod.exists]
  constructor
  · rintro ⟨k, i, hk, rfl⟩
    exact ⟨k, i, Table.mem_entries_iff.1 hk, rfl⟩
  · rintro ⟨k, i, hk, rfl⟩
    exact ⟨k, i, Table.mem_entries_iff.2 hk, rfl⟩

theorem itemsIn_perm (hd : d.hidden = []) (all : List Placed) (directory : String) :
    (d.itemsIn [] all directory).Perm (all.filter fun x => x.directory == directory) := by
  have hf : (all.filter fun x => x.directory == directory && !([] : List String).contains x.name &&
      !d.hidden.contains x.name) = all.filter fun x => x.directory == directory := by
    rw [hd]
    simp
  simp only [itemsIn, hf]
  split
  · exact (List.reverse_perm _).trans (List.mergeSort_perm _ _)
  · exact List.mergeSort_perm _ _

/-- What lies directly in a directory of the shape is what the shape has there. -/
theorem Mirrors.mem_itemsIn_iff (h : Mirrors root d S) (hr : IsRoot root) (hS : S.IsTree)
    (hq : AreNames q) : x ∈ d.itemsIn [] d.placed (below root q) ↔ ∃ s i, S (q ++ [s]) i.content ∧
      d.items.get? (below root (q ++ [s])) = some i ∧ x = ⟨below root q, s, i⟩ := by
  rw [(itemsIn_perm h.plain.hidden _ _).mem_iff, List.mem_filter, mem_placed_iff, beq_iff_eq]
  constructor
  · rintro ⟨⟨k, i, hk, rfl⟩, hdir⟩
    have hdir : (splitLast k).1 = below root q := hdir
    have hpath := append_of_splitLast (hdir ▸ below_ne_empty hr q)
    rw [hdir] at hpath
    have hw : isWithin k root = true :=
      isWithin_root_of_below hr hq (isWithin_iff.2 (.inr ⟨_, hpath⟩))
    obtain ⟨q', rfl, hs⟩ := (h.shown? hw).1 (show d.shown? k = some i.content by
      rw [MemoryDisk.shown?, hk]; rfl)
    rcases List.eq_nil_or_concat q' with rfl | ⟨q', s, rfl⟩
    · -- the root itself is shorter than anything in it
      rw [Disk.toList_below hr, Disk.toList_below hr] at hpath
      have := congrArg List.length hpath
      simp at this
    · rw [List.concat_eq_append] at *
      have hname := AreNames.singleton_iff.1 (AreNames.append_iff.1 (hS.names hs)).2
      have hsplit := splitLast_below hr hname q'
      rw [hsplit] at hdir ⊢
      obtain rfl := Disk.below_injective hr (AreNames.append_iff.1 (hS.names hs)).1 hq hdir
      exact ⟨s, i, hs, hk, rfl⟩
  · rintro ⟨s, i, hs, hi, rfl⟩
    have hname := AreNames.singleton_iff.1 (AreNames.append_iff.1 (hS.names hs)).2
    exact ⟨⟨_, i, hi, by rw [splitLast_below hr hname]⟩, rfl⟩

theorem Mirrors.exists_item (h : Mirrors root d S) (hr : IsRoot root) (hS : S.IsTree)
    (hs : S q c) : ∃ i, d.items.get? (below root q) = some i ∧ i.content = c :=
  Option.map_eq_some_iff.1 ((h.shown?_below hr hS (hS.names hs)).2 hs)

theorem Mirrors.nodup_itemsIn (h : Mirrors root d S) (hr : IsRoot root) (hS : S.IsTree)
    (hq : AreNames q) : ((d.itemsIn [] d.placed (below root q)).map Placed.name).Nodup := by
  refine List.Nodup.map_on (fun x hx y hy he => ?_) ?_
  · obtain ⟨s, i, -, hi, rfl⟩ := (h.mem_itemsIn_iff hr hS hq).1 hx
    obtain ⟨t, j, -, hj, rfl⟩ := (h.mem_itemsIn_iff hr hS hq).1 hy
    obtain rfl : s = t := he
    obtain rfl := Option.some.inj (hi.symm.trans hj)
    rfl
  · rw [(itemsIn_perm h.plain.hidden _ _).nodup_iff, placed, List.filter_map]
    refine List.Nodup.map_on (fun e he e' he' heq => ?_)
      ((List.Nodup.of_map _ d.items.nodup).filter _)
    obtain ⟨k, i⟩ := e
    obtain ⟨k', i'⟩ := e'
    have hdir : (splitLast k).1 = below root q := by simpa using (List.mem_filter.1 he).2
    have hdir' : (splitLast k').1 = below root q := by simpa using (List.mem_filter.1 he').2
    simp only [Placed.mk.injEq] at heq
    have hk := append_of_splitLast (hdir ▸ below_ne_empty hr q)
    have hk' := append_of_splitLast (hdir' ▸ below_ne_empty hr q)
    rw [heq.1, heq.2.1, ← hk'] at hk
    rw [String.toList_inj.1 hk, heq.2.2]

/-! ## Entries -/

/-- The entry of something in a directory whose own entries are listed with some fuel. -/
def entryOf (d : MemoryDisk) (fuel : Nat) (directory : String) (x : Placed) : DiskEntry :=
  match x.item.content with
  | some text => .file x.name text text.utf8ByteSize x.item.modifiedAt
  | none =>
    .directory x.name x.item.modifiedAt
      (d.entriesOf [] d.placed fuel (directory ++ "/" ++ x.name))

theorem entriesOf_succ (d : MemoryDisk) (fuel : Nat) (directory : String) :
    d.entriesOf [] d.placed (fuel + 1) directory =
      (d.itemsIn [] d.placed directory).map (d.entryOf fuel directory) := by
  rw [entriesOf]
  rfl

theorem name_entryOf : (d.entryOf fuel directory x).name = x.name := by
  unfold entryOf
  split <;> rfl

theorem shown_entryOf : (d.entryOf fuel directory x).shown = x.item.content := by
  unfold entryOf
  split
  · next h => exact h.symm
  · next h => exact h.symm

/-- A listing of what lies below a place of a shape. -/
structure ListsBelow (S : Shape) (q : List String) (F : List DiskEntry) : Prop where
  proper : ProperListing F
  lists_iff : ∀ {r c}, Lists F r c ↔ r ≠ [] ∧ S (q ++ r) c

/-- The entries of a directory are those of what lies directly in it. -/
theorem Mirrors.mem_entries_iff (h : Mirrors root d S) (hr : IsRoot root) (hS : S.IsTree)
    (hq : AreNames q) {e : DiskEntry} :
    e ∈ d.entriesOf [] d.placed (fuel + 1) (below root q) ↔
      ∃ s i, S (q ++ [s]) i.content ∧ d.items.get? (below root (q ++ [s])) = some i ∧
        e = d.entryOf fuel (below root q) ⟨below root q, s, i⟩ := by
  rw [entriesOf_succ, List.mem_map]
  constructor
  · rintro ⟨x, hx, rfl⟩
    obtain ⟨s, i, hs, hi, rfl⟩ := (h.mem_itemsIn_iff hr hS hq).1 hx
    exact ⟨s, i, hs, hi, rfl⟩
  · rintro ⟨s, i, hs, hi, rfl⟩
    exact ⟨_, (h.mem_itemsIn_iff hr hS hq).2 ⟨s, i, hs, hi, rfl⟩, rfl⟩

section Level

variable (h : Mirrors root d S) (hr : IsRoot root) (hS : S.IsTree) (hq : S q none)
  (hbelow : ∀ {s}, S (q ++ [s]) none → ListsBelow S (q ++ [s])
    (d.entriesOf [] d.placed fuel (below root q ++ "/" ++ s)))

include h hr hS hq hbelow

theorem Mirrors.properListing_entries :
    ProperListing (d.entriesOf [] d.placed (fuel + 1) (below root q)) where
  nodup := by
    rw [entriesOf_succ, List.map_map, show DiskEntry.name ∘ d.entryOf fuel (below root q) =
      Placed.name from funext fun x => name_entryOf]
    exact h.nodup_itemsIn hr hS (hS.names hq)
  entries e he := by
    obtain ⟨s, i, hs, -, rfl⟩ := (h.mem_entries_iff hr hS (hS.names hq)).1 he
    have hname := AreNames.singleton_iff.1 (AreNames.append_iff.1 (hS.names hs)).2
    unfold entryOf
    split
    · exact .file hname
    · next hc =>
      have hc : i.content = none := hc
      have hp := (hbelow (hc ▸ hs)).proper
      exact .directory hname hp.nodup hp.entries

/-- What the entries of a directory hold is there. -/
theorem Mirrors.shows_of_lists
    (hl : Lists (d.entriesOf [] d.placed (fuel + 1) (below root q)) r c) :
    r ≠ [] ∧ S (q ++ r) c := by
  cases hl with
  | here he =>
    obtain ⟨s, i, hs, -, rfl⟩ := (h.mem_entries_iff hr hS (hS.names hq)).1 he
    rw [name_entryOf, shown_entryOf]
    exact ⟨List.cons_ne_nil _ _, hs⟩
  | inside he hl =>
    obtain ⟨s, i, hs, -, he⟩ := (h.mem_entries_iff hr hS (hS.names hq)).1 he
    unfold entryOf at he
    split at he
    · cases he
    · next hc =>
      cases he
      have hin := ((hbelow (hc ▸ hs)).lists_iff.1 hl).2
      rw [List.append_assoc, List.singleton_append] at hin
      exact ⟨List.cons_ne_nil _ _, hin⟩

/-- What is there below a directory, its entries hold. -/
theorem Mirrors.lists_of_shows (hne : r ≠ []) (hs : S (q ++ r) c) :
    Lists (d.entriesOf [] d.placed (fuel + 1) (below root q)) r c := by
  have hmem : ∀ {s c'}, S (q ++ [s]) c' → ∃ i : MemoryItem, i.content = c' ∧
      d.entryOf fuel (below root q) ⟨below root q, s, i⟩ ∈
        d.entriesOf [] d.placed (fuel + 1) (below root q) := by
    intro s c' hs
    obtain ⟨i, hi, rfl⟩ := h.exists_item hr hS hs
    exact ⟨i, rfl, (h.mem_entries_iff hr hS (hS.names hq)).2 ⟨s, i, hs, hi, rfl⟩⟩
  cases r with
  | nil => exact absurd rfl hne
  | cons s r =>
    by_cases hrn : r = []
    · subst hrn
      obtain ⟨i, rfl, hi⟩ := hmem hs
      have := Lists.here hi
      rwa [name_entryOf, shown_entryOf] at this
    · -- what lies deeper lies in a directory
      rw [← List.singleton_append, ← List.append_assoc] at hs
      have hdir := hS.directory hrn hs
      obtain ⟨i, hc, hi⟩ := hmem hdir
      simp only [entryOf, hc] at hi
      exact .inside hi ((hbelow hdir).lists_iff.2 ⟨hrn, hs⟩)

end Level

/-- The entries below a directory list what lies below it, when the fuel lasts as deep as the shape
goes. -/
theorem Mirrors.entriesOf (h : Mirrors root d S) (hr : IsRoot root) (hS : S.IsTree)
    (hq : S q none) (hf : ∀ {r c}, S (q ++ r) c → r.length ≤ fuel) :
    ListsBelow S q (d.entriesOf [] d.placed fuel (below root q)) := by
  induction fuel generalizing q with
  | zero =>
    refine ⟨⟨List.nodup_nil, fun e he => (nomatch he)⟩, fun {r c} => ?_⟩
    refine ⟨fun hl => absurd hl not_lists_nil, fun ⟨hne, hs⟩ => ?_⟩
    exact absurd (List.eq_nil_of_length_eq_zero (Nat.le_zero.1 (hf hs))) hne
  | succ fuel ih =>
    have hbelow : ∀ {s}, S (q ++ [s]) none → ListsBelow S (q ++ [s])
        (d.entriesOf [] d.placed fuel (below root q ++ "/" ++ s)) := by
      intro s hs
      rw [below_append hr]
      refine ih hs fun {r c} hr => ?_
      rw [List.append_assoc] at hr
      have hlen := hf hr
      rw [List.length_append, List.length_singleton] at hlen
      omega
    exact ⟨h.properListing_entries hr hS hq hbelow, fun {r c} =>
      ⟨h.shows_of_lists hr hS hq hbelow, fun ⟨hne, hs⟩ => h.lists_of_shows hr hS hq hbelow hne hs⟩⟩

/-! ## Depth -/

/-- No place is deeper than the disk holds items, because the places above it are all held. -/
theorem Mirrors.length_lt_size (h : Mirrors root d S) (hr : IsRoot root) (hS : S.IsTree)
    (hs : S q c) : q.length < d.items.size := by
  have hn := hS.names hs
  have hpre : ∀ k, AreNames (q.take k) := fun k t ht => hn t (List.mem_of_mem_take ht)
  have hnodup : ((List.range (q.length + 1)).map fun k => below root (q.take k)).Nodup := by
    refine List.Nodup.map_on (fun j hj k hk he => ?_) List.nodup_range
    have := congrArg List.length (Disk.below_injective hr (hpre j) (hpre k) he)
    rw [List.mem_range] at hj hk
    simp only [List.length_take] at this
    omega
  have hheld : ∀ k, ∃ c', S (q.take k) c' := by
    intro k
    by_cases hd : q.drop k = []
    · exact ⟨c, by rw [List.take_of_length_le (List.drop_eq_nil_iff.1 hd)]; exact hs⟩
    · exact ⟨none, hS.directory hd (by rw [List.take_append_drop]; exact hs)⟩
  have := Table.length_le_size (t := d.items) hnodup fun path hpath => by
    obtain ⟨k, -, rfl⟩ := List.mem_map.1 hpath
    obtain ⟨c', hc⟩ := hheld k
    obtain ⟨i, hi, -⟩ := h.exists_item hr hS hc
    exact ⟨i, hi⟩
  rw [List.length_map, List.length_range] at this
  exact this

/-- A listing of the root holds what the disk holds below it. -/
theorem Mirrors.list (h : Mirrors root d S) (hr : IsRoot root) (hS : S.IsTree) :
    ∃ F d', d.list [] root = (.ok F, d') ∧ Mirrors root d' S ∧ ProperListing F ∧
      ∀ {q c}, Lists F q c ↔ q ≠ [] ∧ S q c := by
  have hlog := h.logged (.list root)
  have hdir : (d.logged (.list root)).isDirectory root = true := by
    rw [isDirectory_iff, ← Disk.below_nil hr]
    exact (hlog.shown?_below hr hS .nil).2 hS.root
  have hb : (d.logged (.list root)).breakdowns = .empty := h.plain.breakdowns
  obtain ⟨hp, hl⟩ := hlog.entriesOf hr hS hS.root fun {r c} hs =>
    Nat.le_of_lt (hlog.length_lt_size hr hS hs)
  rw [Disk.below_nil hr] at hp hl
  refine ⟨_, _, ?_, hlog, hp, hl⟩
  simp only [MemoryDisk.list, hb, Table.get?_empty, hdir]
  rfl

/-- The bridge to a disk in memory that leaves nothing out is faithful. -/
theorem faithful_bridge (hr : IsRoot root) : (bridge [] none).Faithful root (Mirrors root) where
  ignored := rfl
  maxDepth := rfl
  list _ hd hS := hd.list hr hS
  perform now hd hS hb := hd.perform hr hS hb now

end Workbench.MemoryDisk
