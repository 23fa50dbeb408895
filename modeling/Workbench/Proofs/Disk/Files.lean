import Mathlib.Data.List.Infix
import Workbench.Disk.Files
import Workbench.Proofs.Except
import Workbench.Proofs.Table

/-!
# Changes to a file system

A path that can be followed is followed in steps (`Walks`), and what a step finds is all that the
way depends on. So a way stays open while nothing that was there changes (`GrowsTo.walks`), and it
leads to the same place whether or not a link at the end would be followed, if there is none
(`Walks.follow`). Each change that succeeds is told by its places: what it writes, removes and
takes elsewhere.
-/

namespace Workbench

namespace FileSystem

variable {fs fs' fs'' : FileSystem} {e : AtEnd} {fuel links : Nat} {p q r place : Place}
  {i : FileItem} {name s path old new target : String} {names rest : List String}
  {octets : List Nat}

/-! ## Items -/

theorem item?_cons (fs : FileSystem) (name : String) (p : Place) :
    fs.item? (name :: p) = fs.items.get? (name :: p) := rfl

theorem item?_of_ne_nil (hp : p ≠ []) (fs : FileSystem) : fs.item? p = fs.items.get? p := by
  cases p with
  | nil => exact absurd rfl hp
  | cons => rfl

theorem ne_nil_of_item? (h : fs.item? p ≠ some .directory) : p ≠ [] := by
  rintro rfl
  exact h rfl

theorem item?_put (hp : p ≠ []) (fs : FileSystem) (i : FileItem) (r : Place) :
    (fs.put p i).item? r = if r = p then some i else fs.item? r := by
  cases r with
  | nil => rw [if_neg (Ne.symm hp)]; rfl
  | cons => exact Table.get?_insert _ _ _ _

theorem item?_removeAt (hp : p ≠ []) (fs : FileSystem) (r : Place) :
    (fs.removeAt p).item? r = if p <:+ r then none else fs.item? r := by
  cases r with
  | nil =>
    rw [if_neg (by rwa [List.suffix_nil])]
    rfl
  | cons name above =>
    rw [item?_cons, item?_cons, removeAt]
    split
    · next hs =>
      rw [Option.eq_none_iff_forall_ne_some]
      intro i hi
      have := (Table.get?_filter_iff.1 hi).2
      simp [List.isSuffixOf_iff_suffix.2 hs] at this
    · next hs =>
      rw [Option.ext_iff]
      intro i
      have hs : p.isSuffixOf (name :: above) = false := by
        rwa [← Bool.not_eq_true, List.isSuffixOf_iff_suffix]
      rw [Table.get?_filter_iff]
      simp [hs]

/-- One entry is removed exactly when nothing lies below it. -/
theorem size_removeAt_iff (hi : fs.items.get? p = some i) :
    fs.items.size = (fs.removeAt p).items.size + 1 ↔
      ∀ q, p <:+ q → q ≠ p → fs.items.get? q = none := by
  let gone := fs.items.entries.filter fun e => p.isSuffixOf e.1
  have hgone : ∀ {q j}, (q, j) ∈ gone ↔ p <:+ q ∧ fs.items.get? q = some j := by
    intro q j
    rw [List.mem_filter, List.isSuffixOf_iff_suffix, Table.mem_entries_iff, and_comm]
  have hmem : (p, i) ∈ gone := hgone.2 ⟨List.suffix_refl p, hi⟩
  have hnodup : gone.Nodup := (List.Nodup.of_map _ fs.items.nodup).filter _
  have hsize : fs.items.size = gone.length + (fs.removeAt p).items.size :=
    List.length_eq_length_filter_add _
  constructor
  · intro hs q hq hne
    obtain ⟨e, he⟩ := List.length_eq_one_iff.1 (show gone.length = 1 by omega)
    rw [Option.eq_none_iff_forall_ne_some]
    intro j hj
    have hqj : (q, j) ∈ gone := hgone.2 ⟨hq, hj⟩
    rw [he, List.mem_singleton] at hmem hqj
    exact hne (congrArg Prod.fst (hqj.trans hmem.symm))
  · intro h
    have hsub : gone ⊆ [(p, i)] := by
      rintro ⟨q, j⟩ hqj
      obtain ⟨hq, hj⟩ := hgone.1 hqj
      by_cases hqp : q = p
      · subst hqp
        rw [List.mem_singleton, Option.some.inj (hj.symm.trans hi)]
      · rw [h q hq hqp] at hj
        cases hj
    have hle : gone.length ≤ 1 := (hnodup.subperm hsub).length_le
    have hpos : 0 < gone.length := List.length_pos_of_mem hmem
    omega

/-- Everything lies in a directory. -/
def Grounded (fs : FileSystem) : Prop :=
  ∀ (name : String) (above : Place) (i : FileItem), fs.item? (name :: above) = some i →
    fs.item? above = some .directory

/-- Above anything there are only directories. -/
theorem Grounded.directory (h : fs.Grounded) (hi : fs.item? r = some i) (hs : q <:+ r)
    (hne : q ≠ r) : fs.item? q = some .directory := by
  induction r generalizing i with
  | nil => exact absurd (List.suffix_nil.1 hs) hne
  | cons name above ih =>
    have hd := h name above i hi
    rcases List.suffix_cons_iff.1 hs with rfl | hs
    · exact absurd rfl hne
    · rcases eq_or_ne q above with rfl | hq
      · exact hd
      · exact ih hd hs hq

/-! ## Following a path -/

/-- A name that stands for something in a directory, where `rest` is to be followed after it. -/
structure Enters (e : AtEnd) (name : String) (rest : List String) : Prop where
  ne_empty : name ≠ ""
  ne_dot : name ≠ "."
  ne_dots : name ≠ ".."
  ending : ¬ (e = .followToFile ∧ rest = [""])
  size : name.utf8ByteSize ≤ nameLimit

/-- Names lead from one place to another. -/
inductive Walks (fs : FileSystem) (e : AtEnd) : Nat → Nat → Place → List String → Place → Prop
  | stop {fuel links : Nat} {place : Place} : Walks fs e fuel links place [] place
  | skip {fuel links : Nat} {place q : Place} {name : String} {rest : List String}
      (hn : name = "" ∨ name = ".") (h : Walks fs e fuel links place rest q) :
      Walks fs e (fuel + 1) links place (name :: rest) q
  | up {fuel links : Nat} {place q : Place} {rest : List String}
      (h : Walks fs e fuel links place.tail rest q) :
      Walks fs e (fuel + 1) links place (".." :: rest) q
  | last {fuel links : Nat} {place : Place} {name : String} (hn : Enters e name [])
      (hl : ∀ t, fs.item? (name :: place) = some (.link t) → e = .stay) :
      Walks fs e (fuel + 1) links place [name] (name :: place)
  | enter {fuel links : Nat} {place q : Place} {name : String} {rest : List String}
      (hn : Enters e name rest) (hd : fs.item? (name :: place) = some .directory)
      (h : Walks fs e fuel links (name :: place) rest q) :
      Walks fs e (fuel + 1) links place (name :: rest) q
  | along {fuel links : Nat} {place q : Place} {name target : String} {rest : List String}
      (hn : Enters e name rest) (hl : fs.item? (name :: place) = some (.link target))
      (hs : ¬ (rest = [] ∧ e = .stay)) (hlinks : links < linkLimit)
      (h : Walks fs e fuel (links + 1) (if Text.startsWith target "/" then [] else place)
        (namesOf target ++ rest) q) :
      Walks fs e (fuel + 1) links place (name :: rest) q

theorem walks_of_walk (h : fs.walk e fuel links place names = .ok q) :
    fs.Walks e fuel links place names q := by
  have enters : ∀ {name rest}, ¬ (name.isEmpty || name == ".") = true → ¬ (name == "..") = true →
      ¬ (decide (e = .followToFile) && rest == [""]) = true →
      ¬ nameLimit < name.utf8ByteSize → Enters e name rest := by
    intro name rest hn hd he hs
    simp only [Bool.or_eq_true, String.isEmpty_iff, beq_iff_eq, not_or] at hn hd
    exact ⟨hn.1, hn.2, hd, by simpa using he, by omega⟩
  fun_induction walk fs e fuel links place names with
  | case1 => exact Except.ok.inj h ▸ .stop
  | case3 _ _ _ _ _ hn ih => exact .skip (by simpa [String.isEmpty_iff] using hn) (ih h)
  | case4 _ _ _ _ _ _ hd ih =>
    obtain rfl := beq_iff_eq.1 hd
    exact .up (ih h)
  | case7 _ _ _ _ _ hn hd he hs _ hi hr =>
    obtain rfl := List.isEmpty_iff.1 hr
    exact Except.ok.inj h ▸ .last (enters hn hd he hs) fun t ht => nomatch hi.symm.trans ht
  | case9 _ _ _ _ _ hn hd he hs _ hi ih => exact .enter (enters hn hd he hs) hi (ih h)
  | case10 _ _ _ _ _ hn hd he hs _ _ hi hr =>
    obtain rfl := List.isEmpty_iff.1 hr
    exact Except.ok.inj h ▸ .last (enters hn hd he hs) fun t ht => nomatch hi.symm.trans ht
  | case12 _ _ _ _ _ hn hd he hs _ _ hi hr =>
    simp only [Bool.and_eq_true, List.isEmpty_iff, decide_eq_true_eq] at hr
    obtain ⟨rfl, hstay⟩ := hr
    exact Except.ok.inj h ▸ .last (enters hn hd he hs) fun _ _ => hstay
  | case14 _ _ _ _ _ hn hd he hs _ _ hi hr hl _ ih =>
    exact .along (enters hn hd he hs) hi (by simpa using hr) (by omega) (ih h)
  | _ => cases h

/-- A step of a walk into a name. -/
theorem walk_enters (hn : Enters e name rest) (fs : FileSystem) (fuel links : Nat) (place : Place) :
    fs.walk e (fuel + 1) links place (name :: rest) =
      match fs.item? (name :: place) with
      | none => if rest.isEmpty then .ok (name :: place) else .error .notFound
      | some .directory => fs.walk e fuel links (name :: place) rest
      | some (.file _) => if rest.isEmpty then .ok (name :: place) else .error .notDirectory
      | some (.link target) =>
        if rest.isEmpty && e = .stay then .ok (name :: place)
        else if linkLimit ≤ links then .error .tooManyLinks
        else
          fs.walk e fuel (links + 1) (if Text.startsWith target "/" then [] else place)
            (namesOf target ++ rest) := by
  have h1 : (name.isEmpty || name == ".") = false := by
    simpa [String.isEmpty_iff] using And.intro hn.ne_empty hn.ne_dot
  have h2 : (name == "..") = false := by simpa using hn.ne_dots
  have h3 : (decide (e = .followToFile) && rest == [""]) = false := by
    simpa using hn.ending
  have h4 : ¬ nameLimit < name.utf8ByteSize := Nat.not_lt.2 hn.size
  rw [walk]
  dsimp only
  cases fs.item? (name :: place) with
  | none => simp only [h1, h2, h3, h4, Bool.false_eq_true, ↓reduceIte]
  | some i => cases i <;> simp only [h1, h2, h3, h4, Bool.false_eq_true, ↓reduceIte]

theorem walk_of_walks (h : fs.Walks e fuel links place names q) :
    fs.walk e fuel links place names = .ok q := by
  induction h with
  | stop => rw [walk]
  | skip hn _ ih =>
    rw [walk, if_pos (by simpa [String.isEmpty_iff] using hn)]
    exact ih
  | up _ ih =>
    rw [walk, if_neg (by decide), if_pos (by decide)]
    exact ih
  | @last _ _ place name hn hl =>
    rw [walk_enters hn]
    split
    · rfl
    · rw [walk]
    · rfl
    · next target ht => rw [if_pos (by simp [hl target ht])]
  | enter hn hd _ ih =>
    rw [walk_enters hn, hd]
    exact ih
  | along hn hl hs hlinks _ ih =>
    rw [walk_enters hn, hl]
    simp only
    rw [if_neg (by simpa using hs), if_neg (by omega)]
    exact ih

/-- A link at the end is followed nowhere if there is none. -/
theorem Walks.follow (h : fs.Walks e fuel links place names q)
    (hq : e = .stay → ∀ t, fs.item? q ≠ some (.link t)) :
    fs.Walks .follow fuel links place names q := by
  have enters : ∀ {name rest}, Enters e name rest → Enters .follow name rest := fun hn =>
    ⟨hn.ne_empty, hn.ne_dot, hn.ne_dots, fun he => (nomatch he.1), hn.size⟩
  induction h with
  | stop => exact .stop
  | skip hn _ ih => exact .skip hn (ih hq)
  | up _ ih => exact .up (ih hq)
  | last hn hl => exact .last (enters hn) fun t ht => absurd ht (hq (hl t ht) t)
  | enter hn hd _ ih => exact .enter (enters hn) hd (ih hq)
  | along hn hl _ hlinks _ ih =>
    exact .along (enters hn) hl (fun he => (nomatch he.2)) hlinks (ih hq)

/-- A path that ends with a name leads to a place of that name, if a link at the end is not
followed. -/
theorem Walks.head? (h : fs.Walks .stay fuel links place names q)
    (hs : names.getLast? = some s) (hn : s ≠ "" ∧ s ≠ "." ∧ s ≠ "..") : q.head? = some s := by
  induction h with
  | stop => cases hs
  | @skip _ _ _ _ name rest hname _ ih =>
    cases rest with
    | nil =>
      obtain rfl : name = s := Option.some.inj hs
      rcases hname with rfl | rfl
      · exact absurd rfl hn.1
      · exact absurd rfl hn.2.1
    | cons => exact ih (by rwa [List.getLast?_cons_cons] at hs)
  | @up _ _ _ _ rest _ ih =>
    cases rest with
    | nil => exact absurd (Option.some.inj hs).symm hn.2.2
    | cons => exact ih (by rwa [List.getLast?_cons_cons] at hs)
  | last => exact hs
  | @enter _ _ _ _ name rest _ _ h ih =>
    cases rest with
    | nil =>
      cases h
      exact hs
    | cons => exact ih (by rwa [List.getLast?_cons_cons] at hs)
  | @along _ _ _ _ _ target rest _ _ hstay _ _ ih =>
    cases rest with
    | nil => exact absurd ⟨rfl, rfl⟩ hstay
    | cons b rest =>
      refine ih ?_
      rwa [List.getLast?_append_of_ne_nil _ (by simp), ← List.getLast?_cons_cons]

/-! ## Walks in two parts -/

theorem Walks.mono (h : fs.Walks e fuel links place names q) (more : Nat) :
    fs.Walks e (fuel + more) links place names q := by
  induction h with
  | stop => exact .stop
  | skip hn _ ih => exact Nat.add_right_comm .. ▸ .skip hn ih
  | up _ ih => exact Nat.add_right_comm .. ▸ .up ih
  | last hn hl => exact Nat.add_right_comm .. ▸ .last hn hl
  | enter hn hd _ ih => exact Nat.add_right_comm .. ▸ .enter hn hd ih
  | along hn hl hs hlinks _ ih => exact Nat.add_right_comm .. ▸ .along hn hl hs hlinks ih

/-- Names lead to one place, however much fuel there is. -/
theorem Walks.unique {fuel' : Nat} {q' : Place} (h : fs.Walks e fuel links place names q)
    (h' : fs.Walks e fuel' links place names q') : q = q' := by
  have hw := walk_of_walks (h.mono fuel')
  rw [Nat.add_comm, walk_of_walks (h'.mono fuel)] at hw
  exact (Except.ok.inj hw).symm

theorem Walks.of_nil (h : fs.Walks e fuel links place [] q) : q = place := by
  cases h
  rfl

theorem Walks.of_dot (h : fs.Walks e fuel links place ["."] q) : q = place := by
  generalize hs : "." = s at h
  cases h with
  | skip _ h => exact h.of_nil
  | up => exact absurd hs (by decide)
  | last hn => exact absurd hs.symm hn.ne_dot
  | enter hn => exact absurd hs.symm hn.ne_dot
  | along hn => exact absurd hs.symm hn.ne_dot

theorem Enters.of_follow {rest rest' : List String} (h : Enters .follow s rest) :
    Enters .follow s rest' :=
  ⟨h.ne_empty, h.ne_dot, h.ne_dots, fun he => (nomatch he.1), h.size⟩

/-- A walk along names is one along the first of them, and from there along the others. -/
theorem Walks.of_append {a b : List String} (h : fs.Walks .follow fuel links place (a ++ b) q)
    (hb : b ≠ []) : ∃ fuel' links' mid, fs.Walks .follow fuel links place a mid ∧
      fs.Walks .follow fuel' links' mid b q := by
  have hstart : ∀ {fuel links place names q}, [] ++ b = names →
      fs.Walks .follow fuel links place names q → ∃ fuel' links' mid,
        fs.Walks .follow fuel links place [] mid ∧ fs.Walks .follow fuel' links' mid b q := by
    rintro fuel links place names q rfl h
    exact ⟨_, _, _, .stop, h⟩
  generalize hl : a ++ b = names at h
  induction h generalizing a with
  | stop => exact absurd (List.append_eq_nil_iff.1 hl).2 hb
  | skip hn h ih =>
    cases a with
    | nil => exact hstart hl (.skip hn h)
    | cons x a =>
      obtain ⟨rfl, rfl⟩ := List.cons.inj hl
      obtain ⟨fuel', links', mid, hfirst, hrest⟩ := ih rfl
      exact ⟨fuel', links', mid, .skip hn hfirst, hrest⟩
  | up h ih =>
    cases a with
    | nil => exact hstart hl (.up h)
    | cons x a =>
      obtain ⟨rfl, rfl⟩ := List.cons.inj hl
      obtain ⟨fuel', links', mid, hfirst, hrest⟩ := ih rfl
      exact ⟨fuel', links', mid, .up hfirst, hrest⟩
  | last hn hlink =>
    cases a with
    | nil => exact hstart hl (.last hn hlink)
    | cons x a => exact absurd (List.append_eq_nil_iff.1 (List.cons.inj hl).2).2 hb
  | enter hn hd h ih =>
    cases a with
    | nil => exact hstart hl (.enter hn hd h)
    | cons x a =>
      obtain ⟨rfl, rfl⟩ := List.cons.inj hl
      obtain ⟨fuel', links', mid, hfirst, hrest⟩ := ih rfl
      exact ⟨fuel', links', mid, .enter hn.of_follow hd hfirst, hrest⟩
  | along hn hlink hs hlinks h ih =>
    cases a with
    | nil => exact hstart hl (.along hn hlink hs hlinks h)
    | cons x a =>
      obtain ⟨rfl, rfl⟩ := List.cons.inj hl
      obtain ⟨fuel', links', mid, hfirst, hrest⟩ := ih (List.append_assoc ..)
      exact ⟨fuel', links', mid,
        .along hn.of_follow hlink (fun he => (nomatch he.2)) hlinks hfirst, hrest⟩

/-- The place that a path leads to, as a walk. -/
theorem placeOf_eq_ok_iff : fs.placeOf e path = .ok q ↔ path ≠ "" ∧
    path.utf8ByteSize ≤ pathLimit ∧
    fs.Walks e ((Path.segments path).length + (linkLimit + 1) * fs.linkNames) 0
      (if Text.startsWith path "/" then [] else fs.workingPlace) (Path.segments path) q := by
  unfold placeOf
  by_cases h1 : path = ""
  · simp [h1]
  · by_cases h2 : pathLimit < path.utf8ByteSize
    · have h3 : ¬ path.utf8ByteSize ≤ pathLimit := by omega
      simp [h1, h2, h3, String.isEmpty_iff]
    · rw [if_neg (by simpa [String.isEmpty_iff] using h1), if_neg h2]
      constructor
      · intro h
        exact ⟨h1, by omega, walks_of_walk h⟩
      · intro h
        exact walk_of_walks h.2.2

theorem placeOf_follow (h : fs.placeOf e path = .ok q)
    (hq : e = .stay → ∀ t, fs.item? q ≠ some (.link t)) : fs.placeOf .follow path = .ok q := by
  obtain ⟨hne, hsize, hw⟩ := placeOf_eq_ok_iff.1 h
  exact placeOf_eq_ok_iff.2 ⟨hne, hsize, hw.follow hq⟩

/-- A path that ends with a name of its own does not lead to the top. -/
theorem ne_nil_of_endsNamed (hn : endsNamed path = true) (h : fs.placeOf .stay path = .ok q) :
    q ≠ [] := by
  obtain ⟨-, -, hw⟩ := placeOf_eq_ok_iff.1 h
  unfold endsNamed at hn
  split at hn
  · cases hn
  · cases hn
  · cases hn
  · next s hdot hdots hs =>
    have hempty : s ≠ "" := by
      rintro rfl
      simpa [Path.segments] using List.mem_of_getLast? hs
    have hq := hw.head? hs ⟨hempty, hdot, hdots⟩
    rintro rfl
    cases hq

/-! ## Ways that stay open -/

/-- Nothing but files has changed, and there are no other links. -/
structure KeepsWays (fs fs' : FileSystem) : Prop where
  workingPlace : fs'.workingPlace = fs.workingPlace
  linkNames : fs'.linkNames = fs.linkNames
  ways : ∀ {p i}, fs.item? p = some i → (∀ b, i ≠ .file b) → fs'.item? p = some i
  links : ∀ {p t}, fs'.item? p = some (.link t) → fs.item? p = some (.link t)

namespace KeepsWays

/-- Something that is not a link is put where there is nothing or a file. -/
theorem put (hp : ∀ j, fs.item? p = some j → ∃ b, j = .file b) (hi : ∀ t, i ≠ .link t) :
    fs.KeepsWays (fs.put p i) := by
  have hne : p ≠ [] := by
    rintro rfl
    obtain ⟨b, hb⟩ := hp _ rfl
    cases hb
  refine ⟨rfl, ?_, fun {q j} hq hj => ?_, fun {q t} hq => ?_⟩
  · refine Table.total_insert ?_ fun j hj => ?_
    · split
      · exact absurd rfl (hi _)
      · rfl
    · rw [← item?_of_ne_nil hne] at hj
      obtain ⟨b, rfl⟩ := hp j hj
      rfl
  · rw [item?_put hne, if_neg ?_]
    · exact hq
    · rintro rfl
      obtain ⟨b, rfl⟩ := hp _ hq
      exact hj b rfl
  · rw [item?_put hne] at hq
    split at hq
    · exact absurd (Option.some.inj hq) (hi t)
    · exact hq

theorem walks (h : fs.KeepsWays fs') (hw : fs.Walks e fuel links place names q) :
    fs'.Walks e fuel links place names q := by
  induction hw with
  | stop => exact .stop
  | skip hn _ ih => exact .skip hn ih
  | up _ ih => exact .up ih
  | last hn hl => exact .last hn fun t ht => hl t (h.links ht)
  | enter hn hd _ ih => exact .enter hn (h.ways hd nofun) ih
  | along hn hl hs hlinks _ ih => exact .along hn (h.ways hl nofun) hs hlinks ih

theorem placeOf (h : fs.KeepsWays fs') (hq : fs.placeOf e path = .ok q) :
    fs'.placeOf e path = .ok q := by
  obtain ⟨hne, hsize, hw⟩ := placeOf_eq_ok_iff.1 hq
  refine placeOf_eq_ok_iff.2 ⟨hne, hsize, ?_⟩
  rw [h.workingPlace, h.linkNames]
  exact h.walks hw

end KeepsWays

/-! ## New files and directories -/

/-- One file system has come from another by new files and directories only. -/
structure GrowsTo (fs fs' : FileSystem) : Prop where
  workingPlace : fs'.workingPlace = fs.workingPlace
  linkNames : fs'.linkNames = fs.linkNames
  kept : ∀ {p i}, fs.item? p = some i → fs'.item? p = some i
  links : ∀ {p t}, fs'.item? p = some (.link t) → fs.item? p = some (.link t)

namespace GrowsTo

theorem refl (fs : FileSystem) : fs.GrowsTo fs := ⟨rfl, rfl, fun h => h, fun h => h⟩

theorem trans (h : fs.GrowsTo fs') (h' : fs'.GrowsTo fs'') : fs.GrowsTo fs'' :=
  ⟨h'.workingPlace.trans h.workingPlace, h'.linkNames.trans h.linkNames,
    fun hi => h'.kept (h.kept hi), fun hi => h.links (h'.links hi)⟩

theorem keepsWays (h : fs.GrowsTo fs') : fs.KeepsWays fs' :=
  ⟨h.workingPlace, h.linkNames, fun hi _ => h.kept hi, h.links⟩

/-- Something that is not a link is put where nothing was. -/
theorem put (hp : fs.item? p = none) (hi : ∀ t, i ≠ .link t) : fs.GrowsTo (fs.put p i) := by
  have hne : p ≠ [] := ne_nil_of_item? (by rw [hp]; exact nofun)
  have hw : fs.KeepsWays (fs.put p i) := .put (fun j hj => nomatch hp.symm.trans hj) hi
  refine ⟨hw.workingPlace, hw.linkNames, fun {q j} hq => ?_, hw.links⟩
  rw [item?_put hne, if_neg ?_]
  · exact hq
  · rintro rfl
    rw [hp] at hq
    cases hq

theorem placeOf (h : fs.GrowsTo fs') (hq : fs.placeOf e path = .ok q) :
    fs'.placeOf e path = .ok q :=
  h.keepsWays.placeOf hq

end GrowsTo

theorem stat_eq_ok_iff : fs.stat path = .ok (q, i) ↔
    fs.placeOf .follow path = .ok q ∧ fs.item? q = some i := by
  unfold stat
  rw [bind_eq_ok]
  constructor
  · rintro ⟨p, hp, h⟩
    split at h
    · next j hj =>
      obtain ⟨rfl, rfl⟩ := Prod.mk.inj (Except.ok.inj h)
      exact ⟨hp, hj⟩
    · cases h
  · rintro ⟨hq, hi⟩
    refine ⟨q, hq, ?_⟩
    rw [hi]
    rfl

theorem GrowsTo.stat (h : fs.GrowsTo fs') (hs : fs.stat path = .ok (q, i)) :
    fs'.stat path = .ok (q, i) := by
  obtain ⟨hq, hi⟩ := stat_eq_ok_iff.1 hs
  exact stat_eq_ok_iff.2 ⟨h.placeOf hq, h.kept hi⟩

theorem read_eq_ok_iff : fs.read path = .ok octets ↔
    ∃ p, fs.placeOf .follow path = .ok p ∧ fs.item? p = some (.file octets) := by
  unfold read
  rw [bind_eq_ok]
  constructor
  · rintro ⟨⟨p, i⟩, hs, h⟩
    obtain ⟨hp, hi⟩ := stat_eq_ok_iff.1 hs
    cases i with
    | file b =>
      obtain rfl : b = octets := Except.ok.inj h
      exact ⟨p, hp, hi⟩
    | directory => cases h
    | link t => cases h
  · rintro ⟨p, hp, hi⟩
    exact ⟨(p, .file octets), stat_eq_ok_iff.2 ⟨hp, hi⟩, rfl⟩

theorem GrowsTo.read (h : fs.GrowsTo fs') (hr : fs.read path = .ok octets) :
    fs'.read path = .ok octets := by
  obtain ⟨p, hp, hi⟩ := read_eq_ok_iff.1 hr
  exact read_eq_ok_iff.2 ⟨p, h.placeOf hp, h.kept hi⟩

/-- Nothing lies where a path leads to at which nothing is seen. -/
theorem item?_of_exists? (he : fs.exists? path = .ok false) (hn : Disk.holdsNul path = false)
    (hp : fs.placeOf .follow path = .ok p) : fs.item? p = none := by
  rw [Option.eq_none_iff_forall_ne_some]
  intro i hi
  simp [exists?, leadsTo, hn, stat_eq_ok_iff.2 ⟨hp, hi⟩] at he

/-! ## What the changes do -/

theorem write_eq_ok_iff : fs.write path octets = .ok fs' ↔
    ∃ p, fs.placeOf .followToFile path = .ok p ∧ fs.item? p ≠ some .directory ∧
      fs' = fs.put p (.file octets) := by
  unfold write
  rw [bind_eq_ok]
  refine exists_congr fun p => and_congr_right fun _ => ?_
  constructor
  · intro h
    split at h
    · cases h
    · next hd => exact ⟨fun he => hd he, (Except.ok.inj h).symm⟩
  · rintro ⟨hd, rfl⟩
    split
    · next he => exact absurd he hd
    · rfl

/-- A file that is written where nothing was seen is new, and is read as it was written. -/
theorem write_new (h : fs.write path octets = .ok fs') (he : fs.exists? path = .ok false)
    (hn : Disk.holdsNul path = false) : fs.GrowsTo fs' ∧ fs'.read path = .ok octets := by
  obtain ⟨p, hp, hd, rfl⟩ := write_eq_ok_iff.1 h
  have hfollow := placeOf_follow hp fun h => nomatch h
  have hg : fs.GrowsTo (fs.put p (.file octets)) := .put (item?_of_exists? he hn hfollow) nofun
  refine ⟨hg, read_eq_ok_iff.2 ⟨p, hg.placeOf hfollow, ?_⟩⟩
  rw [item?_put (ne_nil_of_item? hd), if_pos rfl]

theorem growsTo_of_makeDirectory (h : fs.makeDirectory path = .ok fs') : fs.GrowsTo fs' := by
  obtain ⟨p, -, h⟩ := bind_eq_ok.1 h
  split at h
  · cases h
  · next hi => exact Except.ok.inj h ▸ .put hi nofun

/-- What has been created is found at its path. -/
theorem stat_of_makeDirectory (h : fs.makeDirectory path = .ok fs') :
    ∃ p, fs'.stat path = .ok (p, .directory) := by
  have hgrows := growsTo_of_makeDirectory h
  obtain ⟨p, hp, h⟩ := bind_eq_ok.1 h
  split at h
  · cases h
  next hnone =>
  obtain rfl := Except.ok.inj h
  have hfollow := placeOf_follow hp fun _ t ht => nomatch hnone.symm.trans ht
  refine ⟨p, stat_eq_ok_iff.2 ⟨hgrows.placeOf hfollow, ?_⟩⟩
  rw [item?_put (ne_nil_of_item? (by rw [hnone]; exact nofun)), if_pos rfl]

theorem makeDirectory_of_makeLast (h : fs.makeLast false path = .ok fs') :
    fs.makeDirectory path = .ok fs' := by
  unfold makeLast at h
  split at h
  · next hm => exact hm.trans h
  · cases h
  · cases h

theorem stat_of_makePath (h : fs.makePath false path = (.ok (), fs')) :
    ∃ p, fs'.stat path = .ok (p, .directory) := by
  rw [makePath, makeDirectories] at h
  split at h
  · next hm =>
    obtain rfl := (Prod.mk.inj h).2
    exact stat_of_makeDirectory (makeDirectory_of_makeLast hm)
  · split at h
    · cases h
    · split at h
      · cases h
      · split at h
        · next hm =>
          obtain rfl := (Prod.mk.inj h).2
          exact stat_of_makeDirectory (makeDirectory_of_makeLast hm)
        · cases h
  · cases h

/-- What is kept whenever a directory is created is kept when several are, even where that fails
halfway. -/
theorem makeDirectories_invariant {P : FileSystem → Prop}
    (hP : ∀ {fs fs' path}, P fs → makeDirectory fs path = .ok fs' → P fs') (hfs : P fs)
    (mayExist : Bool) (fuel : Nat) (path : String) :
    P (fs.makeDirectories mayExist fuel path).2 := by
  have last : ∀ {fs fs' mayExist path}, P fs → makeLast fs mayExist path = .ok fs' → P fs' := by
    intro fs fs' mayExist path hfs h
    unfold makeLast at h
    split at h
    · next hm => exact hP hfs (hm.trans h)
    · cases h
    · split at h
      · exact Except.ok.inj h ▸ hfs
      · cases h
  induction fuel generalizing mayExist path with
  | zero => exact hfs
  | succ fuel ih =>
    rw [makeDirectories]
    split
    · next h => exact last hfs h
    · split
      · exact hfs
      · have habove := ih true (Disk.parent path)
        split
        · next he =>
          rw [he] at habove
          exact habove
        · next he =>
          rw [he] at habove
          split
          · next h => exact last habove h
          · exact habove
    · exact hfs

/-- Creating directories adds directories, even where it fails halfway. -/
theorem growsTo_makeDirectories (fs : FileSystem) (mayExist : Bool) (fuel : Nat) (path : String) :
    fs.GrowsTo (fs.makeDirectories mayExist fuel path).2 :=
  makeDirectories_invariant (fun hg h => hg.trans (growsTo_of_makeDirectory h)) (.refl fs) mayExist
    fuel path

/-! ## Reading what has been written -/

/-- Everything lies in a directory, and paths start in one. -/
structure Rooted (fs : FileSystem) : Prop where
  grounded : fs.Grounded
  start : fs.item? fs.workingPlace = some .directory

/-- A way leads to a directory, or to a name in one. A link is only found at the end of a way that
is not to follow it. -/
theorem Walks.arrives (h : fs.Walks e fuel links place names q) (hg : fs.Grounded)
    (hd : fs.item? place = some .directory) : fs.item? q = some .directory ∨
      ∃ name above, q = name :: above ∧ fs.item? above = some .directory ∧
        ∀ t, fs.item? q = some (.link t) → e = .stay := by
  induction h with
  | stop => exact .inl hd
  | skip _ _ ih => exact ih hd
  | @up _ _ place _ _ _ ih =>
    refine ih ?_
    cases place with
    | nil => rfl
    | cons name above => exact hg name above _ hd
  | @last _ _ place name _ hl => exact .inr ⟨name, place, rfl, hd, hl⟩
  | enter _ hname _ ih => exact ih hname
  | along _ _ _ _ _ ih =>
    refine ih ?_
    split
    · rfl
    · exact hd

namespace Rooted

theorem arrives (h : fs.Rooted) (hp : fs.placeOf e path = .ok p) : fs.item? p = some .directory ∨
    ∃ name above, p = name :: above ∧ fs.item? above = some .directory ∧
      ∀ t, fs.item? p = some (.link t) → e = .stay := by
  obtain ⟨-, -, hw⟩ := placeOf_eq_ok_iff.1 hp
  refine hw.arrives h.grounded ?_
  split
  · rfl
  · exact h.start

theorem makeDirectory (h : fs.Rooted) (hm : fs.makeDirectory path = .ok fs') : fs'.Rooted := by
  have hgrows := growsTo_of_makeDirectory hm
  obtain ⟨p, hp, hm⟩ := bind_eq_ok.1 hm
  split at hm
  · cases hm
  next hnone =>
  obtain rfl := Except.ok.inj hm
  refine ⟨fun name above i hi => ?_, hgrows.kept h.start⟩
  rw [item?_put (ne_nil_of_item? (by rw [hnone]; exact nofun))] at hi
  split at hi
  · next heq =>
    obtain hdir | ⟨name', above', hp', habove, -⟩ := h.arrives hp
    · exact nomatch hnone.symm.trans hdir
    · rw [hp'] at heq
      rw [(List.cons.inj heq).2]
      exact hgrows.kept habove
  · exact hgrows.kept (h.grounded name above i hi)

theorem makePath (h : fs.Rooted) (mayExist : Bool) (path : String) :
    (fs.makePath mayExist path).2.Rooted :=
  makeDirectories_invariant (fun hr hm => hr.makeDirectory hm) h mayExist _ path

/-- A file is read as it was written, whether or not there was a file before. -/
theorem read_write (h : fs.Rooted) (hw : fs.write path octets = .ok fs') :
    fs'.read path = .ok octets := by
  obtain ⟨p, hp, hd, rfl⟩ := write_eq_ok_iff.1 hw
  have hfollow := placeOf_follow hp fun h => nomatch h
  have hfile : ∀ j, fs.item? p = some j → ∃ b, j = .file b := by
    intro j hj
    obtain hdir | ⟨-, -, -, -, hl⟩ := h.arrives hp
    · exact absurd hdir hd
    · cases j with
      | file b => exact ⟨b, rfl⟩
      | directory => exact absurd hj hd
      | link t => exact nomatch hl t hj
  have hways : fs.KeepsWays (fs.put p (.file octets)) := .put hfile nofun
  refine read_eq_ok_iff.2 ⟨p, hways.placeOf hfollow, ?_⟩
  rw [item?_put (ne_nil_of_item? hd), if_pos rfl]

end Rooted

theorem unlink_eq_ok (h : fs.unlink path = .ok fs') : ∃ p i, fs.placeOf .stay path = .ok p ∧
    fs.item? p = some i ∧ i ≠ .directory ∧ fs' = fs.removeAt p := by
  obtain ⟨p, hp, h⟩ := bind_eq_ok.1 h
  split at h
  · cases h
  · cases h
  · next i hd hi => exact ⟨p, i, hp, hi, fun he => hd he, (Except.ok.inj h).symm⟩

/-! ## Renaming -/

/-- Where something is after what is at `p` has gone to `q`. -/
def rebased (p q r : Place) : Place :=
  if p.isSuffixOf r then r.take (r.length - p.length) ++ q else r

theorem rebased_append (p q t : Place) : rebased p q (t ++ p) = t ++ q := by
  rw [rebased, if_pos (List.isSuffixOf_iff_suffix.2 (List.suffix_append t p))]
  simp

theorem rebased_of_not_suffix (h : ¬ p <:+ r) : rebased p q r = r :=
  if_neg fun hs => h (List.isSuffixOf_iff_suffix.1 hs)

theorem rebased_self (p r : Place) : rebased p p r = r := by
  by_cases hs : p <:+ r
  · obtain ⟨t, rfl⟩ := hs
    exact rebased_append p p t
  · exact rebased_of_not_suffix hs

/-- What a renaming finds, and what it leaves. -/
theorem rename_eq_ok (h : fs.rename old new = .ok fs') : ∃ p q,
    fs.placeOf .stay old = .ok p ∧ fs.placeOf .stay new = .ok q ∧
      (p = q ∧ fs' = fs ∨ ¬ p <:+ q ∧ fs.item? q ≠ some .directory ∧
        fs' = { fs with items := .ofList ((fs.items.filter fun r _ => r != q).entries.map fun e =>
          (rebased p q e.1, e.2)) }) := by
  unfold rename at h
  obtain ⟨-, h⟩ := guard_eq_ok h
  obtain ⟨_, -, h⟩ := bind_eq_ok.1 h
  obtain ⟨_, -, h⟩ := bind_eq_ok.1 h
  obtain ⟨-, h⟩ := guard_eq_ok h
  obtain ⟨p, hp, h⟩ := bind_eq_ok.1 h
  obtain ⟨q, hq, h⟩ := bind_eq_ok.1 h
  refine ⟨p, q, hp, hq, ?_⟩
  split at h
  · cases h
  split at h
  · next hpq => exact .inl ⟨beq_iff_eq.1 hpq, (Except.ok.inj h).symm⟩
  obtain ⟨hs, h⟩ := guard_eq_ok h
  rw [List.isSuffixOf_iff_suffix] at hs
  split at h
  · cases h
  · next hd hi =>
    obtain ⟨-, h⟩ := guard_eq_ok h
    exact .inr ⟨hs, fun he => hd (Option.some.inj (hi.symm.trans he)), (Except.ok.inj h).symm⟩
  · next hi => exact .inr ⟨hs, fun he => (nomatch hi.symm.trans he), (Except.ok.inj h).symm⟩

/-- Different places stay different where nothing lies below the new one. -/
theorem rebased_injective {r' : Place} (hr : ¬ q <:+ r) (hr' : ¬ q <:+ r')
    (h : rebased p q r = rebased p q r') : r = r' := by
  by_cases hs : p <:+ r <;> by_cases hs' : p <:+ r'
  · obtain ⟨t, rfl⟩ := hs
    obtain ⟨t', rfl⟩ := hs'
    rw [rebased_append, rebased_append, List.append_left_inj] at h
    rw [h]
  · obtain ⟨t, rfl⟩ := hs
    rw [rebased_append, rebased_of_not_suffix hs'] at h
    exact absurd ⟨t, h⟩ hr'
  · obtain ⟨t', rfl⟩ := hs'
    rw [rebased_append, rebased_of_not_suffix hs] at h
    exact absurd ⟨t', h.symm⟩ hr
  · rwa [rebased_of_not_suffix hs, rebased_of_not_suffix hs'] at h

/-- Everything at `p` and below it has gone to `q`, and the rest is where it was, except for what
gives way. -/
structure Taken (fs fs' : FileSystem) (p q : Place) : Prop where
  workingPlace : fs'.workingPlace = fs.workingPlace
  apart : p = q ∨ ¬ p <:+ q
  kept : ∀ {r i}, fs.item? r = some i → r ≠ q → fs'.item? (rebased p q r) = some i

theorem taken_of_rename (hg : fs.Grounded) (h : fs.rename old new = .ok fs') : ∃ p q,
    fs.placeOf .stay old = .ok p ∧ fs.placeOf .stay new = .ok q ∧ fs.Taken fs' p q := by
  obtain ⟨p, q, hp, hq, hcases⟩ := rename_eq_ok h
  have hworking : fs'.workingPlace = fs.workingPlace := by
    rcases hcases with ⟨-, rfl⟩ | ⟨-, -, rfl⟩ <;> rfl
  refine ⟨p, q, hp, hq, hworking, hcases.imp And.left And.left, fun {r i} hi hr => ?_⟩
  rcases hcases with ⟨rfl, rfl⟩ | ⟨hs, hd, rfl⟩
  · rwa [rebased_self]
  have hq : q ≠ [] := ne_nil_of_item? hd
  -- what lies below the new place would make it a directory
  have houtside : ∀ {r i}, fs.item? r = some i → r ≠ q → ¬ q <:+ r := fun hi hr hsuffix =>
    hd (hg.directory hi hsuffix (Ne.symm hr))
  have hentry : ∀ {r i}, (r, i) ∈ (fs.items.filter fun r _ => r != q).entries → ¬ q <:+ r := by
    intro r i he
    obtain ⟨hget, hne⟩ := Table.get?_filter_iff.1 (Table.mem_entries_iff.1 he)
    have hne : r ≠ q := by simpa using hne
    cases r with
    | nil => rwa [List.suffix_nil]
    | cons => exact houtside hget hne
  have htop : rebased p q [] = [] := by
    rw [rebased_of_not_suffix]
    rw [List.suffix_nil]
    rintro rfl
    exact hs List.nil_suffix
  have hkeys : ((fs.items.filter fun r _ => r != q).entries.map Prod.fst).map (rebased p q)
      |>.Nodup := by
    refine List.Nodup.map_on ?_ (fs.items.filter fun r _ => r != q).nodup
    intro _ hr _ hr' he
    obtain ⟨x, hx, rfl⟩ := List.mem_map.1 hr
    obtain ⟨y, hy, rfl⟩ := List.mem_map.1 hr'
    exact rebased_injective (hentry hx) (hentry hy) he
  cases r with
  | nil =>
    rw [htop]
    exact hi
  | cons name above =>
    have hne : rebased p q (name :: above) ≠ [] := by
      rw [← htop]
      intro he
      cases rebased_injective (houtside hi hr) (by rwa [List.suffix_nil]) he
    rw [item?_of_ne_nil hne]
    refine (Table.get?_ofList_iff ?_).2 (List.mem_map.2 ⟨(name :: above, i), ?_, rfl⟩)
    · rw [List.map_map] at hkeys ⊢
      exact hkeys
    · exact Table.mem_entries_iff.2 (Table.get?_filter_iff.2 ⟨hi, by simpa using hr⟩)

end FileSystem

end Workbench
