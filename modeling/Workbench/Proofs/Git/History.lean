import Workbench.Proofs.Git.Steps
import Workbench.Proofs.Git.Uncommitted

/-!
# Histories

A history is the line of commits from one on back to a first one (`Repository.Line`). In a
repository that is whole every stored commit has a history and a tree, and every pointer names a
stored commit, so that the search for ancestors, which is bounded by the number of commits, always
comes to its end (`Repository.Whole.history_eq`).

As long as every commit gets an id of its own, all operations keep a repository whole, and all that
it holds: commits and trees stay as they are, and a pointer moves to a commit only if the one
before is an ancestor of it (`Repository.GrowsTo`).
-/

namespace Workbench

open Git (Commit Tree)

variable {σ : Type}

namespace Repository

variable {r r' : Repository} {now : Timestamp} {c : Commit}
  {oid older newer name : String} {top : Option String} {l l' : List Commit}

/-! ## Lines of commits -/

/-- The commits from one on back to a first one, newest first. -/
inductive Line (r : Repository) : Option String → List Commit → Prop
  | start : Line r none []
  | commit {oid : String} {c : Commit} {l : List Commit} (hc : r.commits.get? oid = some c)
      (hl : Line r c.parent l) : Line r (some oid) (c :: l)

namespace Line

theorem unique (h : r.Line top l) (h' : r.Line top l') : l = l' := by
  induction h generalizing l' with
  | start =>
    cases h'
    rfl
  | commit hc _ ih =>
    cases h' with
    | commit hc' hl' =>
      obtain rfl := Option.some.inj (hc.symm.trans hc')
      rw [ih hl']

theorem mono (hr : ∀ {oid c}, r.commits.get? oid = some c → r'.commits.get? oid = some c)
    (h : r.Line top l) : r'.Line top l := by
  induction h with
  | start => exact .start
  | commit hc _ ih => exact .commit (hr hc) ih

/-- The commits of a line are stored, and the line of each is what is left of the line from it
on. -/
theorem of_mem (hk : ∀ {oid c}, r.commits.get? oid = some c → c.oid = oid) (h : r.Line top l)
    (hc : c ∈ l) :
    r.commits.get? c.oid = some c ∧ ∃ rest, c :: rest <:+ l ∧ r.Line (some c.oid) (c :: rest) := by
  induction h with
  | start => cases hc
  | @commit oid d l hd hl ih =>
    rcases List.mem_cons.1 hc with rfl | hc
    · rw [hk hd]
      exact ⟨hd, l, List.suffix_rfl, .commit hd hl⟩
    · obtain ⟨hget, rest, hs, hline⟩ := ih hc
      exact ⟨hget, rest, hs.trans (List.suffix_cons d l), hline⟩

/-- No commit is before itself. -/
theorem nodup (hk : ∀ {oid c}, r.commits.get? oid = some c → c.oid = oid) (h : r.Line top l) :
    (l.map Commit.oid).Nodup := by
  induction h with
  | start => exact List.nodup_nil
  | @commit oid c l hc hl ih =>
    rw [List.map_cons, List.nodup_cons]
    refine ⟨fun hmem => ?_, ih⟩
    obtain ⟨d, hd, hdc⟩ := List.mem_map.1 hmem
    obtain ⟨-, rest, hs, hline⟩ := hl.of_mem hk hd
    -- the line from the commit on would go on with the commit once more
    rw [hdc, hk hc] at hline
    have he := hline.unique (.commit hc hl)
    have hlen := hs.length_le
    rw [he, List.length_cons] at hlen
    omega

/-- In a line each commit comes right after its parent. -/
theorem linked (hk : ∀ {oid c}, r.commits.get? oid = some c → c.oid = oid) (h : r.Line top l) :
    l.IsChain fun c d => c.parent = some d.oid := by
  induction h with
  | start => exact .nil
  | @commit oid c l hc hl ih =>
    generalize hp : c.parent = parent at hl
    cases hl with
    | start => exact .singleton c
    | commit hget _ => exact .cons_cons (by rw [hp, hk hget]) ih

/-- A bound that is large enough does not cut a line off. -/
theorem chain_eq (h : r.Line top l) {fuel : Nat} (hf : l.length ≤ fuel) : r.chain fuel top = l := by
  induction h generalizing fuel with
  | start => cases fuel <;> rfl
  | @commit oid c l hc _ ih =>
    obtain ⟨fuel, rfl⟩ : ∃ k, fuel = k + 1 := Nat.exists_eq_add_one.2 (by simp at hf; omega)
    rw [chain, Option.bind_some, hc]
    dsimp only
    rw [ih (by simpa using hf)]

end Line

/-- A commit is another one or lies before it. -/
def Precedes (r : Repository) (older newer : String) : Prop :=
  ∃ l, r.Line (some newer) l ∧ older ∈ l.map Commit.oid

theorem Precedes.mono (h : r.Precedes older newer)
    (hr : ∀ {oid c}, r.commits.get? oid = some c → r'.commits.get? oid = some c) :
    r'.Precedes older newer := by
  obtain ⟨l, hl, hm⟩ := h
  exact ⟨l, hl.mono hr, hm⟩

/-! ## Whole repositories -/

/-- The commits of a repository are stored under their ids, with their trees and their
histories. -/
structure Stored (r : Repository) : Prop where
  keyed : ∀ {oid c}, r.commits.get? oid = some c → c.oid = oid
  tree : ∀ {oid}, r.commits.contains oid = r.trees.contains oid
  line : ∀ {oid}, r.commits.contains oid = true → ∃ l, r.Line (some oid) l

/-- Pointers name stored commits. Before it is initialised, a repository has no branches;
afterwards only the first one may be without commits. -/
structure Whole (r : Repository) : Prop extends Stored r where
  branch : ∀ {name oid}, r.branches.get? name = some (some oid) → r.commits.contains oid = true
  unborn : ∀ {name}, r.branches.get? name = some none → name = Git.firstBranch
  remote : ∀ {name oid}, r.remoteBranches.get? name = some oid → r.commits.contains oid = true
  begun : r.initialized = false → r.branches = .empty

/-- A commit that can be reached from a pointer, here or at the remote. -/
def Reaches (r : Repository) (oid : String) : Prop :=
  (∃ name tip, r.branches.get? name = some (some tip) ∧ r.Precedes oid tip) ∨
    ∃ name tip, r.remoteBranches.get? name = some tip ∧ r.Precedes oid tip

/-- What is stored stays, and every pointer that names a commit names it still or a later one. -/
structure GrowsTo (r r' : Repository) : Prop where
  commits : ∀ {oid c}, r.commits.get? oid = some c → r'.commits.get? oid = some c
  trees : ∀ {oid t}, r.trees.get? oid = some t → r'.trees.get? oid = some t
  branches : ∀ {name older}, r.branches.get? name = some (some older) →
    ∃ newer, r'.branches.get? name = some (some newer) ∧ r'.Precedes older newer
  remotes : ∀ {name older}, r.remoteBranches.get? name = some older →
    ∃ newer, r'.remoteBranches.get? name = some newer ∧ r'.Precedes older newer

namespace Stored

theorem congr (h : r.Stored) (hc : r'.commits = r.commits) (ht : r'.trees = r.trees) :
    r'.Stored where
  keyed hget := h.keyed (hc ▸ hget)
  tree := by
    rw [hc, ht]
    exact h.tree
  line hget := by
    rw [hc] at hget
    obtain ⟨l, hl⟩ := h.line hget
    exact ⟨l, hl.mono fun hd => hc ▸ hd⟩

/-- The history is never cut off. -/
theorem history_eq (h : r.Stored) (hl : r.Line top l) : r.history top = l := by
  refine hl.chain_eq ?_
  rw [← List.length_map (f := Commit.oid)]
  refine Table.length_le_size (hl.nodup h.keyed) fun k hk => ?_
  obtain ⟨c, hc, rfl⟩ := List.mem_map.1 hk
  exact ⟨c, (hl.of_mem h.keyed hc).1⟩

theorem precedes_self (h : r.Stored) (hc : r.commits.contains oid = true) : r.Precedes oid oid := by
  obtain ⟨l, hl⟩ := h.line hc
  refine ⟨l, hl, ?_⟩
  cases hl with
  | @commit _ c _ hget _ =>
    rw [List.map_cons, h.keyed hget]
    exact List.mem_cons_self

/-- The search for an ancestor finds it exactly when it is there. -/
theorem isAncestor_iff (h : r.Stored) (hc : r.commits.contains newer = true) :
    r.isAncestor older (some newer) = true ↔ r.Precedes older newer := by
  obtain ⟨l, hl⟩ := h.line hc
  rw [isAncestor, ancestors, h.history_eq hl, List.contains_iff_mem]
  constructor
  · intro hm
    exact ⟨l, hl, hm⟩
  · rintro ⟨l', hl', hm⟩
    rwa [hl.unique hl']

theorem precedes_trans (h : r.Stored) (h₁ : r.Precedes oid older) (h₂ : r.Precedes older newer) :
    r.Precedes oid newer := by
  obtain ⟨l₁, hl₁, hm₁⟩ := h₁
  obtain ⟨l₂, hl₂, hm₂⟩ := h₂
  obtain ⟨c, hc, rfl⟩ := List.mem_map.1 hm₂
  obtain ⟨-, rest, hs, hline⟩ := hl₂.of_mem h.keyed hc
  rw [hl₁.unique hline] at hm₁
  exact ⟨l₂, hl₂, List.map_subset _ hs.subset hm₁⟩

/-- A new commit after the current one. -/
theorem recorded (h : r.Stored) (message : String) (now : Timestamp)
    (hnew : r.commits.contains oid = false)
    (ht : ∀ tip ∈ r.tip?, r.commits.contains tip = true) : (r.recorded oid message now).Stored := by
  have hmono : ∀ {id c}, r.commits.get? id = some c →
      (r.recorded oid message now).commits.get? id = some c := fun hget =>
    Table.get?_insert_of_get? hnew hget _
  constructor
  case keyed =>
    intro id c hget
    unfold Repository.recorded at hget
    dsimp only at hget
    rw [Table.get?_insert] at hget
    split at hget
    · next he =>
      obtain rfl := Option.some.inj hget
      exact he.symm
    · exact h.keyed hget
  case tree =>
    intro id
    have htree : r.commits.contains id = r.trees.contains id := h.tree
    unfold Repository.recorded Table.contains at *
    dsimp only
    rw [Table.get?_insert, Table.get?_insert]
    split
    · rfl
    · exact htree
  case line =>
    intro id hget
    by_cases hid : id = oid
    · subst hid
      obtain ⟨l, hl⟩ : ∃ l, r.Line r.tip? l := by
        cases htip : r.tip? with
        | none => exact ⟨[], .start⟩
        | some tip => exact h.line (ht tip htip)
      exact ⟨_, .commit (Table.get?_insert_self _ _ _) (hl.mono hmono)⟩
    · have hold : r.commits.contains id = true := by
        obtain ⟨c, hc⟩ := Table.contains_iff.1 hget
        refine Table.contains_iff.2 ⟨c, ?_⟩
        rw [← hc]
        exact (Table.get?_insert_of_ne hid _).symm
      obtain ⟨l, hl⟩ := h.line hold
      exact ⟨l, hl.mono hmono⟩

/-- The current commit is before a new one. -/
theorem precedes_recorded (h : r.Stored) (hnew : r.commits.contains oid = false)
    (ht : r.tip? = some older) (hc : r.commits.contains older = true) :
    (r.recorded oid name now).Precedes older oid := by
  obtain ⟨l, hl, hm⟩ := h.precedes_self hc
  refine ⟨_, .commit (Table.get?_insert_self _ _ _) ?_, List.mem_cons_of_mem _ hm⟩
  rw [ht]
  exact hl.mono fun hget => Table.get?_insert_of_get? hnew hget _

end Stored

/-- What could be reached from a pointer can be reached from it still. -/
theorem GrowsTo.reaches (h : r.GrowsTo r') (hw : r'.Stored) (ho : r.Reaches oid) :
    r'.Reaches oid := by
  rcases ho with ⟨name, tip, ht, hp⟩ | ⟨name, tip, ht, hp⟩
  · obtain ⟨newer, hn, hpast⟩ := h.branches ht
    exact .inl ⟨name, newer, hn, hw.precedes_trans (hp.mono h.commits) hpast⟩
  · obtain ⟨newer, hn, hpast⟩ := h.remotes ht
    exact .inr ⟨name, newer, hn, hw.precedes_trans (hp.mono h.commits) hpast⟩

/-! ## Operations -/

namespace Whole

theorem new (root author : String) : (Repository.new root author).Whole where
  keyed h := nomatch h
  tree := rfl
  line h := nomatch h
  branch h := nomatch h
  unborn h := nomatch h
  remote h := nomatch h
  begun _ := rfl

theorem tip (h : r.Whole) (ht : r.tip? = some oid) : r.commits.contains oid = true :=
  h.branch (tip?_eq_some_iff.1 ht)

/-- How a branch goes on: it names what it named, begins without commits, or moves to a stored
commit that comes after the one it named. -/
inductive Onward (r : Repository) (name : String) :
    Option (Option String) → Option (Option String) → Prop
  | kept {x : Option (Option String)} : Onward r name x x
  | begun (hn : name = Git.firstBranch) : Onward r name none (some none)
  | moved {x : Option (Option String)} {newer : String} (hn : r.commits.contains newer = true)
      (hp : ∀ older, x = some (some older) → r.Precedes older newer) :
      Onward r name x (some (some newer))

namespace Onward

variable {x y : Option (Option String)}

theorem stored (ho : Onward r' name x (some (some oid)))
    (hx : x = some (some oid) → r'.commits.contains oid = true) :
    r'.commits.contains oid = true := by
  cases ho with
  | kept => exact hx rfl
  | moved hn => exact hn

theorem precedes (ho : Onward r' name (some (some older)) y) (hp : r'.Precedes older older) :
    ∃ newer, y = some (some newer) ∧ r'.Precedes older newer := by
  cases ho with
  | kept => exact ⟨older, rfl, hp⟩
  | @moved _ newer _ hpast => exact ⟨newer, rfl, hpast older rfl⟩

end Onward

/-- A change under which everything stored stays and all pointers go on. -/
theorem step (h : r.Whole) (hs : r'.Stored)
    (hc : ∀ {oid c}, r.commits.get? oid = some c → r'.commits.get? oid = some c)
    (ht : ∀ {oid t}, r.trees.get? oid = some t → r'.trees.get? oid = some t)
    (hb : ∀ name, Onward r' name (r.branches.get? name) (r'.branches.get? name))
    (hr : ∀ name, Onward r' name ((r.remoteBranches.get? name).map some)
      ((r'.remoteBranches.get? name).map some))
    (hi : r'.initialized = false → r'.branches = .empty) : r'.Whole ∧ r.GrowsTo r' := by
  have hstored : ∀ {oid}, r.commits.contains oid = true → r'.commits.contains oid = true := by
    intro oid hget
    obtain ⟨c, hget⟩ := Table.contains_iff.1 hget
    exact Table.contains_iff.2 ⟨c, hc hget⟩
  have hself : ∀ {oid}, r.commits.contains oid = true → r'.Precedes oid oid := fun hget =>
    hs.precedes_self (hstored hget)
  refine ⟨⟨hs, ?branch, ?unborn, ?remote, hi⟩, hc, ht, ?branches, ?remotes⟩
  case branch =>
    intro name oid hget
    have ho := hb name
    rw [hget] at ho
    exact ho.stored fun hx => hstored (h.branch hx)
  case unborn =>
    intro name hget
    have ho := hb name
    rw [hget] at ho
    generalize hx : r.branches.get? name = x at ho
    cases ho with
    | kept => exact h.unborn hx
    | begun hn => exact hn
  case remote =>
    intro name oid hget
    have ho := hr name
    rw [hget, Option.map_some] at ho
    refine ho.stored fun hx => ?_
    obtain ⟨_, hold, he⟩ := Option.map_eq_some_iff.1 hx
    obtain rfl := Option.some.inj he
    exact hstored (h.remote hold)
  case branches =>
    intro name older hget
    have ho := hb name
    rw [hget] at ho
    exact ho.precedes (hself (h.branch hget))
  case remotes =>
    intro name older hget
    have ho := hr name
    rw [hget, Option.map_some] at ho
    obtain ⟨newer, hn, hp⟩ := ho.precedes (hself (h.remote hget))
    obtain ⟨_, hnew, he⟩ := Option.map_eq_some_iff.1 hn
    obtain rfl := Option.some.inj he
    exact ⟨_, hnew, hp⟩

/-- A change of nothing that is stored and of no pointer. -/
theorem same (h : r.Whole) (hc : r'.commits = r.commits) (ht : r'.trees = r.trees)
    (hb : r'.branches = r.branches) (hr : r'.remoteBranches = r.remoteBranches)
    (hi : r'.initialized = r.initialized) : r'.Whole ∧ r.GrowsTo r' := by
  refine h.step (h.toStored.congr hc ht) (fun hget => hc ▸ hget) (fun hget => ht ▸ hget) ?_ ?_ ?_
  · intro name
    rw [hb]
    exact .kept
  · intro name
    rw [hr]
    exact .kept
  · rw [hi, hb]
    exact h.begun

theorem insert_onward {t : Table String (Option String)} (hn : r.commits.contains newer = true)
    (hp : ∀ older, t.get? name = some (some older) → r.Precedes older newer) (other : String) :
    Onward r other (t.get? other) ((t.insert name (some newer)).get? other) := by
  rw [Table.get?_insert]
  split
  · next he =>
    subst he
    exact .moved hn hp
  · exact .kept

/-- No pointer is lost and none leaves behind what it named, whatever is asked of a repository in
which every commit gets an id of its own. -/
theorem makes (h : r.Whole) {c : Git.Call} (hm : c.Makes now r r') (hfresh : c.IsFresh now r) :
    r'.Whole ∧ r.GrowsTo r' := by
  cases hm with
  | kept => exact h.same rfl rfl rfl rfl rfl
  | begun hi =>
    refine h.step (h.toStored.congr rfl rfl) id id ?_ (fun _ => .kept) (fun hf => by cases hf)
    intro name
    dsimp only
    rw [h.begun hi, Table.get?_empty, Table.ofList, Table.insertMany, List.foldl_cons,
      List.foldl_nil, Table.get?_insert]
    split
    · next hn => exact .begun hn
    · exact .kept
  | staged index => exact h.same rfl rfl rfl rfl rfl
  | @recorded message oid hc =>
    have hnew := hfresh message oid _ rfl hc
    have hs := h.toStored.recorded message now hnew fun tip ht => h.tip ht
    have hstored : (r.recorded oid message now).commits.contains oid = true :=
      Table.contains_iff.2 ⟨_, Table.get?_insert_self _ _ _⟩
    obtain ⟨hi, -⟩ := commit_eq_ok_iff.1 hc
    refine h.step hs (fun hget => Table.get?_insert_of_get? hnew hget _)
      (fun hget => Table.get?_insert_of_get? (h.tree ▸ hnew) hget _) ?_ (fun _ => .kept)
      (fun hf => by cases hi.symm.trans hf)
    refine insert_onward hstored fun older hget => ?_
    have hold := tip?_eq_some_iff.2 hget
    exact h.toStored.precedes_recorded hnew hold (h.tip hold)
  | branched hi hnew ht =>
    refine h.step (h.toStored.congr rfl rfl) id id ?_ (fun _ => .kept)
      (fun hf => by cases hi.symm.trans hf)
    refine insert_onward (h.tip ht) fun older hget => ?_
    rw [Table.contains_eq_false_iff] at hnew
    rw [hnew] at hget
    cases hget
  | switched hr => exact h.same rfl rfl rfl rfl rfl
  | attached => exact h.same rfl rfl rfl rfl rfl
  | @pushed here ht hpast =>
    refine h.step (h.toStored.congr rfl rfl) id id (fun _ => .kept) ?_ h.begun
    intro name
    dsimp only
    rw [Table.get?_insert]
    split
    · next he =>
      subst he
      refine .moved (h.tip ht) fun older hget => ?_
      obtain ⟨_, hold, he⟩ := Option.map_eq_some_iff.1 hget
      obtain rfl := Option.some.inj he
      exact ((h.toStored.isAncestor_iff (h.tip ht)).1 (hpast _ hold)).mono id
    · exact .kept
  | @pulled there hi ht hpast =>
    refine h.step (h.toStored.congr rfl rfl) id id ?_ (fun _ => .kept)
      (fun hf => by cases hi.symm.trans hf)
    refine insert_onward (h.remote ht) fun older hget => ?_
    have hold := hpast older (tip?_eq_some_iff.2 hget)
    exact ((h.toStored.isAncestor_iff (h.remote ht)).1 hold).mono id

theorem setRemote (h : r.Whole) (branch : String) {tip : Option String}
    (ht : ∀ oid ∈ tip, r.commits.contains oid = true) : (r.setRemote branch tip).Whole := by
  have hgoal : ∀ {remoteBranches : Table String String},
      (∀ {name oid}, remoteBranches.get? name = some oid → r.commits.contains oid = true) →
        Whole { r with remoteBranches := remoteBranches } := fun hr =>
    ⟨h.toStored.congr rfl rfl, h.branch, h.unborn, hr, h.begun⟩
  unfold Repository.setRemote
  split
  · next oid =>
    refine hgoal fun hget => ?_
    rw [Table.get?_insert] at hget
    split at hget
    · obtain rfl := Option.some.inj hget
      exact ht _ rfl
    · exact h.remote hget
  · refine hgoal fun hget => ?_
    rw [Table.get?_erase] at hget
    split at hget
    · cases hget
    · exact h.remote hget

/-- A log begins with the current commit and goes on as far as it is asked to, or to the first
commit. -/
theorem log_eq (h : r.Whole) (hi : r.initialized = true) (ht : r.tip? = some oid) (depth : Int) :
    ∃ l, r.Line (some oid) l ∧ r.log depth = .ok (l.take depth.toNat) := by
  obtain ⟨l, hl⟩ := h.line (h.tip ht)
  refine ⟨l, hl, ?_⟩
  rw [log, require_eq_ok_iff.2 hi, ht, ← h.toStored.history_eq hl]
  rfl

end Whole

end Repository

/-! ## Runs -/

namespace Project

open Repository

variable {p : Project σ} {h : Host σ}

/-- What a new repository is led to if every commit gets an id that no commit has. -/
def Distinct (p : Project σ) : Prop := p.LedBy fun h r c => c.IsFresh h.now r

theorem Distinct.whole (hp : p.Distinct) : p.repository.Whole :=
  LedBy.invariant hp .new (fun hw hc hm => (hw.makes hm hc).1) fun hw ht => hw.setRemote _ ht

/-- A history only grows, as long as every commit gets an id of its own. All pointers name stored
commits, and every stored commit has a tree and a history that comes to its end without passing a
commit twice. An operation keeps what is stored, moves pointers to later commits only and loses no
commit that could be reached; the log follows the history. -/
theorem history_grows (hp : p.Distinct) :
    p.repository.Whole ∧
      (∀ oid, p.repository.commits.contains oid = true →
        ∃ l, p.repository.Line (some oid) l ∧ (l.map Commit.oid).Nodup ∧
          l.IsChain fun c d => c.parent = some d.oid) ∧
      (∀ (h : Host σ) (c : Git.Call), c.IsFresh h.now p.repository →
        p.repository.GrowsTo (c.run h p).2.repository ∧
          ∀ oid, p.repository.Reaches oid → (c.run h p).2.repository.Reaches oid) ∧
      (p.repository.initialized = true → ∀ tip, p.repository.tip? = some tip → ∀ depth : Int,
        ∃ l, p.repository.Line (some tip) l ∧
          p.repository.log depth = .ok (l.take depth.toNat)) := by
  have hw := hp.whole
  refine ⟨hw, ?lines, ?calls, fun hi tip ht depth => hw.log_eq hi ht depth⟩
  case lines =>
    intro oid hc
    obtain ⟨l, hl⟩ := hw.line hc
    exact ⟨l, hl, hl.nodup hw.keyed, hl.linked hw.keyed⟩
  case calls =>
    intro h c hfresh
    obtain ⟨hw', hg⟩ := hw.makes (makes_run h p c) hfresh
    exact ⟨hg, fun oid ho => hg.reaches hw'.toStored ho⟩

/-! ### A run -/

theorem isFresh_commit {now : Timestamp} {r : Repository} {message oid : String}
    (hid : commitId r.tip? message now r.index = oid) (hnew : r.commits.contains oid = false) :
    Git.Call.IsFresh now r (.commit message) := by
  intro message' oid' r' he hr
  obtain rfl := Git.Call.commit.inj he
  obtain ⟨-, -, -, rfl, -⟩ := commit_eq_ok_iff.1 hr
  rwa [hid]

theorem isFresh_of_mem {now : Timestamp} {l : List (Operation ⊕ Git.Call)}
    (hl : ∀ message, Sum.inr (.commit message) ∉ l) {c : Git.Call} (hc : Sum.inr c ∈ l)
    (r : Repository) : c.IsFresh now r := by
  rintro message _ _ rfl
  exact absurd hc (hl message)

theorem distinct_noFile : noFile.Distinct := by
  refine (LedBy.new newProject.world "/" "user").trans
    (LedTo.acts ?_ _ fun c hc => isFresh_of_mem (by simp) hc)
  refine LedTo.recorded ?_ (by decide +kernel) (by decide) (by decide +kernel) commitId_oneFile
    (isFresh_commit commitId_oneFile (by decide +kernel))
  exact LedTo.refl.acts _ fun c hc => isFresh_of_mem (by simp) hc

/-- A second commit, on another branch, after the first one. -/
theorem secondCommit_grows :
    noFile.repository.GrowsTo ((Git.Call.commit "second").run freeHost noFile).2.repository ∧
      ((Git.Call.commit "second").run freeHost noFile).2.repository.Reaches firstId := by
  have hfresh : Git.Call.IsFresh freeHost.now noFile.repository (.commit "second") :=
    isFresh_commit commitId_noFile (by decide +kernel)
  obtain ⟨hw, -, hcalls, -⟩ := history_grows distinct_noFile
  obtain ⟨hg, hr⟩ := hcalls freeHost (.commit "second") hfresh
  have hstored : noFile.repository.commits.contains firstId = true := by decide +kernel
  exact ⟨hg, hr firstId (.inl ⟨"main", firstId, by decide +kernel,
    hw.toStored.precedes_self hstored⟩)⟩

end Project

end Workbench
