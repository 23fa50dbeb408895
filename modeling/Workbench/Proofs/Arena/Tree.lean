import Mathlib.Data.List.Induction
import Mathlib.Logic.Relation
import Workbench.Arena
import Workbench.Proofs.Table

/-!
# Arenas that are trees

`Arena.IsTree` says of an arena what makes it one tree of files and directories: parents and
children agree, siblings have different names, and every node is reached from the root. No field
speaks of circles: a node has one parent, so what is reached from the root cannot lie below itself
(`IsTree.acyclic`).

`Leads a id names` is the way to a node by the names that lie on it. In a tree every node has
exactly one such way, and two nodes never share one; both directions of path look-up are stated
through it.

Ways are shorter than the arena is large, so what goes down along them ends (`IsTree.descend`), and
recursion into the children yields for a node what it yields for its children, put together
(`IsTree.fold?_eq`).
-/

namespace Workbench

/-- What a node owes to itself: a proper name below the root, no children in a file, and a size
that is the length of its content in octets. Directories have no content. -/
structure Node.Fit (n : Node) : Prop where
  named : n.id ≠ rootId → Path.isName n.name = true
  leaf : n.kind = .file → n.children = []
  sized : n.size = n.content.utf8ByteSize
  bare : n.kind = .directory → n.content = ""

theorem Node.isDirectory_iff {n : Node} : n.isDirectory = true ↔ n.kind = .directory := by
  simp [isDirectory]

theorem Node.isFile_iff {n : Node} : n.isFile = true ↔ n.kind = .file := by
  simp [isFile]

theorem Node.kind_of_mem_children {n : Node} (h : n.Fit) {c : NodeId} (hc : c ∈ n.children) :
    n.kind = .directory := by
  cases hk : n.kind with
  | file => rw [h.leaf hk] at hc; cases hc
  | directory => rfl

namespace Arena

/-- The second node names the first as the directory that holds it. -/
def Holds (a : Arena) (p c : NodeId) : Prop := ∃ n, a.get? c = some n ∧ n.parentId = some p

/-- The second node is the first or lies somewhere below it. -/
def AtOrBelow (a : Arena) (top id : NodeId) : Prop := Relation.ReflTransGen a.Holds top id

/-- One tree of files and directories that hangs from the root. -/
structure IsTree (a : Arena) : Prop where
  root : ∃ r, a.get? rootId = some r ∧ r.kind = .directory ∧ r.parentId = none
  keyed : ∀ {id n}, a.get? id = some n → n.id = id
  held : ∀ {id n}, a.get? id = some n → id ≠ rootId →
    ∃ p d, n.parentId = some p ∧ a.get? p = some d ∧ id ∈ d.children
  listed : ∀ {id n c}, a.get? id = some n → c ∈ n.children →
    ∃ m, a.get? c = some m ∧ m.parentId = some id
  once : ∀ {id n}, a.get? id = some n → n.children.Nodup
  siblings : ∀ {c d m n}, a.get? c = some m → a.get? d = some n → m.parentId = n.parentId →
    m.name = n.name → c = d
  fit : ∀ {id n}, a.get? id = some n → n.Fit
  reached : ∀ {id n}, a.get? id = some n → a.AtOrBelow rootId id
  unnamed : ∀ {r}, a.get? rootId = some r → r.name = ""

namespace IsTree

variable {a : Arena} {id p c x y : NodeId} {n d m : Node}

/-- A node other than the root lies in exactly the directory that it names. -/
theorem parent (h : a.IsTree) (hn : a.get? c = some n) (hp : n.parentId = some p) :
    ∃ d, a.get? p = some d ∧ c ∈ d.children ∧ d.kind = .directory := by
  by_cases hc : c = rootId
  · obtain ⟨r, hr, -, hnone⟩ := h.root
    rw [hc, hr, Option.some.injEq] at hn
    rw [← hn, hnone] at hp
    cases hp
  · obtain ⟨q, d, hq, hd, hmem⟩ := h.held hn hc
    obtain rfl : p = q := Option.some.inj (hp.symm.trans hq)
    exact ⟨d, hd, hmem, Node.kind_of_mem_children (h.fit hd) hmem⟩

theorem parentId_eq_none_iff (h : a.IsTree) (hn : a.get? id = some n) :
    n.parentId = none ↔ id = rootId := by
  constructor
  · intro hnone
    by_contra hne
    obtain ⟨p, _, hp, _⟩ := h.held hn hne
    rw [hnone] at hp
    cases hp
  · rintro rfl
    obtain ⟨r, hr, -, hnone⟩ := h.root
    rw [hr, Option.some.injEq] at hn
    exact hn ▸ hnone

/-- A directory lists exactly the nodes that name it. -/
theorem mem_children_iff (h : a.IsTree) (hd : a.get? p = some d) :
    c ∈ d.children ↔ a.Holds p c := by
  constructor
  · exact h.listed hd
  · rintro ⟨n, hn, hp⟩
    obtain ⟨d', hd', hmem, -⟩ := h.parent hn hp
    rw [hd, Option.some.injEq] at hd'
    exact hd' ▸ hmem

theorem not_holds_root (h : a.IsTree) : ¬ a.Holds p rootId := by
  rintro ⟨n, hn, hp⟩
  rw [(h.parentId_eq_none_iff hn).2 rfl] at hp
  cases hp

theorem mem_of_holds (h : a.IsTree) (hpc : a.Holds p c) : ∃ d, a.get? p = some d := by
  obtain ⟨n, hn, hp⟩ := hpc
  obtain ⟨d, hd, -⟩ := h.parent hn hp
  exact ⟨d, hd⟩

end IsTree

theorem Holds.unique {a : Arena} {p q c : NodeId} (hp : a.Holds p c) (hq : a.Holds q c) :
    p = q := by
  obtain ⟨n, hn, hnp⟩ := hp
  obtain ⟨m, hm, hmq⟩ := hq
  obtain rfl : n = m := Option.some.inj (hn.symm.trans hm)
  exact Option.some.inj (hnp.symm.trans hmq)

/-! ## What lies below -/

namespace AtOrBelow

variable {a : Arena} {x y z p : NodeId}

theorem refl (a : Arena) (x : NodeId) : a.AtOrBelow x x := Relation.ReflTransGen.refl

theorem tail (hxy : a.AtOrBelow x y) (hyz : a.Holds y z) : a.AtOrBelow x z :=
  Relation.ReflTransGen.tail hxy hyz

theorem head (hxy : a.Holds x y) (hyz : a.AtOrBelow y z) : a.AtOrBelow x z :=
  Relation.ReflTransGen.head hxy hyz

/-- What lies below a node, but is not the node, has its parent there too. -/
theorem parent_of_ne (h : a.AtOrBelow x y) (hne : y ≠ x) (hp : a.Holds p y) :
    a.AtOrBelow x p := by
  cases h with
  | refl => exact absurd rfl hne
  | tail hxq hqy => exact hqy.unique hp ▸ hxq

/-- The nodes above a node are all in one line. -/
theorem comparable (hx : a.AtOrBelow x z) (hy : a.AtOrBelow y z) :
    a.AtOrBelow x y ∨ a.AtOrBelow y x := by
  induction hx with
  | refl => exact .inr hy
  | @tail p z hxp hpz ih =>
    by_cases hzy : z = y
    · subst hzy
      exact .inl (hxp.tail hpz)
    · exact ih (hy.parent_of_ne hzy hpz)

/-- What lies at or below a node that is there is there. -/
theorem exists_node {n : Node} (h : a.AtOrBelow x y) (hx : a.get? x = some n) :
    ∃ m, a.get? y = some m := by
  cases h with
  | refl => exact ⟨n, hx⟩
  | tail _ hpy =>
    obtain ⟨m, hm, -⟩ := hpy
    exact ⟨m, hm⟩

end AtOrBelow

namespace IsTree

variable {a : Arena} {id p c x y : NodeId} {n d m : Node}

theorem acyclic (h : a.IsTree) (id : NodeId) : ¬ Relation.TransGen a.Holds id id := by
  -- A circle through a node would lead through its parent, and so up to the root.
  suffices key : ∀ {x}, a.AtOrBelow rootId x → ¬ Relation.TransGen a.Holds x x by
    intro hc
    obtain ⟨y, -, n, hn, -⟩ := Relation.TransGen.tail'_iff.1 hc
    exact key (h.reached hn) hc
  intro x hx
  induction hx with
  | refl =>
    intro hc
    obtain ⟨y, -, hy⟩ := Relation.TransGen.tail'_iff.1 hc
    exact h.not_holds_root hy
  | @tail p c _ hpc ih =>
    intro hc
    obtain ⟨q, hcq, hqc⟩ := Relation.TransGen.tail'_iff.1 hc
    obtain rfl := hqc.unique hpc
    exact ih (Relation.TransGen.head' hpc hcq)

theorem not_below_parent (h : a.IsTree) (hpc : a.Holds p c) : ¬ a.AtOrBelow c p := fun hb =>
  h.acyclic c (Relation.TransGen.tail' hb hpc)

theorem eq_of_below_root (h : a.IsTree) (hx : a.AtOrBelow x rootId) : x = rootId := by
  cases hx with
  | refl => rfl
  | tail _ hp => exact absurd hp h.not_holds_root

/-- What lies below a node has a parent, at the node or below it. -/
theorem parent_below (h : a.IsTree) (hxy : a.AtOrBelow x y) (hyx : y ≠ x)
    (hn : a.get? y = some n) : ∃ p, n.parentId = some p ∧ a.AtOrBelow x p := by
  have hroot : y ≠ rootId := by
    rintro rfl
    exact hyx (h.eq_of_below_root hxy).symm
  obtain ⟨p, -, hp, -⟩ := h.held hn hroot
  exact ⟨p, hp, hxy.parent_of_ne hyx ⟨n, hn, hp⟩⟩

/-- The children of what lies at or below a node lie below it. -/
theorem child_below (h : a.IsTree) (hxy : a.AtOrBelow x y) (hn : a.get? y = some n)
    (hc : c ∈ n.children) : a.AtOrBelow x c ∧ c ≠ x ∧
      ∃ m, a.get? c = some m ∧ m.parentId = some y := by
  have hyc := h.listed hn hc
  refine ⟨hxy.tail hyc, ?_, hyc⟩
  rintro rfl
  exact h.not_below_parent hyc hxy

end IsTree

/-! ## The way to a node -/

/-- The names on the way from the root to a node. -/
inductive Leads (a : Arena) : NodeId → List String → Prop
  | root : Leads a rootId []
  | child {p c : NodeId} {n : Node} {names : List String} (above : Leads a p names)
      (hn : a.get? c = some n) (hp : n.parentId = some p) : Leads a c (names ++ [n.name])

namespace IsTree

variable {a : Arena} {id p c x y : NodeId} {n d m : Node} {names names' : List String}

theorem exists_leads (h : a.IsTree) (hn : a.get? id = some n) : ∃ names, a.Leads id names := by
  have hr := h.reached hn
  clear hn
  induction hr with
  | refl => exact ⟨[], .root⟩
  | tail _ hpc ih =>
    obtain ⟨names, hl⟩ := ih
    obtain ⟨n, hn, hp⟩ := hpc
    exact ⟨names ++ [n.name], .child hl hn hp⟩

theorem mem_of_leads (h : a.IsTree) (hl : a.Leads id names) : ∃ n, a.get? id = some n := by
  cases hl with
  | root =>
    obtain ⟨r, hr, -⟩ := h.root
    exact ⟨r, hr⟩
  | child _ hn _ => exact ⟨_, hn⟩

theorem leads_unique (h : a.IsTree) (hl : a.Leads id names) (hl' : a.Leads id names') :
    names = names' := by
  induction hl generalizing names' with
  | root =>
    cases hl' with
    | root => rfl
    | child _ hn hp => exact absurd ⟨_, hn, hp⟩ h.not_holds_root
  | child _ hn hp ih =>
    cases hl' with
    | root => exact absurd ⟨_, hn, hp⟩ h.not_holds_root
    | child above' hn' hp' =>
      obtain rfl := Option.some.inj (hn.symm.trans hn')
      obtain rfl := Option.some.inj (hp.symm.trans hp')
      rw [ih above']

theorem leads_injective (h : a.IsTree) (hx : a.Leads x names) (hy : a.Leads y names) :
    x = y := by
  induction hx generalizing y with
  | root =>
    generalize he : ([] : List String) = l at hy
    cases hy with
    | root => rfl
    | child => simp at he
  | @child p c n names _ hn hp ih =>
    generalize he : names ++ [n.name] = l at hy
    cases hy with
    | root => simp at he
    | child above' hm hq =>
      obtain ⟨rfl, hname⟩ := List.append_inj' he rfl
      obtain rfl := ih above'
      exact h.siblings hn hm (hp.trans hq.symm) (List.cons.inj hname).1

/-- A name leads on from a directory to the node that it holds under the name. -/
theorem leads_append_iff (h : a.IsTree) {s : String} (hp : a.Leads p names) :
    a.Leads c (names ++ [s]) ↔ ∃ m, a.get? c = some m ∧ m.parentId = some p ∧ m.name = s := by
  constructor
  · intro hl
    generalize he : names ++ [s] = l at hl
    cases hl with
    | root => simp at he
    | child above hn hq =>
      obtain ⟨rfl, hs⟩ := List.append_inj' he rfl
      obtain rfl := h.leads_injective hp above
      exact ⟨_, hn, hq, (List.cons.inj hs).1.symm⟩
  · rintro ⟨m, hm, hq, rfl⟩
    exact .child hp hm hq

/-- The way to what lies below a node goes on from the way to the node. -/
theorem leads_below (h : a.IsTree) (hxy : a.AtOrBelow x y) (hx : a.Leads x names)
    (hy : a.Leads y names') : ∃ rest, names' = names ++ rest := by
  induction hxy generalizing names' with
  | refl => exact ⟨[], by rw [List.append_nil]; exact h.leads_unique hy hx⟩
  | @tail q z hxq hqz ih =>
    cases hy with
    | root => exact absurd hqz h.not_holds_root
    | child above hn hp =>
      obtain rfl := hqz.unique ⟨_, hn, hp⟩
      obtain ⟨rest, rfl⟩ := ih above
      exact ⟨rest ++ [_], by rw [List.append_assoc]⟩

/-- A way that goes on from the way to a node leads below the node. -/
theorem below_of_leads (h : a.IsTree) {rest : List String} (hx : a.Leads x names)
    (hy : a.Leads y (names ++ rest)) : a.AtOrBelow x y := by
  induction rest using List.reverseRecOn generalizing y with
  | nil =>
    rw [List.append_nil] at hy
    rw [h.leads_injective hx hy]
    exact .refl a y
  | append_singleton rest s ih =>
    generalize he : names ++ (rest ++ [s]) = l at hy
    cases hy with
    | root => simp at he
    | child above hn hp =>
      rw [← List.append_assoc] at he
      obtain ⟨rfl, -⟩ := List.append_inj' he rfl
      exact (ih above).tail ⟨_, hn, hp⟩

theorem isName_of_leads (h : a.IsTree) (hl : a.Leads id names) :
    ∀ s ∈ names, Path.isName s = true := by
  induction hl with
  | root => simp
  | @child p c n names _ hn hp ih =>
    intro s hs
    rcases List.mem_append.1 hs with hs | hs
    · exact ih s hs
    · obtain rfl := List.mem_singleton.1 hs
      refine (h.fit hn).named fun hroot => ?_
      rw [h.keyed hn] at hroot
      exact h.not_holds_root ⟨n, hroot ▸ hn, hp⟩

/-- The nodes on the way to a node are distinct, so a way is shorter than the arena is large. -/
theorem length_lt_size (h : a.IsTree) (hl : a.Leads id names) : names.length < a.size := by
  suffices key : ∃ l : List NodeId, l.length = names.length + 1 ∧ l.Nodup ∧
      ∀ k ∈ l, (∃ n, a.get? k = some n) ∧ a.AtOrBelow k id by
    obtain ⟨l, hlen, hnd, hmem⟩ := key
    have := Table.length_le_size hnd fun k hk => (hmem k hk).1
    omega
  induction hl with
  | root =>
    obtain ⟨r, hr, -⟩ := h.root
    exact ⟨[rootId], rfl, List.nodup_singleton _, by
      simp only [List.mem_singleton, forall_eq]
      exact ⟨⟨r, hr⟩, .refl a _⟩⟩
  | @child p c n names _ hn hp ih =>
    obtain ⟨l, hlen, hnd, hmem⟩ := ih
    have hpc : a.Holds p c := ⟨n, hn, hp⟩
    refine ⟨c :: l, by simp [hlen], List.nodup_cons.2 ⟨fun hc => ?_, hnd⟩, ?_⟩
    · exact h.not_below_parent hpc (hmem c hc).2
    · intro k hk
      rcases List.mem_cons.1 hk with rfl | hk
      · exact ⟨⟨n, hn⟩, .refl a _⟩
      · exact ⟨(hmem k hk).1, (hmem k hk).2.tail hpc⟩

end IsTree

/-! ## Climbing and descending -/

/-- Climbing from a node collects the names on the way to it. -/
theorem climb_of_leads {a : Arena} (h : a.IsTree) {id : NodeId} {names : List String}
    (hl : a.Leads id names) {n : Node} (hn : a.get? id = some n) {fuel : Nat}
    (hf : names.length ≤ fuel) (acc : List String) : a.climb fuel n acc = names ++ acc := by
  induction hl generalizing n fuel acc with
  | root =>
    have hnone := (h.parentId_eq_none_iff hn).2 rfl
    cases fuel <;> simp [climb, hnone]
  | @child p c m names above hm hp ih =>
    obtain rfl := Option.some.inj (hm.symm.trans hn)
    obtain ⟨d, hd, -⟩ := h.parent hn hp
    simp only [List.length_append, List.length_singleton] at hf
    obtain ⟨f, rfl⟩ : ∃ f, fuel = f + 1 := ⟨fuel - 1, by omega⟩
    simp only [climb, hp, hd]
    rw [ih hd (by omega), List.append_assoc, List.singleton_append]

/-- The names that are found by climbing are those that lead to the node. -/
theorem IsTree.leads_iff {a : Arena} (h : a.IsTree) {id : NodeId} {names : List String} {n : Node}
    (hn : a.get? id = some n) : a.Leads id names ↔ a.namesTo id = names := by
  have key : ∀ {names}, a.Leads id names → a.namesTo id = names := by
    intro names hl
    rw [namesTo, hn]
    simpa using climb_of_leads h hl hn (Nat.le_of_lt (h.length_lt_size hl)) []
  refine ⟨key, fun he => ?_⟩
  obtain ⟨names', hl⟩ := h.exists_leads hn
  rw [← he, key hl]
  exact hl

theorem IsTree.leads_namesTo {a : Arena} (h : a.IsTree) {id : NodeId} {n : Node}
    (hn : a.get? id = some n) : a.Leads id (a.namesTo id) :=
  (h.leads_iff hn).2 rfl

/-- A directory holds a child of a name exactly when the name leads on from it to the child. -/
theorem IsTree.childNamed?_eq_some_iff {a : Arena} (h : a.IsTree) {p : NodeId} {d m : Node}
    (hd : a.get? p = some d) {name : String} :
    a.childNamed? d name = some m ↔
      a.get? m.id = some m ∧ m.parentId = some p ∧ m.name = name := by
  have hmem : ∀ m, m ∈ a.childrenOf d ↔ a.get? m.id = some m ∧ m.parentId = some p := by
    intro m
    rw [childrenOf, List.mem_filterMap]
    constructor
    · rintro ⟨c, hc, hm⟩
      obtain ⟨m', hm', hp⟩ := h.listed hd hc
      obtain rfl := Option.some.inj (hm.symm.trans hm')
      exact ⟨by rw [h.keyed hm]; exact hm, hp⟩
    · rintro ⟨hm, hp⟩
      exact ⟨m.id, (h.mem_children_iff hd).2 ⟨m, hm, hp⟩, hm⟩
  constructor
  · intro hf
    have hin := List.mem_of_find?_eq_some hf
    have hname := List.find?_some hf
    exact ⟨((hmem m).1 hin).1, ((hmem m).1 hin).2, by simpa using hname⟩
  · rintro ⟨hm, hp, hname⟩
    cases hf : a.childNamed? d name with
    | none =>
      have := List.find?_eq_none.1 hf m ((hmem m).2 ⟨hm, hp⟩)
      simp [hname] at this
    | some m' =>
      have hin := (hmem m').1 (List.mem_of_find?_eq_some hf)
      have hname' : m'.name = name := by simpa using List.find?_some hf
      have := h.siblings hm hin.1 (hp.trans hin.2.symm) (hname.trans hname'.symm)
      rw [this] at hm
      rw [← Option.some.inj (hm.symm.trans hin.1)]

theorem IsTree.childNamed?_eq_none_iff {a : Arena} (h : a.IsTree) {p : NodeId} {d : Node}
    (hd : a.get? p = some d) {name : String} :
    a.childNamed? d name = none ↔
      ∀ c m, a.get? c = some m → m.parentId = some p → m.name ≠ name := by
  constructor
  · intro hnone c m hm hp hname
    have hsome : a.childNamed? d name = some m :=
      (h.childNamed?_eq_some_iff hd).2 ⟨by rw [h.keyed hm]; exact hm, hp, hname⟩
    rw [hnone] at hsome
    cases hsome
  · intro hall
    cases hf : a.childNamed? d name with
    | none => rfl
    | some m =>
      obtain ⟨hm, hp, hname⟩ := (h.childNamed?_eq_some_iff hd).1 hf
      exact absurd hname (hall _ m hm hp)

/-! ## From the leaves up -/

namespace IsTree

variable {β : Type} {a : Arena} {x : NodeId} {n : Node} {names : List String}
  {f : NodeId → Node → List β → β}

/-- What holds of a node as soon as it holds of its children holds of every node: the way to a child
is longer by one name, and no way is as long as the arena is large. -/
theorem descend (h : a.IsTree) {P : NodeId → List String → Prop}
    (step : ∀ {x names n}, a.Leads x names → a.get? x = some n →
      (∀ c ∈ n.children, ∃ s, a.Leads c (names ++ [s]) ∧ P c (names ++ [s])) → P x names)
    (hl : a.Leads x names) : P x names := by
  obtain ⟨k, hk⟩ : ∃ k, a.size ≤ names.length + k := ⟨a.size, Nat.le_add_left _ _⟩
  induction k generalizing x names with
  | zero => exact absurd (h.length_lt_size hl) (Nat.not_lt.2 hk)
  | succ k ih =>
    obtain ⟨n, hn⟩ := h.mem_of_leads hl
    refine step hl hn fun c hc => ?_
    obtain ⟨m, hm, hp⟩ := h.listed hn hc
    have hc' : a.Leads c (names ++ [m.name]) := .child hl hm hp
    exact ⟨m.name, hc', ih hc' (by rw [List.length_append, List.length_singleton]; omega)⟩

/-- What has a value at every node has one at every child. -/
theorem filterMap_children (h : a.IsTree) (hn : a.get? x = some n) {g : NodeId → Option β}
    {v : NodeId → β} (hg : ∀ {c m}, a.get? c = some m → g c = some (v c)) :
    n.children.filterMap g = n.children.map v := by
  have hchild : ∀ c ∈ n.children, g c = (some ∘ v) c := by
    intro c hc
    obtain ⟨m, hm, -⟩ := h.listed hn hc
    exact hg hm
  rw [List.filterMap_congr hchild, List.filterMap_eq_map]

/-- Recursion that may go deep enough yields the same, however deep it may go. -/
theorem foldDown_eq (h : a.IsTree) (hl : a.Leads x names) {fuel fuel' : Nat}
    (hf : a.size ≤ names.length + fuel) (hf' : a.size ≤ names.length + fuel') :
    a.foldDown f fuel x = a.foldDown f fuel' x := by
  induction fuel generalizing x names fuel' with
  | zero => exact absurd (h.length_lt_size hl) (Nat.not_lt.2 hf)
  | succ fuel ih =>
    have hlt := h.length_lt_size hl
    obtain ⟨fuel', rfl⟩ : ∃ k, fuel' = k + 1 := ⟨fuel' - 1, by omega⟩
    obtain ⟨n, hn⟩ := h.mem_of_leads hl
    have hchild : ∀ c ∈ n.children, a.foldDown f fuel c = a.foldDown f fuel' c := by
      intro c hc
      obtain ⟨m, hm, hp⟩ := h.listed hn hc
      have hlen : (names ++ [m.name]).length = names.length + 1 := List.length_append
      exact ih (.child hl hm hp) (by omega) (by omega)
    rw [foldDown, foldDown, hn, Option.map_some, Option.map_some, List.filterMap_congr hchild]

/-- The value of a node is made from the values of its children. -/
theorem fold?_eq (h : a.IsTree) (hn : a.get? x = some n) :
    a.fold? f x = some (f x n (n.children.filterMap (a.fold? f))) := by
  obtain ⟨names, hl⟩ := h.exists_leads hn
  have hlt := h.length_lt_size hl
  obtain ⟨fuel, hfuel⟩ := Nat.exists_eq_add_one.2 (Nat.zero_lt_of_lt hlt)
  have hchild : ∀ c ∈ n.children, a.foldDown f fuel c = a.fold? f c := by
    intro c hc
    obtain ⟨m, hm, hp⟩ := h.listed hn hc
    have hlen : (names ++ [m.name]).length = names.length + 1 := List.length_append
    exact h.foldDown_eq (.child hl hm hp) (by omega) (by omega)
  rw [fold?, hfuel, foldDown, hn, Option.map_some, List.filterMap_congr hchild]

end IsTree

end Arena

end Workbench
