import Workbench.Git.Operation
import Workbench.Proofs.Git.Paths
import Workbench.Proofs.Sha1
import Workbench.Proofs.World.Runs

/-!
# Runs of a repository

The operations of a repository as data, and the repositories and worlds that they lead to together
with everything that may happen to the workspace in between. An operation changes the workspace
only through the operations of the workspace (`Repository.reachable_run`), so that what holds of
every workspace that is reached holds here as well.

Whatever is done, the index and the stored trees only hold paths of files below the root
(`Project.Reachable.tidy`): all contents come out of a working tree.
-/

namespace Workbench

open Git (Tree Stop)

variable {σ α : Type}

/-- A repository, and the world that its files are in. -/
structure Project (σ : Type) where
  repository : Repository
  world : World σ

namespace Git

/-- What can be asked of a repository. -/
inductive Call where
  | init
  | add (paths : List String)
  | reset (path : String)
  | commit (message : String)
  | createBranch (name : String)
  | checkout (ref : String)
  | attachRemote (name : String)
  | push
  | pull
  deriving DecidableEq

/-- What an operation on the repository alone makes of a project. -/
def answered (p : Project σ) (o : Except Fault (Option String × Repository)) :
    Except Stop (Option String) × Project σ :=
  match o with
  | .ok (text, r) => (.ok text, { p with repository := r })
  | .error e => (.error (.rejected e), p)

/-- Has a repository carry out an operation. An operation that succeeds may say something. -/
def Call.run (h : Host σ) (p : Project σ) : Call → Except Stop (Option String) × Project σ
  | init => answered p (.ok (p.repository.init.map some id))
  | add paths =>
    let (x, r) := p.repository.add p.world.space paths
    ((x.map fun _ => none).mapError .rejected, { p with repository := r })
  | reset path => answered p ((p.repository.reset path).map (none, ·))
  | commit message => answered p ((p.repository.commit message h.now).map (Prod.map some id))
  | createBranch name => answered p ((p.repository.createBranch name).map (none, ·))
  | checkout ref =>
    let (x, w, r) := p.repository.checkout h p.world ref
    (x.map fun _ => none, ⟨r, w⟩)
  | attachRemote name => answered p (.ok (none, p.repository.attachRemote name))
  | push => answered p (p.repository.push.map (Prod.map some id))
  | pull =>
    let (x, w, r) := p.repository.pull h p.world
    (x.map some, ⟨r, w⟩)

end Git

namespace Project

/-- What a new repository over a workspace is led to: by its own operations, by operations of the
workspace and by what happens to the disk, and by the remote, whose branches may come to point at
any commit that is stored. -/
inductive Reachable : Project σ → Prop
  | new {w : World σ} (hw : w.Reachable) (root author : String) : Reachable ⟨.new root author, w⟩
  | call {p : Project σ} (hp : Reachable p) {h : Host σ} (hh : h.Lawful) (c : Git.Call) :
      Reachable (c.run h p).2
  | step {p : Project σ} (hp : Reachable p) {h : Host σ} (hh : h.Lawful) (op : Operation) :
      Reachable { p with world := (op.run h p.world).2 }
  | changed {p : Project σ} (hp : Reachable p) (disk : σ) :
      Reachable { p with world := { p.world with disk := disk } }
  | remote {p : Project σ} (hp : Reachable p) (branch : String) {tip : Option String}
      (ht : ∀ oid ∈ tip, p.repository.commits.contains oid = true) :
      Reachable { p with repository := p.repository.setRemote branch tip }

end Project

namespace Repository

variable {r r' : Repository} {h : Host σ} {w : World σ} {s : Workspace} {path : String}

/-! ## The workspace -/

/-- What is asked of a workspace to write a file at a path. -/
inductive Writes (r : Repository) (path : String) : Operation → Prop
  | content (id : NodeId) (content : String) : Writes r path (.setContent id content)
  | directories {directory name : String}
      (hp : splitLast (r.rootSlash ++ path) = (directory, name)) :
      Writes r path (.ensureDirectories (if directory.isEmpty then "/" else directory) "/")
  | file {directory name : String} (hp : splitLast (r.rootSlash ++ path) = (directory, name))
      (id : NodeId) (content : String) : Writes r path (.create .file name id content)

/-- What is asked of a workspace to replace files. Those that are written have one of the paths. -/
inductive Replaces (r : Repository) (P : String → Prop) : Operation → Prop
  | deletes (id : NodeId) : Replaces r P (.delete id false)
  | writes {path : String} {op : Operation} (hp : P path) (hw : r.Writes path op) :
      Replaces r P op

/-- A path of a stored tree. -/
def Stores (r : Repository) (path : String) : Prop :=
  ∃ oid t, r.trees.get? oid = some t ∧ path ∈ t.keys

theorem stores_of_treeOf {oid : Option String} (hp : path ∈ (r.treeOf oid).keys) :
    r.Stores path := by
  unfold Repository.treeOf at hp
  cases ht : oid.bind r.trees.get? with
  | none =>
    rw [ht] at hp
    cases hp
  | some t =>
    rw [ht] at hp
    obtain ⟨oid, -, ht⟩ := Option.bind_eq_some_iff.1 ht
    exact ⟨oid, t, ht, hp⟩

variable {P : String → Prop} {w' : World σ}

theorem led_deleteFile (h : Host σ) (w : World σ) (path : String) :
    World.Led h (r.Replaces P) w (r.deleteFile h w path).2 := by
  unfold deleteFile
  split
  · exact .refl
  · next n _ => exact World.Led.refl.step (Replaces.deletes n.id)

theorem led_writeFile (h : Host σ) (w : World σ) (path content : String) :
    World.Led h (r.Writes path) w (r.writeFile h w path content).2 := by
  unfold writeFile
  dsimp only
  split
  · next n _ =>
    have hset : World.Led h (r.Writes path) w (w.setContent h n.id content).2 :=
      World.Led.refl.step (Writes.content n.id content)
    split
    · exact .refl
    · split
      · next he =>
        rw [he] at hset
        exact hset
      · next he =>
        rw [he] at hset
        exact hset
  · generalize hplace : splitLast (r.rootSlash ++ path) = place
    obtain ⟨directory, name⟩ := place
    dsimp only
    have hdirs : World.Led h (r.Writes path) w
        (w.ensureDirectories h (if directory.isEmpty then "/" else directory) "/").2 :=
      World.Led.refl.step (Writes.directories hplace)
    split
    · next he =>
      rw [he] at hdirs
      exact hdirs
    · next d w₁ he =>
      rw [he] at hdirs
      have hcreate : World.Led h (r.Writes path) w (w₁.create h .file name d.id content).2 :=
        hdirs.step (Writes.file hplace d.id content)
      split
      · next he =>
        rw [he] at hcreate
        exact hcreate
      · next he =>
        rw [he] at hcreate
        exact hcreate

theorem led_inOrder {ok : Operation → Prop} {f : World σ → α → FileOutcome σ Unit} {l : List α}
    (hf : ∀ w, ∀ a ∈ l, World.Led h ok w (f w a).2) (w : World σ) :
    World.Led h ok w (inOrder f w l).2 := by
  induction l generalizing w with
  | nil => exact .refl
  | cons a rest ih =>
    have hone := hf w a List.mem_cons_self
    have hrest := ih fun w b hb => hf w b (List.mem_cons_of_mem a hb)
    rw [inOrder]
    split
    · next he =>
      rw [he] at hone
      exact hone.trans (hrest _)
    · next he =>
      rw [he] at hone
      exact hone

theorem led_switchFiles (h : Host σ) (w : World σ) (old new : Tree) :
    World.Led h (r.Replaces (· ∈ new.keys)) w (r.switchFiles h w old new).2 := by
  have hdel : World.Led h (r.Replaces (· ∈ new.keys)) w
      (inOrder (r.deleteFile h) w (old.keys.filter fun p => !new.contains p)).2 :=
    led_inOrder (fun w path _ => led_deleteFile h w path) w
  unfold switchFiles
  split
  · next he =>
    rw [he] at hdel
    exact hdel
  · next he =>
    rw [he] at hdel
    refine hdel.trans (led_inOrder (fun w e hmem => ?_) _)
    have hkey : e.1 ∈ new.keys := List.mem_map_of_mem hmem
    exact (led_writeFile h w e.1 e.2).mono fun op hop => .writes hkey hop

/-- Switching to a stored tree writes files at its paths only. -/
theorem led_switchFiles_stored (h : Host σ) (w : World σ) (old : Tree) (oid : Option String) :
    World.Led h (r.Replaces r.Stores) w (r.switchFiles h w old (r.treeOf oid)).2 := by
  refine (led_switchFiles h w old (r.treeOf oid)).mono fun op hop => ?_
  cases hop with
  | deletes id => exact .deletes id
  | writes hp hw => exact .writes (stores_of_treeOf hp) hw

theorem led_checkout (h : Host σ) (w : World σ) (ref : String) :
    World.Led h (r.Replaces r.Stores) w (r.checkout h w ref).2.1 := by
  unfold checkout
  split
  · exact .refl
  · split
    · exact .refl
    · next target _ =>
      split
      · exact .refl
      · split
        · exact .refl
        · split
          · exact .refl
          · have hs := led_switchFiles_stored (r := r) h w r.headTree target
            split
            · next he =>
              rw [he] at hs
              exact hs
            · next he =>
              rw [he] at hs
              exact hs

theorem led_pull (h : Host σ) (w : World σ) :
    World.Led h (r.Replaces r.Stores) w (r.pull h w).2.1 := by
  unfold pull
  split
  · exact .refl
  · split
    · exact .refl
    · split
      · exact .refl
      · next there _ =>
        split
        · exact .refl
        · split
          · exact .refl
          · have hs := led_switchFiles_stored (r := r) h w r.headTree (some there)
            dsimp only
            split
            · next he =>
              rw [he] at hs
              exact hs
            · next he =>
              rw [he] at hs
              exact hs

/-- What an operation of a repository makes of its workspace is made by operations of the
workspace. -/
theorem led_run (h : Host σ) (p : Project σ) (c : Git.Call) :
    World.Led h (p.repository.Replaces p.repository.Stores) p.world (c.run h p).2.world := by
  have alone : ∀ o : Except Git.Fault (Option String × Repository),
      (Git.answered p o).2.world = p.world := fun o => by
    unfold Git.answered
    split <;> rfl
  cases c with
  | init => exact .refl
  | add paths => exact .refl
  | reset path => exact (alone _).symm ▸ .refl
  | commit message => exact (alone _).symm ▸ .refl
  | createBranch name => exact (alone _).symm ▸ .refl
  | checkout ref => exact led_checkout h p.world ref
  | attachRemote name => exact .refl
  | push => exact (alone _).symm ▸ .refl
  | pull => exact led_pull h p.world

theorem reachable_run (hh : h.Lawful) {p : Project σ} (hw : p.world.Reachable) (c : Git.Call) :
    (c.run h p).2.world.Reachable :=
  (led_run h p c).reachable hh hw

/-- A repository with its index recorded as a commit under an id. -/
def recorded (r : Repository) (oid message : String) (now : Timestamp) : Repository :=
  { r with
    commits := r.commits.insert oid ⟨oid, message, r.author, now, r.tip?⟩
    trees := r.trees.insert oid r.index
    branches := r.branches.insert r.head (some oid) }

theorem require_eq_ok_iff : r.require = .ok () ↔ r.initialized = true := by
  rw [require]
  split
  · next hi => exact iff_of_true rfl hi
  · next hi => exact iff_of_false (fun he => nomatch he) hi

theorem commit_eq_ok_iff {message oid : String} {now : Timestamp} :
    r.commit message now = .ok (oid, r') ↔ r.initialized = true ∧
      Text.isBlankText message = false ∧ r.index.same r.headTree = false ∧
      commitId r.tip? message now r.index = oid ∧ r' = r.recorded oid message now := by
  unfold commit
  constructor
  · intro hr
    obtain ⟨⟨⟩, hi, hr⟩ := bind_eq_ok.1 hr
    obtain ⟨hblank, hr⟩ := guard_eq_ok hr
    obtain ⟨hsame, hr⟩ := guard_eq_ok hr
    obtain ⟨rfl, rfl⟩ := Prod.mk.inj (Except.ok.inj hr)
    exact ⟨require_eq_ok_iff.1 hi, Bool.eq_false_iff.2 hblank, Bool.eq_false_iff.2 hsame, rfl, rfl⟩
  · rintro ⟨hi, hblank, hsame, rfl, rfl⟩
    rw [require_eq_ok_iff.2 hi, hblank, hsame]
    rfl

theorem commitId_of_sorted {parent : Option String} {message : String} {now : Timestamp}
    {index : Tree} {keys : List String} (hk : sorted index.keys = keys) :
    commitId parent message now index = Sha1.numbersDigest (Text.octets
      (parent.getD "" ++ message ++ now.isoText ++
        String.join (keys.map fun p => p ++ index.getD p ""))) := by
  rw [commitId, commitText, hk, Sha1.hexDigest_eq_numbersDigest]

/-- A push that succeeds leaves the repository as it is, or moves the branch of the remote to the
current commit, and what it pointed at before is an ancestor of that. -/
theorem push_eq_ok {text : String} (hr : r.push = .ok (text, r')) : r' = r ∨
    ∃ here, r.tip? = some here ∧
      (∀ there ∈ r.remoteTip?, r.isAncestor there (some here) = true) ∧
      r' = { r with remoteBranches := r.remoteBranches.insert r.head here } := by
  unfold push at hr
  obtain ⟨-, -, hr⟩ := bind_eq_ok.1 hr
  split at hr
  · split at hr
    · next here hhere =>
      split at hr
      · next there hthere =>
        split at hr
        · obtain ⟨-, rfl⟩ := Prod.mk.inj (Except.ok.inj hr)
          exact .inl rfl
        · obtain ⟨hpast, hr⟩ := guard_eq_ok hr
          obtain ⟨-, rfl⟩ := Prod.mk.inj (Except.ok.inj hr)
          exact .inr ⟨here, hhere, by simpa [hthere] using hpast, rfl⟩
      · next hthere =>
        obtain ⟨-, rfl⟩ := Prod.mk.inj (Except.ok.inj hr)
        exact .inr ⟨here, hhere, by simp [hthere], rfl⟩
    · cases hr
  · cases hr

/-! ## What is tracked -/

/-- The index and the stored trees hold paths of files below the root. -/
structure Tidy (r : Repository) : Prop where
  rooted : r.Rooted
  index : ∀ path ∈ r.index.keys, r.Tracks path
  trees : ∀ {oid t}, r.trees.get? oid = some t → ∀ path ∈ t.keys, r.Tracks path

theorem placeOf_congr (he : r'.root = r.root) : r'.placeOf path = r.placeOf path := by
  rw [placeOf, rootSlash, he, ← rootSlash, placeOf]

theorem Tracks.congr (ht : r.Tracks path) (he : r'.root = r.root) : r'.Tracks path := by
  have hslash : r'.rootSlash = r.rootSlash := by rw [rootSlash, he, rootSlash]
  have hplace : r'.placeOf path = r.placeOf path := placeOf_congr he
  exact ⟨hplace ▸ ht.names, hplace ▸ ht.ne_nil, by rw [hplace, hslash, ht.written]⟩

theorem tracks_of_workingTree (hs : s.arena.IsTree) (hp : path ∈ (r.workingTree s).keys) :
    r.Tracks path := by
  obtain ⟨content, hget⟩ := Table.mem_keys_iff.1 hp
  exact tracks_of_hasFile hs (hasFile_of_workingTree hs hget)

/-- A repository at a root, all of whose paths are of some sort. -/
structure Holds (root : String) (P : String → Prop) (r : Repository) : Prop where
  root_eq : r.root = root
  index : ∀ path ∈ r.index.keys, P path
  stored : ∀ path, r.Stores path → P path

namespace Holds

variable {root : String}

theorem new (root author : String) (P : String → Prop) :
    Holds (Repository.new root author).root P (.new root author) where
  root_eq := rfl
  index := by
    intro path hp
    cases hp
  stored := by
    rintro path ⟨oid, t, ht, -⟩
    cases ht

/-- A change that keeps the root and the stored trees. -/
theorem of_index (h : Holds root P r) (hr : r'.root = r.root) (ht : r'.trees = r.trees)
    (hi : ∀ path ∈ r'.index.keys, P path) : Holds root P r' where
  root_eq := hr.trans h.root_eq
  index := hi
  stored := by
    rintro path ⟨oid, t, hget, hp⟩
    exact h.stored path ⟨oid, t, ht ▸ hget, hp⟩

/-- A change elsewhere. -/
theorem congr (h : Holds root P r) (hr : r'.root = r.root) (ht : r'.trees = r.trees)
    (hi : r'.index = r.index) : Holds root P r' :=
  h.of_index hr ht (hi ▸ h.index)

theorem init (h : Holds root P r) : Holds root P r.init.2 := by
  unfold Repository.init
  dsimp only
  split
  · exact h
  · exact h.congr rfl rfl rfl

theorem setRemote (h : Holds root P r) (branch : String) (tip : Option String) :
    Holds root P (r.setRemote branch tip) := by
  unfold Repository.setRemote
  split
  · exact h.congr rfl rfl rfl
  · exact h.congr rfl rfl rfl

theorem addAll (h : Holds root P r) {working : Tree} (hw : ∀ path ∈ working.keys, P path)
    (specs : List String) : Holds root P (Repository.addAll working r specs).2 := by
  induction specs generalizing r with
  | nil => exact h
  | cons spec rest ih =>
    rw [Repository.addAll]
    split
    · next index hone =>
      have hindex : ∀ path ∈ index.keys, P path := by
        unfold indexWith at hone
        split at hone
        · obtain rfl := Except.ok.inj hone
          exact hw
        · obtain ⟨rel, -, hone⟩ := bind_eq_ok.1 hone
          obtain ⟨-, hone⟩ := guard_eq_ok hone
          obtain rfl := Except.ok.inj hone
          intro path hp
          rcases Table.of_mem_keys_insertMany (Table.of_mem_keys_eraseMany hp) with hp | hp
          · exact h.index path hp
          · obtain ⟨e, he, rfl⟩ := List.mem_map.1 hp
            exact hw _ (List.mem_map_of_mem (List.mem_filter.1 he).1)
      apply ih
      exact h.of_index rfl rfl hindex
    · exact h

theorem add (h : Holds root P r) (hw : ∀ path ∈ (r.workingTree s).keys, P path)
    (paths : List String) : Holds root P (r.add s paths).2 := by
  unfold Repository.add
  split
  · exact h
  · exact h.addAll hw paths

theorem reset (h : Holds root P r) (hr : r.reset path = .ok r') : Holds root P r' := by
  unfold Repository.reset at hr
  obtain ⟨-, -, hr⟩ := bind_eq_ok.1 hr
  obtain ⟨rel, -, hr⟩ := bind_eq_ok.1 hr
  split at hr
  · next content hget =>
    obtain rfl := Except.ok.inj hr
    refine h.of_index rfl rfl fun p hp => ?_
    rcases Table.of_mem_keys_insert hp with rfl | hp
    · exact h.stored _ (stores_of_treeOf (Table.mem_keys_iff.2 ⟨content, hget⟩))
    · exact h.index p hp
  · split at hr
    · obtain rfl := Except.ok.inj hr
      refine h.of_index rfl rfl fun p hp => ?_
      rw [Table.keys_erase] at hp
      exact h.index p (List.mem_filter.1 hp).1
    · cases hr

theorem commit (h : Holds root P r) {message oid : String} {now : Timestamp}
    (hr : r.commit message now = .ok (oid, r')) : Holds root P r' := by
  obtain ⟨-, -, -, -, rfl⟩ := commit_eq_ok_iff.1 hr
  refine ⟨h.root_eq, h.index, ?_⟩
  rintro p ⟨oid', t, hget, hp⟩
  unfold recorded at hget
  dsimp only at hget
  rw [Table.get?_insert] at hget
  split at hget
  · obtain rfl := Option.some.inj hget
    exact h.index p hp
  · exact h.stored p ⟨oid', t, hget, hp⟩

theorem createBranch (h : Holds root P r) {name : String} (hr : r.createBranch name = .ok r') :
    Holds root P r' := by
  unfold Repository.createBranch at hr
  obtain ⟨-, -, hr⟩ := bind_eq_ok.1 hr
  obtain ⟨-, hr⟩ := guard_eq_ok hr
  obtain ⟨-, hr⟩ := guard_eq_ok hr
  split at hr
  · cases hr
  · obtain rfl := Except.ok.inj hr
    exact h.congr rfl rfl rfl

theorem treeOf (h : Holds root P r) (oid : Option String) : ∀ path ∈ (r.treeOf oid).keys, P path :=
  fun path hp => h.stored path (stores_of_treeOf hp)

theorem onBranch (h : Holds root P r) (ref : String) : Holds root P (r.onBranch ref) :=
  h.of_index rfl rfl (h.treeOf _)

theorem checkout (h : Holds root P r) (g : Host σ) (w : World σ) (ref : String) :
    Holds root P (r.checkout g w ref).2.2 := by
  unfold Repository.checkout
  repeat' split
  all_goals first
    | exact h
    | exact h.onBranch ref

theorem push (h : Holds root P r) {text : String} (hr : r.push = .ok (text, r')) :
    Holds root P r' := by
  obtain rfl | ⟨here, -, -, rfl⟩ := push_eq_ok hr
  · exact h
  · exact h.congr rfl rfl rfl

theorem pull (h : Holds root P r) (g : Host σ) (w : World σ) :
    Holds root P (r.pull g w).2.2 := by
  unfold Repository.pull
  dsimp only
  repeat' split
  all_goals first
    | exact h
    | exact h.of_index rfl rfl (h.treeOf _)

/-- No operation brings in other paths than those of the working tree. -/
theorem run {p : Project σ} (h : Holds root P p.repository)
    (hw : ∀ path ∈ (p.repository.workingTree p.world.space).keys, P path) (g : Host σ)
    (c : Git.Call) : Holds root P (c.run g p).2.repository := by
  have alone : ∀ {α : Type} {x : Except Git.Fault α} {f : α → Option String × Repository},
      (∀ {a}, x = .ok a → Holds root P (f a).2) →
        Holds root P (Git.answered p (x.map f)).2.repository := by
    intro α x f ho
    cases x with
    | ok a => exact ho rfl
    | error e => exact h
  cases c with
  | init => exact h.init
  | add paths => exact h.add hw paths
  | reset path => exact alone h.reset
  | commit message => exact alone h.commit
  | createBranch name => exact alone h.createBranch
  | checkout ref => exact h.checkout g p.world ref
  | attachRemote name => exact h.congr rfl rfl rfl
  | push => exact alone h.push
  | pull => exact h.pull g p.world

end Holds

namespace Tidy

theorem holds (h : r.Tidy) : Holds r.root r.Tracks r where
  root_eq := rfl
  index := h.index
  stored := by
    rintro path ⟨oid, t, ht, hp⟩
    exact h.trees ht path hp

theorem of_holds (h : Holds r.root r.Tracks r') (hr : r.Rooted) : r'.Tidy where
  rooted := by
    rw [Rooted, h.root_eq]
    exact hr
  index := fun path hp => (h.index path hp).congr h.root_eq
  trees := fun ht path hp => (h.stored path ⟨_, _, ht, hp⟩).congr h.root_eq

theorem new (root author : String) : (Repository.new root author).Tidy :=
  of_holds (.new root author _) (rooted_new root author)

theorem treeOf (h : r.Tidy) (oid : Option String) : ∀ path ∈ (r.treeOf oid).keys, r.Tracks path :=
  h.holds.treeOf oid

theorem setRemote (h : r.Tidy) (branch : String) (tip : Option String) :
    (r.setRemote branch tip).Tidy :=
  of_holds (h.holds.setRemote branch tip) h.rooted

theorem run {p : Project σ} (h : p.repository.Tidy) (hs : p.world.space.arena.IsTree) (g : Host σ)
    (c : Git.Call) : (c.run g p).2.repository.Tidy :=
  of_holds (h.holds.run (fun _ hp => tracks_of_workingTree hs hp) g c) h.rooted

end Tidy

end Repository

namespace Project

variable {p : Project σ}

theorem Reachable.world (hp : p.Reachable) : p.world.Reachable := by
  induction hp with
  | new hw root author => exact hw
  | call _ hh c ih => exact Repository.reachable_run hh ih c
  | step _ hh op ih => exact ih.step hh op
  | changed _ disk ih => exact ih.changed disk
  | remote _ branch _ ih => exact ih

/-- Whatever is done to a project, its repository only holds paths of files below its root. -/
theorem Reachable.tidy (hp : p.Reachable) : p.repository.Tidy := by
  induction hp with
  | new hw root author => exact .new root author
  | call hp _ c ih => exact ih.run hp.world.sound.tree _ c
  | step _ _ op ih => exact ih
  | changed _ disk ih => exact ih
  | remote _ branch _ ih => exact ih.setRemote branch _

/-! ## Scripts -/

/-- Has a project carry out an operation of its workspace or of its repository. -/
def act (h : Host σ) (p : Project σ) : Operation ⊕ Git.Call → Project σ
  | .inl op => { p with world := (op.run h p.world).2 }
  | .inr c => (c.run h p).2

theorem Reachable.acts {h : Host σ} (hp : p.Reachable) (hh : h.Lawful)
    (l : List (Operation ⊕ Git.Call)) : (l.foldl (act h) p).Reachable := by
  induction l generalizing p with
  | nil => exact hp
  | cons a rest ih =>
    refine ih ?_
    cases a with
    | inl op => exact hp.step hh op
    | inr c => exact hp.call hh c

theorem Reachable.recorded {oid message : String} {now : Timestamp} (hp : p.Reachable)
    (hi : p.repository.initialized = true) (hb : Text.isBlankText message = false)
    (hs : p.repository.index.same p.repository.headTree = false)
    (hid : Repository.commitId p.repository.tip? message now p.repository.index = oid) :
    Reachable { p with repository := p.repository.recorded oid message now } := by
  have hh : Host.Lawful (⟨none, now⟩ : Host σ) := fun _ hb => nomatch hb
  have hcall := hp.call hh (.commit message)
  rw [Git.Call.run, Repository.commit_eq_ok_iff.2 ⟨hi, hb, hs, hid, rfl⟩] at hcall
  exact hcall

end Project

end Workbench
