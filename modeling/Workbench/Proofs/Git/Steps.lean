import Workbench.Proofs.Git.Runs

/-!
# Steps of a repository

What an operation makes of a repository, said once for all operations (`Git.Call.Makes`). Whether
it succeeds or not, there are nine ways to go on: an operation keeps the repository or begins it,
changes the index, records a commit, adds a branch, moves to another branch, attaches a remote,
moves a branch of the remote or moves the current branch. Pointers are only moved to commits that
are at hand, and where there was a commit before, the check for ancestors has been passed.
-/

namespace Workbench

open Git (Tree Fault)

variable {σ : Type}

namespace Git.Call

/-- The repositories that an operation leads to from another one. -/
inductive Makes (now : Timestamp) (r : Repository) : Git.Call → Repository → Prop
  | kept {c : Git.Call} : Makes now r c r
  | begun (hi : r.initialized = false) :
      Makes now r .init { r with
        initialized := true
        branches := .ofList [(Git.firstBranch, none)]
        head := Git.firstBranch }
  | staged {c : Git.Call} (index : Tree) : Makes now r c { r with index := index }
  | recorded {message oid : String}
      (hc : r.commit message now = .ok (oid, r.recorded oid message now)) :
      Makes now r (.commit message) (r.recorded oid message now)
  | branched {name oid : String} (hi : r.initialized = true)
      (hnew : r.branches.contains name = false) (ht : r.tip? = some oid) :
      Makes now r (.createBranch name) { r with branches := r.branches.insert name (some oid) }
  | switched {ref : String} (hr : r.branches.contains ref = true) :
      Makes now r (.checkout ref) (r.onBranch ref)
  | attached {name : String} : Makes now r (.attachRemote name) (r.attachRemote name)
  | pushed {here : String} (ht : r.tip? = some here)
      (hpast : ∀ there ∈ r.remoteTip?, r.isAncestor there (some here) = true) :
      Makes now r .push { r with remoteBranches := r.remoteBranches.insert r.head here }
  | pulled {there : String} (hi : r.initialized = true) (ht : r.remoteTip? = some there)
      (hpast : ∀ here ∈ r.tip?, r.isAncestor here (some there) = true) :
      Makes now r .pull { r with
        branches := r.branches.insert r.head (some there)
        index := r.treeOf (some there) }

/-- A commit that this operation records gets an id that no commit has. -/
def IsFresh (now : Timestamp) (r : Repository) (c : Git.Call) : Prop :=
  ∀ message oid r', c = .commit message → r.commit message now = .ok (oid, r') →
    r.commits.contains oid = false

end Git.Call

namespace Repository

open Git.Call (Makes)

variable {r r' : Repository} {now : Timestamp} {name path message oid text : String}

theorem tip?_eq_some_iff : r.tip? = some oid ↔ r.branches.get? r.head = some (some oid) := by
  rw [tip?, Option.join_eq_some_iff]

theorem makes_init (now : Timestamp) (r : Repository) : Makes now r .init r.init.2 := by
  unfold Repository.init
  dsimp only
  split
  · exact .kept
  · next hi => exact .begun (Bool.eq_false_iff.2 hi)

theorem addAll_eq (working : Tree) (r : Repository) (specs : List String) :
    ∃ index, (addAll working r specs).2 = { r with index := index } := by
  induction specs generalizing r with
  | nil => exact ⟨r.index, rfl⟩
  | cons spec rest ih =>
    rw [addAll]
    split
    · next index _ => exact ih { r with index := index }
    · exact ⟨r.index, rfl⟩

theorem makes_add (now : Timestamp) (r : Repository) (s : Workspace) (paths : List String) :
    Makes now r (.add paths) (r.add s paths).2 := by
  unfold add
  split
  · exact .kept
  · obtain ⟨index, he⟩ := addAll_eq (r.workingTree s) r paths
    rw [he]
    exact .staged index

theorem makes_reset (now : Timestamp) (hr : r.reset path = .ok r') :
    Makes now r (.reset path) r' := by
  unfold reset at hr
  obtain ⟨-, -, hr⟩ := bind_eq_ok.1 hr
  obtain ⟨rel, -, hr⟩ := bind_eq_ok.1 hr
  split at hr
  · obtain rfl := Except.ok.inj hr
    exact .staged _
  · split at hr
    · obtain rfl := Except.ok.inj hr
      exact .staged _
    · cases hr

theorem makes_commit (hr : r.commit message now = .ok (oid, r')) :
    Makes now r (.commit message) r' := by
  obtain ⟨-, -, -, -, rfl⟩ := commit_eq_ok_iff.1 hr
  exact .recorded hr

theorem createBranch_eq_ok (hr : r.createBranch name = .ok r') : r.initialized = true ∧
    r.branches.contains name = false ∧
      ∃ oid, r.tip? = some oid ∧ r' = { r with branches := r.branches.insert name (some oid) } := by
  unfold createBranch at hr
  obtain ⟨⟨⟩, hi, hr⟩ := bind_eq_ok.1 hr
  obtain ⟨-, hr⟩ := guard_eq_ok hr
  obtain ⟨hnew, hr⟩ := guard_eq_ok hr
  split at hr
  · cases hr
  · next oid ht =>
    exact ⟨require_eq_ok_iff.1 hi, Bool.eq_false_iff.2 hnew, oid, ht, (Except.ok.inj hr).symm⟩

theorem makes_createBranch (now : Timestamp) (hr : r.createBranch name = .ok r') :
    Makes now r (.createBranch name) r' := by
  obtain ⟨hi, hnew, oid, ht, rfl⟩ := createBranch_eq_ok hr
  exact .branched hi hnew ht

theorem makes_checkout (h : Host σ) (r : Repository) (w : World σ) (ref : String) :
    Makes h.now r (.checkout ref) (r.checkout h w ref).2.2 := by
  unfold checkout
  split
  · exact .kept
  split
  · exact .kept
  next target hget =>
  have hr : r.branches.contains ref = true := Table.contains_iff.2 ⟨target, hget⟩
  split
  · exact .kept
  split
  · exact .switched hr
  split
  · exact .kept
  split
  · exact .kept
  · exact .switched hr

theorem makes_push (now : Timestamp) (hr : r.push = .ok (text, r')) : Makes now r .push r' := by
  obtain rfl | ⟨here, ht, hpast, rfl⟩ := push_eq_ok hr
  · exact .kept
  · exact .pushed ht hpast

theorem makes_pull (h : Host σ) (r : Repository) (w : World σ) :
    Makes h.now r .pull (r.pull h w).2.2 := by
  unfold pull
  split
  · exact .kept
  next hi =>
  split
  · exact .kept
  split
  · exact .kept
  next there hthere =>
  split
  · exact .kept
  split
  · exact .kept
  next hpast =>
  dsimp only
  split
  · exact .kept
  · refine .pulled (require_eq_ok_iff.1 hi) hthere fun here hhere => ?_
    rw [Option.mem_def] at hhere
    simpa [hhere] using hpast

/-- Whatever is asked of a repository leads on in one of the ways of `Git.Call.Makes`. -/
theorem makes_run (h : Host σ) (p : Project σ) (c : Git.Call) :
    c.Makes h.now p.repository (c.run h p).2.repository := by
  have alone : ∀ {α : Type} {x : Except Fault α} {f : α → Option String × Repository},
      (∀ {a}, x = .ok a → c.Makes h.now p.repository (f a).2) →
        c.Makes h.now p.repository (Git.answered p (x.map f)).2.repository := by
    intro α x f ho
    cases x with
    | ok a => exact ho rfl
    | error e => exact .kept
  cases c with
  | init => exact makes_init h.now p.repository
  | add paths => exact makes_add h.now p.repository p.world.space paths
  | reset path => exact alone (makes_reset h.now)
  | commit message => exact alone makes_commit
  | createBranch name => exact alone (makes_createBranch h.now)
  | checkout ref => exact makes_checkout h p.repository p.world ref
  | attachRemote name => exact .attached
  | push => exact alone (makes_push h.now)
  | pull => exact makes_pull h p.repository p.world

end Repository

namespace Project

/-- What a repository is led to by its own operations and by the remote, whatever is done to the
workspace in between, if `Ok` holds of each of its operations as it begins. -/
inductive LedTo (Ok : Host σ → Repository → Git.Call → Prop) (p : Project σ) : Project σ → Prop
  | refl : LedTo Ok p p
  | call {q : Project σ} (hq : LedTo Ok p q) {h : Host σ} {c : Git.Call}
      (hc : Ok h q.repository c) : LedTo Ok p (c.run h q).2
  | edited {q : Project σ} (hq : LedTo Ok p q) (w : World σ) : LedTo Ok p { q with world := w }
  | remote {q : Project σ} (hq : LedTo Ok p q) (branch : String) {tip : Option String}
      (ht : ∀ oid ∈ tip, q.repository.commits.contains oid = true) :
      LedTo Ok p { q with repository := q.repository.setRemote branch tip }

/-- What a new repository is led to. -/
def LedBy (Ok : Host σ → Repository → Git.Call → Prop) (p : Project σ) : Prop :=
  ∃ w root author, LedTo Ok ⟨.new root author, w⟩ p

variable {Ok : Host σ → Repository → Git.Call → Prop} {p q : Project σ} {h : Host σ}

namespace LedTo

/-- What is kept by every step of the operations and by the remote holds of all that a repository is
led to, if it holds of the repository. -/
theorem invariant {P : Repository → Prop} (hq : p.LedTo Ok q) (hp : P p.repository)
    (hstep : ∀ {h : Host σ} {r r' : Repository} {c : Git.Call}, P r → Ok h r c →
      c.Makes h.now r r' → P r')
    (hremote : ∀ {r : Repository} {branch : String} {tip : Option String}, P r →
      (∀ oid ∈ tip, r.commits.contains oid = true) → P (r.setRemote branch tip)) :
    P q.repository := by
  induction hq with
  | refl => exact hp
  | @call q _ h c hc ih => exact hstep ih hc (Repository.makes_run h q c)
  | edited _ w ih => exact ih
  | remote _ branch ht ih => exact hremote ih ht

theorem trans {p' : Project σ} (hq : p.LedTo Ok q) (hp' : q.LedTo Ok p') : p.LedTo Ok p' := by
  induction hp' with
  | refl => exact hq
  | call _ hc ih => exact ih.call hc
  | edited _ w ih => exact ih.edited w
  | remote _ branch ht ih => exact ih.remote branch ht

theorem acts (hq : p.LedTo Ok q) (l : List (Operation ⊕ Git.Call))
    (hl : ∀ c, Sum.inr c ∈ l → ∀ r, Ok h r c) : p.LedTo Ok (l.foldl (act h) q) := by
  induction l generalizing q with
  | nil => exact hq
  | cons a rest ih =>
    refine ih ?_ fun c hc => hl c (List.mem_cons_of_mem _ hc)
    cases a with
    | inl op => exact hq.edited _
    | inr c => exact hq.call (hl c List.mem_cons_self _)

theorem recorded {oid message : String} {now : Timestamp} (hq : p.LedTo Ok q)
    (hi : q.repository.initialized = true) (hb : Text.isBlankText message = false)
    (hs : q.repository.index.same q.repository.headTree = false)
    (hid : Repository.commitId q.repository.tip? message now q.repository.index = oid)
    (hok : Ok ⟨none, now⟩ q.repository (.commit message)) :
    p.LedTo Ok { q with repository := q.repository.recorded oid message now } := by
  have hcall := hq.call hok
  rw [Git.Call.run, Repository.commit_eq_ok_iff.2 ⟨hi, hb, hs, hid, rfl⟩] at hcall
  exact hcall

end LedTo

namespace LedBy

theorem new (w : World σ) (root author : String) : LedBy Ok ⟨.new root author, w⟩ :=
  ⟨w, root, author, .refl⟩

theorem trans (hp : p.LedBy Ok) (hq : p.LedTo Ok q) : q.LedBy Ok := by
  obtain ⟨w, root, author, hp⟩ := hp
  exact ⟨w, root, author, hp.trans hq⟩

/-- What holds of a new repository, and is kept by every step of the operations and by the remote,
holds of all that a repository is led to. -/
theorem invariant {Inv : Repository → Prop} (hp : p.LedBy Ok)
    (hnew : ∀ root author, Inv (.new root author))
    (hstep : ∀ {h : Host σ} {r r' : Repository} {c : Git.Call}, Inv r → Ok h r c →
      c.Makes h.now r r' → Inv r')
    (hremote : ∀ {r : Repository} {branch : String} {tip : Option String}, Inv r →
      (∀ oid ∈ tip, r.commits.contains oid = true) → Inv (r.setRemote branch tip)) :
    Inv p.repository := by
  obtain ⟨w, root, author, hp⟩ := hp
  exact hp.invariant (hnew root author) hstep hremote

end LedBy

end Project

end Workbench
