import Mathlib.Data.List.Perm.Basic
import Workbench.Proofs.Git.Steps
import Workbench.Proofs.Git.Uncommitted
import Workbench.Proofs.Octets
import Workbench.Proofs.Time

/-!
# What the id of a commit tells

The id of a commit is the digest of its pieces, which are written one after another with nothing
between them: the parent, the message, the time, and the path and the content of every file. Even
where the digest tells any two texts apart, two commits have one id if their pieces are cut
differently out of one text, and then the later one takes the place of the earlier one. What is
stored under an id later on is the same commit with the same files exactly when its pieces have the
same lengths (`Project.committed_same_iff`).
-/

namespace Workbench

open Git (Commit Tree)

theorem eq_of_flatten_eq {α : Type} {l l' : List (List α)} (hf : l.flatten = l'.flatten)
    (hl : l.map List.length = l'.map List.length) : l = l' := by
  induction l generalizing l' with
  | nil => exact (List.map_eq_nil_iff.1 hl.symm).symm
  | cons a rest ih =>
    cases l' with
    | nil => cases hl
    | cons b rest' =>
      obtain ⟨hlen, hrest⟩ := List.cons.inj hl
      rw [List.flatten_cons, List.flatten_cons] at hf
      obtain ⟨rfl, hflat⟩ := List.append_inj hf hlen
      rw [ih hflat hrest]

/-- A digest tells two messages apart. -/
def Sha1.Separates (msg msg' : List Nat) : Prop := hexDigest msg = hexDigest msg' → msg = msg'

theorem Sha1.hexDigest_ne_empty (msg : List Nat) : hexDigest msg ≠ "" := by
  have hword : ∀ w : UInt32, hexWord w ≠ [] := fun w =>
    List.append_ne_nil_of_right_ne_nil _ Nat.toDigits_ne_nil
  intro h
  have hnil := congrArg String.toList h
  rw [hexDigest, String.toList_ofList, List.flatMap_cons] at hnil
  exact hword _ (List.append_eq_nil_iff.1 hnil).1

namespace Repository

variable {σ : Type} {r r' : Repository} {parent parent' : Option String}
  {message message' oid : String} {now now' : Timestamp} {index index' : Tree} {c : Git.Call}

/-! ## Pieces -/

/-- The pieces of the text of which the id of a commit is the digest. -/
def commitPieces (parent : Option String) (message : String) (now : Timestamp) (index : Tree) :
    List String :=
  parent.getD "" :: message :: now.isoText ::
    (sorted index.keys).flatMap fun p => [p, index.getD p ""]

/-- The octets of which the id of a commit is the digest. -/
def commitOctets (parent : Option String) (message : String) (now : Timestamp) (index : Tree) :
    List Nat :=
  Text.octets (commitText parent message now index)

theorem toList_commitText : (commitText parent message now index).toList =
    ((commitPieces parent message now index).map String.toList).flatten := by
  have hfiles : ∀ l : List String, (l.map fun p => p ++ index.getD p "").flatMap String.toList =
      ((l.flatMap fun p => [p, index.getD p ""]).map String.toList).flatten := by
    intro l
    induction l with
    | nil => rfl
    | cons p rest ih =>
      simp only [List.map_cons, List.flatMap_cons, String.toList_append, List.map_append, ih,
        List.flatten_append, List.map_nil, List.flatten_cons, List.flatten_nil, List.append_nil]
  rw [commitText, commitPieces, String.toList_append, String.toList_join, hfiles]
  simp only [String.toList_append, List.map_cons, List.flatten_cons, List.append_assoc]

/-- The pieces are known from the text and their lengths. -/
theorem commitPieces_eq (ht : commitText parent message now index =
      commitText parent' message' now' index')
    (hl : (commitPieces parent message now index).map String.length =
      (commitPieces parent' message' now' index').map String.length) :
    commitPieces parent message now index = commitPieces parent' message' now' index' := by
  have hflat := congrArg String.toList ht
  rw [toList_commitText, toList_commitText] at hflat
  refine List.map_injective_iff.2 (fun _ _ => String.toList_inj.1) (eq_of_flatten_eq hflat ?_)
  simpa only [List.map_map, Function.comp_def, String.length_toList] using hl

theorem eq_of_flatMap_pair {l l' : List String} {f f' : String → String}
    (h : (l.flatMap fun p => [p, f p]) = l'.flatMap fun p => [p, f' p]) :
    l = l' ∧ ∀ p ∈ l, f p = f' p := by
  induction l generalizing l' with
  | nil =>
    cases l' with
    | nil => exact ⟨rfl, by simp⟩
    | cons => cases h
  | cons p rest ih =>
    cases l' with
    | nil => cases h
    | cons p' rest' =>
      obtain ⟨rfl, h⟩ := List.cons.inj h
      obtain ⟨hf, h⟩ := List.cons.inj h
      obtain ⟨rfl, hrest⟩ := ih h
      exact ⟨rfl, List.forall_mem_cons.2 ⟨hf, hrest⟩⟩

theorem sorted_perm (l : List String) : (sorted l).Perm l := List.mergeSort_perm l _

theorem not_lt_eq_true_iff (a b : String) : (!decide (b < a)) = true ↔ a ≤ b := by
  rw [Bool.not_eq_true', decide_eq_false_iff_not, String.not_lt]

theorem sorted_eq_of_perm {l l' : List String} (h : l.Perm l') : sorted l = sorted l' := by
  have hle := not_lt_eq_true_iff
  have hsorted : ∀ l : List String, (sorted l).Pairwise (· ≤ ·) := fun l =>
    (List.pairwise_mergeSort
      (fun a b c hab hbc => (hle a c).2 (String.le_trans ((hle a b).1 hab) ((hle b c).1 hbc)))
      (fun a b => Bool.or_eq_true_iff.2 ((String.le_total a b).imp (hle a b).2 (hle b a).2)) l).imp
      fun {a b} => (hle a b).1
  exact List.Perm.eq_of_pairwise (fun _ _ _ _ => String.le_antisymm) (hsorted l) (hsorted l')
    ((sorted_perm l).trans (h.trans (sorted_perm l').symm))

theorem sorted_eq_self {l : List String} (h : l.Pairwise (· ≤ ·)) : sorted l = l :=
  List.mergeSort_of_pairwise (h.imp fun {a b} => (not_lt_eq_true_iff a b).2)

theorem mem_keys_congr (h : ∀ p, index.get? p = index'.get? p) (p : String) :
    p ∈ index.keys ↔ p ∈ index'.keys := by
  rw [Table.mem_keys_iff, Table.mem_keys_iff, h]

theorem parent_eq (hp : parent ≠ some "") (hp' : parent' ≠ some "")
    (h : parent.getD "" = parent'.getD "") : parent = parent' := by
  cases parent with
  | none =>
    cases parent' with
    | none => rfl
    | some oid => exact absurd (congrArg some h.symm) hp'
  | some oid =>
    cases parent' with
    | none => exact absurd (congrArg some h) hp
    | some oid' => exact congrArg some h

/-- The pieces tell all of a commit. -/
theorem commitPieces_eq_iff (hp : parent ≠ some "") (hp' : parent' ≠ some "")
    (hn : now.IsReading) (hn' : now'.IsReading) :
    commitPieces parent message now index = commitPieces parent' message' now' index' ↔
      parent = parent' ∧ message = message' ∧ now = now' ∧ ∀ p, index.get? p = index'.get? p := by
  constructor
  · intro h
    obtain ⟨hparent, hrest⟩ := List.cons.inj h
    obtain ⟨hmessage, hrest⟩ := List.cons.inj hrest
    obtain ⟨hiso, hrest⟩ := List.cons.inj hrest
    obtain ⟨hkeys, hfiles⟩ := eq_of_flatMap_pair hrest
    refine ⟨parent_eq hp hp' hparent, hmessage, Timestamp.isoText_injective hn hn' hiso,
      fun p => ?_⟩
    have hmem : p ∈ index.keys ↔ p ∈ index'.keys := by
      rw [← (sorted_perm index.keys).mem_iff, hkeys, (sorted_perm index'.keys).mem_iff]
    by_cases hk : p ∈ index.keys
    · have hf := hfiles p ((sorted_perm _).mem_iff.2 hk)
      obtain ⟨content, hget⟩ := Table.mem_keys_iff.1 hk
      obtain ⟨content', hget'⟩ := Table.mem_keys_iff.1 (hmem.1 hk)
      rw [Table.getD, Table.getD, hget, hget'] at hf
      rw [hget, hget']
      exact congrArg some hf
    · exact (Table.lookup_eq_none.2 hk).trans (Table.lookup_eq_none.2 (hmem.not.1 hk)).symm
  · rintro ⟨rfl, rfl, rfl, hget⟩
    have hperm : index.keys.Perm index'.keys :=
      (List.perm_ext_iff_of_nodup index.nodup index'.nodup).2 (mem_keys_congr hget)
    simp only [commitPieces, sorted_eq_of_perm hperm, Table.getD, hget]

/-- Of two commits with one id, whose texts the digest tells apart, all is the same exactly when the
pieces have the same lengths. -/
theorem same_iff_of_commitId_eq (hp : parent ≠ some "") (hp' : parent' ≠ some "")
    (hn : now.IsReading) (hn' : now'.IsReading)
    (hid : commitId parent message now index = commitId parent' message' now' index')
    (hs : Sha1.Separates (commitOctets parent message now index)
      (commitOctets parent' message' now' index')) :
    (parent = parent' ∧ message = message' ∧ now = now' ∧ ∀ p, index.get? p = index'.get? p) ↔
      (commitPieces parent message now index).map String.length =
        (commitPieces parent' message' now' index').map String.length := by
  rw [← commitPieces_eq_iff hp hp' hn hn']
  exact ⟨congrArg _, commitPieces_eq (Text.octets_injective (hs hid))⟩

/-! ## What is stored under an id -/

/-- Everything is stored under the id that it has, and pointers name what is stored. -/
structure Stamped (r : Repository) : Prop where
  commit : ∀ {oid c}, r.commits.get? oid = some c → c.timestamp.IsReading ∧
    (∀ parent ∈ c.parent, r.commits.contains parent = true) ∧
    ∃ t, r.trees.get? oid = some t ∧ commitId c.parent c.message c.timestamp t = oid
  branch : ∀ {name tip}, r.branches.get? name = some tip →
    ∀ oid ∈ tip, r.commits.contains oid = true
  remote : ∀ {name oid}, r.remoteBranches.get? name = some oid → r.commits.contains oid = true

namespace Stamped

theorem new (root author : String) : (new root author).Stamped where
  commit h := nomatch h
  branch h := nomatch h
  remote h := nomatch h

theorem parent_ne (h : r.Stamped) (hp : ∀ oid ∈ parent, r.commits.contains oid = true) :
    parent ≠ some "" := by
  rintro rfl
  obtain ⟨c, hget⟩ := Table.contains_iff.1 (hp "" rfl)
  obtain ⟨-, -, t, -, hid⟩ := h.commit hget
  exact Sha1.hexDigest_ne_empty _ hid

theorem tip (h : r.Stamped) : ∀ oid ∈ r.tip?, r.commits.contains oid = true := fun oid ht =>
  h.branch (tip?_eq_some_iff.1 ht) oid rfl

/-- A commit takes the place of what was stored under its id; all other ids keep what they have. -/
theorem recorded (h : r.Stamped) (hn : now.IsReading)
    (hid : commitId r.tip? message now r.index = oid) : (r.recorded oid message now).Stamped := by
  have hgrown : ∀ {o}, r.commits.contains o = true →
      (r.recorded oid message now).commits.contains o = true := fun ho =>
    Table.contains_iff.2 (Table.exists_get?_insert (Table.contains_iff.1 ho) _ _)
  have hnew : (r.recorded oid message now).commits.contains oid = true :=
    Table.contains_iff.2 ⟨_, Table.get?_insert_self _ _ _⟩
  refine ⟨?_, fun hget => ?_, fun hget => hgrown (h.remote hget)⟩
  · intro o c hget
    dsimp only [Repository.recorded] at hget
    rw [Table.get?_insert] at hget
    split at hget
    · next ho =>
      subst ho
      obtain rfl := Option.some.inj hget
      exact ⟨hn, fun parent hp => hgrown (h.tip parent hp), r.index, Table.get?_insert_self _ _ _,
        hid⟩
    · next ho =>
      obtain ⟨hreading, hparent, t, ht, hidc⟩ := h.commit hget
      exact ⟨hreading, fun parent hp => hgrown (hparent parent hp), t,
        (Table.get?_insert_of_ne ho _).trans ht, hidc⟩
  · exact Table.forall_insert (fun hget o ho => hgrown (h.branch hget o ho))
      (fun o ho => Option.some.inj ho ▸ hnew) hget

/-- A change of pointers to others that name what is stored. -/
theorem moved (h : r.Stamped) (hc : r'.commits = r.commits) (ht : r'.trees = r.trees)
    (hb : ∀ {name tip}, r'.branches.get? name = some tip →
      ∀ oid ∈ tip, r.commits.contains oid = true)
    (hr : ∀ {name oid}, r'.remoteBranches.get? name = some oid → r.commits.contains oid = true) :
    r'.Stamped := by
  refine ⟨?_, ?_, ?_⟩
  · rw [hc, ht]
    exact h.commit
  · rw [hc]
    exact hb
  · rw [hc]
    exact hr

theorem makes (h : r.Stamped) (hn : now.IsReading) (hm : c.Makes now r r') : r'.Stamped := by
  cases hm with
  | kept => exact h
  | begun hi =>
    refine h.moved rfl rfl (fun hget => ?_) h.remote
    rw [Table.ofList, Table.insertMany, List.foldl_cons, List.foldl_nil] at hget
    exact Table.forall_insert (t := .empty)
      (P := fun _ tip => ∀ oid ∈ tip, r.commits.contains oid = true)
      (fun hnone => by cases hnone) (fun oid ho => by cases ho) hget
  | staged index => exact h.moved rfl rfl h.branch h.remote
  | recorded hc =>
    obtain ⟨-, -, -, hid, -⟩ := commit_eq_ok_iff.1 hc
    exact h.recorded hn hid
  | branched _ _ ht =>
    exact h.moved rfl rfl (Table.forall_insert h.branch (ht ▸ h.tip)) h.remote
  | switched _ => exact h.moved rfl rfl h.branch h.remote
  | attached => exact h.moved rfl rfl h.branch h.remote
  | pushed ht _ =>
    exact h.moved rfl rfl h.branch (Table.forall_insert h.remote (h.tip _ ht))
  | pulled _ ht _ =>
    exact h.moved rfl rfl
      (Table.forall_insert h.branch fun oid ho => Option.some.inj ho ▸ h.remote ht) h.remote

theorem setRemote (h : r.Stamped) (branch : String) {tip : Option String}
    (ht : ∀ oid ∈ tip, r.commits.contains oid = true) : (r.setRemote branch tip).Stamped := by
  unfold Repository.setRemote
  split
  · next oid =>
    exact h.moved rfl rfl h.branch (Table.forall_insert h.remote (ht oid rfl))
  · refine h.moved rfl rfl h.branch fun hget => ?_
    rw [Table.get?_erase] at hget
    split at hget
    · cases hget
    · exact h.remote hget

end Stamped

theorem contains_of_makes (hc : r.commits.contains oid = true) (hm : c.Makes now r r') :
    r'.commits.contains oid = true := by
  cases hm with
  | recorded _ =>
    exact Table.contains_iff.2 (Table.exists_get?_insert (Table.contains_iff.1 hc) _ _)
  | _ => exact hc

theorem commits_setRemote (r : Repository) (branch : String) (tip : Option String) :
    (r.setRemote branch tip).commits = r.commits := by
  unfold Repository.setRemote
  split <;> rfl

end Repository

/-! ## Runs -/

namespace Project

open Repository

variable {σ : Type} {p p₁ p₂ : Project σ} {h : Host σ} {message oid : String}

/-- Operations begin at a time that a clock can show. -/
def Timely (h : Host σ) (_ : Repository) (_ : Git.Call) : Prop := h.now.IsReading

theorem stamped (hp : p.LedBy Timely) : p.repository.Stamped :=
  LedBy.invariant hp .new (fun hs hn hm => hs.makes hn hm) fun hs ht => hs.setRemote _ ht

theorem contains_of_ledTo {Ok : Host σ → Repository → Git.Call → Prop} (hl : p.LedTo Ok p₁)
    (hc : p.repository.commits.contains oid = true) :
    p₁.repository.commits.contains oid = true := by
  refine hl.invariant (P := fun r => r.commits.contains oid = true) hc
    (fun hr _ hm => contains_of_makes hr hm) fun hr _ => ?_
  rwa [commits_setRemote]

/-- A commit that succeeds says its id, and has changed the repository only. -/
theorem exists_of_run_commit {answer : Option String}
    (hc : (Git.Call.commit message).run h p = (.ok answer, p₁)) : ∃ oid r', answer = some oid ∧
      p.repository.commit message h.now = .ok (oid, r') ∧ p₁ = { p with repository := r' } := by
  rw [Git.Call.run] at hc
  cases hr : p.repository.commit message h.now with
  | error e =>
    rw [hr] at hc
    cases hc
  | ok made =>
    obtain ⟨oid, r'⟩ := made
    rw [hr] at hc
    obtain ⟨hanswer, rfl⟩ := Prod.mk.inj hc
    exact ⟨oid, r', (Except.ok.inj hanswer).symm, rfl, rfl⟩

theorem run_commit_eq_ok (hc : (Git.Call.commit message).run h p = (.ok (some oid), p₁)) :
    commitId p.repository.tip? message h.now p.repository.index = oid ∧
      p₁ = { p with repository := p.repository.recorded oid message h.now } := by
  obtain ⟨oid', r', hanswer, hr, rfl⟩ := exists_of_run_commit hc
  obtain rfl := Option.some.inj hanswer
  obtain ⟨-, -, -, hid, rfl⟩ := commit_eq_ok_iff.1 hr
  exact ⟨hid, rfl⟩

/-- An id names its commit exactly as far as the lengths of the pieces go. When a commit has been
recorded, there is at all later times a commit with its files stored under the id that was returned.
If the digest tells apart the texts of the two, then parent, message, time and files are those
that were recorded exactly when the pieces of the two have the same lengths. -/
theorem committed_same_iff (hp : p.LedBy Timely) (hn : h.now.IsReading)
    (hc : (Git.Call.commit message).run h p = (.ok (some oid), p₁)) (hl : p₁.LedTo Timely p₂) :
    ∃ c t, p₂.repository.commits.get? oid = some c ∧ p₂.repository.trees.get? oid = some t ∧
      (Sha1.Separates (commitOctets p.repository.tip? message h.now p.repository.index)
          (commitOctets c.parent c.message c.timestamp t) →
        ((p.repository.tip? = c.parent ∧ message = c.message ∧ h.now = c.timestamp ∧
            ∀ path, p.repository.index.get? path = t.get? path) ↔
          (commitPieces p.repository.tip? message h.now p.repository.index).map String.length =
            (commitPieces c.parent c.message c.timestamp t).map String.length)) := by
  have hp₁ := hp.trans (LedTo.refl.call (h := h) (c := .commit message) hn)
  rw [hc] at hp₁
  have hp₂ := hp₁.trans hl
  obtain ⟨hid, rfl⟩ := run_commit_eq_ok hc
  have hstored : p₂.repository.commits.contains oid = true :=
    contains_of_ledTo hl (Table.contains_iff.2 ⟨_, Table.get?_insert_self _ _ _⟩)
  obtain ⟨c, hget⟩ := Table.contains_iff.1 hstored
  obtain ⟨hreading, hparent, t, htree, hidc⟩ := (stamped hp₂).commit hget
  refine ⟨c, t, hget, htree, fun hsep => ?_⟩
  exact same_iff_of_commitId_eq ((stamped hp).parent_ne (stamped hp).tip)
    ((stamped hp₂).parent_ne hparent) hn hreading (hid.trans hidc.symm) hsep

/-! ### Two commits with one id -/

/-- On another branch a second file is created, and the repository is told. -/
def leftFile : Project Unit :=
  [.inr (.createBranch "left"), .inr (.checkout "left"), .inl (.create .file "b" rootId "cd"),
    .inr (.add ["."])].foldl (act freeHost) firstCommit

def sharedId : String := "6571685256cb64839de4702790b0b48c72d33dc8"

def leftCommit : Project Unit :=
  { leftFile with repository := leftFile.repository.recorded sharedId "next" default }

/-- On the first branch a file is created whose path and content read like those of the other
one. -/
def mainFile : Project Unit :=
  [.inl (.create .file "bc" rootId "d"), .inr (.add ["."])].foldl (act freeHost)
    (leftCommit.onMain (some firstId) freeHost)

def mainCommit : Project Unit :=
  { mainFile with repository := mainFile.repository.recorded sharedId "next" default }

theorem keys_leftFile : sorted leftFile.repository.index.keys = ["a", "b"] := by
  rw [show leftFile.repository.index.keys = ["a", "b"] by decide +kernel]
  exact sorted_eq_self (by decide)

theorem keys_mainFile : sorted mainFile.repository.index.keys = ["a", "bc"] := by
  rw [show mainFile.repository.index.keys = ["a", "bc"] by decide +kernel]
  exact sorted_eq_self (by decide)

theorem commitId_leftFile : commitId leftFile.repository.tip? "next" default
    leftFile.repository.index = sharedId :=
  (commitId_of_sorted keys_leftFile).trans (by decide +kernel)

theorem commitPieces_leftFile : commitPieces leftFile.repository.tip? "next" default
    leftFile.repository.index =
      [firstId, "next", "1970-01-01T00:00:00", "a", "one", "b", "cd"] := by
  rw [commitPieces, keys_leftFile]
  decide +kernel

theorem commitPieces_mainFile : commitPieces mainFile.repository.tip? "next" default
    mainFile.repository.index =
      [firstId, "next", "1970-01-01T00:00:00", "a", "one", "bc", "d"] := by
  rw [commitPieces, keys_mainFile]
  decide +kernel

example : leftFile.repository.index ≠ mainFile.repository.index := by decide +kernel

/-- The two commits have one text, so that no digest can tell them apart. -/
theorem commitOctets_shared :
    commitOctets leftFile.repository.tip? "next" default leftFile.repository.index =
      commitOctets mainFile.repository.tip? "next" default mainFile.repository.index := by
  refine congrArg Text.octets (String.toList_inj.1 ?_)
  rw [toList_commitText, toList_commitText, commitPieces_leftFile, commitPieces_mainFile]
  decide +kernel

theorem commitId_mainFile : commitId mainFile.repository.tip? "next" default
    mainFile.repository.index = sharedId :=
  (congrArg Sha1.hexDigest commitOctets_shared).symm.trans commitId_leftFile

theorem isReading_default : (default : Timestamp).IsReading :=
  ⟨by decide, fun _ hz => by cases hz⟩

theorem timely_freeHost (r : Repository) (c : Git.Call) : Timely freeHost r c := isReading_default

theorem ledBy_leftFile : leftFile.LedBy Timely := by
  have hone : oneFile.LedBy Timely := (LedBy.new newProject.world "/" "user").trans
    (LedTo.refl.acts _ fun c _ r => timely_freeHost r c)
  refine hone.trans (LedTo.acts ?_ _ fun c _ r => timely_freeHost r c)
  exact LedTo.refl.recorded (by decide +kernel) (by decide) (by decide +kernel) commitId_oneFile
    (timely_freeHost _ _)

theorem run_commit (hi : p.repository.initialized = true) (hb : Text.isBlankText message = false)
    (hs : p.repository.index.same p.repository.headTree = false)
    (hid : commitId p.repository.tip? message h.now p.repository.index = oid) :
    (Git.Call.commit message).run h p =
      (.ok (some oid), { p with repository := p.repository.recorded oid message h.now }) := by
  rw [Git.Call.run, commit_eq_ok_iff.2 ⟨hi, hb, hs, hid, rfl⟩]
  rfl

theorem run_leftFile :
    (Git.Call.commit "next").run freeHost leftFile = (.ok (some sharedId), leftCommit) :=
  run_commit (by decide +kernel) (by decide) (by decide +kernel) commitId_leftFile

theorem run_mainFile :
    (Git.Call.commit "next").run freeHost mainFile = (.ok (some sharedId), mainCommit) :=
  run_commit (by decide +kernel) (by decide) (by decide +kernel) commitId_mainFile

example : leftCommit.repository.tip? = some sharedId := by decide +kernel

theorem ledTo_mainFile : leftCommit.LedTo Timely mainFile := by
  have hcheckout : (Git.Call.checkout "main").run freeHost leftCommit =
      (.ok none, leftCommit.onMain (some firstId) freeHost) :=
    run_checkout_main (by decide +kernel) (by decide +kernel) (by decide +kernel)
      (by decide +kernel)
  have hmain := LedTo.refl.call (p := leftCommit) (timely_freeHost _ (.checkout "main"))
  rw [hcheckout] at hmain
  exact hmain.acts _ fun c _ r => timely_freeHost r c

theorem ledTo_mainCommit : leftCommit.LedTo Timely mainCommit := by
  have hmain := ledTo_mainFile.call (timely_freeHost _ (.commit "next"))
  rwa [run_mainFile] at hmain

/-- Of the first of the two commits not all is left, since the paths have got longer. -/
theorem leftCommit_changed : ∃ c t, mainCommit.repository.commits.get? sharedId = some c ∧
    mainCommit.repository.trees.get? sharedId = some t ∧
    ¬ (leftFile.repository.tip? = c.parent ∧ "next" = c.message ∧ default = c.timestamp ∧
      ∀ path, leftFile.repository.index.get? path = t.get? path) := by
  obtain ⟨c, t, hget, htree, hiff⟩ := committed_same_iff ledBy_leftFile isReading_default
    run_leftFile ledTo_mainCommit
  refine ⟨c, t, hget, htree, ?_⟩
  obtain rfl := Option.some.inj (hget.symm.trans (Table.get?_insert_self _ _ _))
  obtain rfl := Option.some.inj (htree.symm.trans (Table.get?_insert_self _ _ _))
  rw [show freeHost.now = default from rfl] at hiff
  dsimp only at hiff ⊢
  rw [hiff fun _ => commitOctets_shared, commitPieces_leftFile, commitPieces_mainFile]
  decide +kernel

/-- A commit whose text is that of an earlier one takes its place: the branch of the earlier one now
has other files. -/
theorem commit_replaced :
    leftFile.LedBy Timely ∧
    (Git.Call.commit "next").run freeHost leftFile = (.ok (some sharedId), leftCommit) ∧
    leftCommit.LedTo Timely mainFile ∧
    (Git.Call.commit "next").run freeHost mainFile = (.ok (some sharedId), mainCommit) ∧
    commitOctets leftFile.repository.tip? "next" default leftFile.repository.index =
      commitOctets mainFile.repository.tip? "next" default mainFile.repository.index ∧
    (leftCommit.repository.treeOf (some sharedId)).get? "b" = some "cd" ∧
    mainCommit.repository.branches.get? "left" = some (some sharedId) ∧
    (mainCommit.repository.treeOf (some sharedId)).get? "b" = none :=
  ⟨ledBy_leftFile, run_leftFile, ledTo_mainFile, run_mainFile, commitOctets_shared,
    by decide +kernel, by decide +kernel, by decide +kernel⟩

end Project

end Workbench
