import Workbench.Sha1
import Workbench.Text.Utf8
import Workbench.Workspace.Basic

/-!
# Repositories

A version history of the files below one directory of the workspace. A tree is a snapshot: the
contents of files under their paths relative to that directory. Commits are stored under their
ids, each with its tree; branches point at commits, and the index is the tree of the next commit.
A remote is nothing but another set of pointers at the same commits.
-/

namespace Workbench

namespace Git

/-- File contents under relative paths. -/
abbrev Tree := Table String String

/-- Whether two trees hold the same contents under the same paths, in whatever order. -/
def Tree.same (s t : Tree) : Bool :=
  s.size == t.size && s.entries.all fun e => t.get? e.1 == some e.2

structure Commit where
  oid : String
  message : String
  author : String
  timestamp : Timestamp
  parent : Option String
  deriving DecidableEq

inductive Fault where
  | notRepository
  | noMatch (spec : String)
  | notKnown (path : String)
  | noSuchRef (ref : String)
  | emptyMessage
  | nothingToCommit
  | noCommits (branch : String)
  | badBranchName (name : String)
  | branchExists (name : String)
  | badObject (branch : String)
  | wouldOverwrite (paths : List String)
  | noPushDestination
  | noSource (branch : String)
  | behindRemote (remote : String)
  | noRemote
  | notFastForward
  | outside (path root : String)
  | refused (cause : Refusal)
  deriving DecidableEq

def Fault.message : Fault → String
  | notRepository => "not a git repository (or any of the parent directories): .git"
  | noMatch spec => "pathspec " ++ Refusal.named spec ++ " did not match any files"
  | notKnown path => "pathspec " ++ Refusal.named path ++ " did not match any files known to git"
  | noSuchRef ref => "pathspec " ++ Refusal.named ref ++ " did not match any file(s) known to git"
  | emptyMessage => "Aborting commit due to empty commit message."
  | nothingToCommit => "nothing to commit, working tree clean"
  | noCommits branch =>
    "your current branch " ++ Refusal.named branch ++ " does not have any commits yet"
  | badBranchName name => Refusal.named name ++ " is not a valid branch name."
  | branchExists name => "a branch named " ++ Refusal.named name ++ " already exists"
  | badObject branch => "Not a valid object name: " ++ Refusal.named branch ++ "."
  | wouldOverwrite paths =>
    "Your local changes to the following files would be overwritten by checkout:\n\t" ++
      "\n\t".intercalate paths ++
      "\nPlease commit your changes or stash them before you switch branches."
  | noPushDestination => "No configured push destination."
  | noSource branch => "src refspec " ++ branch ++ " does not match any"
  | behindRemote remote =>
    "failed to push some refs to " ++ Refusal.named remote ++
      "\nUpdates were rejected because the tip of your current branch is behind"
  | noRemote => "No remote repository specified."
  | notFastForward => "Not possible to fast-forward, aborting."
  | outside path root =>
    Refusal.named path ++ " is outside repository at " ++ Refusal.named root
  | refused cause => cause.message

inductive Stop where
  | rejected (fault : Fault)
  /-- A node of the workspace is lost on the way. -/
  | lost (id : String)
  deriving DecidableEq

def firstBranch : String := "main"

end Git

structure Repository where
  /-- The absolute path of the directory whose files are tracked. -/
  root : String
  author : String
  initialized : Bool := false
  head : String := Git.firstBranch
  /-- The commits that branches point at; a branch may be without commits yet. -/
  branches : Table String (Option String) := .empty
  commits : Table String Git.Commit := .empty
  trees : Table String Git.Tree := .empty
  index : Git.Tree := .empty
  remoteName : Option String := none
  remoteBranches : Table String String := .empty
  deriving DecidableEq

namespace Repository

open Git (Tree Commit Fault)

def new (root author : String) : Repository :=
  { root := Path.ofNames (Path.segments root), author := author }

def tip? (r : Repository) : Option String := (r.branches.get? r.head).join

/-- The commit that the remote's branch of the current name points at. -/
def remoteTip? (r : Repository) : Option String := r.remoteBranches.get? r.head

/-- The tree of a commit; there are no files where there is no commit. -/
def treeOf (r : Repository) (oid : Option String) : Tree :=
  (oid.bind r.trees.get?).getD .empty

def headTree (r : Repository) : Tree := r.treeOf r.tip?

/-- A commit and the commits before it, newest first, at most `fuel` of them. -/
def chain (r : Repository) : Nat → Option String → List Commit
  | 0, _ => []
  | fuel + 1, oid =>
    match oid.bind r.commits.get? with
    | none => []
    | some c => c :: chain r fuel c.parent

/-- A commit and every commit before it, newest first. -/
def history (r : Repository) (oid : Option String) : List Commit := r.chain r.commits.size oid

def ancestors (r : Repository) (oid : Option String) : List String :=
  (r.history oid).map Commit.oid

def isAncestor (r : Repository) (oid : String) (tip : Option String) : Bool :=
  (r.ancestors tip).contains oid

/-- How many commits the current branch has that the remote lacks, and the other way round. -/
def divergence (r : Repository) : Nat × Nat :=
  if r.remoteName.isNone then (0, 0)
  else
    let here := r.ancestors r.tip?
    let there := r.ancestors r.remoteTip?
    ((here.filter fun o => !there.contains o).length,
      (there.filter fun o => !here.contains o).length)

def rootSlash (r : Repository) : String := Path.dropSlashes r.root ++ "/"

/-- The files below the root of the repository, as they are now. -/
def workingTree (r : Repository) (s : Workspace) : Tree :=
  match (s.resolve? r.root "/").filter Node.isDirectory with
  | none => .empty
  | some top =>
    .ofList <| (s.walk top.id).filterMap fun n =>
      let path := s.pathOf n.id
      if n.isFile && Text.startsWith path r.rootSlash then
        some (Text.dropChars path r.rootSlash.length, n.content)
      else none

/-- Drops single dots and lets two dots take back the step before them. -/
def normalSteps : List String → List String → List String
  | done, [] => done.reverse
  | done, "." :: rest => normalSteps done rest
  | done, ".." :: rest => normalSteps done.tail rest
  | done, step :: rest => normalSteps (step :: done) rest

/-- The path of a file relative to the root of the repository. -/
def relative (r : Repository) (path : String) : Except Fault String :=
  let absolute := if Text.startsWith path "/" then path else r.rootSlash ++ path
  let steps := normalSteps [] (Path.segments absolute)
  let top := Path.segments r.root
  if top.isPrefixOf steps then .ok ("/".intercalate (steps.drop top.length))
  else .error (.outside path r.root)

structure Status where
  branch : String
  /-- Paths at which the index differs from the commit. -/
  staged : List String
  /-- Paths of the index at which the files differ from it. -/
  modified : List String
  /-- Paths of files that the index does not hold. -/
  untracked : List String
  ahead : Nat
  /-- Commits of the remote that are not here. -/
  behind : Nat
  deriving DecidableEq, Repr

def Status.clean (t : Status) : Bool :=
  t.staged.isEmpty && t.modified.isEmpty && t.untracked.isEmpty

/-- Texts in the order of their characters. -/
def sorted (l : List String) : List String := l.mergeSort fun a b => !decide (b < a)

def changedPaths (s t : Tree) : List String :=
  sorted ((s.keys ++ t.keys.filter fun p => !s.contains p).filter fun p => s.get? p != t.get? p)

def statusNow (r : Repository) (s : Workspace) : Status :=
  let working := r.workingTree s
  { branch := r.head
    staged := changedPaths r.headTree r.index
    modified := sorted (r.index.keys.filter fun p => working.get? p != r.index.get? p)
    untracked := sorted (working.keys.filter fun p => !r.index.contains p)
    ahead := r.divergence.1
    behind := r.divergence.2 }

def require (r : Repository) : Except Fault Unit :=
  if r.initialized then .ok () else .error .notRepository

def status (r : Repository) (s : Workspace) : Except Fault Status := do
  r.require
  return r.statusNow s

def log (r : Repository) (depth : Int) : Except Fault (List Commit) := do
  r.require
  match r.tip? with
  | none => throw (.noCommits r.head)
  | some oid => return (r.history (some oid)).take depth.toNat

structure Branch where
  name : String
  current : Bool
  commit : Option String
  deriving DecidableEq, Repr

def listBranches (r : Repository) : Except Fault (List Branch) := do
  r.require
  return (sorted r.branches.keys).map fun name =>
    ⟨name, name == r.head, (r.branches.get? name).join⟩

end Repository

end Workbench
