import Workbench.Git.Repository
import Workbench.Workspace.Operation

/-!
# Operations of a repository

Recording, branching and synchronising. An operation that is rejected says why; what it did before
that stays done. Switching to another commit replaces the files of the workspace: those that only
the old tree tracks are deleted, those of the new tree are written.
-/

namespace Workbench.Repository

open Git (Tree Commit Fault Stop)

/-! ## Recording -/

/-- Initialises the repository, unless it is. What is said about it is returned. -/
def init (r : Repository) : String × Repository :=
  let place := r.rootSlash ++ ".git/"
  if r.initialized then ("Reinitialized existing Git repository in " ++ place, r)
  else
    ("Initialized empty Git repository in " ++ place,
      { r with
        initialized := true
        branches := .ofList [(Git.firstBranch, none)]
        head := Git.firstBranch })

def attachRemote (r : Repository) (name : String) : Repository := { r with remoteName := some name }

/-- Points the remote's branch of a name at a commit, or at none. -/
def setRemote (r : Repository) (branch : String) (tip : Option String) : Repository :=
  match tip with
  | some oid => { r with remoteBranches := r.remoteBranches.insert branch oid }
  | none => { r with remoteBranches := r.remoteBranches.erase branch }

/-- Whether a relative path is another or lies below it. -/
def isBelow (path top : String) : Bool := path == top || Text.startsWith path (top ++ "/")

/-- The index after one path is added: it takes over the files at and below the path, and drops
what is no longer there. -/
def indexWith (r : Repository) (working : Tree) (spec : String) : Except Fault Tree :=
  if spec == "." || spec == "-A" || spec == "--all" then .ok working
  else do
    let rel ← r.relative spec
    let matched := working.entries.filter fun e => rel.isEmpty || isBelow e.1 rel
    let gone := r.index.keys.filter fun p => isBelow p rel && !working.contains p
    if matched.isEmpty && gone.isEmpty then throw (.noMatch spec)
    return (r.index.insertMany matched).eraseMany gone

def addAll (working : Tree) : Repository → List String → Except Fault Unit × Repository
  | r, [] => (.ok (), r)
  | r, spec :: rest =>
    match r.indexWith working spec with
    | .ok index => addAll working { r with index := index } rest
    | .error e => (.error e, r)

/-- Makes the index agree with the files at and below paths. -/
def add (r : Repository) (s : Workspace) (paths : List String) : Except Fault Unit × Repository :=
  match r.require with
  | .error e => (.error e, r)
  | .ok () => addAll (r.workingTree s) r paths

/-- Makes the index agree with the commit at a path. -/
def reset (r : Repository) (path : String) : Except Fault Repository := do
  r.require
  let rel ← r.relative path
  match r.headTree.get? rel with
  | some content => return { r with index := r.index.insert rel content }
  | none =>
    if r.index.contains rel then return { r with index := r.index.erase rel }
    else throw (.notKnown path)

def commitText (parent : Option String) (message : String) (now : Timestamp) (index : Tree) :
    String :=
  parent.getD "" ++ message ++ now.isoText ++
    String.join ((sorted index.keys).map fun p => p ++ index.getD p "")

def commitId (parent : Option String) (message : String) (now : Timestamp) (index : Tree) :
    String :=
  Sha1.hexDigest (Text.octets (commitText parent message now index))

/-- Records the index as a commit of the current branch. Its id is returned. -/
def commit (r : Repository) (message : String) (now : Timestamp) :
    Except Fault (String × Repository) := do
  r.require
  if Text.isBlankText message then throw .emptyMessage
  if r.index.same r.headTree then throw .nothingToCommit
  let oid := commitId r.tip? message now r.index
  return (oid,
    { r with
      commits := r.commits.insert oid ⟨oid, message, r.author, now, r.tip?⟩
      trees := r.trees.insert oid r.index
      branches := r.branches.insert r.head (some oid) })

/-! ## Branches -/

def isBranchName (name : String) : Bool :=
  !name.isEmpty && !Text.startsWith name "-" && !Text.occursIn [' '] name.toList &&
    !Text.occursIn ['.', '.'] name.toList

/-- Creates a branch at the commit of the current one. -/
def createBranch (r : Repository) (name : String) : Except Fault Repository := do
  r.require
  if !isBranchName name then throw (.badBranchName name)
  if r.branches.contains name then throw (.branchExists name)
  match r.tip? with
  | none => throw (.badObject r.head)
  | some oid => return { r with branches := r.branches.insert name (some oid) }

/-! ## Writing files -/

variable {σ : Type}

abbrev FileOutcome (σ α : Type) := Except Stop α × World σ

def stopOf : Setback → Stop
  | .refused cause => .rejected (.refused cause)
  | .lost id => .lost id

/-- The outcome of an operation of the workspace as one of the repository. -/
def fileOutcome {α : Type} (o : Outcome σ α) : FileOutcome σ α :=
  (o.1.mapError stopOf, o.2)

def deleteFile (r : Repository) (h : Host σ) (w : World σ) (path : String) : FileOutcome σ Unit :=
  match w.space.resolve? (r.rootSlash ++ path) "/" with
  | none => (.ok (), w)
  | some n => fileOutcome (w.delete h n.id false)

/-- The directory part and the last name of a path. -/
def splitLast (path : String) : String × String :=
  let pieces := Path.pieces path
  ("/".intercalate pieces.dropLast, pieces.getLastD "")

/-- Writes a file at a path below the root, and creates it with its directories if it is not
there. -/
def writeFile (r : Repository) (h : Host σ) (w : World σ) (path content : String) :
    FileOutcome σ Unit :=
  let full := r.rootSlash ++ path
  match w.space.resolve? full "/" with
  | some n =>
    if n.content == content then (.ok (), w)
    else
      match w.setContent h n.id content with
      | (.ok _, w) => (.ok (), w)
      | (.error e, w) => (.error (stopOf e), w)
  | none =>
    let (directory, name) := splitLast full
    match w.ensureDirectories h (if directory.isEmpty then "/" else directory) "/" with
    | (.error e, w) => (.error (stopOf e), w)
    | (.ok parent, w) =>
      match w.create h .file name parent.id content with
      | (.ok _, w) => (.ok (), w)
      | (.error e, w) => (.error (stopOf e), w)

def inOrder {α : Type} (f : World σ → α → FileOutcome σ Unit) :
    World σ → List α → FileOutcome σ Unit
  | w, [] => (.ok (), w)
  | w, a :: rest =>
    match f w a with
    | (.ok (), w) => inOrder f w rest
    | (.error e, w) => (.error e, w)

/-- Replaces the files of one tree by those of another. -/
def switchFiles (r : Repository) (h : Host σ) (w : World σ) (old new : Tree) :
    FileOutcome σ Unit :=
  match inOrder (r.deleteFile h) w (old.keys.filter fun p => !new.contains p) with
  | (.error e, w) => (.error e, w)
  | (.ok (), w) => inOrder (fun w e => r.writeFile h w e.1 e.2) w new.entries

def checkSwitch (r : Repository) (s : Workspace) : Except Fault Unit :=
  let t := r.statusNow s
  if t.staged.isEmpty && t.modified.isEmpty then .ok ()
  else .error (.wouldOverwrite (t.staged ++ t.modified))

/-- The repository on another branch, with the index of its commit. -/
def onBranch (r : Repository) (ref : String) : Repository :=
  let r := { r with head := ref }
  { r with index := r.headTree }

/-- Switches to a branch. The files are only touched when it points at another commit. -/
def checkout (r : Repository) (h : Host σ) (w : World σ) (ref : String) :
    Except Stop Unit × World σ × Repository :=
  match r.require with
  | .error e => (.error (.rejected e), w, r)
  | .ok () =>
    match r.branches.get? ref with
    | none => (.error (.rejected (.noSuchRef ref)), w, r)
    | some target =>
      if ref == r.head then (.ok (), w, r)
      else if target == r.tip? then (.ok (), w, r.onBranch ref)
      else
        match r.checkSwitch w.space with
        | .error e => (.error (.rejected e), w, r)
        | .ok () =>
          match r.switchFiles h w r.headTree (r.treeOf target) with
          | (.error e, w) => (.error e, w, r)
          | (.ok (), w) => (.ok (), w, r.onBranch ref)

/-! ## Synchronising -/

def short (oid : String) : String := Text.takeChars oid 7

def noOid : String := "0000000"

/-- Points the remote's branch at the current commit, unless the remote has commits that are not
here. What is said about it is returned. -/
def push (r : Repository) : Except Fault (String × Repository) := do
  r.require
  let some remote := r.remoteName | throw .noPushDestination
  let some here := r.tip? | throw (.noSource r.head)
  match r.remoteTip? with
  | some there =>
    if here == there then return ("Everything up-to-date", r)
    if !r.isAncestor there (some here) then throw (.behindRemote remote)
  | none => pure ()
  let old := (r.remoteTip?.map short).getD noOid
  let range := old ++ ".." ++ short here
  return ("To " ++ remote ++ "\n   " ++ range ++ "  " ++ r.head ++ " -> " ++ r.head,
    { r with remoteBranches := r.remoteBranches.insert r.head here })

/-- Moves the current branch forward to the remote's commit and writes its files. What is said
about it is returned. -/
def pull (r : Repository) (h : Host σ) (w : World σ) :
    Except Stop String × World σ × Repository :=
  match r.require with
  | .error e => (.error (.rejected e), w, r)
  | .ok () =>
    if r.remoteName.isNone then (.error (.rejected .noRemote), w, r)
    else
      match r.remoteTip? with
      | none => (.ok "Already up to date.", w, r)
      | some there =>
        if r.isAncestor there r.tip? then (.ok "Already up to date.", w, r)
        else if r.tip?.any fun here => !r.isAncestor here (some there) then
          (.error (.rejected .notFastForward), w, r)
        else
          let target := r.treeOf (some there)
          match r.switchFiles h w r.headTree target with
          | (.error e, w) => (.error e, w, r)
          | (.ok (), w) =>
            (.ok ("Updating " ++ (r.tip?.map short).getD noOid ++ ".." ++ short there ++
                "\nFast-forward"), w,
              { r with branches := r.branches.insert r.head (some there), index := target })

end Workbench.Repository
