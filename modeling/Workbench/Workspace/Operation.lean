import Workbench.Disk.Path
import Workbench.Workspace.Edit
import Workbench.Workspace.Rebuild

/-!
# Operations on a workspace and its disk

Every operation first checks its arguments against the tree in memory. A free workspace is then
edited in memory. A bound workspace instead has the disk changed through its bridge, and its tree
is rebuilt from a new listing; the node that an operation returns is looked up in the rebuilt tree.

Before the disk is changed, the operation makes sure that what it writes would be listed again.
-/

namespace Workbench

/-- A workspace together with the disk. -/
structure World (σ : Type) where
  space : Workspace
  disk : σ

/-- What an operation has at hand: the bridge to the disk, if there is one, and the time. -/
structure Host (σ : Type) where
  bridge : Option (Bridge σ)
  now : Timestamp

/-- The end of an operation, with the world that it leaves. -/
abbrev Outcome (σ α : Type) := Except Setback α × World σ

namespace World

variable {σ α : Type}

def refuse (w : World σ) (cause : Refusal) : Outcome σ α := (.error (.refused cause), w)

def finish (w : World σ) (space : Workspace) (a : α) : Outcome σ α :=
  (.ok a, { w with space := space })

/-- Ends an operation with a node, as it is now. -/
def answer (w : World σ) (id : NodeId) : Outcome σ Node :=
  match w.space.require id with
  | .ok n => (.ok n, w)
  | .error r => w.refuse r

/-- The path on the disk of names below the bound root. -/
def diskPath (w : World σ) (names : List String) : String :=
  Disk.below (w.space.boundRoot.getD "") names

def nodePath (w : World σ) (id : NodeId) : String := w.diskPath (w.space.arena.namesTo id)

/-- The names that lead to a name in a directory. -/
def placeIn (w : World σ) (directory : Node) (name : String) : List String :=
  w.space.arena.namesTo directory.id ++ [name]

end World

namespace Host

variable {σ : Type}

/-- Lists the entries below a root of the disk. -/
def list (h : Host σ) (w : World σ) (root : String) :
    Except Refusal (List DiskEntry) × World σ :=
  match h.bridge with
  | none => (.error .noBridge, w)
  | some b =>
    match b.list h.now root w.disk with
    | (.ok entries, d) => (.ok entries, { w with disk := d })
    | (.error e, d) =>
      (.error (if e.sort = .timeout then .listingTimedOut root else .listingBroke root e.text),
        { w with disk := d })

/-- Has a call performed. -/
def perform (h : Host σ) (w : World σ) (call : DiskCall) : Except Refusal Unit × World σ :=
  match h.bridge with
  | none => (.error .noBridge, w)
  | some b =>
    match b.perform h.now call w.disk with
    | (.ok (.done _), d) => (.ok (), { w with disk := d })
    | (.ok (.failed message), d) =>
      (.error (.bridgeFailed call.operation message), { w with disk := d })
    | (.error e, d) =>
      (.error (if e.sort = .timeout then .bridgeTimedOut call.operation else .bridgeBroke e.text),
        { w with disk := d })

/-- Has calls performed in order, up to the first that fails. -/
def performAll (h : Host σ) (w : World σ) : List DiskCall → Except Refusal Unit × World σ
  | [] => (.ok (), w)
  | call :: rest =>
    match h.perform w call with
    | (.ok (), w) => h.performAll w rest
    | (.error r, w) => (.error r, w)

/-- Rebuilds the tree of a bound workspace from a new listing. -/
def resync (h : Host σ) (w : World σ) (carried : Workspace.Carried) :
    Except Refusal Unit × World σ :=
  match h.list w (w.space.boundRoot.getD "") with
  | (.ok entries, w) => (.ok (), { w with space := w.space.rebuilt entries carried h.now })
  | (.error r, w) => (.error r, w)

/-- Has a call performed, and rebuilds the tree when it succeeds. -/
def writeThrough (h : Host σ) (w : World σ) (call : DiskCall) (carried : Workspace.Carried) :
    Except Refusal Unit × World σ :=
  match h.perform w call with
  | (.ok (), w) => h.resync w carried
  | (.error r, w) => (.error r, w)

/-- Refuses to write a name of which the listing would leave out something. What is written is
`height` levels high below its top. -/
def checkListed (h : Host σ) (w : World σ) (directory : Node) (name : String) (height : Nat) :
    Except Refusal Unit :=
  match h.bridge with
  | none => .ok ()
  | some b =>
    let depth := (w.space.arena.namesTo directory.id).length + 1 + height
    if b.ignored.contains name then .error (.untrackedName name)
    else
      match b.maxDepth with
      | some limit => if depth ≤ limit then .ok () else .error (.belowDepth name limit)
      | none => .ok ()

end Host

namespace World

variable {σ : Type}

/-- Creates a file or a directory. The content is that of a file. -/
def create (h : Host σ) (w : World σ) (kind : NodeKind) (name : String) (parentId : NodeId)
    (content : String) : Outcome σ Node :=
  match w.space.checkCreate name parentId with
  | .error r => w.refuse r
  | .ok parent =>
    if w.space.boundRoot.isNone then
      let n := w.space.drawnNode kind name parent.id content h.now
      w.finish (w.space.added n parent.id h.now) n
    else
      match h.checkListed w parent name 0 with
      | .error r => w.refuse r
      | .ok () =>
        let call :=
          match kind with
          | .file => DiskCall.createFile (w.nodePath parent.id) name content
          | .directory => DiskCall.createDirectory (w.nodePath parent.id) name
        match h.writeThrough w call [] with
        | (.error r, w) => w.refuse r
        | (.ok (), w) =>
          match w.space.node? parentId with
          | none => (.error (.lost parentId), w)
          | some parent =>
            match w.space.arena.childNamed? parent name with
            | none => w.refuse (.notAppeared name "create")
            | some n => (.ok n, w)

/-- Follows the segments of a path from a directory and creates the directories that are missing. -/
def ensureBelow (h : Host σ) (w : World σ) : List String → NodeId → Outcome σ Node
  | [], id => w.answer id
  | segment :: rest, id =>
    match w.space.node? id with
    | none => (.error (.lost id), w)
    | some current =>
      if segment == "." then ensureBelow h w rest id
      else if segment == ".." then ensureBelow h w rest (current.parentId.getD id)
      else
        match w.space.arena.childNamed? current segment with
        | some child =>
          if child.isDirectory then ensureBelow h w rest child.id
          else w.refuse (.notDirectory (w.space.pathOf child.id))
        | none =>
          match w.create h .directory segment id "" with
          | (.ok n, w) => ensureBelow h w rest n.id
          | (.error e, w) => (.error e, w)

/-- Creates a directory with every directory above it that is missing. -/
def ensureDirectories (h : Host σ) (w : World σ) (path cwd : String) : Outcome σ Node :=
  if Text.isBlankText path then w.refuse .emptyPath
  else w.ensureBelow h (Path.segments (Path.absolute w.space.home path cwd)) rootId

/-- Deletes a node and everything below it. A directory that holds something is deleted only
recursively. -/
def delete (h : Host σ) (w : World σ) (id : NodeId) (recursive : Bool) : Outcome σ Unit :=
  match w.space.checkDelete id recursive with
  | .error r => w.refuse r
  | .ok n =>
    if w.space.boundRoot.isNone then
      w.finish (w.space.removed n (n.parentId.getD rootId) h.now) ()
    else
      let doomed := w.space.arena.subtreeIds n.id
      match h.writeThrough w (.delete (w.nodePath n.id)) [] with
      | (.error r, w) => w.refuse r
      | (.ok (), w) =>
        w.finish { w.space with tabs := (w.space.tabs.closeMany doomed).2 } ()

/-- Gives a node another name in its directory. -/
def relabel (h : Host σ) (w : World σ) (p : Workspace.Placement) : Outcome σ Unit :=
  if w.space.boundRoot.isNone then w.finish (w.space.renamed p h.now) ()
  else
    match h.checkListed w p.target p.name (w.space.arena.height p.node.id) with
    | .error r => w.refuse r
    | .ok () =>
      let place := w.placeIn p.target p.name
      match h.writeThrough w (.rename (w.nodePath p.node.id) (w.diskPath place))
          (w.space.carriedTo p.node.id place) with
      | (.error r, w) => w.refuse r
      | (.ok (), w) => (.ok (), w)

def mark (w : World σ) (id : NodeId) (changes : NodeUpdate) : Outcome σ Node :=
  match w.space.require id with
  | .error r => w.refuse r
  | .ok _ => { w with space := w.space.marked id changes }.answer id

/-- Changes the name and the marks of a node. -/
def update (h : Host σ) (w : World σ) (id : NodeId) (changes : NodeUpdate) : Outcome σ Node :=
  match w.space.checkUpdate id changes with
  | .error r => w.refuse r
  | .ok (_, none) => w.mark id changes
  | .ok (_, some p) =>
    match w.relabel h p with
    | (.ok (), w) => w.mark id changes
    | (.error e, w) => (.error e, w)

def rename (h : Host σ) (w : World σ) (id : NodeId) (name : String) : Outcome σ Node :=
  w.update h id { name := some name }

/-- Moves a node to a directory, under its own name or another. -/
def move (h : Host σ) (w : World σ) (id targetId : NodeId) (name : Option String) :
    Outcome σ Node :=
  match w.space.checkMove id targetId name with
  | .error r => w.refuse r
  | .ok p =>
    if p.isSame then (.ok p.node, w)
    else if w.space.boundRoot.isNone then
      { w with space := w.space.moved p (p.node.parentId.getD rootId) h.now }.answer id
    else
      match h.checkListed w p.target p.name (w.space.arena.height p.node.id) with
      | .error r => w.refuse r
      | .ok () =>
        let place := w.placeIn p.target p.name
        let old := w.nodePath p.node.id
        let call :=
          if some p.target.id == p.node.parentId then DiskCall.rename old (w.diskPath place)
          else DiskCall.move old (w.diskPath place)
        match h.writeThrough w call (w.space.carriedTo p.node.id place) with
        | (.error r, w) => w.refuse r
        | (.ok (), w) => w.answer id

/-- The calls that copy a subtree to a place of the disk, each node before its children. -/
def copyCalls (w : World σ) (p : Workspace.Placement) : List DiskCall :=
  (w.space.carriedTo p.node.id (w.placeIn p.target p.name)).filterMap fun (place, id) =>
    (w.space.node? id).map fun n =>
      let parent := w.diskPath place.dropLast
      let name := place.getLastD ""
      match n.kind with
      | .file => .createFile parent name n.content
      | .directory => .createDirectory parent name

/-- Copies a node with everything below it to a directory, under its own name or another. When the
disk refuses a part of the copy, the parts before it remain. -/
def copy (h : Host σ) (w : World σ) (id targetId : NodeId) (name : Option String) :
    Outcome σ Node :=
  match w.space.checkCopy id targetId name with
  | .error r => w.refuse r
  | .ok p =>
    if w.space.boundRoot.isNone then
      let top := Workspace.copyId w.space.drawn (w.space.arena.subtreeIds p.node.id) p.node.id
      { w with space := w.space.copied p h.now }.answer top
    else
      match h.checkListed w p.target p.name (w.space.arena.height p.node.id) with
      | .error r => w.refuse r
      | .ok () =>
        match h.performAll w (w.copyCalls p) with
        | (.error cause, w) =>
          match h.resync w [] with
          | (.error r, w) => w.refuse r
          | (.ok (), w) => w.refuse cause
        | (.ok (), w) =>
          match h.resync w [] with
          | (.error r, w) => w.refuse r
          | (.ok (), w) =>
            match w.space.node? targetId with
            | none => (.error (.lost targetId), w)
            | some target =>
              match w.space.arena.childNamed? target p.name with
              | none => w.refuse (.notAppeared p.name "copy")
              | some n => (.ok n, w)

/-- Replaces the content of a file. -/
def setContent (h : Host σ) (w : World σ) (id : NodeId) (content : String) : Outcome σ Node :=
  match w.space.requireFile id with
  | .error r => w.refuse r
  | .ok n =>
    if w.space.boundRoot.isNone then
      { w with space := w.space.refilled n.id content h.now }.answer id
    else
      match h.writeThrough w (.writeFile (w.nodePath n.id) content) [] with
      | (.error r, w) => w.refuse r
      | (.ok (), w) => w.answer id

/-- Sets the modification time of a node. A file on the disk is written anew with the content that
is known of it. -/
def touch (h : Host σ) (w : World σ) (id : NodeId) : Outcome σ Node :=
  match w.space.require id with
  | .error r => w.refuse r
  | .ok n =>
    if n.isFile && w.space.boundRoot.isSome then w.setContent h id n.content
    else { w with space := w.space.touched n.id h.now }.answer id

def openTab (w : World σ) (id : NodeId) : Outcome σ Node :=
  match w.space.openTab id with
  | .error r => w.refuse r
  | .ok (n, space) => w.finish space n

/-- Binds the workspace to a directory of the disk. Its tree and its tabs are given up, unless the
directory cannot be listed. -/
def bind (h : Host σ) (w : World σ) (root : String) : Outcome σ Node :=
  match h.list w root with
  | (.error r, w) => w.refuse r
  | (.ok entries, w) => { w with space := w.space.bound root entries h.now }.answer rootId

def unbind (w : World σ) : World σ := { w with space := w.space.unbound }

/-- Rebuilds the tree of a bound workspace. -/
def resync (h : Host σ) (w : World σ) : Outcome σ Node :=
  if w.space.boundRoot.isNone then w.refuse .notBound
  else
    match h.resync w [] with
    | (.error r, w) => w.refuse r
    | (.ok (), w) => w.answer rootId

end World

end Workbench
