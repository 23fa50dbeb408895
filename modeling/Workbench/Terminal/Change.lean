import Workbench.Terminal.Scene
import Workbench.Workspace.Operation

/-!
# Commands that change the tree

Commands that take several operands work through them in order and go on after one that fails;
what is said about each comes on a line of its own. A command is broken off only when a node that
it needs is lost from the rebuilt tree.
-/

namespace Workbench.Change

variable {σ : Type}

structure Stage (σ : Type) where
  host : Host σ
  scene : Scene

/-- The end of a command: its reply, or the node that it has lost. -/
abbrev Ending (σ : Type) := Except NodeId Reply × World σ

/-- The scene with the tree as it is in a world. -/
def Stage.sceneIn (t : Stage σ) (w : World σ) : Scene := { t.scene with space := w.space }

/-- The end of what is done about one operand: what is said, or the lost node. -/
abbrev Turnout (σ : Type) := Except NodeId (List Reply) × World σ

def said (w : World σ) (replies : List Reply) : Turnout σ := (.ok replies, w)

def sayOf {α : Type} (o : Outcome σ α) (onOk : List Reply) (onRefusal : Refusal → String) :
    Turnout σ :=
  match o with
  | (.ok _, w) => said w onOk
  | (.error (.refused cause), w) => said w [.error (onRefusal cause)]
  | (.error (.lost id), w) => (.error id, w)

/-- Works through operands in order. -/
def each (f : World σ → String → Turnout σ) : World σ → List String → Turnout σ
  | w, [] => said w []
  | w, a :: rest =>
    match f w a with
    | (.error id, w) => (.error id, w)
    | (.ok replies, w) =>
      match each f w rest with
      | (.error id, w) => (.error id, w)
      | (.ok more, w) => (.ok (replies ++ more), w)

/-- One reply from what is said about the operands. -/
def together (o : Turnout σ) : Ending σ :=
  (o.1.map fun replies =>
    ⟨"\n".intercalate (replies.map Reply.output), replies.any Reply.isError⟩, o.2)

/-! ## Creating -/

def mkdirRefusal (path : String) (cause : Refusal) : String :=
  "mkdir: cannot create directory '" ++ path ++ "': " ++
    if cause.kind = .alreadyExists then "File exists" else cause.message

def mkdirOne (t : Stage σ) (parents : Bool) (w : World σ) (path : String) : Turnout σ :=
  let c := t.sceneIn w
  let done := [Reply.ok ("Created directory: " ++ path)]
  if parents then
    match (c.resolve? path).filter Node.isDirectory with
    | some _ => said w []
    | none => sayOf (w.ensureDirectories t.host path c.cwd) done (mkdirRefusal path)
  else
    let (parent, name) := Arguments.splitPath path
    match (c.resolve? parent).filter Node.isDirectory with
    | none =>
      said w
        [.error ("mkdir: cannot create directory '" ++ path ++ "': No such file or directory")]
    | some d => sayOf (w.create t.host .directory name d.id "") done (mkdirRefusal path)

def mkdir (t : Stage σ) (w : World σ) (args : List String) : Ending σ :=
  match Arguments.operands args with
  | [] => (.ok (.error "Usage: mkdir [-p] <directory_name> [...]"), w)
  | paths => together (each (mkdirOne t (Arguments.hasFlag args 'p')) w paths)

def touchRefusal (path reason : String) : String :=
  "touch: cannot touch '" ++ path ++ "': " ++ reason

def touchOne (t : Stage σ) (w : World σ) (path : String) : Turnout σ :=
  let c := t.sceneIn w
  let refused (cause : Refusal) : String := touchRefusal path cause.message
  match c.resolve? path with
  | some n => sayOf (w.touch t.host n.id) [] refused
  | none =>
    let (parent, name) := Arguments.splitPath path
    match (c.resolve? parent).filter Node.isDirectory with
    | none => said w [.error (touchRefusal path "No such file or directory")]
    | some d =>
      sayOf (w.create t.host .file name d.id "") [.ok ("Created file: " ++ path)] refused

def touch (t : Stage σ) (w : World σ) (args : List String) : Ending σ :=
  if args.isEmpty then (.ok (.error "Usage: touch <filename> [...]"), w)
  else together (each (touchOne t) w args)

/-! ## Removing -/

def rmRefusal (path reason : String) : String := "rm: cannot remove '" ++ path ++ "': " ++ reason

def rmOne (t : Stage σ) (recursive force : Bool) (w : World σ) (path : String) : Turnout σ :=
  match (t.sceneIn w).resolve? path with
  | none =>
    said w (if force then [] else [.error (rmRefusal path "No such file or directory")])
  | some n =>
    if n.id == rootId then
      said w [.error ("rm: it is dangerous to operate recursively on '" ++ path ++ "'")]
    else if n.isDirectory && !recursive then
      said w [.error (rmRefusal path
        (if n.children.isEmpty then "Is a directory" else "Directory not empty"))]
    else
      sayOf (w.delete t.host n.id recursive) [.ok ("Removed: " ++ path)]
        fun cause => rmRefusal path cause.message

def rm (t : Stage σ) (w : World σ) (args : List String) : Ending σ :=
  let force := Arguments.hasFlag args 'f'
  match Arguments.operands args with
  | [] => (.ok (if force then {} else .error "Usage: rm <file> or rm -r <directory>"), w)
  | paths =>
    let recursive := Arguments.hasFlag args 'r' || Arguments.hasFlag args 'R'
    together (each (rmOne t recursive force) w paths)

def rmdirRefusal (path reason : String) : String :=
  "rmdir: failed to remove '" ++ path ++ "': " ++ reason

def rmdirOne (t : Stage σ) (w : World σ) (path : String) : Turnout σ :=
  let fail (reason : String) : Turnout σ := said w [.error (rmdirRefusal path reason)]
  match (t.sceneIn w).resolve? path with
  | none => fail "No such file or directory"
  | some n =>
    if n.isFile then fail "Not a directory"
    else if !n.children.isEmpty then fail "Directory not empty"
    else if n.id == rootId then fail "Device or resource busy"
    else
      sayOf (w.delete t.host n.id false) [.ok ("Removed directory: " ++ path)]
        fun cause => rmdirRefusal path cause.message

def rmdir (t : Stage σ) (w : World σ) (args : List String) : Ending σ :=
  if args.isEmpty then (.ok (.error "Usage: rmdir <directory_name> [...]"), w)
  else together (each (rmdirOne t) w args)

/-! ## Copying and moving -/

/-- The reply of an operation of which nothing is said when it succeeds. -/
def silent {α : Type} (o : Outcome σ α) (onRefusal : Refusal → String) : Ending σ :=
  together (sayOf o [] onRefusal)

/-- Copies a node to its destination. A file that is there already takes over the content. -/
def cpTo (t : Stage σ) (w : World σ) (source parent : Node) (name here there : String) : Ending σ :=
  let refused (cause : Refusal) : String :=
    "cp: cannot copy '" ++ here ++ "' to '" ++ there ++ "': " ++ cause.message
  match w.space.resolve? name (w.space.pathOf parent.id) with
  | none => silent (w.copy t.host source.id parent.id (some name)) refused
  | some existing =>
    if existing.id == source.id then
      (.ok (.error ("cp: '" ++ here ++ "' and '" ++ there ++ "' are the same file")), w)
    else if existing.isFile && source.isFile then
      silent (w.setContent t.host existing.id source.content) refused
    else silent (w.copy t.host source.id parent.id (some name)) refused

def cp (t : Stage σ) (w : World σ) (args : List String) : Ending σ :=
  let c := t.sceneIn w
  match Arguments.operands args with
  | [here, there] =>
    match c.resolve? here with
    | none => (.ok (.error ("cp: cannot stat '" ++ here ++ "': No such file or directory")), w)
    | some source =>
      if source.isDirectory && !(Arguments.hasFlag args 'r' || Arguments.hasFlag args 'R') then
        (.ok (.error ("cp: -r not specified; omitting directory '" ++ here ++ "'")), w)
      else
        match c.destination? source there with
        | none =>
          (.ok (.error ("cp: cannot create '" ++ there ++ "': No such file or directory")), w)
        | some (parent, name) => cpTo t w source parent name here there
  | _ => (.ok (.error "Usage: cp [-r] <source> <destination>"), w)

/-- Moves a file or a directory, or gives it another name. -/
def mv (t : Stage σ) (w : World σ) (args : List String) : Ending σ :=
  let c := t.sceneIn w
  match Arguments.operands args with
  | [here, there] =>
    match c.resolve? here with
    | none => (.ok (.error ("mv: cannot stat '" ++ here ++ "': No such file or directory")), w)
    | some source =>
      let cannot := "mv: cannot move '" ++ here ++ "' to "
      match c.destination? source there with
      | none => (.ok (.error (cannot ++ "'" ++ there ++ "': No such file or directory")), w)
      | some (parent, name) =>
        if source.isDirectory &&
            Path.isAtOrBelow (w.space.pathOf parent.id) (w.space.pathOf source.id) then
          (.ok (.error (cannot ++ "a subdirectory of itself, '" ++ there ++ "'")), w)
        else
          silent (w.move t.host source.id parent.id (some name))
            fun cause => cannot ++ "'" ++ there ++ "': " ++ cause.message
  | _ => (.ok (.error "Usage: mv <source> <destination>"), w)

end Workbench.Change
