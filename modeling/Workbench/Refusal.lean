import Workbench.Text.Quoted

/-!
# Refusals

Why an operation on the workspace is not carried out. Every cause belongs to one kind, by which
callers tell failures apart, and has one message, which can be shown as it is.
-/

namespace Workbench

inductive RefusalKind where
  | notFound
  | noSuchParent
  | alreadyExists
  | notEmpty
  | notADirectory
  | isADirectory
  | invalidMove
  | invalidName
  | invalidOperation
  | bridgeUnavailable
  | bridgeFailure
  | timeout
  deriving DecidableEq, Repr

def RefusalKind.text : RefusalKind → String
  | notFound => "not_found"
  | noSuchParent => "no_such_parent"
  | alreadyExists => "already_exists"
  | notEmpty => "not_empty"
  | notADirectory => "not_a_directory"
  | isADirectory => "is_a_directory"
  | invalidMove => "invalid_move"
  | invalidName => "invalid_name"
  | invalidOperation => "invalid_operation"
  | bridgeUnavailable => "bridge_unavailable"
  | bridgeFailure => "bridge_failure"
  | timeout => "timeout"

/-- Why an operation is not carried out. Paths and names are those of the nodes concerned. -/
inductive Refusal where
  | noSuchNode (id : String)
  | noSuchDirectory (id : String)
  | nameTaken (name path : String)
  | emptyPath
  | notDirectory (path : String)
  | isDirectory (path : String)
  | directoryNotEmpty (path : String)
  | rootDeleted
  | rootRenamed
  | rootMoved
  | rootCopied
  | movedIntoItself (path : String)
  | copiedIntoItself (path : String)
  | destinationTaken (name path : String)
  | badName (name : String)
  | untrackedName (name : String)
  | belowDepth (name : String) (depth : Int)
  | notBound
  | noBridge
  | bridgeFailed (operation : String) (message : Option String)
  | bridgeTimedOut (operation : String)
  | bridgeBroke (text : String)
  | listingTimedOut (root : String)
  | listingBroke (root text : String)
  | notAppeared (name activity : String)
  deriving DecidableEq, Repr

namespace Refusal

def kind : Refusal → RefusalKind
  | noSuchNode _ => .notFound
  | noSuchDirectory _ => .noSuchParent
  | nameTaken .. => .alreadyExists
  | emptyPath | badName _ | untrackedName _ => .invalidName
  | notDirectory _ => .notADirectory
  | isDirectory _ => .isADirectory
  | directoryNotEmpty _ => .notEmpty
  | rootDeleted | rootRenamed | belowDepth .. | notBound => .invalidOperation
  | rootMoved | rootCopied | movedIntoItself _ | copiedIntoItself _ | destinationTaken .. =>
    .invalidMove
  | noBridge | bridgeBroke _ | listingBroke .. => .bridgeUnavailable
  | bridgeFailed .. | notAppeared .. => .bridgeFailure
  | bridgeTimedOut _ | listingTimedOut _ => .timeout

def named (name : String) : String := "'" ++ name ++ "'"

/-- The message of a cause. A bridge that fails without a message is reported by its operation. -/
def message : Refusal → String
  | noSuchNode id => "No such node: " ++ id
  | noSuchDirectory id => "No such directory: " ++ id
  | nameTaken name path | destinationTaken name path => named name ++ " already exists in " ++ path
  | emptyPath => "Empty path"
  | notDirectory path => path ++ ": Not a directory"
  | isDirectory path => path ++ ": Is a directory"
  | directoryNotEmpty path => path ++ ": Directory not empty"
  | rootDeleted => "Cannot delete the root directory"
  | rootRenamed => "Cannot rename the root directory"
  | rootMoved => "Cannot move the root directory"
  | rootCopied => "Cannot copy the root directory"
  | movedIntoItself path => "Cannot move " ++ named path ++ " into itself or one of its descendants"
  | copiedIntoItself path => "Cannot copy " ++ named path ++ " into itself"
  | badName name => "Invalid name: " ++ named name
  | untrackedName name => named name ++ " is not tracked in a disk-bound workspace"
  | belowDepth name depth =>
    named name ++ " would lie below the enumerated depth (" ++ toString depth ++
      ") of the bound directory"
  | notBound => "Workspace is not bound to a disk root"
  | noBridge => "No disk bridge is configured"
  | bridgeFailed operation message =>
    match message with
    | some text => if text.isEmpty then operation ++ " failed" else text
    | none => operation ++ " failed"
  | bridgeTimedOut operation => "Disk bridge timed out during " ++ operation
  | bridgeBroke text => "Disk bridge unavailable: " ++ text
  | listingTimedOut root => "Disk bridge timed out listing " ++ root
  | listingBroke root text => "Cannot read " ++ root ++ ": " ++ text
  | notAppeared name activity => named name ++ " did not appear on disk after " ++ activity

end Refusal

inductive Setback where
  | refused (cause : Refusal)
  /-- A node that the operation still needs is gone from the rebuilt tree. -/
  | lost (id : String)
  deriving DecidableEq, Repr

/-- What an operation without a result shows of a lost node. -/
def lostText (id : String) : String := Text.quoted id

end Workbench
