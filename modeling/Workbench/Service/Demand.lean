import Workbench.Form.Records
import Workbench.Service.Request
import Workbench.Terminal.Desk

/-!
# Demands

What requests ask for, with all that is needed to answer them. Questions only look at the
workspace and its terminals; orders change them. A route leads from a method at a path to the
reading of a demand. Paths are told apart by their pieces; a piece that stands for an id may be
anything that is not empty.
-/

namespace Workbench.Service

open Form (Checked required optional nullable)

inductive Parent where
  | id (id : NodeId)
  | path (path : String)
  deriving DecidableEq, Repr

inductive Question where
  | outline
  | node (path cwd : String)
  | children (path cwd : String)
  | content (id : NodeId)
  | flaws
  | tabs
  | terminals
  | scrollback (terminalId : String)
  | entry (terminalId entryId : String)
  | completions (terminalId text : String)
  deriving DecidableEq, Repr

inductive Order where
  | create (kind : NodeKind) (name : String) (parent : Parent) (content : String)
  | update (id : NodeId) (changes : NodeUpdate)
  | setContent (id : NodeId) (content : String)
  | move (id targetId : NodeId) (name : Option String)
  | copy (id targetId : NodeId) (name : Option String)
  | delete (id : NodeId) (recursive : Bool)
  | bind (root : String)
  | unbind
  | resync
  | openTab (id : NodeId)
  | closeTab (id : NodeId)
  | closeAllTabs
  | openTerminal (shell : Option String)
  | closeTerminal (id : String)
  | activate (id : String)
  | split (mode : SplitMode)
  | execute (id : Option String) (line : String)
  | clear (id : String)
  | save
  deriving DecidableEq, Repr

/-- What a request asks for. The greeting and the sign of life need no workspace. -/
inductive Demand where
  | greeting
  | health
  | ask (question : Question)
  | order (order : Order)
  deriving DecidableEq, Repr

/-! ## Reading demands -/

structure Sources where
  query : List (String × Json)
  body : Option Json

def plain (d : Demand) (_ : Sources) : Checked Demand := .ok d

def fromQuery (read : List (String × Json) → Checked Demand) (x : Sources) : Checked Demand :=
  (read x.query).under "query"

/-- An order whose fields are read from the body, which has to be an object. -/
def fromBody (read : List (String × Json) → Checked Order) (x : Sources) : Checked Demand :=
  Checked.under "body" <|
    match x.body with
    | none => .fault .missing .null
    | some (.obj fields) => .order <$> read fields
    | some v => .fault .notObject v

structure Creation where
  kind : NodeKind
  name : String
  parentId : Option NodeId
  parentPath : Option String
  content : String

/-- The order to create a node. Its directory has to be given in exactly one way among fields. -/
def Creation.order (fields : List (String × Json)) (c : Creation) : Checked Order :=
  match c.parentId, c.parentPath with
  | some id, none => .ok (.create c.kind c.name (.id id) c.content)
  | none, some path => .ok (.create c.kind c.name (.path path) c.content)
  | _, _ => .fault (.rule "Provide exactly one of parent_id or parent_path") (.obj fields)

def readCreation (fields : List (String × Json)) : Checked Order :=
  Checked.andThen
    (Creation.mk
      <$> required fields "kind" (Form.choice NodeKind.ofText?)
      <*> required fields "name" (Form.textFrom 1)
      <*> optional fields "parent_id" none (nullable Form.text)
      <*> optional fields "parent_path" none (nullable Form.text)
      <*> optional fields "content" "" Form.text)
    (Creation.order fields)

def readRelocation (f : NodeId → Option String → Order) (fields : List (String × Json)) :
    Checked Order :=
  f <$> required fields "parent_id" Form.text <*> optional fields "name" none (nullable Form.text)

/-- Reads the path of a node and the working directory from which it is seen. -/
def readPlace (f : String → String → Question) (path : Checked String)
    (fields : List (String × Json)) : Checked Demand :=
  (fun path cwd => .ask (f path cwd)) <$> path <*> optional fields "cwd" "/" Form.text

def lineLimit : Nat := 10000

def readLine (id : Option String) (fields : List (String × Json)) : Checked Order :=
  .execute id <$> required fields "command" (Form.textUpTo lineLimit)

/-! ## Routes -/

/-- What leads from a method at a path to a demand. -/
structure Route where
  method : Method
  hasBody : Bool
  read : Sources → Checked Demand

def asks (q : Question) : Route := ⟨.get, false, plain (.ask q)⟩

def asksWith (read : List (String × Json) → Checked Demand) : Route :=
  ⟨.get, false, fromQuery read⟩

def posts (o : Order) : Route := ⟨.post, false, plain (.order o)⟩

def sends (method : Method) (read : List (String × Json) → Checked Order) : Route :=
  ⟨method, true, fromBody read⟩

def treeRoutes : List String → List Route
  | ["tree"] => [asks .outline]
  | ["resolve"] => [asksWith fun q => readPlace .node (required q "path" Form.text) q]
  | ["children"] => [asksWith fun q => readPlace .children (optional q "path" "/" Form.text) q]
  | ["nodes"] => [sends .post readCreation]
  | ["nodes", id] =>
    [asks (.content id),
      sends .patch fun b => .update id <$> NodeUpdate.ofFields b,
      ⟨.delete, false, fromQuery fun q =>
        (fun r => .order (.delete id r)) <$> optional q "recursive" false Form.truth⟩]
  | ["nodes", id, "content"] =>
    [sends .put fun b => .setContent id <$> required b "content" Form.text]
  | ["nodes", id, "move"] => [sends .post (readRelocation (.move id))]
  | ["nodes", id, "copy"] => [sends .post (readRelocation (.copy id))]
  | ["bind"] => [sends .post fun b => .bind <$> required b "root_path" (Form.textFrom 1)]
  | ["unbind"] => [posts .unbind]
  | ["resync"] => [posts .resync]
  | ["validate"] => [asks .flaws]
  | _ => []

def tabRoutes : List String → List Route
  | [] => [asks .tabs]
  | ["open"] => [sends .post fun b => .openTab <$> required b "node_id" Form.text]
  | ["close-all"] => [posts .closeAllTabs]
  | [id, "close"] => [posts (.closeTab id)]
  | _ => []

/-- The routes to the terminals. A word that is itself a path may still be the id of a terminal
that is to be closed. -/
def terminalRoutes : List String → List Route
  | [] =>
    [asks .terminals,
      sends .post fun b => .openTerminal <$> optional b "shell" none (nullable Form.text)]
  | [word] =>
    ⟨.delete, false, plain (.order (.closeTerminal word))⟩ ::
      match word with
      | "split" =>
        [sends .post fun b => .split <$> required b "mode" (Form.choice SplitMode.ofText?)]
      | "execute" => [sends .post (readLine none)]
      | "save" => [posts .save]
      | _ => []
  | [id, "activate"] => [posts (.activate id)]
  | [id, "execute"] => [sends .post (readLine (some id))]
  | [id, "scrollback"] => [asks (.scrollback id)]
  | [id, "entries", entryId] => [asks (.entry id entryId)]
  | [id, "clear"] => [posts (.clear id)]
  | [id, "complete"] =>
    [asksWith fun q => (fun t => .ask (.completions id t)) <$> optional q "text" "" Form.text]
  | _ => []

/-- The routes at a path, every character of which counts. -/
def exactRoutes (pieces : List String) : List Route :=
  if pieces == [] || pieces == [""] then [⟨.get, false, plain .greeting⟩]
  else if pieces.contains "" then []
  else
    match pieces with
    | ["health"] => [⟨.get, false, plain .health⟩]
    | "fs" :: rest => treeRoutes rest
    | "tabs" :: rest => tabRoutes rest
    | "terminals" :: rest => terminalRoutes rest
    | _ => []

/-- Pieces without the line end at the very end, if there is one. -/
def withoutLineEnd? (pieces : List String) : Option (List String) :=
  pieces.getLast?.bind fun last =>
    match last.toList.reverse with
    | '\n' :: rest => some (pieces.dropLast ++ [.ofList rest.reverse])
    | _ => none

/-- The routes at a path. A line end at the very end of a path need not count, but where it is part
of an id the routes with that id come first. -/
def routesAt (pieces : List String) : List Route :=
  exactRoutes pieces ++ ((withoutLineEnd? pieces).map exactRoutes).getD []

end Workbench.Service
