import Workbench.Disk.Local
import Workbench.Seed
import Workbench.Service.Answer
import Workbench.Service.Demand

/-!
# The service

A workspace on the local file system with its repository and its terminals, as clients see it.
Every request is answered from the state at that time and leaves the state for the next one. A
question leaves everything as it is.
-/

namespace Workbench

structure Service where
  settings : Settings
  studio : Studio FileSystem
  /-- The file that keeps the terminals. -/
  storePath : Option String := none

namespace Service

def space (s : Service) : Workspace := s.studio.world.space

def desk (s : Service) : Desk := s.studio.desk

def files (s : Service) : FileSystem := s.studio.world.disk

def withWorld (s : Service) (w : World FileSystem) : Service :=
  { s with studio := { s.studio with world := w } }

def withSpace (s : Service) (x : Workspace) : Service :=
  s.withWorld { s.studio.world with space := x }

def withDesk (s : Service) (d : Desk) : Service := { s with studio := { s.studio with desk := d } }

def withFiles (s : Service) (fs : FileSystem) : Service :=
  s.withWorld { s.studio.world with disk := fs }

def hostAt (settings : Settings) (now : Timestamp) : Host FileSystem :=
  ⟨some (LocalDisk.bridge ⟨settings.bridgeMaxDepth, settings.bridgeMaxFileBytes⟩), now⟩

def host (s : Service) (now : Timestamp) : Host FileSystem := hostAt s.settings now

/-! ## Start and end -/

inductive StartFault where
  | notBound (root message : String)
  | lost (id : NodeId)
  | numberTooLong (fault : NumberTooLong)
  | store (fault : Store.Fault)
  deriving DecidableEq, Repr

def StartFault.message : StartFault → String
  | notBound root message => "Cannot bind workspace to " ++ root ++ ": " ++ message
  | lost id => lostText id
  | numberTooLong f => f.message
  | store f => f.message

/-- The world at the start: bound to a directory, or free with the demo tree or without. -/
def firstWorld (settings : Settings) (fs : FileSystem) (now : Timestamp) :
    Except StartFault (World FileSystem) :=
  match settings.boundRoot.filter fun r => !r.isEmpty with
  | none =>
    .ok ⟨if settings.seedDemoTree then Seed.planted settings.home now else .new settings.home now,
      fs⟩
  | some root =>
    match World.bind (hostAt settings now) ⟨.new settings.home now, fs⟩ root with
    | (.ok _, w) => .ok w
    | (.error (.refused cause), _) => .error (.notBound root cause.message)
    | (.error (.lost id), _) => .error (.lost id)

/-- A service at its start. The repository starts at the top of a bound workspace and at the home
directory of a free one. -/
def start (settings : Settings) (fs : FileSystem) (now : Timestamp) :
    Except StartFault Service := do
  let w ← firstWorld settings fs now
  let storePath := settings.terminalStorePath.filter fun p => !p.isEmpty
  let top := if w.space.boundRoot.isSome then "/" else settings.home
  let stored ← (Store.loadFrom fs storePath).mapError .store
  let desk ← (Desk.start settings w.space now {} stored).mapError .numberTooLong
  return ⟨settings, ⟨w, some (.new top settings.username), desk⟩, storePath⟩

def save (s : Service) : Except Store.Fault Unit × Service :=
  let (x, fs) := Store.save s.files s.storePath s.desk
  (x, s.withFiles fs)

/-- Ends a service: its terminals are saved, if there is a file for them, and shut down. -/
def shutdown (s : Service) : Except Store.Fault Service :=
  match if s.storePath.isSome then s.save else (.ok (), s) with
  | (.ok (), s) => .ok (s.withDesk s.desk.shutdown)
  | (.error f, _) => .error f

def settle (s : Service) (now : Timestamp) : Service :=
  { s with studio := s.studio.doJobs (s.host now) s.settings fun _ => true }

/-! ## Questions -/

def nodeAt (s : Service) (path cwd : String) : Except Problem Node :=
  match s.space.resolve? path cwd with
  | some n => .ok n
  | none => .error (.noSuchPath path)

def requireNode (s : Service) (id : NodeId) : Except Problem Node :=
  (s.space.require id).mapError .refused

def requireTerminal (s : Service) (id : String) : Except Problem Terminal :=
  (s.desk.get id).mapError .desk

def ask (s : Service) : Question → Except Problem Json
  | .outline => .ok (snapshotBody s.space)
  | .node path cwd => (s.nodeAt path cwd).map (nodeBody s.space)
  | .children path cwd => do
    let n ← s.nodeAt path cwd
    if n.isDirectory then return .arr ((s.space.childrenOf n.id).map (nodeBody s.space))
    else .error (.refused (.notDirectory path))
  | .content id => (s.requireNode id).map (contentBody s.space)
  | .flaws => (s.space.flaws.map flawsBody).mapError .unvisitable
  | .tabs => .ok (tabsBody s.space)
  | .terminals => .ok (deskBody s.settings s.desk)
  | .scrollback id => (s.requireTerminal id).map scrollbackBody
  | .entry id entryId => do
    let t ← s.requireTerminal id
    match t.entry? entryId with
    | some e => return e.toJson
    | none => .error (.noSuchEntry entryId)
  | .completions id text =>
    (s.requireTerminal id).map fun _ => .arr ((Terminal.suggestions text).map suggestionBody)

/-! ## Orders -/

abbrev Ending := Except Problem Answer × Service

def stop (s : Service) (p : Problem) : Ending := (.error p, s)

def done (s : Service) (body : Json) : Ending := (.ok ⟨200, body⟩, s)

def problemOf : Setback → Problem
  | .refused cause => .refused cause
  | .lost id => .lost id

def conclude {α : Type} (s : Service) (o : Outcome FileSystem α) (status : Nat)
    (body : Workspace → α → Json) : Ending :=
  match o with
  | (.ok a, w) => (.ok ⟨status, body w.space a⟩, s.withWorld w)
  | (.error e, w) => (.error (problemOf e), s.withWorld w)

def create (s : Service) (now : Timestamp) (kind : NodeKind) (name : String) (parent : Parent)
    (content : String) : Ending :=
  let parentId : Except Problem NodeId :=
    match parent with
    | .id id => .ok id
    | .path path => (s.nodeAt path "/").map Node.id
  match parentId with
  | .error p => s.stop p
  | .ok parentId =>
    s.conclude (s.studio.world.create (s.host now) kind name parentId content) 201 nodeBody

def delete (s : Service) (now : Timestamp) (id : NodeId) (recursive : Bool) : Ending :=
  let path := (s.space.pathOf? id).getD ""
  s.conclude (s.studio.world.delete (s.host now) id recursive) 200 fun _ _ =>
    statusBody "deleted" ("Deleted " ++ path)

def unbind (s : Service) : Ending :=
  let message :=
    match s.space.boundRoot with
    | some root => "Unbound from " ++ root
    | none => "Workspace was not bound"
  (s.withWorld s.studio.world.unbind).done (statusBody "unbound" message)

def openTerminal (s : Service) (shell : Option String) : Ending :=
  let (x, d) := s.desk.openTerminal s.settings s.space shell true
  let s := s.withDesk d
  match x.bind d.get with
  | .ok t => (.ok ⟨201, terminalBody s.settings t true true⟩, s)
  | .error e => s.stop (.desk e)

/-- Closes a terminal, unless it is the last. -/
def closeTerminal (s : Service) (id : String) : Ending :=
  match s.desk.close id with
  | .ok (true, d) =>
    (s.withDesk d).done (statusBody "closed" ("Closed terminal " ++ id))
  | .ok (false, _) => s.stop .lastTerminal
  | .error e => s.stop (.desk e)

def execute (s : Service) (now : Timestamp) (id : Option String) (line : String) : Ending :=
  let (x, studio) := s.studio.execute (s.host now) s.settings id line
  let s := { s with studio := studio }
  match x with
  | .ok (t, r) => s.done (resultBody s.settings t r)
  | .error e => s.stop (.desk e)

def carryOut (s : Service) (now : Timestamp) : Order → Ending
  | .create kind name parent content => s.create now kind name parent content
  | .update id changes => s.conclude (s.studio.world.update (s.host now) id changes) 200 nodeBody
  | .setContent id content =>
    s.conclude (s.studio.world.setContent (s.host now) id content) 200 nodeBody
  | .move id targetId name =>
    s.conclude (s.studio.world.move (s.host now) id targetId name) 200 nodeBody
  | .copy id targetId name =>
    s.conclude (s.studio.world.copy (s.host now) id targetId name) 201 nodeBody
  | .delete id recursive => s.delete now id recursive
  | .bind root => s.conclude (s.studio.world.bind (s.host now) root) 200 nodeBody
  | .unbind => s.unbind
  | .resync => s.conclude (s.studio.world.resync (s.host now)) 200 nodeBody
  | .openTab id => s.conclude (s.studio.world.openTab id) 200 fun x _ => tabsBody x
  | .closeTab id =>
    let s := s.withSpace (s.space.closeTab id).2
    s.done (tabsBody s.space)
  | .closeAllTabs =>
    let s := s.withSpace s.space.closeAllTabs
    s.done (tabsBody s.space)
  | .openTerminal shell => s.openTerminal shell
  | .closeTerminal id => s.closeTerminal id
  | .activate id =>
    match s.desk.activate id with
    | .ok d => (s.withDesk d).done (deskBody s.settings d)
    | .error e => s.stop (.desk e)
  | .split mode =>
    match s.desk.toggleSplit s.settings s.space mode with
    | (.ok _, d) => (s.withDesk d).done (deskBody s.settings d)
    | (.error e, d) => (s.withDesk d).stop (.desk e)
  | .execute id line => s.execute now id line
  | .clear id =>
    match s.requireTerminal id with
    | .ok t =>
      (s.withDesk (s.desk.put t.clear)).done (statusBody "cleared" ("Cleared terminal " ++ id))
    | .error p => s.stop p
  | .save =>
    match s.save with
    | (.ok (), s) =>
      s.done (statusBody "saved"
        ("Saved terminals to " ++ Disk.tidied (s.storePath.getD "")))
    | (.error f, s) => s.stop (.store f)

/-! ## Requests -/

def greeting : Json :=
  .obj [("message", .str "Welcome to the Virtual Workspace Shell API"), ("version", .str "0.1.0"),
    ("docs_url", .str "/docs")]

/-- The reading of what a request asks for. A path that leads nowhere, a method that the path does
not have and a body that is no value are problems before anything is read. -/
def demandOf (r : Request) : Except Problem (Form.Checked Demand) :=
  let routes := routesAt r.pieces
  match routes.find? fun x => x.method == r.method, routes with
  | none, [] => .error .unknownPath
  | none, _ :: _ => .error .wrongMethod
  | some route, _ =>
    match if route.hasBody then r.bodyValue else .ok none with
    | .ok body => .ok (route.read ⟨r.queryFields, body⟩)
    | .error (.malformed place) =>
      .error (.invalid [⟨["body", toString place], .malformed, .obj []⟩])
    | .error .unreadable => .error .unreadableBody
    | .error .loneHalf => .error .loneHalf

/-- The answer to a request while there is no workspace. -/
def respondClosed (r : Request) : Answer :=
  match demandOf r with
  | .error p => p.answer.sentTo r.method
  | .ok (.ok .greeting) => ⟨200, greeting⟩
  | .ok (.ok .health) => ⟨200, .obj [("status", .str "healthy")]⟩
  | .ok _ => Problem.closed.answer

/-- The answer to a request at a point in time, and the service that is left. -/
def respond (s : Service) (now : Timestamp) (r : Request) : Answer × Service :=
  match demandOf r with
  | .error p => (p.answer.sentTo r.method, s)
  | .ok (.bad issues) => ((Problem.invalid issues).answer, s)
  | .ok (.ok .greeting) => (⟨200, greeting⟩, s)
  | .ok (.ok .health) => (⟨200, .obj [("status", .str "healthy")]⟩, s)
  | .ok (.ok (.ask q)) =>
    match s.ask q with
    | .ok body => (⟨200, body⟩, s)
    | .error p => (p.answer, s)
  | .ok (.ok (.order o)) =>
    match s.carryOut now o with
    | (.ok a, s) => (a, s)
    | (.error p, s) => (p.answer, s)

end Service

end Workbench
