import Workbench.Terminal.Basic

/-!
# The terminals of a workspace

All terminals over one workspace, in the order in which they were opened. One of them is active,
and another may be shown beside it. There is always at least one terminal: the last one cannot be
closed. New terminals are numbered on.
-/

namespace Workbench

/-- How two terminals share the view. -/
inductive SplitMode where
  | horizontal
  | vertical
  deriving DecidableEq, Repr

namespace SplitMode

def text : SplitMode → String
  | horizontal => "horizontal"
  | vertical => "vertical"

def ofText? : String → Option SplitMode
  | "horizontal" => some horizontal
  | "vertical" => some vertical
  | _ => none

theorem ofText?_text (m : SplitMode) : ofText? m.text = some m := by cases m <;> rfl

end SplitMode

/-- A shared view: its mode, and the terminal beside the active one. There is none when it could
not be opened. -/
structure Split where
  mode : SplitMode
  partner : Option String
  deriving DecidableEq, Repr

structure Draws where
  terminals : Nat := 0
  entries : Nat := 0
  deriving DecidableEq, Repr

/-- The id that the `k`-th drawing gives to a terminal. -/
def drawnTerminalId (k : Nat) : String := "t" ++ toString k

structure Desk where
  table : Table String Terminal := .empty
  /-- The highest number that a terminal was named with. -/
  counter : Nat := 0
  activeId : String := ""
  split : Option Split := none
  draws : Draws := {}
  deriving DecidableEq

inductive DeskFault where
  | notFound (id : String)
  | shutDown (id : String)
  | unknownShell (name : String)
  | unknownMode (name : String)
  /-- The number of the next terminal is too long to be written. -/
  | numberTooLong
  | notStored
  deriving DecidableEq, Repr

def DeskFault.message : DeskFault → String
  | notFound id => "Terminal not found: " ++ id
  | shutDown id => "Terminal " ++ id ++ " is shut down"
  | unknownShell name => Shell.unknownText name
  | unknownMode name => Text.quoted name ++ " is not a valid SplitMode"
  | numberTooLong =>
    "Exceeds the limit (" ++ toString Text.digitLimit ++
      " digits) for integer string conversion; " ++
      "use sys.set_int_max_str_digits() to increase the limit"
  | notStored => "Terminal persistence is not configured"

namespace Desk

variable {σ : Type}

def get (d : Desk) (id : String) : Except DeskFault Terminal :=
  match d.table.get? id with
  | some t => .ok t
  | none => .error (.notFound id)

/-- The terminal with an id, or the active one. -/
def pick (d : Desk) (id : Option String) : Except DeskFault Terminal :=
  d.get ((id.filter fun i => !i.isEmpty).getD d.activeId)

def put (d : Desk) (t : Terminal) : Desk := { d with table := d.table.insert t.id t }

/-- The flavour that a word asks for; no word, or an empty one, asks for the default. -/
def shellFor (settings : Settings) (word : Option String) : Except DeskFault Shell :=
  match word.filter fun w => !w.isEmpty with
  | none => .ok settings.defaultShell
  | some w =>
    match Shell.ofText? w with
    | some shell => .ok shell
    | none => .error (.unknownShell w)

/-- The name of the next terminal. Its number may not be longer than a whole number in any text. -/
def nextName (d : Desk) : Except DeskFault String :=
  let number := toString (d.counter + 1)
  if Text.digitLimit < number.length then .error .numberTooLong
  else .ok ("Terminal " ++ number)

/-- Opens a terminal with the next number, and makes it active unless that is not wanted. An id is
drawn for it even when the flavour of its shell is unknown, but not when it cannot be named. -/
def openTerminal (d : Desk) (settings : Settings) (s : Workspace) (word : Option String)
    (activate : Bool) : Except DeskFault String × Desk :=
  match d.nextName with
  | .error e => (.error e, d)
  | .ok name =>
    let id := drawnTerminalId (d.draws.terminals + 1)
    let d := { d with draws := { d.draws with terminals := d.draws.terminals + 1 } }
    match shellFor settings word with
    | .error e => (.error e, d)
    | .ok shell =>
      let t := Terminal.new settings s id name shell ""
      (.ok id,
        { d.put t with
          counter := d.counter + 1
          activeId := if activate || d.table.size == 0 then id else d.activeId })

/-- The desk of a new workspace, with one terminal. -/
def new (settings : Settings) (s : Workspace) (draws : Draws) : Desk :=
  (openTerminal { draws := draws } settings s none true).2

/-- Closes a terminal. The first that is left becomes active if the active one is closed, and the
view is no longer shared if its partner is closed or becomes active. Whether the terminal was
closed is returned. -/
def close (d : Desk) (id : String) : Except DeskFault (Bool × Desk) := do
  let _ ← d.get id
  if d.table.size == 1 then return (false, d)
  let table := d.table.erase id
  let activeId := if d.activeId == id then table.keys.headD "" else d.activeId
  let split := d.split.filter fun x => x.partner != some id && x.partner != some activeId
  return (true, { d with table := table, activeId := activeId, split := split })

/-- Makes a terminal active. If it is the partner of a shared view, the two change places. -/
def activate (d : Desk) (id : String) : Except DeskFault Desk := do
  let _ ← d.get id
  let split := d.split.map fun x =>
    if x.partner == some id then { x with partner := some d.activeId } else x
  return { d with activeId := id, split := split }

/-- A partner for a shared view: the one that it has, or else the first terminal that is not
active. -/
def partner? (d : Desk) : Option String :=
  match (d.split.bind Split.partner).filter fun p => d.table.contains p && p != d.activeId with
  | some p => some p
  | none => d.table.keys.find? fun i => i != d.activeId

/-- Shares the view in a mode, or ends that when the mode is the same as before. A terminal is
opened when there is none to share with; if it cannot be, the mode is kept without a partner. The
partner is returned. -/
def toggleSplit (d : Desk) (settings : Settings) (s : Workspace) (mode : SplitMode) :
    Except DeskFault (Option String) × Desk :=
  if d.split.any fun x => x.mode == mode then (.ok none, { d with split := none })
  else
    match d.partner? with
    | some p => (.ok (some p), { d with split := some ⟨mode, some p⟩ })
    | none =>
      match d.openTerminal settings s none false with
      | (.ok p, d) => (.ok (some p), { d with split := some ⟨mode, some p⟩ })
      | (.error e, d) => (.error e, { d with split := some ⟨mode, none⟩ })

def visible (d : Desk) : List String :=
  d.activeId :: ((d.split.bind Split.partner).filter d.table.contains).toList

def shutdown (d : Desk) : Desk := { d with table := d.table.mapValues Terminal.shutdown }

end Desk

/-! ## The workspace with its terminals -/

/-- A workspace on a disk, the repository over it, and its terminals. -/
structure Studio (σ : Type) where
  world : World σ
  repository : Option Repository
  desk : Desk

namespace Studio

variable {σ : Type}

def execute (b : Studio σ) (h : Host σ) (settings : Settings) (id : Option String)
    (line : String) : Except DeskFault (Terminal × LineResult) × Studio σ :=
  match b.desk.pick id with
  | .error e => (.error e, b)
  | .ok t =>
    if t.closed then (.error (.shutDown t.id), b)
    else
      let x := t.execute ⟨h, settings, b.repository.isSome⟩ b.world b.desk.draws.entries line
      let desk := b.desk.put x.terminal
      (.ok (x.terminal, x.result),
        { b with
          world := x.world
          desk := { desk with draws := { desk.draws with entries := x.drawn } } })

/-- Does a job, and adds what it says to its entry. -/
def doJob (b : Studio σ) (h : Host σ) (settings : Settings) (terminalId entryId : String)
    (job : Job) : Studio σ :=
  let finish (b : Studio σ) (a : Reply) : Studio σ :=
    { b with
      desk := { b.desk with table := b.desk.table.modify terminalId (·.complete entryId a) } }
  match job, b.repository with
  | .ai task, _ =>
    finish b (if settings.canWait then .ok task.summary else .stopped Settings.waitTooLongText)
  | .git verb args, some r =>
    let (a, w, r) := Versioning.run h b.world r verb args
    finish { b with world := w, repository := some r } a
  | .git .., none => finish b (.error Versioning.unavailable)

def isPrompt (settings : Settings) : Job → Bool
  | .ai _ => !(0.0 < settings.aiDelay) || !settings.canWait
  | .git .. => true

/-- Does the outstanding jobs of every terminal that pass a test, in the order in which the
terminals were opened. -/
def doJobs (b : Studio σ) (h : Host σ) (settings : Settings) (test : Job → Bool) : Studio σ :=
  let jobs := b.desk.table.entries.flatMap fun (terminalId, t) =>
    (t.pending.entries.filter fun e => test e.2).map fun (entryId, job) =>
      (terminalId, entryId, job)
  jobs.foldl (fun b (terminalId, entryId, job) => b.doJob h settings terminalId entryId job) b

end Studio

end Workbench
