import Workbench.Terminal.Change
import Workbench.Terminal.Look
import Workbench.Terminal.Versioning

/-!
# Terminals

A terminal is a shell session of its own over the shared workspace: a working directory, a command
history and a scrollback. Executing a line records one entry in the scrollback. Some commands
leave a job behind that adds to their entry later; the entry is pending until then. Shutting a
terminal down cancels the jobs that are still outstanding.
-/

namespace Workbench

inductive Job where
  | ai (task : AiTask)
  | git (verb : GitVerb) (args : List String)
  deriving DecidableEq, Repr

/-- One line that was executed, with what was said. -/
structure ScrollbackEntry where
  entryId : String
  command : String
  output : String := ""
  isError : Bool := false
  timestamp : Timestamp
  /-- Whether a job will still add to the output. -/
  pending : Bool := false
  deriving DecidableEq, Repr

/-- An entry to whose output a job adds what it says. -/
def ScrollbackEntry.completed (e : ScrollbackEntry) (a : Reply) : ScrollbackEntry :=
  { e with output := e.output ++ a.output, isError := e.isError || a.isError, pending := false }

structure Terminal where
  id : String
  name : String
  shell : Shell
  cwd : String
  history : History
  scrollback : List ScrollbackEntry := []
  /-- The outstanding jobs under the ids of their entries. -/
  pending : Table String Job := .empty
  closed : Bool := false
  deriving DecidableEq

/-- The id that the `k`-th drawing gives to a scrollback entry. -/
def drawnEntryId (k : Nat) : String := "e" ++ toString k

structure LineResult where
  output : String := ""
  isError : Bool := false
  /-- The entry that the output belongs to, if one was recorded. -/
  entryId : Option String := none
  pending : Bool := false
  deriving DecidableEq, Repr

/-! ## The working directory -/

/-- A path without its last segments, the longest first, down to the root. -/
def shorterPaths (path : String) : List String :=
  let parts := Path.segments path
  (List.range parts.length).reverse.map fun k => Path.ofNames (parts.take k)

/-- The path of the directory that a working directory names, or else of the nearest one above
that exists. -/
def Workspace.settle (s : Workspace) (cwd : String) : String :=
  match (s.resolve? cwd "/").filter Node.isDirectory with
  | some n => s.pathOf n.id
  | none =>
    ((shorterPaths cwd).find? fun p => ((s.resolve? p "/").filter Node.isDirectory).isSome).getD "/"

namespace Terminal

variable {σ : Type}

/-- A new terminal. An empty working directory stands for the home directory. -/
def new (settings : Settings) (s : Workspace) (id name : String) (shell : Shell) (cwd : String) :
    Terminal :=
  { id := id
    name := name
    shell := shell
    cwd := s.settle (if cwd.isEmpty then settings.home else cwd)
    history := { limit := settings.historyLimit } }

/-- The prompt. The home directory is shown as a tilde. -/
def prompt (t : Terminal) (settings : Settings) : String :=
  let home := settings.home
  let place :=
    if t.cwd == home || Text.startsWith t.cwd (home ++ "/") then
      "~" ++ Text.dropChars t.cwd home.length
    else t.cwd
  settings.username ++ "@workspace:" ++ place ++ " " ++ t.shell.promptMark

def hasPending (t : Terminal) : Bool := t.pending.size != 0

def entry? (t : Terminal) (entryId : String) : Option ScrollbackEntry :=
  t.scrollback.find? fun e => e.entryId == entryId

def clear (t : Terminal) : Terminal := { t with scrollback := [] }

def modifyFirst (entryId : String) (f : ScrollbackEntry → ScrollbackEntry) :
    List ScrollbackEntry → List ScrollbackEntry
  | [] => []
  | e :: rest => if e.entryId == entryId then f e :: rest else e :: modifyFirst entryId f rest

/-- Takes a job as done: its entry, if it is still there, takes over what the job says. -/
def complete (t : Terminal) (entryId : String) (a : Reply) : Terminal :=
  { t with
    scrollback := modifyFirst entryId (·.completed a) t.scrollback
    pending := t.pending.erase entryId }

def cancelled : Reply := .error "⚠️ Cancelled"

/-- Shuts a terminal down. Its outstanding jobs are cancelled. -/
def shutdown (t : Terminal) : Terminal :=
  { t.pending.keys.foldl (fun t entryId => t.complete entryId cancelled) t with closed := true }

def historyPrevious (t : Terminal) : Option String × Terminal :=
  let (line, history) := t.history.previous
  (line, { t with history := history })

def historyNext (t : Terminal) : Option String × Terminal :=
  let (line, history) := t.history.next
  (line, { t with history := history })

/-- The commands whose names go on from the first word of a text, unless arguments are being
typed. -/
def suggestions (text : String) : List Command :=
  if !Text.isBlankText text && (1 < (Text.words text).length || Text.endsWith text " ") then []
  else Command.all.filter fun c => Text.startsWith c.text (Text.lower (Text.strip text))

def accepted (command : String) : String := command ++ " "

/-! ## Executing a line -/

structure Turn (σ : Type) where
  reply : Reply
  world : World σ
  cwd : String
  shell : Shell
  /-- Whether the scrollback is to be emptied. -/
  clears : Bool := false
  job : Option Job := none

/-- What a terminal has at hand when it executes a line. -/
structure Bench (σ : Type) where
  host : Host σ
  settings : Settings
  hasGit : Bool

def scene (t : Terminal) (b : Bench σ) (w : World σ) : Scene :=
  { space := w.space, settings := b.settings, history := t.history, cwd := t.cwd,
    shell := t.shell, now := b.host.now }

def cd (c : Scene) (args : List String) : Reply × String :=
  let target := args.headD "~"
  match (c.resolve? target).filter Node.isDirectory with
  | some n => ({}, c.space.pathOf n.id)
  | none => (.error ("cd: " ++ target ++ ": No such directory"), c.cwd)

def switchShell (c : Scene) : List String → Reply × Shell
  | [] =>
    (.ok ("Current shell: " ++ c.shell.text ++ "\nAvailable: " ++ Shell.allText), c.shell)
  | word :: _ =>
    match Shell.ofText? (Text.lower word) with
    | some shell => (.ok ("Switched to " ++ shell.text), shell)
    | none => (.error ("Unknown shell: " ++ word), c.shell)

def ai : List String → Reply × Option Job
  | [] => (Look.aiTasks, none)
  | word :: _ =>
    match AiTask.ofText? (Text.lower word) with
    | some task => (.ok task.opening, some (.ai task))
    | none =>
      (.error ("Invalid ai command: " ++ word ++ "\nUse 'ai' for available commands"), none)

def git (hasGit : Bool) (args : List String) : Reply × Option Job :=
  if !hasGit then (.error Versioning.unavailable, none)
  else
    match args with
    | [] => (.error Versioning.usage, none)
    | word :: rest =>
      match GitVerb.ofText? (Text.lower word) with
      | some verb => ({}, some (.git verb rest))
      | none => (.error ("git: '" ++ word ++ "' is not a git command. See 'git help'."), none)

/-- Carries out a command. A command that loses a node is broken off. -/
def carryOut (t : Terminal) (b : Bench σ) (w : World σ) (command : Command)
    (args : List String) : Turn σ :=
  let c := t.scene b w
  let look (a : Reply) : Turn σ := { reply := a, world := w, cwd := t.cwd, shell := t.shell }
  let change (f : Change.Stage σ → World σ → List String → Change.Ending σ) : Turn σ :=
    match f ⟨b.host, c⟩ w args with
    | (.ok a, w) => { look a with world := w }
    | (.error id, w) => { look (.broken command (lostText id)) with world := w }
  match command with
  | .help => look Look.help
  | .ls => look (Look.ls c args)
  | .cd => let (a, cwd) := cd c args; { look a with cwd := cwd }
  | .pwd => look (Look.pwd c)
  | .cat => look (Look.cat c args)
  | .mkdir => change Change.mkdir
  | .touch => change Change.touch
  | .rm => change Change.rm
  | .rmdir => change Change.rmdir
  | .cp => change Change.cp
  | .mv => change Change.mv
  | .clear => { look {} with clears := true }
  | .echo => look (Look.echo args)
  | .whoami => look (Look.whoami c)
  | .date => look (Look.date c)
  | .find => look (Look.find c args)
  | .grep => look (Look.grep c args)
  | .head => look (Look.head c args)
  | .tail => look (Look.tail c args)
  | .wc => look (Look.wc c args)
  | .ps => look Look.ps
  | .df => look Look.df
  | .du => look (Look.du c args)
  | .history => look (Look.history c)
  | .env => look (Look.env c)
  | .shell => let (a, shell) := switchShell c args; { look a with shell := shell }
  | .ai => let (a, job) := ai args; { look a with job := job }
  | .git => let (a, job) := git b.hasGit args; { look a with job := job }

structure Execution (σ : Type) where
  result : LineResult
  terminal : Terminal
  world : World σ
  /-- The number of entry ids drawn so far. -/
  drawn : Nat

def recordEntry (t : Terminal) (line : String) (a : Reply) (job : Option Job) (entryId : String)
    (now : Timestamp) : Terminal :=
  { t with
    scrollback := t.scrollback ++
      [{ entryId := entryId, command := line, output := a.output, isError := a.isError,
         timestamp := now, pending := job.isSome }]
    pending := match job with
      | some j => t.pending.insert entryId j
      | none => t.pending }

def conclude (t : Terminal) (b : Bench σ) (w : World σ) (drawn : Nat) (line : String) (a : Reply)
    (job : Option Job) : Execution σ :=
  let entryId := drawnEntryId (drawn + 1)
  { result := ⟨a.output, a.isError, some entryId, job.isSome⟩
    terminal := t.recordEntry line a job entryId b.host.now
    world := w
    drawn := drawn + 1 }

/-- Executes a line. Blank lines and `clear` record no entry. -/
def execute (t : Terminal) (b : Bench σ) (w : World σ) (drawn : Nat) (line : String) :
    Execution σ :=
  let t := { t with history := (t.history.record line).2 }
  match Text.words line with
  | [] => ⟨{}, t, w, drawn⟩
  | word :: args =>
    let t := { t with cwd := w.space.settle t.cwd }
    match Command.ofText? (Text.lower word) with
    | none =>
      t.conclude b w drawn line
        (.error (word ++ ": command not found\nType 'help' for available commands")) none
    | some command =>
      let turn := t.carryOut b w command args
      let t := { t with cwd := turn.cwd, shell := turn.shell }
      if turn.clears then ⟨{}, t.clear, turn.world, drawn⟩
      else t.conclude b turn.world drawn line turn.reply turn.job

end Terminal

end Workbench
