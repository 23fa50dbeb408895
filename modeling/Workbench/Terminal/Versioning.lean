import Workbench.Git.Operation
import Workbench.Terminal.Command
import Workbench.Terminal.Look

/-!
# The command for the version history

How the subcommands read their words, and what they say. A rejection by the repository is shown
after the word `fatal`; what a subcommand has done before it stays done.
-/

namespace Workbench.Versioning

variable {σ : Type}

/-- The end of a subcommand: its reply or how it stopped, with the world and the repository that it
leaves. -/
structure Ending (σ : Type) where
  reply : Except Git.Stop Reply
  world : World σ
  repository : Repository

def reply (w : World σ) (r : Repository) (a : Reply) : Ending σ := ⟨.ok a, w, r⟩

def answer {α : Type} (w : World σ) (r : Repository) (x : Except Git.Fault α) (f : α → Reply) :
    Ending σ :=
  ⟨(x.mapError .rejected).map f, w, r⟩

def changed (w : World σ) (r : Repository) (x : Except Git.Fault Repository) (a : Reply) :
    Ending σ :=
  match x with
  | .ok r => reply w r a
  | .error e => ⟨.error (.rejected e), w, r⟩

def underHeading (heading : List String) (mark : String) (paths : List String) : List String :=
  if paths.isEmpty then [] else heading ++ paths.map (mark ++ ·)

def statusText (t : Repository.Status) : String :=
  Look.unlines <|
    ["On branch " ++ t.branch] ++
    (if t.ahead == 0 then []
      else ["Your branch is ahead by " ++ toString t.ahead ++ " commit(s)."]) ++
    (if t.behind == 0 then []
      else ["Your branch is behind by " ++ toString t.behind ++ " commit(s)."]) ++
    [""] ++
    underHeading ["Changes to be committed:"] "  modified: " t.staged ++
    underHeading ["", "Changes not staged for commit:"] "  modified: " t.modified ++
    underHeading ["", "Untracked files:"] "  " t.untracked ++
    (if t.clean then ["nothing to commit, working tree clean"] else [])

def resetAll (w : World σ) (a : Reply) : Repository → List String → Ending σ
  | r, [] => reply w r a
  | r, path :: rest =>
    match r.reset path with
    | .ok r => resetAll w a r rest
    | .error e => ⟨.error (.rejected e), w, r⟩

/-- The message of a commit: the words after the first `-m`, without quotes. -/
def messageOf? (args : List String) : Option String :=
  match args.dropWhile (· != "-m") with
  | _ :: word :: rest =>
    some (.ofList ((" ".intercalate (word :: rest)).toList.filter fun c => c != '"' && c != '\''))
  | _ => none

def commit (now : Timestamp) (w : World σ) (r : Repository) (args : List String) : Ending σ :=
  match messageOf? args with
  | none =>
    reply w r
      (.error "Aborting commit due to empty commit message.\nUse: git commit -m \"message\"")
  | some message =>
    match r.commit message now with
    | .error e => ⟨.error (.rejected e), w, r⟩
    | .ok (oid, r) =>
      reply w r (.ok ("[" ++ r.head ++ " " ++ Repository.short oid ++ "] " ++ message))

def branch (w : World σ) (r : Repository) : List String → Ending σ
  | name :: _ => changed w r (r.createBranch name) (.ok ("Created branch " ++ name))
  | [] =>
    answer w r r.listBranches fun branches =>
      .ok <| Look.unlines <| branches.map fun b => (if b.current then "* " else "  ") ++ b.name

def switched (x : Except Git.Stop Unit × World σ × Repository) (a : Reply) : Ending σ :=
  ⟨x.1.map fun _ => a, x.2.1, x.2.2⟩

/-- Switches to a branch, which is created first if the words say so. -/
def checkout (h : Host σ) (w : World σ) (r : Repository) : List String → Ending σ
  | [] => reply w r (.error "Please specify a branch to checkout.")
  | ["-b"] => reply w r (.error "error: switch `b' requires a value")
  | "-b" :: name :: _ =>
    match r.createBranch name with
    | .error e => ⟨.error (.rejected e), w, r⟩
    | .ok r =>
      switched (r.checkout h w name) (.ok ("Switched to a new branch '" ++ name ++ "'"))
  | name :: _ => switched (r.checkout h w name) (.ok ("Switched to branch '" ++ name ++ "'"))

/-- The word that gives the number of commits to show. -/
def depthWord : List String → Option String
  | [] => none
  | "-n" :: word :: _ => some word
  | word :: _ => some (.ofList (word.toList.dropWhile (· == '-')))

def commitText (c : Git.Commit) : Except CalendarFault String :=
  c.timestamp.utc.map fun t =>
    "commit " ++ c.oid ++ "\nAuthor: " ++ c.author ++ "\nDate:   " ++ t.logText ++
      "\n\n    " ++ c.message ++ "\n"

def log (w : World σ) (r : Repository) (args : List String) : Ending σ :=
  let shown (depth : Int) : Ending σ :=
    answer w r (r.log depth) fun commits =>
      match commits.mapM commitText with
      | .ok texts => .ok (Look.unlines texts)
      | .error f => .stopped f.message
  match depthWord args with
  | none => shown 10
  | some word =>
    match Text.readInt word with
    | .ok depth => shown depth
    | .error _ => reply w r (.error ("fatal: invalid log depth: '" ++ word ++ "'"))

def carryOut (h : Host σ) (w : World σ) (r : Repository) (verb : GitVerb) (args : List String) :
    Ending σ :=
  match verb with
  | .init =>
    let (text, r) := r.init
    reply w r (.ok text)
  | .status => answer w r (r.status w.space) fun t => .ok (statusText t)
  | .add =>
    if args.isEmpty then reply w r (.ok "Nothing specified, nothing added.")
    else
      let (x, r) := r.add w.space args
      answer w r x fun _ => .ok ("Added " ++ " ".intercalate args)
  | .reset =>
    if args.isEmpty then reply w r (.error "Usage: git reset <path>")
    else resetAll w (.ok (Look.unlines (args.map ("Unstaged " ++ ·)))) r args
  | .commit => commit h.now w r args
  | .branch => branch w r args
  | .checkout => checkout h w r args
  | .log => log w r args
  | .push =>
    match r.push with
    | .ok (text, r) => reply w r (.ok text)
    | .error e => ⟨.error (.rejected e), w, r⟩
  | .pull =>
    let (x, w, r) := r.pull h w
    ⟨x.map .ok, w, r⟩

def run (h : Host σ) (w : World σ) (r : Repository) (verb : GitVerb) (args : List String) :
    Reply × World σ × Repository :=
  let ending := carryOut h w r verb args
  let a :=
    match ending.reply with
    | .ok a => a
    | .error (.rejected fault) => .error ("fatal: " ++ fault.message)
    | .error (.lost id) => .stopped (lostText id)
  (a, ending.world, ending.repository)

def unavailable : String := "Git service not initialized. Try re-opening the folder."

def usage : String :=
  "Usage: git <command> [args]\nAvailable: " ++ ", ".intercalate (GitVerb.all.map GitVerb.text)

end Workbench.Versioning
