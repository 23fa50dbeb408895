import Workbench.Terminal.Command
import Workbench.Terminal.Scene
import Workbench.Text.Glob

/-!
# Commands that look

The commands that change nothing: their reply is a function of what they see.
-/

namespace Workbench.Look

def unlines (lines : List String) : String := "\n".intercalate lines

def rule (c : Char) (n : Nat) : String := .ofList (List.replicate n c)

/-! ## Listings -/

def help : Reply :=
  .ok <| unlines <|
    ["📋 HENU Terminal Commands", rule '═' 60, ""] ++
    (Command.all.map fun c => "  " ++ Text.padRight 10 c.text ++ " " ++ c.description) ++
    ["",
      "📁 File Operations: ls, cd, cat, mkdir, touch, rm, cp, mv",
      "🔍 Search: find, grep",
      "📊 Text Processing: head, tail, wc",
      "🤖 AI Tools: ai <fix|build|optimize|explain|deploy|test|analyze|generate>",
      "",
      "💡 Tips: Use Tab for autocomplete, ↑/↓ for history, Ctrl+L to clear"]

def aiTasks : Reply :=
  .ok <| unlines <|
    ["🤖 HENU AI Tools", rule '═' 40] ++
    AiTask.all.map fun t => "  ai " ++ Text.padRight 12 t.text ++ " " ++ t.description

def permissions : NodeKind → String
  | .directory => "drwxr-xr-x"
  | .file => "-rw-r--r--"

/-- The name of a node, with a slash after that of a directory. -/
def displayName (n : Node) : String := n.name ++ if n.isDirectory then "/" else ""

def longRow (n : Node) (name : String) : Except CalendarFault String :=
  n.modifiedAt.utc.map fun t =>
    permissions n.kind ++ "  " ++ Text.padLeft 8 (toString n.size) ++ "  " ++
      t.listingText ++ "  " ++ name

def longHeading : List String :=
  [Text.padRight 10 "Permissions" ++ "  " ++ Text.padLeft 8 "Size" ++ "  " ++
    Text.padRight 16 "Modified" ++ "  Name", rule '-' 50]

def ls (c : Scene) (args : List String) : Reply :=
  let long := Arguments.hasFlag args 'l'
  let all := Arguments.hasFlag args 'a'
  let target := (Arguments.operands args).headD "."
  match c.resolve? target with
  | none => .error ("ls: cannot access '" ++ target ++ "': No such file or directory")
  | some n =>
    let entries :=
      if n.isFile then [n]
      else (c.space.children n).filter fun e => all || !e.isHidden
    let dots := all && n.isDirectory
    if long then
      let dotRows := if dots then [(n, "."), ((c.space.parent? n.id).getD n, "..")] else []
      let rows := dotRows ++ entries.map fun e => (e, displayName e)
      match rows.mapM fun (n, name) => longRow n name with
      | .ok rows => .ok (unlines (longHeading ++ rows))
      | .error f => .broken .ls f.message
    else
      let names := (if dots then [".", ".."] else []) ++ entries.map displayName
      .ok (if names.isEmpty then "(empty directory)" else "  ".intercalate names)

def pwd (c : Scene) : Reply := .ok c.cwd

def du (c : Scene) (args : List String) : Reply :=
  let target := args.headD "."
  match c.resolve? target with
  | none => .error ("du: cannot access '" ++ target ++ "': No such file or directory")
  | some n => .ok (toString (c.space.subtreeSize n.id) ++ "\t" ++ c.space.pathOf n.id)

/-! ## Searching -/

structure Query where
  start : String := "."
  pattern : Option String := none
  kind : Option NodeKind := none

/-- Reads what a search asks for, or says what is wrong with it. -/
def queryFrom (q : Query) : List String → Except Reply Query
  | [] => .ok q
  | "-name" :: rest =>
    match rest with
    | [] => .error (.error "find: missing argument to `-name'")
    | word :: rest => queryFrom { q with pattern := some (Arguments.unquoted word) } rest
  | "-type" :: rest =>
    match rest with
    | [] => .error (.error "find: missing argument to `-type'")
    | word :: rest =>
      match Arguments.unquoted word with
      | "f" => queryFrom { q with kind := some .file } rest
      | "d" => queryFrom { q with kind := some .directory } rest
      | other => .error (.error ("find: Unknown argument to -type: " ++ other))
  | word :: rest => queryFrom { q with start := word } rest

/-- Whether a node is searched for. The root has no name that a pattern could match. -/
def Query.admits (q : Query) (n : Node) : Bool :=
  (q.pattern.all fun p => n.id != rootId && Text.globMatch p n.name) &&
    q.kind.all fun k => n.kind == k

def find (c : Scene) (args : List String) : Reply :=
  match queryFrom {} args with
  | .error reply => reply
  | .ok q =>
    match c.resolve? q.start with
    | none => .error ("find: '" ++ q.start ++ "': No such file or directory")
    | some top =>
      .ok (unlines (((c.space.walk top.id).filter q.admits).map fun n => c.space.pathOf n.id))

def grep (c : Scene) (args : List String) : Reply :=
  match Arguments.operands args with
  | word :: path :: _ =>
    match c.fileAt "grep" path with
    | .error reply => reply
    | .ok n =>
      let pattern := Arguments.unquoted word
      let fold (s : String) : String := if Arguments.hasFlag args 'i' then Text.lower s else s
      let needle := (fold pattern).toList
      let hits := (Text.lines n.content).zipIdx.filter fun (line, _) =>
        Text.occursIn needle (fold line).toList
      if hits.isEmpty then .ok ("No matches found for \"" ++ pattern ++ "\" in " ++ path)
      else .ok <| unlines <| hits.map fun (line, i) =>
        if Arguments.hasFlag args 'n' then toString (i + 1) ++ ":" ++ line else line
  | _ => .error "Usage: grep [-i] [-n] <pattern> <file>"

/-! ## Contents -/

def cat (c : Scene) (args : List String) : Reply :=
  if args.isEmpty then .error "Usage: cat <filename> [filename2 ...]"
  else
    let blocks := args.map fun path =>
      match c.fileAt "cat" path with
      | .error reply => reply
      | .ok n =>
        .ok (path ++ ":\n" ++ rule '─' 40 ++ "\n" ++
          if n.content.isEmpty then "(empty file)" else n.content)
    ⟨"\n\n".intercalate (blocks.map Reply.output), blocks.any Reply.isError⟩

/-- The lines of a file; an empty file has none. -/
def contentLines (n : Node) : List String :=
  if n.content.isEmpty then [] else Text.lines n.content

def someLines (c : Scene) (command : String) (select : Nat → List String → List String)
    (args : List String) : Reply :=
  match Arguments.linesAndFile args with
  | .error .noCount => .error (command ++ ": option requires an argument -- 'n'")
  | .error (.badCount word) => .error (command ++ ": invalid number of lines: '" ++ word ++ "'")
  | .error .noFile => .error ("Usage: " ++ command ++ " [-n lines] <file>")
  | .ok (count, path) =>
    match c.fileAt command path with
    | .error reply => reply
    | .ok n => .ok (unlines (select count (contentLines n)))

def head (c : Scene) (args : List String) : Reply := someLines c "head" List.take args

def tail (c : Scene) (args : List String) : Reply := someLines c "tail" History.lastOf args

def wc (c : Scene) (args : List String) : Reply :=
  match args with
  | [] => .error "Usage: wc <file>"
  | path :: _ =>
    match c.fileAt "wc" path with
    | .error reply => reply
    | .ok n =>
      .ok ("\t".intercalate
        [toString (contentLines n).length, toString (Text.words n.content).length,
          toString n.content.length, path])

/-! ## Surroundings -/

def echo (args : List String) : Reply := .ok (" ".intercalate args)

def whoami (c : Scene) : Reply := .ok c.settings.username

def date (c : Scene) : Reply :=
  match c.now.utc with
  | .ok t => .ok t.dateText
  | .error f => .broken .date f.message

def ps : Reply :=
  .ok <| unlines
    ["PID\tTTY\tTIME\tCMD", "1\ttty1\t00:00:01\tinit", "123\ttty1\t00:00:15\tbash",
      "456\ttty1\t00:01:23\tnode", "789\ttty1\t00:00:05\tterminal"]

def df : Reply :=
  .ok <| unlines
    ["Filesystem\tSize\tUsed\tAvail\tUse%\tMounted on", "/dev/sda1\t50G\t15G\t32G\t31%\t/",
      "tmpfs\t2.0G\t0\t2.0G\t0%\t/tmp"]

def history (c : Scene) : Reply :=
  .ok (unlines (c.history.numbered.map fun (i, line) => toString i ++ "  " ++ line))

def env (c : Scene) : Reply :=
  .ok <| unlines
    ["USER=" ++ c.settings.username, "HOME=" ++ c.settings.home,
      "PATH=/usr/local/bin:/usr/bin:/bin", "PWD=" ++ c.cwd, "SHELL=/bin/bash",
      "TERM=xterm-256color"]

end Workbench.Look
