import Workbench.Form.Reading
import Workbench.Path

/-!
# Settings

What can be set of a workspace, and how settings are read from fields or from the variables of an
environment.
-/

namespace Workbench

inductive Shell where
  | henu
  | bash
  | zsh
  | powershell
  | cmd
  deriving DecidableEq, Repr, Inhabited

namespace Shell

def all : List Shell := [henu, bash, zsh, powershell, cmd]

def text : Shell → String
  | henu => "henu"
  | bash => "bash"
  | zsh => "zsh"
  | powershell => "powershell"
  | cmd => "cmd"

def ofText? (s : String) : Option Shell := all.find? fun x => x.text == s

def promptMark : Shell → String
  | henu => "›"
  | bash => "$"
  | zsh => "%"
  | powershell => "PS>"
  | cmd => ">"

def allText : String := ", ".intercalate (all.map text)

def unknownText (name : String) : String :=
  "Unknown shell '" ++ name ++ "'. Available: " ++ allText

theorem ofText?_text (s : Shell) : ofText? s.text = some s := by cases s <;> rfl

end Shell

structure Settings where
  home : String := "/home/user"
  username : String := "henu"
  /-- The number of lines that a command history keeps. -/
  historyLimit : Nat := 100
  aiDelay : Float := 1.5
  defaultShell : Shell := .henu
  /-- Whether a new free workspace starts with the demo tree. -/
  seedDemoTree : Bool := true
  /-- The directory of the disk to bind at the start. -/
  boundRoot : Option String := none
  /-- The file that keeps the terminals. -/
  terminalStorePath : Option String := none
  /-- The depth at which listings of the disk end. -/
  bridgeMaxDepth : Nat := 8
  /-- The size from which on the content of a file is not read. -/
  bridgeMaxFileBytes : Nat := 100000

namespace Settings

/-- Reads an absolute path and writes it without empty pieces. -/
def readHome : Form.Reading String := fun v =>
  (Form.text v).andThen fun s =>
    if Text.startsWith s "/" then .ok (Path.ofNames (Path.segments s))
    else .fault (.rule ("home must be an absolute path, got '" ++ s ++ "'")) v

def readShell : Form.Reading Shell := fun v =>
  (Form.text v).andThen fun s =>
    match Shell.ofText? s with
    | some shell => .ok shell
    | none => .fault (.rule (Shell.unknownText s)) v

/-- Reads settings from fields. Other fields are ignored. -/
def ofFields (fields : List (String × Json)) : Form.Checked Settings :=
  let d : Settings := {}
  Settings.mk
    <$> Form.optional fields "home" d.home readHome
    <*> Form.optional fields "username" d.username Form.text
    <*> Form.optional fields "history_limit" d.historyLimit (Form.wholeFrom 1)
    <*> Form.optional fields "ai_delay_seconds" d.aiDelay Form.decimalFromZero
    <*> Form.optional fields "default_shell" d.defaultShell readShell
    <*> Form.optional fields "seed_demo_tree" d.seedDemoTree Form.truth
    <*> Form.optional fields "bound_root" d.boundRoot (Form.nullable Form.text)
    <*> Form.optional fields "terminal_store_path" d.terminalStorePath (Form.nullable Form.text)
    <*> Form.optional fields "bridge_max_depth" d.bridgeMaxDepth (Form.wholeFrom 1)
    <*> Form.optional fields "bridge_max_file_bytes" d.bridgeMaxFileBytes (Form.wholeFrom 0)

/-- The variables of an environment that set a field, each with the name of the field. -/
def fieldVariables : List (String × String) :=
  [("VWS_HOME", "home"), ("VWS_USERNAME", "username"), ("VWS_HISTORY_LIMIT", "history_limit"),
    ("VWS_AI_DELAY_SECONDS", "ai_delay_seconds"), ("VWS_DEFAULT_SHELL", "default_shell"),
    ("VWS_SEED_DEMO_TREE", "seed_demo_tree"), ("VWS_BOUND_ROOT", "bound_root"),
    ("VWS_TERMINAL_STORE_PATH", "terminal_store_path"),
    ("VWS_BRIDGE_MAX_DEPTH", "bridge_max_depth"),
    ("VWS_BRIDGE_MAX_FILE_BYTES", "bridge_max_file_bytes")]

/-- The fields that an environment sets. An empty variable sets nothing. -/
def environmentFields (environment : List (String × Json)) : List (String × Json) :=
  fieldVariables.filterMap fun (name, field) =>
    match Json.lastField? name environment with
    | some (.str "") | none => none
    | some v => some (field, v)

/-- Reads settings from an environment. Fields that are given besides count more, unless they are
null. -/
def ofEnvironment (environment overrides : List (String × Json)) : Form.Checked Settings :=
  ofFields (environmentFields environment ++ overrides.filter fun e => !(e.2 matches .null))

/-- Whether the assistant's delay can be waited for: in nanoseconds it has to fit into a word of 64
bits. -/
def canWait (s : Settings) : Bool := s.aiDelay * 1000000000.0 < 9223372036854775808.0

def waitTooLongText : String := "timestamp too large to convert to C _PyTime_t"

def aiDelayText (s : Settings) : String := Number.decimalText ⟨-4, 16⟩ s.aiDelay

/-- The settings as a value. The delay is written as a text. -/
def toJson (s : Settings) : Json :=
  .obj [("home", .str s.home), ("username", .str s.username),
    ("history_limit", .ofNat s.historyLimit), ("ai_delay_seconds", .str s.aiDelayText),
    ("default_shell", .str s.defaultShell.text), ("seed_demo_tree", .bool s.seedDemoTree),
    ("bound_root", .ofText? s.boundRoot), ("terminal_store_path", .ofText? s.terminalStorePath),
    ("bridge_max_depth", .ofNat s.bridgeMaxDepth),
    ("bridge_max_file_bytes", .ofNat s.bridgeMaxFileBytes)]

end Settings

end Workbench
