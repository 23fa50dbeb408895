import Workbench.Form.Reading
import Workbench.Json.Printer
import Workbench.Json.Reader
import Workbench.Terminal.Desk
import Workbench.Time.Stored

/-!
# Saved sessions

The form in which terminals are kept in a file: a JSON text with the terminals in order, the active
one and the shared view. Reading is lenient like that of every form; a text that does not have the
form is as good as none. What is restored from a saved session is checked against the workspace:
unknown shells are left out, working directories settle, and a shared view needs both its ends.
-/

namespace Workbench

structure SavedTerminal where
  id : String
  name : String
  shell : String
  cwd : String
  history : List String := []
  scrollback : List ScrollbackEntry := []
  deriving DecidableEq, Repr

structure SavedSession where
  terminals : List SavedTerminal := []
  activeId : Option String := none
  splitMode : Option SplitMode := none
  splitId : Option String := none
  deriving DecidableEq, Repr

/-- The number of history lines that are kept of a terminal. -/
def savedHistory : Nat := 100

/-! ## Writing -/

def ScrollbackEntry.toJson (e : ScrollbackEntry) : Json :=
  .obj [("entry_id", .str e.entryId), ("command", .str e.command), ("output", .str e.output),
    ("is_error", .bool e.isError), ("timestamp", .str e.timestamp.zuluText),
    ("pending", .bool e.pending)]

namespace SavedTerminal

def ofTerminal (t : Terminal) : SavedTerminal :=
  { id := t.id, name := t.name, shell := t.shell.text, cwd := t.cwd,
    history := t.history.tail savedHistory, scrollback := t.scrollback }

def toJson (t : SavedTerminal) : Json :=
  .obj [("id", .str t.id), ("name", .str t.name), ("shell", .str t.shell), ("cwd", .str t.cwd),
    ("history", .ofTexts t.history), ("scrollback", .arr (t.scrollback.map ScrollbackEntry.toJson))]

end SavedTerminal

namespace SavedSession

def ofDesk (d : Desk) : SavedSession :=
  { terminals := d.table.values.map .ofTerminal, activeId := some d.activeId,
    splitMode := d.split.map Split.mode, splitId := d.split.bind Split.partner }

def toJson (s : SavedSession) : Json :=
  .obj [("terminals", .arr (s.terminals.map SavedTerminal.toJson)),
    ("active_id", .ofText? s.activeId),
    ("split_mode", .ofText? (s.splitMode.map SplitMode.text)),
    ("split_id", .ofText? s.splitId)]

def text (s : SavedSession) : String := Json.pretty 0 s.toJson

end SavedSession

/-! ## Reading -/

namespace SavedSession

open Form (Reading Checked required optional)

def readTime : Reading Timestamp := fun v =>
  match Timestamp.ofStored? v with
  | some t => .ok t
  | none => .fault .unreadableTime v

/-- Reads a scrollback entry. Without an id of its own it gets the one that is drawn for it. -/
def readEntry (now : Timestamp) (drawnId : String) (fields : List (String × Json)) :
    Checked ScrollbackEntry :=
  ScrollbackEntry.mk
    <$> optional fields "entry_id" drawnId Form.text
    <*> required fields "command" Form.text
    <*> optional fields "output" "" Form.text
    <*> optional fields "is_error" false Form.truth
    <*> optional fields "timestamp" now readTime
    <*> optional fields "pending" false Form.truth

/-- Reads scrollback entries from a number on. An id is drawn for each that has none, whether or
not the entry can be read. The number of ids drawn is returned. -/
def readEntries (now : Timestamp) : Nat → Nat → List Json → Checked (List ScrollbackEntry) × Nat
  | _, drawn, [] => (.ok [], drawn)
  | k, drawn, v :: rest =>
    match v with
    | .obj fields =>
      let drawn' := if (Json.lastField? "entry_id" fields).isSome then drawn else drawn + 1
      let (more, total) := readEntries now (k + 1) drawn' rest
      ((· :: ·) <$> (readEntry now (drawnEntryId drawn') fields).under (toString k) <*> more, total)
    | _ =>
      let (more, total) := readEntries now (k + 1) drawn rest
      ((· :: ·) <$> (Checked.fault .notObject v).under (toString k) <*> more, total)

def readScrollback (now : Timestamp) (drawn : Nat) (fields : List (String × Json)) :
    Checked (List ScrollbackEntry) × Nat :=
  match Json.lastField? "scrollback" fields with
  | none => (.ok [], drawn)
  | some (.arr items) =>
    let (x, drawn) := readEntries now 0 drawn items
    (x.under "scrollback", drawn)
  | some v => ((Checked.fault .notList v).under "scrollback", drawn)

def readTerminal (now : Timestamp) (drawn : Nat) (v : Json) : Checked SavedTerminal × Nat :=
  match v with
  | .obj fields =>
    let (scrollback, drawn) := readScrollback now drawn fields
    (SavedTerminal.mk
      <$> required fields "id" Form.text
      <*> required fields "name" Form.text
      <*> required fields "shell" Form.text
      <*> required fields "cwd" Form.text
      <*> optional fields "history" [] (Form.listOf Form.text)
      <*> scrollback, drawn)
  | v => (Checked.fault .notObject v, drawn)

def readTerminals (now : Timestamp) : Nat → Nat → List Json → Checked (List SavedTerminal) × Nat
  | _, drawn, [] => (.ok [], drawn)
  | k, drawn, v :: rest =>
    let (t, drawn) := readTerminal now drawn v
    let (more, drawn) := readTerminals now (k + 1) drawn rest
    ((· :: ·) <$> t.under (toString k) <*> more, drawn)

def read (now : Timestamp) (drawn : Nat) (v : Json) : Checked SavedSession × Nat :=
  match v with
  | .obj fields =>
    let (terminals, drawn) : Checked (List SavedTerminal) × Nat :=
      match Json.lastField? "terminals" fields with
      | none => (.ok [], drawn)
      | some (.arr items) =>
        let (x, drawn) := readTerminals now 0 drawn items
        (x.under "terminals", drawn)
      | some v => ((Checked.fault .notList v).under "terminals", drawn)
    (SavedSession.mk
      <$> terminals
      <*> optional fields "active_id" none (Form.nullable Form.text)
      <*> optional fields "split_mode" none (Form.nullable (Form.choice SplitMode.ofText?))
      <*> optional fields "split_id" none (Form.nullable Form.text), drawn)
  | v => (Checked.fault .notObject v, drawn)

/-- The session that a text holds, if it has the form of one, and the number of entry ids drawn. -/
def ofText? (now : Timestamp) (drawn : Nat) (s : String) : Option SavedSession × Nat :=
  match Json.parse .strict s with
  | .error _ => (none, drawn)
  | .ok v =>
    let (session, drawn) := read now drawn v
    (session.toOption, drawn)

end SavedSession

/-! ## Restoring -/

/-- The number that the name of a terminal ends with, if it is a numbered one. -/
def terminalNumber? (name : String) : Option (Except Text.WholeError Nat) :=
  if Text.startsWith name "Terminal " then
    let ds := (Text.dropChars name 9).toList
    if !ds.isEmpty && ds.all Text.isDecimalDigit then some (Text.readNat ds) else none
  else none

/-- A number of more digits than are ever read. -/
structure NumberTooLong where
  digits : Nat
  deriving DecidableEq, Repr

def NumberTooLong.message (e : NumberTooLong) : String :=
  "Exceeds the limit (" ++ toString Text.digitLimit ++
    " digits) for integer string conversion: value has " ++ toString e.digits ++
    " digits; use sys.set_int_max_str_digits() to increase the limit"

def terminalNumbers : List String → Except NumberTooLong (List Nat)
  | [] => .ok []
  | name :: rest =>
    match terminalNumber? name with
    | none => terminalNumbers rest
    | some (.ok n) => (terminalNumbers rest).map (n :: ·)
    | some (.error (.tooLong n)) => .error ⟨n⟩
    | some (.error .malformed) => terminalNumbers rest

namespace Desk

/-- Opens a terminal as it was kept, unless its shell is unknown. -/
def reopen (settings : Settings) (s : Workspace) (d : Desk) (saved : SavedTerminal) : Desk :=
  let drawn := if saved.id.isEmpty then d.draws.terminals + 1 else d.draws.terminals
  let id := if saved.id.isEmpty then drawnTerminalId drawn else saved.id
  let d := { d with draws := { d.draws with terminals := drawn } }
  match shellFor settings (some saved.shell) with
  | .error _ => d
  | .ok shell =>
    let t := Terminal.new settings s id saved.name shell saved.cwd
    d.put
      { t with
        history := { t.history with entries := History.lastOf settings.historyLimit saved.history }
        scrollback := saved.scrollback.map fun e => { e with pending := false } }

/-- The desk with the terminals of a saved session, if any can be restored. -/
def restored (settings : Settings) (s : Workspace) (draws : Draws) (saved : SavedSession) :
    Except NumberTooLong (Option Desk × Draws) :=
  let d := saved.terminals.foldl (reopen settings s) { draws := draws }
  match d.table.keys with
  | [] => .ok (none, d.draws)
  | first :: _ =>
    match terminalNumbers (d.table.values.map Terminal.name) with
    | .error e => .error e
    | .ok numbers =>
      let activeId := ((saved.activeId.filter d.table.contains)).getD first
      let isPartner := fun i => d.table.contains i && i != activeId
      let split :=
        match saved.splitMode, saved.splitId.filter isPartner with
        | some mode, some partner => some ⟨mode, some partner⟩
        | _, _ => none
      .ok
        (some
          { d with
            counter := numbers.max?.getD d.table.size
            activeId := activeId
            split := split },
          d.draws)

/-- The desk at the start: with the terminals of a stored text, or else with a new one. -/
def start (settings : Settings) (s : Workspace) (now : Timestamp) (draws : Draws)
    (stored : Option String) : Except NumberTooLong Desk :=
  match stored with
  | none => .ok (new settings s draws)
  | some text =>
    let (session, entries) := SavedSession.ofText? now draws.entries text
    let draws := { draws with entries := entries }
    match session with
    | none => .ok (new settings s draws)
    | some session =>
      match restored settings s draws session with
      | .error e => .error e
      | .ok (some d, _) => .ok d
      | .ok (none, draws) => .ok (new settings s draws)

end Desk

end Workbench
