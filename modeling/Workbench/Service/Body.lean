import Workbench.Terminal.Session
import Workbench.Workspace.Validation

/-!
# Bodies

The values that answers carry. Points in time are written with the letter for the zone, except in
the outline of the tree, where they are written with its offset.
-/

namespace Workbench.Service

def marksFields (m : Marks) : List (String × Json) :=
  [("tags", .ofTexts m.tags), ("favorite", .bool m.favorite), ("pinned", .bool m.pinned),
    ("locked", .bool m.locked), ("description", .ofText? m.description)]

def nodeFields (time : Timestamp → String) (n : Node) : List (String × Json) :=
  [("id", .str n.id), ("name", .str n.name), ("kind", .str n.kind.text), ("size", .int n.size),
    ("modified_at", .str (time n.modifiedAt)), ("parent_id", .ofText? n.parentId)] ++
    marksFields n.marks

/-- The fields of a node in a workspace, with its path and the ids of its children. -/
def placedFields (s : Workspace) (n : Node) : List (String × Json) :=
  nodeFields Timestamp.zuluText n ++
    [("path", .str ((s.pathOf? n.id).getD "")), ("children", .ofTexts n.children)]

def nodeBody (s : Workspace) (n : Node) : Json := .obj (placedFields s n)

def contentBody (s : Workspace) (n : Node) : Json :=
  .obj (placedFields s n ++ [("content", .str n.content)])

mutual

def outlineBody : Workspace.Outline → Json
  | .entry n path below =>
    .obj (nodeFields Timestamp.isoText n ++
      [("path", .str path), ("children", .arr (outlineBodies below))])

def outlineBodies : List Workspace.Outline → List Json
  | [] => []
  | x :: rest => outlineBody x :: outlineBodies rest

end

def tabBody (t : Workspace.TabView) : Json :=
  .obj [("id", .str t.id), ("title", .str t.title), ("path", .str t.path),
    ("active", .bool t.active)]

def snapshotBody (s : Workspace) : Json :=
  .obj [("root", (s.outline?.map outlineBody).getD .null), ("bound_root", .ofText? s.boundRoot),
    ("node_count", .ofNat s.arena.size), ("tabs", .arr (s.tabViews.map tabBody))]

def tabsBody (s : Workspace) : Json :=
  .obj [("tabs", .arr (s.tabViews.map tabBody)),
    ("active_id", .ofText? ((s.tabViews.find? Workspace.TabView.active).map Workspace.TabView.id))]

def flawsBody (flaws : List Workspace.Flaw) : Json :=
  .obj [("valid", .bool flaws.isEmpty), ("errors", .ofTexts (flaws.map Workspace.Flaw.message))]

def terminalBody (settings : Settings) (t : Terminal) (active visible : Bool) : Json :=
  .obj [("id", .str t.id), ("name", .str t.name), ("shell", .str t.shell.text),
    ("cwd", .str t.cwd), ("prompt", .str (t.prompt settings)), ("active", .bool active),
    ("visible", .bool visible), ("pending", .bool t.hasPending),
    ("entry_count", .ofNat t.scrollback.length)]

/-- All terminals, the active one, and the shared view. -/
def deskBody (settings : Settings) (d : Desk) : Json :=
  .obj [("terminals", .arr (d.table.values.map fun t =>
      terminalBody settings t (t.id == d.activeId) (d.visible.contains t.id))),
    ("active_id", .str d.activeId), ("split_mode", .ofText? (d.split.map fun x => x.mode.text)),
    ("split_id", .ofText? (d.split.bind Split.partner))]

def resultBody (settings : Settings) (t : Terminal) (r : LineResult) : Json :=
  .obj [("terminal_id", .str t.id), ("output", .str r.output), ("is_error", .bool r.isError),
    ("entry_id", .ofText? r.entryId), ("pending", .bool r.pending), ("cwd", .str t.cwd),
    ("prompt", .str (t.prompt settings))]

def scrollbackBody (t : Terminal) : Json :=
  .obj [("terminal_id", .str t.id), ("entries", .arr (t.scrollback.map ScrollbackEntry.toJson))]

def suggestionBody (c : Command) : Json :=
  .obj [("command", .str c.text), ("description", .str c.description)]

def statusBody (status message : String) : Json :=
  .obj [("status", .str status), ("message", .str message)]

def issueBody (i : Form.Issue) : Json :=
  .obj ([("loc", .ofTexts i.place), ("type", .str i.fault.text)] ++
    match i.fault.message? with
    | some m => [("msg", .str m)]
    | none => [])

end Workbench.Service
