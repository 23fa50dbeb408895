/-!
# Open tabs

The ids of the open nodes in the order of the tab bar, and the active one. When the active tab
closes, the tab that slides into its place becomes active, or the one before it at the end of the
bar. Several tabs close one after another, so that this rule applies to the bar as it shrinks.
-/

namespace Workbench

structure Tabs where
  openIds : List String := []
  activeId : Option String := none
  deriving DecidableEq, Repr, Inhabited

namespace Tabs

/-- Opens a tab at the end of the bar, unless it is open, and makes it active. -/
def opened (t : Tabs) (id : String) : Tabs :=
  ⟨if t.openIds.contains id then t.openIds else t.openIds ++ [id], some id⟩

/-- Makes an open tab active. Whether the tab is open is returned. -/
def activate (t : Tabs) (id : String) : Bool × Tabs :=
  if t.openIds.contains id then (true, { t with activeId := some id }) else (false, t)

/-- The bar without the first tab of an id. -/
def closed (t : Tabs) (id : String) : Tabs :=
  let place := t.openIds.idxOf id
  let rest := t.openIds.erase id
  ⟨rest, if t.activeId = some id then rest[min place (rest.length - 1)]? else t.activeId⟩

/-- Closes a tab. Whether it was open is returned. -/
def close (t : Tabs) (id : String) : Bool × Tabs :=
  if t.openIds.contains id then (true, t.closed id) else (false, t)

/-- Closes the open tabs among the targets, one after another in the order of the bar. The closed
ids are returned. -/
def closeMany (t : Tabs) (targets : List String) : List String × Tabs :=
  let doomed := t.openIds.filter targets.contains
  (doomed, doomed.foldl (fun t id => (t.close id).2) t)

def closeAll (_ : Tabs) : Tabs := {}

inductive Flaw where
  | duplicateIds
  | activeNotOpen (id : String)
  deriving DecidableEq, Repr

def Flaw.message : Flaw → String
  | duplicateIds => "Tab list contains duplicate ids"
  | activeNotOpen id => "Active tab " ++ id ++ " is not in the tab list"

def distinct : List String → Bool
  | [] => true
  | a :: rest => !rest.contains a && distinct rest

def flaws (t : Tabs) : List Flaw :=
  (if distinct t.openIds then [] else [.duplicateIds]) ++
    match t.activeId with
    | some id => if t.openIds.contains id then [] else [.activeNotOpen id]
    | none => []

end Tabs

end Workbench
