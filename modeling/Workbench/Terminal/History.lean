import Workbench.Text.Blank

/-!
# Command histories

The last lines of a terminal, oldest first, with a cursor that walks over them. Recording a line
takes the cursor away; walking never changes the lines.
-/

namespace Workbench

structure History where
  limit : Nat := 100
  entries : List String := []
  /-- The line that was shown last while walking. -/
  cursor : Option Nat := none
  deriving DecidableEq, Repr, Inhabited

namespace History

/-- The last `n` items of a list. -/
def lastOf {α : Type} (n : Nat) (l : List α) : List α := l.drop (l.length - n)

/-- Records a line without the blanks around it, unless it is blank or repeats the line before.
Whether it was recorded is returned. -/
def record (h : History) (line : String) : Bool × History :=
  let line := Text.strip line
  if line.isEmpty || h.entries.getLast? == some line then (false, { h with cursor := none })
  else (true, { h with entries := lastOf h.limit (h.entries ++ [line]), cursor := none })

def previous (h : History) : Option String × History :=
  if h.entries.isEmpty then (none, h)
  else
    let i := match h.cursor with
      | none => h.entries.length - 1
      | some i => i - 1
    (h.entries[i]?, { h with cursor := some i })

/-- Walks to the line after. After the newest line comes an empty one, which ends the walk. -/
def next (h : History) : Option String × History :=
  match h.cursor with
  | none => (none, h)
  | some i =>
    if i + 1 < h.entries.length then (h.entries[i + 1]?, { h with cursor := some (i + 1) })
    else (some "", { h with cursor := none })

def reset (h : History) : History := { h with cursor := none }

def numbered (h : History) : List (Nat × String) := h.entries.zipIdx.map fun e => (e.2 + 1, e.1)

def tail (h : History) (count : Int) : List String := lastOf count.toNat h.entries

end History

end Workbench
