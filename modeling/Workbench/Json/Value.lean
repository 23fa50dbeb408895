/-!
# JSON values

A value keeps what its text says: whole numbers and decimals are told apart, a decimal is kept
exactly, and the fields of an object stay in order. Of several fields with one name the last
counts.
-/

namespace Workbench

inductive NumberWord where
  | nan
  | infinity
  | negativeInfinity
  deriving DecidableEq, Repr

inductive Json where
  | null
  | bool (b : Bool)
  | int (n : Int)
  /-- The decimal `digits * 10 ^ exponent`, with its sign. -/
  | real (negative : Bool) (digits : Nat) (exponent : Int)
  | word (w : NumberWord)
  | str (s : String)
  | arr (items : List Json)
  | obj (fields : List (String × Json))
  deriving Repr, Inhabited

namespace Json

def lastField? (name : String) : List (String × Json) → Option Json
  | [] => none
  | (k, v) :: rest =>
    match lastField? name rest with
    | some w => some w
    | none => if k == name then some v else none

/-- The value of a field, if the value is an object that has it. -/
def field? (name : String) : Json → Option Json
  | .obj fields => lastField? name fields
  | _ => none

def str? : Json → Option String
  | .str s => some s
  | _ => none

def arr? : Json → Option (List Json)
  | .arr items => some items
  | _ => none

def obj? : Json → Option (List (String × Json))
  | .obj fields => some fields
  | _ => none

/-- A text, or null. -/
def ofText? : Option String → Json
  | some s => .str s
  | none => .null

def ofTexts (l : List String) : Json := .arr (l.map .str)

def ofNat (n : Nat) : Json := .int n

end Json

end Workbench
