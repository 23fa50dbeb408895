import Workbench.Json.Value

/-!
# Checked readings

The result of reading a form: a value, or every issue that was found, each with its place. Readings
of several fields are combined so that the issues of all of them are reported, in order.
-/

namespace Workbench.Form

inductive Fault where
  | missing
  | notText
  | tooShort
  | tooLong
  | notList
  | notTruth
  | unreadableTruth
  | notWhole
  | unreadableWhole
  | wholeTooLarge
  | fraction
  | notFinite
  | notDecimal
  | unreadableDecimal
  | belowLeast
  | notAmongChoices
  | notObject
  | unreadableTime
  | malformed
  /-- A rule of the form itself is broken, and this is what it says. -/
  | rule (text : String)
  deriving DecidableEq, Repr

def Fault.text : Fault → String
  | missing => "missing"
  | notText => "string_type"
  | tooShort => "string_too_short"
  | tooLong => "string_too_long"
  | notList => "list_type"
  | notTruth => "bool_type"
  | unreadableTruth => "bool_parsing"
  | notWhole => "int_type"
  | unreadableWhole => "int_parsing"
  | wholeTooLarge => "int_parsing_size"
  | fraction => "int_from_float"
  | notFinite => "finite_number"
  | notDecimal => "float_type"
  | unreadableDecimal => "float_parsing"
  | belowLeast => "greater_than_equal"
  | notAmongChoices => "enum"
  | notObject => "model_attributes_type"
  | unreadableTime => "datetime_parsing"
  | malformed => "json_invalid"
  | rule _ => "value_error"

def Fault.message? : Fault → Option String
  | rule text => some ("Value error, " ++ text)
  | _ => none

structure Issue where
  place : List String
  fault : Fault
  /-- The value that has the fault: for a field that is missing, what it is missing from. -/
  found : Json
  deriving Repr

/-- A value that was read, or the issues that were found. -/
inductive Checked (α : Type) where
  | ok (a : α)
  | bad (issues : List Issue)

namespace Checked

variable {α β : Type}

/-- A reading with one fault of a value, at the place of the reading itself. -/
def fault (f : Fault) (found : Json) : Checked α := .bad [⟨[], f, found⟩]

/-- The reading of a part, with the name of the part in front of every place. -/
def under (name : String) : Checked α → Checked α
  | .ok a => .ok a
  | .bad issues => .bad (issues.map fun i => { i with place := name :: i.place })

/-- A reading whose value has to pass a second check. -/
def andThen (x : Checked α) (f : α → Checked β) : Checked β :=
  match x with
  | .ok a => f a
  | .bad issues => .bad issues

instance : Applicative Checked where
  pure := .ok
  seq f x :=
    match f, x () with
    | .ok f, .ok a => .ok (f a)
    | .bad i, .ok _ => .bad i
    | .ok _, .bad j => .bad j
    | .bad i, .bad j => .bad (i ++ j)

def toOption : Checked α → Option α
  | .ok a => some a
  | .bad _ => none

/-- All readings of a list. -/
def all : List (Checked α) → Checked (List α)
  | [] => .ok []
  | x :: rest => (· :: ·) <$> x <*> all rest

end Checked

end Workbench.Form
