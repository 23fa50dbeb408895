import Workbench.Form.Checked
import Workbench.Form.NumberText
import Workbench.Json.Number
import Workbench.Text.Lowercase

/-!
# Reading fields

How the values of fields are read. Readings are lenient where no meaning is lost: a whole number
may be written as a decimal without a fraction or as text, a truth value as one of a few words. No
other kind of value is ever read as text.
-/

namespace Workbench.Form

abbrev Reading (α : Type) := Json → Checked α

variable {α : Type}

/-- The words for truth values, in lower case. -/
def truthOfWord? (word : String) : Option Bool :=
  if ["0", "off", "f", "false", "n", "no"].contains word then some false
  else if ["1", "on", "t", "true", "y", "yes"].contains word then some true
  else none

def floatOfInt (n : Int) : Float := Number.ofDecimal (n < 0) n.natAbs 0

/-- Whether a whole number fits into a word of 64 bits. -/
def fitsWord (n : Int) : Bool :=
  let limit : Int := (Nat.pow 2 63 : Nat)
  decide (-limit ≤ n) && decide (n < limit)

/-- The whole number that a decimal is, if it is one whose magnitude is below `2 ^ 63`. -/
def wordOfFloat? (x : Float) : Option Int :=
  (Number.whole? x).filter fun n => n.natAbs < Nat.pow 2 63

def text : Reading String
  | .str s => .ok s
  | v => .fault .notText v

def textFrom (least : Nat) : Reading String := fun v =>
  (text v).andThen fun s => if s.length < least then .fault .tooShort v else .ok s

def textUpTo (most : Nat) : Reading String := fun v =>
  (text v).andThen fun s => if most < s.length then .fault .tooLong v else .ok s

def whole : Reading Int := fun v =>
  match v with
  | .int n => .ok n
  | .bool b => .ok (if b then 1 else 0)
  | .str s =>
    match wholeOfText s with
    | .ok n => .ok n
    | .error .malformed => .fault .unreadableWhole v
    | .error .tooLong => .fault .wholeTooLarge v
  | v =>
    match v.float? with
    | none => .fault .notWhole v
    | some x =>
      if !x.isFinite then .fault .notFinite v
      else if (Number.whole? x).isNone then .fault .fraction v
      else
        match wordOfFloat? x with
        | some n => .ok n
        | none => .fault .wholeTooLarge v

def wholeFrom (least : Nat) : Reading Nat := fun v =>
  (whole v).andThen fun n => if n < least then .fault .belowLeast v else .ok n.toNat

/-- Reads a decimal. A whole number beyond every finite decimal is none. -/
def decimal : Reading Float := fun v =>
  match v with
  | .int n =>
    let x := floatOfInt n
    if x.isFinite then .ok x else .fault .notDecimal v
  | .bool b => .ok (if b then 1.0 else 0.0)
  | .str s =>
    match decimalOfText? s with
    | some x => .ok x
    | none => .fault .unreadableDecimal v
  | v =>
    match v.float? with
    | some x => .ok x
    | none => .fault .notDecimal v

/-- Reads a decimal from zero on. What is not a number does not lie there. -/
def decimalFromZero : Reading Float := fun v =>
  (decimal v).andThen fun x => if 0.0 ≤ x then .ok x else .fault .belowLeast v

def truthOfInt (v : Json) (n : Int) : Checked Bool :=
  if n == 0 then .ok false else if n == 1 then .ok true else .fault .unreadableTruth v

/-- Reads a truth value. A number that is no word of 64 bits is none. -/
def truth : Reading Bool := fun v =>
  match v with
  | .bool b => .ok b
  | .int n => if fitsWord n then truthOfInt v n else .fault .notTruth v
  | .str s =>
    match truthOfWord? (Text.lower s) with
    | some b => .ok b
    | none => .fault .unreadableTruth v
  | v =>
    match v.float?.bind wordOfFloat? with
    | some n => truthOfInt v n
    | none => .fault .notTruth v

def choice (ofText? : String → Option α) : Reading α := fun v =>
  match v.str?.bind ofText? with
  | some a => .ok a
  | none => .fault .notAmongChoices v

def nullable (read : Reading α) : Reading (Option α)
  | .null => .ok none
  | v => some <$> read v

/-- Reads the items of a list from a number on. -/
def itemsFrom (read : Reading α) : Nat → List Json → Checked (List α)
  | _, [] => .ok []
  | k, v :: rest => (· :: ·) <$> (read v).under (toString k) <*> itemsFrom read (k + 1) rest

def listOf (read : Reading α) : Reading (List α)
  | .arr items => itemsFrom read 0 items
  | v => .fault .notList v

def required (fields : List (String × Json)) (name : String) (read : Reading α) : Checked α :=
  match Json.lastField? name fields with
  | some v => (read v).under name
  | none => (Checked.fault .missing (.obj fields)).under name

def optional (fields : List (String × Json)) (name : String) (default : α) (read : Reading α) :
    Checked α :=
  match Json.lastField? name fields with
  | some v => (read v).under name
  | none => .ok default

end Workbench.Form
