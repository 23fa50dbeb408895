import Workbench.Json.Value
import Workbench.Number.Binary64

/-!
# Numbers among JSON values

The binary floating-point value of a number, and whether a value has a text at all: a number word,
or a decimal beyond every finite value, cannot be written as JSON.
-/

namespace Workbench.Json

/-- The binary value of a decimal or a number word. -/
def float? : Json → Option Float
  | .real negative digits exponent => some (Number.ofDecimal negative digits exponent)
  | .word .nan => some (0.0 / 0.0)
  | .word .infinity => some (1.0 / 0.0)
  | .word .negativeInfinity => some (-(1.0 / 0.0))
  | _ => none

mutual

/-- Whether every number in a value has a finite binary value or is a whole number. -/
def isFinite : Json → Bool
  | .real negative digits exponent => (Number.ofDecimal negative digits exponent).isFinite
  | .word _ => false
  | .arr items => areFinite items
  | .obj fields => areFiniteFields fields
  | _ => true

/-- Whether `isFinite` holds for every item. -/
def areFinite : List Json → Bool
  | [] => true
  | v :: rest => isFinite v && areFinite rest

/-- Whether `isFinite` holds for the value of every field. -/
def areFiniteFields : List (String × Json) → Bool
  | [] => true
  | (_, v) :: rest => isFinite v && areFiniteFields rest

end

end Workbench.Json
