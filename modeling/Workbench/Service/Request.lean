import Workbench.Json.Reader
import Workbench.Path
import Workbench.Text.Percent

/-!
# Requests

What a client sends: a method, a path, the fields of a query, and perhaps a body. A path leads
through pieces. Single dots among them lead nowhere and two dots lead back, as far as there is
something to go back from; percent escapes count only after that, so that an escaped slash
separates pieces and an escaped dot is a name.
-/

namespace Workbench.Service

inductive Method where
  | get
  | head
  | post
  | put
  | patch
  | delete
  | other
  deriving DecidableEq, Repr

def Method.ofText : String → Method
  | "GET" => .get
  | "HEAD" => .head
  | "POST" => .post
  | "PUT" => .put
  | "PATCH" => .patch
  | "DELETE" => .delete
  | _ => .other

/-! ## Targets -/

/-- Where a request goes, and the fields of its query. -/
structure Target where
  path : String
  query : List (String × String)
  deriving Repr

namespace Target

/-- What stands in front of the first of a mark, and what stands behind it. -/
def cut (mark : Char) (cs : List Char) : List Char × List Char :=
  (cs.takeWhile (· != mark), (cs.dropWhile (· != mark)).drop 1)

/-- A name or value in a query, in which a plus sign is a blank. -/
def plain (cs : List Char) : String :=
  Text.unescape (.ofList (cs.map fun c => if c == '+' then ' ' else c))

def fieldsOf (query : List Char) : List (String × String) :=
  (query.splitOn '&').filterMap fun field =>
    if field.isEmpty then none
    else
      let (name, value) := cut '=' field
      some (plain name, plain value)

/-- The path of a written target behind its authority, which begins with two slashes. -/
def pathOf : List Char → List Char
  | '/' :: '/' :: rest => rest.dropWhile (· != '/')
  | path => path

/-- Reads a target: an authority may stand in front of the path, a query behind it, and a fragment,
which does not count, at the end. -/
def ofText (text : String) : Target :=
  let (path, query) := cut '?' (cut '#' text.toList).1
  ⟨.ofList ('/' :: (pathOf path).dropWhile (· == '/')), fieldsOf query⟩

end Target

/-! ## Requests -/

structure Request where
  method : Method
  path : String
  /-- The fields of the query, of which the last with a name counts. -/
  query : List (String × String) := []
  /-- The octets of the body; where there are none there is no body. -/
  body : List Nat := []
  deriving Repr

inductive BodyFault where
  | malformed (place : Nat)
  /-- It is no text, or holds a number that is too long to be read. -/
  | unreadable
  /-- A string in it holds half of a surrogate pair alone. -/
  | loneHalf
  deriving DecidableEq, Repr

namespace Request

def pass (passed : List String) (piece : String) : List String :=
  if piece == "." then passed
  else if piece == ".." then if passed == [""] then passed else passed.dropLast
  else passed ++ [piece]

def pieces (r : Request) : List String :=
  let plain := (Path.pieces r.path).foldl pass []
  match Path.pieces (Text.unescape ("/".intercalate plain)) with
  | "" :: rest => rest
  | all => all

def queryFields (r : Request) : List (String × Json) := r.query.map fun (k, v) => (k, .str v)

/-- The value that the body writes. It is refused where half of a surrogate pair stands alone in one
of its strings: such a string is no text, and nothing here could hold it. -/
def bodyValue (r : Request) : Except BodyFault (Option Json) :=
  if r.body.isEmpty then .ok none
  else
    match Text.decodeTold? r.body with
    | none => .error .unreadable
    | some written =>
      match Json.parse .lenient written.text, Json.parse .whole written.text with
      | .error (.malformed place), _ => .error (.malformed place)
      | .error .numberTooLong, _ => .error .unreadable
      | .ok _, .error _ => .error .loneHalf
      | .ok _, .ok v => if written.isWhole then .ok (some v) else .error .loneHalf

end Request

end Workbench.Service
