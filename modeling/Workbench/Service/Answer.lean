import Workbench.Service.Body
import Workbench.Service.Request
import Workbench.Terminal.Store

/-!
# Answers

What a client gets: a status and a body. A problem is why a request is not answered as it should
be; every problem has an answer of its own, whose status says what sort of problem it is.
-/

namespace Workbench

def RefusalKind.status : RefusalKind → Nat
  | notFound | noSuchParent => 404
  | alreadyExists | notEmpty | invalidMove => 409
  | notADirectory | isADirectory | invalidName | invalidOperation => 400
  | bridgeUnavailable | bridgeFailure => 502
  | timeout => 504

def capitalized : List Char → List Char
  | [] => []
  | c :: rest => c.toUpper :: rest

def RefusalKind.title (k : RefusalKind) : String :=
  " ".intercalate ((k.text.toList.splitOn '_').map fun w => .ofList (capitalized w))

def FileFault.sortText : FileFault → String
  | notFound => "FileNotFoundError"
  | alreadyThere => "FileExistsError"
  | notDirectory => "NotADirectoryError"
  | isDirectory => "IsADirectoryError"
  | busy | invalid | nameTooLong | tooManyLinks => "OSError"

namespace Service

structure Answer where
  status : Nat
  body : Json

inductive Problem where
  | unknownPath
  | wrongMethod
  | closed
  | unreadableBody
  /-- The body has a string that is no text. -/
  | loneHalf
  | invalid (issues : List Form.Issue)
  | refused (cause : Refusal)
  | lost (id : NodeId)
  | noSuchPath (path : String)
  | noSuchEntry (entryId : String)
  | lastTerminal
  | desk (fault : DeskFault)
  | store (fault : Store.Fault)
  /-- The tree cannot be visited from its root. -/
  | unvisitable (fault : Arena.VisitError)

/-- An answer as it is sent to a request with a method; some requests get no bodies. -/
def Answer.sentTo (a : Answer) : Method → Answer
  | .head => { a with body := .null }
  | _ => a

def Answer.detail (status : Nat) (text : String) : Answer := ⟨status, .obj [("detail", .str text)]⟩

def Answer.refusal (kind : RefusalKind) (message : String) : Answer :=
  ⟨kind.status,
    .obj [("error", .str kind.title), ("detail", .str message), ("kind", .str kind.text)]⟩

def Answer.noTerminal (id : String) : Answer :=
  ⟨404, .obj [("error", .str "Terminal Not Found"),
    ("detail", .str ("The terminal '" ++ id ++ "' does not exist")), ("terminal_id", .str id)]⟩

def Answer.badValue (message : String) : Answer :=
  ⟨400, .obj [("error", .str "Invalid Value"), ("detail", .str message),
    ("type", .str "ValueError")]⟩

def Answer.badState (message : String) : Answer :=
  ⟨500, .obj [("error", .str "Runtime Error"), ("detail", .str message),
    ("type", .str "RuntimeError")]⟩

def Answer.unexpected (sort : String) : Answer :=
  ⟨500, .obj [("error", .str "Internal Server Error"),
    ("detail", .str "An unexpected error occurred"), ("type", .str sort)]⟩

def Answer.deskFault (f : DeskFault) : Answer :=
  match f with
  | .notFound id => .noTerminal id
  | .unknownShell _ | .unknownMode _ | .numberTooLong => .badValue f.message
  | .shutDown _ | .notStored => .badState f.message

/-- What is said where a number that is not finite would have to be written. -/
def notFiniteText : String := "Out of range float values are not JSON compliant"

/-- The answer to issues with fields. It comes with the values that have the faults, so they have to
be ones that can be written. -/
def Answer.invalid (issues : List Form.Issue) : Answer :=
  if issues.all fun i => i.found.isFinite then
    ⟨422, .obj [("errors", .arr (issues.map issueBody))]⟩
  else .badValue notFiniteText

def Problem.answer : Problem → Answer
  | unknownPath => .detail 404 "Not Found"
  | wrongMethod => .detail 405 "Method Not Allowed"
  | closed => .badState "Workspace not initialized. Call initialize_workspace() first."
  | unreadableBody | loneHalf => .detail 400 "There was an error parsing the body"
  | invalid issues => .invalid issues
  | refused cause => .refusal cause.kind cause.message
  | lost _ | unvisitable _ => .unexpected "KeyError"
  | noSuchPath path => .refusal .notFound (path ++ ": No such file or directory")
  | noSuchEntry id => .refusal .notFound ("No such entry: " ++ id)
  | lastTerminal => .refusal .invalidOperation "Cannot close the last terminal"
  | desk f => .deskFault f
  | store f =>
    match f with
    | .notConfigured => .badState f.message
    | .badPath => .badValue f.message
    | .file fault _ => .unexpected fault.sortText

end Service

end Workbench
