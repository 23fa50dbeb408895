import Workbench.Path
import Workbench.Text.Digit

/-!
# Arguments of commands

The words after a command. A word that starts with a hyphen and goes on is a flag, everything else
is an operand. A flag with one hyphen stands for each of its letters.
-/

namespace Workbench.Arguments

def isFlag (word : String) : Bool := Text.startsWith word "-" && 1 < word.length

def operands (args : List String) : List String := args.filter fun a => !isFlag a

def hasFlag (args : List String) (letter : Char) : Bool :=
  args.any fun a =>
    isFlag a && !Text.startsWith a "--" && (Text.dropChars a 1).toList.contains letter

/-- The path of the directory and the last name that a path consists of. -/
def splitPath (path : String) : String × String :=
  let trimmed := if (Path.dropSlashes path).isEmpty then path else Path.dropSlashes path
  match (Path.pieces trimmed).reverse with
  | [] => (".", trimmed)
  | [_] => (".", trimmed)
  | name :: above =>
    let parent := "/".intercalate above.reverse
    (if parent.isEmpty then "/" else parent, name)

def unquoted (word : String) : String :=
  match word.toList with
  | q :: rest =>
    if (q == '\'' || q == '"') && rest.getLast? == some q then .ofList rest.dropLast else word
  | [] => word

def lineCount? (word : String) : Option Nat :=
  match Text.readInt word with
  | .ok n => if n < 0 then none else some n.toNat
  | .error _ => none

inductive LinesFault where
  | noCount
  | badCount (word : String)
  | noFile
  deriving DecidableEq, Repr

/-- The number of lines and the words that are left, read from the words of a command that shows
some lines. -/
def linesFrom (count : Nat) (files : List String) :
    List String → Except LinesFault (Nat × List String)
  | [] => .ok (count, files.reverse)
  | ["-n"] => .error .noCount
  | "-n" :: word :: rest =>
    match lineCount? word with
    | some n => linesFrom n files rest
    | none => .error (.badCount word)
  | word :: rest => linesFrom count (word :: files) rest

/-- The number of lines and the file that a command is to show; ten lines unless it says so. -/
def linesAndFile (args : List String) : Except LinesFault (Nat × String) :=
  match linesFrom 10 [] args with
  | .error e => .error e
  | .ok (_, []) => .error .noFile
  | .ok (n, file :: _) => .ok (n, file)

end Workbench.Arguments
