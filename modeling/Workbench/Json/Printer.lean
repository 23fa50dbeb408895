import Workbench.Json.Value

/-!
# Writing JSON text

Two forms of one text: on one line without space, and with every item on a line of its own,
indented by two blanks per level. Only quotes, backslashes and control characters are escaped.
-/

namespace Workbench.Json

def escapeChar (c : Char) : List Char :=
  match c with
  | '"' => ['\\', '"']
  | '\\' => ['\\', '\\']
  | '\n' => ['\\', 'n']
  | '\r' => ['\\', 'r']
  | '\t' => ['\\', 't']
  | c =>
    let n := c.toNat
    if n == 8 then ['\\', 'b']
    else if n == 12 then ['\\', 'f']
    else if n < 32 then
      let ds := Nat.toDigits 16 n
      '\\' :: 'u' :: (List.replicate (4 - ds.length) '0' ++ ds)
    else [c]

def quote (s : String) : String := .ofList ('"' :: (s.toList.flatMap escapeChar ++ ['"']))

/-- A decimal, with an exponent unless the exponent is nought. -/
def realText (negative : Bool) (digits : Nat) (exponent : Int) : String :=
  (if negative then "-" else "") ++ toString digits ++
    (if exponent == 0 then ".0" else "e" ++ toString exponent)

def wordText : NumberWord → String
  | .nan => "NaN"
  | .infinity => "Infinity"
  | .negativeInfinity => "-Infinity"

mutual

def compact : Json → String
  | .null => "null"
  | .bool b => if b then "true" else "false"
  | .int n => toString n
  | .real negative digits exponent => realText negative digits exponent
  | .word w => wordText w
  | .str s => quote s
  | .arr items => "[" ++ ",".intercalate (compactItems items) ++ "]"
  | .obj fields => "\x7b" ++ ",".intercalate (compactFields fields) ++ "\x7d"

def compactItems : List Json → List String
  | [] => []
  | v :: rest => compact v :: compactItems rest

def compactFields : List (String × Json) → List String
  | [] => []
  | (k, v) :: rest => (quote k ++ ":" ++ compact v) :: compactFields rest

end

def newLine (level : Nat) : String := "\n" ++ .ofList (List.replicate (2 * level) ' ')

/-- Parts between brackets, each on its own line, or the bare brackets when there are none. -/
def block (opening closing : String) (level : Nat) (parts : List String) : String :=
  if parts.isEmpty then opening ++ closing
  else opening ++ newLine (level + 1) ++ ("," ++ newLine (level + 1)).intercalate parts ++
    newLine level ++ closing

mutual

/-- A value with its parts on lines of their own, as it stands at a level. -/
def pretty (level : Nat) : Json → String
  | .null => "null"
  | .bool b => if b then "true" else "false"
  | .int n => toString n
  | .real negative digits exponent => realText negative digits exponent
  | .word w => wordText w
  | .str s => quote s
  | .arr items => block "[" "]" level (prettyItems (level + 1) items)
  | .obj fields => block "\x7b" "\x7d" level (prettyFields (level + 1) fields)

def prettyItems (level : Nat) : List Json → List String
  | [] => []
  | v :: rest => pretty level v :: prettyItems level rest

def prettyFields (level : Nat) : List (String × Json) → List String
  | [] => []
  | (k, v) :: rest => (quote k ++ ": " ++ pretty level v) :: prettyFields level rest

end

end Workbench.Json
