/-!
# Name patterns

Patterns for single names: `*` stands for any characters, `?` for one, and a bracketed set for one
of its members. A set that starts with an exclamation mark stands for one character outside it. A
closing bracket right at the start of a set is a member, a hyphen between two members makes a range
of code points, and ranges that run backwards are empty. Such ranges are taken out before the rest
of the set is read, so that an exclamation mark behind them comes to stand at the start. A bracket
that is never closed stands for itself. There are no escapes, and the whole name has to match.
-/

namespace Workbench.Text

inductive CharSet where
  | any
  | never
  /-- The members and ranges listed, or everything else when `negated`. -/
  | members (negated : Bool) (single : List Char) (ranges : List (Char × Char))
  deriving DecidableEq, Repr

def CharSet.admits : CharSet → Char → Bool
  | .any, _ => true
  | .never, _ => false
  | .members negated single ranges, c =>
    let inside := single.contains c ||
      ranges.any fun r => r.1.toNat ≤ c.toNat && c.toNat ≤ r.2.toNat
    inside != negated

inductive GlobUnit where
  | star
  | one (set : CharSet)
  deriving DecidableEq, Repr

/-- Takes characters up to the first hyphen, leaving the first `keep` characters unexamined. The
part before the hyphen and the part after it are returned. -/
def cutAtHyphen : Nat → List Char → Option (List Char × List Char)
  | _, [] => none
  | 0, c :: rest =>
    if c == '-' then some ([], rest) else (cutAtHyphen 0 rest).map fun p => (c :: p.1, p.2)
  | n + 1, c :: rest => (cutAtHyphen n rest).map fun p => (c :: p.1, p.2)

/-- Cuts the inside of a set at the hyphens that make ranges. `keep` characters are never taken for
such a hyphen; after a cut, two more characters are kept. A hyphen at the very end is a member of
the part before it. -/
def hyphenParts : Nat → Nat → List Char → List (List Char)
  | 0, _, cs => [cs]
  | fuel + 1, keep, cs =>
    match cutAtHyphen keep cs with
    | none => [cs]
    | some (part, []) => [part ++ ['-']]
    | some (part, rest) => part :: hyphenParts fuel 2 rest

/-- Joins neighbouring parts whose range would run backwards, dropping both ends of the range. -/
def dropBackward : List (List Char) → List (List Char)
  | [] => []
  | p :: rest =>
    match dropBackward rest with
    | [] => [p]
    | q :: more =>
      match p.getLast?, q.head? with
      | some a, some b =>
        if b.toNat < a.toNat then (p.dropLast ++ q.tail) :: more else p :: q :: more
      | _, _ => p :: q :: more

inductive SetToken where
  | char (c : Char)
  | hyphen
  deriving DecidableEq, Repr

/-- The characters of parts, with a hyphen between any two of them. -/
def setTokens (parts : List (List Char)) : List SetToken :=
  [SetToken.hyphen].intercalate (parts.map fun p => p.map .char)

def CharSet.withChar (c : Char) : CharSet → CharSet
  | .members negated single ranges => .members negated (c :: single) ranges
  | s => s

def CharSet.withRange (a b : Char) : CharSet → CharSet
  | .members negated single ranges => .members negated single ((a, b) :: ranges)
  | s => s

/-- The set of what tokens list. A hyphen between two characters makes a range of them; one that
has no character before it is a member. -/
def listedSet (negated : Bool) : List SetToken → CharSet
  | [] => .members negated [] []
  | .char a :: .hyphen :: .char b :: rest => (listedSet negated rest).withRange a b
  | .char a :: rest => (listedSet negated rest).withChar a
  | .hyphen :: rest => (listedSet negated rest).withChar '-'

/-- The set that parts denote. An exclamation mark at the very start stands for the complement. -/
def setOfParts (parts : List (List Char)) : CharSet :=
  match setTokens parts with
  | [] => .never
  | [.char '!'] => .any
  | .char '!' :: rest => listedSet true rest
  | tokens => listedSet false tokens

/-- The set written by the characters between two brackets. -/
def setOf (inside : List Char) : CharSet :=
  if inside.contains '-' then
    let keep := if inside.head? == some '!' then 2 else 1
    setOfParts (dropBackward (hyphenParts inside.length keep inside))
  else setOfParts [inside]

/-- Splits the characters after an opening bracket into the inside of the set and the rest after
the closing bracket, if there is one. -/
def closeSet (cs : List Char) : Option (List Char × List Char) :=
  let bang := if cs.head? == some '!' then 1 else 0
  let lead := if (cs.drop bang).head? == some ']' then bang + 1 else bang
  let body := cs.drop lead
  match body.dropWhile (· != ']') with
  | [] => none
  | _ :: rest => some (cs.take lead ++ body.takeWhile (· != ']'), rest)

/-- The units of a pattern. Every unit takes at least one character, so as many steps as there are
characters are enough. -/
def globUnits : Nat → List Char → List GlobUnit
  | 0, _ => []
  | _, [] => []
  | fuel + 1, c :: rest =>
    if c == '*' then .star :: globUnits fuel rest
    else if c == '?' then .one .any :: globUnits fuel rest
    else if c == '[' then
      match closeSet rest with
      | some (inside, more) => .one (setOf inside) :: globUnits fuel more
      | none => .one (.members false ['['] []) :: globUnits fuel rest
    else .one (.members false [c] []) :: globUnits fuel rest

/-- For every place of a list, whether some flag is set there or behind it. -/
def setBehind : List Bool → List Bool
  | [] => []
  | b :: rest =>
    let flags := setBehind rest
    (b || flags.headD false) :: flags

/-- For every end of a name, from the whole name to nothing, whether units match all of it. -/
def endsMatched : List GlobUnit → List Char → List Bool
  | [], cs => List.replicate cs.length false ++ [true]
  | .star :: more, cs => setBehind (endsMatched more cs)
  | .one set :: more, cs =>
    List.zipWith (fun c b => set.admits c && b) cs (endsMatched more cs).tail ++ [false]

def globMatch (pattern name : String) : Bool :=
  let cs := pattern.toList
  (endsMatched (globUnits cs.length cs) name.toList).headD false

end Workbench.Text
