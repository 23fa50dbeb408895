import Workbench.Json.Value
import Workbench.Text.Digit
import Workbench.Text.Encoding

/-!
# Reading JSON text

The reader accepts the JSON grammar and the words `NaN`, `Infinity` and `-Infinity`. For a text it
does not accept it tells the place of the first fault, as the number of characters before it: the
place of the character that does not fit, or of the opening quote of a string that is not closed.
Inside the reader a place is the number of characters that are left.

What the grammar leaves open is settled by a dialect: how long numbers may be, and whether half of a
surrogate pair may stand alone.
-/

namespace Workbench.Json

/-- What a reader accepts where the grammar leaves it open. -/
structure Dialect where
  /-- The digits that a whole number may have, if there is a limit. -/
  wholeLimit : Option Nat
  /-- Whether that limit holds for the whole part of a decimal too. -/
  limitsDecimals : Bool
  /-- Whether half of a surrogate pair may stand alone; it is read as a replacement character. -/
  loneHalves : Bool
  deriving DecidableEq, Repr

namespace Dialect

/-- Numbers of any length and lone halves of surrogate pairs are accepted. -/
def unlimited : Dialect := ⟨none, false, true⟩

/-- Whole numbers may be as long as in any text, and lone halves of pairs are accepted. -/
def lenient : Dialect := ⟨some Text.digitLimit, false, true⟩

/-- Whole numbers may be as long as in any text, and no half of a pair stands alone. -/
def whole : Dialect := { lenient with loneHalves := false }

/-- No number may be longer than a whole number in any text, and no half of a pair stands alone. -/
def strict : Dialect := ⟨some Text.digitLimit, true, false⟩

end Dialect

inductive ReadError where
  | malformed (place : Nat)
  | numberTooLong
  deriving DecidableEq, Repr

open Text (isFirstHalf isSecondHalf isHalf ofHalves scalar)

def isSpace (c : Char) : Bool := c == ' ' || c == '\n' || c == '\r' || c == '\t'

def hexDigit? (c : Char) : Option Nat :=
  let n := c.toNat
  if 48 ≤ n && n ≤ 57 then some (n - 48)
  else if 97 ≤ n && n ≤ 102 then some (n - 87)
  else if 65 ≤ n && n ≤ 70 then some (n - 55)
  else none

def hex4? (a b c d : Char) : Option Nat := do
  let a ← hexDigit? a
  let b ← hexDigit? b
  let c ← hexDigit? c
  let d ← hexDigit? d
  return ((a * 16 + b) * 16 + c) * 16 + d

/-- The character that a letter after a backslash stands for. -/
def shortEscape? (c : Char) : Option Char :=
  match c with
  | '"' => some '"'
  | '\\' => some '\\'
  | '/' => some '/'
  | 'b' => some (Char.ofNat 8)
  | 'f' => some (Char.ofNat 12)
  | 'n' => some '\n'
  | 'r' => some '\r'
  | 't' => some '\t'
  | _ => none

/-- Reads a string after its opening quote. `start` is the place of that quote; the characters
read so far are kept last first. The text and what follows the closing quote are returned. -/
def readString (d : Dialect) (start : Nat) :
    List Char → List Char → Except Nat (List Char × List Char)
  | _, [] => .error start
  | acc, '"' :: rest => .ok (acc.reverse, rest)
  | _, ['\\'] => .error start
  | acc, '\\' :: 'u' :: a :: b :: c :: x :: rest =>
    match rest, hex4? a b c x with
    | [], _ => .error 5
    | rest, none => .error (rest.length + 5)
    | '\\' :: 'u' :: e :: f :: g :: h :: more, some n =>
      if isFirstHalf n && !more.isEmpty then
        match hex4? e f g h with
        | none => .error (more.length + 5)
        | some m =>
          if isSecondHalf m then readString d start (ofHalves n m :: acc) more
          else if !d.loneHalves then .error (more.length + 12)
          else readString d start (scalar n :: acc) ('\\' :: 'u' :: e :: f :: g :: h :: more)
      else if isHalf n && !d.loneHalves then .error (more.length + 12)
      else readString d start (scalar n :: acc) ('\\' :: 'u' :: e :: f :: g :: h :: more)
    | rest, some n =>
      if isHalf n && !d.loneHalves then .error (rest.length + 6)
      else readString d start (scalar n :: acc) rest
  | acc, '\\' :: c :: rest =>
    if c == 'u' then .error (rest.length + 1)
    else match shortEscape? c with
      | some x => readString d start (x :: acc) rest
      | none => .error (rest.length + 2)
  | acc, c :: rest =>
    if c.toNat < 32 then .error (rest.length + 1) else readString d start (c :: acc) rest
termination_by _ cs => cs.length

def digitsOf (cs : List Char) : List Char × List Char :=
  (cs.takeWhile Char.isDigit, cs.dropWhile Char.isDigit)

def natOf (ds : List Char) : Nat := ds.foldl (fun n c => 10 * n + (c.toNat - 48)) 0

def readFraction (cs : List Char) : Option (List Char) × List Char :=
  match cs with
  | '.' :: rest =>
    match digitsOf rest with
    | ([], _) => (none, cs)
    | (ds, more) => (some ds, more)
  | _ => (none, cs)

def readExponent (cs : List Char) : Option Int × List Char :=
  match cs with
  | e :: rest =>
    if e == 'e' || e == 'E' then
      let (negative, rest') := match rest with
        | '-' :: r => (true, r)
        | '+' :: r => (false, r)
        | r => (false, r)
      match digitsOf rest' with
      | ([], _) => (none, cs)
      | (ds, more) =>
        let n : Int := natOf ds
        (some (if negative then -n else n), more)
    else (none, cs)
  | [] => (none, cs)

structure NumberText where
  value : Json
  wholeDigits : List Char
  rest : List Char

def readNumber? (cs : List Char) : Option NumberText :=
  let (negative, body) := match cs with
    | '-' :: r => (true, r)
    | r => (false, r)
  let whole : List Char × List Char := match body with
    | '0' :: r => (['0'], r)
    | r => digitsOf r
  match whole with
  | ([], _) => none
  | (ds, rest) =>
    let (fraction, rest) := readFraction rest
    let (exponent, rest) := readExponent rest
    match fraction, exponent with
    | none, none =>
      let n : Int := natOf ds
      some ⟨.int (if negative then -n else n), ds, rest⟩
    | f, e =>
      let places := f.getD []
      some ⟨.real negative (natOf (ds ++ places)) (e.getD 0 - (places.length : Int)), ds, rest⟩

def Dialect.forbids (d : Dialect) (x : NumberText) : Bool :=
  (x.value matches .int _ || d.limitsDecimals) &&
    d.wholeLimit.any fun most => most < x.wholeDigits.length

def valueWords : List (List Char × Json) :=
  [("null".toList, .null), ("true".toList, .bool true), ("false".toList, .bool false),
   ("NaN".toList, .word .nan), ("Infinity".toList, .word .infinity),
   ("-Infinity".toList, .word .negativeInfinity)]

/-- Reads a word or a number. The place of the fault is where the value should begin. -/
def readScalar (d : Dialect) (cs : List Char) : Except ReadError (Json × List Char) :=
  match valueWords.find? fun w => w.1.isPrefixOf cs with
  | some (w, v) => .ok (v, cs.drop w.length)
  | none =>
    match readNumber? cs with
    | some x => if d.forbids x then .error .numberTooLong else .ok (x.value, x.rest)
    | none => .error (.malformed cs.length)

def skipSpace (cs : List Char) : List Char := cs.dropWhile isSpace

mutual

/-- Reads a value that begins right here. `fuel` bounds the number of values and separators. -/
def readValue (d : Dialect) : Nat → List Char → Except ReadError (Json × List Char)
  | 0, cs => .error (.malformed cs.length)
  | fuel + 1, cs =>
    match cs with
    | '"' :: rest =>
      match readString d cs.length [] rest with
      | .error e => .error (.malformed e)
      | .ok (s, more) => .ok (.str (.ofList s), more)
    | '{' :: rest =>
      match skipSpace rest with
      | '}' :: more => .ok (.obj [], more)
      | rest => readFields d fuel [] rest
    | '[' :: rest =>
      match skipSpace rest with
      | ']' :: more => .ok (.arr [], more)
      | rest => readItems d fuel [] rest
    | cs => readScalar d cs

def readItems (d : Dialect) :
    Nat → List Json → List Char → Except ReadError (Json × List Char)
  | 0, _, cs => .error (.malformed cs.length)
  | fuel + 1, acc, cs =>
    match readValue d fuel cs with
    | .error e => .error e
    | .ok (v, rest) =>
      match skipSpace rest with
      | ']' :: more => .ok (.arr (v :: acc).reverse, more)
      | ',' :: more => readItems d fuel (v :: acc) (skipSpace more)
      | rest => .error (.malformed rest.length)

def readFields (d : Dialect) :
    Nat → List (String × Json) → List Char → Except ReadError (Json × List Char)
  | 0, _, cs => .error (.malformed cs.length)
  | fuel + 1, acc, cs =>
    match cs with
    | '"' :: rest =>
      match readString d cs.length [] rest with
      | .error e => .error (.malformed e)
      | .ok (name, more) =>
        match skipSpace more with
        | ':' :: more =>
          match readValue d fuel (skipSpace more) with
          | .error e => .error e
          | .ok (v, rest) =>
            match skipSpace rest with
            | '}' :: more => .ok (.obj ((.ofList name, v) :: acc).reverse, more)
            | ',' :: more => readFields d fuel ((.ofList name, v) :: acc) (skipSpace more)
            | rest => .error (.malformed rest.length)
        | rest => .error (.malformed rest.length)
    | cs => .error (.malformed cs.length)

end

/-- Reads a whole text as one value, or tells how many characters come before the first fault. -/
def parse (d : Dialect) (text : String) : Except ReadError Json :=
  let cs := text.toList
  match readValue d (2 * cs.length + 2) (skipSpace cs) with
  | .error (.malformed left) => .error (.malformed (cs.length - left))
  | .error .numberTooLong => .error .numberTooLong
  | .ok (v, rest) =>
    match skipSpace rest with
    | [] => .ok v
    | rest => .error (.malformed (cs.length - rest.length))

end Workbench.Json
