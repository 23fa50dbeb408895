import Workbench.Text.Utf8

/-!
# SHA-1

The digest of a sequence of octets, as forty hexadecimal digits. The message is padded to a whole
number of blocks of sixteen words, and each block is mixed into a state of five words.
-/

namespace Workbench.Sha1

structure State where
  a : UInt32
  b : UInt32
  c : UInt32
  d : UInt32
  e : UInt32
  deriving DecidableEq, Repr

def initial : State := ⟨0x67452301, 0xEFCDAB89, 0x98BADCFE, 0x10325476, 0xC3D2E1F0⟩

def rotl (x : UInt32) (n : UInt32) : UInt32 := (x <<< n) ||| (x >>> (32 - n))

/-- The eight octets of a length, highest first. -/
def lengthOctets (n : Nat) : List Nat :=
  [56, 48, 40, 32, 24, 16, 8, 0].map fun k => n >>> k % 256

/-- The padded message: a one bit, zeros, and the length in bits. -/
def pad (msg : List Nat) : List Nat :=
  msg ++ 0x80 :: (List.replicate ((119 - msg.length % 64) % 64) 0 ++ lengthOctets (8 * msg.length))

def wordsOf : List Nat → List UInt32
  | a :: b :: c :: d :: rest =>
    (((a * 256 + b) * 256 + c) * 256 + d).toUInt32 :: wordsOf rest
  | _ => []

/-- The blocks of a list of words, sixteen at a time. `fuel` bounds their number. -/
def blocksOf : Nat → List UInt32 → List (List UInt32)
  | 0, _ => []
  | _, [] => []
  | fuel + 1, ws => ws.take 16 :: blocksOf fuel (ws.drop 16)

def schedule (block : List UInt32) : Array UInt32 :=
  (List.range 64).foldl (fun ws i =>
    let w (k : Nat) := ws.getD (i + k) 0
    ws.push (rotl (w 13 ^^^ w 8 ^^^ w 2 ^^^ w 0) 1)) block.toArray

def round (s : State) (i : Nat) (w : UInt32) : State :=
  let (f, k) : UInt32 × UInt32 :=
    if i < 20 then ((s.b &&& s.c) ||| ((~~~ s.b) &&& s.d), 0x5A827999)
    else if i < 40 then (s.b ^^^ s.c ^^^ s.d, 0x6ED9EBA1)
    else if i < 60 then ((s.b &&& s.c) ||| (s.b &&& s.d) ||| (s.c &&& s.d), 0x8F1BBCDC)
    else (s.b ^^^ s.c ^^^ s.d, 0xCA62C1D6)
  ⟨rotl s.a 5 + f + s.e + k + w, s.a, rotl s.b 30, s.c, s.d⟩

def absorb (s : State) (block : List UInt32) : State :=
  let ws := schedule block
  let t := (List.range 80).foldl (fun t i => round t i (ws.getD i 0)) s
  ⟨s.a + t.a, s.b + t.b, s.c + t.c, s.d + t.d, s.e + t.e⟩

def hexWord (w : UInt32) : List Char :=
  let ds := Nat.toDigits 16 w.toNat
  List.replicate (8 - ds.length) '0' ++ ds

/-- The digest of octets, as hexadecimal digits. -/
def hexDigest (msg : List Nat) : String :=
  let ws := wordsOf (pad msg)
  let s := (blocksOf ws.length ws).foldl absorb initial
  .ofList ([s.a, s.b, s.c, s.d, s.e].flatMap hexWord)

end Workbench.Sha1
