import Workbench.Sha1
import Mathlib.Data.List.Basic

/-!
# SHA-1 on numbers

The digest, worked out with natural numbers in place of machine words and with the schedule of a
block as a list, latest word first. It is the same digest (`hexDigest_eq_numbersDigest`), in a form
that is quickly evaluated.
-/

namespace Workbench.Sha1

/-! ## The padded message -/

theorem length_pad (msg : List Nat) : 64 ∣ (pad msg).length := by
  simp only [pad, lengthOctets, List.length_append, List.length_cons, List.length_replicate,
    List.length_map, List.length_nil]
  omega

theorem length_wordsOf (octets : List Nat) : (wordsOf octets).length = octets.length / 4 := by
  fun_induction wordsOf octets with
  | case1 a b c d rest ih =>
    simp only [List.length_cons, ih]
    omega
  | case2 octets h =>
    match octets, h with
    | [], _ | [_], _ | [_, _], _ | [_, _, _], _ => simp
    | a :: b :: c :: d :: rest, h => exact absurd rfl (h a b c d rest)

theorem length_of_mem_blocksOf {fuel : Nat} {ws block : List UInt32} (hd : 16 ∣ ws.length)
    (hmem : block ∈ blocksOf fuel ws) : block.length = 16 := by
  fun_induction blocksOf fuel ws with
  | case1 => cases hmem
  | case2 => cases hmem
  | case3 fuel ws hne ih =>
    have hpos : 0 < ws.length := List.length_pos_of_ne_nil hne
    obtain rfl | hrest := List.mem_cons.1 hmem
    · rw [List.length_take]
      omega
    · exact ih (by rw [List.length_drop]; omega) hrest

/-! ## Words as numbers -/

/-- A state with numbers in place of words. -/
structure Numbers where
  a : Nat
  b : Nat
  c : Nat
  d : Nat
  e : Nat

def State.numbers (s : State) : Numbers :=
  ⟨s.a.toNat, s.b.toNat, s.c.toNat, s.d.toNat, s.e.toNat⟩

namespace Numbers

def sum (x y : Nat) : Nat := (x + y) % 4294967296

def rotl (x n : Nat) : Nat := (x <<< n % 4294967296) ||| (x >>> (32 - n))

/-- The word that follows those of a schedule. -/
def next (ws : List Nat) : Nat :=
  rotl (ws.getD 2 0 ^^^ ws.getD 7 0 ^^^ ws.getD 13 0 ^^^ ws.getD 15 0) 1

/-- The schedule of a block with some more words, the last word first. -/
def schedule (block : List Nat) : Nat → List Nat
  | 0 => block.reverse
  | n + 1 => next (schedule block n) :: schedule block n

def round (s : Numbers) (i w : Nat) : Numbers :=
  let (f, k) : Nat × Nat :=
    if i < 20 then ((s.b &&& s.c) ||| ((4294967295 - s.b) &&& s.d), 0x5A827999)
    else if i < 40 then (s.b ^^^ s.c ^^^ s.d, 0x6ED9EBA1)
    else if i < 60 then ((s.b &&& s.c) ||| (s.b &&& s.d) ||| (s.c &&& s.d), 0x8F1BBCDC)
    else (s.b ^^^ s.c ^^^ s.d, 0xCA62C1D6)
  ⟨sum (sum (sum (sum (rotl s.a 5) f) s.e) k) w, s.a, rotl s.b 30, s.c, s.d⟩

/-- Rounds with the words of a schedule, counted from a number on. -/
def rounds : Nat → Numbers → List Nat → Numbers
  | _, s, [] => s
  | i, s, w :: ws => rounds (i + 1) (s.round i w) ws

def absorb (s : Numbers) (block : List Nat) : Numbers :=
  let t := rounds 0 s (schedule block 64).reverse
  ⟨sum s.a t.a, sum s.b t.b, sum s.c t.c, sum s.d t.d, sum s.e t.e⟩

end Numbers

theorem toNat_rotl_one (x : UInt32) : (rotl x 1).toNat = Numbers.rotl x.toNat 1 := by
  simp [rotl, Numbers.rotl]

theorem numbers_round (s : State) (i : Nat) (w : UInt32) :
    (round s i w).numbers = s.numbers.round i w.toNat := by
  simp only [round, Numbers.round]
  split_ifs <;> simp [State.numbers, Numbers.sum, rotl, Numbers.rotl]

theorem toNat_getD {ws : Array UInt32} {i k : Nat} (h : i + k + 1 = ws.size) :
    (ws.getD i 0).toNat = (ws.toList.map UInt32.toNat).reverse.getD k 0 := by
  have hi : i < ws.size := by omega
  have hk : k < (ws.toList.map UInt32.toNat).reverse.length := by simp; omega
  have hlast : ws.size - 1 - k = i := by omega
  simp [Array.getD, hi, List.getD, List.getElem?_eq_getElem hk, hlast]

/-- The schedule of a block after some more words. -/
def extended (block : List UInt32) (n : Nat) : Array UInt32 :=
  (List.range n).foldl (fun ws i =>
    let w (k : Nat) := ws.getD (i + k) 0
    ws.push (rotl (w 13 ^^^ w 8 ^^^ w 2 ^^^ w 0) 1)) block.toArray

theorem extended_succ (block : List UInt32) (n : Nat) :
    extended block (n + 1) =
      (extended block n).push (rotl ((extended block n).getD (n + 13) 0 ^^^
        (extended block n).getD (n + 8) 0 ^^^ (extended block n).getD (n + 2) 0 ^^^
        (extended block n).getD n 0) 1) := by
  rw [extended, List.range_succ, List.foldl_append]
  rfl

theorem size_extended (block : List UInt32) (n : Nat) :
    (extended block n).size = block.length + n := by
  induction n with
  | zero => rfl
  | succ n ih => rw [extended_succ, Array.size_push, ih, Nat.add_assoc]

theorem numbers_extended {block : List UInt32} (hb : block.length = 16) (n : Nat) :
    ((extended block n).toList.map UInt32.toNat).reverse =
      Numbers.schedule (block.map UInt32.toNat) n := by
  induction n with
  | zero => simp [extended, Numbers.schedule]
  | succ n ih =>
    have hsize := size_extended block n
    rw [Numbers.schedule, ← ih, Numbers.next, ← toNat_getD (i := n + 13),
      ← toNat_getD (i := n + 8), ← toNat_getD (i := n + 2), ← toNat_getD (i := n), extended_succ]
    · simp [toNat_rotl_one]
    all_goals omega

theorem numbers_foldl_round (ws rest : List UInt32) (i : Nat) (s : State)
    (h : ws.drop i = rest) :
    ((List.range' i rest.length).foldl (fun t i => round t i (ws.getD i 0)) s).numbers =
      s.numbers.rounds i (rest.map UInt32.toNat) := by
  induction rest generalizing i s with
  | nil => rfl
  | cons w rest ih =>
    have hw : ws.getD i 0 = w := by
      rw [List.getD, ← Nat.add_zero i, ← List.getElem?_drop, h]
      rfl
    have hrest : ws.drop (i + 1) = rest := by
      rw [← List.drop_drop, h, List.drop_one, List.tail_cons]
    rw [List.length_cons, List.range'_succ, List.foldl_cons, ih _ _ hrest, hw, numbers_round]
    rfl

theorem numbers_absorb (s : State) {block : List UInt32} (hb : block.length = 16) :
    (absorb s block).numbers = s.numbers.absorb (block.map UInt32.toNat) := by
  have hlen : (schedule block).toList.length = 80 := by
    rw [Array.length_toList, schedule, ← extended, size_extended, hb]
  have hrounds := numbers_foldl_round (schedule block).toList _ 0 s rfl
  rw [List.drop_zero, hlen, ← List.range_eq_range'] at hrounds
  simp only [Numbers.absorb, ← numbers_extended hb, List.reverse_reverse]
  rw [show extended block 64 = schedule block from rfl, ← hrounds]
  simp [absorb, State.numbers, Numbers.sum, Array.getD_eq_getD_getElem?]

/-! ## The digest -/

def Numbers.wordsOf : List Nat → List Nat
  | a :: b :: c :: d :: rest =>
    (((a * 256 + b) * 256 + c) * 256 + d) % 4294967296 :: wordsOf rest
  | _ => []

theorem map_wordsOf (octets : List Nat) :
    (wordsOf octets).map UInt32.toNat = Numbers.wordsOf octets := by
  fun_induction Numbers.wordsOf octets with
  | case1 a b c d rest ih => simp [wordsOf, ih]
  | case2 octets h => simp [wordsOf]

def Numbers.blocksOf : Nat → List Nat → List (List Nat)
  | 0, _ => []
  | _, [] => []
  | fuel + 1, ws => ws.take 16 :: blocksOf fuel (ws.drop 16)

theorem map_blocksOf (fuel : Nat) (ws : List UInt32) :
    (blocksOf fuel ws).map (List.map UInt32.toNat) =
      Numbers.blocksOf fuel (ws.map UInt32.toNat) := by
  induction fuel generalizing ws with
  | zero => rfl
  | succ fuel ih =>
    cases ws with
    | nil => rfl
    | cons w ws =>
      rw [blocksOf, List.map_cons, ih, List.map_cons, Numbers.blocksOf, ← List.map_cons,
        List.map_take, List.map_drop]
      all_goals exact List.cons_ne_nil _ _

/-- The state after the blocks of a message, as numbers. -/
def digestNumbers (msg : List Nat) : Numbers :=
  let ws := Numbers.wordsOf (pad msg)
  (Numbers.blocksOf ws.length ws).foldl Numbers.absorb initial.numbers

def hexNumber (n : Nat) : List Char :=
  let ds := Nat.toDigits 16 n
  List.replicate (8 - ds.length) '0' ++ ds

def numbersDigest (msg : List Nat) : String :=
  let s := digestNumbers msg
  .ofList ([s.a, s.b, s.c, s.d, s.e].flatMap hexNumber)

theorem hexDigest_eq_numbersDigest (msg : List Nat) : hexDigest msg = numbersDigest msg := by
  have hfold : ∀ (blocks : List (List UInt32)) (s : State), (∀ b ∈ blocks, b.length = 16) →
      (blocks.foldl absorb s).numbers =
        (blocks.map (List.map UInt32.toNat)).foldl Numbers.absorb s.numbers := by
    intro blocks
    induction blocks with
    | nil => intro s _; rfl
    | cons b blocks ih =>
      intro s hb
      rw [List.foldl_cons, ih _ fun _ h => hb _ (List.mem_cons_of_mem _ h),
        numbers_absorb s (hb b List.mem_cons_self)]
      rfl
  have hd : 16 ∣ (wordsOf (pad msg)).length := by
    rw [length_wordsOf]
    have := length_pad msg
    omega
  rw [numbersDigest, digestNumbers, ← map_wordsOf, ← map_blocksOf, List.length_map,
    ← hfold _ _ fun b hb => length_of_mem_blocksOf hd hb]
  rfl



end Workbench.Sha1
