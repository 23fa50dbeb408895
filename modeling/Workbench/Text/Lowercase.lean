import Workbench.Text.CaseTable

/-!
# Lower-casing

Full lower-casing of text: every character goes to its lower-case form, `İ` becomes `i` with a dot
above, and a capital sigma becomes a final sigma at the end of a word.
-/

namespace Workbench.Text

def inRanges (ranges : List (Nat × Nat)) (n : Nat) : Bool :=
  ranges.any fun r => r.1 ≤ n && n ≤ r.2

/-- The lower-case form of a character that has a form of one character. -/
def lowerChar (c : Char) : Char :=
  let n := c.toNat
  if n < 128 then
    if 65 ≤ n && n ≤ 90 then Char.ofNat (n + 32) else c
  else
    match lowerRuns.find? fun r => r.first ≤ n && n ≤ r.last && (n - r.first) % r.step == 0 with
    | some r => Char.ofNat (n + r.shift).toNat
    | none => c

/-- Whether the first character that is not skipped has case. -/
def meetsCased (cs : List Char) : Bool :=
  match cs.dropWhile (fun c => inRanges caseSkippedRanges c.toNat) with
  | [] => false
  | c :: _ => inRanges casedRanges c.toNat

/-- Lower-cases the characters after `before`, which is given from the nearest to the farthest. -/
def lowerFrom (before : List Char) : List Char → List Char
  | [] => []
  | c :: rest =>
    let tail := lowerFrom (c :: before) rest
    if c == 'Σ' then
      (if meetsCased before && !meetsCased rest then 'ς' else 'σ') :: tail
    else if c == 'İ' then
      'i' :: Char.ofNat 0x307 :: tail
    else lowerChar c :: tail

def lower (s : String) : String := .ofList (lowerFrom [] s.toList)

end Workbench.Text
