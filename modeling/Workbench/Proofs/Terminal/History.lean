import Mathlib.Data.List.Destutter
import Workbench.Proofs.Terminal.Basic

/-!
# What a history holds and where a walk over it leads

A history drops a line that repeats the newest one it holds, and it holds no more than the last of
the lines. That comes to the same as collapsing the repetitions in all that was ever recorded and
keeping the last of what is left (`History.Holds`): with room for one line at least, the newest line
of the history is the newest line of all.

A walk stands before the line that the cursor shows, and at the end when there is none
(`History.place`). Each step back and each step on moves it by one, as far as there are lines.
Recording a line resets the cursor, and so does the end of a walk (`History.walked_of_recorded`).
-/

namespace Workbench

/-- What is asked of a history. -/
inductive HistoryCall
  | record (line : String)
  | previous
  | next
  | reset

namespace HistoryCall

/-- What is answered, and the history after. Only walking answers. -/
def run : HistoryCall → History → Option String × History
  | record line, h => (none, (h.record line).2)
  | previous, h => h.previous
  | next, h => h.next
  | reset, h => (none, h.reset)

def after (calls : List HistoryCall) (h : History) : History :=
  calls.foldl (fun h call => (call.run h).2) h

theorem after_append (calls calls' : List HistoryCall) (h : History) :
    after (calls ++ calls') h = after calls' (after calls h) := List.foldl_append

def answers : List HistoryCall → History → List (Option String)
  | [], _ => []
  | call :: rest, h => (call.run h).1 :: answers rest (call.run h).2

def line? : HistoryCall → Option String
  | record line => some line
  | _ => none

/-- The lines that were recorded, without the blanks around them, without those that are blank, and
with one of each run of equal ones. -/
def lines (calls : List HistoryCall) : List String :=
  (((calls.filterMap line?).map Text.strip).filter fun line => !line.isEmpty).destutter (· ≠ ·)

end HistoryCall

namespace History

section LastOf

variable {α : Type}

theorem getLast?_lastOf {n : Nat} (hn : 0 < n) (l : List α) :
    (lastOf n l).getLast? = l.getLast? := by
  rw [lastOf, List.getLast?_drop]
  split
  · rw [List.length_eq_zero_iff.1 (by omega : l.length = 0), List.getLast?_nil]
  · rfl

/-- What has been dropped before a line comes is not among the last with it. -/
theorem lastOf_lastOf_concat (n : Nat) (l : List α) (x : α) :
    lastOf n (lastOf n l ++ [x]) = lastOf n (l ++ [x]) := by
  have hdrop : lastOf n l ++ [x] = (l ++ [x]).drop (l.length - n) := by
    rw [lastOf, List.drop_append_of_le_length (Nat.sub_le ..)]
  rw [hdrop, lastOf, lastOf, List.drop_drop, List.length_drop, List.length_append,
    List.length_singleton]
  congr 1
  omega

end LastOf

section Collapse

variable {α : Type} [DecidableEq α]

theorem destutter'_concat (a : α) (l : List α) (x : α) :
    (l ++ [x]).destutter' (· ≠ ·) a = if (l.destutter' (· ≠ ·) a).getLast? = some x
      then l.destutter' (· ≠ ·) a else l.destutter' (· ≠ ·) a ++ [x] := by
  induction l generalizing a with
  | nil =>
    rw [List.nil_append, List.destutter'_singleton, List.destutter'_nil, List.getLast?_singleton]
    by_cases hax : a = x
    · simp [hax]
    · simp [hax]
  | cons b l ih =>
    rw [List.cons_append]
    by_cases hab : a = b
    · rw [List.destutter'_cons_neg _ (by simpa using hab),
        List.destutter'_cons_neg _ (by simpa using hab), ih]
    · rw [List.destutter'_cons_pos _ hab, List.destutter'_cons_pos _ hab, ih b,
        List.getLast?_cons_of_ne_nil (List.destutter'_ne_nil l _)]
      split
      · rfl
      · rfl

/-- A line that comes after all others is collapsed exactly when it equals the last that is left. -/
theorem destutter_concat (l : List α) (x : α) :
    (l ++ [x]).destutter (· ≠ ·) = if (l.destutter (· ≠ ·)).getLast? = some x
      then l.destutter (· ≠ ·) else l.destutter (· ≠ ·) ++ [x] := by
  cases l with
  | nil => simp
  | cons a l => exact destutter'_concat a l x

end Collapse

end History

namespace HistoryCall

theorem lines_concat (calls : List HistoryCall) (line : String) :
    lines (calls ++ [.record line]) =
      if (Text.strip line).isEmpty || (lines calls).getLast? == some (Text.strip line)
      then lines calls else lines calls ++ [Text.strip line] := by
  unfold lines
  rw [List.filterMap_append, List.map_append, List.filter_append]
  have hline : ([record line].filterMap line?).map Text.strip = [Text.strip line] := rfl
  rw [hline, List.filter_singleton]
  cases (Text.strip line).isEmpty with
  | true => simp only [Bool.not_true, cond_false, List.append_nil, Bool.true_or, if_true]
  | false =>
    simp only [Bool.not_false, cond_true, History.destutter_concat, Bool.false_or, beq_iff_eq]

theorem lines_concat_of_line?_eq_none {call : HistoryCall} (hc : call.line? = none)
    (calls : List HistoryCall) : lines (calls ++ [call]) = lines calls := by
  unfold lines
  rw [List.filterMap_append, List.filterMap_cons_none hc, List.filterMap_nil, List.append_nil]

end HistoryCall

namespace History

open HistoryCall (after answers lines)

variable {h : History}

/-- A history after some calls: the last of the collapsed lines, with the cursor on one of them. -/
structure Holds (n : Nat) (calls : List HistoryCall) (h : History) : Prop where
  limit : h.limit = n
  entries : h.entries = lastOf n (lines calls)
  cursor : ∀ i, h.cursor = some i → i < h.entries.length

/-- What walking answers: a line of the history, on which the cursor then is, an empty line after
the newest, and nothing where there is no walk. -/
inductive Walks (h : History) : Option String × History → Prop
  | line {i : Nat} (hi : i < h.entries.length) :
    Walks h (some h.entries[i], { h with cursor := some i })
  | ended {i : Nat} (hc : h.cursor = some i) (hi : i + 1 = h.entries.length) :
    Walks h (some "", { h with cursor := none })
  | nothing (hc : h.cursor = none) : Walks h (none, h)

section Steps

theorem walks_previous (hc : ∀ i, h.cursor = some i → i < h.entries.length) :
    h.Walks h.previous := by
  unfold previous
  split
  next hempty =>
    refine .nothing (Option.eq_none_iff_forall_ne_some.2 fun i hi => ?_)
    have hlt := hc i hi
    rw [List.isEmpty_iff.1 hempty] at hlt
    exact absurd hlt (Nat.not_lt_zero i)
  next hne =>
    have hpos : 0 < h.entries.length := List.length_pos_iff.2 (by simpa using hne)
    dsimp only
    split
    next =>
      rw [List.getElem?_eq_getElem (by omega)]
      exact .line _
    next i hi =>
      have hlt := hc i hi
      rw [List.getElem?_eq_getElem (by omega)]
      exact .line _

theorem walks_next (hc : ∀ i, h.cursor = some i → i < h.entries.length) : h.Walks h.next := by
  unfold next
  split
  next hnone => exact .nothing hnone
  next i hi =>
    split
    next hlt =>
      rw [List.getElem?_eq_getElem hlt]
      exact .line hlt
    next hge =>
      have hlt := hc i hi
      exact .ended hi (by omega)

theorem Walks.same {r : Option String × History} (hw : h.Walks r)
    (hc : ∀ i, h.cursor = some i → i < h.entries.length) :
    r.2.limit = h.limit ∧ r.2.entries = h.entries ∧
      ∀ i, r.2.cursor = some i → i < r.2.entries.length := by
  cases hw with
  | line hi => exact ⟨rfl, rfl, fun j hj => Option.some.inj hj ▸ hi⟩
  | ended => exact ⟨rfl, rfl, fun j hj => nomatch hj⟩
  | nothing => exact ⟨rfl, rfl, hc⟩

theorem Holds.recorded {n : Nat} {calls : List HistoryCall} (hn : 0 < n) (hh : h.Holds n calls)
    (line : String) : (h.record line).2.Holds n (calls ++ [.record line]) := by
  have hlines := HistoryCall.lines_concat calls line
  have hlast : (lines calls).getLast? = h.entries.getLast? := by
    rw [hh.entries, getLast?_lastOf hn]
  rw [hlast] at hlines
  unfold record
  dsimp only
  split
  next hskip =>
    rw [if_pos hskip] at hlines
    exact ⟨hh.limit, hlines ▸ hh.entries, fun i hi => nomatch hi⟩
  next hkeep =>
    rw [if_neg hkeep] at hlines
    refine ⟨hh.limit, ?_, fun i hi => nomatch hi⟩
    dsimp only
    rw [hlines, hh.limit, hh.entries, lastOf_lastOf_concat]

theorem Holds.walked {n : Nat} {calls : List HistoryCall} {call : HistoryCall}
    {r : Option String × History} (hh : h.Holds n calls) (hw : h.Walks r)
    (hcall : call.line? = none) : r.2.Holds n (calls ++ [call]) := by
  obtain ⟨hlimit, hentries, hcursor⟩ := hw.same hh.cursor
  refine ⟨hlimit.trans hh.limit, ?_, hcursor⟩
  rw [HistoryCall.lines_concat_of_line?_eq_none hcall, hentries, hh.entries]

/-- What one call preserves. -/
theorem Holds.step {n : Nat} {calls : List HistoryCall} (hn : 0 < n) (hh : h.Holds n calls)
    (call : HistoryCall) : (call.run h).2.Holds n (calls ++ [call]) := by
  cases call with
  | record line =>
    dsimp only [HistoryCall.run]
    exact hh.recorded hn line
  | previous => exact hh.walked (walks_previous hh.cursor) rfl
  | next => exact hh.walked (walks_next hh.cursor) rfl
  | reset =>
    refine ⟨hh.limit, ?_, fun i hi => nomatch hi⟩
    rw [HistoryCall.lines_concat_of_line?_eq_none rfl]
    exact hh.entries

/-- What a run of calls preserves. -/
theorem holds_after {n : Nat} (hn : 0 < n) (calls : List HistoryCall) :
    (after calls { limit := n }).Holds n calls := by
  induction calls using List.reverseRecOn with
  | nil => exact ⟨rfl, (lastOf_eq (Nat.zero_le n)).symm, fun i hi => nomatch hi⟩
  | append_singleton calls call ih =>
    rw [HistoryCall.after_append]
    exact ih.step hn call

end Steps

section Walk

/-- The line that the walk stands before. -/
def place (h : History) : Nat := h.cursor.getD h.entries.length

theorem answers_append (calls calls' : List HistoryCall) (h : History) :
    answers (calls ++ calls') h = answers calls h ++ answers calls' (after calls h) := by
  induction calls generalizing h with
  | nil => rfl
  | cons call rest ih =>
    rw [List.cons_append, answers, answers, ih, List.cons_append]
    rfl

theorem previous_eq (hne : h.entries ≠ []) :
    h.previous = (h.entries[h.place - 1]?, { h with cursor := some (h.place - 1) }) := by
  unfold previous place
  rw [if_neg (by simpa using hne)]
  cases h.cursor with
  | none => rfl
  | some i => rfl

theorem next_eq_of_lt {i : Nat} (hc : h.cursor = some i) (hi : i + 1 < h.entries.length) :
    h.next = (h.entries[i + 1]?, { h with cursor := some (i + 1) }) := by
  unfold next
  rw [hc]
  exact if_pos hi

/-- Steps back from a place that lies `i` before `n`. -/
theorem answers_previous {n i : Nat} (hne : h.entries ≠ []) (hp : h.place = n - i) (k : Nat) :
    answers (List.replicate k .previous) h =
      (List.range' (i + 1) k).map fun j => h.entries[n - j]? := by
  induction k generalizing h i with
  | zero => rfl
  | succ k ih =>
    have hplace : h.place - 1 = n - (i + 1) := by omega
    rw [List.replicate_succ, answers, HistoryCall.run, previous_eq hne, hplace, List.range'_succ,
      List.map_cons]
    exact congrArg _ (ih (h := { h with cursor := some (n - (i + 1)) }) hne rfl)

theorem after_previous {k : Nat} (hne : h.entries ≠ []) (hk : 0 < k) :
    after (List.replicate k .previous) h = { h with cursor := some (h.place - k) } := by
  induction k, hk using Nat.le_induction generalizing h with
  | base => exact congrArg Prod.snd (previous_eq hne)
  | succ k hk ih =>
    have hplace : h.place - 1 - k = h.place - (k + 1) := by omega
    rw [← hplace]
    calc after (List.replicate (k + 1) .previous) h
      _ = after (List.replicate k .previous) h.previous.2 := rfl
      _ = after (List.replicate k .previous) { h with cursor := some (h.place - 1) } := by
        rw [previous_eq hne]
      _ = { h with cursor := some (h.place - 1 - k) } :=
        ih (h := { h with cursor := some (h.place - 1) }) hne

/-- The step on from the newest line ends the walk. -/
theorem next_eq_of_last {i : Nat} (hc : h.cursor = some i) (hi : i + 1 = h.entries.length) :
    h.next = (some "", h.reset) := by
  unfold next
  rw [hc]
  exact if_neg (by omega)

/-- Steps on from the line `i` after `p`, with as many lines left, then the end. -/
theorem answers_next {p i : Nat} {k : Nat} (hc : h.cursor = some (p + i))
    (hk : p + i + k + 1 = h.entries.length) :
    answers (List.replicate (k + 2) .next) h =
      ((List.range' (i + 1) k).map fun j => h.entries[p + j]?) ++ [some "", none] := by
  induction k generalizing h i with
  | zero =>
    rw [List.replicate_succ, answers, HistoryCall.run, next_eq_of_last hc (by omega)]
    rfl
  | succ k ih =>
    rw [List.replicate_succ, answers, HistoryCall.run, next_eq_of_lt hc (by omega),
      List.range'_succ, List.map_cons, List.cons_append]
    have hleft : p + (i + 1) + k + 1 = h.entries.length := by omega
    exact congrArg _ (ih (h := { h with cursor := some (p + (i + 1)) }) rfl hleft)

/-- The end takes the cursor away, and the step behind it leaves it so. -/
theorem after_next {i k : Nat} (hc : h.cursor = some i) (hk : i + k + 1 = h.entries.length) :
    after (List.replicate (k + 2) .next) h = h.reset := by
  induction k generalizing h i with
  | zero =>
    have hend : h.next.2 = h.reset := by rw [next_eq_of_last hc hk]
    exact congrArg (fun h => (next h).2) hend
  | succ k ih =>
    have hon : h.next.2 = { h with cursor := some (i + 1) } := by
      rw [next_eq_of_lt hc (by omega)]
    have hleft : i + 1 + k + 1 = h.entries.length := by omega
    calc after (List.replicate (k + 3) .next) h
      _ = after (List.replicate (k + 2) .next) h.next.2 := rfl
      _ = after (List.replicate (k + 2) .next) { h with cursor := some (i + 1) } := by rw [hon]
      _ = h.reset := ih (h := { h with cursor := some (i + 1) }) rfl hleft

/-- What is answered by `k` steps back from the end and by as many on as lead back to it and one
more. -/
def shown (entries : List String) (k : Nat) : List (Option String) :=
  let n := entries.length
  ((List.range' 1 k).map fun j => entries[n - j]?) ++
    ((List.range' 1 (min k n - 1)).map fun j => entries[n - min k n + j]?) ++ [some "", none]

theorem answers_walk {k : Nat} (hne : h.entries ≠ []) (hk : 0 < k) :
    answers (List.replicate k .previous ++ List.replicate (min k h.entries.length + 1) .next)
      h.reset = shown h.entries k := by
  have hpos := List.length_pos_iff.2 hne
  have hplace : h.reset.place = h.entries.length := rfl
  have hback := answers_previous (h := h.reset) (i := 0) hne hplace k
  have hplaced := after_previous (h := h.reset) hne hk
  have hsteps : min k h.entries.length + 1 = min k h.entries.length - 1 + 2 := by omega
  have hon : h.reset.place - k = h.entries.length - min k h.entries.length := by omega
  rw [answers_append, hback, hplaced, hon, hsteps, shown, List.append_assoc]
  refine congrArg _ (answers_next (i := 0) rfl ?_)
  show h.entries.length - min k h.entries.length + 0 + (min k h.entries.length - 1) + 1 =
    h.entries.length
  omega

/-- A walk that has ended leaves no cursor. -/
theorem after_walk {k : Nat} (hne : h.entries ≠ []) (hk : 0 < k) :
    after (List.replicate k .previous ++ List.replicate (min k h.entries.length + 1) .next)
      h.reset = h.reset := by
  have hpos := List.length_pos_iff.2 hne
  have hplaced := after_previous (h := h.reset) hne hk
  have hsteps : min k h.entries.length + 1 = min k h.entries.length - 1 + 2 := by omega
  have hleft : h.entries.length - k + (min k h.entries.length - 1) + 1 = h.entries.length := by
    omega
  rw [HistoryCall.after_append, hplaced, hsteps]
  exact after_next (h := { h.reset with cursor := some (h.reset.place - k) }) rfl hleft

/-- Recording takes the cursor away, also where the line is not kept. -/
@[simp]
theorem reset_record (h : History) (line : String) :
    (h.record line).2.reset = (h.record line).2 := by
  unfold record
  dsimp only
  split
  · rfl
  · rfl

/-- A walk that starts where a line has been recorded shows the lines and ends where it started, so
that the next one does the same. -/
theorem walked_of_recorded (line : String) {k : Nat} (hk : 0 < k) :
    let r := (h.record line).2
    let walk : List HistoryCall :=
      List.replicate k .previous ++ List.replicate (min k r.entries.length + 1) .next
    r.entries ≠ [] → answers walk r = shown r.entries k ∧ after walk r = r := by
  intro r walk hne
  have hreset : r.reset = r := reset_record h line
  have hanswers := answers_walk hne hk
  have hafter := after_walk hne hk
  rw [hreset] at hanswers hafter
  exact ⟨hanswers, hafter⟩

end Walk

/-- After any calls a history holds the last of the collapsed lines. Walking leaves them as they are
and answers lines that are held. A walk from a cursor that is reset, back by some steps and on until
it has ended, shows them in their order. -/
theorem recorded_and_walked (limit : Nat) (hpos : 0 < limit) (calls : List HistoryCall) :
    let h := after calls { limit := limit }
    h.entries = lastOf limit (lines calls) ∧
    (∀ call : HistoryCall, call.line? = none → (call.run h).2.entries = h.entries) ∧
    h.Walks h.previous ∧ h.Walks h.next ∧
    (h.entries ≠ [] → ∀ k, 0 < k →
      answers (List.replicate k .previous ++ List.replicate (min k h.entries.length + 1) .next)
        h.reset = shown h.entries k) := by
  have hh := holds_after hpos calls
  refine ⟨hh.entries, fun call hcall => ?_, walks_previous hh.cursor, walks_next hh.cursor,
    fun hne k hk => answers_walk hne hk⟩
  rw [(hh.step hpos call).entries, HistoryCall.lines_concat_of_line?_eq_none hcall, hh.entries]

/-- Three lines are recorded with room for two, the second of them twice, and are walked over. -/
theorem recorded_and_walked_two :
    let h := after [.record " ls ", .record "pwd", .previous, .record "pwd ", .record " ",
      .previous, .previous, .record "ls", .next] { limit := 2 }
    h.entries = ["pwd", "ls"] ∧
    answers (List.replicate 3 .previous ++ List.replicate 3 .next) h.reset =
      [some "ls", some "pwd", some "pwd", some "ls", some "", none] := by
  obtain ⟨hentries, -, -, -, hwalk⟩ := recorded_and_walked 2 (by decide)
    [.record " ls ", .record "pwd", .previous, .record "pwd ", .record " ", .previous, .previous,
      .record "ls", .next]
  have htwo := hentries.trans (by decide +kernel : _ = ["pwd", "ls"])
  have hshown := hwalk (by rw [htwo]; decide) 3 (by decide)
  have hsteps : min 3 ["pwd", "ls"].length + 1 = 3 := rfl
  rw [htwo, hsteps] at hshown
  exact ⟨htwo, hshown.trans rfl⟩

end History

end Workbench
