import Workbench.Proofs.Table
import Workbench.Proofs.Text
import Workbench.Terminal.Basic

/-!
# Lines and their jobs

What a scrollback shows, told from what has happened to its terminal: which lines were executed,
which of their jobs have been completed and with what, and when the screen was cleared. Jobs may be
completed in any order, and also when their lines are no longer on the screen.

The ids of the entries are what ties the scrollback to the table of outstanding jobs. They are drawn
anew for each line, so that a completion finds the entry of its own line or none
(`Tells.complete`).
-/

namespace Workbench

/-- A line that was executed, with what was said at once. -/
structure Line where
  command : String
  result : LineResult
  time : Timestamp
  deriving DecidableEq, Repr

/-- What happens to a scrollback. -/
inductive Happening where
  | ran (line : Line)
  | cleared
  | completed (entryId : String) (ending : Reply)
  deriving DecidableEq, Repr

def Line.id (x : Line) : String := x.result.entryId.getD ""

/-- The entry of a line of which the job, if there is one, has ended in this way or not yet. -/
def Line.entry (x : Line) (ending : Option Reply) : ScrollbackEntry :=
  { entryId := x.id
    command := x.command
    output := x.result.output ++ (ending.map Reply.output).getD ""
    isError := x.result.isError || ending.any Reply.isError
    timestamp := x.time
    pending := x.result.pending && ending.isNone }

namespace Happening

/-- What the execution of a line comes to: nothing for a blank line, and a cleared screen for the
command that asks for it. -/
def ofLine (line : String) (time : Timestamp) (r : LineResult) : List Happening :=
  match Text.words line with
  | [] => []
  | word :: _ =>
    if Command.ofText? (Text.lower word) = some .clear then [.cleared] else [.ran ⟨line, r, time⟩]

def line? : Happening → Option Line
  | ran x => some x
  | _ => none

def completed? : Happening → Option (String × Reply)
  | completed entryId a => some (entryId, a)
  | _ => none

def next (lines : List Line) : Happening → List Line
  | ran x => lines ++ [x]
  | cleared => []
  | completed .. => lines

/-- The lines that were executed since the screen was cleared last. -/
def shownLines (es : List Happening) : List Line := es.foldl next []

def allLines (es : List Happening) : List Line := es.filterMap line?

/-- The jobs that were completed, by the ids of their entries, with what they said. -/
def endings (es : List Happening) : List (String × Reply) := es.filterMap completed?

/-- What the job of an entry has said. -/
def ending? (es : List Happening) (entryId : String) : Option Reply :=
  (endings es).lookup entryId

variable {es : List Happening} {x : Line} {id : String} {a : Reply}

theorem shownLines_ran : shownLines (es ++ [.ran x]) = shownLines es ++ [x] := by
  simp [shownLines, next]

theorem shownLines_cleared : shownLines (es ++ [.cleared]) = [] := by
  simp [shownLines, next]

theorem shownLines_completed : shownLines (es ++ [.completed id a]) = shownLines es := by
  simp [shownLines, next]

theorem allLines_ran : allLines (es ++ [.ran x]) = allLines es ++ [x] := by
  simp [allLines, line?]

theorem allLines_cleared : allLines (es ++ [.cleared]) = allLines es := by
  simp [allLines, line?]

theorem allLines_completed : allLines (es ++ [.completed id a]) = allLines es := by
  simp [allLines, line?]

theorem endings_ran : endings (es ++ [.ran x]) = endings es := by
  simp [endings, completed?]

theorem endings_cleared : endings (es ++ [.cleared]) = endings es := by
  simp [endings, completed?]

theorem endings_completed : endings (es ++ [.completed id a]) = endings es ++ [(id, a)] := by
  simp [endings, completed?]

theorem ending?_eq_none_iff : ending? es id = none ↔ id ∉ (endings es).map Prod.fst := by
  rw [ending?, List.lookup_eq_none_iff]
  constructor
  · intro hall hmem
    obtain ⟨x, hx, rfl⟩ := List.mem_map.1 hmem
    simpa using hall x hx
  · intro hnot x hx
    rw [bne_iff_ne]
    rintro rfl
    exact hnot (List.mem_map_of_mem hx)

/-- A job that had not been completed says what it says when it is. -/
theorem ending?_completed {id' : String} (h : ending? es id = none) :
    ending? (es ++ [.completed id a]) id' = if id' = id then some a else ending? es id' := by
  rw [ending?, endings_completed, List.lookup_append]
  split
  · next he =>
    subst he
    rw [show (endings es).lookup id' = none from h]
    simp
  · next hne =>
    rw [List.lookup_cons, beq_false_of_ne hne]
    simp [ending?]

theorem shownLines_completions (es : List Happening) (l : List (String × Reply)) :
    shownLines (es ++ l.map fun x => .completed x.1 x.2) = shownLines es := by
  rw [shownLines, List.foldl_append, List.foldl_map]
  exact List.foldl_fixed _

theorem ending?_completions (es : List Happening) (l : List (String × Reply)) (id : String) :
    ending? (es ++ l.map fun x => .completed x.1 x.2) id = (ending? es id).or (l.lookup id) := by
  rw [ending?, endings, List.filterMap_append, List.filterMap_map, List.lookup_append]
  congr 2
  exact List.filterMap_some

end Happening

theorem drawnEntryId_injective {j k : Nat} (h : drawnEntryId j = drawnEntryId k) : j = k :=
  Text.append_toString_injective "e" h

namespace Terminal

open Happening

variable {σ : Type} {t : Terminal} {drawn : Nat} {es : List Happening} {id : String} {a : Reply}

/-- What may happen to a terminal, one thing at a time. The jobs that are completed are outstanding,
and may say anything; others may draw ids in between. -/
inductive Sitting : Terminal → Nat → List Happening → Prop
  | new (settings : Settings) (s : Workspace) (id name : String) (shell : Shell) (cwd : String)
      (drawn : Nat) : Sitting (.new settings s id name shell cwd) drawn []
  | executed {t : Terminal} {drawn : Nat} {es : List Happening} {σ : Type} (h : Sitting t drawn es)
      (b : Bench σ) (w : World σ) (line : String) :
      Sitting (t.execute b w drawn line).terminal (t.execute b w drawn line).drawn
        (es ++ Happening.ofLine line b.host.now (t.execute b w drawn line).result)
  | cleared {t : Terminal} {drawn : Nat} {es : List Happening} (h : Sitting t drawn es) :
      Sitting t.clear drawn (es ++ [.cleared])
  | completed {t : Terminal} {drawn : Nat} {es : List Happening} {id : String} {job : Job}
      (h : Sitting t drawn es) (hj : t.pending.get? id = some job) (a : Reply) :
      Sitting (t.complete id a) drawn (es ++ [.completed id a])
  | elsewhere {t : Terminal} {drawn drawn' : Nat} {es : List Happening} (h : Sitting t drawn es)
      (hd : drawn ≤ drawn') : Sitting t drawn' es

/-- Completes jobs in an order. -/
def completeAll (t : Terminal) (l : List (String × Reply)) : Terminal :=
  l.foldl (fun t x => t.complete x.1 x.2) t

/-! ## Executing a line -/

theorem clears_carryOut (t : Terminal) (b : Bench σ) (w : World σ) (command : Command)
    (args : List String) : (t.carryOut b w command args).clears = decide (command = .clear) := by
  cases command
  case mkdir | touch | rm | rmdir | cp | mv =>
    unfold carryOut
    dsimp only
    split
    · rfl
    · rfl
  all_goals rfl

/-- An entry is recorded for a line that leaves this job behind. -/
structure Records (t : Terminal) (drawn : Nat) (line : String) (time : Timestamp)
    (job : Option Job) (x : Execution σ) : Prop where
  entryId : x.result.entryId = some (drawnEntryId (drawn + 1))
  waits : x.result.pending = job.isSome
  scrollback : x.terminal.scrollback = t.scrollback ++ [Line.entry ⟨line, x.result, time⟩ none]
  pending : x.terminal.pending =
    job.elim t.pending (t.pending.insert (drawnEntryId (drawn + 1)))
  drawn : x.drawn = drawn + 1

theorem records_conclude {t' : Terminal} (hs : t'.scrollback = t.scrollback)
    (hp : t'.pending = t.pending) (b : Bench σ) (w : World σ) (drawn : Nat) (line : String)
    (a : Reply) (job : Option Job) :
    Records t drawn line b.host.now job (t'.conclude b w drawn line a job) := by
  refine ⟨rfl, rfl, ?_, ?_, rfl⟩
  · simp [conclude, recordEntry, Line.entry, Line.id, hs]
  · rw [← hp]
    cases job <;> rfl

/-- What a line does to the screen: nothing, or it clears it, or an entry is recorded. -/
theorem execute_cases (t : Terminal) (b : Bench σ) (w : World σ) (drawn : Nat) (line : String)
    {x : Execution σ} (hx : t.execute b w drawn line = x) :
    (ofLine line b.host.now x.result = [] ∧ x.terminal.scrollback = t.scrollback ∧
      x.terminal.pending = t.pending ∧ x.drawn = drawn) ∨
    (ofLine line b.host.now x.result = [.cleared] ∧ x.terminal.scrollback = [] ∧
      x.terminal.pending = t.pending ∧ x.drawn = drawn) ∨
    ofLine line b.host.now x.result = [.ran ⟨line, x.result, b.host.now⟩] ∧
      ∃ job, Records t drawn line b.host.now job x := by
  unfold Terminal.execute at hx
  unfold ofLine
  dsimp only at hx
  cases hw : Text.words line with
  | nil =>
    rw [hw] at hx
    subst hx
    exact .inl ⟨rfl, rfl, rfl, rfl⟩
  | cons word args =>
    rw [hw] at hx
    dsimp only at hx ⊢
    cases hc : Command.ofText? (Text.lower word) with
    | none =>
      rw [hc] at hx
      dsimp only at hx
      subst hx
      refine .inr (.inr ⟨if_neg nofun, none, ?_⟩)
      exact records_conclude (by rfl) (by rfl) b w drawn line _ none
    | some command =>
      rw [hc] at hx
      dsimp only at hx
      generalize hturn : carryOut _ b w command args = turn at hx
      have hclears : turn.clears = decide (command = .clear) := by
        rw [← hturn, clears_carryOut]
      by_cases hclear : command = .clear
      · rw [if_pos (by rw [hclears, decide_eq_true hclear])] at hx
        subst hx
        exact .inr (.inl ⟨if_pos (congrArg some hclear), rfl, rfl, rfl⟩)
      · rw [if_neg (by rw [hclears, decide_eq_false hclear]; decide)] at hx
        subst hx
        refine .inr (.inr ⟨if_neg (by simpa using hclear), turn.job, ?_⟩)
        exact records_conclude (by rfl) (by rfl) b turn.world drawn line turn.reply turn.job

/-! ## What holds all the time -/

/-- What a terminal tells of what has happened to it. -/
structure Tells (t : Terminal) (drawn : Nat) (es : List Happening) : Prop where
  shown : t.scrollback = (shownLines es).map fun x => x.entry (ending? es x.id)
  /-- The jobs of lines are outstanding until they are completed. -/
  outstanding : ∀ id, (∃ job, t.pending.get? id = some job) ↔
    (∃ x ∈ allLines es, x.id = id ∧ x.result.pending = true) ∧ ending? es id = none
  sublist : (shownLines es).Sublist (allLines es)
  nodup : ((allLines es).map Line.id).Nodup
  named : ∀ x ∈ allLines es, x.result.entryId = some x.id ∧ ∃ j ≤ drawn, x.id = drawnEntryId j
  /-- Only jobs of lines are completed, and each of them once. -/
  ended : ∀ id ∈ (endings es).map Prod.fst,
    ∃ x ∈ allLines es, x.id = id ∧ x.result.pending = true
  endedOnce : ((endings es).map Prod.fst).Nodup

namespace Tells

theorem mono {drawn' : Nat} (h : t.Tells drawn es) (hd : drawn ≤ drawn') : t.Tells drawn' es := by
  refine ⟨h.shown, h.outstanding, h.sublist, h.nodup, ?_, h.ended, h.endedOnce⟩
  intro x hx
  obtain ⟨hid, j, hj, he⟩ := h.named x hx
  exact ⟨hid, j, Nat.le_trans hj hd, he⟩

/-- Where the screen and the table of jobs are as they were. -/
theorem same {t' : Terminal} (h : t.Tells drawn es) (hs : t'.scrollback = t.scrollback)
    (hp : t'.pending = t.pending) : t'.Tells drawn es :=
  ⟨hs.trans h.shown, hp ▸ h.outstanding, h.sublist, h.nodup, h.named, h.ended, h.endedOnce⟩

theorem cleared {t' : Terminal} (h : t.Tells drawn es) (hs : t'.scrollback = [])
    (hp : t'.pending = t.pending) : t'.Tells drawn (es ++ [.cleared]) := by
  refine ⟨?_, ?_, ?_, ?_, ?_, ?_, ?_⟩
  · rw [shownLines_cleared, hs]
    rfl
  · rw [hp, allLines_cleared]
    unfold ending?
    rw [endings_cleared]
    exact h.outstanding
  · rw [shownLines_cleared]
    exact List.nil_sublist _
  · rw [allLines_cleared]
    exact h.nodup
  · rw [allLines_cleared]
    exact h.named
  · rw [allLines_cleared, endings_cleared]
    exact h.ended
  · rw [endings_cleared]
    exact h.endedOnce

/-- The ids of all lines are drawn before those that are still to be drawn. -/
theorem ne_next (h : t.Tells drawn es) {x : Line} (hx : x ∈ allLines es) :
    x.id ≠ drawnEntryId (drawn + 1) := by
  obtain ⟨-, j, hj, he⟩ := h.named x hx
  rw [he]
  intro hid
  have := drawnEntryId_injective hid
  omega

theorem ran {line : String} {time : Timestamp} {job : Option Job} {x : Execution σ}
    (h : t.Tells drawn es) (hr : Records t drawn line time job x) :
    x.terminal.Tells x.drawn (es ++ [.ran ⟨line, x.result, time⟩]) := by
  have hid : Line.id ⟨line, x.result, time⟩ = drawnEntryId (drawn + 1) := by
    rw [Line.id, hr.entryId, Option.getD_some]
  have hnew : ending? es (drawnEntryId (drawn + 1)) = none := by
    rw [ending?_eq_none_iff]
    intro hmem
    obtain ⟨y, hy, he, -⟩ := h.ended _ hmem
    exact h.ne_next hy he
  have hfree : t.pending.get? (drawnEntryId (drawn + 1)) = none := by
    rw [Option.eq_none_iff_forall_ne_some]
    intro job hjob
    obtain ⟨⟨y, hy, he, -⟩, -⟩ := (h.outstanding _).1 ⟨job, hjob⟩
    exact h.ne_next hy he
  have hending : ∀ id, ending? (es ++ [.ran ⟨line, x.result, time⟩]) id = ending? es id := by
    intro id
    rw [ending?, endings_ran, ending?]
  refine ⟨?shown, ?outstanding, ?sublist, ?nodup, ?named, ?ended, ?endedOnce⟩
  case shown =>
    simp only [hending]
    rw [hr.scrollback, h.shown, shownLines_ran, List.map_append, List.map_singleton, hid, hnew]
  case outstanding =>
    intro id
    have hget : x.terminal.pending.get? id =
        if id = drawnEntryId (drawn + 1) then job else t.pending.get? id := by
      rw [hr.pending]
      cases job with
      | some j => exact Table.get?_insert ..
      | none =>
        split
        · next he =>
          rw [he]
          exact hfree
        · rfl
    rw [hget, allLines_ran, hending]
    split
    · next he =>
      subst he
      rw [← Option.isSome_iff_exists, ← hr.waits]
      constructor
      · intro hp
        exact ⟨⟨_, List.mem_append_right _ (List.mem_singleton_self _), hid, hp⟩, hnew⟩
      · rintro ⟨⟨y, hy, he, hp⟩, -⟩
        rcases List.mem_append.1 hy with hy | hy
        · exact absurd he (h.ne_next hy)
        · obtain rfl := List.mem_singleton.1 hy
          exact hp
    · next hne =>
      rw [h.outstanding id]
      refine and_congr_left' ?_
      constructor
      · rintro ⟨y, hy, he, hp⟩
        exact ⟨y, List.mem_append_left _ hy, he, hp⟩
      · rintro ⟨y, hy, he, hp⟩
        rcases List.mem_append.1 hy with hy | hy
        · exact ⟨y, hy, he, hp⟩
        · obtain rfl := List.mem_singleton.1 hy
          exact absurd (he.symm.trans hid) hne
  case sublist =>
    rw [shownLines_ran, allLines_ran]
    exact h.sublist.append (List.Sublist.refl _)
  case nodup =>
    rw [allLines_ran, List.map_append, List.map_singleton, hid, List.nodup_append]
    refine ⟨h.nodup, List.nodup_singleton _, ?_⟩
    intro id hmem id' hid'
    obtain ⟨y, hy, rfl⟩ := List.mem_map.1 hmem
    obtain rfl := List.mem_singleton.1 hid'
    exact h.ne_next hy
  case named =>
    rw [allLines_ran]
    intro y hy
    rcases List.mem_append.1 hy with hy | hy
    · obtain ⟨hsome, j, hj, he⟩ := h.named y hy
      exact ⟨hsome, j, hr.drawn ▸ Nat.le_succ_of_le hj, he⟩
    · obtain rfl := List.mem_singleton.1 hy
      rw [hid]
      exact ⟨hr.entryId, drawn + 1, Nat.le_of_eq hr.drawn.symm, rfl⟩
  case ended =>
    rw [allLines_ran, endings_ran]
    intro id hmem
    obtain ⟨y, hy, he, hp⟩ := h.ended id hmem
    exact ⟨y, List.mem_append_left _ hy, he, hp⟩
  case endedOnce =>
    rw [endings_ran]
    exact h.endedOnce

theorem nodup_shown (h : t.Tells drawn es) : (t.scrollback.map ScrollbackEntry.entryId).Nodup := by
  have hids : t.scrollback.map ScrollbackEntry.entryId = (shownLines es).map Line.id := by
    rw [h.shown, List.map_map]
    rfl
  rw [hids]
  exact (h.sublist.map Line.id).nodup h.nodup

/-- An entry is pending while the job of its line is outstanding. -/
theorem pending_iff (h : t.Tells drawn es) {e : ScrollbackEntry} (he : e ∈ t.scrollback) :
    e.pending = true ↔ ∃ job, t.pending.get? e.entryId = some job := by
  rw [h.shown] at he
  obtain ⟨x, hx, rfl⟩ := List.mem_map.1 he
  have hmem := h.sublist.subset hx
  have hline : (∃ y ∈ allLines es, y.id = x.id ∧ y.result.pending = true) ↔
      x.result.pending = true := by
    constructor
    · rintro ⟨y, hy, he, hp⟩
      exact List.inj_on_of_nodup_map h.nodup hy hmem he ▸ hp
    · intro hp
      exact ⟨x, hmem, rfl, hp⟩
  rw [h.outstanding, Line.entry, hline, Bool.and_eq_true, Option.isNone_iff_eq_none]

end Tells

/-- The first entry with an id is changed, which is the only one. -/
theorem modifyFirst_eq_map {l : List ScrollbackEntry} (hl : (l.map ScrollbackEntry.entryId).Nodup)
    (id : String) (f : ScrollbackEntry → ScrollbackEntry) :
    modifyFirst id f l = l.map fun e => if e.entryId = id then f e else e := by
  induction l with
  | nil => rfl
  | cons e rest ih =>
    rw [List.map_cons, List.nodup_cons] at hl
    obtain ⟨hnot, hrest⟩ := hl
    rw [modifyFirst, List.map_cons, ih hrest]
    by_cases he : e.entryId = id
    · rw [if_pos (beq_iff_eq.2 he), if_pos he]
      congr 1
      symm
      refine (List.map_congr_left fun e' he' => if_neg ?_).trans (List.map_id _)
      rintro rfl
      exact hnot (List.mem_map.2 ⟨e', he', he.symm⟩)
    · rw [if_neg (by simpa using he), if_neg he]

namespace Tells

/-- A job that is completed changes the entry of its line and no other, also if there is none. -/
theorem scrollback_complete (h : t.Tells drawn es) (id : String) (a : Reply) :
    (t.complete id a).scrollback =
      t.scrollback.map fun e => if e.entryId = id then e.completed a else e :=
  modifyFirst_eq_map h.nodup_shown id (·.completed a)

theorem complete {job : Job} (h : t.Tells drawn es) (hj : t.pending.get? id = some job)
    (a : Reply) : (t.complete id a).Tells drawn (es ++ [.completed id a]) := by
  obtain ⟨⟨x, hx, hid, hp⟩, hnone⟩ := (h.outstanding id).1 ⟨job, hj⟩
  have hending : ∀ id', ending? (es ++ [.completed id a]) id' =
      if id' = id then some a else ending? es id' := by
    intro id'
    apply ending?_completed hnone
  refine ⟨?shown, ?outstanding, ?sublist, ?nodup, ?named, ?ended, ?endedOnce⟩
  case shown =>
    rw [h.scrollback_complete, h.shown, List.map_map, shownLines_completed]
    refine List.map_congr_left fun y hy => ?_
    rw [hending, Function.comp_apply]
    by_cases he : y.id = id
    · rw [if_pos he, he, hnone]
      simp [ScrollbackEntry.completed, Line.entry, he]
    · have hne : (y.entry (ending? es y.id)).entryId ≠ id := he
      rw [if_neg hne, if_neg he]
  case outstanding =>
    intro id'
    rw [Terminal.complete, Table.get?_erase, allLines_completed, hending]
    by_cases he : id' = id
    · simp [he]
    · rw [if_neg he, if_neg he, h.outstanding]
  case sublist =>
    rw [shownLines_completed, allLines_completed]
    exact h.sublist
  case nodup =>
    rw [allLines_completed]
    exact h.nodup
  case named =>
    rw [allLines_completed]
    exact h.named
  case ended =>
    rw [allLines_completed, endings_completed]
    intro id' hmem
    rw [List.map_append, List.mem_append] at hmem
    rcases hmem with hmem | hmem
    · exact h.ended id' hmem
    · obtain rfl : id' = id := List.mem_singleton.1 hmem
      exact ⟨x, hx, hid, hp⟩
  case endedOnce =>
    rw [endings_completed, List.map_append, List.nodup_append]
    refine ⟨h.endedOnce, List.nodup_singleton _, ?_⟩
    intro id' hmem id'' hid'' he
    obtain rfl : id'' = id := List.mem_singleton.1 hid''
    exact ending?_eq_none_iff.1 hnone (he ▸ hmem)

end Tells

theorem Sitting.tells (h : Sitting t drawn es) : t.Tells drawn es := by
  induction h with
  | new settings s id name shell cwd drawn =>
    refine ⟨rfl, fun id => ?_, List.Sublist.refl _, List.nodup_nil, ?_, ?_, List.nodup_nil⟩
    · constructor
      · rintro ⟨job, hjob⟩
        cases hjob
      · rintro ⟨⟨x, hx, -⟩, -⟩
        cases hx
    · intro x hx
      cases hx
    · intro id hid
      cases hid
  | executed h b w line ih =>
    rcases execute_cases _ b w _ line rfl with ⟨he, hs, hp, hd⟩ | ⟨he, hs, hp, hd⟩ | ⟨he, job, hr⟩
    · rw [he, List.append_nil, hd]
      exact ih.same hs hp
    · rw [he, hd]
      exact ih.cleared hs hp
    · rw [he]
      exact ih.ran hr
  | cleared h ih => exact ih.cleared rfl rfl
  | completed h hj a ih => exact ih.complete hj a
  | elsewhere h hd ih => exact ih.mono hd

/-! ## The last completions -/

/-- Outstanding jobs that are completed one after another happen in this order. -/
theorem Sitting.completeAll {l : List (String × Reply)} (h : Sitting t drawn es)
    (hl : (l.map Prod.fst).Nodup) (hmem : ∀ id ∈ l.map Prod.fst, id ∈ t.pending.keys) :
    Sitting (t.completeAll l) drawn (es ++ l.map fun x => .completed x.1 x.2) := by
  induction l generalizing t es with
  | nil =>
    rw [List.map_nil, List.append_nil]
    exact h
  | cons x rest ih =>
    obtain ⟨id, a⟩ := x
    rw [List.map_cons, List.nodup_cons] at hl
    obtain ⟨hnot, hrest⟩ := hl
    obtain ⟨job, hjob⟩ := Table.mem_keys_iff.1 (hmem id List.mem_cons_self)
    have hstep := ih (h.completed hjob a) hrest ?_
    · rw [List.append_assoc] at hstep
      exact hstep
    · intro id' hid'
      rw [Terminal.complete, Table.mem_keys_iff, Table.get?_erase, if_neg ?_, ← Table.mem_keys_iff]
      · exact hmem id' (List.mem_cons_of_mem _ hid')
      · rintro rfl
        exact hnot hid'

theorem pending_completeAll (t : Terminal) (l : List (String × Reply)) :
    (t.completeAll l).pending = t.pending.eraseMany (l.map Prod.fst) := by
  induction l generalizing t with
  | nil => rfl
  | cons x rest ih => exact ih (t.complete x.1 x.2)

theorem not_hasPending_iff : t.hasPending = false ↔ ∀ id, t.pending.get? id = none := by
  rw [hasPending, bne_eq_false_iff_eq, ← Table.length_keys, List.length_eq_zero_iff,
    List.eq_nil_iff_forall_not_mem]
  exact forall_congr' fun id => (Table.get?_eq_none_iff ..).symm

/-- Nothing is outstanding once every job has been completed, and no entry waits any longer. -/
theorem Sitting.settled {l : List (String × Reply)} (h : Sitting t drawn es)
    (hl : (l.map Prod.fst).Perm t.pending.keys) :
    (t.completeAll l).hasPending = false ∧
      ∀ e ∈ (t.completeAll l).scrollback, e.pending = false := by
  have hnone : ∀ id, (t.completeAll l).pending.get? id = none := by
    intro id
    rw [pending_completeAll, Table.get?_eraseMany]
    split
    · rfl
    · next hnot => rwa [Table.get?_eq_none_iff, ← hl.mem_iff]
  have hlast := h.completeAll (hl.nodup_iff.2 t.pending.nodup) fun id hid => hl.subset hid
  refine ⟨not_hasPending_iff.2 hnone, fun e he => ?_⟩
  rw [Bool.eq_false_iff]
  intro hpending
  obtain ⟨job, hjob⟩ := (hlast.tells.pending_iff he).1 hpending
  rw [hnone] at hjob
  cases hjob

theorem shutdown_eq (t : Terminal) : t.shutdown =
    { t.completeAll (t.pending.keys.map fun id => (id, cancelled)) with closed := true } := by
  rw [shutdown, completeAll, List.foldl_map]

/-! ## The scrollback of a sitting -/

/-- The scrollback shows the lines since the screen was cleared last, each with what was said at
once and, when its job has been completed, what the job has said. An entry waits while its job is
outstanding. No job is completed twice, and one that is completed changes its own entry only, or
nothing if that is no longer there. Whatever the order in which the last jobs are completed, nothing
is outstanding and no entry waits after it. -/
theorem Sitting.scrollback_eq (h : Sitting t drawn es) :
    t.scrollback = (shownLines es).map (fun x => x.entry (ending? es x.id)) ∧
    ((allLines es).map Line.id).Nodup ∧ (∀ x ∈ allLines es, x.result.entryId = some x.id) ∧
    (∀ e ∈ t.scrollback, e.pending = true ↔ ∃ job, t.pending.get? e.entryId = some job) ∧
    ((endings es).map Prod.fst).Nodup ∧
    (∀ id a, (t.complete id a).scrollback =
      t.scrollback.map fun e => if e.entryId = id then e.completed a else e) ∧
    (∀ id a, (∀ e ∈ t.scrollback, e.entryId ≠ id) → (t.complete id a).scrollback = t.scrollback) ∧
    (∀ l : List (String × Reply), (l.map Prod.fst).Perm t.pending.keys →
      (t.completeAll l).scrollback =
        (shownLines es).map (fun x => x.entry ((ending? es x.id).or (l.lookup x.id))) ∧
      (t.completeAll l).hasPending = false ∧
      ∀ e ∈ (t.completeAll l).scrollback, e.pending = false) ∧
    t.shutdown.hasPending = false ∧ ∀ e ∈ t.shutdown.scrollback, e.pending = false := by
  have htells := h.tells
  refine ⟨htells.shown, htells.nodup, fun x hx => (htells.named x hx).1,
    fun e he => htells.pending_iff he, htells.endedOnce, htells.scrollback_complete, ?_, ?_, ?_⟩
  · intro id a hnot
    rw [htells.scrollback_complete]
    exact (List.map_congr_left fun e he => if_neg (hnot e he)).trans (List.map_id _)
  · intro l hl
    refine ⟨?_, h.settled hl⟩
    have hlast := h.completeAll (hl.nodup_iff.2 t.pending.nodup) fun id hid => hl.subset hid
    rw [hlast.tells.shown, shownLines_completions]
    simp only [ending?_completions]
  · rw [shutdown_eq]
    refine h.settled ?_
    rw [List.map_map]
    exact List.Perm.of_eq (List.map_id _)

def bareBench : Bench Unit := ⟨⟨none, default⟩, {}, true⟩

def bareWorld : World Unit := ⟨.new "/home/user" default, ()⟩

/-- A job is started, and another one when the screen has been cleared. -/
def firstJob : Execution Unit :=
  (new {} bareWorld.space "t1" "Terminal 1" .bash "").execute bareBench bareWorld 0 "ai build"

def secondJob : Execution Unit :=
  firstJob.terminal.clear.execute bareBench bareWorld firstJob.drawn "ai test"

/-- The job of the line that is gone is done first. -/
def twoJobs : List Happening :=
  [.ran ⟨"ai build", ⟨AiTask.build.opening, false, some "e1", true⟩, default⟩, .cleared,
    .ran ⟨"ai test", ⟨AiTask.test.opening, false, some "e2", true⟩, default⟩,
    .completed "e1" (.ok "built")]

theorem scrollback_twoJobs :
    let t := secondJob.terminal.complete "e1" (.ok "built")
    Sitting t 2 twoJobs ∧
      t.scrollback = [⟨"e2", "ai test", AiTask.test.opening, false, default, true⟩] ∧
      (t.completeAll [("e2", .error "failed")]).scrollback =
        [⟨"e2", "ai test", AiTask.test.opening ++ "failed", true, default, false⟩] ∧
      (t.completeAll [("e2", .error "failed")]).hasPending = false := by
  have hfirst : secondJob.terminal.pending.get? "e1" = some (.ai .build) := by decide +kernel
  have hsitting : Sitting (secondJob.terminal.complete "e1" (.ok "built")) 2 twoJobs := by
    convert Sitting.completed (.executed (.cleared (.executed (.new {} bareWorld.space "t1"
      "Terminal 1" .bash "" 0) bareBench bareWorld "ai build")) bareBench bareWorld "ai test")
      hfirst (.ok "built") using 1
    · rfl
    · decide +kernel
    · decide +kernel
  obtain ⟨hshown, -, -, -, -, -, -, hsettled, -⟩ := hsitting.scrollback_eq
  obtain ⟨hsaid, hnone, -⟩ := hsettled [("e2", .error "failed")] (by decide +kernel)
  exact ⟨hsitting, hshown.trans (by decide +kernel), hsaid.trans (by decide +kernel), hnone⟩

end Terminal

end Workbench
