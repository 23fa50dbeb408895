import Workbench.Proofs.Git.History
import Workbench.Proofs.Git.Rejected

/-!
# Ahead and behind

The status counts what the current branch and the branch of the remote have that the other lacks.
A tip has nothing that another one lacks exactly when it is an ancestor of it
(`Repository.Stored.missing_eq_zero_iff`), for then its whole line is part of the other. So the two
counts say what the checks of a push and of a pull will find (`Project.counts_decide`).
-/

namespace Workbench

open Git (Fault FileStep Stop Tree)

variable {σ : Type}

namespace Repository

variable {r r' : Repository} {h : Host σ} {w w' : World σ} {other : Option String}
  {here there oid name : String} {old new : Tree} {stop : Stop}

/-! ## The counts -/

/-- How many commits are at or before one tip and neither at nor before another. -/
def missing (r : Repository) (tip other : Option String) : Nat :=
  ((r.ancestors tip).filter fun oid => !(r.ancestors other).contains oid).length

theorem divergence_eq (hr : r.remoteName.isSome = true) :
    r.divergence = (r.missing r.tip? r.remoteTip?, r.missing r.remoteTip? r.tip?) := by
  have hname : ¬ r.remoteName.isNone = true := by
    rw [← Option.not_isSome, hr]
    decide
  rw [divergence, if_neg hname]
  rfl

theorem missing_eq_zero_iff_subset {tip : Option String} :
    r.missing tip other = 0 ↔ ∀ oid ∈ r.ancestors tip, oid ∈ r.ancestors other := by
  rw [missing, List.length_eq_zero_iff, List.filter_eq_nil_iff]
  simp

theorem missing_self (r : Repository) (tip : Option String) : r.missing tip tip = 0 :=
  missing_eq_zero_iff_subset.2 fun _ hoid => hoid

theorem ancestors_none (r : Repository) : r.ancestors none = [] := by
  rw [ancestors, history]
  cases r.commits.size <;> rfl

theorem missing_none (r : Repository) (other : Option String) : r.missing none other = 0 := by
  rw [missing_eq_zero_iff_subset, ancestors_none]
  intro oid hoid
  cases hoid

namespace Stored

theorem mem_ancestors_iff (h : r.Stored) (hc : r.commits.contains here = true) :
    oid ∈ r.ancestors (some here) ↔ r.Precedes oid here := by
  rw [← h.isAncestor_iff hc, isAncestor, List.contains_iff_mem]

theorem isAncestor_self (h : r.Stored) (hc : r.commits.contains here = true) :
    r.isAncestor here (some here) = true :=
  (h.isAncestor_iff hc).2 (h.precedes_self hc)

/-- A commit has nothing that another tip lacks exactly when it is an ancestor of it: what comes
before an ancestor comes before the tip. -/
theorem missing_eq_zero_iff (h : r.Stored) (hc : r.commits.contains here = true)
    (ho : ∀ oid ∈ other, r.commits.contains oid = true) :
    r.missing (some here) other = 0 ↔ r.isAncestor here other = true := by
  rw [missing_eq_zero_iff_subset, isAncestor, List.contains_iff_mem]
  constructor
  · intro hall
    exact hall here ((h.mem_ancestors_iff hc).2 (h.precedes_self hc))
  · intro hmem oid hoid
    rw [h.mem_ancestors_iff hc] at hoid
    cases other with
    | none =>
      rw [ancestors_none] at hmem
      cases hmem
    | some there =>
      have hthere := ho there rfl
      rw [h.mem_ancestors_iff hthere] at hmem ⊢
      exact h.precedes_trans hoid hmem

end Stored

namespace Whole

theorem remoteTip (h : r.Whole) : ∀ there ∈ r.remoteTip?, r.commits.contains there = true :=
  fun _ hthere => h.remote hthere

/-- Nothing is behind exactly when what the remote points at, if anything, is an ancestor of the
current commit. -/
theorem behind_eq_zero_iff (h : r.Whole) (hr : r.remoteName.isSome = true) :
    r.divergence.2 = 0 ↔ ∀ there ∈ r.remoteTip?, r.isAncestor there r.tip? = true := by
  rw [divergence_eq hr]
  cases hthere : r.remoteTip? with
  | none => simp [missing_none]
  | some there =>
    simpa using h.toStored.missing_eq_zero_iff (h.remoteTip there hthere) fun _ => h.tip

/-- Nothing is ahead exactly when the current commit is an ancestor of what the remote points
at. -/
theorem ahead_eq_zero_iff (h : r.Whole) (hr : r.remoteName.isSome = true)
    (ht : r.tip? = some here) :
    r.divergence.1 = 0 ↔ r.isAncestor here r.remoteTip? = true := by
  rw [divergence_eq hr, ht]
  exact h.toStored.missing_eq_zero_iff (h.tip ht) h.remoteTip

theorem initialized_of_tip (h : r.Whole) (ht : r.tip? = some here) : r.initialized = true := by
  by_contra hi
  have hbranches := h.begun (Bool.eq_false_iff.2 hi)
  rw [tip?, hbranches, Table.get?_empty] at ht
  cases ht

end Whole

/-- The current branch and that of the remote point at the same commit. -/
def Level (r : Repository) : Prop := r.initialized = true ∧ r.remoteTip? = r.tip?

/-- Then nothing is ahead and nothing is behind. -/
theorem Level.status (hl : r.Level) (s : Workspace) :
    ∃ t, r.status s = .ok t ∧ t.ahead = 0 ∧ t.behind = 0 := by
  obtain ⟨hi, he⟩ := hl
  have hzero : r.divergence = (0, 0) := by
    by_cases hr : r.remoteName.isSome = true
    · rw [divergence_eq hr, he, missing_self]
    · rw [divergence, if_pos (by simpa using hr)]
  refine ⟨r.statusNow s, ?_, ?_, ?_⟩
  · rw [Repository.status, require_eq_ok_iff.2 hi]
    rfl
  · exact congrArg Prod.fst hzero
  · exact congrArg Prod.snd hzero

/-! ## The checks -/

/-- A push is refused where the remote points at a commit that is no ancestor of the current one,
and otherwise makes it point at the current one. -/
theorem Whole.push_cases (h : r.Whole) (hr : r.remoteName = some name) (ht : r.tip? = some here) :
    (∃ there, r.remoteTip? = some there ∧ r.isAncestor there r.tip? = false ∧
        r.push = .error (.behindRemote name)) ∨
      ((∀ there ∈ r.remoteTip?, r.isAncestor there r.tip? = true) ∧
        ∃ text r', r.push = .ok (text, r') ∧ r'.Level) := by
  have hi := h.initialized_of_tip ht
  have hmoved : Level { r with remoteBranches := r.remoteBranches.insert r.head here } := by
    refine ⟨hi, ?_⟩
    rw [remoteTip?, Table.get?_insert_self]
    exact ht.symm
  unfold push
  rw [require_eq_ok_iff.2 hi, hr, ht]
  cases hthere : r.remoteTip? with
  | none => exact .inr ⟨fun _ he => (nomatch he), _, _, rfl, hmoved⟩
  | some there =>
    by_cases hsame : here = there
    · subst hsame
      have hself := h.toStored.isAncestor_self (h.tip ht)
      refine .inr ⟨by simpa using hself, "Everything up-to-date", r, ?_, hi, hthere.trans ht.symm⟩
      simp only [beq_self_eq_true, ↓reduceIte]
      rfl
    · have hne : ¬ (here == there) = true := by simpa using hsame
      by_cases hold : r.isAncestor there (some here) = true
      · refine .inr ⟨by simpa using hold, ?_⟩
        simp only [hne, hold]
        exact ⟨_, _, rfl, hmoved⟩
      · refine .inl ⟨there, rfl, Bool.eq_false_iff.2 hold, ?_⟩
        simp only [hne, Bool.eq_false_iff.2 hold]
        rfl

/-- A pull has nothing to do where the remote points at nothing new, is refused where the current
commit is not before what it points at, and otherwise moves there as far as the files can be
replaced. -/
theorem Whole.pull_cases (hw : r.Whole) (hr : r.remoteName.isSome = true) (ht : r.tip? = some here)
    (h : Host σ) (w : World σ) :
    ((∀ there ∈ r.remoteTip?, r.isAncestor there r.tip? = true) ∧
        r.pull h w = (.ok "Already up to date.", w, r)) ∨
      (∃ there ∈ r.remoteTip?, r.isAncestor there r.tip? = false) ∧
        ((r.isAncestor here r.remoteTip? = false ∧
            r.pull h w = (.error (.rejected .notFastForward), w, r)) ∨
          (r.isAncestor here r.remoteTip? = true ∧
            ((∃ e w', r.switchFiles h w r.headTree (r.treeOf r.remoteTip?) = (.error e, w') ∧
                r.pull h w = (.error e, w', r)) ∨
              ∃ w' text r', r.switchFiles h w r.headTree (r.treeOf r.remoteTip?) = (.ok (), w') ∧
                r.pull h w = (.ok ("Updating " ++ text), w', r') ∧ r'.Level))) := by
  have hi := hw.initialized_of_tip ht
  have hname : ¬ r.remoteName.isNone = true := by
    rw [← Option.not_isSome, hr]
    decide
  unfold pull
  rw [require_eq_ok_iff.2 hi]
  dsimp only
  rw [if_neg hname]
  cases hthere : r.remoteTip? with
  | none => exact .inl ⟨fun _ he => (nomatch he), rfl⟩
  | some there =>
    by_cases hold : r.isAncestor there r.tip? = true
    · exact .inl ⟨by simpa using hold, if_pos hold⟩
    · refine .inr ⟨⟨there, rfl, Bool.eq_false_iff.2 hold⟩, ?_⟩
      dsimp only
      rw [if_neg hold, ht, Option.any_some]
      by_cases hpast : r.isAncestor here (some there) = true
      · refine .inr ⟨hpast, ?_⟩
        rw [if_neg (by simpa using hpast)]
        rcases hs : r.switchFiles h w r.headTree (r.treeOf (some there)) with ⟨_ | ⟨⟩, w'⟩
        · exact .inl ⟨_, w', rfl, rfl⟩
        · have hmoved : Level { r with
              branches := r.branches.insert r.head (some there)
              index := r.treeOf (some there) } := by
            refine ⟨hi, ?_⟩
            rw [tip?, Table.get?_insert_self]
            exact hthere
          simp only [String.append_assoc]
          exact .inr ⟨w', _, _, rfl, rfl, hmoved⟩
      · exact .inl ⟨Bool.eq_false_iff.2 hpast, if_pos (by simpa using hpast)⟩

/-- Files are only refused by the workspace. -/
theorem exists_setback_of_run {a : FileStep} (hd : (a.run r h w).1 = .error stop) :
    ∃ b, stop = stopOf b := by
  cases a with
  | delete path =>
    rw [FileStep.run, deleteFile] at hd
    split at hd
    · cases hd
    · obtain ⟨b, -, rfl⟩ := mapError_eq_error.1 hd
      exact ⟨b, rfl⟩
  | write path content =>
    rw [FileStep.run, writeFile] at hd
    dsimp only at hd
    split at hd
    · split at hd
      · cases hd
      · split at hd
        · cases hd
        · exact ⟨_, (Except.error.inj hd).symm⟩
    · split at hd
      · exact ⟨_, (Except.error.inj hd).symm⟩
      · split at hd
        · cases hd
        · exact ⟨_, (Except.error.inj hd).symm⟩

theorem exists_setback_of_switchFiles
    (hd : r.switchFiles h w old new = (.error stop, w')) : ∃ b, stop = stopOf b := by
  rw [switchFiles_eq] at hd
  obtain ⟨-, a, -, w₁, -, -, ha⟩ := inOrder_eq_error hd
  exact exists_setback_of_run (congrArg Prod.fst ha)

theorem stopOf_ne_rejected {b : Setback} {f : Fault} (hf : ∀ cause, f ≠ .refused cause) :
    stopOf b ≠ .rejected f := by
  intro he
  cases b with
  | refused cause => exact hf cause (Stop.rejected.inj he).symm
  | lost id => cases he

end Repository

namespace Project

open Repository

variable {p : Project σ} {here : String}

/-- The status says that nothing is ahead and nothing is behind. -/
def Even (p : Project σ) : Prop :=
  ∃ t, p.repository.status p.world.space = .ok t ∧ t.ahead = 0 ∧ t.behind = 0

/-- What the counts of a status say about the next push and the next pull. -/
structure Decides (h : Host σ) (p : Project σ) (t : Status) : Prop where
  push_refused : (∃ stop, (Git.Call.push.run h p).1 = .error stop) ↔ 0 < t.behind
  pushed : t.behind = 0 →
    (Git.Call.push.run h p).1.isOk = true ∧ (Git.Call.push.run h p).2.Even
  up_to_date : (Git.Call.pull.run h p).1 = .ok (some "Already up to date.") ↔ t.behind = 0
  not_forward :
    (Git.Call.pull.run h p).1 = .error (.rejected .notFastForward) ↔ 0 < t.ahead ∧ 0 < t.behind
  /-- If the files can be replaced, the current branch moves to the commit of the remote. -/
  forward : t.ahead = 0 → 0 < t.behind →
    (p.repository.switchFiles h p.world p.repository.headTree
      (p.repository.treeOf p.repository.remoteTip?)).1 = .ok () →
    (Git.Call.pull.run h p).1.isOk = true ∧ (Git.Call.pull.run h p).2.Even

theorem updating_ne (text : String) : "Updating " ++ text ≠ "Already up to date." := by
  intro he
  have hhead := congrArg (fun s : String => s.toList.head?) he
  simp at hhead

theorem run_push_of_ok {h : Host σ} {text : String} {r' : Repository}
    (hp : p.repository.push = .ok (text, r')) :
    Git.Call.push.run h p = (.ok (some text), { p with repository := r' }) := by
  rw [Git.Call.run, hp]
  rfl

theorem run_push_of_error {h : Host σ} {f : Fault} (hp : p.repository.push = .error f) :
    Git.Call.push.run h p = (.error (.rejected f), p) := by
  rw [Git.Call.run, hp]
  rfl

theorem run_pull_of_eq {h : Host σ} {x : Except Stop String} {w' : World σ} {r' : Repository}
    (hp : p.repository.pull h p.world = (x, w', r')) :
    Git.Call.pull.run h p = (x.map some, ⟨r', w'⟩) := by
  rw [Git.Call.run, hp]

theorem push_decided (hw : p.repository.Whole) (hr : p.repository.remoteName.isSome = true)
    (ht : p.repository.tip? = some here) (h : Host σ) :
    ((∃ stop, (Git.Call.push.run h p).1 = .error stop) ↔ 0 < p.repository.divergence.2) ∧
      (p.repository.divergence.2 = 0 →
        (Git.Call.push.run h p).1.isOk = true ∧ (Git.Call.push.run h p).2.Even) := by
  have hbehind := hw.behind_eq_zero_iff hr
  obtain ⟨name, hname⟩ := Option.isSome_iff_exists.1 hr
  rcases hw.push_cases hname ht with ⟨there, hthere, hnew, hpush⟩ | ⟨hold, text, r', hpush, hlevel⟩
  · have hpos : p.repository.divergence.2 ≠ 0 := by
      intro hzero
      rw [hbehind.1 hzero there hthere] at hnew
      cases hnew
    rw [run_push_of_error hpush]
    exact ⟨iff_of_true ⟨_, rfl⟩ (Nat.pos_of_ne_zero hpos), fun hzero => absurd hzero hpos⟩
  · have hzero := hbehind.2 hold
    rw [run_push_of_ok hpush, hzero]
    refine ⟨iff_of_false ?_ (Nat.lt_irrefl 0), fun _ => ⟨rfl, hlevel.status _⟩⟩
    rintro ⟨stop, hstop⟩
    cases hstop

theorem pull_decided (hw : p.repository.Whole) (hr : p.repository.remoteName.isSome = true)
    (ht : p.repository.tip? = some here) (h : Host σ) :
    ((Git.Call.pull.run h p).1 = .ok (some "Already up to date.") ↔
        p.repository.divergence.2 = 0) ∧
      ((Git.Call.pull.run h p).1 = .error (.rejected .notFastForward) ↔
        0 < p.repository.divergence.1 ∧ 0 < p.repository.divergence.2) ∧
      (p.repository.divergence.1 = 0 → 0 < p.repository.divergence.2 →
        (p.repository.switchFiles h p.world p.repository.headTree
          (p.repository.treeOf p.repository.remoteTip?)).1 = .ok () →
        (Git.Call.pull.run h p).1.isOk = true ∧ (Git.Call.pull.run h p).2.Even) := by
  have hbehind := hw.behind_eq_zero_iff hr
  have hahead := hw.ahead_eq_zero_iff hr ht
  rcases hw.pull_cases hr ht h p.world with ⟨hold, hpull⟩ | ⟨⟨there, hthere, hnew⟩, hpull⟩
  · have hzero := hbehind.2 hold
    rw [run_pull_of_eq hpull, hzero]
    simp [Except.map]
  have hpos : 0 < p.repository.divergence.2 := by
    refine Nat.pos_of_ne_zero fun hzero => ?_
    rw [hbehind.1 hzero there hthere] at hnew
    cases hnew
  rcases hpull with ⟨hside, hpull⟩ | ⟨hpast, ⟨e, w', hs, hpull⟩ | ⟨w', text, r', hs, hpull, hlevel⟩⟩
  · have hne : p.repository.divergence.1 ≠ 0 := by
      intro hzero
      rw [hahead.1 hzero] at hside
      cases hside
    rw [run_pull_of_eq hpull]
    refine ⟨iff_of_false (fun he => nomatch he) hpos.ne', iff_of_true rfl ⟨?_, hpos⟩, ?_⟩
    · exact Nat.pos_of_ne_zero hne
    · exact fun hzero => absurd hzero hne
  · have hzero := hahead.2 hpast
    obtain ⟨b, rfl⟩ := exists_setback_of_switchFiles hs
    rw [run_pull_of_eq hpull, hs, hzero]
    refine ⟨iff_of_false (fun he => nomatch he) hpos.ne', iff_of_false ?_ ?_, ?_⟩
    · intro he
      refine stopOf_ne_rejected ?_ (Except.error.inj he)
      intro cause hf
      cases hf
    · exact fun hlt => Nat.lt_irrefl 0 hlt.1
    · intro _ _ hok
      cases hok
  · have hzero := hahead.2 hpast
    rw [run_pull_of_eq hpull, hzero]
    refine ⟨iff_of_false ?_ hpos.ne', iff_of_false ?_ ?_, ?_⟩
    · intro he
      exact updating_ne text (Option.some.inj (Except.ok.inj he))
    · intro he
      cases he
    · exact fun hlt => Nat.lt_irrefl 0 hlt.1
    · exact fun _ _ _ => ⟨rfl, hlevel.status _⟩

/-- The counts decide: a push is refused exactly where something is behind, and a pull has nothing
to do where nothing is, is refused where something is ahead as well, and moves forward
otherwise. -/
theorem counts_decide (hp : p.Distinct) (hr : p.repository.remoteName.isSome = true)
    (ht : p.repository.tip? = some here) (h : Host σ) :
    ∃ t, p.repository.status p.world.space = .ok t ∧ Decides h p t := by
  have hw := hp.whole
  obtain ⟨hrefused, hpushed⟩ := push_decided hw hr ht h
  obtain ⟨hup, hside, hforward⟩ := pull_decided hw hr ht h
  refine ⟨p.repository.statusNow p.world.space, ?_, hrefused, hpushed, hup, hside, hforward⟩
  rw [Repository.status, require_eq_ok_iff.2 (hw.initialized_of_tip ht)]
  rfl

theorem distinct_behind : behind.Distinct := by
  have hrecorded : noFile.LedTo (fun h r c => c.IsFresh h.now r) secondCommit :=
    LedTo.refl.recorded (by decide +kernel) (by decide) (by decide +kernel) commitId_noFile
      (isFresh_commit commitId_noFile (by decide +kernel))
  have hmain := hrecorded.acts (h := freeHost)
    [.inr (.checkout "main"), .inr (.attachRemote "origin")] fun c hc => isFresh_of_mem (by simp) hc
  have hstored : ∀ oid ∈ some secondId, ([.inr (.checkout "main"),
      .inr (.attachRemote "origin")].foldl (act freeHost) secondCommit).repository.commits.contains
        oid = true := by
    decide +kernel
  have hled := (hmain.remote "main" hstored).acts (h := freeHost)
    [.inl (.setContent "n2" "edited")] fun c hc => isFresh_of_mem (by simp) hc
  rw [List.foldl_cons, List.foldl_cons, List.foldl_nil] at hled
  have hcheckout : act freeHost secondCommit (.inr (.checkout "main")) =
      secondCommit.onMain (some firstId) freeHost := congrArg Prod.snd run_secondCommit
  rw [hcheckout] at hled
  exact distinct_noFile.trans hled

/-- The remote is one commit further: a push is refused, and a pull moves there. -/
theorem behind_even : ∃ t, behind.repository.status behind.world.space = .ok t ∧
    t.ahead = 0 ∧ t.behind = 1 ∧ (∃ stop, (Git.Call.push.run freeHost behind).1 = .error stop) ∧
      (Git.Call.pull.run freeHost behind).2.Even := by
  have ht : behind.repository.tip? = some firstId := by decide +kernel
  obtain ⟨t, hstatus, hd⟩ := counts_decide distinct_behind (by decide +kernel) ht freeHost
  have hcounts : behind.repository.divergence = (0, 1) := by decide +kernel
  have hi : behind.repository.require = .ok () := by decide +kernel
  obtain rfl : behind.repository.statusNow behind.world.space = t := by
    rw [Repository.status, hi] at hstatus
    exact Except.ok.inj hstatus
  have hahead : (behind.repository.statusNow behind.world.space).ahead = 0 :=
    congrArg Prod.fst hcounts
  have hbehind : (behind.repository.statusNow behind.world.space).behind = 1 :=
    congrArg Prod.snd hcounts
  have hpos : 0 < (behind.repository.statusNow behind.world.space).behind := by
    rw [hbehind]
    decide
  exact ⟨_, hstatus, hahead, hbehind, hd.push_refused.2 hpos,
    (hd.forward hahead hpos (by decide +kernel)).2⟩

end Project

end Workbench
