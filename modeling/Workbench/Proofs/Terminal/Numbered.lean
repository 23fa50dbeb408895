import Workbench.Proofs.Terminal.Attended

/-!
# Names that are given to new terminals

Terminals that are opened are numbered on. The counter never lies below the number of a name that
has been in use since the start (`Desk.Counts`): it is set so from the stored names, and a terminal
that is opened takes the number after it. So the name of a terminal that is opened is new, whatever
names were stored, and whether or not those that had the others are still there.
-/

namespace Workbench

variable {settings : Settings}

/-! ## Numbered names -/

/-- The name of the terminal with a number. -/
def numberedName (n : Nat) : String := "Terminal " ++ toString n

theorem toList_numberedName (n : Nat) :
    (numberedName n).toList = "Terminal ".toList ++ Nat.toDigits 10 n :=
  String.toList_append.trans (congrArg ("Terminal ".toList ++ ·)
    (by rw [Nat.toString_eq_ofList_toDigits, String.toList_ofList]))

theorem numberedName_inj {m n : Nat} (h : numberedName m = numberedName n) : m = n := by
  have hlist := congrArg String.toList h
  rw [toList_numberedName, toList_numberedName] at hlist
  have hdigits := congrArg (fun cs => Nat.ofDigitChars 10 cs 0) (List.append_cancel_left hlist)
  simpa using hdigits

namespace Text

theorem digitValue?_of_isDigit {c : Char} (h : c.isDigit = true) :
    digitValue? c = some (c.toNat - '0'.toNat) := by
  obtain ⟨hlow, hhigh⟩ := Char.isDigit_iff_toNat.1 h
  have hzero : ('0'.toNat ≤ c.toNat && c.toNat ≤ '0'.toNat + 9) = true := by
    rw [Bool.and_eq_true, decide_eq_true_eq, decide_eq_true_eq]
    exact ⟨hlow, hhigh⟩
  have hfirst : decimalZeros = '0'.toNat :: decimalZeros.tail := rfl
  rw [digitValue?, hfirst, List.find?_cons, hzero]
  rfl

theorem not_underscore_of_isDigit {c : Char} (h : c.isDigit = true) : ¬ (c == '_') = true := by
  rw [beq_iff_eq]
  rintro rfl
  exact absurd h (by decide)

theorem digitRun?_of_isDigit {cs : List Char} (h : ∀ c ∈ cs, c.isDigit = true) :
    digitRun? true cs = some (cs.map fun c => c.toNat - '0'.toNat) := by
  induction cs with
  | nil => rfl
  | cons c rest ih =>
    obtain ⟨hc, hrest⟩ := List.forall_mem_cons.1 h
    rw [digitRun?, if_neg (not_underscore_of_isDigit hc), digitValue?_of_isDigit hc, ih hrest]
    rfl

theorem ofDigits_map (cs : List Char) :
    ofDigits (cs.map fun c => c.toNat - '0'.toNat) = Nat.ofDigitChars 10 cs 0 := by
  rw [ofDigits, List.foldl_map]
  rfl

/-- A number is read from its digits unless they are too many. -/
theorem readNat_toDigits (n : Nat) : readNat (Nat.toDigits 10 n) =
    if (Nat.toDigits 10 n).length > digitLimit then .error (.tooLong (Nat.toDigits 10 n).length)
    else .ok n := by
  have hall : ∀ c ∈ Nat.toDigits 10 n, c.isDigit = true := fun c hc =>
    Nat.isDigit_of_mem_toDigits (by decide) (by decide) hc
  have hrun : digitRun? false (Nat.toDigits 10 n) = digitRun? true (Nat.toDigits 10 n) := by
    cases hcs : Nat.toDigits 10 n with
    | nil => exact absurd hcs Nat.toDigits_ne_nil
    | cons c rest =>
      have hplain := not_underscore_of_isDigit (hall c (hcs ▸ List.mem_cons_self))
      rw [digitRun?, digitRun?, if_neg hplain, if_neg hplain]
  simp only [readNat, hrun, digitRun?_of_isDigit hall, List.length_map, ofDigits_map,
    Nat.ofDigitChars_toDigits (by decide : 1 < 10) (Nat.le_refl 10)]

end Text

theorem terminalNumber?_numberedName (n : Nat) :
    terminalNumber? (numberedName n) = some (Text.readNat (Nat.toDigits 10 n)) := by
  have hstart : Text.startsWith (numberedName n) "Terminal " = true := by
    rw [Text.startsWith, toList_numberedName]
    exact List.isPrefixOf_iff_prefix.2 (List.prefix_append _ _)
  have hdigits : (Text.dropChars (numberedName n) 9).toList = Nat.toDigits 10 n := by
    rw [Text.dropChars, String.toList_ofList, toList_numberedName]
    exact List.drop_left' rfl
  have hall : (Nat.toDigits 10 n).all Text.isDecimalDigit = true := by
    refine List.all_eq_true.2 fun c hc => ?_
    rw [Text.isDecimalDigit, Text.digitValue?_of_isDigit
      (Nat.isDigit_of_mem_toDigits (by decide) (by decide) hc)]
    rfl
  have hsome : (Nat.toDigits 10 n).isEmpty = false :=
    List.isEmpty_eq_false_iff.2 Nat.toDigits_ne_nil
  simp only [terminalNumber?, hstart, hdigits, hall, hsome]
  rfl

/-- Numbers are read from all names that have them. -/
theorem mem_terminalNumbers {names : List String} {numbers : List Nat} {n : Nat}
    (h : terminalNumbers names = .ok numbers) (hn : numberedName n ∈ names) : n ∈ numbers := by
  have hnumber : terminalNumber? (numberedName n) = some (.ok n) := by
    have hread := isReadableName_of_numbers h _ hn
    rw [IsReadableName, terminalNumber?_numberedName, Text.readNat_toDigits] at hread
    rw [terminalNumber?_numberedName, Text.readNat_toDigits]
    split
    next hlong =>
      rw [if_pos hlong] at hread
      exact absurd rfl (hread _)
    next => rfl
  induction names generalizing numbers with
  | nil => cases hn
  | cons name rest ih =>
    rw [terminalNumbers] at h
    rcases List.mem_cons.1 hn with rfl | hrest
    · rw [hnumber] at h
      obtain ⟨numbers', -, rfl⟩ := map_eq_ok.1 h
      exact List.mem_cons_self
    · split at h
      · exact ih h hrest
      · obtain ⟨numbers', h', rfl⟩ := map_eq_ok.1 h
        exact List.mem_cons_of_mem _ (ih h' hrest)
      · cases h
      · exact ih h hrest

/-! ## Terminals that go on and terminals that are opened -/

namespace Desk

variable {d d' : Desk} {s : Workspace} {draws : Draws} {id name : String} {t : Terminal}

theorem nextName_eq_numbered (h : d.nextName = .ok name) : name = numberedName (d.counter + 1) := by
  unfold nextName at h
  dsimp only at h
  split at h
  · cases h
  · exact (Except.ok.inj h).symm

/-- What a step does to the terminals: those that are left go on, or one is opened with the next
number, under an id that is told. -/
inductive Numbers (d : Desk) : Option String → Desk → Prop
  | kept {d' : Desk} (hc : d'.counter = d.counter) (hg : d.GoesOn d') : Numbers d none d'
  | opened {d' : Desk} {id : String} {t : Terminal} (hc : d'.counter = d.counter + 1)
    (ht : d'.table = d.table.insert id t) (hid : t.id = id)
    (hname : t.name = numberedName d'.counter) : Numbers d (some id) d'

/-- The names that have been in use: they are those of the terminals and maybe more, and none has a
higher number than the counter. -/
structure Counts (names : List String) (d : Desk) : Prop where
  held : ∀ {id t}, d.table.get? id = some t → t.id = id
  named : ∀ {id t}, d.table.get? id = some t → t.name ∈ names
  bounded : ∀ {n}, numberedName n ∈ names → n ≤ d.counter

theorem numbers_openTerminal (d : Desk) (settings : Settings) (s : Workspace)
    (word : Option String) (activate : Bool) :
    d.Numbers (d.openTerminal settings s word activate).1.toOption
      (d.openTerminal settings s word activate).2 := by
  obtain ⟨e, he, -⟩ | ⟨e, name, -, -, he⟩ | ⟨id, name, shell, -, hname, -, he⟩ :=
    d.openTerminal_cases settings s word activate
  · rw [he]
    exact .kept rfl (.refl d)
  · rw [he]
    exact .kept rfl (.refl d)
  · rw [he]
    exact .opened rfl rfl rfl (nextName_eq_numbered hname)

theorem numbers_close {closed : Bool} (hc : d.close id = .ok (closed, d')) :
    d.Numbers none d' := by
  unfold Desk.close at hc
  obtain ⟨t, -, hc⟩ := bind_eq_ok.1 hc
  split at hc
  · obtain ⟨-, rfl⟩ := Prod.mk.inj (Except.ok.inj hc)
    exact .kept rfl (.refl d)
  · obtain ⟨-, rfl⟩ := Prod.mk.inj (Except.ok.inj hc)
    refine .kept rfl fun id' t' hget => ?_
    rw [Table.get?_erase] at hget
    split at hget
    · cases hget
    · exact ⟨t', hget, .refl t'⟩

/-- The id under which sharing the view opens a terminal. -/
def partnerOpened (d : Desk) (settings : Settings) (s : Workspace) (mode : SplitMode) :
    Option String :=
  match d.partner? with
  | some _ => none
  | none => (d.toggleSplit settings s mode).1.toOption.join

theorem numbers_toggleSplit (d : Desk) (settings : Settings) (s : Workspace) (mode : SplitMode) :
    d.Numbers (d.partnerOpened settings s mode) (d.toggleSplit settings s mode).2 := by
  have hopened := d.numbers_openTerminal settings s none false
  unfold partnerOpened Desk.toggleSplit
  cases d.partner? with
  | some p =>
    dsimp only
    split
    · exact .kept rfl (.refl d)
    · exact .kept rfl (.refl d)
  | none =>
    dsimp only
    split
    · exact .kept rfl (.refl d)
    cases ho : d.openTerminal settings s none false with
    | mk answer d' =>
      rw [ho] at hopened
      cases answer with
      | error e =>
        cases hopened with
        | kept hc hg => exact .kept hc hg
      | ok id =>
        cases hopened with
        | opened hc ht hid hname => exact .opened hc ht hid hname

namespace Counts

variable {names : List String}

theorem goesOn (h : d.Counts names) (hc : d'.counter = d.counter) (hg : d.GoesOn d') :
    d'.Counts names where
  held hget := by
    obtain ⟨t, ht, hgo⟩ := hg _ _ hget
    exact hgo.id.trans (h.held ht)
  named hget := by
    obtain ⟨t, ht, hgo⟩ := hg _ _ hget
    exact hgo.name ▸ h.named ht
  bounded hn := hc ▸ h.bounded hn

theorem opened (h : d.Counts names) (hc : d'.counter = d.counter + 1)
    (ht : d'.table = d.table.insert id t) (hid : t.id = id)
    (hname : t.name = numberedName d'.counter) : d'.Counts (names ++ [t.name]) where
  held hget := by
    rw [ht] at hget
    exact Table.forall_insert (P := fun id (t : Terminal) => t.id = id) h.held hid hget
  named hget := by
    rw [ht] at hget
    exact Table.forall_insert (P := fun _ (t' : Terminal) => t'.name ∈ names ++ [t.name])
      (fun hold => List.mem_append_left _ (h.named hold)) (List.mem_concat_self ..) hget
  bounded hn := by
    rcases List.mem_append.1 hn with hold | hnew
    · exact (h.bounded hold).trans (hc ▸ Nat.le_succ _)
    · rw [List.mem_singleton, hname] at hnew
      exact Nat.le_of_eq (numberedName_inj hnew)

/-- The next number is in no name that has been in use. -/
theorem not_mem (h : d.Counts names) : numberedName (d.counter + 1) ∉ names :=
  fun hn => Nat.not_succ_le_self _ (h.bounded hn)

/-- What a step preserves. -/
theorem step {opened : Option String} (h : d.Counts names) (hs : d.Numbers opened d') :
    d'.Counts (names ++ (opened.bind fun id => (d'.table.get? id).map Terminal.name).toList) := by
  cases hs with
  | kept hc hg =>
    rw [Option.bind_none, Option.toList_none, List.append_nil]
    exact h.goesOn hc hg
  | opened hc ht hid hname =>
    rw [Option.bind_some, ht, Table.get?_insert_self, Option.map_some, Option.toList_some]
    exact h.opened hc ht hid hname

/-- The names at the start. -/
theorem of_start {now : Timestamp} {stored : Option String}
    (hd : Desk.start settings s now draws stored = .ok d) :
    d.Counts (d.table.values.map Terminal.name) := by
  have hnamed : ∀ {id t}, d.table.get? id = some t → t.name ∈ d.table.values.map Terminal.name :=
    fun ht => List.mem_map.2 ⟨_, List.mem_map.2 ⟨_, Table.mem_entries_iff.2 ht, rfl⟩, rfl⟩
  rcases start_cases hd with ⟨draws, rfl⟩ | ⟨saved, draws, draws', hr⟩
  · refine ⟨fun ht => ((Sound.new settings s draws).fits ht).held, hnamed, fun {n} hn => ?_⟩
    obtain ⟨e, -, hname⟩ | ⟨e, name, -, hshell, -⟩ | ⟨id, name, shell, -, hname, -, he⟩ :=
      openTerminal_cases { draws := draws } settings s none true
    · rw [nextName_of_counter rfl] at hname
      cases hname
    · cases hshell
    · rw [Desk.new, he] at hn ⊢
      have hfirst : numberedName n = name := List.mem_singleton.1 hn
      rw [nextName_eq_numbered hname] at hfirst
      exact Nat.le_of_eq (numberedName_inj hfirst)
  · refine ⟨fun ht => ((Sound.restored hr).fits ht).held, hnamed, fun {n} hn => ?_⟩
    unfold Desk.restored at hr
    dsimp only at hr
    split at hr
    · cases hr
    split at hr
    · cases hr
    next numbers hnumbers =>
    obtain ⟨hr, -⟩ := Prod.mk.inj (Except.ok.inj hr)
    obtain rfl := Option.some.inj hr
    exact List.le_max?_getD_of_mem (mem_terminalNumbers hnumbers hn)

end Counts

end Desk

/-! ## Names that are given -/

namespace DeskCall

variable {b : Studio FileSystem} {h : Host FileSystem} {call : DeskCall}

/-- The id under which a call opens a terminal, if it does. -/
def opens (settings : Settings) (b : Studio FileSystem) : DeskCall → Option String
  | openTerminal shell front =>
    (b.desk.openTerminal settings b.world.space shell front).1.toOption
  | share word =>
    (SplitMode.ofText? word).bind (b.desk.partnerOpened settings b.world.space)
  | _ => none

/-- The name that a call gives to a terminal that it opens. -/
def given (h : Host FileSystem) (settings : Settings) (b : Studio FileSystem) (call : DeskCall) :
    Option String :=
  (call.opens settings b).bind fun id =>
    ((call.after h settings b).desk.table.get? id).map Terminal.name

theorem numbers (hb : ∀ {id t}, b.desk.table.get? id = some t → t.id = id) (h : Host FileSystem)
    (call : DeskCall) :
    b.desk.Numbers (call.opens settings b) (call.after h settings b).desk := by
  cases call with
  | openTerminal shell front => exact b.desk.numbers_openTerminal settings _ shell front
  | close id =>
    dsimp only [after, opens]
    split
    · next hd => exact Desk.numbers_close hd
    · exact .kept rfl (.refl _)
  | activate id =>
    dsimp only [after, opens]
    split
    · next d hd =>
      unfold Desk.activate at hd
      obtain ⟨t, -, hd⟩ := bind_eq_ok.1 hd
      obtain rfl := Except.ok.inj hd
      exact .kept rfl (.refl _)
    · exact .kept rfl (.refl _)
  | share word =>
    dsimp only [after, opens]
    cases SplitMode.ofText? word with
    | none => exact .kept rfl (.refl _)
    | some mode => exact b.desk.numbers_toggleSplit settings _ mode
  | execute id line =>
    dsimp only [after, opens]
    rcases b.desk_execute h settings id line with he | ⟨id', t, t', draws, ht, hg, he⟩
    · rw [he]
      exact .kept rfl (.refl _)
    · rw [he]
      exact .kept rfl (Desk.GoesOn.put ht (hb ht) hg)
  | clear id =>
    dsimp only [after, opens]
    split
    · next t ht =>
      have hget := Desk.get_eq_ok_iff.1 ht
      exact .kept rfl (Desk.GoesOn.put hget (hb hget) (.handled .cleared))
    · exact .kept rfl (.refl _)
  | save path => exact .kept rfl (.refl _)

end DeskCall

namespace Studio

variable {b : Studio FileSystem} {names : List String}

/-- What is reached from the start of the terminals, with the names that they had at the start and
those that were given since, in that order. Drawn ids need not be new. -/
inductive Named (settings : Settings) : List String → Studio FileSystem → Prop
  | started {w : World FileSystem} {repository : Option Repository} {now : Timestamp}
      {draws : Draws} {stored : Option String} {d : Desk}
      (hd : Desk.start settings w.space now draws stored = .ok d) :
      Named settings (d.table.values.map Terminal.name) ⟨w, repository, d⟩
  | elsewhere {names : List String} {b : Studio FileSystem} (hb : Named settings names b)
      (w : World FileSystem) (repository : Option Repository) (draws : Draws) :
      Named settings names ⟨w, repository, { b.desk with draws := draws }⟩
  | called {names : List String} {b : Studio FileSystem} (hb : Named settings names b)
      (h : Host FileSystem) (call : DeskCall) :
      Named settings (names ++ (call.given h settings b).toList) (call.after h settings b)
  | worked {names : List String} {b : Studio FileSystem} (hb : Named settings names b)
      (h : Host FileSystem) (terminalId entryId : String) (job : Job) :
      Named settings names (b.doJob h settings terminalId entryId job)

/-- What a run preserves. -/
theorem Named.counts (hb : b.Named settings names) : b.desk.Counts names := by
  induction hb with
  | started hd => exact .of_start hd
  | elsewhere _ w repository draws ih => exact ih.goesOn rfl (.refl _)
  | called _ h call ih => exact ih.step (DeskCall.numbers ih.held h call)
  | @worked names b _ h terminalId entryId job ih =>
    obtain ⟨a, he⟩ := b.desk_doJob h settings terminalId entryId job
    rw [he]
    exact ih.goesOn rfl (Desk.GoesOn.modify b.desk terminalId fun t => .complete t entryId a)

/-- A terminal that is opened has the name of a number, which none of the terminals has and which
none has been given since the start. All other terminals that are left have their names. -/
theorem given_isNew (hb : b.Named settings names) (h : Host FileSystem) (call : DeskCall) :
    (∀ id, call.opens settings b = some id → ∃ t n,
      (call.after h settings b).desk.table.get? id = some t ∧ t.name = numberedName n ∧
      call.given h settings b = some t.name ∧
      (∀ id' t', b.desk.table.get? id' = some t' → t'.name ≠ t.name) ∧ t.name ∉ names) ∧
    ∀ id t', (call.after h settings b).desk.table.get? id = some t' →
      call.opens settings b = some id ∨
        ∃ t, b.desk.table.get? id = some t ∧ t.name = t'.name := by
  have hcounts := hb.counts
  have hnumbers : b.desk.Numbers (call.opens settings b) (call.after h settings b).desk :=
    DeskCall.numbers hcounts.held h call
  unfold DeskCall.given
  generalize call.opens settings b = opened at hnumbers ⊢
  cases hnumbers with
  | kept hc hg =>
    refine ⟨fun id hid => (nomatch hid), fun id t' ht' => .inr ?_⟩
    obtain ⟨t, ht, hgo⟩ := hg _ _ ht'
    exact ⟨t, ht, hgo.name.symm⟩
  | @opened _ id t hc ht hid hname =>
    have hself := Table.get?_insert_self b.desk.table id t
    have hnew : t.name ∉ names := by
      rw [hname, hc]
      exact hcounts.not_mem
    rw [ht]
    refine ⟨fun id' hid' => ?_, fun id' t' ht' => ?_⟩
    · obtain rfl := Option.some.inj hid'
      refine ⟨t, _, hself, hname, ?_, fun id' t' ht' he => hnew (he ▸ hcounts.named ht'), hnew⟩
      rw [Option.bind_some, hself, Option.map_some]
    · rw [Table.get?_insert] at ht'
      split at ht'
      · next he => exact .inl (congrArg some he.symm)
      · exact .inr ⟨t', ht', rfl⟩

/-- Two stored terminals, of which one has a number that is written with a zero before it. -/
def storedSession : SavedSession :=
  { terminals :=
      [{ id := "a", name := "Terminal 07", shell := "henu", cwd := "/" },
        { id := "b", name := "log", shell := "bash", cwd := "/home" }] }

/-- What is restored of them. -/
def storedStudio : Studio FileSystem :=
  ⟨homeWorld, none,
    ((Desk.restored {} homeWorld.space {} storedSession).toOption.bind Prod.fst).getD {}⟩

theorem start_storedSession :
    Desk.start {} homeWorld.space default {} (some storedSession.text) = .ok storedStudio.desk := by
  have hs : ∀ t ∈ storedSession.terminals, t.IsStorable :=
    List.forall_mem_cons.2
      ⟨fun _ he => (nomatch he), List.forall_mem_singleton.2 fun _ he => (nomatch he)⟩
  have hsome : ((Desk.restored {} homeWorld.space {} storedSession).toOption.bind
      Prod.fst).isSome = true := by decide +kernel
  unfold storedStudio
  generalize hr : Desk.restored {} homeWorld.space {} storedSession = x at hsome ⊢
  rcases x with e | ⟨_ | d, draws⟩
  · cases hsome
  · cases hsome
  · exact Desk.start_of_restored hs hr default

/-- The same after a terminal could not be opened because its shell is unknown, and after another
one was opened and closed. -/
def renumberedStudio : Studio FileSystem :=
  [DeskCall.openTerminal (some "fish") true, .openTerminal none true, .close "t2"].foldl
    (fun b call => call.after ⟨none, default⟩ {} b) storedStudio

theorem named_renumberedStudio :
    renumberedStudio.Named {} ["Terminal 07", "log", "Terminal 8"] := by
  have hnames : storedStudio.desk.table.values.map Terminal.name = ["Terminal 07", "log"] := by
    decide +kernel
  have hgiven : DeskCall.given ⟨none, default⟩ {} (DeskCall.after ⟨none, default⟩ {} storedStudio
      (.openTerminal (some "fish") true)) (.openTerminal none true) = some "Terminal 8" := by
    decide +kernel
  have hstart : storedStudio.Named {} (storedStudio.desk.table.values.map Terminal.name) :=
    .started start_storedSession
  have hnamed := (hstart.called ⟨none, default⟩ (.openTerminal (some "fish") true)).called
    ⟨none, default⟩ (.openTerminal none true)
  rw [hgiven, hnames] at hnamed
  exact hnamed.called ⟨none, default⟩ (.close "t2")

/-- The next terminal has the number after the one of the terminal that was closed. -/
theorem given_renumberedStudio :
    renumberedStudio.Named {} ["Terminal 07", "log", "Terminal 8"] ∧
      ∃ t, (DeskCall.after ⟨none, default⟩ {} renumberedStudio
          (.openTerminal none false)).desk.table.get? "t3" = some t ∧
        t.name = "Terminal 9" ∧ t.name ∉ ["Terminal 07", "log", "Terminal 8"] := by
  have hopens : DeskCall.opens {} renumberedStudio (.openTerminal none false) = some "t3" := by
    decide +kernel
  have hgiven : DeskCall.given ⟨none, default⟩ {} renumberedStudio (.openTerminal none false) =
      some "Terminal 9" := by decide +kernel
  obtain ⟨t, n, ht, -, hname, -, hnew⟩ :=
    (given_isNew named_renumberedStudio ⟨none, default⟩ (.openTerminal none false)).1 _ hopens
  rw [hgiven] at hname
  exact ⟨named_renumberedStudio, t, ht, (Option.some.inj hname).symm, hnew⟩

end Studio

end Workbench
