import Workbench.Proofs.Terminal.Desk
import Workbench.Proofs.Terminal.Saved
import Workbench.Seed

/-!
# Terminals that are restored

What is saved of the terminals of a desk and restored over the same workspace is the desk again, but
for outstanding jobs and for the cursors of the histories (`Desk.start_text`). A shared view is
restored if it has a partner. It is without one only when the number of a further terminal would
have been too long (`Studio.restores`).
-/

namespace Workbench

variable {σ : Type} {settings : Settings} {s : Workspace}

/-! ## One terminal -/

/-- A path that is that of the directory to which it leads. -/
def Workspace.IsPlace (s : Workspace) (cwd : String) : Prop :=
  ((s.resolve? cwd "/").filter Node.isDirectory).map (fun n => s.pathOf n.id) = some cwd

namespace Workspace.IsPlace

variable {cwd : String}

instance : Decidable (s.IsPlace cwd) := inferInstanceAs (Decidable (_ = _))

theorem settle (h : s.IsPlace cwd) : s.settle cwd = cwd := by
  obtain ⟨n, hn, hp⟩ := Option.map_eq_some_iff.1 h
  rw [Workspace.settle, hn]
  exact hp

theorem isEmpty (h : s.IsPlace cwd) : cwd.isEmpty = false := by
  obtain ⟨n, -, hp⟩ := Option.map_eq_some_iff.1 h
  rw [Bool.eq_false_iff, ne_eq, String.isEmpty_iff]
  rintro rfl
  have hlen := congrArg (fun x => x.toList.length) hp
  simp [Workspace.pathOf, Arena.pathOf, Path.ofNames] at hlen

end Workspace.IsPlace

namespace Terminal

variable {t : Terminal} {id : String}

/-- A terminal as it is restored: without outstanding jobs and with nothing that is pending. -/
def reopened (t : Terminal) : Terminal :=
  { id := t.id
    name := t.name
    shell := t.shell
    cwd := t.cwd
    history := { limit := t.history.limit, entries := t.history.entries }
    scrollback := t.scrollback.map fun e => { e with pending := false } }

/-- The points in time of a terminal can be stored. -/
def IsStorable (t : Terminal) : Prop := ∀ e ∈ t.scrollback, e.timestamp.IsStorable

/-- No line of a terminal waits for a job. -/
def IsSettled (t : Terminal) : Prop := ∀ e ∈ t.scrollback, e.pending = false

theorem IsStorable.reopened (h : t.IsStorable) : t.reopened.IsStorable := by
  intro e he
  obtain ⟨e', he', rfl⟩ := List.mem_map.1 he
  exact h e' he'

theorem ofTerminal_reopened (h : t.IsSettled) :
    SavedTerminal.ofTerminal t.reopened = SavedTerminal.ofTerminal t := by
  have hscrollback : t.scrollback.map (fun e => { e with pending := false }) = t.scrollback := by
    refine (List.map_congr_left fun e he => ?_).trans (List.map_id _)
    rw [← h e he]
    rfl
  rw [SavedTerminal.ofTerminal, SavedTerminal.ofTerminal, reopened, hscrollback]
  rfl

end Terminal

namespace Desk

variable {d : Desk}

theorem shellFor_text (settings : Settings) (shell : Shell) :
    shellFor settings (some shell.text) = .ok shell := by
  cases shell <;> rfl

/-- A terminal that was saved is opened as it was. -/
theorem reopen_ofTerminal (hl : settings.historyLimit ≤ savedHistory) {id : String} {t : Terminal}
    (ht : t.Fits settings id) (hp : s.IsPlace t.cwd) (d : Desk) :
    reopen settings s d (.ofTerminal t) = { d with table := d.table.insert id t.reopened } := by
  have hid : (SavedTerminal.ofTerminal t).id.isEmpty = false := by
    rw [Bool.eq_false_iff, ne_eq, String.isEmpty_iff]
    exact fun he => ht.ne_empty (ht.held ▸ he)
  have hsaved : (SavedTerminal.ofTerminal t).history = t.history.entries :=
    History.lastOf_eq (ht.history.trans hl)
  have hcwd : s.settle (if t.cwd.isEmpty then settings.home else t.cwd) = t.cwd := by
    rw [hp.isEmpty, if_neg Bool.false_ne_true, hp.settle]
  unfold reopen
  dsimp only
  rw [hid, hsaved, History.lastOf_eq ht.history]
  simp only [SavedTerminal.ofTerminal, shellFor_text, Terminal.new, hcwd, Desk.put,
    Terminal.reopened, ht.limit, ht.held]
  rfl

theorem foldl_reopen (hl : settings.historyLimit ≤ savedHistory) {l : List (String × Terminal)}
    (ht : ∀ e ∈ l, e.2.Fits settings e.1) (hp : ∀ e ∈ l, s.IsPlace e.2.cwd) (d : Desk) :
    (l.map fun e => SavedTerminal.ofTerminal e.2).foldl (reopen settings s) d =
      { d with table := d.table.insertMany (l.map fun e => (e.1, e.2.reopened)) } := by
  induction l generalizing d with
  | nil => rfl
  | cons e rest ih =>
    obtain ⟨hte, htrest⟩ := List.forall_mem_cons.1 ht
    obtain ⟨hpe, hprest⟩ := List.forall_mem_cons.1 hp
    rw [List.map_cons, List.foldl_cons, reopen_ofTerminal hl hte hpe, ih htrest hprest]
    rfl

/-- The terminals of a desk as they are restored, numbered on from a number. -/
def reopened (d : Desk) (counter : Nat) (draws : Draws) : Desk :=
  { table := d.table.mapValues .reopened
    counter := counter
    activeId := d.activeId
    split := d.split.filter fun x => x.partner.isSome
    draws := draws }

/-- What is saved of a desk is restored, if the directories of its terminals are still there. -/
theorem restored_ofDesk (h : d.Sound settings) (hl : settings.historyLimit ≤ savedHistory)
    (hp : ∀ t ∈ d.table.values, s.IsPlace t.cwd) {numbers : List Nat}
    (hn : terminalNumbers (d.table.values.map Terminal.name) = .ok numbers) (draws : Draws) :
    restored settings s draws (.ofDesk d) =
      .ok (some (d.reopened (numbers.max?.getD d.table.size) draws), draws) := by
  have hfold : (SavedSession.ofDesk d).terminals.foldl (reopen settings s) { draws := draws } =
      { draws := draws, table := d.table.mapValues .reopened } := by
    have hmap : (SavedSession.ofDesk d).terminals =
        d.table.entries.map fun e => SavedTerminal.ofTerminal e.2 :=
      List.map_map
    rw [hmap, foldl_reopen hl]
    · exact congrArg (Desk.mk · 0 "" none draws)
        (Table.ofList_entries (d.table.mapValues Terminal.reopened))
    · exact fun e he => h.fits (Table.mem_entries_iff.1 he)
    · exact fun e he => hp e.2 (List.mem_map.2 ⟨e, he, rfl⟩)
  have hnames : (d.table.mapValues Terminal.reopened).values.map Terminal.name =
      d.table.values.map Terminal.name := by
    rw [Table.values_mapValues, List.map_map]
    rfl
  have hsize : (d.table.mapValues Terminal.reopened).size = d.table.size := by
    rw [← Table.length_keys, Table.keys_mapValues, Table.length_keys]
  have hactive : (SavedSession.ofDesk d).activeId.filter d.table.contains = some d.activeId := by
    rw [SavedSession.ofDesk, Option.filter_some, if_pos h.active]
  unfold restored
  dsimp only
  rw [hfold]
  dsimp only
  rw [Table.keys_mapValues, hnames, hn]
  split
  · next hnone =>
    have hmem := Table.mem_keys_iff.2 (Table.contains_iff.1 h.active)
    rw [hnone] at hmem
    cases hmem
  dsimp only
  rw [Table.contains_mapValues, hactive, Option.getD_some, hsize]
  refine congrArg (fun x => Except.ok (some (Desk.mk _ _ _ x draws), draws)) ?_
  rw [SavedSession.ofDesk]
  cases hsplit : d.split with
  | none => rfl
  | some x =>
    obtain ⟨mode, _ | p⟩ := x
    · rfl
    · obtain ⟨hpartner, hne⟩ := h.partner hsplit
      simp [Option.filter_some, hpartner, hne]

/-- What is restored of a session is what its text starts. -/
theorem start_of_restored {saved : SavedSession} (hs : ∀ t ∈ saved.terminals, t.IsStorable)
    {draws draws' : Draws} (hr : restored settings s draws saved = .ok (some d, draws'))
    (now : Timestamp) : start settings s now draws (some saved.text) = .ok d := by
  have hread : SavedSession.ofText? now draws.entries saved.text = (some saved, draws.entries) :=
    SavedSession.ofText?_text hs
  simp only [start, hread, hr]

/-- The text that is saved of a desk starts the desk again. -/
theorem start_text (h : d.Sound settings) (hl : settings.historyLimit ≤ savedHistory)
    (hp : ∀ t ∈ d.table.values, s.IsPlace t.cwd) (ht : ∀ t ∈ d.table.values, t.IsStorable)
    {numbers : List Nat} (hn : terminalNumbers (d.table.values.map Terminal.name) = .ok numbers)
    (now : Timestamp) (draws : Draws) :
    start settings s now draws (some (SavedSession.ofDesk d).text) =
      .ok (d.reopened (numbers.max?.getD d.table.size) draws) := by
  have hs : ∀ t ∈ (SavedSession.ofDesk d).terminals, t.IsStorable := List.forall_mem_map.2 ht
  exact start_of_restored hs (restored_ofDesk h hl hp hn draws) now

/-- The view is to be shared, but there is no partner. -/
def IsHalfSplit (d : Desk) : Prop := ∃ mode, d.split = some ⟨mode, none⟩

theorem split_reopened_iff (d : Desk) (counter : Nat) (draws : Draws) :
    (d.reopened counter draws).split = d.split ↔ ¬ d.IsHalfSplit := by
  unfold reopened IsHalfSplit
  dsimp only
  cases d.split with
  | none => simp
  | some x =>
    obtain ⟨mode, _ | p⟩ := x
    · simp [Option.filter_some]
    · simp [Option.filter_some]

theorem split_eq_of_ofDesk {d' : Desk} (h : SavedSession.ofDesk d' = .ofDesk d) :
    d'.split = d.split := by
  have hmode : d'.split.map Split.mode = d.split.map Split.mode :=
    congrArg SavedSession.splitMode h
  have hpartner : d'.split.bind Split.partner = d.split.bind Split.partner :=
    congrArg SavedSession.splitId h
  cases hd : d.split with
  | none =>
    rw [hd] at hmode
    exact Option.map_eq_none_iff.1 hmode
  | some x =>
    rw [hd] at hmode hpartner
    obtain ⟨⟨mode, partner⟩, hd', hm⟩ := Option.map_eq_some_iff.1 hmode
    rw [hd'] at hpartner ⊢
    obtain rfl : mode = x.mode := hm
    obtain rfl : partner = x.partner := hpartner
    rfl

theorem ofDesk_reopened_iff (hs : ∀ t ∈ d.table.values, t.IsSettled) (counter : Nat)
    (draws : Draws) :
    SavedSession.ofDesk (d.reopened counter draws) = .ofDesk d ↔ ¬ d.IsHalfSplit := by
  rw [← d.split_reopened_iff counter draws]
  have hterminals : (d.reopened counter draws).table.values.map SavedTerminal.ofTerminal =
      d.table.values.map SavedTerminal.ofTerminal := by
    rw [reopened, Table.values_mapValues, List.map_map]
    exact List.map_congr_left fun t ht => Terminal.ofTerminal_reopened (hs t ht)
  constructor
  · exact split_eq_of_ofDesk
  · intro he
    rw [SavedSession.ofDesk, SavedSession.ofDesk, hterminals, he]
    rfl

/-- The same text is saved again unless a shared view is without a partner. -/
theorem text_reopened_iff (ht : ∀ t ∈ d.table.values, t.IsStorable)
    (hs : ∀ t ∈ d.table.values, t.IsSettled) (counter : Nat) (draws : Draws) :
    (SavedSession.ofDesk (d.reopened counter draws)).text = (SavedSession.ofDesk d).text ↔
      ¬ d.IsHalfSplit := by
  rw [← ofDesk_reopened_iff hs counter draws]
  refine ⟨SavedSession.text_inj ?_ (List.forall_mem_map.2 ht), congrArg SavedSession.text⟩
  refine List.forall_mem_map.2 fun t' ht' => ?_
  rw [reopened, Table.values_mapValues] at ht'
  obtain ⟨t, hmem, rfl⟩ := List.mem_map.1 ht'
  exact (ht t hmem).reopened

theorem Sound.exists_numbers (h : d.Sound settings) :
    ∃ numbers, terminalNumbers (d.table.values.map Terminal.name) = .ok numbers := by
  refine exists_terminalNumbers (List.forall_mem_map.2 fun t hmem => ?_)
  obtain ⟨⟨id, t'⟩, he, rfl⟩ := List.mem_map.1 hmem
  exact h.named (Table.mem_entries_iff.1 he)

theorem Sound.counter_of_isHalfSplit (h : d.Sound settings) (hd : d.IsHalfSplit) :
    10 ^ Text.digitLimit ≤ d.counter + 1 := by
  obtain ⟨mode, hsplit⟩ := hd
  exact (nextName_eq_error_iff.1 (h.alone hsplit)).2

end Desk

/-! ## Whatever is reached -/

namespace Studio

variable {b : Studio σ} {fs fs' : FileSystem} {path : String}

/-- Whatever is reached is restored from the file to which it was saved: the same terminals with
their histories and what is on their screens, and the same active one. The shared view is restored
too, and the same text is saved again, exactly if the view is not shared without a partner, which
happens only when the number of the next terminal is too long. -/
theorem restores (hb : b.Reachable settings) (hl : settings.historyLimit ≤ savedHistory)
    (hp : ∀ t ∈ b.desk.table.values, b.world.space.IsPlace t.cwd)
    (ht : ∀ t ∈ b.desk.table.values, t.IsStorable) (hfs : fs.Rooted)
    (hs : Store.save fs (some path) b.desk = (.ok (), fs')) (now : Timestamp) (draws : Draws) :
    ∃ stored d, Store.loadFrom fs' (some path) = .ok stored ∧
      Desk.start settings b.world.space now draws stored = .ok d ∧
      d.table = b.desk.table.mapValues .reopened ∧ d.activeId = b.desk.activeId ∧
      (d.split = b.desk.split ↔ ¬ b.desk.IsHalfSplit) ∧
      ((∀ t ∈ b.desk.table.values, t.IsSettled) →
        ((SavedSession.ofDesk d).text = (SavedSession.ofDesk b.desk).text ↔
          ¬ b.desk.IsHalfSplit)) ∧
      (b.desk.IsHalfSplit → d.split = none ∧ 10 ^ Text.digitLimit ≤ b.desk.counter + 1) := by
  have hsound := hb.sound
  obtain ⟨numbers, hn⟩ := hsound.exists_numbers
  refine ⟨_, _, Store.loadFrom_save hfs hs, Desk.start_text hsound hl hp ht hn now draws, rfl, rfl,
    b.desk.split_reopened_iff _ _, fun hsettled => Desk.text_reopened_iff ht hsettled _ _,
    fun hhalf => ⟨?_, hsound.counter_of_isHalfSplit hhalf⟩⟩
  obtain ⟨mode, hsplit⟩ := hhalf
  rw [Desk.reopened, hsplit]
  rfl

/-- The files after terminals were saved at the top of files that held nothing. -/
def savedFiles (d : Desk) : FileSystem := (Store.save {} (some "/terminals") d).2

theorem save_top (d : Desk) :
    Store.save {} (some "/terminals") d = (.ok (), savedFiles d) :=
  Prod.ext rfl rfl

theorem rooted_empty : ({} : FileSystem).Rooted :=
  ⟨fun _ _ _ h => (nomatch h), rfl⟩

theorem isStorable_default : (default : Timestamp).IsStorable :=
  ⟨by decide, fun _ hz => (nomatch hz)⟩

def homeWorld : World FileSystem := ⟨Seed.planted "/home/user" default, {}⟩

/-- A desk with one terminal in which one line was executed. -/
def usedStudio : Studio FileSystem :=
  (Studio.execute ⟨homeWorld, none, .new {} homeWorld.space {}⟩ ⟨none, default⟩ {} none "pwd").2

/-- The same with a second terminal beside it. -/
def sharedStudio : Studio FileSystem :=
  { usedStudio with
    desk := (usedStudio.desk.toggleSplit {} usedStudio.world.space .horizontal).2 }

theorem reachable_new (w : World FileSystem) :
    Reachable {} (⟨w, none, .new {} w.space {}⟩ : Studio FileSystem) := by
  have hstart : Desk.start {} w.space default {} none = .ok (.new {} w.space {}) := rfl
  exact .started hstart

theorem reachable_sharedStudio : sharedStudio.Reachable {} := by
  have hused : usedStudio.Reachable {} := .executed (reachable_new homeWorld) _ none "pwd"
  exact .shared hused rfl .horizontal

/-- Two terminals with what is on their screens are restored as they were. -/
theorem sharedStudio_restored : ∃ stored d,
    Store.loadFrom (savedFiles sharedStudio.desk) (some "/terminals") = .ok stored ∧
      Desk.start {} sharedStudio.world.space default {} stored = .ok d ∧
      d.table = sharedStudio.desk.table.mapValues .reopened ∧ d.activeId = "t1" ∧
      d.split = some ⟨.horizontal, some "t2"⟩ ∧
      (SavedSession.ofDesk d).text = (SavedSession.ofDesk sharedStudio.desk).text := by
  have htimes : ∀ t ∈ sharedStudio.desk.table.values, ∀ e ∈ t.scrollback,
      e.timestamp = default ∧ e.pending = false := by decide +kernel
  have hsplit : sharedStudio.desk.split = some ⟨.horizontal, some "t2"⟩ := by decide +kernel
  have hwhole : ¬ sharedStudio.desk.IsHalfSplit := by
    rintro ⟨mode, hhalf⟩
    rw [hsplit] at hhalf
    cases hhalf
  obtain ⟨stored, d, hload, hstart, htable, hactive, hsame, htext, -⟩ :=
    restores reachable_sharedStudio (by decide) (by decide +kernel)
      (fun t ht e he => (htimes t ht e he).1 ▸ isStorable_default) rooted_empty (save_top _)
      default {}
  exact ⟨stored, d, hload, hstart, htable, hactive.trans (by decide +kernel),
    (hsame.2 hwhole).trans hsplit,
    (htext fun t ht e he => (htimes t ht e he).2).2 hwhole⟩

end Studio

/-! ## A view that is shared without a partner -/

namespace Text

theorem digitRun?_nines (n : Nat) :
    digitRun? true (List.replicate n '9') = some (List.replicate n 9) := by
  induction n with
  | zero => rfl
  | succ n ih =>
    have hnine : digitValue? '9' = some 9 := by decide
    rw [List.replicate_succ, digitRun?, if_neg (by decide), hnine, ih]
    rfl

theorem readNat_nines {n : Nat} (hpos : 0 < n) (hn : n ≤ digitLimit) :
    readNat (List.replicate n '9') = .ok (ofDigits (List.replicate n 9)) := by
  have hrun : digitRun? false (List.replicate n '9') = some (List.replicate n 9) := by
    obtain ⟨k, rfl⟩ := Nat.exists_eq_add_one.2 hpos
    have hnine : digitValue? '9' = some 9 := by decide
    rw [List.replicate_succ, digitRun?, if_neg (by decide), hnine, digitRun?_nines]
    rfl
  rw [readNat, hrun]
  exact if_neg (by rw [List.length_replicate]; exact Nat.not_lt.2 hn)

theorem ofDigits_nines (n : Nat) : ofDigits (List.replicate n 9) + 1 = 10 ^ n := by
  induction n with
  | zero => rfl
  | succ n ih =>
    have hlast : ofDigits (List.replicate (n + 1) 9) = 10 * ofDigits (List.replicate n 9) + 9 := by
      rw [List.replicate_succ', ofDigits, List.foldl_append]
      rfl
    rw [hlast, Nat.pow_succ, ← ih]
    omega

end Text

/-- The name of a terminal whose number has only nines. -/
def ninesName (n : Nat) : String := "Terminal " ++ .ofList (List.replicate n '9')

theorem toList_ninesName (n : Nat) :
    (ninesName n).toList = "Terminal ".toList ++ List.replicate n '9' :=
  String.toList_append.trans (congrArg ("Terminal ".toList ++ ·) String.toList_ofList)

theorem terminalNumber?_ninesName {n : Nat} (hpos : 0 < n) (hn : n ≤ Text.digitLimit) :
    terminalNumber? (ninesName n) = some (.ok (Text.ofDigits (List.replicate n 9))) := by
  have hstart : Text.startsWith (ninesName n) "Terminal " = true := by
    rw [Text.startsWith, toList_ninesName]
    exact List.isPrefixOf_iff_prefix.2 (List.prefix_append _ _)
  have hdigits : (Text.dropChars (ninesName n) 9).toList = List.replicate n '9' := by
    rw [Text.dropChars, String.toList_ofList, toList_ninesName]
    exact List.drop_left' rfl
  have hall : (List.replicate n '9').all Text.isDecimalDigit = true := by
    rw [List.all_replicate, if_neg (Nat.pos_iff_ne_zero.1 hpos)]
    decide
  have hsome : (List.replicate n '9').isEmpty = false := by
    rw [List.isEmpty_replicate]
    exact decide_eq_false (Nat.pos_iff_ne_zero.1 hpos)
  simp only [terminalNumber?, hstart, hdigits, hall, hsome, Text.readNat_nines hpos hn]
  rfl

namespace Studio

/-- The last number that can be read. -/
@[irreducible]
def lastNumber : Nat := Text.ofDigits (List.replicate Text.digitLimit 9)

theorem le_lastNumber : 10 ^ Text.digitLimit ≤ lastNumber + 1 := by
  unfold lastNumber
  exact Nat.le_of_eq (Text.ofDigits_nines Text.digitLimit).symm

/-- The terminal with the last number. -/
def lastTerminal : Terminal :=
  { id := "a"
    name := ninesName Text.digitLimit
    shell := .henu
    cwd := "/home/user"
    history := {} }

def lastDesk : Desk := { table := .ofList [("a", lastTerminal)], activeId := "a" }

theorem values_lastDesk : lastDesk.table.values = [lastTerminal] := rfl

theorem sound_lastDesk (hl : settings.historyLimit = savedHistory) :
    lastDesk.Sound settings := by
  have hget : ∀ {id t}, lastDesk.table.get? id = some t → id = "a" ∧ t = lastTerminal := by
    intro id t ht
    have hmem : (id, t) ∈ [("a", lastTerminal)] :=
      (Table.get?_ofList_iff (l := [("a", lastTerminal)]) (List.nodup_singleton "a")).1 ht
    simpa using hmem
  refine ⟨fun ht => ?_, fun ht => ?_, rfl, fun hs => (nomatch hs), fun hs => (nomatch hs)⟩
  · obtain ⟨rfl, rfl⟩ := hget ht
    exact ⟨by decide, rfl, hl.symm, Nat.zero_le _⟩
  · obtain ⟨rfl, rfl⟩ := hget ht
    refine isReadableName_of_length (Nat.le_of_eq ?_)
    rw [lastTerminal, toList_ninesName, List.length_append, List.length_replicate]
    exact congrArg (· + Text.digitLimit) rfl

/-- What the terminal with the last number is when it has been restored. -/
def lastStudio : Studio FileSystem :=
  ⟨homeWorld, none, lastDesk.reopened lastNumber {}⟩

/-- It is restored from what is saved of it. -/
theorem start_saved_lastDesk (hl : settings.historyLimit = savedHistory) :
    Desk.start settings homeWorld.space default {} (some (SavedSession.ofDesk lastDesk).text) =
      .ok lastStudio.desk := by
  have hplace : ∀ t ∈ lastDesk.table.values, homeWorld.space.IsPlace t.cwd := by
    rw [values_lastDesk]
    exact List.forall_mem_singleton.2 (by decide +kernel)
  have htimes : ∀ t ∈ lastDesk.table.values, t.IsStorable := by
    rw [values_lastDesk]
    exact List.forall_mem_singleton.2 fun _ he => (nomatch he)
  have hnumber : terminalNumber? lastTerminal.name = some (.ok lastNumber) := by
    unfold lastNumber
    exact terminalNumber?_ninesName (by decide) (Nat.le_refl _)
  have hnumbers : terminalNumbers (lastDesk.table.values.map Terminal.name) = .ok [lastNumber] := by
    rw [values_lastDesk, List.map_singleton, terminalNumbers, hnumber]
    rfl
  exact Desk.start_text (sound_lastDesk hl) (Nat.le_of_eq hl) hplace htimes hnumbers default {}

theorem start_lastDesk :
    Desk.start {} homeWorld.space default {} (some (SavedSession.ofDesk lastDesk).text) =
      .ok lastStudio.desk :=
  start_saved_lastDesk rfl

theorem reachable_lastStudio : lastStudio.Reachable {} := .started start_lastDesk

/-- Its view is to be shared, but no other terminal can be opened. -/
def halfStudio : Studio FileSystem :=
  { lastStudio with
    desk := (lastStudio.desk.toggleSplit {} lastStudio.world.space .horizontal).2 }

theorem desk_halfStudio :
    halfStudio.desk = { lastStudio.desk with split := some ⟨.horizontal, none⟩ } := by
  have hmode : lastStudio.desk.split.map Split.mode ≠ some .horizontal := nofun
  rw [halfStudio, Desk.toggleSplit_alone hmode rfl le_lastNumber]

theorem values_halfStudio : halfStudio.desk.table.values = [lastTerminal.reopened] := by
  rw [desk_halfStudio]
  exact (Table.values_mapValues _ _).trans (congrArg (List.map _) values_lastDesk)

/-- The mode of the shared view is lost. -/
theorem halfStudio_restored : halfStudio.Reachable {} ∧
    (∀ t ∈ halfStudio.desk.table.values, halfStudio.world.space.IsPlace t.cwd ∧ t.IsStorable) ∧
    Store.save {} (some "/terminals") halfStudio.desk = (.ok (), savedFiles halfStudio.desk) ∧
    halfStudio.desk.split = some ⟨.horizontal, none⟩ ∧
    ∃ stored d,
      Store.loadFrom (savedFiles halfStudio.desk) (some "/terminals") = .ok stored ∧
      Desk.start {} halfStudio.world.space default {} stored = .ok d ∧ d.split = none := by
  have hreachable : halfStudio.Reachable {} := .shared reachable_lastStudio rfl .horizontal
  have hplace : ∀ t ∈ halfStudio.desk.table.values, halfStudio.world.space.IsPlace t.cwd := by
    rw [values_halfStudio]
    exact List.forall_mem_singleton.2 (by decide +kernel)
  have htimes : ∀ t ∈ halfStudio.desk.table.values, t.IsStorable := by
    rw [values_halfStudio]
    exact List.forall_mem_singleton.2 fun _ he => (nomatch he)
  have hsplit : halfStudio.desk.split = some ⟨.horizontal, none⟩ := by rw [desk_halfStudio]
  obtain ⟨numbers, hnumbers⟩ := hreachable.sound.exists_numbers
  refine ⟨hreachable, fun t ht => ⟨hplace t ht, htimes t ht⟩, save_top _, hsplit, _, _,
    Store.loadFrom_save rooted_empty (save_top _),
    Desk.start_text hreachable.sound (by decide) hplace htimes hnumbers default {}, ?_⟩
  rw [Desk.reopened, hsplit]
  rfl

end Studio

end Workbench
