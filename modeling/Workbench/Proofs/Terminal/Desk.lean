import Mathlib.Algebra.Group.Nat.Defs
import Workbench.Proofs.Except
import Workbench.Proofs.Table
import Workbench.Proofs.Terminal.Basic
import Workbench.Terminal.Session

/-!
# Terminals of a workspace

Every terminal is held under its id, and the active one and its partner are among them
(`Desk.Sound`). This is so whatever is done to the terminals, whatever the workspace is and whatever
is stored when they are opened (`Studio.Reachable.sound`). A shared view without a partner is the
trace of a terminal that could not be opened because its number would have been too long.
-/

namespace Workbench

variable {σ : Type} {settings : Settings}

/-! ## Names -/

/-- A name that does not end with a number that is too long to be read. -/
def IsReadableName (name : String) : Prop :=
  ∀ n, terminalNumber? name ≠ some (.error (.tooLong n))

theorem Text.length_digitRun? {after : Bool} {cs : List Char} {ds : List Nat}
    (h : digitRun? after cs = some ds) : ds.length ≤ cs.length := by
  induction cs generalizing after ds with
  | nil =>
    rw [digitRun?] at h
    split at h
    · obtain rfl := Option.some.inj h
      exact Nat.le_refl 0
    · cases h
  | cons c rest ih =>
    rw [digitRun?] at h
    split at h
    · split at h
      · exact Nat.le_succ_of_le (ih h)
      · cases h
    · split at h
      · obtain ⟨ds', hds, rfl⟩ := Option.map_eq_some_iff.1 h
        exact Nat.succ_le_succ (ih hds)
      · cases h

theorem isReadableName_of_length {name : String}
    (h : name.toList.length ≤ 9 + Text.digitLimit) : IsReadableName name := by
  intro n hn
  unfold terminalNumber? at hn
  dsimp only at hn
  split at hn
  · split at hn
    · have hread := Option.some.inj hn
      unfold Text.readNat at hread
      split at hread
      · cases hread
      · next ds hds =>
        split at hread
        · next hlong =>
          have hlen := Text.length_digitRun? hds
          rw [Text.dropChars, String.toList_ofList, List.length_drop] at hlen
          omega
        · cases hread
    · cases hn
  · cases hn

theorem isReadableName_of_numbers {names : List String} {numbers : List Nat}
    (h : terminalNumbers names = .ok numbers) : ∀ name ∈ names, IsReadableName name := by
  induction names generalizing numbers with
  | nil => exact fun _ hn => nomatch hn
  | cons name rest ih =>
    rw [terminalNumbers] at h
    split at h
    · next hnone =>
      refine List.forall_mem_cons.2 ⟨fun n hn => ?_, ih h⟩
      rw [hnone] at hn
      cases hn
    · next m hsome =>
      obtain ⟨numbers', hrest, -⟩ := map_eq_ok.1 h
      refine List.forall_mem_cons.2 ⟨fun n hn => ?_, ih hrest⟩
      rw [hsome] at hn
      cases hn
    · cases h
    · next hbad =>
      refine List.forall_mem_cons.2 ⟨fun n hn => ?_, ih h⟩
      rw [hbad] at hn
      cases hn

theorem exists_terminalNumbers {names : List String} (h : ∀ name ∈ names, IsReadableName name) :
    ∃ numbers, terminalNumbers names = .ok numbers := by
  induction names with
  | nil => exact ⟨[], rfl⟩
  | cons name rest ih =>
    obtain ⟨hname, hrest⟩ := List.forall_mem_cons.1 h
    obtain ⟨numbers, hnumbers⟩ := ih hrest
    rw [terminalNumbers]
    split
    · exact ⟨numbers, hnumbers⟩
    · next m _ => exact ⟨m :: numbers, by rw [hnumbers]; rfl⟩
    · next n hlong => exact absurd hlong (hname n)
    · exact ⟨numbers, hnumbers⟩

namespace Desk

variable {d d' : Desk} {s : Workspace} {draws : Draws} {id name : String} {t t' : Terminal}

theorem nextName_eq_ok (h : d.nextName = .ok name) : IsReadableName name := by
  unfold nextName at h
  dsimp only at h
  split at h
  · cases h
  · next hlen =>
    obtain rfl := Except.ok.inj h
    refine isReadableName_of_length ?_
    rw [String.toList_append, List.length_append, String.length_toList, String.length_toList]
    exact Nat.add_le_add (by decide) (Nat.le_of_not_lt hlen)

theorem nextName_eq_error_iff {e : DeskFault} :
    d.nextName = .error e ↔ e = .numberTooLong ∧ 10 ^ Text.digitLimit ≤ d.counter + 1 := by
  have hlen : Text.digitLimit < (toString (d.counter + 1)).length ↔
      10 ^ Text.digitLimit ≤ d.counter + 1 := by
    have hle := Nat.length_toDigits_le_iff (b := 10) (n := d.counter + 1) (k := Text.digitLimit)
      (by decide) (by decide)
    rw [← String.length_toList, Nat.toString_eq_repr, Nat.repr_eq_ofList_toDigits,
      String.toList_ofList]
    rw [← Nat.not_le, hle, Nat.not_lt]
  unfold nextName
  dsimp only
  split
  · next hlong => simp [hlen.1 hlong, eq_comm]
  · next hshort => simp [mt hlen.2 hshort]

theorem nextName_of_counter (h : d.counter = 0) : d.nextName = .ok "Terminal 1" := by
  rw [nextName, h]
  exact if_neg (by decide)

theorem nextName_congr (h : d'.counter = d.counter) : d'.nextName = d.nextName := by
  rw [nextName, nextName, h]

theorem get_eq_ok_iff : d.get id = .ok t ↔ d.table.get? id = some t := by
  unfold Desk.get
  split
  · next he => rw [he, Except.ok.injEq, Option.some.injEq]
  · next he => simp [he]

theorem contains_of_get (h : d.get id = .ok t) : d.table.contains id = true :=
  Table.contains_iff.2 ⟨t, get_eq_ok_iff.1 h⟩

theorem partner?_eq_some (h : d.partner? = some id) :
    d.table.contains id = true ∧ id ≠ d.activeId := by
  unfold partner? at h
  split at h
  · next p hp =>
    obtain rfl := Option.some.inj h
    simpa using (Option.filter_eq_some_iff.1 hp).2
  · exact ⟨Table.contains_iff.2 (Table.mem_keys_iff.1 (List.mem_of_find?_eq_some h)),
      by simpa using List.find?_some h⟩

theorem contains_erase {id' : String} : (d.table.erase id).contains id' = true ↔
    id' ≠ id ∧ d.table.contains id' = true := by
  rw [Table.contains, Table.get?_erase, Table.contains]
  by_cases he : id' = id <;> simp [he]

theorem size_pos (h : d.table.contains id = true) : 0 < d.table.size := by
  rw [← Table.length_keys]
  exact List.length_pos_of_mem (Table.mem_keys_iff.2 (Table.contains_iff.1 h))

/-- If there are two terminals, one is left when another is closed. -/
theorem contains_headD_erase (hid : d.table.contains id = true) (hsize : d.table.size ≠ 1) :
    (d.table.erase id).contains ((d.table.erase id).keys.headD "") = true := by
  cases hkeys : (d.table.erase id).keys with
  | cons first rest =>
    rw [List.headD_cons]
    exact Table.contains_iff.2 (Table.mem_keys_iff.1 (hkeys ▸ List.mem_cons_self))
  | nil =>
    have hall : ∀ id' ∈ d.table.keys, id' = id := by
      intro id' hmem
      by_contra hne
      have hleft := contains_erase.2 ⟨hne, Table.contains_iff.2 (Table.mem_keys_iff.1 hmem)⟩
      have hmem' := Table.mem_keys_iff.2 (Table.contains_iff.1 hleft)
      rw [hkeys] at hmem'
      cases hmem'
    have hle : d.table.keys.length ≤ 1 := by
      have hnodup : d.table.keys.Nodup := d.table.nodup
      rw [List.eq_replicate_of_mem hall] at hnodup
      exact List.nodup_replicate.1 hnodup
    have hpos := size_pos hid
    rw [Table.length_keys] at hle
    omega

/-- The mode of a shared view is set even if its only terminal stays alone. -/
theorem toggleSplit_alone {mode : SplitMode} (hm : d.split.map Split.mode ≠ some mode)
    (hp : d.partner? = none) (hn : 10 ^ Text.digitLimit ≤ d.counter + 1) (settings : Settings)
    (s : Workspace) : d.toggleSplit settings s mode =
      (.error .numberTooLong, { d with split := some ⟨mode, none⟩ }) := by
  have hother : ¬ (d.split.any fun x => x.mode == mode) = true := by
    intro hsame
    cases hsplit : d.split with
    | none => simp [hsplit] at hsame
    | some x => simp [hsplit] at hm hsame; exact hm hsame
  have hname : d.nextName = .error .numberTooLong := nextName_eq_error_iff.2 ⟨rfl, hn⟩
  unfold toggleSplit openTerminal
  rw [if_neg hother]
  simp only [hp, hname]

/-! ## Sound desks -/

/-- Terminals are held under their ids, the active one and its partner among them. A shared view
is without a partner only if no terminal could be opened for it. -/
structure Sound (settings : Settings) (d : Desk) : Prop where
  fits : ∀ {id t}, d.table.get? id = some t → t.Fits settings id
  named : ∀ {id t}, d.table.get? id = some t → IsReadableName t.name
  active : d.table.contains d.activeId = true
  partner : ∀ {mode p}, d.split = some ⟨mode, some p⟩ → d.table.contains p = true ∧ p ≠ d.activeId
  alone : ∀ {mode}, d.split = some ⟨mode, none⟩ → d.nextName = .error .numberTooLong

/-- The id that is drawn next is not in use. -/
def HasFreshId (d : Desk) : Prop :=
  d.table.contains (drawnTerminalId (d.draws.terminals + 1)) = false

instance : Decidable d.HasFreshId := inferInstanceAs (Decidable (_ = false))

theorem drawnTerminalId_ne_empty (k : Nat) : drawnTerminalId k ≠ "" := by
  intro h
  have hlen := congrArg (fun s => s.toList.length) h
  simp [drawnTerminalId] at hlen

/-- All that opening a terminal can do. -/
theorem openTerminal_cases (d : Desk) (settings : Settings) (s : Workspace) (word : Option String)
    (activate : Bool) :
    (∃ e, d.openTerminal settings s word activate = (.error e, d) ∧ d.nextName = .error e) ∨
    (∃ e name, d.nextName = .ok name ∧ shellFor settings word = .error e ∧
      d.openTerminal settings s word activate =
        (.error e, { d with draws := { d.draws with terminals := d.draws.terminals + 1 } })) ∨
    ∃ id name shell, id = drawnTerminalId (d.draws.terminals + 1) ∧ d.nextName = .ok name ∧
      shellFor settings word = .ok shell ∧
      d.openTerminal settings s word activate = (.ok id,
        { d with
          table := d.table.insert id (.new settings s id name shell "")
          counter := d.counter + 1
          activeId := if activate || d.table.size == 0 then id else d.activeId
          draws := { d.draws with terminals := d.draws.terminals + 1 } }) := by
  unfold openTerminal
  split
  · next e he => exact .inl ⟨e, rfl, he⟩
  next name hname =>
  dsimp only
  split
  · next e he => exact .inr (.inl ⟨e, name, hname, he, rfl⟩)
  · next shell hshell => exact .inr (.inr ⟨_, name, shell, rfl, hname, hshell, rfl⟩)

/-- The terminals at the start are those of a saved session, or there is a new one. -/
theorem start_cases {now : Timestamp} {stored : Option String}
    (hd : Desk.start settings s now draws stored = .ok d) :
    (∃ draws, d = Desk.new settings s draws) ∨
      ∃ saved draws draws', Desk.restored settings s draws saved = .ok (some d, draws') := by
  unfold Desk.start at hd
  dsimp only at hd
  split at hd
  · exact .inl ⟨draws, (Except.ok.inj hd).symm⟩
  split at hd
  · exact .inl ⟨_, (Except.ok.inj hd).symm⟩
  split at hd
  · cases hd
  · next hrestored =>
    obtain rfl := Except.ok.inj hd
    exact .inr ⟨_, _, _, hrestored⟩
  · exact .inl ⟨_, (Except.ok.inj hd).symm⟩

/-- Each terminal that is left goes on. -/
def GoesOn (d d' : Desk) : Prop :=
  ∀ id t', d'.table.get? id = some t' → ∃ t, d.table.get? id = some t ∧ t.GoesOn t'

namespace GoesOn

theorem refl (d : Desk) : d.GoesOn d := fun _ t ht => ⟨t, ht, .refl t⟩

theorem put (ht : d.table.get? id = some t) (hid : t.id = id) (hg : t.GoesOn t') :
    d.GoesOn (d.put t') := by
  intro id' t'' hget
  rw [Desk.put, Table.get?_insert, hg.id, hid] at hget
  split at hget
  · next he =>
    obtain rfl := Option.some.inj hget
    exact ⟨t, he ▸ ht, hg⟩
  · exact ⟨t'', hget, .refl t''⟩

theorem modify (d : Desk) (id : String) {f : Terminal → Terminal}
    (hf : ∀ t : Terminal, t.GoesOn (f t)) :
    d.GoesOn { d with table := d.table.modify id f } := by
  intro id' t' hget
  rw [Table.get?_modify] at hget
  split at hget
  · next he =>
    obtain ⟨t, ht, rfl⟩ := Option.map_eq_some_iff.1 hget
    exact ⟨t, he ▸ ht, hf t⟩
  · exact ⟨t', hget, .refl t'⟩

end GoesOn

namespace Sound

/-- A change of terminals, one by one, that leaves all else alone. -/
theorem each (h : d.Sound settings)
    (ht : ∀ {id t'}, d'.table.get? id = some t' → ∃ t, d.table.get? id = some t ∧ t.GoesOn t')
    (hc : ∀ {id}, d.table.contains id = true → d'.table.contains id = true)
    (ha : d'.activeId = d.activeId) (hs : d'.split = d.split) (hn : d'.counter = d.counter) :
    d'.Sound settings where
  fits hget := by
    obtain ⟨t, hold, hg⟩ := ht hget
    exact hg.fits (h.fits hold)
  named hget := by
    obtain ⟨t, hold, hg⟩ := ht hget
    rw [hg.name]
    exact h.named hold
  active := ha ▸ hc h.active
  partner hsplit := by
    obtain ⟨hp, hne⟩ := h.partner (hs ▸ hsplit)
    exact ⟨hc hp, ha ▸ hne⟩
  alone hsplit := (nextName_congr hn).trans (h.alone (hs ▸ hsplit))

theorem put (h : d.Sound settings) (ht : d.table.get? id = some t) (hg : t.GoesOn t') :
    (d.put t').Sound settings := by
  refine h.each (GoesOn.put ht (h.fits ht).held hg _ _) (fun hc => ?_) rfl rfl rfl
  exact Table.contains_iff.2 (Table.exists_get?_insert (Table.contains_iff.1 hc) _ _)

theorem modify (h : d.Sound settings) (id : String) {f : Terminal → Terminal}
    (hf : ∀ t : Terminal, t.GoesOn (f t)) :
    Sound settings { d with table := d.table.modify id f } := by
  refine h.each (GoesOn.modify d id hf _ _) (fun hc => ?_) rfl rfl rfl
  exact Table.contains_iff.2 (Table.exists_get?_modify (Table.contains_iff.1 hc) _ _)

theorem draw (h : d.Sound settings) (draws : Draws) : Sound settings { d with draws := draws } :=
  h.each (fun hget => ⟨_, hget, .refl _⟩) (fun hc => hc) rfl rfl rfl

theorem shutdown (h : d.Sound settings) : d.shutdown.Sound settings := by
  refine h.each ?_ ?_ rfl rfl rfl
  · intro id t' hget
    rw [Desk.shutdown, Table.get?_mapValues] at hget
    obtain ⟨t, ht, rfl⟩ := Option.map_eq_some_iff.1 hget
    exact ⟨t, ht, .shutdown t⟩
  · intro id hc
    rwa [Desk.shutdown, Table.contains, Table.get?_mapValues, Option.isSome_map]

theorem openTerminal (h : d.Sound settings) (hf : d.HasFreshId) (s : Workspace)
    (word : Option String) (activate : Bool) :
    (d.openTerminal settings s word activate).2.Sound settings := by
  obtain ⟨e, he, -⟩ | ⟨e, name, -, -, he⟩ | ⟨id, name, shell, hid, hname, -, he⟩ :=
    d.openTerminal_cases settings s word activate
  · rw [he]
    exact h
  · rw [he]
    exact h.draw _
  rw [he]
  have hne : id ≠ "" := hid ▸ drawnTerminalId_ne_empty _
  have hfresh : d.table.contains id = false := hid ▸ hf
  have hgrown : ∀ {id'}, d.table.contains id' = true →
      (d.table.insert id (.new settings s id name shell "")).contains id' = true := fun hc =>
    Table.contains_iff.2 (Table.exists_get?_insert (Table.contains_iff.1 hc) _ _)
  refine ⟨Table.forall_insert h.fits (Terminal.fits_new hne s name shell ""),
    Table.forall_insert (P := fun _ (t : Terminal) => IsReadableName t.name) h.named
      (nextName_eq_ok hname),
    ?active, ?partner, fun hsplit => ?alone⟩
  case active =>
    dsimp only
    split
    · exact Table.contains_iff.2 ⟨_, Table.get?_insert_self _ _ _⟩
    · exact hgrown h.active
  case partner =>
    intro mode p hsplit
    obtain ⟨hp, hpa⟩ := h.partner hsplit
    refine ⟨hgrown hp, ?_⟩
    dsimp only
    split
    · rintro rfl
      rw [hfresh] at hp
      cases hp
    · exact hpa
  case alone => cases hname.symm.trans (h.alone hsplit)

theorem close (h : d.Sound settings) {closed : Bool} (hc : d.close id = .ok (closed, d')) :
    d'.Sound settings := by
  unfold Desk.close at hc
  obtain ⟨t, hget, hc⟩ := bind_eq_ok.1 hc
  split at hc
  · obtain ⟨-, rfl⟩ := Prod.mk.inj (Except.ok.inj hc)
    exact h
  next hsize =>
  obtain ⟨-, rfl⟩ := Prod.mk.inj (Except.ok.inj hc)
  have hget' : ∀ {id' t'}, (d.table.erase id).get? id' = some t' → d.table.get? id' = some t' := by
    intro id' t' hget'
    rw [Table.get?_erase] at hget'
    split at hget'
    · cases hget'
    · exact hget'
  refine ⟨fun hg => h.fits (hget' hg), fun hg => h.named (hget' hg), ?active, ?partner, ?alone⟩
  case active =>
    dsimp only
    split
    · exact contains_headD_erase (contains_of_get hget) (by simpa using hsize)
    · next hne => exact contains_erase.2 ⟨by simpa using hne, h.active⟩
  case partner =>
    intro mode p hsplit
    obtain ⟨hold, hkept⟩ := Option.filter_eq_some_iff.1 hsplit
    simp only [Bool.and_eq_true, bne_iff_ne, ne_eq, Option.some.injEq] at hkept
    exact ⟨contains_erase.2 ⟨hkept.1, (h.partner hold).1⟩, hkept.2⟩
  case alone =>
    intro mode hsplit
    exact h.alone (Option.filter_eq_some_iff.1 hsplit).1

theorem activate (h : d.Sound settings) (hc : d.activate id = .ok d') : d'.Sound settings := by
  unfold Desk.activate at hc
  obtain ⟨t, hget, hc⟩ := bind_eq_ok.1 hc
  obtain rfl := Except.ok.inj hc
  have hid : d.table.contains id = true := contains_of_get hget
  refine ⟨h.fits, h.named, hid, ?partner, ?alone⟩
  case partner =>
    intro mode p hsplit
    obtain ⟨⟨mode', partner⟩, hold, he⟩ := Option.map_eq_some_iff.1 hsplit
    dsimp only at he
    split at he
    · next hswap =>
      obtain ⟨rfl, hp⟩ := Split.mk.inj he
      obtain rfl := Option.some.inj hp
      obtain rfl : partner = some id := by simpa using hswap
      exact ⟨h.active, Ne.symm (h.partner hold).2⟩
    · next hkept =>
      obtain ⟨rfl, rfl⟩ := Split.mk.inj he
      exact ⟨(h.partner hold).1, by simpa using hkept⟩
  case alone =>
    intro mode hsplit
    obtain ⟨⟨mode', partner⟩, hold, he⟩ := Option.map_eq_some_iff.1 hsplit
    dsimp only at he
    split at he
    · cases he
    · obtain ⟨rfl, rfl⟩ := Split.mk.inj he
      exact h.alone hold

theorem share (h : d.Sound settings) {x : Option Split}
    (hp : ∀ {mode p}, x = some ⟨mode, some p⟩ → d.table.contains p = true ∧ p ≠ d.activeId)
    (ha : ∀ {mode}, x = some ⟨mode, none⟩ → d.nextName = .error .numberTooLong) :
    Sound settings { d with split := x } :=
  ⟨h.fits, h.named, h.active, hp, ha⟩

theorem shareWith (h : d.Sound settings) {p : String} (hp : d.table.contains p = true)
    (hne : p ≠ d.activeId) (mode : SplitMode) :
    Sound settings { d with split := some ⟨mode, some p⟩ } := by
  refine h.share (fun hs => ?_) (fun hs => (nomatch hs))
  obtain ⟨-, hpartner⟩ := Split.mk.inj (Option.some.inj hs)
  obtain rfl := Option.some.inj hpartner
  exact ⟨hp, hne⟩

theorem toggleSplit (h : d.Sound settings) (hf : d.HasFreshId) (s : Workspace) (mode : SplitMode) :
    (d.toggleSplit settings s mode).2.Sound settings := by
  unfold Desk.toggleSplit
  split
  · exact h.share (fun hs => (nomatch hs)) (fun hs => (nomatch hs))
  split
  · next p hp =>
    obtain ⟨hc, hne⟩ := partner?_eq_some hp
    exact h.shareWith hc hne mode
  have hopened := h.openTerminal hf s none false
  obtain ⟨e, he, hname⟩ | ⟨e, name, -, hshell, -⟩ | ⟨id, name, shell, hid, -, -, he⟩ :=
    d.openTerminal_cases settings s none false
  · rw [he]
    obtain ⟨rfl, -⟩ := nextName_eq_error_iff.1 hname
    exact h.share (fun hs => (nomatch hs)) fun _ => hname
  · cases hshell
  · rw [he] at hopened ⊢
    have hfresh : d.table.contains id = false := hid ▸ hf
    refine hopened.shareWith (Table.contains_iff.2 ⟨_, Table.get?_insert_self _ _ _⟩) ?_ mode
    -- the desk is not empty, so that the terminal that was active stays so
    have hactive : (if (false || d.table.size == 0) = true then id else d.activeId) = d.activeId :=
      if_neg (by simpa using Nat.pos_iff_ne_zero.1 (size_pos h.active))
    dsimp only
    rw [hactive]
    rintro rfl
    rw [h.active] at hfresh
    cases hfresh

theorem new (settings : Settings) (s : Workspace) (draws : Draws) :
    (Desk.new settings s draws).Sound settings := by
  rw [Desk.new]
  have hempty : ∀ {id t}, ({ draws := draws } : Desk).table.get? id = some t → False :=
    fun ht => nomatch ht
  obtain ⟨e, -, hname⟩ | ⟨e, name, -, hshell, -⟩ | ⟨id, name, shell, hid, hname, -, he⟩ :=
    openTerminal_cases { draws := draws } settings s none true
  · rw [nextName_of_counter rfl] at hname
    cases hname
  · cases hshell
  · rw [he]
    have hne : id ≠ "" := hid ▸ drawnTerminalId_ne_empty _
    refine ⟨Table.forall_insert (fun ht => (hempty ht).elim)
        (Terminal.fits_new hne s name shell ""),
      Table.forall_insert (P := fun _ (t : Terminal) => IsReadableName t.name)
        (fun ht => (hempty ht).elim) (nextName_eq_ok hname),
      Table.contains_iff.2 ⟨_, Table.get?_insert_self _ _ _⟩,
      fun hn => (nomatch hn), fun hn => (nomatch hn)⟩

theorem reopened {d : Desk} {l : List SavedTerminal}
    (h : ∀ {id t}, d.table.get? id = some t → t.Fits settings id) {id : String} {t : Terminal}
    (ht : (l.foldl (reopen settings s) d).table.get? id = some t) : t.Fits settings id := by
  induction l generalizing d with
  | nil => exact h ht
  | cons saved rest ih =>
    refine ih (fun {id' t'} ht' => ?_) ht
    unfold reopen at ht'
    dsimp only at ht'
    split at ht'
    · exact h ht'
    · refine Table.forall_insert h ⟨?_, rfl, rfl, History.length_lastOf_le _ _⟩ ht'
      dsimp only [Terminal.new]
      split
      · exact drawnTerminalId_ne_empty _
      · next hne => exact fun he => hne (he ▸ rfl)

theorem restored {saved : SavedSession} {draws' : Draws}
    (hd : Desk.restored settings s draws saved = .ok (some d, draws')) : d.Sound settings := by
  unfold Desk.restored at hd
  dsimp only at hd
  have hfits : ∀ {id t},
      (saved.terminals.foldl (reopen settings s) { draws := draws }).table.get? id = some t →
        t.Fits settings id := reopened fun (ht : Table.empty.get? _ = some _) => nomatch ht
  generalize saved.terminals.foldl (reopen settings s) { draws := draws } = d₀ at hd hfits
  split at hd
  · cases hd
  next first rest hkeys =>
  have hfirst : d₀.table.contains first = true :=
    Table.contains_iff.2 (Table.mem_keys_iff.1 (hkeys ▸ List.mem_cons_self))
  split at hd
  · cases hd
  next numbers hnumbers =>
  obtain ⟨hd, -⟩ := Prod.mk.inj (Except.ok.inj hd)
  obtain rfl := Option.some.inj hd
  refine ⟨hfits, ?named, ?active, ?partner, ?alone⟩
  case named =>
    intro id t ht
    refine isReadableName_of_numbers hnumbers _ (List.mem_map.2 ⟨t, ?_, rfl⟩)
    exact List.mem_map.2 ⟨(id, t), Table.mem_entries_iff.2 ht, rfl⟩
  case active =>
    dsimp only
    cases hsaved : saved.activeId.filter d₀.table.contains with
    | none => exact hfirst
    | some id => exact (Option.filter_eq_some_iff.1 hsaved).2
  case partner =>
    intro mode p hsplit
    dsimp only at hsplit
    split at hsplit
    · next mode' partner _ hpartner =>
      obtain ⟨-, hp⟩ := Split.mk.inj (Option.some.inj hsplit)
      obtain rfl := Option.some.inj hp
      simpa using (Option.filter_eq_some_iff.1 hpartner).2
    · cases hsplit
  case alone =>
    intro mode hsplit
    dsimp only at hsplit
    split at hsplit
    · cases hsplit
    · cases hsplit

theorem start {now : Timestamp} {stored : Option String}
    (hd : Desk.start settings s now draws stored = .ok d) : d.Sound settings := by
  rcases start_cases hd with ⟨draws, rfl⟩ | ⟨saved, draws, draws', hr⟩
  · exact new settings s draws
  · exact restored hr

end Sound

end Desk

/-! ## What is reached -/

namespace Studio

/-- What is reached from the start of the terminals, whatever is stored then. The workspace and the
repository may change in any way, and ids may be drawn elsewhere; no id is drawn that is in use. -/
inductive Reachable (settings : Settings) : Studio σ → Prop
  | started {w : World σ} {repository : Option Repository} {now : Timestamp} {draws : Draws}
      {stored : Option String} {d : Desk}
      (hd : Desk.start settings w.space now draws stored = .ok d) :
      Reachable settings ⟨w, repository, d⟩
  | elsewhere {b : Studio σ} (hb : Reachable settings b) (w : World σ)
      (repository : Option Repository) (draws : Draws) :
      Reachable settings ⟨w, repository, { b.desk with draws := draws }⟩
  | opened {b : Studio σ} (hb : Reachable settings b) (hf : b.desk.HasFreshId)
      (word : Option String) (activate : Bool) :
      Reachable settings
        { b with desk := (b.desk.openTerminal settings b.world.space word activate).2 }
  | closed {b : Studio σ} (hb : Reachable settings b) {id : String} {closed : Bool} {d : Desk}
      (hd : b.desk.close id = .ok (closed, d)) : Reachable settings { b with desk := d }
  | activated {b : Studio σ} (hb : Reachable settings b) {id : String} {d : Desk}
      (hd : b.desk.activate id = .ok d) : Reachable settings { b with desk := d }
  | shared {b : Studio σ} (hb : Reachable settings b) (hf : b.desk.HasFreshId) (mode : SplitMode) :
      Reachable settings { b with desk := (b.desk.toggleSplit settings b.world.space mode).2 }
  | executed {b : Studio σ} (hb : Reachable settings b) (h : Host σ) (id : Option String)
      (line : String) : Reachable settings (b.execute h settings id line).2
  | worked {b : Studio σ} (hb : Reachable settings b) (h : Host σ) (terminalId entryId : String)
      (job : Job) : Reachable settings (b.doJob h settings terminalId entryId job)
  | handled {b : Studio σ} (hb : Reachable settings b) {id : String} {t t' : Terminal}
      (ht : b.desk.get id = .ok t) (hg : t.Handled t') :
      Reachable settings { b with desk := b.desk.put t' }
  | shutDown {b : Studio σ} (hb : Reachable settings b) :
      Reachable settings { b with desk := b.desk.shutdown }

variable {b : Studio σ}

theorem sound_execute (hd : b.desk.Sound settings) (h : Host σ) (id : Option String)
    (line : String) : (b.execute h settings id line).2.desk.Sound settings := by
  unfold Studio.execute
  split
  · exact hd
  next t ht =>
  split
  · exact hd
  · have hput := hd.put (Desk.get_eq_ok_iff.1 ht)
      (.execute t ⟨h, settings, b.repository.isSome⟩ b.world b.desk.draws.entries line)
    exact hput.draw _

/-- A job that is done only completes an entry. -/
theorem desk_doJob (b : Studio σ) (h : Host σ) (settings : Settings) (terminalId entryId : String)
    (job : Job) : ∃ a : Reply, (b.doJob h settings terminalId entryId job).desk =
      { b.desk with table := b.desk.table.modify terminalId (·.complete entryId a) } := by
  unfold Studio.doJob
  dsimp only
  split
  · exact ⟨_, rfl⟩
  · exact ⟨_, rfl⟩
  · exact ⟨_, rfl⟩

theorem sound_doJob (hd : b.desk.Sound settings) (h : Host σ) (terminalId entryId : String)
    (job : Job) : (b.doJob h settings terminalId entryId job).desk.Sound settings := by
  obtain ⟨a, he⟩ := b.desk_doJob h settings terminalId entryId job
  rw [he]
  exact hd.modify terminalId fun t => .complete t entryId a

/-- Whatever is reached, the active terminal and its partner are among those of the desk. -/
theorem Reachable.sound (h : Reachable settings b) : b.desk.Sound settings := by
  induction h with
  | started hd => exact .start hd
  | elsewhere _ _ _ draws ih => exact ih.draw draws
  | opened _ hf word activate ih => exact ih.openTerminal hf _ word activate
  | closed _ hd ih => exact ih.close hd
  | activated _ hd ih => exact ih.activate hd
  | shared _ hf mode ih => exact ih.toggleSplit hf _ mode
  | executed _ h id line ih => exact sound_execute ih h id line
  | worked _ h terminalId entryId job ih => exact sound_doJob ih h terminalId entryId job
  | handled _ ht hg ih => exact ih.put (Desk.get_eq_ok_iff.1 ht) (.handled hg)
  | shutDown _ ih => exact ih.shutdown

end Studio

end Workbench
