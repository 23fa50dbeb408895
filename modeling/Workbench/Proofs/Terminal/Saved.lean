import Workbench.Proofs.Disk.Files
import Workbench.Proofs.Json
import Workbench.Proofs.Octets
import Workbench.Proofs.Time
import Workbench.Terminal.Store

/-!
# The text of a saved session

A saved session is read back from its text, provided that the form has room for the points in time
of its entries (`SavedSession.ofText?_text`). No entry ids are drawn on the way, since all entries
have theirs.
-/

namespace Workbench

open Form (Checked)

variable {now : Timestamp} {drawn : Nat}

theorem Form.itemsFrom_texts (k : Nat) (l : List String) :
    Form.itemsFrom Form.text k (l.map .str) = .ok l := by
  induction l generalizing k with
  | nil => rfl
  | cons s rest ih =>
    rw [List.map_cons, Form.itemsFrom, ih]
    rfl

theorem Json.plain_ofText? (s : Option String) : (Json.ofText? s).Plain := by
  cases s with
  | none => exact .null
  | some s => exact .str s

/-- The points in time of a terminal can be stored. -/
def SavedTerminal.IsStorable (t : SavedTerminal) : Prop :=
  ∀ e ∈ t.scrollback, e.timestamp.IsStorable

namespace SavedSession

theorem readEntry_toJson (now : Timestamp) {e : ScrollbackEntry} (he : e.timestamp.IsStorable)
    (drawnId : String) :
    ∃ fields, e.toJson = .obj fields ∧ (Json.lastField? "entry_id" fields).isSome = true ∧
      readEntry now drawnId fields = .ok e := by
  refine ⟨_, rfl, by simp [Json.lastField?], ?_⟩
  simp only [readEntry, Form.optional, Form.required, Json.lastField?]
  simp [readTime, Timestamp.ofStored?_zuluText he, Form.text, Form.truth, Checked.under]
  rfl

theorem readEntries_map (now : Timestamp) (k drawn : Nat) {l : List ScrollbackEntry}
    (hl : ∀ e ∈ l, e.timestamp.IsStorable) :
    readEntries now k drawn (l.map ScrollbackEntry.toJson) = (.ok l, drawn) := by
  induction l generalizing k with
  | nil => rfl
  | cons e rest ih =>
    obtain ⟨he, hrest⟩ := List.forall_mem_cons.1 hl
    obtain ⟨fields, hfields, hid, hread⟩ := readEntry_toJson now he (drawnEntryId drawn)
    rw [List.map_cons, hfields, readEntries]
    simp only [hid, if_true, ih (k + 1) hrest, hread]
    rfl

theorem readTerminal_toJson {t : SavedTerminal} (ht : t.IsStorable) :
    readTerminal now drawn t.toJson = (.ok t, drawn) := by
  have hhistory : Form.listOf Form.text (.ofTexts t.history) = .ok t.history :=
    Form.itemsFrom_texts 0 t.history
  have hscrollback := readEntries_map now 0 drawn ht
  simp only [SavedTerminal.toJson, readTerminal, readScrollback, Form.required, Form.optional,
    Json.lastField?]
  simp [hhistory, hscrollback, Form.text, Checked.under]
  rfl

theorem readTerminals_map (now : Timestamp) (k drawn : Nat) {l : List SavedTerminal}
    (hl : ∀ t ∈ l, t.IsStorable) :
    readTerminals now k drawn (l.map SavedTerminal.toJson) = (.ok l, drawn) := by
  induction l generalizing k with
  | nil => rfl
  | cons t rest ih =>
    obtain ⟨ht, hrest⟩ := List.forall_mem_cons.1 hl
    rw [List.map_cons, readTerminals, readTerminal_toJson ht]
    simp only [ih (k + 1) hrest]
    rfl

variable {s : SavedSession}

theorem read_toJson (hs : ∀ t ∈ s.terminals, t.IsStorable) :
    read now drawn s.toJson = (.ok s, drawn) := by
  have hterminals := readTerminals_map now 0 drawn hs
  have htext : ∀ x : Option String, Form.nullable Form.text (.ofText? x) = .ok x := fun x => by
    cases x <;> rfl
  have hmode : Form.nullable (Form.choice SplitMode.ofText?)
      (.ofText? (s.splitMode.map SplitMode.text)) = .ok s.splitMode := by
    cases s.splitMode with
    | none => rfl
    | some m => cases m <;> rfl
  simp only [toJson, read, Form.optional, Json.lastField?]
  simp [hterminals, htext, hmode, Checked.under]
  rfl

theorem plain_entry (e : ScrollbackEntry) : e.toJson.Plain :=
  .obj (by simp [Json.Plain.str, Json.Plain.bool])

theorem plain_terminal (t : SavedTerminal) : t.toJson.Plain := by
  have hhistory : (Json.ofTexts t.history).Plain :=
    .arr (List.forall_mem_map.2 fun s _ => .str s)
  have hscrollback : (Json.arr (t.scrollback.map ScrollbackEntry.toJson)).Plain :=
    .arr (List.forall_mem_map.2 fun e _ => plain_entry e)
  exact .obj (by simp [Json.Plain.str, hhistory, hscrollback])

theorem plain_toJson (s : SavedSession) : s.toJson.Plain := by
  have hterminals : (Json.arr (s.terminals.map SavedTerminal.toJson)).Plain :=
    .arr (List.forall_mem_map.2 fun t _ => plain_terminal t)
  exact .obj (by simp [hterminals, Json.plain_ofText?])

/-- A session is read back from its text. -/
theorem ofText?_text (hs : ∀ t ∈ s.terminals, t.IsStorable) :
    ofText? now drawn s.text = (some s, drawn) := by
  simp only [ofText?, text, Json.parse_pretty s.plain_toJson, read_toJson hs]
  rfl

/-- Sessions with the same text are the same. -/
theorem text_inj {s' : SavedSession} (hs : ∀ t ∈ s.terminals, t.IsStorable)
    (hs' : ∀ t ∈ s'.terminals, t.IsStorable) (h : s.text = s'.text) : s = s' := by
  have hread : ofText? default 0 s.text = (some s, 0) := ofText?_text hs
  rw [h, ofText?_text hs'] at hread
  exact (Option.some.inj (Prod.mk.inj hread).1).symm

end SavedSession

/-! ## The file -/

namespace Store

variable {fs fs' : FileSystem} {path : String}

/-- A text without carriage returns is loaded as it was written. -/
theorem load_write {text : String} (hfs : fs.Rooted) (hw : write fs path text = (.ok (), fs'))
    (htext : '\r' ∉ text.toList) : load fs' path = .ok (some text) := by
  unfold write at hw
  dsimp only at hw
  split at hw
  · cases hw
  split at hw
  · cases hw
  next fs₁ hpath =>
  split at hw
  · cases hw
  next hnul =>
  split at hw
  · next fs₂ hwrite =>
    obtain ⟨-, rfl⟩ := Prod.mk.inj hw
    have hfs₁ : fs₁.Rooted := by
      have hmade := hfs.makePath true (Disk.parent (Disk.tidied path))
      rwa [hpath] at hmade
    have hread := hfs₁.read_write hwrite
    have hexists : fs₂.exists? (Disk.tidied path) = .ok true := by
      obtain ⟨p, hp, hi⟩ := FileSystem.read_eq_ok_iff.1 hread
      simp [FileSystem.exists?, FileSystem.leadsTo, hnul, FileSystem.stat_eq_ok_iff.2 ⟨hp, hi⟩]
    unfold load
    simp only [hexists, hread, Text.ofOctets?_octets, Option.map_some,
      Text.withLineFeeds_eq htext]
  · cases hw

theorem loadFrom_save {d : Desk} (hfs : fs.Rooted) (hs : save fs (some path) d = (.ok (), fs')) :
    loadFrom fs' (some path) = .ok (some (SavedSession.ofDesk d).text) := by
  rw [save] at hs
  rw [loadFrom]
  refine load_write hfs hs ?_
  rw [SavedSession.text]
  exact (SavedSession.ofDesk d).plain_toJson.not_mem 0

end Store

end Workbench
