import Workbench.Proofs.Form
import Workbench.Proofs.Terminal.Directories
import Workbench.Proofs.World.Home

/-!
# Going home

A home directory that is accepted is the path of its segments (`Settings.ofNames_home`). Over a new
workspace with the demo tree the tilde, and with it `cd` without a word, leads to a directory
exactly when the demo tree has room for it (`Terminal.lands_home_iff`).
-/

namespace Workbench

open Form (Checked)

namespace Settings

variable {fields : List (String × Json)} {settings : Settings} {v : Json} {home : String}

theorem ofNames_of_readHome (h : readHome v = .ok home) :
    Path.ofNames (Path.segments home) = home := by
  obtain ⟨s, -, h⟩ := Checked.andThen_eq_ok.1 h
  split at h
  · obtain rfl := Checked.ok.inj h
    rw [Path.segments_ofNames_of_steps fun _ => Path.of_mem_segments]
  · cases h

/-- A home directory that is accepted is written from its segments. -/
theorem ofNames_home (h : ofFields fields = .ok settings) :
    Path.ofNames (Path.segments settings.home) = settings.home := by
  unfold ofFields at h
  -- the home directory is read first, the other fields after it
  obtain ⟨_, _, h1, -, rfl⟩ := Checked.seq_eq_ok.1 h
  obtain ⟨_, _, h2, -, rfl⟩ := Checked.seq_eq_ok.1 h1
  obtain ⟨_, _, h3, -, rfl⟩ := Checked.seq_eq_ok.1 h2
  obtain ⟨_, _, h4, -, rfl⟩ := Checked.seq_eq_ok.1 h3
  obtain ⟨_, _, h5, -, rfl⟩ := Checked.seq_eq_ok.1 h4
  obtain ⟨_, _, h6, -, rfl⟩ := Checked.seq_eq_ok.1 h5
  obtain ⟨_, _, h7, -, rfl⟩ := Checked.seq_eq_ok.1 h6
  obtain ⟨_, _, h8, -, rfl⟩ := Checked.seq_eq_ok.1 h7
  obtain ⟨_, _, h9, -, rfl⟩ := Checked.seq_eq_ok.1 h8
  obtain ⟨home, hread, rfl⟩ := Checked.map_eq_ok.1 h9
  exact Form.of_optional (P := fun home => Path.ofNames (Path.segments home) = home) (by decide)
    ofNames_of_readHome hread

end Settings

namespace Terminal

variable {fields : List (String × Json)} {settings : Settings}

/-- In a new workspace with the demo tree, the tilde leads to a directory, and `cd` without a word
succeeds, exactly when the demo tree has room for the home directory. -/
theorem lands_home_iff (hs : Settings.ofFields fields = .ok settings) (now : Timestamp) :
    (∀ cwd, (∃ n, (Seed.planted settings.home now).resolve? "~" cwd = some n ∧
        n.kind = .directory) ↔ Seed.Welcomes settings.home) ∧
      ∀ {σ : Type} (t : Terminal) (b : Bench σ) (disk : σ) (drawn : Nat) {line : String},
        Text.words line = ["cd"] →
          ((t.execute b ⟨Seed.planted settings.home now, disk⟩ drawn line).result.isError = false ↔
            Seed.Welcomes settings.home) := by
  have hhome := Settings.ofNames_home hs
  have hfound : ∀ cwd, (∃ n, (Seed.planted settings.home now).resolve? "~" cwd = some n ∧
      n.kind = .directory) ↔ Seed.Welcomes settings.home := by
    intro cwd
    exact (World.Plain.home_found_iff hhome (Seed.plain_demoWorld settings.home now) rfl cwd).trans
      Seed.shows_welcomes_iff
  refine ⟨hfound, fun t b disk drawn line hwords => ?_⟩
  obtain ⟨-, herror, -⟩ := execute_cd_headD (t := t) hwords b
    ⟨Seed.planted settings.home now, disk⟩ drawn
  rw [herror, ← hfound ((Seed.planted settings.home now).settle t.cwd), Option.isNone_eq_false_iff,
    Option.isSome_iff_exists]
  simp only [Option.filter_eq_some_iff, Node.isDirectory_iff, List.headD_nil]

/-- Settings that differ from the defaults in the home directory. -/
def homeAt (home : String) : Settings := { home := home }

def homeBench (home : String) : Bench Unit := ⟨⟨none, default⟩, homeAt home, false⟩

/-- The first terminal over the demo tree. -/
def homeTerminal (home : String) : Terminal :=
  .new (homeAt home) (Seed.planted home default) "t1" "Terminal 1" .henu ""

/-- The path ends with a blank, which is lost when its directories are created, but it has come by
the place where it leads before. -/
theorem lands_past_blank :
    Settings.ofFields [("home", .str "//new /./../new /")] = .ok (homeAt "/new /./../new ") ∧
    (∃ n, (Seed.planted "/new /./../new " default).resolve? "~" "/etc" = some n ∧
      n.kind = .directory) ∧
    ((homeTerminal "/new /./../new ").execute (homeBench "/new /./../new ")
      ⟨Seed.planted "/new /./../new " default, ()⟩ 0 "cd").result.isError = false := by
  have hs : Settings.ofFields [("home", .str "//new /./../new /")] =
      .ok (homeAt "/new /./../new ") := rfl
  have hwelcome : Seed.Welcomes "/new /./../new " := by decide +kernel
  obtain ⟨hfound, hcd⟩ := lands_home_iff hs default
  rw [show (homeAt "/new /./../new ").home = "/new /./../new " from rfl] at hfound hcd
  exact ⟨hs, (hfound "/etc").2 hwelcome, (hcd _ _ () 0 (by decide +kernel)).2 hwelcome⟩

/-- A home directory whose path ends with a blank is created without it and looked for with it, and
one at which the demo tree has a file is not created at all. -/
theorem home_missed :
    (Settings.ofFields [("home", .str "/new ")] = .ok (homeAt "/new ") ∧
      (Seed.planted "/new " default).HasDirectory "/new" ∧
      (Seed.planted "/new " default).resolve? "~" "/" = none ∧
      ((homeTerminal "/new ").execute (homeBench "/new ")
        ⟨Seed.planted "/new " default, ()⟩ 0 "cd").result.isError = true) ∧
    Settings.ofFields [("home", .str "/etc/config.json")] = .ok (homeAt "/etc/config.json") ∧
      ((Seed.planted "/etc/config.json" default).resolve? "~" "/").map Node.kind = some .file ∧
      ((homeTerminal "/etc/config.json").execute (homeBench "/etc/config.json")
        ⟨Seed.planted "/etc/config.json" default, ()⟩ 0 "cd").result.isError = true :=
  ⟨⟨rfl, by decide +kernel, by decide +kernel, by decide +kernel⟩, rfl, by decide +kernel,
    by decide +kernel⟩

end Terminal

end Workbench
