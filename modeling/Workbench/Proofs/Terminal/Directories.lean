import Workbench.Proofs.Git.Plain
import Workbench.Proofs.Terminal.Attended
import Workbench.Proofs.Terminal.Commands
import Workbench.Proofs.Terminal.Places

/-!
# Where commands are carried out

Names that are typed hold no blanks, since blanks separate the words of a line. So the commands of
terminals only ever make plain names, and the working directories that are left behind are paths of
plain names (`Studio.Shelled.plain`). A command is then carried out in a directory that is named by
its own path: the working directory, or what is left of it (`Studio.settled_of_shelled`).
-/

namespace Workbench

open Workbench.Path (AreNames ArePlain IsSpelled)
open Text (IsToken)

namespace Path

variable {home path cwd : String}

/-- A home directory: the path of names without blanks. -/
structure IsHome (home : String) : Prop where
  spelled : IsSpelled home
  solid : ∀ c ∈ home.toList, Text.isBlank c = false

theorem IsHome.rooted (h : IsHome home) : Text.startsWith home "/" = true := by
  obtain ⟨names, -, -, rfl⟩ := h.spelled
  obtain ⟨cs, hcs⟩ := exists_toList_ofNames names
  simp [Text.startsWith, hcs]

theorem isHome_user : IsHome "/home/user" where
  spelled := ⟨["home", "user"], by unfold AreNames; decide, by unfold ArePlain; decide, by decide⟩
  solid := by
    have hall : ("/home/user".toList.all fun c => !Text.isBlank c) = true := by decide
    intro c hc
    simpa using List.all_eq_true.1 hall c hc

/-- A word seen from a working directory of plain names leads through plain names. -/
theorem arePlain_absolute (hhome : IsHome home) (hcwd : IsSpelled cwd) (hp : IsToken path) :
    ArePlain (segments (absolute home path cwd)) := by
  by_cases hrel : IsRelative path
  · obtain ⟨names, hn, hplain, rfl⟩ := hcwd
    rw [absolute_of_relative hrel hp home (ofNames_ne_empty names), segments_join,
      segments_dropSlashes, segments_ofNames hn]
    exact ArePlain.append_iff.2 ⟨hplain, arePlain_segments hp.solid⟩
  · apply arePlain_segments
    have hstart : ∀ t : String, Text.startsWith (home ++ t) "/" = true := by
      intro t
      have := hhome.rooted
      rw [Text.startsWith, List.isPrefixOf_iff_prefix] at this ⊢
      rw [String.toList_append]
      exact this.trans (List.prefix_append _ _)
    simp only [absolute, hp.strip]
    split
    · rw [hstart, if_pos rfl]
      intro c hc
      rw [String.toList_append, List.mem_append] at hc
      rcases hc with hc | hc
      · exact hhome.solid c hc
      · rw [Text.dropChars, String.toList_ofList] at hc
        exact hp.solid c (List.mem_of_mem_drop hc)
    · next hhomeless =>
      split
      · exact hp.solid
      · next hroot =>
        exact absurd ⟨Bool.eq_false_iff.2 hroot, Bool.eq_false_iff.2 hhomeless⟩ hrel

end Path

theorem Arguments.isPlain_splitPath {path : String} (hp : IsToken path) :
    Path.IsPlain (splitPath path).2 := by
  have hdropped : ∀ c ∈ (Path.dropSlashes path).toList, c ∈ path.toList := by
    intro c hc
    rw [Path.dropSlashes, String.toList_ofList, List.mem_reverse] at hc
    simpa using (List.dropWhile_sublist _).subset hc
  have htrimmed : ∀ c ∈ (if (Path.dropSlashes path).isEmpty then path
      else Path.dropSlashes path).toList, Text.isBlank c = false := by
    intro c hc
    split at hc
    · exact hp.solid c hc
    · exact hp.solid c (hdropped c hc)
  have hwhole : ∀ {s : String}, (∀ c ∈ s.toList, Text.isBlank c = false) → Path.IsPlain s :=
    fun hs c hc => hs c (List.mem_of_getLast? hc)
  unfold splitPath
  dsimp only
  split
  · exact hwhole htrimmed
  · exact hwhole htrimmed
  · next name above _ hpieces =>
    apply Path.arePlain_pieces htrimmed
    rw [← List.mem_reverse, hpieces]
    exact List.mem_cons_self

/-! ## Lines -/

namespace Scene

variable {σ : Type} {home there here name : String} {c : Scene} {source parent : Node} {disk : σ}
  {w : World σ}

/-- Nodes that are found have plain names, but for the root, and so has what is typed. -/
theorem isPlain_destination (hw : World.Plain home ⟨c.space, disk⟩)
    (hs : c.resolve? here = some source) (hp : IsToken there)
    (hd : c.destination? source there = some (parent, name)) :
    source.id ≠ rootId → Path.IsPlain name := by
  intro hroot
  unfold Scene.destination? at hd
  split at hd
  · obtain ⟨-, rfl⟩ := Prod.mk.inj (Option.some.inj hd)
    have htree := hw.free.sound.tree
    have hn := Workspace.node?_of_resolve? htree hs
    obtain ⟨q, -, hq, -⟩ := htree.held hn hroot
    obtain ⟨d, hdir, -⟩ := htree.parent hn hq
    obtain ⟨names, hl⟩ := htree.exists_leads hdir
    have hplain : ArePlain (names ++ [source.name]) := hw.of_leads (.child hl hn hq)
    exact hplain _ (by simp)
  · have hplain := Arguments.isPlain_splitPath hp
    generalize Arguments.splitPath there = place at hd hplain
    obtain ⟨above, last⟩ := place
    obtain ⟨d, -, he⟩ := Option.map_eq_some_iff.1 hd
    obtain ⟨-, rfl⟩ := Prod.mk.inj he
    exact hplain

/-- What a command asks for that sees plain names only leaves plain names. -/
theorem Asks.plain {op : Operation} (hop : c.Asks op) (hhome : Path.IsHome home)
    (hc : IsSpelled c.cwd) (hscene : World.Plain home ⟨c.space, disk⟩) (hw : w.Plain home)
    (h : Host σ) : (op.run h w).2.Plain home := by
  cases hop with
  | ensureDirectories hp => exact hw.ensureDirectories (Path.arePlain_absolute hhome hc hp) h
  | create hp kind parentId =>
    simp only [Operation.run, World.answered]
    exact hw.create (Arguments.isPlain_splitPath hp) h kind parentId ""
  | touch id => exact hw.touch h id
  | delete id recursive => exact hw.delete h id recursive
  | setContent id content => exact hw.setContent h id content
  | copy hs hp hd => exact hw.copy (isPlain_destination hscene hs hp hd) h ..
  | move hs hp hd => exact hw.move (isPlain_destination hscene hs hp hd) h ..

end Scene

namespace Terminal

variable {σ : Type} {home : String} {w : World σ} {t : Terminal} {b : Bench σ}

theorem isSpelled_cd {c : Scene} {disk : σ} (hw : World.Plain home ⟨c.space, disk⟩)
    (hc : IsSpelled c.cwd) (args : List String) : IsSpelled (cd c args).2 := by
  unfold cd
  dsimp only
  split
  · next n hn =>
    have htree := hw.free.sound.tree
    have hnode := Workspace.node?_of_resolve? htree (Option.filter_eq_some_iff.1 hn).1
    have hl := htree.leads_namesTo hnode
    exact ⟨_, htree.isName_of_leads hl, hw.of_leads hl, rfl⟩
  · exact hc

theorem isSpelled_carryOut (hw : w.Plain home) (ht : IsSpelled t.cwd) (b : Bench σ)
    (command : Command) (args : List String) : IsSpelled (t.carryOut b w command args).cwd := by
  by_cases hcd : command = .cd
  · subst hcd
    exact isSpelled_cd (c := t.scene b w) hw ht args
  · rw [cwd_carryOut hcd]
    exact ht

theorem plain_execute (hhome : Path.IsHome home) (hw : w.Plain home) (ht : IsSpelled t.cwd)
    (drawn : Nat) (line : String) : (t.execute b w drawn line).world.Plain home ∧
      IsSpelled (t.execute b w drawn line).terminal.cwd := by
  have hsettled := Workspace.isSpelled_settle hw.free.sound.tree ht
  constructor
  · apply (t.led_execute b w drawn line).keeps _ hw
    intro w' op hw' hop
    exact hop.plain hhome hsettled hw hw' b.host
  · cases hwords : Text.words line with
    | nil =>
      unfold execute
      simp only [hwords]
      exact ht
    | cons word args =>
      cases hcommand : Command.ofText? (Text.lower word) with
      | none =>
        unfold execute
        simp only [hwords, hcommand]
        exact hsettled
      | some command =>
        rw [(execute_dispatched hwords hcommand b w drawn).2]
        exact isSpelled_carryOut hw hsettled b command args

/-- What `cd` does: it looks for its first word, or for the tilde if there is none. -/
theorem execute_cd_headD {line : String} {args : List String}
    (hwords : Text.words line = "cd" :: args) (b : Bench σ) (w : World σ) (drawn : Nat) :
    let found := (w.space.resolve? (args.headD "~") (w.space.settle t.cwd)).filter Node.isDirectory
    let x := t.execute b w drawn line
    x.world = w ∧ x.result.isError = found.isNone ∧
      ∀ n, found = some n → x.terminal.cwd = w.space.pathOf n.id := by
  have hcommand : Command.ofText? (Text.lower "cd") = some .cd := by decide
  unfold execute
  simp only [hwords, hcommand]
  unfold carryOut cd scene Scene.resolve?
  dsimp only
  cases (w.space.resolve? (args.headD "~") (w.space.settle t.cwd)).filter Node.isDirectory with
  | none => exact ⟨rfl, rfl, by simp⟩
  | some n =>
    refine ⟨rfl, rfl, ?_⟩
    rintro m hm
    obtain rfl := Option.some.inj hm
    rfl

/-- What `cd` does with one word. -/
theorem execute_cd {line p : String} (hwords : Text.words line = ["cd", p]) (b : Bench σ)
    (w : World σ) (drawn : Nat) :
    let found := (w.space.resolve? p (w.space.settle t.cwd)).filter Node.isDirectory
    let x := t.execute b w drawn line
    x.world = w ∧ x.result.isError = found.isNone ∧
      ∀ n, found = some n → x.terminal.cwd = w.space.pathOf n.id :=
  execute_cd_headD hwords b w drawn

end Terminal

/-! ## Settling in a plain workspace -/

namespace World.Plain

variable {σ : Type} {home cwd : String} {w : World σ}

/-- Where a terminal settles there is a directory with just this path: that of its working
directory, or the longest part of it that is left. -/
theorem settle (hw : w.Plain home) (hcwd : IsSpelled cwd) :
    w.space.HasDirectory (w.space.settle cwd) ∧
    (w.space.HasDirectory cwd → w.space.settle cwd = cwd) ∧
    (¬ w.space.HasDirectory cwd → ∃ names k, AreNames names ∧ cwd = Path.ofNames names ∧
      k < names.length ∧ w.space.settle cwd = Path.ofNames (names.take k) ∧
      ∀ j, k < j → j < names.length → ¬ w.space.HasDirectory (Path.ofNames (names.take j))) := by
  have htree := hw.free.sound.tree
  obtain ⟨names, hn, hp, rfl⟩ := hcwd
  have htake : ∀ k, AreNames (names.take k) := fun k s hs => hn s (List.mem_of_mem_take hs)
  have hiff : ∀ k, w.space.HasDirectory (Path.ofNames (names.take k)) ↔
      w.space.arena.Shows (names.take k) none :=
    fun k => Workspace.hasDirectory_ofNames_iff htree (htake k)
  obtain ⟨k, hk, he, hshows, hmax⟩ := Workspace.settle_ofNames htree hn hp
  refine ⟨he ▸ (hiff k).2 hshows, fun hdir => ?_, fun hgone => ?_⟩
  · exact Workspace.settle_of_shows htree hn hp
      ((Workspace.hasDirectory_ofNames_iff htree hn).1 hdir)
  · have hlt : k < names.length := by
      apply Nat.lt_of_le_of_ne hk
      rintro rfl
      rw [List.take_length] at hshows
      exact hgone ((Workspace.hasDirectory_ofNames_iff htree hn).2 hshows)
    refine ⟨names, k, hn, rfl, hlt, he, fun j hkj hj hdir => ?_⟩
    have := hmax j (Nat.le_of_lt hj) ((hiff j).1 hdir)
    omega

/-- One step after another leads where both lead at once. -/
theorem cd_join (hw : w.Plain home) (hhome : Path.IsHome home) {t : Terminal}
    {x y z p q : String} (hx : Text.words x = ["cd", p]) (hy : Text.words y = ["cd", q])
    (hz : Text.words z = ["cd", p ++ "/" ++ q]) (hq : Path.IsRelative q)
    (b : Terminal.Bench σ) (drawn drawn' : Nat) :
    let one := t.execute b w drawn x
    let two := one.terminal.execute b one.world drawn' y
    let both := t.execute b w drawn z
    (one.result.isError = false ∧ two.result.isError = false ↔ both.result.isError = false) ∧
      (both.result.isError = false → two.terminal.cwd = both.terminal.cwd) := by
  have htree := hw.free.sound.tree
  have hpx : p ∈ Text.words x := by simp [hx]
  have hqy : q ∈ Text.words y := by simp [hy]
  have htp := Text.isToken_of_mem_words hpx
  have htq := Text.isToken_of_mem_words hqy
  have hrooted : Text.startsWith w.space.home "/" = true := hw.home ▸ hhome.rooted
  intro one two both
  obtain ⟨hworld, hone, hcwd⟩ := Terminal.execute_cd (t := t) hx b w drawn
  obtain ⟨-, hboth, hbothCwd⟩ := Terminal.execute_cd (t := t) hz b w drawn
  have hone : one.result.isError = _ := hone
  have hboth : both.result.isError = _ := hboth
  rw [Workspace.resolve?_join hrooted htp htq] at hboth hbothCwd
  cases hfound : (w.space.resolve? p (w.space.settle t.cwd)).filter Node.isDirectory with
  | none =>
    -- what is not a directory leads nowhere
    have hnowhere : (w.space.resolve? p (w.space.settle t.cwd)).bind
        (w.space.arena.follow? (Path.pieces q)) = none := by
      cases hres : w.space.resolve? p (w.space.settle t.cwd) with
      | none => rfl
      | some n =>
        have hfile : n.isDirectory = false := by simpa [hres] using hfound
        exact Workspace.follow?_file hfile htq hq
    rw [hfound] at hone
    rw [hnowhere] at hboth
    simp [hone, hboth]
  | some n =>
    obtain ⟨hres, hdir⟩ := Option.filter_eq_some_iff.1 hfound
    have hn := Workspace.node?_of_resolve? htree hres
    have hl := htree.leads_namesTo hn
    have hshows : w.space.arena.Shows (w.space.arena.namesTo n.id) none :=
      ⟨n.id, n, hl, hn, Node.shown_eq_none_iff.2 (Node.isDirectory_iff.1 hdir)⟩
    have hnames := htree.isName_of_leads hl
    have hplain := hw.of_leads hl
    have hat : one.terminal.cwd = Path.ofNames (w.space.arena.namesTo n.id) := hcwd n hfound
    obtain ⟨-, htwo, htwoCwd⟩ := Terminal.execute_cd (t := one.terminal) hy b one.world drawn'
    have htwo : two.result.isError = _ := htwo
    have htwoCwd : ∀ m, _ → two.terminal.cwd = _ := htwoCwd
    have hworld : one.world = w := hworld
    rw [hworld, hat, Workspace.settle_of_shows htree hnames hplain hshows,
      Workspace.resolve?_below htree hnames hplain hn hl htq hq] at htwo htwoCwd
    rw [hfound] at hone
    rw [hres, Option.bind_some] at hboth hbothCwd
    refine ⟨by simp [hone, htwo, hboth], fun hok => ?_⟩
    rw [hboth, Option.isNone_eq_false_iff, Option.isSome_iff_exists] at hok
    obtain ⟨m, hm⟩ := hok
    exact (htwoCwd m hm).trans (hbothCwd m hm).symm

end World.Plain

/-! ## Terminals that share a workspace -/

namespace Studio

variable {settings : Settings} {b : Studio FileSystem}

/-- What a new free workspace is led to through its terminals only: they are opened, used and
closed, lines are executed, and jobs are done. -/
inductive Shelled (settings : Settings) : Studio FileSystem → Prop
  | started {s : Workspace} {now : Timestamp}
      (hs : s = .new settings.home now ∨ s = Seed.planted settings.home now) (disk : FileSystem)
      {repository : Option Repository}
      (hr : ∀ r ∈ repository, ∃ root author, r = .new root author) (draws : Draws) :
      Shelled settings ⟨⟨s, disk⟩, repository, .new settings s draws⟩
  | called {b : Studio FileSystem} (hb : Shelled settings b) (h : Host FileSystem)
      (call : DeskCall) : Shelled settings (call.after h settings b)
  | worked {b : Studio FileSystem} (hb : Shelled settings b) (h : Host FileSystem)
      (terminalId entryId : String) (job : Job) :
      Shelled settings (b.doJob h settings terminalId entryId job)

/-- All names and all working directories are plain. -/
structure Plain (home : String) (b : Studio FileSystem) : Prop where
  world : b.world.Plain home
  cwds : b.desk.Every fun t => IsSpelled t.cwd
  repository : ∀ r, b.repository = some r → Project.Plain home ⟨r, b.world⟩

theorem isSpelled_new (hhome : Path.IsHome settings.home) {s : Workspace} (hs : s.arena.IsTree)
    (id name : String) (shell : Shell) : IsSpelled (Terminal.new settings s id name shell "").cwd :=
  Workspace.isSpelled_settle hs hhome.spelled

namespace Plain

theorem started (hhome : Path.IsHome settings.home) {s : Workspace} {now : Timestamp}
    (hs : s = .new settings.home now ∨ s = Seed.planted settings.home now) (disk : FileSystem)
    {repository : Option Repository}
    (hr : ∀ r ∈ repository, ∃ root author, r = .new root author) (draws : Draws) :
    Plain settings.home ⟨⟨s, disk⟩, repository, .new settings s draws⟩ := by
  have hworld : World.Plain settings.home ⟨s, disk⟩ := by
    rcases hs with rfl | rfl
    · exact Seed.plain_new settings.home now disk
    · refine Seed.plain_planted ?_ now disk
      obtain ⟨names, hn, hp, he⟩ := hhome.spelled
      rw [he, Path.absolute_of_strip (Path.strip_ofNames_of_isPlain hp.getLast?),
        Path.segments_ofNames hn]
      exact hp
  refine ⟨hworld, ?_, ?_⟩
  · exact Desk.Every.new (isSpelled_new hhome hworld.free.sound.tree) draws
  · intro r he
    obtain ⟨root, author, rfl⟩ := hr r he
    exact .new hworld root author

theorem world_after (hhome : Path.IsHome settings.home) (hb : b.Plain settings.home)
    (h : Host FileSystem) (call : DeskCall) :
    (call.after h settings b).world.Plain settings.home ∧
      (call.after h settings b).repository = b.repository := by
  cases call with
  | openTerminal shell front => exact ⟨hb.world, rfl⟩
  | close id =>
    dsimp only [DeskCall.after]
    split
    · exact ⟨hb.world, rfl⟩
    · exact ⟨hb.world, rfl⟩
  | activate id =>
    dsimp only [DeskCall.after]
    split
    · exact ⟨hb.world, rfl⟩
    · exact ⟨hb.world, rfl⟩
  | share word =>
    dsimp only [DeskCall.after]
    split
    · exact ⟨hb.world, rfl⟩
    · exact ⟨hb.world, rfl⟩
  | execute id line =>
    dsimp only [DeskCall.after]
    unfold Studio.execute
    split
    · exact ⟨hb.world, rfl⟩
    next t ht =>
    split
    · exact ⟨hb.world, rfl⟩
    · have hcwd := hb.cwds _ t (Desk.get_eq_ok_iff.1 ht)
      exact ⟨(Terminal.plain_execute hhome hb.world hcwd _ line).1, rfl⟩
  | clear id =>
    dsimp only [DeskCall.after]
    split
    · exact ⟨hb.world, rfl⟩
    · exact ⟨hb.world, rfl⟩
  | save path => exact ⟨hb.world.elsewhere _, rfl⟩

theorem after (hhome : Path.IsHome settings.home) (hb : b.Plain settings.home)
    (h : Host FileSystem) (call : DeskCall) : (call.after h settings b).Plain settings.home := by
  obtain ⟨hworld, hsame⟩ := hb.world_after hhome h call
  refine ⟨hworld, ?_, ?_⟩
  · apply DeskCall.every_after hb.cwds
    · exact isSpelled_new hhome hb.world.free.sound.tree
    · exact fun _ ht => ht
    · exact fun _ drawn line ht => (Terminal.plain_execute hhome hb.world ht drawn line).2
  · intro r hr
    exact ⟨hworld, (hb.repository r (hsame ▸ hr)).paths⟩

theorem doJob (hb : b.Plain settings.home) (h : Host FileSystem) (terminalId entryId : String)
    (job : Job) : (b.doJob h settings terminalId entryId job).Plain settings.home := by
  have hcwds : ∀ a, Desk.Every (fun t => IsSpelled t.cwd)
      { b.desk with table := b.desk.table.modify terminalId (·.complete entryId a) } :=
    fun a => hb.cwds.modify terminalId fun _ ht => ht
  unfold Studio.doJob
  dsimp only
  split
  · exact ⟨hb.world, hcwds _, hb.repository⟩
  · next verb args r hr =>
    have hproject := (hb.repository r hr).called (Versioning.called_run h b.world r verb args)
    refine ⟨hproject.world, hcwds _, ?_⟩
    intro r' hr'
    obtain rfl := Option.some.inj hr'
    exact hproject
  · exact ⟨hb.world, hcwds _, hb.repository⟩

end Plain

theorem Shelled.plain (hhome : Path.IsHome settings.home) (hb : b.Shelled settings) :
    b.Plain settings.home := by
  induction hb with
  | started hs disk hr draws => exact .started hhome hs disk hr draws
  | called _ h call ih => exact ih.after hhome h call
  | worked _ h terminalId entryId job ih => exact ih.doJob h terminalId entryId job

/-- In a workspace that is only used through terminals, a command is carried out in a directory that
is named by its own path: that of the working directory of its terminal, or the longest part of it
that is left. And one `cd` after another leads where both lead at once. -/
theorem settled_of_shelled (hhome : Path.IsHome settings.home) (hb : b.Shelled settings)
    {id : String} {t : Terminal} (ht : b.desk.table.get? id = some t)
    (bench : Terminal.Bench FileSystem) :
    (∀ line, let cwd := (t.dispatched b.world.space line).cwd
      (∀ word args command drawn, Text.words line = word :: args →
        Command.ofText? (Text.lower word) = some command →
          let turn := (t.dispatched b.world.space line).carryOut bench b.world command args
          (t.execute bench b.world drawn line).world = turn.world ∧
            (t.execute bench b.world drawn line).terminal.cwd = turn.cwd) ∧
      b.world.space.HasDirectory cwd ∧ (b.world.space.HasDirectory t.cwd → cwd = t.cwd) ∧
      (¬ b.world.space.HasDirectory t.cwd → ∃ names k, AreNames names ∧
        t.cwd = Path.ofNames names ∧ k < names.length ∧ cwd = Path.ofNames (names.take k) ∧
        ∀ j, k < j → j < names.length →
          ¬ b.world.space.HasDirectory (Path.ofNames (names.take j)))) ∧
    ∀ x y z p q drawn drawn', Text.words x = ["cd", p] → Text.words y = ["cd", q] →
      Text.words z = ["cd", p ++ "/" ++ q] → Path.IsRelative q →
        let one := t.execute bench b.world drawn x
        let two := one.terminal.execute bench one.world drawn' y
        let both := t.execute bench b.world drawn z
        (one.result.isError = false ∧ two.result.isError = false ↔ both.result.isError = false) ∧
          (both.result.isError = false → two.terminal.cwd = both.terminal.cwd) := by
  have hplain := hb.plain hhome
  have hcwd := hplain.cwds id t ht
  refine ⟨fun line => ⟨?_, hplain.world.settle hcwd⟩, ?_⟩
  · intro word args command drawn hwords hcommand
    exact Terminal.execute_dispatched hwords hcommand bench b.world drawn
  · intro x y z p q drawn drawn' hx hy hz hq
    exact hplain.world.cd_join hhome hx hy hz hq bench drawn drawn'

/-- The demo tree and one terminal. -/
def demoStudio : Studio FileSystem :=
  ⟨⟨Seed.planted (Settings.home {}) default, {}⟩, none,
    .new {} (Seed.planted (Settings.home {}) default) {}⟩

theorem shelled_demoStudio : demoStudio.Shelled {} := by
  have hr : ∀ r ∈ (none : Option Repository), ∃ root author, r = Repository.new root author := by
    intro r hr
    cases hr
  exact .started (.inr rfl) {} hr {}

/-- A terminal goes to a directory, and another one removes it. -/
def removedStudio : Studio FileSystem :=
  DeskCall.after ⟨none, default⟩ {}
    (DeskCall.after ⟨none, default⟩ {}
      (DeskCall.after ⟨none, default⟩ {} demoStudio (.execute none "cd Projects"))
      (.openTerminal none true))
    (.execute none "rm -r Projects")

def removedBench : Terminal.Bench FileSystem := ⟨⟨none, default⟩, {}, false⟩

/-- The terminal that has lost its directory. -/
def strandedTerminal : Terminal :=
  (removedStudio.desk.table.get? "t1").get (by decide +kernel)

theorem settled_strandedTerminal :
    let space := removedStudio.world.space
    let both := strandedTerminal.execute removedBench removedStudio.world 0 "cd ../user/Documents"
    removedStudio.Shelled {} ∧ strandedTerminal.cwd = "/home/user/Projects" ∧
      (strandedTerminal.dispatched space "pwd").cwd = "/home/user" ∧
      space.HasDirectory "/home/user" ∧ both.terminal.cwd = "/home/user/Documents" ∧
      ∃ one two : Terminal.Execution FileSystem,
        one = strandedTerminal.execute removedBench removedStudio.world 0 "cd .." ∧
        two = one.terminal.execute removedBench one.world 1 "cd user/Documents" ∧
        two.terminal.cwd = "/home/user/Documents" := by
  have hshelled : removedStudio.Shelled {} :=
    .called (.called (.called shelled_demoStudio _ _) _ _) _ _
  have ht : removedStudio.desk.table.get? "t1" = some strandedTerminal := by
    rw [strandedTerminal, Option.some_get]
  have hhome : Path.IsHome (Settings.home {}) := Path.isHome_user
  obtain ⟨hline, hcd⟩ := settled_of_shelled hhome hshelled ht removedBench
  obtain ⟨-, hdir, -⟩ := hline "pwd"
  have hcwd : (strandedTerminal.dispatched removedStudio.world.space "pwd").cwd = "/home/user" := by
    decide +kernel
  have hboth : (strandedTerminal.execute removedBench removedStudio.world 0
      "cd ../user/Documents").result.isError = false ∧
      (strandedTerminal.execute removedBench removedStudio.world 0
        "cd ../user/Documents").terminal.cwd = "/home/user/Documents" := by
    decide +kernel
  obtain ⟨-, hsame⟩ := hcd "cd .." "cd user/Documents" "cd ../user/Documents" ".." "user/Documents"
    0 1 (by decide) (by decide) (by decide) (by decide)
  refine ⟨hshelled, by decide +kernel, hcwd, hcwd ▸ hdir, hboth.2, _, _, rfl, rfl, ?_⟩
  exact (hsame hboth.1).trans hboth.2

end Studio

end Workbench
