import Workbench.Proofs.Terminal.Named
import Workbench.Proofs.World.Copied

/-!
# Where copies of files go

`cp` chooses a directory and a name for the copy, and then looks the name up as a path, seen from
the path of the directory, for a file to overwrite. That file need not be the child of the name: a
path is read without the blanks around it, and a tilde stands for the home directory. What the
command does then is told by the two nodes, the one that is looked up and the child
(`Change.cpTo_cases`), and the copy goes where it should, and nowhere else, exactly when they are
the same or the difference does not matter (`Change.delivers_iff_of_reachable`).
-/

namespace Workbench

open Text (IsToken)

/-! ## What the two changes of a tree do to the files -/

theorem Node.shown_eq_some_iff {n : Node} {text : String} :
    n.shown = some text ↔ n.kind = .file ∧ n.content = text := by
  rw [shown]
  split
  · next hk => simp [Node.isFile_iff.1 hk]
  · next hk => exact iff_of_false (by simp) fun hfile => hk (Node.isFile_iff.2 hfile.1)

namespace Workspace

variable {s s' : Workspace} {id t x y : NodeId} {n d e c m : Node} {name content : String}
  {now : Timestamp} {twin : NodeId → NodeId}

/-- What becomes of a node when a file gets another content. -/
def refill (id : NodeId) (content : String) (now : Timestamp) (n : Node) : Node :=
  if n.id = id then n.withContent content now else n

theorem refill_id (id : NodeId) (content : String) (now : Timestamp) (n : Node) :
    (refill id content now n).id = n.id := by
  unfold refill
  split <;> rfl

theorem shown_refill (hk : n.kind = .file) (id : NodeId) (content : String) (now : Timestamp) :
    (refill id content now n).shown = if n.id = id then some content else n.shown := by
  unfold refill
  split
  · have hfile : (n.withContent content now).isFile = true := Node.isFile_iff.2 hk
    rw [Node.shown, if_pos hfile]
    rfl
  · rfl

theorem node?_refilled (h : s.arena.IsTree) (id : NodeId) (content : String) (now : Timestamp)
    (y : NodeId) : (s.refilled id content now).node? y =
      (s.node? y).map (refill id content now) := by
  rw [node?, refilled, Table.get?_modify]
  by_cases hy : y = id
  · subst hy
    rw [if_pos rfl]
    exact Option.map_congr fun n hn => (if_pos (h.keyed hn)).symm
  · rw [if_neg hy]
    cases hn : s.node? y with
    | none => exact hn
    | some n =>
      have hne : n.id ≠ id := fun he => hy ((h.keyed hn).symm.trans he)
      rw [Option.map_some, refill, if_neg hne]
      exact hn

/-- A directory has the children that it had, with the other content. -/
theorem childNamed?_refilled (h : s.arena.IsTree) (id : NodeId) (content : String)
    (now : Timestamp) (d : Node) (name : String) :
    (s.refilled id content now).arena.childNamed? d name =
      (s.arena.childNamed? d name).map (refill id content now) := by
  have hchildren : (s.refilled id content now).arena.childrenOf d =
      (s.arena.childrenOf d).map (refill id content now) := by
    rw [Arena.childrenOf, Arena.childrenOf, List.map_filterMap]
    exact List.filterMap_congr fun y _ => node?_refilled h id content now y
  have hname : ((fun c : Node => c.name == name) ∘ refill id content now) =
      fun c => c.name == name := by
    funext c
    unfold refill
    simp only [Function.comp_apply]
    split <;> rfl
  rw [Arena.childNamed?, Arena.childNamed?, hchildren, List.find?_map, hname]

/-- A file has nothing below it. -/
theorem eq_of_below_file (h : s.arena.IsTree) (hn : s.node? x = some n) (hk : n.kind = .file)
    (hb : s.arena.AtOrBelow x y) : y = x := by
  obtain ⟨q, hl⟩ := h.exists_leads hn
  obtain ⟨m, hm⟩ := hb.exists_node hn
  obtain ⟨q', hl'⟩ := h.exists_leads hm
  obtain ⟨r, rfl⟩ := h.leads_below hb hl hl'
  by_cases hr : r = []
  · rw [hr, List.append_nil] at hl'
    exact h.leads_injective hl' hl
  · have hdir := h.shape.directory hr ⟨y, m, hl', hm, rfl⟩
    cases hk.symm.trans (Node.shown_eq_none_iff.1 ((h.shows_iff hl hn).1 hdir))

/-- The copy of a file is one new node, and no other shows anything else than before. -/
theorem Copied.shown (hc : s.Copied x t name now twin s') (h : s.arena.IsTree)
    (hn : s.node? x = some n) (hk : n.kind = .file) (hd : s.node? t = some d) (hy : y ≠ twin x) :
    (s'.node? y).map Node.shown = (s.node? y).map Node.shown := by
  by_cases hyt : y = t
  · subst hyt
    rw [hc.target hd, hd]
    rfl
  · cases hold : s.node? y with
    | some k => rw [hc.others hyt hold]
    | none =>
      cases hnew : s'.node? y with
      | none => rfl
      | some m =>
        rcases hc.only hnew with ⟨k, hk⟩ | ⟨z, hz, rfl⟩
        · cases hold.symm.trans hk
        · exact absurd (congrArg twin (eq_of_below_file h hn hk hz)) hy

/-- The file that a copy of a file overwrites. -/
def target? (s : Workspace) (source parent : Node) (name : String) : Option Node :=
  (s.resolve? name (s.pathOf parent.id)).filter fun e => e.isFile && e.id != source.id

/-- The file that is overwritten is the child of the name, or has the content of the source as the
child has it; and where none is overwritten, there is none to overwrite. -/
structure FindsTarget (s : Workspace) (source parent : Node) (name : String) : Prop where
  found : ∀ {e}, s.target? source parent name = some e →
    ∃ c, s.arena.childNamed? parent name = some c ∧
      (c = e ∨ c.kind = .file ∧ c.content = source.content ∧ e.content = source.content)
  missing : s.target? source parent name = none → ∀ {c}, s.arena.childNamed? parent name = some c →
    c.kind = .file → c.id = source.id

theorem findsTarget_iff_of_found (ht : s.target? source parent name = some e) :
    s.FindsTarget source parent name ↔ ∃ c, s.arena.childNamed? parent name = some c ∧
      (c = e ∨ c.kind = .file ∧ c.content = source.content ∧ e.content = source.content) := by
  refine ⟨fun hfinds => hfinds.found ht, fun hc => ⟨?_, ?_⟩⟩
  · intro e' he'
    obtain rfl := Option.some.inj (ht.symm.trans he')
    exact hc
  · intro hnone
    cases ht.symm.trans hnone

theorem findsTarget_iff_of_missing (ht : s.target? source parent name = none) :
    s.FindsTarget source parent name ↔ ∀ c, s.arena.childNamed? parent name = some c →
      c.kind = .file → c.id = source.id := by
  refine ⟨fun hfinds c => hfinds.missing ht, fun hc => ⟨?_, fun _ {c} => hc c⟩⟩
  intro e he
  cases ht.symm.trans he

end Workspace

namespace World

variable {σ : Type} {h : Host σ} {w w' : World σ} {source parent c d e m : Node} {name : String}
  {r : Reply}

/-- What is expected of a copy of a file to a name in a directory. -/
structure Delivers (w : World σ) (source parent : Node) (name : String) (r : Reply)
    (w' : World σ) : Prop where
  /-- If it succeeds, there is a file of the name with the content, and nothing else is
  different. -/
  delivered : r.isError = false → ∃ d m, w'.space.node? parent.id = some d ∧
    w'.space.arena.childNamed? d name = some m ∧ m.kind = .file ∧ m.content = source.content ∧
    ∀ y, y ≠ m.id → (w'.space.node? y).map Node.shown = (w.space.node? y).map Node.shown
  /-- A file of the name that is not the source does not keep it from succeeding, and stays. -/
  overwritten : ∀ {c}, w.space.arena.childNamed? parent name = some c → c.kind = .file →
    c.id ≠ source.id → r.isError = false ∧ ∃ d m, w'.space.node? parent.id = some d ∧
      w'.space.arena.childNamed? d name = some m ∧ m.id = c.id

theorem delivers_refused_iff (hr : r.isError = true) :
    w.Delivers source parent name r w ↔ ∀ c, w.space.arena.childNamed? parent name = some c →
      c.kind = .file → c.id = source.id := by
  constructor
  · intro hw c hc hk
    by_contra hne
    cases hr.symm.trans (hw.overwritten hc hk hne).1
  · intro hall
    refine ⟨fun hok => ?_, fun hc hk hne => absurd (hall _ hc hk) hne⟩
    cases hr.symm.trans hok

section Refilled

variable (hs : w.space.Sound) (hp : w.space.node? parent.id = some parent)
  (hpk : parent.kind = .directory) (he : w.space.node? e.id = some e) (hk : e.kind = .file)
include hs hp hpk he hk

/-- The directory itself is not what is overwritten. -/
theorem node?_refilled_parent (content : String) (now : Timestamp) :
    (w.space.refilled e.id content now).node? parent.id = some parent := by
  have hne : parent.id ≠ e.id := by
    intro hid
    rw [hid] at hp
    obtain rfl := Option.some.inj (hp.symm.trans he)
    cases hpk.symm.trans hk
  rw [Workspace.node?_refilled hs.tree, hp, Option.map_some, Workspace.refill, if_neg hne]

/-- If the copy has gone where it should, what was overwritten is the child of the name, or nothing
has become different. -/
theorem child_of_delivers {now : Timestamp}
    (hw : w.Delivers source parent name {}
      { w with space := w.space.refilled e.id source.content now }) :
    ∃ c, w.space.arena.childNamed? parent name = some c ∧
      (c = e ∨ c.kind = .file ∧ c.content = source.content ∧ e.content = source.content) := by
  have ht := hs.tree
  obtain ⟨d, m, hd, hm, hmk, hcontent, hframe⟩ := hw.delivered rfl
  obtain rfl := Option.some.inj
    ((node?_refilled_parent hs hp hpk he hk source.content now).symm.trans hd)
  have hchild := Workspace.childNamed?_refilled ht e.id source.content now parent name
  obtain ⟨c, hc, rfl⟩ := Option.map_eq_some_iff.1 (hchild.symm.trans hm)
  refine ⟨c, hc, ?_⟩
  have hcget := ((ht.childNamed?_eq_some_iff hp).1 hc).1
  by_cases hid : c.id = e.id
  · rw [hid] at hcget
    exact .inl (Option.some.inj (hcget.symm.trans he))
  · rw [Workspace.refill, if_neg hid] at hmk hcontent
    refine .inr ⟨hmk, hcontent, ?_⟩
    have hother := hframe e.id fun heq => hid (heq.trans (Workspace.refill_id ..)).symm
    rw [Workspace.node?_refilled ht, he, Option.map_some, Option.map_some, Option.map_some,
      Workspace.shown_refill hk, if_pos rfl, Node.shown, if_pos (Node.isFile_iff.2 hk)] at hother
    exact (Option.some.inj (Option.some.inj hother)).symm

theorem delivers_of_child (now : Timestamp)
    (hc : w.space.arena.childNamed? parent name = some c)
    (hcases : c = e ∨ c.kind = .file ∧ c.content = source.content ∧ e.content = source.content) :
    w.Delivers source parent name {}
      { w with space := w.space.refilled e.id source.content now } := by
  have ht := hs.tree
  have hcget := ((ht.childNamed?_eq_some_iff hp).1 hc).1
  have hck : c.kind = .file := hcases.elim (fun hce => hce ▸ hk) And.left
  have hparent := node?_refilled_parent hs hp hpk he hk source.content now
  have hm : (w.space.refilled e.id source.content now).arena.childNamed? parent name =
      some (Workspace.refill e.id source.content now c) := by
    rw [Workspace.childNamed?_refilled ht, hc, Option.map_some]
  have hshown : (Workspace.refill e.id source.content now c).shown = some source.content := by
    rw [Workspace.shown_refill hck]
    split
    · rfl
    · next hid =>
      obtain rfl | ⟨-, hcontent, -⟩ := hcases
      · exact absurd rfl hid
      · exact Node.shown_eq_some_iff.2 ⟨hck, hcontent⟩
  obtain ⟨hmk, hmcontent⟩ := Node.shown_eq_some_iff.1 hshown
  refine ⟨fun _ => ⟨parent, _, hparent, hm, hmk, hmcontent, fun y hy => ?_⟩,
    fun {c'} hc' _ _ => ?_⟩
  · rw [Workspace.refill_id] at hy
    rw [Workspace.node?_refilled ht, Option.map_map]
    refine Option.map_congr fun k hky => ?_
    rw [Function.comp_apply]
    by_cases hid : k.id = e.id
    · -- what is overwritten is not the child, and has the content already
      obtain rfl : k = e := by
        rw [← ht.keyed hky, hid] at hky
        exact Option.some.inj (hky.symm.trans he)
      obtain rfl | ⟨-, -, hcontent⟩ := hcases
      · exact absurd (ht.keyed hky).symm hy
      · rw [Workspace.shown_refill hk, if_pos rfl]
        exact (Node.shown_eq_some_iff.2 ⟨hk, hcontent⟩).symm
    · rw [Workspace.refill, if_neg hid]
  · obtain rfl := Option.some.inj (hc.symm.trans hc')
    exact ⟨rfl, parent, _, hparent, hm, Workspace.refill_id ..⟩

end Refilled

/-- Another content for a file in a free workspace is what `refilled` gives it. -/
theorem exists_setContent_of_file (hf : w.Free) (he : w.space.node? e.id = some e)
    (hk : e.kind = .file) (h : Host σ) (content : String) :
    ∃ m, w.setContent h e.id content =
      (.ok m, { w with space := w.space.refilled e.id content h.now }) := by
  have hrequired := Workspace.requireFile_eq_ok_iff.2 ⟨he, hk⟩
  have hafter := Workspace.node?_refilled hf.sound.tree e.id content h.now e.id
  rw [he] at hafter
  refine ⟨Workspace.refill e.id content h.now e, ?_⟩
  rcases he' : w.setContent h e.id content with ⟨a, w'⟩
  cases setContent_ends he' with
  | rejected hc => cases hrequired.symm.trans hc
  | failed _ hb | written _ hb => cases hf.unbound.symm.trans hb
  | refilled hc _ hw ha =>
    obtain rfl := Except.ok.inj (hrequired.symm.trans hc)
    subst hw
    rw [answer_eq_ok hafter] at ha
    rw [← ha]

theorem sound_of_copy {id t : NodeId} {name? : Option String} (hs : w.space.Sound)
    (hf : w.space.boundRoot = none) (he : w.copy h id t name? = (.ok m, w')) : w'.space.Sound := by
  cases copy_ends he with
  | written _ hb => cases hf.symm.trans hb
  | copied hc _ hw =>
    rw [hw]
    exact sound_of_checkCopy hs hc h.now

/-- A copy of a file that succeeds is what is expected, and there was no file to overwrite. -/
theorem delivers_of_copy (hs : w.space.Sound) (hf : w.space.boundRoot = none)
    (hn : w.space.node? source.id = some source) (hk : source.kind = .file)
    (hp : w.space.node? parent.id = some parent)
    (he : w.copy h source.id parent.id (some name) = (.ok m, w')) :
    w.Delivers source parent name {} w' ∧ w.space.arena.childNamed? parent name = none := by
  have ht := hs.tree
  obtain ⟨p, hc⟩ := checked_of_copy he
  obtain ⟨k, hk', hg⟩ := (Workspace.exists_checkCopy_iff ht).1 ⟨p, hc⟩
  obtain ⟨m', w'', he', -, n, twin, hnn, hm, hcopied⟩ := copy_of_checkCopy (h := h) hs hf hc
  obtain ⟨hmm, rfl⟩ := Prod.mk.inj (he.symm.trans he')
  obtain rfl := Except.ok.inj hmm
  obtain rfl := Option.some.inj (hn.symm.trans hnn)
  have hfree : w.space.arena.childNamed? parent name = none :=
    (ht.childNamed?_eq_none_iff hp).2 fun c m hm hmp => hg.free hm hmp
  have ht' := (sound_of_copy hs hf he).tree
  have htwin := hcopied.stored (.refl _ _) hn
  have hmt : m = Workspace.twinOf source.id parent.id name h.now twin source :=
    Option.some.inj (hm.symm.trans htwin)
  have hid : m.id = twin source.id := by rw [hmt]; rfl
  have hparent := hcopied.target hp
  have hchild : w'.space.arena.childNamed?
      { parent with children := parent.children ++ [twin source.id], modifiedAt := h.now } name =
        some m := by
    refine (ht'.childNamed?_eq_some_iff hparent).2 ⟨hid.symm ▸ hm, ?_, ?_⟩
    · rw [hmt]
      exact if_pos rfl
    · rw [hmt]
      exact if_pos rfl
  refine ⟨⟨fun _ => ⟨_, m, hparent, hchild, ?_, ?_, fun y hy => ?_⟩, fun hc => ?_⟩, hfree⟩
  · rw [hmt]
    exact hk
  · rw [hmt]
    rfl
  · exact hcopied.shown ht hn hk hp (hid ▸ hy)
  · cases hfree.symm.trans hc

end World

namespace Workspace

variable {s : Workspace} {source d : Node} {name : String}

/-- Seen from the path of a directory, a name finds the child of the name, if neither the name nor
the path is read as something else. -/
theorem resolve?_pathOf_name (h : s.arena.IsTree) (hd : s.node? d.id = some d)
    (hk : d.kind = .directory) (hn : Path.isName name = true) (hstrip : Text.strip name = name)
    (htilde : name ≠ "~") (hpath : Text.strip (s.pathOf d.id) = s.pathOf d.id) :
    s.resolve? name (s.pathOf d.id) = s.arena.childNamed? d name := by
  obtain ⟨hne, hdot, hdots, hslash⟩ := Path.isName_iff.1 hn
  obtain ⟨r, hr, -⟩ := h.root
  have hl := h.leads_namesTo hd
  have hnames : Path.AreNames (s.arena.namesTo d.id) := h.isName_of_leads hl
  have hdropped := Path.dropSlashes_of_isName hn
  have hrel : Path.IsRelative name :=
    Path.isRelative_of_dropSlashes (hdropped.symm ▸ hn) (hdropped.symm ▸ htilde)
  have hsolid : Text.isBlankText name = false := by
    rw [Bool.eq_false_iff]
    intro hb
    have hnone : name.toList.dropWhile Text.isBlank = [] :=
      List.dropWhile_eq_nil_iff.2 (List.all_eq_true.1 hb)
    rw [Text.strip, Text.trim, hnone] at hstrip
    exact hne hstrip.symm
  have hcwd : Path.absolute s.home (s.pathOf d.id) "/" = s.pathOf d.id :=
    Path.absolute_of_strip hpath _ _
  have hway : Path.segments (Path.absolute s.home name (s.pathOf d.id)) =
      s.arena.namesTo d.id ++ [name] := by
    rw [Path.segments_absolute_of_relative hstrip hrel, Path.segments_of_isName hn, pathOf,
      Arena.pathOf, Path.segments_ofNames hnames]
  rw [resolve?, Arena.resolve?, hr, Option.bind_some, Path.route, hsolid,
    if_neg Bool.false_ne_true, hcwd, ← Arena.follow?_filter]
  change s.arena.follow? (Path.segments _) r = _
  rw [hway, Arena.follow?_append, h.follow?_leads hl hr hd, Option.bind_some,
    Arena.follow?_child hk hne hdot hdots]
  cases s.arena.childNamed? d name <;> rfl

/-- A file is overwritten where it should, if the name and the path of the directory are read as
they are written. -/
theorem findsTarget_of_plain (h : s.arena.IsTree) (hd : s.node? d.id = some d)
    (hk : d.kind = .directory) (hn : Path.isName name = true) (hstrip : Text.strip name = name)
    (htilde : name ≠ "~") (hpath : Text.strip (s.pathOf d.id) = s.pathOf d.id) :
    s.FindsTarget source d name := by
  have hsame := resolve?_pathOf_name h hd hk hn hstrip htilde hpath
  constructor
  · intro e he
    rw [target?, hsame] at he
    exact ⟨e, (Option.filter_eq_some_iff.1 he).1, .inl rfl⟩
  · intro hnone c hc hck
    by_contra hne
    rw [target?, hsame, hc, Option.filter_some, if_pos] at hnone
    · cases hnone
    · simp [Node.isFile_iff.2 hck, hne]

end Workspace

/-! ## The command -/

namespace Change

variable {σ : Type} {t : Stage σ} {w w' : World σ} {args : List String} {here there : String}
  {source parent : Node} {name : String} {r : Reply}

/-- A copy in a free workspace is carried out, or there is an error and nothing has happened. -/
theorem silent_copy_cases (hf : w.Free) (h : Host σ) (id target : NodeId) (name : String)
    (onRefusal : Refusal → String) :
    (∃ r, r.isError = true ∧
      silent (w.copy h id target (some name)) onRefusal = (.ok r, w)) ∨
    ∃ m w', w.copy h id target (some name) = (.ok m, w') ∧
      silent (w.copy h id target (some name)) onRefusal = (.ok {}, w') := by
  cases hc : w.space.checkCopy id target (some name) with
  | error cause =>
    have he : w.copy h id target (some name) = (.error (.refused cause), w) := by
      rw [World.copy, hc]
      rfl
    rw [he, silent, sayOf, together_said_one]
    exact .inl ⟨_, rfl, rfl⟩
  | ok p =>
    obtain ⟨m, w', he, -⟩ := World.copy_of_checkCopy (h := h) hf.sound hf.unbound hc
    exact .inr ⟨m, w', he, by rw [he]; rfl⟩

/-- What `cp` does about a file: it overwrites another one, or copies the file if it can. -/
theorem cpTo_cases (hf : w.Free) (hk : source.kind = .file) (parent : Node)
    (name here there : String) :
    (∃ e, w.space.target? source parent name = some e ∧ w.space.node? e.id = some e ∧
      e.kind = .file ∧ cpTo t w source parent name here there =
        (.ok {}, { w with space := w.space.refilled e.id source.content t.host.now })) ∨
    w.space.target? source parent name = none ∧
      ((∃ r, r.isError = true ∧ cpTo t w source parent name here there = (.ok r, w)) ∨
        ∃ m w', w.copy t.host source.id parent.id (some name) = (.ok m, w') ∧
          cpTo t w source parent name here there = (.ok {}, w')) := by
  have hfile : source.isFile = true := Node.isFile_iff.2 hk
  unfold cpTo Workspace.target?
  dsimp only
  split
  · next hnone => exact .inr ⟨by rw [hnone]; rfl, silent_copy_cases hf ..⟩
  next e he =>
  rw [he, Option.filter_some, hfile, Bool.and_true]
  by_cases hsame : (e.id == source.id) = true
  · rw [if_pos hsame, if_neg (by simp [bne, hsame])]
    exact .inr ⟨rfl, .inl ⟨_, rfl, rfl⟩⟩
  rw [if_neg hsame]
  by_cases hek : e.isFile = true
  · rw [if_pos hek, if_pos (by simp [bne, hek, hsame])]
    have hget := Workspace.node?_of_resolve? hf.sound.tree he
    have hkind := Node.isFile_iff.1 hek
    obtain ⟨m, hm⟩ := World.exists_setContent_of_file hf hget hkind t.host source.content
    exact .inl ⟨e, rfl, hget, hkind, by rw [hm]; rfl⟩
  · rw [if_neg hek, if_neg (by simp [hek])]
    exact .inr ⟨rfl, silent_copy_cases hf ..⟩

theorem delivers_iff_of_cpTo (hf : w.Free) (hn : w.space.node? source.id = some source)
    (hk : source.kind = .file) (hp : w.space.node? parent.id = some parent)
    (hpk : parent.kind = .directory) (name here there : String) :
    ∃ r w', cpTo t w source parent name here there = (.ok r, w') ∧ (r.isError = true → w' = w) ∧
      (w.Delivers source parent name r w' ↔ w.space.FindsTarget source parent name) := by
  rcases cpTo_cases (t := t) hf hk parent name here there with
    ⟨e, htarget, he, hek, hcp⟩ | ⟨hnone, ⟨r, hr, hcp⟩ | ⟨m, w', hcopy, hcp⟩⟩
  · refine ⟨_, _, hcp, by simp, ?_⟩
    rw [Workspace.findsTarget_iff_of_found htarget]
    constructor
    · exact World.child_of_delivers hf.sound hp hpk he hek
    · rintro ⟨c, hc, hcases⟩
      exact World.delivers_of_child hf.sound hp hpk he hek _ hc hcases
  · refine ⟨r, w, hcp, fun _ => rfl, ?_⟩
    rw [World.delivers_refused_iff hr, Workspace.findsTarget_iff_of_missing hnone]
  · obtain ⟨hdelivers, hfree⟩ := World.delivers_of_copy hf.sound hf.unbound hn hk hp hcopy
    refine ⟨_, w', hcp, by simp, iff_of_true hdelivers ?_⟩
    rw [Workspace.findsTarget_iff_of_missing hnone]
    intro c hc
    cases hfree.symm.trans hc

theorem directory_of_destination? {c : Scene} (h : c.space.arena.IsTree)
    (hd : c.destination? source there = some (parent, name)) :
    c.space.node? parent.id = some parent ∧ parent.kind = .directory := by
  rcases destination?_cases hd with ⟨hd, hk, -⟩ | ⟨-, above, -, hd⟩
  · exact ⟨Workspace.node?_of_resolve? h hd, hk⟩
  · obtain ⟨hd, hk⟩ := Option.filter_eq_some_iff.1 hd
    exact ⟨Workspace.node?_of_resolve? h hd, Node.isDirectory_iff.1 hk⟩

/-- A copy of a file changes nothing when it reports an error, and it writes to its destination and
nowhere else exactly where it finds the file that is to be overwritten; so always where the name and
the path of the directory are read as they are written. -/
theorem delivers_iff_of_reachable (hr : w.Reachable) (hfree : w.space.boundRoot = none)
    (hops : Arguments.operands args = [here, there]) (t : Stage σ)
    (hs : w.space.resolve? here t.scene.cwd = some source) (hk : source.kind = .file) :
    ∃ r w', cp t w args = (.ok r, w') ∧ (r.isError = true → w' = w) ∧
      ((t.sceneIn w).destination? source there = none → r.isError = true) ∧
      ∀ {parent name}, (t.sceneIn w).destination? source there = some (parent, name) →
        (w.Delivers source parent name r w' ↔ w.space.FindsTarget source parent name) ∧
        (Path.isName name = true → Text.strip name = name → name ≠ "~" →
          Text.strip (w.space.pathOf parent.id) = w.space.pathOf parent.id →
          w.space.FindsTarget source parent name) := by
  have hf : w.Free := ⟨hfree, hr.sound⟩
  have ht := hf.sound.tree
  have hn := Workspace.node?_of_resolve? ht hs
  have hnot : source.isDirectory = false := by simp [Node.isDirectory, hk]
  unfold cp
  rw [hops]
  dsimp only
  have hs' : (t.sceneIn w).resolve? here = some source := hs
  rw [hs']
  dsimp only
  rw [hnot, Bool.false_and, if_neg Bool.false_ne_true]
  rcases hdest : (t.sceneIn w).destination? source there with _ | ⟨parent, name⟩
  · exact ⟨_, w, rfl, fun _ => rfl, fun _ => rfl, by simp⟩
  · obtain ⟨hp, hpk⟩ := directory_of_destination? (c := t.sceneIn w) ht hdest
    obtain ⟨r, w', hcp, herror, hiff⟩ :=
      delivers_iff_of_cpTo (t := t) hf hn hk hp hpk name here there
    refine ⟨r, w', hcp, herror, by simp, fun {p' n'} he => ?_⟩
    obtain ⟨rfl, rfl⟩ := Prod.mk.inj (Option.some.inj he)
    exact ⟨hiff, Workspace.findsTarget_of_plain ht hp hpk⟩

open World (memoryHost nestedWorld reachable_nestedWorld)

/-- A file is copied into a directory beside its own, under another name. -/
theorem delivers_nested : ∃ source parent w',
    nestedWorld.space.resolve? "a/c" "/" = some source ∧ source.kind = .file ∧
      (rootStage.sceneIn nestedWorld).destination? source "b/d" = some (parent, "d") ∧
      cp rootStage nestedWorld ["a/c", "b/d"] = (.ok {}, w') ∧
      nestedWorld.Delivers source parent "d" {} w' := by
  have hsource : (nestedWorld.space.resolve? "a/c" "/").map Node.kind = some .file := by
    decide +kernel
  have hplace : ((nestedWorld.space.resolve? "a/c" "/").bind fun n =>
      (rootStage.sceneIn nestedWorld).destination? n "b/d").map (fun p => (p.1.id, p.2)) =
        some ("n2", "d") := by decide +kernel
  have hsaid : (cp rootStage nestedWorld ["a/c", "b/d"]).1 = .ok {} := by decide +kernel
  have hpath : Text.strip (nestedWorld.space.pathOf "n2") = nestedWorld.space.pathOf "n2" := by
    decide +kernel
  obtain ⟨source, hs, hk⟩ := Option.map_eq_some_iff.1 hsource
  rw [hs, Option.bind_some] at hplace
  obtain ⟨⟨parent, name⟩, hdest, hpair⟩ := Option.map_eq_some_iff.1 hplace
  obtain ⟨hid, rfl⟩ := Prod.mk.inj hpair
  have hid : parent.id = "n2" := hid
  have hfree : nestedWorld.space.boundRoot = none := by decide +kernel
  have hops : Arguments.operands ["a/c", "b/d"] = ["a/c", "b/d"] := by decide
  obtain ⟨r, w', hcp, -, -, hall⟩ :=
    delivers_iff_of_reachable reachable_nestedWorld hfree hops rootStage hs hk
  obtain rfl : r = {} := by
    rw [hcp] at hsaid
    exact Except.ok.inj hsaid
  obtain ⟨hiff, hplain⟩ := hall hdest
  have hfinds := hplain (by decide) (by decide) (by decide) (hid.symm ▸ hpath)
  exact ⟨source, parent, w', hs, hk, hdest, hcp, hiff.2 hfinds⟩

/-- A workspace in which the home directory is a file, and another file beside it. -/
def filedWorld : World Unit :=
  let first := ((Operation.create .file "h" rootId "precious").run memoryHost
    ⟨.new "/h" default, ()⟩).2
  ((Operation.create .file "a" rootId "text").run memoryHost first).2

theorem reachable_filedWorld : filedWorld.Reachable :=
  .step (.step (.new _ _ _) World.lawful_memoryHost _) World.lawful_memoryHost _

/-- A copy to a tilde in the working directory overwrites what lies at the home directory. -/
theorem home_overwritten :
    filedWorld.Reachable ∧ filedWorld.space.boundRoot = none ∧
      (filedWorld.space.resolve? "a" "/").map (fun n => (n.id, n.kind)) = some ("n2", .file) ∧
      ((filedWorld.space.resolve? "a" "/").bind fun n =>
        (rootStage.sceneIn filedWorld).destination? n "./~").map (fun p => (p.1.id, p.2)) =
          some (rootId, "~") ∧
      (cp rootStage filedWorld ["a", "./~"]).1 = .ok {} ∧
      (((cp rootStage filedWorld ["a", "./~"]).2.space.node? rootId).bind fun d =>
        (cp rootStage filedWorld ["a", "./~"]).2.space.arena.childNamed? d "~") = none ∧
      (filedWorld.space.node? "n1").map Node.content = some "precious" ∧
      ((cp rootStage filedWorld ["a", "./~"]).2.space.node? "n1").map Node.content =
        some "text" :=
  ⟨reachable_filedWorld, by decide +kernel, by decide +kernel, by decide +kernel,
    by decide +kernel, by decide +kernel, by decide +kernel, by decide +kernel⟩

end Change

end Workbench
