import Workbench.Proofs.World.Deletion

/-!
# Bytes on the local disk

What the operations of a workspace on the local disk do to the files that are there. Most of them
leave the bytes of every file alone, or take the file elsewhere as it is. `touch` and `copy` write
what the workspace remembers of a file, and that need not be what the disk holds: the listing leaves
out the content of large files and replaces what is not text, and the file may have changed since.
So these two keep the bytes exactly when what is remembered of the files they write is true.
-/

namespace Workbench

variable {σ : Type}

/-- What is remembered of a file is what the disk holds, if the disk holds it. -/
def World.Remembers (w : World FileSystem) (n : Node) : Prop :=
  ∀ b, w.disk.read (w.nodePath n.id) = .ok b → b = Text.octets n.content

namespace Operation

/-- The old and the new path of a node that an operation takes elsewhere. -/
def takes? (w : World σ) : Operation → Option (String × String)
  | rename id name => renamed? id name
  | update id changes => changes.name.bind (renamed? id)
  | move id targetId name =>
    (w.space.node? id).bind fun n => (w.space.node? targetId).map fun d =>
      (w.nodePath id, w.diskPath (w.placeIn d (name.getD n.name)))
  | _ => none
where
  renamed? (id : NodeId) (name : String) : Option (String × String) :=
    (w.space.parent? id).map fun d => (w.nodePath id, w.diskPath (w.placeIn d name))

/-- Where what is at a place of the disk is after an operation has taken a node elsewhere. -/
def carries (w : World FileSystem) (op : Operation) (r : Place) : Place :=
  match op.takes? w with
  | none => r
  | some (old, new) =>
    match w.disk.placeOf .stay old, w.disk.placeOf .stay new with
    | .ok p, .ok q => FileSystem.rebased p q r
    | _, _ => r

/-- Where an operation leaves what is at a place of the disk, unless it deletes it. -/
def goes? (w : World FileSystem) : Operation → Place → Option Place
  | delete id _, r =>
    match w.disk.placeOf .stay (w.nodePath id) with
    | .ok p => if p.isSuffixOf r then none else some r
    | .error _ => some r
  | op, r => some (op.carries w r)

/-- The files that an operation writes as they are remembered. -/
def rewrites (w : World σ) : Operation → List Node
  | touch id => (w.space.node? id).toList.filter Node.isFile
  | copy id _ _ => (w.space.walk id).filter Node.isFile
  | _ => []

/-- The files that an operation makes out of others, each with its path. -/
def makes (w : World σ) : Operation → List (Node × String)
  | copy id targetId name =>
    match w.space.node? id, w.space.node? targetId with
    | some top, some d =>
      ((w.space.walk id).filter Node.isFile).map fun n =>
        (n, w.diskPath (w.placeIn d (name.getD top.name) ++
          (w.space.arena.namesTo n.id).drop (w.space.arena.namesTo id).length))
    | _, _ => []
  | _ => []

/-- Every file that an operation does not delete has its bytes where the operation leaves it, and
every file that it makes has the bytes of its source. -/
structure KeepsBytes (w : World FileSystem) (op : Operation) (w' : World FileSystem) : Prop where
  kept : ∀ {r b}, w.disk.item? r = some (.file b) → ∀ r' ∈ op.goes? w r,
    w'.disk.item? r' = some (.file b)
  made : ∀ {n path}, (n, path) ∈ op.makes w → ∀ {b}, w.disk.read (w.nodePath n.id) = .ok b →
    w'.disk.read path = .ok b

end Operation

namespace World

variable {limits : LocalLimits} {now : Timestamp} {w w' : World FileSystem} {id : NodeId}
  {n : Node} {calls : List DiskCall} {op : Operation}

/-! ## Operations that add files and directories -/

theorem boundRoot_create {σ : Type} (h : Host σ) (w : World σ) (kind : NodeKind) (name : String)
    (parentId : NodeId) (content : String) :
    (w.create h kind name parentId content).2.space.boundRoot = w.space.boundRoot := by
  rcases he : w.create h kind name parentId content with ⟨a, w'⟩
  cases create_ends he with
  | rejected | added | unlisted => rfl
  | @failed d _ _ _ _ _ _ hw | @written d _ _ _ _ _ _ hw =>
    have hroot := h.boundRoot_writeThrough w (w.creation kind d name content) []
    rwa [hw] at hroot

theorem growsTo_of_create {kind : NodeKind} {name content : String} {parentId : NodeId}
    (hb : w.space.boundRoot.isSome)
    (h : w.create (LocalDisk.host limits now) kind name parentId content = (.ok n, w')) :
    w.disk.GrowsTo w'.disk := by
  cases create_ends h with
  | added _ hf => simp [hf] at hb
  | written _ _ _ hw =>
    obtain ⟨a, ha⟩ := LocalDisk.done_of_writeThrough hw
    cases kind with
    | file => exact (LocalDisk.done_of_createFile ha).1
    | directory => exact (LocalDisk.done_of_createDirectory ha).1

theorem growsTo_of_ensureBelow (hb : w.space.boundRoot.isSome) {segments : List String}
    (h : w.ensureBelow (LocalDisk.host limits now) segments id = (.ok n, w')) :
    w.disk.GrowsTo w'.disk := by
  induction segments generalizing w id with
  | nil =>
    have hw := answer_snd w id
    rw [ensureBelow] at h
    rw [h] at hw
    rw [← hw]
    exact .refl _
  | cons segment rest ih =>
    cases ensureBelow_ends h with
    | here _ _ hr | above _ _ hr | below _ _ _ hr => exact ih hb hr
    | made _ _ hm hr =>
      have hroot := boundRoot_create (LocalDisk.host limits now) w .directory segment id ""
      rw [hm] at hroot
      have hroot : _ = w.space.boundRoot := hroot
      exact (growsTo_of_create hb hm).trans (ih (by rwa [hroot]) hr)

theorem growsTo_of_ensureDirectories (hb : w.space.boundRoot.isSome) {path cwd : String}
    (h : w.ensureDirectories (LocalDisk.host limits now) path cwd = (.ok n, w')) :
    w.disk.GrowsTo w'.disk := by
  unfold ensureDirectories at h
  split at h
  · cases h
  · exact growsTo_of_ensureBelow hb h

/-! ## Copies -/

/-- Calls that create are all done: each file is read as it was given, and each directory is
found. -/
theorem done_of_performAll
    (hc : ∀ call ∈ calls, (∃ parent name content, call = .createFile parent name content) ∨
      ∃ parent name, call = .createDirectory parent name)
    (h : (LocalDisk.host limits now).performAll w calls = (.ok (), w')) :
    w.disk.GrowsTo w'.disk ∧
      (∀ {parent name content}, .createFile parent name content ∈ calls →
        w'.disk.read (Disk.seenFrom parent name) = .ok (Text.octets content)) ∧
      ∀ {parent name}, .createDirectory parent name ∈ calls →
        ∃ p, w'.disk.stat (Disk.seenFrom parent name) = .ok (p, .directory) := by
  induction calls generalizing w with
  | nil =>
    obtain rfl : w = w' := (Prod.mk.inj h).2
    exact ⟨.refl _, fun h => (nomatch h), fun h => (nomatch h)⟩
  | cons call rest ih =>
    rw [Host.performAll] at h
    split at h
    · next w₁ he =>
      obtain ⟨a, ha⟩ := LocalDisk.done_of_host he
      obtain ⟨hgrows, hread, hstat⟩ := ih (fun c hm => hc c (List.mem_cons_of_mem _ hm)) h
      rcases hc call List.mem_cons_self with ⟨parent, name, content, rfl⟩ | ⟨parent, name, rfl⟩
      · obtain ⟨hg, hr⟩ := LocalDisk.done_of_createFile ha
        refine ⟨hg.trans hgrows, fun hm => ?_, fun hm => ?_⟩
        · rcases List.mem_cons.1 hm with he | hm
          · obtain ⟨rfl, rfl, rfl⟩ := DiskCall.createFile.inj he
            exact hgrows.read hr
          · exact hread hm
        · rcases List.mem_cons.1 hm with he | hm
          · cases he
          · exact hstat hm
      · obtain ⟨hg, p, hp⟩ := LocalDisk.done_of_createDirectory ha
        refine ⟨hg.trans hgrows, fun hm => ?_, fun hm => ?_⟩
        · rcases List.mem_cons.1 hm with he | hm
          · cases he
          · exact hread hm
        · rcases List.mem_cons.1 hm with he | hm
          · obtain ⟨rfl, rfl⟩ := DiskCall.createDirectory.inj he
            exact ⟨p, hgrows.stat hp⟩
          · exact hstat hm
    · cases h

/-- The call that copies a node. -/
theorem mem_copyCalls {p : Workspace.Placement} {rest : List String} (hs : w.space.arena.IsTree)
    (hname : Path.isName p.name = true) (htarget : w.space.arena.get? p.target.id = some p.target)
    (hn : w.space.arena.get? n.id = some n) (hin : n.id ∈ w.space.arena.subtreeIds p.node.id)
    (hrest : rest = (w.space.arena.namesTo n.id).drop (w.space.arena.namesTo p.node.id).length) :
    ∃ parent name,
      (n.kind = .file → DiskCall.createFile parent name n.content ∈ w.copyCalls p) ∧
      (n.kind = .directory → DiskCall.createDirectory parent name ∈ w.copyCalls p) ∧
      Disk.seenFrom parent name = w.diskPath (w.placeIn p.target p.name ++ rest) := by
  have hrestnames : Path.AreNames rest := fun s hm =>
    hs.isName_of_leads (hs.leads_namesTo hn) s (List.mem_of_mem_drop (hrest ▸ hm))
  have hnames : Path.AreNames (w.placeIn p.target p.name ++ rest) := by
    refine Path.AreNames.append_iff.2 ⟨Path.AreNames.append_iff.2 ⟨?_, ?_⟩, hrestnames⟩
    · exact hs.isName_of_leads (hs.leads_namesTo htarget)
    · exact Path.AreNames.singleton_iff.2 hname
  obtain ⟨above, last, hl⟩ : ∃ above last, w.placeIn p.target p.name ++ rest = above ++ [last] :=
    ⟨_, _, (List.dropLast_append_getLast (by simp [placeIn])).symm⟩
  have hcarried : (above ++ [last], n.id) ∈
      w.space.carriedTo p.node.id (w.placeIn p.target p.name) := by
    rw [← hl, hrest]
    exact List.mem_map.2 ⟨n.id, hin, rfl⟩
  refine ⟨w.diskPath above, last, fun hk => ?_, fun hk => ?_, ?_⟩
  · exact List.mem_filterMap.2 ⟨_, hcarried, by simp [Workspace.node?, hn, hk]⟩
  · exact List.mem_filterMap.2 ⟨_, hcarried, by simp [Workspace.node?, hn, hk]⟩
  · rw [hl] at hnames ⊢
    obtain ⟨habove, hlast⟩ := Path.AreNames.append_iff.1 hnames
    exact Disk.seenFrom_below _ habove (Path.AreNames.singleton_iff.1 hlast)

theorem creates_of_mem_copyCalls {p : Workspace.Placement} {call : DiskCall}
    (h : call ∈ w.copyCalls p) : (∃ parent name content, call = .createFile parent name content) ∨
      ∃ parent name, call = .createDirectory parent name := by
  obtain ⟨⟨place, i⟩, -, he⟩ := List.mem_filterMap.1 h
  obtain ⟨m, -, rfl⟩ := Option.map_eq_some_iff.1 he
  cases m.kind with
  | file => exact .inl ⟨_, _, _, rfl⟩
  | directory => exact .inr ⟨_, _, rfl⟩

theorem disk_of_copy (hs : w.space.Sound) (hb : w.space.boundRoot.isSome) {targetId : NodeId}
    {name : Option String}
    (h : w.copy (LocalDisk.host limits now) id targetId name = (.ok n, w')) :
    w.disk.GrowsTo w'.disk ∧
      ((Operation.copy id targetId name).makes w).map Prod.fst =
        (Operation.copy id targetId name).rewrites w ∧
      ∀ {m path}, (m, path) ∈ (Operation.copy id targetId name).makes w →
        w'.disk.read path = .ok (Text.octets m.content) := by
  cases copy_ends h with
  | copied _ hf => simp [hf] at hb
  | @written p _ w₁ _ _ hc _ _ he hr =>
  obtain ⟨hgrows, hread, -⟩ := done_of_performAll (fun _ hm => creates_of_mem_copyCalls hm) he
  have hdisk := LocalDisk.disk_of_resync limits now w₁ []
  rw [hr] at hdisk
  have hdisk : w'.disk = w₁.disk := hdisk
  rw [hdisk]
  have hp := Workspace.found_of_checkCopy hs.tree hc
  have hn : w.space.node? id = some p.node := hp.nodeId ▸ hp.node
  have hd : w.space.node? targetId = some p.target := hp.targetId ▸ hp.target
  refine ⟨hgrows, by simp [Operation.makes, Operation.rewrites, hn, hd, Function.comp_def],
    fun {m path} hm => ?_⟩
  simp only [Operation.makes, hn, hd, hp.name, List.mem_map, List.mem_filter] at hm
  obtain ⟨k, ⟨hk, hkfile⟩, he⟩ := hm
  obtain ⟨rfl, rfl⟩ := Prod.mk.inj he
  obtain ⟨i, hi, hk⟩ := List.mem_filterMap.1 hk
  obtain rfl := hs.tree.keyed hk
  obtain ⟨parent, last, hcall, -, hseen⟩ :=
    mem_copyCalls hs.tree hp.isName hp.target hk (hp.nodeId.symm ▸ hi) rfl
  rw [hp.nodeId] at hseen
  rw [← hseen]
  exact hread (hcall (Node.isFile_iff.1 hkfile))

/-! ## Operations that take files elsewhere or write them -/

/-- Every file goes with what is taken from an old path to a new one. -/
def Takes (w : World FileSystem) (old new : String) (w' : World FileSystem) : Prop :=
  ∃ p q, w.disk.placeOf .stay old = .ok p ∧ w.disk.placeOf .stay new = .ok q ∧
    ∀ {r b}, w.disk.item? r = some (.file b) →
      w'.disk.item? (FileSystem.rebased p q r) = some (.file b)

/-- A call that takes a node to a place has taken the files there. -/
theorem takes_of_relocate (hs : w.space.Sound) (hg : w.disk.Grounded)
    {p : Workspace.Placement} (hn : w.space.arena.get? p.node.id = some p.node)
    (hd : w.space.arena.get? p.target.id = some p.target) (hname : Path.isName p.name = true)
    {a : Option String}
    (h : LocalDisk.relocate w.disk (w.nodePath p.node.id) (w.diskPath (w.placeIn p.target p.name)) =
      (.ok (.done a), w'.disk)) :
    w.Takes (w.nodePath p.node.id) (w.diskPath (w.placeIn p.target p.name)) w' := by
  have hold : Path.AreNames (w.space.arena.namesTo p.node.id) :=
    hs.tree.isName_of_leads (hs.tree.leads_namesTo hn)
  have hnew : Path.AreNames (w.placeIn p.target p.name) :=
    Path.AreNames.append_iff.2 ⟨hs.tree.isName_of_leads (hs.tree.leads_namesTo hd),
      Path.AreNames.singleton_iff.2 hname⟩
  obtain ⟨x, y, hx, hy, -, hkept⟩ := LocalDisk.done_of_relocate hg h
  rw [nodePath, diskPath, Disk.tidied_below _ hold] at hx
  rw [diskPath, Disk.tidied_below _ hnew] at hy
  exact ⟨x, y, hx, hy, fun hr => hkept hr fun _ he => by cases he⟩

/-- The path of a node is that of its name in its directory. -/
theorem nodePath_eq (hs : w.space.Sound) (hn : w.space.arena.get? id = some n) {d : Node}
    (hd : w.space.arena.get? d.id = some d) (hp : n.parentId = some d.id) :
    w.nodePath id = w.diskPath (w.placeIn d n.name) := by
  have hl := Arena.Leads.child (hs.tree.leads_namesTo hd) hn hp
  rw [nodePath, (hs.tree.leads_iff hn).1 hl, placeIn]

theorem of_parent? {σ : Type} {w : World σ} (hs : w.space.Sound)
    (hn : w.space.arena.get? id = some n) {d : Node} (hp : w.space.parent? id = some d) :
    w.space.arena.get? d.id = some d ∧ n.parentId = some d.id := by
  simp only [Workspace.parent?, Workspace.node?, hn, Option.bind_some,
    Option.bind_eq_some_iff] at hp
  obtain ⟨q, hq, hd⟩ := hp
  obtain rfl := hs.tree.keyed hd
  exact ⟨hd, hq⟩

theorem takes_of_relabel (hs : w.space.Sound) (hb : w.space.boundRoot.isSome)
    (hg : w.disk.Grounded) {p : Workspace.Placement}
    (hn : w.space.arena.get? p.node.id = some p.node)
    (hd : w.space.arena.get? p.target.id = some p.target) (hname : Path.isName p.name = true)
    (h : w.relabel (LocalDisk.host limits now) p = (.ok (), w')) :
    w.Takes (w.nodePath p.node.id) (w.diskPath (w.placeIn p.target p.name)) w' := by
  cases relabel_ends h with
  | renamed hf => simp [hf] at hb
  | written _ _ hw =>
    obtain ⟨a, ha⟩ := LocalDisk.done_of_writeThrough hw
    exact takes_of_relocate hs hg hn hd hname ha

theorem MarkEnds.disk_eq {σ : Type} {w w' : World σ} {changes : NodeUpdate}
    {a : Except Setback Node} (hm : MarkEnds w id changes a w') : w'.disk = w.disk := by
  cases hm <;> rfl

/-- An update takes the files of a node that gets another name, and leaves the disk otherwise. -/
theorem disk_of_update (hs : w.space.Sound) (hb : w.space.boundRoot.isSome)
    (hg : w.disk.Grounded) {changes : NodeUpdate}
    (h : w.update (LocalDisk.host limits now) id changes = (.ok n, w')) :
    (∃ old new, (Operation.update id changes).takes? w = some (old, new) ∧ w.Takes old new w') ∨
      w'.disk = w.disk ∧ ((Operation.update id changes).takes? w = none ∨
        ∃ old, (Operation.update id changes).takes? w = some (old, old)) := by
  cases update_ends h with
  | @marked m _ _ hc hmark =>
    obtain ⟨hm, hname⟩ := Workspace.checkUpdate_none hc
    obtain rfl := hs.tree.keyed hm
    refine .inr ⟨hmark.disk_eq, ?_⟩
    cases hc : changes.name with
    | none => exact .inl (by rw [Operation.takes?, hc]; rfl)
    | some name =>
      cases hp : w.space.parent? m.id with
      | none => exact .inl (by simp [Operation.takes?, Operation.takes?.renamed?, hc, hp])
      | some d =>
        obtain rfl : name = m.name := (hname name hc).resolve_right (by simp [hp])
        obtain ⟨hd, hparent⟩ := of_parent? hs hm hp
        have hold := nodePath_eq hs hm hd hparent
        exact .inr ⟨_, by simp [Operation.takes?, Operation.takes?.renamed?, hc, hp, hold]; rfl⟩
  | @renamed m p w₁ _ _ hc he hmark =>
    obtain ⟨rfl, hm, hname, -, -, hpname, hparent, -⟩ := Workspace.checkUpdate_some hc
    obtain ⟨hn, -, hmay⟩ := Workspace.mayGo_of_checkUpdate hs.tree hc
    obtain rfl := hs.tree.keyed hm
    obtain ⟨hd, -⟩ := of_parent? hs hm hparent
    obtain ⟨x, y, hx, hy, hkept⟩ := takes_of_relabel hs hb hg hn hd hpname he
    refine .inl ⟨w.nodePath p.node.id, w.diskPath (w.placeIn p.target p.name), ?_, ?_⟩
    · simp [Operation.takes?, Operation.takes?.renamed?, hname, hparent]
    · exact ⟨x, y, hx, hy, fun hr => hmark.disk_eq ▸ hkept hr⟩

/-- A move takes the files of a node along, or finds the node where it is to go. -/
theorem disk_of_move (hs : w.space.Sound) (hb : w.space.boundRoot.isSome)
    (hg : w.disk.Grounded) {targetId : NodeId} {name : Option String}
    (h : w.move (LocalDisk.host limits now) id targetId name = (.ok n, w')) :
    ∃ old new, (Operation.move id targetId name).takes? w = some (old, new) ∧
      (w.Takes old new w' ∨ old = new ∧ w'.disk = w.disk) := by
  have taken : ∀ {p : Workspace.Placement}, p.Found w.space id targetId name →
      (Operation.move id targetId name).takes? w =
        some (w.nodePath p.node.id, w.diskPath (w.placeIn p.target p.name)) := by
    intro p hp
    have hn : w.space.node? id = some p.node := hp.nodeId ▸ hp.node
    have hd : w.space.node? targetId = some p.target := hp.targetId ▸ hp.target
    simp [Operation.takes?, hn, hd, hp.name, hp.nodeId]
  cases move_ends h with
  | kept hc hsame =>
    have hp := Workspace.found_of_checkMove hs.tree hc
    simp only [Workspace.Placement.isSame, Bool.and_eq_true, beq_iff_eq] at hsame
    have hplace := nodePath_eq hs hp.node hp.target hsame.1.symm
    exact ⟨_, _, taken hp, .inr ⟨hsame.2 ▸ hplace, rfl⟩⟩
  | moved _ _ hf => simp [hf] at hb
  | written hc _ _ _ hw =>
    have hp := Workspace.found_of_checkMove hs.tree hc
    obtain ⟨a, ha⟩ := LocalDisk.done_of_writeThrough hw
    refine ⟨_, _, taken hp, .inl (takes_of_relocate hs hg hp.node hp.target hp.isName (a := a) ?_)⟩
    unfold relocation at ha
    split at ha <;> exact ha

/-- Touching a file writes what is remembered of it to the place that its path leads to. -/
theorem disk_of_touch (hs : w.space.Sound) (hb : w.space.boundRoot.isSome)
    (h : w.touch (LocalDisk.host limits now) id = (.ok n, w')) :
    ∃ m, w.space.node? id = some m ∧
      (m.isFile = false ∧ w'.disk = w.disk ∨
        m.isFile = true ∧ ∃ p, w.disk.placeOf .follow (w.nodePath m.id) = .ok p ∧ p ≠ [] ∧
          w'.disk = w.disk.put p (.file (Text.octets m.content))) := by
  cases touch_ends h with
  | @touched m _ _ hm hk hw =>
    have hfile : m.isFile = false := Bool.eq_false_iff.2 fun hfile => by simp [hk hfile] at hb
    exact ⟨m, hm, .inl ⟨hfile, by rw [hw]⟩⟩
  | @rewritten m _ _ _ hm hfile hroot hset =>
    refine ⟨m, hm, .inr ⟨hfile, ?_⟩⟩
    cases setContent_ends hset with
    | refilled _ hf => cases hf.symm.trans hroot
    | written hc _ hw =>
      obtain ⟨hm', -⟩ := Workspace.requireFile_eq_ok_iff.1 hc
      obtain rfl := Option.some.inj (hm.symm.trans hm')
      obtain rfl := hs.tree.keyed hm
      obtain ⟨a, ha⟩ := LocalDisk.done_of_writeThrough hw
      obtain ⟨p, hp, hne, hd⟩ := LocalDisk.done_of_writeFile ha
      have hnames : Path.AreNames (w.space.arena.namesTo m.id) :=
        hs.tree.isName_of_leads (hs.tree.leads_namesTo hm)
      rw [nodePath, diskPath, Disk.tidied_below _ hnames] at hp
      exact ⟨p, hp, hne, hd⟩

/-! ## The bytes that are kept -/

theorem ok_of_answered {σ α β : Type} {f : α → β} {o : Outcome σ α} {b : β} {w' : World σ}
    (h : answered f o = (.ok b, w')) : ∃ a, o = (.ok a, w') := by
  obtain ⟨x, w₁⟩ := o
  cases x with
  | error e => cases (Prod.mk.inj h).1
  | ok a => exact ⟨a, by rw [← (Prod.mk.inj h).2]⟩

theorem carries_of_same (ht : op.takes? w = none ∨ ∃ old, op.takes? w = some (old, old))
    (r : Place) : op.carries w r = r := by
  unfold Operation.carries
  rcases ht with ht | ⟨old, ht⟩
  · rw [ht]
  · rw [ht]
    dsimp only
    cases w.disk.placeOf .stay old with
    | error f => rfl
    | ok p => exact FileSystem.rebased_self p r

theorem kept_of_takes {old new : String} (ht : op.takes? w = some (old, new))
    (hw : w.Takes old new w') {r : Place} {b : List Nat} (hr : w.disk.item? r = some (.file b)) :
    w'.disk.item? (op.carries w r) = some (.file b) := by
  obtain ⟨p, q, hp, hq, hkept⟩ := hw
  simp only [Operation.carries, ht, hp, hq]
  exact hkept hr

/-- An operation that takes nothing elsewhere and makes no copies keeps the bytes of files if it
only adds to the disk. -/
theorem keepsBytes_of_growsTo (ht : ∀ r, op.goes? w r = some r) (hm : op.makes w = [])
    (hg : w.disk.GrowsTo w'.disk) : op.KeepsBytes w w' := by
  refine ⟨fun {r b} hr r' hr' => ?_, fun {n path} hin => ?_⟩
  · rw [ht, Option.mem_def, Option.some.injEq] at hr'
    rw [← hr']
    exact hg.kept hr
  · rw [hm] at hin
    cases hin

theorem keepsBytes_of_disk (ht : ∀ r, op.goes? w r = some r) (hm : op.makes w = [])
    (hd : w'.disk = w.disk) : op.KeepsBytes w w' :=
  keepsBytes_of_growsTo ht hm (hd ▸ .refl _)

theorem keepsBytes_of_delete (hs : w.space.Sound) (hb : w.space.boundRoot.isSome)
    {recursive : Bool}
    (h : w.delete (LocalDisk.host limits now) id recursive = (.ok (), w')) :
    (Operation.delete id recursive).KeepsBytes w w' := by
  obtain ⟨place, hp, -, hdisk, -⟩ := deleted_of_delete hs hb h
  refine ⟨fun {r b} hr r' hr' => ?_, fun hin => (nomatch hin)⟩
  simp only [Operation.goes?, hp] at hr'
  split at hr'
  · cases hr'
  · next hout =>
    obtain rfl : r = r' := Option.some.inj hr'
    rw [hdisk, if_neg fun hsuffix => hout (List.isSuffixOf_iff_suffix.2 hsuffix)]
    exact hr

theorem keepsBytes_of_update (hs : w.space.Sound) (hb : w.space.boundRoot.isSome)
    (hg : w.disk.Grounded) {changes : NodeUpdate}
    (h : w.update (LocalDisk.host limits now) id changes = (.ok n, w')) :
    (Operation.update id changes).KeepsBytes w w' := by
  refine ⟨fun {r b} hr r' hr' => ?_, fun hin => (nomatch hin)⟩
  obtain rfl : (Operation.update id changes).carries w r = r' := Option.some.inj hr'
  rcases disk_of_update hs hb hg h with ⟨old, new, ht, hw⟩ | ⟨hd, ht⟩
  · exact kept_of_takes ht hw hr
  · rw [carries_of_same ht, hd]
    exact hr

theorem keepsBytes_of_move (hs : w.space.Sound) (hb : w.space.boundRoot.isSome)
    (hg : w.disk.Grounded) {targetId : NodeId} {name : Option String}
    (h : w.move (LocalDisk.host limits now) id targetId name = (.ok n, w')) :
    (Operation.move id targetId name).KeepsBytes w w' := by
  refine ⟨fun {r b} hr r' hr' => ?_, fun hin => (nomatch hin)⟩
  obtain rfl : (Operation.move id targetId name).carries w r = r' := Option.some.inj hr'
  obtain ⟨old, new, ht, hw | ⟨rfl, hd⟩⟩ := disk_of_move hs hb hg h
  · exact kept_of_takes ht hw hr
  · rw [carries_of_same (.inr ⟨old, ht⟩), hd]
    exact hr

/-- A copy adds files with what is remembered of their sources. -/
theorem keepsBytes_copy_iff (hs : w.space.Sound) (hb : w.space.boundRoot.isSome)
    {targetId : NodeId} {name : Option String}
    (h : w.copy (LocalDisk.host limits now) id targetId name = (.ok n, w')) :
    (Operation.copy id targetId name).KeepsBytes w w' ↔
      ∀ m ∈ (Operation.copy id targetId name).rewrites w, w.Remembers m := by
  obtain ⟨hgrows, hfiles, hmade⟩ := disk_of_copy hs hb h
  rw [← hfiles]
  constructor
  · intro hk m hm b hread
    obtain ⟨⟨m, path⟩, hin, rfl⟩ := List.mem_map.1 hm
    exact Except.ok.inj ((hk.made hin hread).symm.trans (hmade hin))
  · intro hr
    refine ⟨fun {r b} hf r' hr' => ?_, fun {m path} hin {b} hread => ?_⟩
    · obtain rfl : r = r' := Option.some.inj hr'
      exact hgrows.kept hf
    · rw [hmade hin, hr m (List.mem_map.2 ⟨(m, path), hin, rfl⟩) b hread]

/-- Touching a file keeps the bytes of the disk exactly when they are remembered. -/
theorem keepsBytes_touch_iff (hs : w.space.Sound) (hb : w.space.boundRoot.isSome)
    (h : w.touch (LocalDisk.host limits now) id = (.ok n, w')) :
    (Operation.touch id).KeepsBytes w w' ↔
      ∀ m ∈ (Operation.touch id).rewrites w, w.Remembers m := by
  obtain ⟨m, hm, ⟨hfile, hd⟩ | ⟨hfile, p, hp, hne, hd⟩⟩ := disk_of_touch hs hb h
  · refine iff_of_true (keepsBytes_of_disk (fun r => rfl) rfl hd) fun k hk => ?_
    simp [Operation.rewrites, hm, hfile] at hk
  · have hrewrites : (Operation.touch id).rewrites w = [m] := by
      simp [Operation.rewrites, hm, hfile]
    rw [hrewrites, List.forall_mem_singleton]
    constructor
    · intro hk b hread
      obtain ⟨q, hq, hfile⟩ := FileSystem.read_eq_ok_iff.1 hread
      obtain rfl := Except.ok.inj (hp.symm.trans hq)
      have hkept := hk.kept hfile p rfl
      rw [hd, FileSystem.item?_put hne, if_pos rfl] at hkept
      exact (FileItem.file.inj (Option.some.inj hkept)).symm
    · intro hr
      refine ⟨fun {r b} hf r' hr' => ?_, fun hin => (nomatch hin)⟩
      obtain rfl : r = r' := Option.some.inj hr'
      rw [hd, FileSystem.item?_put hne]
      split
      · next he =>
        subst he
        rw [hr b (FileSystem.read_eq_ok_iff.2 ⟨r, hp, hf⟩)]
      · exact hf

theorem disk_openTab (w : World FileSystem) (id : NodeId) : (w.openTab id).2.disk = w.disk := by
  rcases he : w.openTab id with ⟨a, w'⟩
  cases openTab_ends he <;> rfl

theorem disk_bind (h : Host FileSystem) (w : World FileSystem) (root : String) :
    (w.bind h root).2.disk = (h.list w root).2.disk := by
  rcases he : w.bind h root with ⟨a, w'⟩
  cases bind_ends he with
  | unlisted hl => rw [hl]
  | bound hl hw => rw [hl, hw]

theorem disk_resync (h : Host FileSystem) (w : World FileSystem)
    (hb : w.space.boundRoot.isSome) : (w.resync h).2.disk = (h.resync w []).2.disk := by
  rcases he : w.resync h with ⟨a, w'⟩
  cases resync_ends he with
  | unbound hf => simp [hf] at hb
  | failed _ hr | rebuilt _ hr => rw [hr]

/-- An operation of a workspace on the local disk that succeeds, other than `setContent`, keeps the
bytes of every file that it does not delete, and gives every copy the bytes of its source, exactly
when what is remembered of the files that it writes is what the disk holds. -/
theorem keepsBytes_iff (hs : w.space.Sound) (hb : w.space.boundRoot.isSome)
    (hg : w.disk.Grounded) (hop : ∀ id content, op ≠ .setContent id content) {a : Answer}
    (h : op.run (LocalDisk.host limits now) w = (.ok a, w')) :
    op.KeepsBytes w w' ↔ ∀ m ∈ op.rewrites w, w.Remembers m := by
  have hnone : op.rewrites w = [] → op.KeepsBytes w w' →
      (op.KeepsBytes w w' ↔ ∀ m ∈ op.rewrites w, w.Remembers m) := by
    intro hnil hk
    exact iff_of_true hk fun m hm => by rw [hnil] at hm; cases hm
  cases op with
  | create kind name parentId content =>
    obtain ⟨n, h⟩ := ok_of_answered h
    exact hnone rfl (keepsBytes_of_growsTo (fun r => rfl) rfl (growsTo_of_create hb h))
  | ensureDirectories path cwd =>
    obtain ⟨n, h⟩ := ok_of_answered h
    exact hnone rfl (keepsBytes_of_growsTo (fun r => rfl) rfl (growsTo_of_ensureDirectories hb h))
  | delete id recursive =>
    obtain ⟨_, h⟩ := ok_of_answered h
    exact hnone rfl (keepsBytes_of_delete hs hb h)
  | rename id name =>
    obtain ⟨n, h⟩ := ok_of_answered h
    obtain ⟨hkept, -⟩ := keepsBytes_of_update hs hb hg h
    exact hnone rfl ⟨hkept, fun hin => (nomatch hin)⟩
  | update id changes =>
    obtain ⟨n, h⟩ := ok_of_answered h
    exact hnone rfl (keepsBytes_of_update hs hb hg h)
  | move id targetId name =>
    obtain ⟨n, h⟩ := ok_of_answered h
    exact hnone rfl (keepsBytes_of_move hs hb hg h)
  | copy id targetId name =>
    obtain ⟨n, h⟩ := ok_of_answered h
    exact keepsBytes_copy_iff hs hb h
  | setContent id content => exact absurd rfl (hop id content)
  | touch id =>
    obtain ⟨n, h⟩ := ok_of_answered h
    exact keepsBytes_touch_iff hs hb h
  | openTab id =>
    obtain ⟨n, h⟩ := ok_of_answered h
    have hd := disk_openTab w id
    rw [h] at hd
    exact hnone rfl (keepsBytes_of_disk (fun r => rfl) rfl hd)
  | closeTab id =>
    obtain rfl := (Prod.mk.inj h).2
    exact hnone rfl (keepsBytes_of_disk (fun r => rfl) rfl rfl)
  | closeAllTabs =>
    obtain rfl := (Prod.mk.inj h).2
    exact hnone rfl (keepsBytes_of_disk (fun r => rfl) rfl rfl)
  | bind root =>
    obtain ⟨n, h⟩ := ok_of_answered h
    have hd := (disk_bind _ w root).trans (LocalDisk.disk_of_list limits now w root)
    rw [h] at hd
    exact hnone rfl (keepsBytes_of_disk (fun r => rfl) rfl hd)
  | unbind =>
    obtain rfl := (Prod.mk.inj h).2
    exact hnone rfl (keepsBytes_of_disk (fun r => rfl) rfl rfl)
  | resync =>
    obtain ⟨n, h⟩ := ok_of_answered h
    have hd := (disk_resync _ w hb).trans (LocalDisk.disk_of_resync limits now w [])
    rw [h] at hd
    exact hnone rfl (keepsBytes_of_disk (fun r => rfl) rfl hd)

/-! ## A file that is too large to be read -/

/-- A disk with a file of ten octets. -/
def digitsDisk : FileSystem where
  items := .ofList [(["big.txt"], .file [48, 49, 50, 51, 52, 53, 54, 55, 56, 57])]

/-- A workspace bound to it over a bridge that reads files below a size. -/
def digitsWorld (limit : Int) : World FileSystem :=
  (World.bind (LocalDisk.host { maxFileBytes := limit } default)
    ⟨.new "/home/user" default, digitsDisk⟩ "/").2

theorem sound_digitsWorld : (digitsWorld 11).space.Sound := by
  have hw : (digitsWorld 11).space = (Workspace.new "/home/user" default).bound "/"
      [.file "big.txt" "0123456789" 10 default] default := by decide +kernel
  rw [hw]
  refine .bound ⟨by simp, fun e he => ?_⟩ _ _
  obtain rfl := List.mem_singleton.1 he
  exact .file (by decide)

theorem grounded_digitsWorld : (digitsWorld 11).disk.Grounded := by
  have hd : (digitsWorld 11).disk = digitsDisk := by decide +kernel
  rw [hd]
  intro name above i hi
  have hin : (name :: above, i) ∈ digitsDisk.items.entries := Table.mem_entries_iff.2 hi
  obtain ⟨he, -⟩ := Prod.mk.inj (List.mem_singleton.1 hin)
  obtain rfl := (List.cons.inj he).2
  rfl

/-- A file that is read whole keeps its octets when it is touched. -/
theorem keepsBytes_digits : ∃ a w', (Operation.touch "n1").run
    (LocalDisk.host { maxFileBytes := 11 } default) (digitsWorld 11) = (.ok a, w') ∧
      (Operation.touch "n1").KeepsBytes (digitsWorld 11) w' := by
  have hread : ∀ m ∈ (Operation.touch "n1").rewrites (digitsWorld 11),
      (digitsWorld 11).disk.read ((digitsWorld 11).nodePath m.id) =
        .ok (Text.octets m.content) := by
    decide +kernel
  obtain ⟨a, ha⟩ : ∃ a, ((Operation.touch "n1").run
      (LocalDisk.host { maxFileBytes := 11 } default) (digitsWorld 11)).1 = .ok a :=
    exists_of_isOk (by decide +kernel)
  have he : (Operation.touch "n1").run (LocalDisk.host { maxFileBytes := 11 } default)
      (digitsWorld 11) = (.ok a, _) := Prod.ext ha rfl
  have hop : ∀ id content, Operation.touch "n1" ≠ .setContent id content := fun _ _ => nofun
  refine ⟨a, _, he, (keepsBytes_iff sound_digitsWorld (by decide +kernel) grounded_digitsWorld hop
    he).2 fun m hm b hb => ?_⟩
  exact (Except.ok.inj ((hread m hm).symm.trans hb)).symm

/-- One that is too large for that is emptied. -/
theorem not_kept_digits :
    digitsDisk.item? ["big.txt"] = some (.file [48, 49, 50, 51, 52, 53, 54, 55, 56, 57]) ∧
      ((Operation.touch "n1").run (LocalDisk.host { maxFileBytes := 5 } default)
        (digitsWorld 5)).1.isOk = true ∧
      ((Operation.touch "n1").run (LocalDisk.host { maxFileBytes := 5 } default)
        (digitsWorld 5)).2.disk.item? ["big.txt"] = some (.file []) := by
  decide +kernel

end World

end Workbench
