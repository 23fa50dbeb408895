import Workbench.Proofs.Service.Reached
import Workbench.Proofs.Service.Routes
import Workbench.Proofs.Terminal.Attended
import Workbench.Proofs.World.Losses
import Workbench.Proofs.World.Rejections

/-!
# Requests that change nothing

A request that only asks changes nothing, and neither does one that is answered with an error while
the workspace is free: whatever can go wrong with an order goes wrong before anything is changed
(`World.space_of_error`, `Service.kept_of_error`). There is one exception. Where the only terminal
has the last number that can be written, sharing the view sets its mode before it shows that no
terminal can be opened beside it (`Service.Halves`).
-/

namespace Workbench

/-! ## Operations of a free workspace -/

namespace World

variable {σ : Type} {h : Host σ} {w : World σ} {id : NodeId}

/-- In a free workspace no node is looked up anew, so that none is lost. -/
theorem ne_lost_of_free (hb : w.space.boundRoot = none) {op : Operation} (hop : op.Edits)
    (id : NodeId) : (op.run h w).1 ≠ .error (.lost id) := by
  cases op with
  | create kind name parentId content =>
    refine answered_error_iff.not.2 fun hx => ?_
    cases create_ends (Prod.ext hx rfl) with
    | written _ hb' => cases hb.symm.trans hb'
  | copy id' targetId name =>
    refine answered_error_iff.not.2 fun hx => ?_
    cases copy_ends (Prod.ext hx rfl) with
    | copied _ _ _ ha => exact answer_ne_lost _ _ ha
    | written _ hb' => cases hb.symm.trans hb'
  | delete id' recursive => exact answered_error_iff.not.2 (delete_ne_lost h w id' recursive)
  | rename id' name => exact answered_error_iff.not.2 (update_ne_lost h w id' _)
  | update id' changes => exact answered_error_iff.not.2 (update_ne_lost h w id' changes)
  | move id' targetId name => exact answered_error_iff.not.2 (move_ne_lost h w id' targetId name)
  | setContent id' content => exact answered_error_iff.not.2 (setContent_ne_lost h w id' content)
  | touch id' => exact answered_error_iff.not.2 (touch_ne_lost h w id')
  | openTab id' => exact answered_error_iff.not.2 (openTab_ne_lost w id')
  | ensureDirectories path cwd => cases hop
  | closeTab id' => cases hop
  | closeAllTabs => cases hop
  | bind root => cases hop
  | unbind => cases hop
  | resync => cases hop

variable {w : World FileSystem} {settings : Settings} {now : Timestamp}

/-- A root that cannot be listed is not bound, and there is always a node at the root of one that
is. -/
theorem space_bind_of_error (hw : w.Held) {root : String} {e : Setback}
    (he : (w.bind (Service.hostAt settings now) root).1 = .error e) :
    (w.bind (Service.hostAt settings now) root).2.space = w.space := by
  have hled : World.Led (Service.hostAt settings now) (fun _ => True) w
      ((Operation.bind root).run (Service.hostAt settings now) w).2 := .one trivial _ _
  have hsound := (hw.led hled).sound
  simp only [Operation.run, answered] at hsound
  rcases hends : w.bind (Service.hostAt settings now) root with ⟨a, w'⟩
  rw [hends] at he hsound
  cases bind_ends hends with
  | unlisted hl =>
    have hspace := (Service.hostAt settings now).list_space w root
    rwa [hl] at hspace
  | bound _ _ ha =>
    obtain ⟨r, hr, -⟩ := hsound.tree.root
    rw [answer_eq_ok (w := w') hr] at ha
    cases ha.trans he

/-- An operation of a free workspace that ends with a setback has not changed it. -/
theorem space_of_error (hw : w.Held) (hb : w.space.boundRoot = none) {op : Operation}
    (hop : ∀ path cwd, op ≠ .ensureDirectories path cwd) {e : Setback}
    (he : (op.run (Service.hostAt settings now) w).1 = .error e) :
    (op.run (Service.hostAt settings now) w).2.space = w.space := by
  have hsame : op.Edits → (op.run (Service.hostAt settings now) w).2.space = w.space := by
    intro hedits
    cases e with
    | refused r =>
      have hw' := (rejection_of_run (Prod.ext he rfl)).1 hb hedits (hw.sound.visitable op)
      exact congrArg World.space hw'
    | lost id => exact absurd he (ne_lost_of_free hb hedits id)
  cases op with
  | create kind name parentId content => exact hsame trivial
  | delete id recursive => exact hsame trivial
  | rename id name => exact hsame trivial
  | update id changes => exact hsame trivial
  | move id targetId name => exact hsame trivial
  | copy id targetId name => exact hsame trivial
  | setContent id content => exact hsame trivial
  | touch id => exact hsame trivial
  | openTab id => exact hsame trivial
  | ensureDirectories path cwd => exact absurd rfl (hop path cwd)
  | bind root =>
    rw [Operation.run] at he
    have hspace := space_bind_of_error hw (answered_error_iff.1 he)
    simp only [Operation.run, answered]
    exact hspace
  | resync =>
    simp only [Operation.run, answered]
    rcases hr : w.resync (Service.hostAt settings now) with ⟨a, w'⟩
    cases resync_ends hr with
    | unbound => rfl
    | failed hb' | rebuilt hb' => cases hb.symm.trans hb'
  | closeTab id =>
    simp only [Operation.run, finish] at he
    cases he
  | closeAllTabs =>
    simp only [Operation.run, finish] at he
    cases he
  | unbind =>
    simp only [Operation.run] at he
    cases he

end World

/-! ## Terminals -/

namespace Desk

variable {settings : Settings} {x : Workspace} {d d' : Desk} {id : String} {mode : SplitMode}

/-- Where sharing the view fails, the view is left without a partner. -/
theorem isHalfSplit_of_toggleSplit {e : DeskFault}
    (he : d.toggleSplit settings x mode = (.error e, d')) : d'.IsHalfSplit := by
  unfold toggleSplit at he
  split at he
  · cases he
  split at he
  · cases he
  split at he
  · cases he
  · obtain ⟨-, rfl⟩ := Prod.mk.inj he
    exact ⟨mode, rfl⟩

theorem halves_share_iff : (DeskCall.share mode.text).Halves d ↔
    d.split.map Split.mode ≠ some mode ∧ d.IsAlone ∧ 10 ^ Text.digitLimit ≤ d.counter + 1 := by
  simp [DeskCall.Halves, SplitMode.ofText?_text]

/-- All that sharing the view can come to when it fails. -/
theorem toggleSplit_eq_error {e : DeskFault} (he : d.toggleSplit settings x mode = (.error e, d')) :
    (DeskCall.share mode.text).Halves d ∧ e = .numberTooLong ∧
      d' = { d with split := some ⟨mode, none⟩ } := by
  have hhalf := isHalfSplit_of_toggleSplit he
  have hsame : d' = (d.toggleSplit settings x mode).2 := by rw [he]
  rw [hsame, isHalfSplit_toggleSplit_iff] at hhalf
  obtain ⟨hmode, halone, hlong⟩ := hhalf
  rw [toggleSplit_alone hmode (partner?_eq_none_iff.2 halone) hlong] at he
  obtain ⟨hfault, rfl⟩ := Prod.mk.inj he
  exact ⟨halves_share_iff.2 ⟨hmode, halone, hlong⟩, (Except.error.inj hfault).symm, rfl⟩

theorem exists_get_of_openTerminal {word : Option String} {activate : Bool}
    (he : d.openTerminal settings x word activate = (.ok id, d')) : ∃ t, d'.get id = .ok t := by
  obtain ⟨e, hfault, -⟩ | ⟨e, name, -, -, hfault⟩ | ⟨id', name, shell, -, -, -, hopened⟩ :=
    d.openTerminal_cases settings x word activate
  · cases hfault.symm.trans he
  · cases hfault.symm.trans he
  · obtain ⟨hid, rfl⟩ := Prod.mk.inj (hopened.symm.trans he)
    obtain rfl := Except.ok.inj hid
    exact ⟨_, get_eq_ok_iff.2 (Table.get?_insert_self _ _ _)⟩

/-- At most an id has been drawn when a terminal cannot be opened. -/
theorem openTerminal_eq_error {word : Option String} {activate : Bool} {e : DeskFault}
    (he : d.openTerminal settings x word activate = (.error e, d')) :
    d' = { d with draws := d'.draws } := by
  obtain ⟨e', hfault, -⟩ | ⟨e', name, -, -, hfault⟩ | ⟨id', name, shell, -, -, -, hopened⟩ :=
    d.openTerminal_cases settings x word activate
  · obtain ⟨-, rfl⟩ := Prod.mk.inj (hfault.symm.trans he)
    rfl
  · obtain ⟨-, rfl⟩ := Prod.mk.inj (hfault.symm.trans he)
    rfl
  · cases hopened.symm.trans he

end Desk

/-- A line that is not executed changes nothing. -/
theorem Studio.execute_eq_error {σ : Type} {b b' : Studio σ} {h : Host σ} {settings : Settings}
    {id : Option String} {line : String} {e : DeskFault}
    (he : b.execute h settings id line = (.error e, b')) : b' = b := by
  unfold Studio.execute at he
  split at he
  · exact (Prod.mk.inj he).2.symm
  split at he
  · exact (Prod.mk.inj he).2.symm
  · cases he

/-! ## Orders -/

namespace Service

variable {s s' : Service} {now : Timestamp} {o : Order} {r : Request}

/-- Nothing changes of the tree, the tabs, the bound root and the terminals. Only ids may have been
drawn for terminals that were not opened. -/
structure Keeps (s s' : Service) : Prop where
  space : s'.space = s.space
  desk : s'.desk = { s.desk with draws := s'.desk.draws }

theorem Keeps.refl (s : Service) : s.Keeps s := ⟨rfl, rfl⟩

/-- All that an order of a free workspace can come to. -/
inductive Ends (s : Service) (o : Order) : Ending → Prop
  | done {a : Answer} {s' : Service} (ha : a.status < 400) : Ends s o (.ok a, s')
  | kept {p : Problem} {s' : Service} (hs : s.Keeps s') : Ends s o (.error p, s')
  | halved {mode : SplitMode} (ho : o = .split mode)
      (hh : (DeskCall.share mode.text).Halves s.desk) :
      Ends s o (.error (.desk .numberTooLong),
        s.withDesk { s.desk with split := some ⟨mode, none⟩ })

theorem Order.ne_ensureDirectories {op : Operation} (ho : o.operation? s = some op)
    (path cwd : String) : op ≠ .ensureDirectories path cwd := by
  rintro rfl
  unfold Order.operation? at ho
  split at ho
  case h_2 =>
    obtain ⟨n, -, hn⟩ := Option.map_eq_some_iff.1 ho
    cases hn
  all_goals cases ho

theorem Runs.ends {op : Operation} {x : Ending} (hr : s.Runs now op x)
    (hw : s.studio.world.Held) (hfree : s.space.boundRoot = none)
    (hop : ∀ path cwd, op ≠ .ensureDirectories path cwd) : s.Ends o x := by
  obtain ⟨r, s'⟩ := x
  obtain ⟨hservice, hresult⟩ := hr
  obtain rfl : s' = _ := hservice
  rcases hresult with ⟨a, ha, hstatus⟩ | ⟨e, he, hrun⟩
  · obtain rfl : r = .ok a := ha
    exact .done hstatus
  · obtain rfl : r = .error (problemOf e) := he
    exact .kept ⟨World.space_of_error hw hfree hop hrun, rfl⟩

theorem ends_openTerminal (s : Service) (o : Order) (shell : Option String) :
    s.Ends o (s.openTerminal shell) := by
  unfold openTerminal
  generalize hopened : s.desk.openTerminal s.settings s.space shell true = opened
  obtain ⟨x, d⟩ := opened
  cases x with
  | ok id =>
    obtain ⟨t, ht⟩ := Desk.exists_get_of_openTerminal hopened
    simp only [Except.bind, ht]
    exact .done (by simp)
  | error e => exact .kept ⟨rfl, Desk.openTerminal_eq_error hopened⟩

/-- What an order of a free workspace comes to. -/
theorem ends_carryOut (hw : s.studio.world.Held) (hfree : s.space.boundRoot = none)
    (now : Timestamp) (o : Order) : s.Ends o (s.carryOut now o) := by
  cases ho : o.operation? s with
  | some op => exact (runs_carryOut ho now).ends hw hfree (Order.ne_ensureDirectories ho)
  | none =>
    have hok : 200 < 400 := by decide
    cases o with
    | create kind name parent content =>
      cases parent with
      | id id => cases ho
      | path path =>
        have hparent : s.nodeAt path "/" = .error (.noSuchPath path) := by
          rw [nodeAt, Option.map_eq_none_iff.1 ho]
        simp only [carryOut, create, hparent, Except.map]
        exact .kept (.refl s)
    | openTerminal shell => exact s.ends_openTerminal _ shell
    | closeTerminal id =>
      unfold carryOut closeTerminal
      dsimp only
      split
      · exact .done hok
      · exact .kept (.refl s)
      · exact .kept (.refl s)
    | activate id =>
      unfold carryOut
      dsimp only
      split
      · exact .done hok
      · exact .kept (.refl s)
    | split mode =>
      unfold carryOut
      dsimp only
      split
      · exact .done hok
      · next he =>
        obtain ⟨hhalves, rfl, rfl⟩ := Desk.toggleSplit_eq_error he
        exact .halved rfl hhalves
    | execute id line =>
      unfold carryOut execute
      dsimp only
      split
      · exact .done hok
      · next he =>
        have hsame : (s.studio.execute (s.host now) s.settings id line).2 = s.studio :=
          Studio.execute_eq_error (Prod.ext he rfl)
        rw [hsame]
        exact .kept (.refl s)
    | clear id =>
      unfold carryOut
      dsimp only
      split
      · exact .done hok
      · exact .kept (.refl s)
    | save =>
      unfold carryOut
      dsimp only
      split
      · exact .done hok
      · next he =>
        obtain ⟨-, rfl⟩ := Prod.mk.inj he
        exact .kept ⟨rfl, rfl⟩
    | _ => cases ho

/-! ## Requests -/

/-- Every string of the body that the request is read from is text. No half of a surrogate pair
stands alone in one, so that the body is not refused for it. -/
def IsText (r : Request) : Prop := demandOf r ≠ .error .loneHalf

/-- A request that shares the view in another mode than before, where there is no other terminal and
none can be opened. -/
def Halves (s : Service) (r : Request) : Prop :=
  ∃ mode, demandOf r = .ok (.ok (.order (.split mode))) ∧
    (DeskCall.share mode.text).Halves s.desk

theorem respond_of_ok {a : Answer} (hr : demandOf r = .ok (.ok (.order o)))
    (hc : s.carryOut now o = (.ok a, s')) : s.respond now r = (a, s') := by
  unfold respond
  rw [hr]
  dsimp only
  rw [hc]

theorem respond_of_error {p : Problem} (hr : demandOf r = .ok (.ok (.order o)))
    (hc : s.carryOut now o = (.error p, s')) : s.respond now r = (p.answer, s') := by
  unfold respond
  rw [hr]
  dsimp only
  rw [hc]

theorem respond_of_no_order (hr : ∀ o, demandOf r ≠ .ok (.ok (.order o))) (now : Timestamp) :
    (s.respond now r).2 = s := by
  unfold respond
  split
  · rfl
  · rfl
  · rfl
  · rfl
  · split
    · rfl
    · rfl
  · next o ho => exact absurd ho (hr o)

/-- The mode is set, and the answer is that the number of the next terminal would be too long. -/
theorem respond_of_share {mode : SplitMode} (hr : demandOf r = .ok (.ok (.order (.split mode))))
    (hshare : (DeskCall.share mode.text).Halves s.desk) (now : Timestamp) :
    s.respond now r =
      (.deskFault .numberTooLong, s.withDesk { s.desk with split := some ⟨mode, none⟩ }) := by
  obtain ⟨hmode, halone, hlong⟩ := Desk.halves_share_iff.1 hshare
  refine respond_of_error (p := .desk .numberTooLong) hr ?_
  simp only [carryOut, Desk.toggleSplit_alone hmode (Desk.partner?_eq_none_iff.2 halone) hlong]
  rfl

theorem keeps_respond_of_status (hs : s.Reachable) (hfree : s.space.boundRoot = none)
    (herror : 400 ≤ (s.respond now r).1.status) (hh : ¬ s.Halves r) :
    s.Keeps (s.respond now r).2 := by
  by_cases horder : ∃ o, demandOf r = .ok (.ok (.order o))
  · obtain ⟨o, ho⟩ := horder
    have hends := ends_carryOut hs.held hfree now o
    generalize hc : s.carryOut now o = x at hends
    cases hends with
    | done ha =>
      rw [respond_of_ok ho hc] at herror
      exact absurd herror (Nat.not_le.2 ha)
    | kept hkept =>
      rw [respond_of_error ho hc]
      exact hkept
    | @halved mode hsplit hshare =>
      subst hsplit
      exact absurd ⟨mode, ho, hshare⟩ hh
  · rw [respond_of_no_order (not_exists.1 horder) now]
    exact .refl s

/-- Neither a request that is to get something nor one that is answered with an error changes a
service with a free workspace. The exception are the requests that leave the view without a
partner: they set its mode, and only that. A request that is to change something and whose body
holds a string with half of a surrogate pair is left out, since what is stored here is text. -/
theorem kept_of_error (hs : s.Reachable) (hfree : s.space.boundRoot = none) (now : Timestamp)
    (r : Request) :
    (r.method = .get → s.Keeps (s.respond now r).2) ∧
      (IsText r → 400 ≤ (s.respond now r).1.status →
        (s.Keeps (s.respond now r).2 ↔ ¬ s.Halves r)) ∧
      (s.Halves r → (s.respond now r).1.status = 400 ∧
        ∃ mode, (s.respond now r).2 = s.withDesk { s.desk with split := some ⟨mode, none⟩ }) := by
  refine ⟨?get, fun _ herror => ⟨?whole, keeps_respond_of_status hs hfree herror⟩, ?halved⟩
  case get =>
    intro hget
    rw [respond_of_no_order (fun o ho => ne_get_of_order ho hget) now]
    exact .refl s
  case whole =>
    rintro hkept ⟨mode, hr, hshare⟩
    obtain ⟨hmode, -, -⟩ := Desk.halves_share_iff.1 hshare
    rw [respond_of_share hr hshare] at hkept
    have hsplit : some ⟨mode, none⟩ = s.desk.split := congrArg Desk.split hkept.desk
    rw [← hsplit] at hmode
    exact hmode rfl
  case halved =>
    rintro ⟨mode, hr, hshare⟩
    rw [respond_of_share hr hshare]
    exact ⟨rfl, mode, rfl⟩

/-- A free service with the demo tree, and the terminals that are stored. -/
theorem start_planted {settings : Settings} {fs : FileSystem} {stored : Option String} {d : Desk}
    {x : Workspace} (hplanted : Seed.planted settings.home now = x)
    (hseed : settings.seedDemoTree = true) (hroot : settings.boundRoot = none)
    (hfree : x.boundRoot = none)
    (hload : Store.loadFrom fs (settings.terminalStorePath.filter fun p => !p.isEmpty) =
      .ok stored)
    (hdesk : Desk.start settings x now {} stored = .ok d) :
    Service.start settings fs now =
      .ok ⟨settings, ⟨⟨x, fs⟩, some (.new settings.home settings.username), d⟩,
        settings.terminalStorePath.filter fun p => !p.isEmpty⟩ := by
  subst hplanted
  have hworld : firstWorld settings fs now = .ok ⟨Seed.planted settings.home now, fs⟩ := by
    unfold firstWorld
    rw [hroot, hseed]
    rfl
  have htop : (if (Seed.planted settings.home now).boundRoot.isSome then "/"
      else settings.home) = settings.home := by
    rw [hfree]
    rfl
  unfold Service.start
  rw [hworld]
  simp only [bind, Except.bind, htop, hload, hdesk, Except.mapError]
  rfl

theorem planted_homeWorld : Seed.planted "/home/user" default = Studio.homeWorld.space := by
  simp only [Studio.homeWorld]

theorem named_empty : ({} : FileSystem).Named := ⟨fun h => (nomatch h), Path.AreNames.nil⟩

/-- A service with one terminal. -/
def firstService : Service :=
  ⟨{}, ⟨⟨Studio.homeWorld.space, {}⟩, some (.new "/home/user" "henu"),
    .new {} Studio.homeWorld.space {}⟩, none⟩

theorem reachable_firstService : firstService.Reachable := by
  have hnew (x : Workspace) : Desk.start {} x default {} none = .ok (.new {} x {}) := rfl
  have hload : Store.loadFrom {} none = .ok none := rfl
  have hstart : Service.start {} {} default = .ok firstService :=
    start_planted planted_homeWorld rfl rfl (by decide +kernel) hload (hnew Studio.homeWorld.space)
  exact .started named_empty hstart

/-- The last terminal cannot be closed, and nothing has changed then. -/
theorem firstService_kept :
    firstService.Reachable ∧ firstService.space.boundRoot = none ∧
      (firstService.respond default ⟨.delete, "/terminals/t1", [], []⟩).1.status = 400 ∧
      firstService.Keeps (firstService.respond default ⟨.delete, "/terminals/t1", [], []⟩).2 := by
  have hstatus : (firstService.respond default ⟨.delete, "/terminals/t1", [], []⟩).1.status =
      400 := by decide +kernel
  have hshort : ¬ 10 ^ Text.digitLimit ≤ firstService.desk.counter + 1 := by
    have hcounter : firstService.desk.counter = 1 := by decide +kernel
    have hten : 10 ^ 1 ≤ 10 ^ Text.digitLimit := Nat.pow_le_pow_right (by decide) (by decide)
    rw [hcounter]
    omega
  have hfew : ¬ firstService.Halves ⟨.delete, "/terminals/t1", [], []⟩ := by
    rintro ⟨mode, -, hshare⟩
    exact hshort (Desk.halves_share_iff.1 hshare).2.2
  have hfree : firstService.space.boundRoot = none := by decide +kernel
  have htext : IsText ⟨.delete, "/terminals/t1", [], []⟩ := by
    intro he
    have hok : (demandOf ⟨.delete, "/terminals/t1", [], []⟩).isOk = true := by decide +kernel
    rw [he] at hok
    cases hok
  obtain ⟨-, hkept, -⟩ := kept_of_error reachable_firstService hfree default
    ⟨.delete, "/terminals/t1", [], []⟩
  exact ⟨reachable_firstService, hfree, hstatus,
    (hkept htext (Nat.le_of_eq hstatus.symm)).2 hfew⟩

/-! ## A refusal that changes the view -/

/-- A service whose terminal has the last number. -/
def lastService : Service :=
  ⟨{ terminalStorePath := some "/terminals" },
    ⟨⟨Studio.homeWorld.space, Studio.savedFiles Studio.lastDesk⟩,
      some (.new "/home/user" "henu"), Studio.lastStudio.desk⟩, some "/terminals"⟩

theorem reachable_lastService : lastService.Reachable := by
  have hload : Store.loadFrom (Studio.savedFiles Studio.lastDesk) (some "/terminals") =
      .ok (some (SavedSession.ofDesk Studio.lastDesk).text) :=
    Store.loadFrom_save Studio.rooted_empty (Studio.save_top _)
  have hdesk : Desk.start { terminalStorePath := some "/terminals" } Studio.homeWorld.space
      default {} (some (SavedSession.ofDesk Studio.lastDesk).text) = .ok Studio.lastStudio.desk :=
    Studio.start_saved_lastDesk rfl
  have hstart : Service.start { terminalStorePath := some "/terminals" }
      (Studio.savedFiles Studio.lastDesk) default = .ok lastService :=
    start_planted planted_homeWorld rfl rfl (by decide +kernel) hload hdesk
  exact .started (Store.named_save named_empty _ _) hstart

/-- A request to see the terminals side by side. -/
def splitRequest : Request :=
  ⟨.post, "/terminals/split", [], ("\x7b\"mode\":\"horizontal\"\x7d".toList.map Char.toNat)⟩

theorem demandOf_splitRequest :
    demandOf splitRequest = .ok (.ok (.order (.split .horizontal))) := by
  have hcheck : (demandOf splitRequest).toOption.bind Form.Checked.toOption =
      some (.order (.split .horizontal)) := by decide +kernel
  cases hr : demandOf splitRequest with
  | error p =>
    rw [hr] at hcheck
    cases hcheck
  | ok checked =>
    rw [hr] at hcheck
    cases checked with
    | bad issues => cases hcheck
    | ok d => rw [Option.some.inj hcheck]

/-- The request is refused, but the mode of the view is set. -/
theorem mode_set_by_refusal :
    lastService.Reachable ∧ lastService.space.boundRoot = none ∧
      (lastService.respond default splitRequest).1.status = 400 ∧
      lastService.desk.split = none ∧
      (lastService.respond default splitRequest).2.desk.split = some ⟨.horizontal, none⟩ := by
  have hmode : lastService.desk.split.map Split.mode ≠ some .horizontal := nofun
  have halone : lastService.desk.IsAlone := Desk.partner?_eq_none_iff.1 rfl
  have hshare : (DeskCall.share SplitMode.horizontal.text).Halves lastService.desk :=
    Desk.halves_share_iff.2 ⟨hmode, halone, Studio.le_lastNumber⟩
  rw [respond_of_share demandOf_splitRequest hshare]
  exact ⟨reachable_lastService, by decide +kernel, rfl, rfl, rfl⟩

end Service

end Workbench
