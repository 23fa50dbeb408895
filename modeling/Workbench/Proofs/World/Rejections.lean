import Workbench.Proofs.World.Consistent
import Workbench.Proofs.World.Recorded

/-!
# Rejected operations

An operation that is refused leaves the workspace as it was, with one exception. In a free workspace
this is because every check comes before the edit. In a bound one `Rejection` lists how a refusal
can come about. A check refuses, and the disk has not been asked for anything; a call fails or
breaks down; or the listing after it does. Each leaves the nodes, the tabs and the bound root alone
and is reported as its cause demands. What is left is `late`: call and listing have succeeded, the
tree has been rebuilt, and a node that the operation looks up in it is not there. No operation
checks anything else then (`Operation.Misses`).

Over a recording bridge a rejection can be read off what was written down. This gives the statement
for all operations, `World.unchanged_of_refused`.
-/

namespace Workbench

variable {σ α β : Type}

/-- The kind under which a breakdown of the bridge is reported. -/
def Breakdown.kind (e : Breakdown) : RefusalKind :=
  if e.sort = .timeout then .timeout else .bridgeUnavailable

/-- The message under which a failure of a call is reported: the one that the bridge gives, if it
gives one that is not empty. -/
def failureMessage (operation : String) (message : Option String) : String :=
  match message with
  | none => operation ++ " failed"
  | some text => if text = "" then operation ++ " failed" else text

theorem message_bridgeFailed (operation : String) (message : Option String) :
    (Refusal.bridgeFailed operation message).message = failureMessage operation message := by
  cases message with
  | none => rfl
  | some text =>
    show (if text.isEmpty then operation ++ " failed" else text) = _
    simp only [failureMessage, String.isEmpty_iff]

/-- What an operation may still be refused for when the disk has done its part: what it has created
is not in the rebuilt tree, or the node that it is about, which was in the tree before, is not. -/
def Operation.Misses (s : Workspace) (op : Operation) (r : Refusal) (s' : Workspace) : Prop :=
  match op with
  | .create _ name parentId _ =>
    r = .notAppeared name "create" ∧
      ∃ d, s'.node? parentId = some d ∧ s'.arena.childNamed? d name = none
  | .rename id _ | .update id _ | .move id _ _ | .setContent id _ | .touch id =>
    r = .noSuchNode id ∧ (∃ n, s.node? id = some n) ∧ s'.node? id = none
  | _ => False

/-- How an operation on a bound workspace is refused, and the world that it leaves. `missed` says
what it may miss in the tree when it has been rebuilt. -/
inductive Rejection (h : Host σ) (w : World σ) (missed : Refusal → Workspace → Prop) :
    Refusal → World σ → Prop
  /-- A check refuses; the disk is not asked. -/
  | check (r : Refusal) : Rejection h w missed r w
  /-- The bridge answers a call with a failure. -/
  | failed {b : Bridge σ} {call : DiskCall} {message : Option String} {d : σ} {r : Refusal}
      (hb : h.bridge = some b) (hp : b.perform h.now call w.disk = (.ok (.failed message), d))
      (hk : r.kind = .bridgeFailure) (hm : r.message = failureMessage call.operation message) :
      Rejection h w missed r { w with disk := d }
  /-- The bridge does not answer a call. -/
  | broken {b : Bridge σ} {call : DiskCall} {e : Breakdown} {d : σ} {r : Refusal}
      (hb : h.bridge = some b) (hp : b.perform h.now call w.disk = (.error e, d))
      (hk : r.kind = e.kind) : Rejection h w missed r { w with disk := d }
  /-- The bridge does not list the disk, after a call that has succeeded or without one. -/
  | unlisted {b : Bridge σ} {root : String} {e : Breakdown} {d₀ d : σ} {r : Refusal}
      (hb : h.bridge = some b)
      (hd : d₀ = w.disk ∨ ∃ call p, b.perform h.now call w.disk = (.ok (.done p), d₀))
      (hl : b.list h.now root d₀ = (.error e, d)) (hk : r.kind = e.kind) :
      Rejection h w missed r { w with disk := d }
  /-- The tree has been rebuilt after a call that has succeeded, and something is missed in it. -/
  | late {b : Bridge σ} {call : DiskCall} {path : Option String} {F : List DiskEntry}
      {carried : Workspace.Carried} {d₀ d : σ} {r : Refusal} (hb : h.bridge = some b)
      (hp : b.perform h.now call w.disk = (.ok (.done path), d₀))
      (hl : b.list h.now (w.space.boundRoot.getD "") d₀ = (.ok F, d))
      (hm : missed r (w.space.rebuilt F carried h.now)) :
      Rejection h w missed r ⟨w.space.rebuilt F carried h.now, d⟩

namespace Host

variable {h : Host σ} {w w' : World σ} {missed : Refusal → Workspace → Prop} {call : DiskCall}
  {carried : Workspace.Carried} {r : Refusal} {root : String}

theorem done_of_perform (he : h.perform w call = (.ok (), w')) :
    ∃ b path d, h.bridge = some b ∧ b.perform h.now call w.disk = (.ok (.done path), d) ∧
      w' = { w with disk := d } := by
  unfold perform at he
  split at he
  · cases he
  · next b hb =>
    split at he
    · next path d hp =>
      obtain ⟨-, rfl⟩ := Prod.mk.inj he
      exact ⟨b, path, d, hb, hp, rfl⟩
    · cases he
    · cases he

theorem listed_of_list {F : List DiskEntry} (he : h.list w root = (.ok F, w')) :
    ∃ b d, h.bridge = some b ∧ b.list h.now root w.disk = (.ok F, d) ∧
      w' = { w with disk := d } := by
  unfold list at he
  split at he
  · cases he
  · next b hb =>
    split at he
    · next F' d hl =>
      obtain ⟨hF, rfl⟩ := Prod.mk.inj he
      obtain rfl := Except.ok.inj hF
      exact ⟨b, d, hb, hl, rfl⟩
    · cases he

theorem rejection_of_perform (he : h.perform w call = (.error r, w')) :
    Rejection h w missed r w' := by
  unfold perform at he
  split at he
  · obtain ⟨hr, rfl⟩ := Prod.mk.inj he
    exact .check r
  · next b hb =>
    split at he
    · cases he
    · next message d hp =>
      obtain ⟨hr, rfl⟩ := Prod.mk.inj he
      obtain rfl := Except.error.inj hr
      exact .failed hb hp rfl (message_bridgeFailed call.operation message)
    · next e d hp =>
      obtain ⟨hr, rfl⟩ := Prod.mk.inj he
      obtain rfl := Except.error.inj hr
      refine .broken hb hp ?_
      unfold Breakdown.kind
      split <;> rfl

/-- A listing fails because there is no bridge, or because it breaks down. -/
theorem broken_of_list (he : h.list w root = (.error r, w')) :
    h.bridge = none ∧ w' = w ∨
      ∃ b e d, h.bridge = some b ∧ b.list h.now root w.disk = (.error e, d) ∧ r.kind = e.kind ∧
        w' = { w with disk := d } := by
  unfold list at he
  split at he
  · next hb => exact .inl ⟨hb, (Prod.mk.inj he).2.symm⟩
  · next b hb =>
    split at he
    · cases he
    · next e d hl =>
      obtain ⟨hr, rfl⟩ := Prod.mk.inj he
      obtain rfl := Except.error.inj hr
      refine .inr ⟨b, e, d, hb, hl, ?_, rfl⟩
      unfold Breakdown.kind
      split <;> rfl

theorem rejection_of_list (he : h.list w root = (.error r, w')) : Rejection h w missed r w' := by
  obtain ⟨-, rfl⟩ | ⟨b, e, d, hb, hl, hk, rfl⟩ := broken_of_list he
  · exact .check r
  · exact .unlisted hb (.inl rfl) hl hk

theorem list_of_resync (he : h.resync w carried = (.error r, w')) :
    h.list w (w.space.boundRoot.getD "") = (.error r, w') := by
  unfold resync at he
  split at he
  · cases he
  · next hl =>
    obtain ⟨hr, rfl⟩ := Prod.mk.inj he
    rw [hl, Except.error.inj hr]

theorem rejection_of_writeThrough (he : h.writeThrough w call carried = (.error r, w')) :
    Rejection h w missed r w' := by
  unfold writeThrough at he
  split at he
  · next hdone =>
    obtain ⟨b, path, d₀, hb, hp, rfl⟩ := done_of_perform hdone
    obtain ⟨hnone, -⟩ | ⟨b', e, d, hb', hl, hk, rfl⟩ := broken_of_list (list_of_resync he)
    · cases hnone.symm.trans hb
    · obtain rfl := Option.some.inj (hb.symm.trans hb')
      exact .unlisted hb (.inr ⟨call, path, hp⟩) hl hk
  · next hp =>
    obtain ⟨hr, rfl⟩ := Prod.mk.inj he
    obtain rfl := Except.error.inj hr
    exact rejection_of_perform hp

/-- What is missed after a call that is written through is missed late. -/
theorem late_of_writeThrough (he : h.writeThrough w call carried = (.ok (), w'))
    (hm : missed r w'.space) : Rejection h w missed r w' := by
  unfold writeThrough at he
  split at he
  · next hdone =>
    obtain ⟨b, path, d₀, hb, hp, rfl⟩ := done_of_perform hdone
    unfold resync at he
    split at he
    · next hl =>
      obtain ⟨b', d, hb', hl, rfl⟩ := listed_of_list hl
      obtain rfl := Option.some.inj (hb.symm.trans hb')
      obtain ⟨-, rfl⟩ := Prod.mk.inj he
      exact .late hb hp hl hm
    · cases he
  · cases he

end Host

namespace World

variable {h : Host σ} {w w' : World σ} {missed : Refusal → Workspace → Prop} {r : Refusal}
  {id parentId targetId : NodeId}

theorem missed_of_answer (ha : (w.answer id).1 = .error (.refused r)) :
    r = .noSuchNode id ∧ w.space.node? id = none := by
  unfold answer Workspace.require at ha
  cases hn : w.space.node? id with
  | none =>
    rw [hn] at ha
    exact ⟨(Setback.refused.inj (Except.error.inj ha)).symm, rfl⟩
  | some n =>
    rw [hn] at ha
    cases ha

/-- A node that is there is answered. -/
theorem answer_ne_refused (hn : ∃ n, w.space.node? id = some n) :
    (w.answer id).1 ≠ .error (.refused r) := by
  obtain ⟨n, hn⟩ := hn
  intro ha
  cases (missed_of_answer ha).2.symm.trans hn

theorem eq_of_answered {f : α → β} {o : Outcome σ α}
    (he : answered f o = (.error (.refused r), w')) : o = (.error (.refused r), w') := by
  obtain ⟨a, w₁⟩ := o
  obtain ⟨ha, rfl⟩ := Prod.mk.inj he
  cases a with
  | ok a => cases ha
  | error e =>
    rw [Except.error.inj ha]

/-! ## Creating, deleting, renaming -/

/-- What a refusal of an operation means: in a free workspace nothing has happened, and in a bound
one there is a rejection. -/
def Refused (h : Host σ) (w : World σ) (missed : Refusal → Workspace → Prop) (r : Refusal)
    (w' : World σ) : Prop :=
  (w.space.boundRoot = none → w' = w) ∧ Rejection h w missed r w'

theorem Refused.check : Refused h w missed r w := ⟨fun _ => rfl, .check r⟩

theorem Refused.of_bound {root : String} (hb : w.space.boundRoot = some root)
    (hr : Rejection h w missed r w') : Refused h w missed r w' :=
  ⟨fun hn => (nomatch hn.symm.trans hb), hr⟩

theorem refused_create {kind : NodeKind} {name content : String}
    (he : w.create h kind name parentId content = (.error (.refused r), w')) :
    Refused h w ((Operation.create kind name parentId content).Misses w.space) r w' := by
  cases create_ends he with
  | rejected | unlisted => exact .check
  | failed _ hb _ hw => exact .of_bound hb (Host.rejection_of_writeThrough hw)
  | written _ hb _ hw ha =>
    exact .of_bound hb (Host.late_of_writeThrough hw (missed_of_sought ha))

theorem refused_delete {recursive : Bool}
    (he : w.delete h id recursive = (.error (.refused r), w')) :
    Refused h w ((Operation.delete id recursive).Misses w.space) r w' := by
  cases delete_ends he with
  | rejected => exact .check
  | failed _ hb hw => exact .of_bound hb (Host.rejection_of_writeThrough hw)

theorem refused_relabel {p : Workspace.Placement}
    (he : w.relabel h p = (.error (.refused r), w')) : Refused h w missed r w' := by
  cases relabel_ends he with
  | unlisted => exact .check
  | failed hb _ hw => exact .of_bound hb (Host.rejection_of_writeThrough hw)

theorem get?_renamed {s : Workspace} {n : Node} (hn : s.arena.get? id = some n)
    (p : Workspace.Placement) (now : Timestamp) :
    ∃ m, (s.renamed p now).arena.get? id = some m :=
  Table.exists_get?_modify (Table.exists_get?_modify ⟨n, hn⟩ _ _) _ _

theorem refused_update {changes : NodeUpdate}
    (he : w.update h id changes = (.error (.refused r), w')) :
    Refused h w ((Operation.update id changes).Misses w.space) r w' := by
  cases update_ends he with
  | rejected => exact .check
  | marked _ hm =>
    cases hm with
    | missing => exact .check
  | unnamed _ hr => exact refused_relabel hr
  | @renamed _ p _ _ _ hc hr hm =>
    have hnode := (Workspace.checkUpdate_some hc).2.1
    -- the node to be marked has got its name before
    cases hm with
    | missing hn =>
      cases relabel_ends hr with
      | renamed =>
        obtain ⟨m, hm⟩ := get?_renamed hnode p h.now
        cases hn.symm.trans hm
      | written hb _ hw =>
        exact .of_bound hb (Host.late_of_writeThrough hw ⟨rfl, ⟨_, hnode⟩, hn⟩)

/-! ## Moving and copying -/

theorem get?_moved {s : Workspace} {n : Node} (hn : s.arena.get? id = some n)
    (p : Workspace.Placement) (q : NodeId) (now : Timestamp) :
    ∃ m, (s.moved p q now).arena.get? id = some m := by
  have hleft := Table.exists_get?_modify (Table.exists_get?_modify ⟨n, hn⟩ q
    fun d => { d with children := d.children.erase p.node.id }) q
    fun d => { d with modifiedAt := now }
  exact Table.exists_get?_modify
    (Table.exists_get?_modify (Table.exists_get?_insert hleft _ _) _ _) _ _

theorem refused_move {name : Option String}
    (he : w.move h id targetId name = (.error (.refused r), w')) :
    Refused h w ((Operation.move id targetId name).Misses w.space) r w' := by
  cases move_ends he with
  | rejected | unlisted => exact .check
  | @moved p _ _ hc _ _ hw ha =>
    obtain ⟨hn, -⟩ := Workspace.checkPlacement_eq_ok_iff.1 (Workspace.checkMove_eq_ok hc).1
    exact absurd ha (answer_ne_refused (hw ▸ get?_moved hn p _ h.now))
  | failed _ _ hb _ hw => exact .of_bound hb (Host.rejection_of_writeThrough hw)
  | written hc _ hb _ hw ha =>
    obtain ⟨hn, -⟩ := Workspace.checkPlacement_eq_ok_iff.1 (Workspace.checkMove_eq_ok hc).1
    obtain ⟨hr, hnone⟩ := missed_of_answer ha
    exact .of_bound hb (Host.late_of_writeThrough hw ⟨hr, ⟨_, hn⟩, hnone⟩)

/-- The copy of the top of a subtree that can be visited is stored under its id. -/
theorem get?_copied {s : Workspace} {p : Workspace.Placement} {n : Node} {ids : List NodeId}
    (hn : s.arena.get? p.node.id = some n) (hid : n.id = p.node.id)
    (hv : s.arena.visitFrom p.node.id = .ok ids) (now : Timestamp) :
    ∃ m, (s.copied p now).arena.get?
      (Workspace.copyId s.drawn (s.arena.subtreeIds p.node.id) p.node.id) = some m := by
  have hids : s.arena.subtreeIds p.node.id = ids := by rw [Arena.subtreeIds, hv]
  have hmem : p.node.id ∈ ids := Arena.mem_of_visit hv (.inr List.mem_cons_self)
  have hkey : Workspace.copyId s.drawn ids p.node.id ∈
      ((s.copies p now).map fun n => (n.id, n)).map Prod.fst := by
    simp only [Workspace.copies, hids, List.map_map, List.mem_map, List.mem_filterMap,
      Function.comp_apply]
    exact ⟨n, ⟨_, hmem, hn⟩, by rw [hid]⟩
  rw [Workspace.copied, hids]
  exact Table.exists_get?_modify
    (Table.exists_get?_modify (Table.exists_get?_insertMany hkey s.arena) _ _) _ _

theorem refused_copy {name : Option String} (hb : w.space.boundRoot = none)
    (hv : ∀ n, w.space.node? id = some n → n.id = id ∧ ∃ ids, w.space.arena.visitFrom id = .ok ids)
    (he : w.copy h id targetId name = (.error (.refused r), w')) : w' = w := by
  cases copy_ends he with
  | rejected | unlisted => rfl
  | @copied p _ _ hc _ hw ha =>
    obtain ⟨hn, -⟩ := Workspace.checkPlacement_eq_ok_iff.1 (Workspace.checkCopy_eq_ok hc).1
    obtain ⟨hid, ids, hids⟩ := hv p.node hn
    rw [← hid] at hn hids
    exact absurd ha (answer_ne_refused (hw ▸ get?_copied hn rfl hids h.now))
  | unseen _ hb' | interrupted _ hb' | written _ hb' => cases hb.symm.trans hb'

/-! ## Contents, tabs and the disk -/

theorem get?_refilled {s : Workspace} {n : Node} (hn : s.arena.get? id = some n) (x : NodeId)
    (content : String) (now : Timestamp) :
    ∃ m, (s.refilled x content now).arena.get? id = some m :=
  Table.exists_get?_modify ⟨n, hn⟩ _ _

theorem refused_setContent {content : String}
    (he : w.setContent h id content = (.error (.refused r), w')) :
    Refused h w ((Operation.setContent id content).Misses w.space) r w' := by
  cases setContent_ends he with
  | rejected => exact .check
  | @refilled n _ _ hc _ hw ha =>
    have hnode := (Workspace.requireFile_eq_ok_iff.1 hc).1
    exact absurd ha (answer_ne_refused (hw ▸ get?_refilled hnode n.id content h.now))
  | failed _ hb hw => exact .of_bound hb (Host.rejection_of_writeThrough hw)
  | written hc hb hw ha =>
    obtain ⟨hr, hnone⟩ := missed_of_answer ha
    have hnode := (Workspace.requireFile_eq_ok_iff.1 hc).1
    exact .of_bound hb (Host.late_of_writeThrough hw ⟨hr, ⟨_, hnode⟩, hnone⟩)

theorem refused_touch (he : w.touch h id = (.error (.refused r), w')) :
    Refused h w ((Operation.touch id).Misses w.space) r w' := by
  cases touch_ends he with
  | missing => exact .check
  | rewritten _ _ _ hw => exact refused_setContent hw
  | touched hn _ hw ha =>
    exact absurd ha (answer_ne_refused (hw ▸ Table.exists_get?_modify ⟨_, hn⟩ _ _))

theorem refused_openTab (he : w.openTab id = (.error (.refused r), w')) : w' = w := by
  cases openTab_ends he with
  | rejected => rfl

/-- There is always a node at the root when a listing has been loaded, so that a binding and a
rebuilding on demand miss nothing. -/
theorem refused_bind {root : String} (he : w.bind h root = (.error (.refused r), w')) :
    Rejection h w missed r w' := by
  cases bind_ends he with
  | unlisted hl => exact Host.rejection_of_list hl
  | @bound F w₁ _ _ hl hw ha =>
    have hroot := Workspace.exists_root_loaded .nothing F w₁.space.drawn h.now
    exact absurd ha (answer_ne_refused (hw ▸ hroot))

theorem refused_resync (he : w.resync h = (.error (.refused r), w')) :
    Rejection h w missed r w' := by
  cases resync_ends he with
  | unbound => exact .check _
  | failed _ hr => exact Host.rejection_of_list (Host.list_of_resync hr)
  | rebuilt _ hr ha =>
    obtain ⟨F, hspace⟩ := Host.rebuilt_of_resync hr
    have hroot := Workspace.exists_root_loaded (w.space.known []) F w.space.drawn h.now
    exact absurd ha (answer_ne_refused (hspace ▸ hroot))

end World

/-! ## All operations -/

/-- The operations that edit a node or a tab and can be refused. -/
def Operation.Edits : Operation → Prop
  | .create .. | .delete .. | .rename .. | .update .. | .move .. | .copy .. | .setContent ..
  | .touch _ | .openTab _ => True
  | _ => False

/-- The operations that ask a bound disk for one call or one listing. -/
def Operation.AsksOnce : Operation → Prop
  | .create .. | .delete .. | .rename .. | .update .. | .move .. | .setContent .. | .touch _
  | .bind _ | .resync => True
  | _ => False

/-- The node that an operation copies is stored under its id, and the visit of what lies below it
ends. In a tree this is so. -/
def Operation.Visitable (s : Workspace) : Operation → Prop
  | .copy id _ _ => ∀ n, s.node? id = some n → n.id = id ∧ ∃ ids, s.arena.visitFrom id = .ok ids
  | _ => True

theorem Workspace.Sound.visitable {s : Workspace} (hs : s.Sound) (op : Operation) :
    op.Visitable s := by
  cases op with
  | copy id targetId name =>
    exact fun n hn => ⟨hs.tree.keyed hn, _, (hs.tree.spans_subtreeIds hn).1⟩
  | _ => trivial

namespace World

variable {h : Host σ} {w w' : World σ} {r : Refusal}

theorem Refused.run {missed : Refusal → Workspace → Prop} {op : Operation}
    (hr : Refused h w missed r w') :
    (w.space.boundRoot = none → op.Edits → op.Visitable w.space → w' = w) ∧
      (op.AsksOnce → Rejection h w missed r w') :=
  ⟨fun hb _ _ => hr.1 hb, fun _ => hr.2⟩

/-- A refused operation has changed nothing in a free workspace, and is a rejection where the disk
is asked once. -/
theorem rejection_of_run {op : Operation} (he : op.run h w = (.error (.refused r), w')) :
    (w.space.boundRoot = none → op.Edits → op.Visitable w.space → w' = w) ∧
      (op.AsksOnce → Rejection h w (op.Misses w.space) r w') := by
  cases op with
  | create kind name parentId content => exact (refused_create (eq_of_answered he)).run
  | delete id recursive => exact (refused_delete (eq_of_answered he)).run
  | rename id name => exact (refused_update (eq_of_answered he)).run
  | update id changes => exact (refused_update (eq_of_answered he)).run
  | move id targetId name => exact (refused_move (eq_of_answered he)).run
  | copy id targetId name =>
    exact ⟨fun hb _ hv => refused_copy hb hv (eq_of_answered he), False.elim⟩
  | setContent id content => exact (refused_setContent (eq_of_answered he)).run
  | touch id => exact (refused_touch (eq_of_answered he)).run
  | openTab id => exact ⟨fun _ _ _ => refused_openTab (eq_of_answered he), False.elim⟩
  | bind root => exact ⟨fun _ => False.elim, fun _ => refused_bind (eq_of_answered he)⟩
  | resync => exact ⟨fun _ => False.elim, fun _ => refused_resync (eq_of_answered he)⟩
  | ensureDirectories path cwd => exact ⟨fun _ => False.elim, False.elim⟩
  | closeTab id => exact ⟨fun _ => False.elim, False.elim⟩
  | closeAllTabs => exact ⟨fun _ => False.elim, False.elim⟩
  | unbind => exact ⟨fun _ => False.elim, False.elim⟩

end World

/-! ## What was asked -/

/-- What the refusal of an operation means, from all that the bridge was asked. Where it was asked
for nothing, nothing has changed. Where a call or a listing went wrong, the nodes, the tabs and the
bound root are as they were, and the failure is reported under its kind, with the message that the
bridge gives. Where call and listing succeeded, the workspace has been rebuilt from that listing,
and the operation misses a node in it. There is nothing else that can have been asked. -/
def Operation.Verdict (op : Operation) (now : Timestamp) (asked : List Event) (r : Refusal)
    (w w' : World σ) : Prop :=
  match asked with
  | [] => w' = w
  | [.performed call (.ok (.failed message))] =>
    w'.space = w.space ∧ r.kind = .bridgeFailure ∧ r.message = failureMessage call.operation message
  | [.performed _ (.error e)] => w'.space = w.space ∧ r.kind = e.kind
  | [.listed _ (.error e)] => w'.space = w.space ∧ r.kind = e.kind
  | [.performed _ (.ok (.done _)), .listed _ (.error e)] => w'.space = w.space ∧ r.kind = e.kind
  | [.performed _ (.ok (.done _)), .listed _ (.ok F)] =>
    op.Misses w.space r w'.space ∧ ∃ carried, w'.space = w.space.rebuilt F carried now
  | _ => False

/-- Over a recording bridge, a rejection is what the events say. -/
theorem Rejection.verdict {h : Host σ} {w : World σ} {op : Operation} {r : Refusal}
    {w' : World (σ × List Event)}
    (hr : Rejection h.recorded w.unrecorded (op.Misses w.space) r w') :
    op.Verdict h.now w'.disk.2 r w w'.forget := by
  have hbridge : ∀ {b}, h.recorded.bridge = some b → ∃ b₀ : Bridge σ, b = b₀.recorded := by
    intro b hb
    obtain ⟨b₀, -, rfl⟩ := Option.map_eq_some_iff.1 hb
    exact ⟨b₀, rfl⟩
  have hnone : w.unrecorded.disk.2 = [] := rfl
  cases hr with
  | check r => rfl
  | failed hb hp hk hm =>
    obtain ⟨b₀, rfl⟩ := hbridge hb
    rw [Bridge.recorded_perform hp, hnone, List.nil_append]
    exact ⟨rfl, hk, hm⟩
  | broken hb hp hk =>
    obtain ⟨b₀, rfl⟩ := hbridge hb
    rw [Bridge.recorded_perform hp, hnone, List.nil_append]
    exact ⟨rfl, hk⟩
  | unlisted hb hd hl hk =>
    obtain ⟨b₀, rfl⟩ := hbridge hb
    rw [Bridge.recorded_list hl]
    rcases hd with rfl | ⟨call, path, hp⟩
    · rw [hnone, List.nil_append]
      exact ⟨rfl, hk⟩
    · rw [Bridge.recorded_perform hp, hnone, List.nil_append, List.singleton_append]
      exact ⟨rfl, hk⟩
  | late hb hp hl hm =>
    obtain ⟨b₀, rfl⟩ := hbridge hb
    rw [Bridge.recorded_list hl, Bridge.recorded_perform hp, hnone, List.nil_append,
      List.singleton_append]
    exact ⟨hm, _, rfl⟩

namespace World

variable {h : Host σ} {w : World σ} {r : Refusal} {op : Operation}

/-- A refused operation has changed nothing in a free workspace that is reached, and in any other in
which what it copies can be visited. In a bound one it has changed nothing but the disk, and
failures of the bridge are reported as such, unless it is refused because a node that was there, or
has just been created, is missing from the tree that was rebuilt after the disk did what was
asked. -/
theorem unchanged_of_refused (he : (op.run h w).1 = .error (.refused r)) :
    (w.space.boundRoot = none → op.Edits → w.Reachable ∨ op.Visitable w.space →
      (op.run h w).2 = w) ∧
      (op.AsksOnce → op.Verdict h.now (op.asked h w) r w (op.run h w).2) := by
  refine ⟨fun hb hop hv => ?_, fun hop => ?_⟩
  · have hvisit : op.Visitable w.space := hv.elim (fun hr => hr.sound.visitable op) id
    exact (rejection_of_run (Prod.ext he rfl)).1 hb hop hvisit
  · have hf := op.run_forget h w.unrecorded
    rw [show w.unrecorded.forget = w from rfl] at hf
    have hres : (op.run h.recorded w.unrecorded).1 = .error (.refused r) := by
      rw [← he, hf]
      rfl
    have hv := ((rejection_of_run (Prod.ext hres rfl)).2 hop).verdict
    rw [hf]
    exact hv

def twoFiles : World Nat :=
  ((Operation.create .file "b" rootId "").run ⟨none, default⟩
    ((Operation.create .file "a" rootId "").run ⟨none, default⟩ ⟨.new "/home/user" default, 0⟩).2).2

theorem reachable_twoFiles : twoFiles.Reachable := by
  have hh : Host.Lawful (⟨none, default⟩ : Host Nat) := fun _ hb => nomatch hb
  have hnew : Reachable (⟨.new "/home/user" default, 0⟩ : World Nat) := .new _ _ _
  have hone := hnew.step hh (.create .file "a" rootId "")
  exact hone.step hh (.create .file "b" rootId "")

/-- An update with a name that is taken and with marks, in a free workspace, and a deletion that
the bridge of a bound one does not answer. -/
theorem unchanged_of_taken_and_late :
    let update := Operation.update "n2" { name := some "a", favorite := some true }
    let delete := Operation.delete "n1" true
    ((update.run ⟨none, default⟩ twoFiles).1 = .error (.refused (.nameTaken "a" "/")) ∧
      (update.run ⟨none, default⟩ twoFiles).2 = twoFiles) ∧
    (delete.run lateHost lateWorld).1 = .error (.refused (.bridgeTimedOut "delete")) ∧
      delete.Verdict default (delete.asked lateHost lateWorld) (.bridgeTimedOut "delete") lateWorld
        (delete.run lateHost lateWorld).2 := by
  intro update delete
  have hfree : (update.run ⟨none, default⟩ twoFiles).1 =
      .error (.refused (.nameTaken "a" "/")) := by decide +kernel
  have hlate : (delete.run lateHost lateWorld).1 =
      .error (.refused (.bridgeTimedOut "delete")) := by decide +kernel
  have hunbound : twoFiles.space.boundRoot = none := by decide +kernel
  have hf := (unchanged_of_refused hfree).1 hunbound trivial (.inl reachable_twoFiles)
  have hl := (unchanged_of_refused hlate).2 trivial
  exact ⟨⟨hfree, hf⟩, hlate, hl⟩

/-! ## A refusal that changes the tree -/

/-- A bridge to a link in a directory. The link leads nowhere from any other place, and is listed
only where it leads to a file. The state is whether it has been moved. -/
def linkBridge : Bridge Bool where
  ignored := []
  maxDepth := none
  list now _ isMoved :=
    (.ok [.directory "d" now (if isMoved then [] else [.file "l" "text" 4 now])], isMoved)
  perform _ _ _ := (.ok (.done none), true)

def linkHost : Host Bool := ⟨some linkBridge, default⟩

/-- A workspace that is bound to this bridge, with the link open in a tab. -/
def linkWorld : World Bool :=
  ((Operation.openTab "n2").run linkHost
    ((Operation.bind "/disk").run linkHost ⟨.new "/home/user" default, false⟩).2).2

/-- The link is moved to the root and is not listed there. The move is refused because there is no
such node, and the node and its tab are gone. -/
theorem gone_by_refusal :
    linkWorld.space.boundRoot = some "/disk" ∧ linkWorld.space.pathOf "n2" = "/d/l" ∧
      linkWorld.space.tabs.openIds = ["n2"] ∧
      ((Operation.move "n2" rootId none).run linkHost linkWorld).1 =
        .error (.refused (.noSuchNode "n2")) ∧
      ((Operation.move "n2" rootId none).run linkHost linkWorld).2.space.node? "n2" = none ∧
      ((Operation.move "n2" rootId none).run linkHost linkWorld).2.space.tabs.openIds = [] := by
  decide +kernel

end World

end Workbench
