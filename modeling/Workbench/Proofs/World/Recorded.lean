import Workbench.Proofs.World.Seen

/-!
# What the bridge is asked

A bridge that writes down what it is asked and what it answers. The workspace cannot tell it from
the bridge itself: every operation ends in the same way and leads to the same world
(`Operation.run_forget`). What an operation asks of the disk, `Operation.asked`, is therefore what
is written down when it runs over the recording bridge.
-/

namespace Workbench

variable {σ α : Type}

/-- A question to the bridge with its answer. -/
inductive Event where
  | performed (call : DiskCall) (answer : Except Breakdown DiskAnswer)
  | listed (root : String) (answer : Except Breakdown (List DiskEntry))

/-- The same bridge, which writes down what it is asked. -/
def Bridge.recorded (b : Bridge σ) : Bridge (σ × List Event) where
  ignored := b.ignored
  maxDepth := b.maxDepth
  list now root s :=
    ((b.list now root s.1).1,
      ((b.list now root s.1).2, s.2 ++ [.listed root (b.list now root s.1).1]))
  perform now call s :=
    ((b.perform now call s.1).1,
      ((b.perform now call s.1).2, s.2 ++ [.performed call (b.perform now call s.1).1]))

theorem Bridge.recorded_perform {b : Bridge σ} {now : Timestamp} {call : DiskCall}
    {s d : σ × List Event} {a : Except Breakdown DiskAnswer}
    (h : b.recorded.perform now call s = (a, d)) : d.2 = s.2 ++ [.performed call a] := by
  obtain ⟨rfl, rfl⟩ := Prod.mk.inj h
  rfl

theorem Bridge.recorded_list {b : Bridge σ} {now : Timestamp} {root : String}
    {s d : σ × List Event} {a : Except Breakdown (List DiskEntry)}
    (h : b.recorded.list now root s = (a, d)) : d.2 = s.2 ++ [.listed root a] := by
  obtain ⟨rfl, rfl⟩ := Prod.mk.inj h
  rfl

def Host.recorded (h : Host σ) : Host (σ × List Event) := ⟨h.bridge.map Bridge.recorded, h.now⟩

/-- The world without what is written down. -/
def World.forget (w : World (σ × List Event)) : World σ := ⟨w.space, w.disk.1⟩

/-- The world with nothing written down yet. -/
def World.unrecorded (w : World σ) : World (σ × List Event) := ⟨w.space, (w.disk, [])⟩

/-- What an operation asks of the bridge, in order. -/
def Operation.asked (h : Host σ) (w : World σ) (op : Operation) : List Event :=
  (op.run h.recorded w.unrecorded).2.disk.2

/-- A result together with the world, without what is written down. -/
def World.forgotten (o : α × World (σ × List Event)) : α × World σ := (o.1, o.2.forget)

theorem Host.shows_recorded (h : Host σ) : h.recorded.Shows Prod.fst h := by
  obtain ⟨_ | b, now⟩ := h
  · exact .free _ now
  · show Shows ⟨some b.recorded, now⟩ Prod.fst ⟨some b, now⟩
    apply Shows.bridged
    · rfl
    · rfl
    · exact fun _ _ _ => rfl
    · exact fun _ _ _ => rfl

/-- The workspace cannot tell a recording bridge from the bridge itself. -/
theorem Operation.run_forget (h : Host σ) (w : World (σ × List Event)) (op : Operation) :
    op.run h w.forget = World.forgotten (op.run h.recorded w) :=
  op.run_seen h.shows_recorded w

end Workbench
