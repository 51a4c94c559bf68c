import PushSystem.Producer

/-! The requests of a producer as objects (`handler_interface.h`, `ProduceMsgCallData::Proceed`). The tag of a call of
    `responder_.Finish` comes out of the completion queue at any time after it, and `Proceed` then deletes the request.
    `NotifyOne` calls `Finish` under `waitForSndCntMtx`, which is part of the request, and unlocks it afterwards. -/

namespace PushSystem

/-- `notifying` are the requests whose `NotifyOne` has called `Finish` and has still to unlock. `aborted` is set when
    the assertion of `Proceed` has failed. -/
structure CallDataHeap where
  process : Process := {}
  notifying : List Nat := []
  deleted : List Nat := []
  aborted : Bool := false

inductive HeapEvent where
  /-- A step of the process; a `NotifyOne` that answers comes as far as its `Finish`. -/
  | process (e : ProcessEvent)
  /-- `NotifyOne` unlocks. -/
  | unlock (i : Nat)
  /-- The tag of `Finish` comes out of the completion queue, and `Proceed` runs once more. -/
  | proceed (i : Nat)

/-- How often `responder_.Finish` has been called for the request. -/
def Process.finishes (p : Process) (i : Nat) : Nat := (p.handlers[i]?.map fun h => h.data.finished.length).getD 0

/-- The request that the broker's call of `NotifyOne` is for. -/
def ProcessEvent.notified : ProcessEvent → Option Nat
  | .broker i (.onSuccess _) => some i
  | _ => none

namespace CallDataHeap

/-- The step of each event, where it can happen; `NotifyOne` waits for the lock. -/
def step (m : CallDataHeap) (e : HeapEvent) : Option CallDataHeap :=
  if m.aborted || m.process.down then none else
  match e with
  | .process e =>
    if ∃ i ∈ e.notified, i ∈ m.notifying then none
    else (m.process.step e).map fun q =>
      { m with
        process := q
        notifying := (e.notified.toList.filter fun i => m.process.finishes i < q.finishes i) ++ m.notifying }
  | .unlock i => if i ∈ m.notifying then some { m with notifying := m.notifying.erase i } else none
  | .proceed i => do
    let h ← m.process.handlers[i]?
    if m.deleted.count i < h.data.finished.length then
      some (if h.data.status = .finish then { m with deleted := i :: m.deleted } else { m with aborted := true })
    else none

end CallDataHeap

/-- The event is about the request `i`: it reads or writes the object, or deletes it. -/
def HeapEvent.Touches (i : Nat) : HeapEvent → Prop
  | .process (.receive _) => False
  | .process (.call j _) | .process (.throws j) | .process (.broker j _) | .unlock j | .proceed j => j = i

end PushSystem
