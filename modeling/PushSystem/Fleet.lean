import PushSystem.Audience
import PushSystem.Daemon.System

/-! The daemon and the producers it calls. A call reaches a producer that listens at the address of its stub and
    becomes a request there; what that request gives to `responder_.Finish` is the reply to the call. A call may
    also fail, whether or not it has reached a producer. -/

namespace PushSystem
open Redis Bitmap

/-- The code does not keep the last two fields: which request of which process a call has become, and the bitmap that
    the `GETRANGE` of a request was answered from. -/
structure Fleet where
  daemon : State := {}
  audience : Audience := {}
  /-- Where each process listens. -/
  addresses : List String := []
  received : Nat → Option (Nat × Nat) := fun _ => none
  bitmaps : Nat → Nat → Option (List Byte) := fun _ _ => none

inductive FleetEvent where
  | start (address : String)
  /-- A step of the daemon other than the arrival of a reply. -/
  | daemon (e : Event)
  /-- A step of the producers, the updates or Redis other than the start of a process or the arrival of a call. -/
  | audience (e : AudienceEvent)
  /-- A call reaches a process. -/
  | receive (call pid : Nat)
  /-- The reply to a call reaches the daemon. -/
  | reply (call : Nat)

def Event.isReply : Event → Bool
  | .completion _ (.reply _) => true
  | _ => false

/-- A process starts or a call arrives. -/
def AudienceEvent.isArrival : AudienceEvent → Bool
  | .start | .process _ (.receive _) => true
  | _ => false

namespace Fleet

/-- The bitmaps after a Redis command of a request. -/
def note (f : Fleet) : AudienceEvent → Nat → Nat → Option (List Byte)
  | .redis pid i .heard =>
    match (f.audience.processes[pid]?.bind fun p => p.handlers[i]?).bind Handler.next with
    | some (.redis (.getrange key _ _)) =>
      Function.update f.bitmaps pid (Function.update (f.bitmaps pid) i (some (f.audience.stores.redis.value key)))
    | _ => f.bitmaps
  | _ => f.bitmaps

/-- The step of each event that has one outcome, where it can happen. -/
def step (f : Fleet) : FleetEvent → Option Fleet
  | .start address => do
    let audience ← f.audience.step .start
    some { f with audience, addresses := f.addresses ++ [address] }
  | .daemon e =>
    if e.isReply then none
    else do
      let daemon ← f.daemon.step e
      some { f with daemon }
  | .audience e =>
    if e.isArrival then none
    else do
      let audience ← f.audience.step e
      some { f with audience, bitmaps := f.note e }
  | .receive call pid => do
    let c ← f.daemon.calls[call]?
    let stub ← c.stub
    let address ← f.addresses[pid]?
    let p ← f.audience.processes[pid]?
    -- a call is received once, where its stub leads to
    if f.received call = none ∧ stub.address = address then
      let audience ← f.audience.step (.process pid (.receive c.request))
      some { f with audience, received := Function.update f.received call (some (pid, p.handlers.length)) }
    else none
  | .reply call => do
    let (pid, i) ← f.received call
    let p ← f.audience.processes[pid]?
    let h ← p.handlers[i]?
    let reply ← h.data.finished.head?
    let daemon ← f.daemon.step (.completion call (.reply reply.err))
    some { f with daemon }

/-- A step: of an event that has one outcome, or of an update, whose calls may fare in any way. -/
inductive Trans (f : Fleet) : FleetEvent → Fleet → Prop where
  | step {e g} (h : f.step e = some g) : Trans f e g
  | updater {j audience} (h : f.audience.Trans (.updater j) audience) :
    Trans f (.audience (.updater j)) { f with audience }

/-- The rows of the user tables change. -/
def write (f : Fleet) (tables : String → List UserRow) : Fleet :=
  { f with audience := { f.audience with stores := { f.audience.stores with tables } } }

end Fleet

/-- A step of the fleet, or of those who write the user tables. -/
inductive ServiceEvent where
  | fleet (e : FleetEvent)
  | write (tables : String → List UserRow)

inductive Fleet.ServiceTrans (f : Fleet) : ServiceEvent → Fleet → Prop where
  | fleet {e g} (h : f.Trans e g) : ServiceTrans f (.fleet e) g
  | write {tables} : ServiceTrans f (.write tables) (f.write tables)

/-- The runs of the daemon and the producers whose steps meet the condition, from any stores. -/
def FleetReaches (ok : Fleet → FleetEvent → Prop) (f : Fleet) : Prop :=
  ∃ w : Stores, Runs.Reaches (Runs.under Fleet.Trans ok) { audience := { stores := w } } f

end PushSystem
