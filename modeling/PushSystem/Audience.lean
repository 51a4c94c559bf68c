import PushSystem.UserInfoUpdate
import PushSystem.Producer
import PushSystem.Lib.Runs

/-! Producers and updates over the same stores. Each command is a step of its own, and between any two of them
    `TMP_USER_INFO_KEY` may expire. -/

namespace PushSystem
open Redis

/-- A run of `UpdateUserInfo`: its thread, and what its connection to MySQL holds. -/
structure Update where
  thread : Prog.Thread UpdaterOp UpdaterOp.Ret Unit
  result : List UInt64 := []
  affectedRows : UInt64 := 0

/-- `TMP_USER_INFO_KEY` exists, and was computed from keys that existed. -/
def Stores.RealAudience (w : Stores) : Prop := (w.redis tmpUserInfoKey).isSome ∧ w.real = true

instance (w : Stores) : Decidable w.RealAudience :=
  inferInstanceAs (Decidable ((w.redis tmpUserInfoKey).isSome ∧ w.real = true))

/-- The producer processes and the updates. The code does not keep `sources`: whether the `GETRANGE` that a request
    of a process was answered read a real audience. -/
structure Audience where
  stores : Stores := {}
  processes : List Process := []
  updates : List Update := []
  sources : Nat → Nat → Option Bool := fun _ _ => none

inductive AudienceEvent where
  | start
  | update (tag : Tag)
  /-- A step of a process other than a Redis command. -/
  | process (pid : Nat) (e : ProcessEvent)
  /-- One `redisCommand` of the request `i` of a process. -/
  | redis (pid i : Nat) (a : Attempt)
  /-- A call of an update is tried. -/
  | updater (j : Nat)
  | expire

def ProcessEvent.isRedis : ProcessEvent → Bool
  | .call _ (.redisCommand _) => true
  | _ => false

namespace Audience

/-- What a command of a request tells about its source. -/
def note (s : Audience) (pid i : Nat) (cmd : RedisCommand) (a : Attempt) : Nat → Nat → Option Bool :=
  match cmd, a with
  | .getrange _ _ _, .heard =>
    Function.update s.sources pid (Function.update (s.sources pid) i (some (decide s.stores.RealAudience)))
  | _, _ => s.sources

/-- The step of each event that has one outcome, where it can happen. -/
def step (s : Audience) : AudienceEvent → Option Audience
  | .start => some { s with processes := s.processes ++ [{}] }
  | .update tag => some { s with updates := s.updates ++ [{ thread := ⟨updateUserInfo tag, 0⟩ }] }
  | .process pid e => do
    let p ← s.processes[pid]?
    if e.isRedis then none
    else
      let q ← p.step e
      some { s with processes := s.processes.set pid q }
  | .redis pid i a => do
    let p ← s.processes[pid]?
    let h ← p.handlers[i]?
    match h.next with
    | some (.redis cmd) =>
      let q ← p.step (.call i (.redisCommand (s.stores.redisCommand cmd a).1))
      some { s with
        stores := (s.stores.redisCommand cmd a).2
        processes := s.processes.set pid q
        sources := s.note pid i cmd a }
    | _ => none
  | .updater _ => none
  | .expire => do
    let entry ← s.stores.redis tmpUserInfoKey
    if entry.expiry.isNone then none
    else some { s with stores := { s.stores with redis := s.stores.redis.remove tmpUserInfoKey } }

/-- A step: of an event that has one outcome, or of an update, whose calls may fare in any way. -/
inductive Trans (s : Audience) : AudienceEvent → Audience → Prop where
  | step {e t} (h : s.step e = some t) : Trans s e t
  | updater {j u thread t} (hu : s.updates[j]? = some u)
    (h : Prog.Thread.Step updaterTry (u.thread, ⟨s.stores, u.result, u.affectedRows⟩) (thread, t)) :
    Trans s (.updater j)
      { s with stores := t.stores, updates := s.updates.set j ⟨thread, t.result, t.affectedRows⟩ }

end Audience

/-- The runs of producers and updates whose steps meet the condition. At first no process has started, and
    `TMP_USER_INFO_KEY` does not exist or is a real audience. -/
def AudienceReaches (ok : Audience → AudienceEvent → Prop) (s : Audience) : Prop :=
  ∃ w : Stores, ((w.redis tmpUserInfoKey).isSome → w.RealAudience) ∧
    Runs.Reaches (Runs.under Audience.Trans ok) { stores := w } s

end PushSystem
