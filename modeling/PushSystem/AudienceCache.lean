import PushSystem.Lib.Runs
import PushSystem.Producer

/-! The requests of a producer, one after another, over a Redis server that may fail at any try. Between two tries
    `TMP_USER_INFO_KEY` may be removed, because its time is over or by an update, and the other keys may change. -/

namespace PushSystem
open Redis

/-- The code does not keep `executed`: whether Redis has executed a try of the command that is being tried. -/
structure CacheState where
  stores : Stores
  executed : Bool := false

/-- How a try of a command fares. -/
inductive CacheOutcome where
  /-- There is no connection, and `connect` fails. -/
  | noConnection
  | attempt (a : Attempt)
  /-- `EXPIRE` is answered by 0 and sets nothing. -/
  | refused

namespace CacheState

/-- One `redisCommand`. -/
def tried (s : CacheState) (cmd : RedisCommand) (a : Attempt) : CacheState :=
  ⟨(s.stores.redisCommand cmd a).2, s.executed || decide (a ≠ .lost)⟩

/-- Tries a command for the time number `n`: what `RedisHandler::command` returns, if it does. -/
def attempt (s : CacheState) (cmd : RedisCommand) (n : Nat) : CacheOutcome → Option (Option (Option Reply) × CacheState)
  | .noConnection => if n = 0 then some (some none, { s with executed := false }) else none
  | .attempt a =>
    match RedisHandler.command n (s.stores.redisCommand cmd a).1 with
    | none => some (none, s.tried cmd a)
    | some result => some (some result, { s.tried cmd a with executed := false })
  | .refused => if cmd = expireAudience then some (some (some (.integer 0)), { s with executed := false }) else none

/-- What happens beside the requests. -/
def Others (s t : CacheState) : Prop :=
  t.executed = s.executed ∧
    (t.stores.redis tmpUserInfoKey = none ∨ t.stores.redis tmpUserInfoKey = s.stores.redis tmpUserInfoKey)

end CacheState

/-- The tries of the calls of `ProduceMsg` whose outcome meets a condition. -/
def cacheTry (ok : CacheState → RedisCommand → Nat → CacheOutcome → Prop) :
    Prog.Machine ProduceMsgOp ProduceMsgOp.Ret CacheState
  | .redis cmd, n, s, r, t => ∃ outcome, ok s cmd n outcome ∧ s.attempt cmd n outcome = some (r, t)
  | _, _, s, _, t => t = s

/-- A request from its call of `ProduceMsg` to the return. -/
def serves (ok : CacheState → RedisCommand → Nat → CacheOutcome → Prop) : Runs.Trans CacheState ProduceMsgRequest :=
  fun s request t => ∃ code, Prog.Returns (cacheTry ok) CacheState.Others (produceMsg request) s code t

end PushSystem
