import PushSystem.UserInfoCheck
import PushSystem.Producer

/-! The fields `reply` and `result` of the handlers. Each try of a command assigns its field, whatever it holds; what
    it points to is released by `freeReply` and `freeResult`, which the callers have to call. -/

namespace PushSystem
open Redis

/-- A field that points to what a library has allocated, or to nothing. The code does not keep `overwritten`: whether
    it has ever been assigned while it pointed to something. -/
structure Field where
  held : Bool := false
  overwritten : Bool := false
  deriving DecidableEq

namespace Field

/-- Assigns a pointer that may be null. -/
def assign (f : Field) (held : Bool) : Field := ⟨held, f.overwritten || f.held⟩

def free (f : Field) : Field := { f with held := false }

end Field

/-! ### The updater -/

/-- The calls of the updater's process. -/
inductive HandlerOp where
  | updater (o : UpdaterOp)
  /-- `SELECT last_update_time FROM user_info_update_record WHERE type = tag` -/
  | selectTime (tag : Tag)
  /-- `mysql_fetch_row` on the record. -/
  | fetchRow

abbrev HandlerOp.Ret : HandlerOp → Type
  | .updater o => o.Ret
  | .selectTime _ => Bool
  | .fetchRow => Option UInt64

abbrev HandlerProg := Prog HandlerOp HandlerOp.Ret

/-- `UpdateUserInfo` among the calls of the process. -/
def updaterProg (tag : Tag) : HandlerProg Unit := (updateUserInfo tag).interp fun o => Prog.perform (HandlerOp.updater o)

/-- The calls that `CheckAndUpdateUserInfo` makes, with those of `UpdateUserInfo`. -/
def CheckOp.prog : (o : CheckOp) → HandlerProg o.Ret
  | .selectTime tag => Prog.perform (HandlerOp.selectTime tag)
  | .fetchRow => Prog.perform HandlerOp.fetchRow
  | .time => Prog.perform (HandlerOp.updater .time)
  | .freeResult => Prog.perform (HandlerOp.updater .freeResult)
  | .updateUserInfo tag => updaterProg tag

/-- A call of one of the two functions. -/
inductive UpdaterCall where
  | check (tag : Tag)
  | update (tag : Tag)

def UpdaterCall.prog (offset : Int) : UpdaterCall → HandlerProg Unit
  | .check tag => (checkAndUpdateUserInfo offset tag).interp CheckOp.prog
  | .update tag => updaterProg tag

/-- Calls one after another. -/
def updaterCalls (offset : Int) : List UpdaterCall → HandlerProg Unit
  | [] => return
  | c :: calls => do
    c.prog offset
    updaterCalls offset calls

/-- The fields of the two handlers. -/
structure Fields where
  reply : Field := {}
  result : Field := {}

/-- How a try fares. -/
inductive HandlerOutcome where
  /-- There is no connection to Redis, and `connect` fails. -/
  | noConnection
  /-- One `redisCommand` and what it returns. -/
  | redisCommand (reply : Option Reply)
  /-- One `mysql_query`, and whether `mysql_use_result` gives a result set if it succeeds. -/
  | mysqlQuery (ok hasResult : Bool)
  | rows (rows : List UInt64)
  | row (row : Option UInt64)
  | affectedRows (n : Int32)
  | now (now : UInt64)
  | freed

/-- A try of `MysqlHandler::command`. -/
def Fields.mysqlQuery (s : Fields) (n : Nat) (ok hasResult : Bool) : Option Bool × Fields :=
  (MysqlHandler.command n ok, if ok then { s with result := s.result.assign hasResult } else s)

/-- Tries a call for the time number `n`: what it returns, if it does, and what becomes of the fields. -/
def HandlerOp.attempt : (o : HandlerOp) → Nat → Fields → HandlerOutcome → Option (Option o.Ret × Fields)
  | .updater (.redis _), n, s, .redisCommand reply =>
    some (RedisHandler.command n reply, { s with reply := s.reply.assign reply.isSome })
  | .updater (.redis _), n, s, .noConnection => if n = 0 then some (some none, s) else none
  | .updater .freeReply, _, s, .freed => some (some (), { s with reply := s.reply.free })
  | .updater (.mysql _), n, s, .mysqlQuery ok hasResult => some (s.mysqlQuery n ok hasResult)
  | .updater .fetchRows, _, s, .rows rows => some (some rows, s)
  | .updater .affectedRows, _, s, .affectedRows n => some (some n, s)
  | .updater .freeResult, _, s, .freed => some (some (), { s with result := s.result.free })
  | .updater .time, _, s, .now now => some (some now, s)
  | .selectTime _, n, s, .mysqlQuery ok hasResult => some (s.mysqlQuery n ok hasResult)
  | .fetchRow, _, s, .row row => some (some row, s)
  | _, _, _, _ => none

/-- The tries whose outcome meets a condition. -/
def handlerTry (ok : HandlerOp → Nat → Fields → HandlerOutcome → Prop) : Prog.Machine HandlerOp HandlerOp.Ret Fields :=
  fun o n s r t => ∃ outcome, ok o n s outcome ∧ o.attempt n s outcome = some (r, t)

/-! ### A producer -/

/-- A producer's process with the field of its handler. -/
structure ReplyProcess where
  process : Process := {}
  reply : Field := {}

/-- What a try of `ProduceMsg` does to the field. -/
def ProduceMsgOp.replyAfter (f : Field) : ProduceMsgOp → Outcome → Field
  | .redis _, .redisCommand reply => f.assign reply.isSome
  | .freeReply, _ => f.free
  | _, _ => f

namespace ReplyProcess

/-- What a step does to the field. -/
def replyAfter (s : ReplyProcess) : ProcessEvent → Field
  | .call i outcome =>
    match s.process.handlers[i]?.bind Handler.next with
    | some o => o.replyAfter s.reply outcome
    | none => s.reply
  | _ => s.reply

def step (s : ReplyProcess) (e : ProcessEvent) : Option ReplyProcess :=
  (s.process.step e).map fun p => ⟨p, s.replyAfter e⟩

end ReplyProcess

end PushSystem
