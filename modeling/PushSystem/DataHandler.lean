import PushSystem.Lib.Redis
import PushSystem.Proto

/-! The two stores and how a command is tried on them (`redisHandler.cpp`, `mysqlHandler.cpp`). A handler
    tries a command three times; a try may reach the server although no answer comes back. -/

namespace PushSystem
open Redis

abbrev RedisCommand := Redis.Command String

/-- A row of a user table; only `push_switch` has the column `opened`. -/
structure UserRow where
  uid : UInt64
  opened : Int := 1
  deriving DecidableEq

/-- The statements that are sent to MySQL. -/
inductive Query where
  /-- `SELECT uid FROM table WHERE uid >= first AND uid < last`, and for `opened` also `AND opened = 1`. -/
  | select (table : String) (first last : Int) (opened : Bool)
  /-- `UPDATE user_info_update_record SET last_update_time = time WHERE type = tag` -/
  | update (tag : Tag) (time : UInt64)
  /-- `INSERT INTO user_info_update_record(type, last_update_time) VALUES(tag, time)` -/
  | insert (tag : Tag) (time : UInt64)
  deriving DecidableEq

/-- Redis and MySQL. The code does not keep the last two fields: `fresh` tells whether the value of
    `TMP_USER_INFO_KEY` was computed after the last `RENAME` that took effect, `real` whether the keys it
    was computed from all existed. -/
structure Stores where
  redis : Redis.Store String := fun _ => none
  tables : String → List UserRow := fun _ => []
  records : List (Tag × UInt64) := []
  fresh : Bool := true
  real : Bool := true

/-- How a try of a command fares. -/
inductive Attempt where
  /-- The server does not execute the command, and no answer or an error comes back. -/
  | lost
  /-- The server executes the command and its answer is lost. -/
  | unheard
  /-- The server executes the command and its answer comes back. -/
  | heard
  deriving DecidableEq

namespace Stores

/-- Redis executes a command. -/
def exec (w : Stores) (cmd : RedisCommand) : Reply × Stores :=
  ((w.redis.exec cmd).1,
    { w with
      redis := (w.redis.exec cmd).2
      fresh :=
        match cmd with
        | .bitop _ dest _ _ => decide (dest = tmpUserInfoKey) || w.fresh
        | .rename key _ => !(w.redis key).isSome && w.fresh
        | _ => w.fresh
      real :=
        match cmd with
        | .bitop _ dest first rest =>
          if dest = tmpUserInfoKey then (first :: rest).all fun key => (w.redis key).isSome else w.real
        | _ => w.real })

/-- One `redisCommand`: what it returns, `none` for a null pointer, and the stores afterwards. -/
def redisCommand (w : Stores) (cmd : RedisCommand) : Attempt → Option Reply × Stores
  | .lost => (none, w)
  | .unheard => (none, (w.exec cmd).2)
  | .heard => (some (w.exec cmd).1, (w.exec cmd).2)

end Stores

def tryCount : Nat := 3

/-- What `RedisHandler::command` returns after its try number `tries`, if it returns: a null pointer or an
    error is tried again. -/
def RedisHandler.command (tries : Nat) : Option Reply → Option (Option Reply)
  | none | some .error => if tries + 1 < tryCount then none else some none
  | some reply => some (some reply)

/-- `RedisHandler::command` from its try number `tries` on, whose tries fare as the list says: what it returns, and
    the stores afterwards. -/
def Stores.command (w : Stores) (cmd : RedisCommand) (tries : Nat) : List Attempt → Option Reply × Stores
  | [] => (none, w)
  | a :: attempts =>
    match RedisHandler.command tries (w.redisCommand cmd a).1 with
    | some result => (result, (w.redisCommand cmd a).2)
    | none => Stores.command (w.redisCommand cmd a).2 cmd (tries + 1) attempts

/-- What `MysqlHandler::command` returns after its try number `tries`, if it returns. -/
def MysqlHandler.command (tries : Nat) (ok : Bool) : Option Bool :=
  if ok then some true else if tries + 1 < tryCount then none else some false

/-! ### MySQL -/

/-- The rows that a `SELECT` selects. -/
def Query.Selects (q : Query) (row : UserRow) : Bool :=
  match q with
  | .select _ first last opened =>
    first ≤ row.uid.toNat && (row.uid.toNat : Int) < last && (!opened || row.opened == 1)
  | _ => false

/-- The result set of a query. -/
def Stores.rows (w : Stores) : Query → List UInt64
  | q@(.select table _ _ _) => ((w.tables table).filter q.Selects).map (·.uid)
  | _ => []

/-- MySQL executes a query: the number of rows it has changed, and the stores afterwards. -/
def Stores.execQuery (w : Stores) : Query → UInt64 × Stores
  | .select _ _ _ _ => (-1, w)
  | .update tag time =>
    (UInt64.ofNat (w.records.filter fun x => x.1 == tag && x.2 != time).length,
      { w with records := w.records.map fun x => if x.1 = tag then (tag, time) else x })
  | .insert tag time => (1, { w with records := w.records ++ [(tag, time)] })

end PushSystem
