import PushSystem.Lib.Prog
import PushSystem.DataHandler
import Mathlib.Algebra.Field.Rat

/-! The updater (`userInfoUpdate.cpp`): it reads a user table from MySQL window by window, writes it to
    Redis as a bitmap and publishes the bitmap. -/

namespace PushSystem
open Redis Bitmap

def countsPerLoop : UInt64 := 10240

def endUid : UInt64 := 100000000

def diffPercentage : ℚ := 100

def tableNames : Tag → String
  | 0 => "official_fans"
  | 1 => "month_active_users"
  | 2 => "push_switch"

/-- `GenSQL` -/
def genSQL (tag : Tag) (beginUid : Int) : Query :=
  .select (tableNames tag) beginUid (beginUid + countsPerLoop.toNat) (tag = 2)

/-! ### Calls -/

/-- The calls of the updater. -/
inductive UpdaterOp where
  /-- `redisHandler.command` -/
  | redis (cmd : RedisCommand)
  | freeReply
  /-- `mysqlHandler.command` -/
  | mysql (q : Query)
  /-- `mysql_fetch_row` up to the first null pointer. -/
  | fetchRows
  | affectedRows
  | freeResult
  | time

abbrev UpdaterOp.Ret : UpdaterOp → Type
  | .redis _ => Option Reply
  | .freeReply | .freeResult => Unit
  | .mysql _ => Bool
  | .fetchRows => List UInt64
  | .affectedRows => Int32
  | .time => UInt64

abbrev UpdaterProg := Prog UpdaterOp UpdaterOp.Ret

namespace UpdaterProg

abbrev redis (cmd : RedisCommand) : UpdaterProg (Option Reply) := Prog.perform (UpdaterOp.redis cmd)

abbrev freeReply : UpdaterProg Unit := Prog.perform UpdaterOp.freeReply

abbrev mysql (q : Query) : UpdaterProg Bool := Prog.perform (UpdaterOp.mysql q)

abbrev fetchRows : UpdaterProg (List UInt64) := Prog.perform UpdaterOp.fetchRows

abbrev affectedRows : UpdaterProg Int32 := Prog.perform UpdaterOp.affectedRows

abbrev freeResult : UpdaterProg Unit := Prog.perform UpdaterOp.freeResult

abbrev time : UpdaterProg UInt64 := Prog.perform UpdaterOp.time

end UpdaterProg

/-- The stores, and what the connection to MySQL holds: the rows of the result set that are still to be
    fetched, and the number of rows that the last statement changed. -/
structure UpdaterState where
  stores : Stores
  result : List UInt64 := []
  affectedRows : UInt64 := 0

namespace UpdaterState

def exec (s : UpdaterState) (cmd : RedisCommand) : UpdaterState := { s with stores := (s.stores.exec cmd).2 }

/-- MySQL executes a query whose result comes back. -/
def query (s : UpdaterState) (q : Query) : UpdaterState :=
  ⟨(s.stores.execQuery q).2, s.stores.rows q, (s.stores.execQuery q).1⟩

/-- One `mysql_query`; without an answer the result is unknown. -/
def mysqlQuery (s : UpdaterState) (q : Query) : Attempt → UpdaterState
  | .lost => s
  | .unheard => { s with stores := (s.stores.execQuery q).2 }
  | .heard => s.query q

/-- `mysql_affected_rows`, in the `int32_t` that keeps it. -/
def mysqlAffectedRows (s : UpdaterState) : Int32 := s.affectedRows.toUInt32.toInt32

end UpdaterState

/-- How a call fares at its try number `n`. -/
def updaterTry : Prog.Machine UpdaterOp UpdaterOp.Ret UpdaterState
  | .redis cmd, n, s, r, t =>
    -- `connect` fails before the first try
    (n = 0 ∧ r = some none ∧ t = s) ∨
    ∃ a, r = RedisHandler.command n (s.stores.redisCommand cmd a).1 ∧
      t = { s with stores := (s.stores.redisCommand cmd a).2 }
  | .freeReply, _, s, r, t => r = some () ∧ t = s
  | .mysql q, n, s, r, t => ∃ a, r = MysqlHandler.command n (decide (a = .heard)) ∧ t = s.mysqlQuery q a
  -- a null pointer is the end of the result set or an error part way through it
  | .fetchRows, _, s, r, t => ∃ m, r = some (s.result.take m) ∧ t = { s with result := s.result.drop m }
  | .affectedRows, _, s, r, t => r = some s.mysqlAffectedRows ∧ t = s
  | .freeResult, _, s, r, t => r = some () ∧ t = { s with result := [] }
  | .time, _, s, r, t => (∃ now, r = some now) ∧ t = s

/-! ### `UpdateUserInfo` -/

/-- The bitmap of a window: the bits `row2Uid - uid` of `COUNTS_PER_LOOP / 8` bytes. -/
def windowBitmap (uid : UInt64) (rows : List UInt64) : List Byte :=
  rows.foldl (fun bitmap row2Uid => setBit bitmap (row2Uid - uid).toNat) (List.replicate (countsPerLoop.toNat / 8) 0)

/-- The loop over the windows from `uid` on; false if it stops the update. -/
def updateWindows (tag : Tag) (uid : UInt64) : UpdaterProg Bool :=
  if _ : uid ≤ endUid then do
    let ok ← UpdaterProg.mysql (genSQL tag uid.toNat)
    if !ok then
      return false
    else
      let rows ← UpdaterProg.fetchRows
      let reply ← UpdaterProg.redis
        (.setrange (genTempKey (userInfoKey tag)) (uid.toNat / 8) (windowBitmap uid rows))
      if reply.isNone then
        return false
      else
        UpdaterProg.freeReply
        UpdaterProg.freeResult
        updateWindows tag (uid + countsPerLoop)
  else
    return true
termination_by endUid.toNat + countsPerLoop.toNat - uid.toNat
decreasing_by
  have hle : uid.toNat ≤ 100000000 := UInt64.le_iff_toNat_le.mp ‹_›
  simp only [endUid, countsPerLoop, UInt64.toNat_add, UInt64.reduceToNat]
  omega

/-- The bits that differ are fewer than `DIFF_PERCENTAGE` of `END_UID`. -/
def acceptsDiff (bitcounts : UInt32) : Bool := (bitcounts.toNat : ℚ) * 100 / endUid.toNat < diffPercentage

/-- The check of the new bitmap against the published one; `none` stops the update. -/
def checkDiff (tag : Tag) : UpdaterProg (Option Bool) := do
  let key := userInfoKey tag
  let reply ← UpdaterProg.redis (.bitop .xor (genDiffKey key) (genReleaseKey key) [genTempKey key])
  if reply.isNone then
    return none
  else
    UpdaterProg.freeReply
    match ← UpdaterProg.redis (.bitcount (genDiffKey key)) with
    | none => return none
    | some reply =>
      UpdaterProg.freeReply
      let _ ← UpdaterProg.redis (.del (genDiffKey key))
      UpdaterProg.freeReply
      return some (acceptsDiff (UInt32.ofNat reply.toInteger))

/-- The record of the update in MySQL; false if it stops the update. -/
def recordUpdate (tag : Tag) : UpdaterProg Bool := do
  let now ← UpdaterProg.time
  let ok ← UpdaterProg.mysql (.update tag now)
  if !ok then
    return false
  else
    let affectedRows ← UpdaterProg.affectedRows
    UpdaterProg.freeResult
    if affectedRows ≤ 0 then
      let ok ← UpdaterProg.mysql (.insert tag now)
      if !ok then
        return false
      else
        UpdaterProg.freeResult
        return true
    else
      return true

/-- What follows the `RENAME`: the record of the update, and the removal of the audience that was computed
    from the old bitmap. -/
def recordAndDrop (tag : Tag) : UpdaterProg Unit := do
  let ok ← recordUpdate tag
  if !ok then
    return
  else
    let _ ← UpdaterProg.redis (.del tmpUserInfoKey)
    UpdaterProg.freeReply

/-- What follows when the new bitmap is accepted. -/
def publish (tag : Tag) : UpdaterProg Unit := do
  let key := userInfoKey tag
  let reply ← UpdaterProg.redis (.rename (genTempKey key) (genReleaseKey key))
  if reply.isNone then
    return
  else
    UpdaterProg.freeReply
    recordAndDrop tag

/-- What follows the loop over the windows. -/
def checkAndPublish (tag : Tag) : UpdaterProg Unit := do
  match ← UpdaterProg.redis (.existsKey (genReleaseKey (userInfoKey tag))) with
  | none => return
  | some reply =>
    UpdaterProg.freeReply
    if reply.toInteger = 0 then
      publish tag
    else
      match ← checkDiff tag with
      | none => return
      | some ok => if ok then publish tag else return

/-- `UpdateUserInfo` -/
def updateUserInfo (tag : Tag) : UpdaterProg Unit := do
  let reply ← UpdaterProg.redis (.del (genTempKey (userInfoKey tag)))
  if reply.isNone then
    return
  else
    UpdaterProg.freeReply
    let ok ← updateWindows tag 0
    if !ok then
      return
    else
      checkAndPublish tag

end PushSystem
