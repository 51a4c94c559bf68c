import PushSystem.Lib.Prog
import PushSystem.DataHandler
import Mathlib.Data.List.Count

/-! A producer (`producer.cpp`). Each request runs `ProduceMsg` in a thread of its own: it reads the audience from
    Redis and sends a message to each user; the broker's callbacks count the messages down and answer. -/

namespace PushSystem
open Redis Bitmap

def bitsPerByte : Nat := 8

structure ProducerMsg where
  toUid : UInt64
  msgId : UInt32
  deriving DecidableEq

/-! ### `ProduceMsg` -/

/-- The calls of `ProduceMsg`. -/
inductive ProduceMsgOp where
  | lock
  | unlock
  /-- `redisHandler.command` -/
  | redis (cmd : RedisCommand)
  | freeReply
  /-- `string(str, len)` -/
  | copy (str : Option (List Byte)) (len : UInt64)
  | setWaitForSendCount (n : UInt32)
  /-- `AsyncProducerWorker` -/
  | send (body : ProducerMsg)
  /-- `responder_.Finish` -/
  | finish

abbrev ProduceMsgOp.Ret : ProduceMsgOp → Type
  | .redis _ => Option Reply
  | .copy _ _ => List Byte
  | _ => Unit

abbrev ProduceMsgProg := Prog ProduceMsgOp ProduceMsgOp.Ret

namespace ProduceMsgProg

abbrev lock : ProduceMsgProg Unit := Prog.perform ProduceMsgOp.lock

abbrev unlock : ProduceMsgProg Unit := Prog.perform ProduceMsgOp.unlock

abbrev redis (cmd : RedisCommand) : ProduceMsgProg (Option Reply) := Prog.perform (ProduceMsgOp.redis cmd)

abbrev freeReply : ProduceMsgProg Unit := Prog.perform ProduceMsgOp.freeReply

abbrev copy (str : Option (List Byte)) (len : UInt64) : ProduceMsgProg (List Byte) :=
  Prog.perform (ProduceMsgOp.copy str len)

abbrev setWaitForSendCount (n : UInt32) : ProduceMsgProg Unit := Prog.perform (ProduceMsgOp.setWaitForSendCount n)

abbrev send (body : ProducerMsg) : ProduceMsgProg Unit := Prog.perform (ProduceMsgOp.send body)

abbrev finish : ProduceMsgProg Unit := Prog.perform ProduceMsgOp.finish

end ProduceMsgProg

/-- The audience is computed from the three published bitmaps. -/
def bitopAudience : RedisCommand :=
  .bitop .and tmpUserInfoKey (genReleaseKey (userInfoKey 0))
    [genReleaseKey (userInfoKey 1), genReleaseKey (userInfoKey 2)]

def expireAudience : RedisCommand := .expire tmpUserInfoKey (30 * secondsPerMinute)

/-- The creation of `TMP_USER_INFO_KEY`; false if `ProduceMsg` returns. -/
def createTmpUserInfoKey : ProduceMsgProg Bool := do
  match ← ProduceMsgProg.redis bitopAudience with
  | none =>
    ProduceMsgProg.unlock
    return false
  | some reply =>
    if reply.toInteger ≤ 0 then
      ProduceMsgProg.unlock
      return false
    else
      ProduceMsgProg.freeReply
      match ← ProduceMsgProg.redis expireAudience with
      | none =>
        ProduceMsgProg.unlock
        return false
      | some reply =>
        if reply.toInteger = 0 then
          ProduceMsgProg.unlock
          return false
        else
          ProduceMsgProg.freeReply
          return true

/-- The bytes of the range, `userInfoStr`. -/
def readUserInfoStr (startUid endUid : UInt64) : ProduceMsgProg (Option (List Byte)) := do
  match ← ProduceMsgProg.redis (.getrange tmpUserInfoKey (startUid / 8).toNat (endUid / 8).toNat) with
  | none =>
    ProduceMsgProg.unlock
    return none
  | some reply =>
    let userInfoStr ← ProduceMsgProg.copy reply.toStr (endUid / 8 - startUid / 8 + 1)
    ProduceMsgProg.freeReply
    ProduceMsgProg.unlock
    return some userInfoStr

/-- What `ProduceMsg` does under the lock; `none` if it returns an error. -/
def fetchUserInfoStr (startUid endUid : UInt64) : ProduceMsgProg (Option (List Byte)) := do
  ProduceMsgProg.lock
  match ← ProduceMsgProg.redis (.existsKey tmpUserInfoKey) with
  | none =>
    ProduceMsgProg.unlock
    return none
  | some reply =>
    ProduceMsgProg.freeReply
    if reply.toInteger = 0 then
      let ok ← createTmpUserInfoKey
      if !ok then
        return none
      else
        readUserInfoStr startUid endUid
    else
      readUserInfoStr startUid endUid

/-- The loop over the bits of `userInfoStr`. -/
def uidsToSend (startUid : UInt64) (userInfoStr : List Byte) : List UInt64 :=
  (List.range userInfoStr.length).flatMap fun i =>
    (List.range bitsPerByte).filterMap fun j =>
      if userInfoStr.getD i 0 &&& mask j ≠ 0 then some (startUid + UInt64.ofNat (bitsPerByte * i + j)) else none

def sendAll (msgId : UInt32) : List UInt64 → ProduceMsgProg Unit
  | [] => return
  | uid :: uids => do
    ProduceMsgProg.send ⟨uid, msgId⟩
    sendAll msgId uids

/-- What `ProduceMsg` does with the uids. -/
def sendToUids (msgId : UInt32) (uids : List UInt64) : ProduceMsgProg ErrCode := do
  ProduceMsgProg.setWaitForSendCount (UInt32.ofNat uids.length)
  if uids.length ≠ 0 then
    sendAll msgId uids
    return .success
  else
    ProduceMsgProg.finish
    return .success

/-- `ProduceMsg` -/
def produceMsg (request : ProduceMsgRequest) : ProduceMsgProg ErrCode := do
  match ← fetchUserInfoStr request.startUid request.endUid with
  | none => return .err
  | some userInfoStr => sendToUids request.msgId (uidsToSend request.startUid userInfoStr)

/-! ### `ProduceMsgCallData` -/

inductive SendStage where
  /-- The broker has not called back yet. -/
  | inFlight
  /-- `RetrySending` sleeps. -/
  | retrying
  | acked
  deriving DecidableEq

/-- A message with its `ProducerSendCallBack`. -/
structure Send where
  body : ProducerMsg
  stage : SendStage := .inFlight
  deriving DecidableEq

inductive CallStatus where
  | process
  | finish
  deriving DecidableEq

/-- A request that has entered `Proceed`. The code does not keep the last two fields: `sends` are the messages
    given to the broker, and `taskShare` is what the request contributes to `taskCount`. -/
structure ProduceMsgCallData where
  request : ProduceMsgRequest
  status : CallStatus := .process
  reply : ProduceMsgReply := ⟨.err⟩
  waitForSendCount : UInt32 := 0
  /-- The replies given to `responder_.Finish`. -/
  finished : List ProduceMsgReply := []
  sends : List Send := []
  taskShare : Int := 1

/-- What the broker and the retrying threads do. -/
inductive BrokerEvent where
  | onSuccess (k : Nat)
  | onException (k : Nat)
  /-- `RetrySending` wakes up; `send` may throw, and is tried again a second later. -/
  | retrySending (k : Nat) (thrown : Bool)
  deriving DecidableEq

/-- How a call of `ProduceMsg` fares. -/
inductive Outcome where
  | done
  /-- One `redisCommand` and what it returns. -/
  | redisCommand (reply : Option Reply)
  /-- There is no connection, and `connect` fails. -/
  | noConnection
  /-- The copy runs past the end of the reply into `memory`. -/
  | copied (memory : Nat → Byte)
  | thrown

/-- The `max_size` of a string. -/
def maxStringSize : Nat := 2 ^ 62 - 1

/-- Whether `string(str, len)` has to throw. It may also throw for want of memory, whatever its arguments. -/
def copyThrows (str : Option (List Byte)) (len : UInt64) : Bool :=
  (str.isNone && len ≠ 0) || maxStringSize < len.toNat

/-- The `len` bytes from `str` on: its own, the null character at its end, and what follows in memory. -/
def copyBytes (str : List Byte) (len : Nat) (memory : Nat → Byte) : List Byte :=
  (List.range len).map fun i => if i < str.length then str.getD i 0 else if i = str.length then 0 else memory i

namespace ProduceMsgCallData

/-- Answers with `SUCCESS`. -/
def finish (c : ProduceMsgCallData) : ProduceMsgCallData :=
  { c with status := .finish, reply := ⟨.success⟩, finished := c.finished ++ [⟨.success⟩] }

/-- `NotifyOne`, which holds `waitForSndCntMtx` throughout. -/
def notifyOne (c : ProduceMsgCallData) : ProduceMsgCallData :=
  if c.waitForSendCount - 1 = 0 then
    { c.finish with waitForSendCount := c.waitForSendCount - 1, taskShare := c.taskShare - 1 }
  else { c with waitForSendCount := c.waitForSendCount - 1 }

/-- A message enters a stage. -/
def setStage (c : ProduceMsgCallData) (k : Nat) (send : Send) (stage : SendStage) : ProduceMsgCallData :=
  { c with sends := c.sends.set k { send with stage := stage } }

/-- A callback of the broker or a retry, where it can happen. -/
def broker (c : ProduceMsgCallData) : BrokerEvent → Option ProduceMsgCallData
  | .onSuccess k => do
    let send ← c.sends[k]?
    if send.stage = .inFlight then some (c.setStage k send .acked).notifyOne else none
  | .onException k => do
    let send ← c.sends[k]?
    if send.stage = .inFlight then some (c.setStage k send .retrying) else none
  | .retrySending k thrown => do
    let send ← c.sends[k]?
    if send.stage = .retrying then some (if thrown then c else c.setStage k send .inFlight) else none

/-- The messages that the broker has not accepted yet. -/
def outstanding (c : ProduceMsgCallData) : Nat := c.sends.countP fun send => send.stage ≠ .acked

end ProduceMsgCallData

/-- Tries a call for the time number `n`: what it returns, if it does, and what becomes of the request. -/
def ProduceMsgOp.attempt : (o : ProduceMsgOp) → Nat → ProduceMsgCallData → Outcome →
    Option (Option o.Ret × ProduceMsgCallData)
  | .lock, _, c, .done | .unlock, _, c, .done | .freeReply, _, c, .done => some (some (), c)
  | .redis _, n, c, .redisCommand reply => some (RedisHandler.command n reply, c)
  | .redis _, n, c, .noConnection => if n = 0 then some (some none, c) else none
  | .copy str len, _, c, .copied memory =>
    if copyThrows str len then none else some (some (copyBytes (str.getD []) len.toNat memory), c)
  | .setWaitForSendCount n, _, c, .done => some (some (), { c with waitForSendCount := n })
  | .send body, _, c, .done => some (some (), { c with sends := c.sends ++ [⟨body, .inFlight⟩] })
  | .send _, _, c, .thrown => some (none, c)
  | .finish, _, c, .done => some (some (), c.finish)
  | _, _, _, _ => none

def produceMsgTry : Prog.Machine ProduceMsgOp ProduceMsgOp.Ret ProduceMsgCallData :=
  fun o n c r d => ∃ outcome, o.attempt n c outcome = some (r, d)

/-! ### The process -/

/-- A request and the thread that runs `ProduceMsg` for it. -/
structure Handler where
  data : ProduceMsgCallData
  thread : Prog.Thread ProduceMsgOp ProduceMsgOp.Ret ErrCode

namespace Handler

/-- The next call of the thread. -/
def next (h : Handler) : Option ProduceMsgOp :=
  match h.thread.prog with
  | .pure _ => none
  | .call o _ => some o

/-- `ProduceMsg` has not returned. -/
def executing (h : Handler) : Bool := h.next.isSome

/-- One try of the next call. -/
def call (h : Handler) (outcome : Outcome) : Option Handler :=
  match h.thread with
  | ⟨.pure _, _⟩ => none
  | ⟨.call o k, n⟩ =>
    match o.attempt n h.data outcome with
    | none => none
    | some (none, data) => some ⟨data, ⟨.call o k, n + 1⟩⟩
    | some (some r, data) => some ⟨data, ⟨k r, 0⟩⟩

end Handler

structure Process where
  taskCount : Int32 := 0
  redisMtx : Bool := false
  handlers : List Handler := []
  /-- An exception that nothing catches has ended the process. -/
  down : Bool := false

inductive ProcessEvent where
  /-- A request enters `Proceed`. -/
  | receive (request : ProduceMsgRequest)
  | call (i : Nat) (outcome : Outcome)
  /-- The constructor of `userInfoStr` throws. -/
  | throws (i : Nat)
  | broker (i : Nat) (e : BrokerEvent)

/-- `redisMtx` after a call, where it can happen. -/
def ProduceMsgOp.mutex : ProduceMsgOp → Bool → Option Bool
  | .lock, locked => if locked then none else some true
  | .unlock, _ => some false
  | _, locked => some locked

namespace Process

/-- A step of the process, where it can happen. -/
def step (p : Process) (e : ProcessEvent) : Option Process :=
  if p.down then none else
  match e with
  | .receive request =>
    some { p with
      taskCount := p.taskCount + 1
      handlers := p.handlers ++ [⟨{ request := request }, ⟨produceMsg request, 0⟩⟩] }
  | .call i outcome => do
    let h ← p.handlers[i]?
    let o ← h.next
    let redisMtx ← o.mutex p.redisMtx
    let h ← h.call outcome
    some { p with redisMtx := redisMtx, handlers := p.handlers.set i h }
  | .throws i => do
    let h ← p.handlers[i]?
    match h.next with
    | some (.copy _ _) => some { p with down := true }
    | _ => none
  | .broker i e => do
    let h ← p.handlers[i]?
    let data ← h.data.broker e
    -- `NotifyOne` decrements with the answer
    let answered := h.data.finished.length < data.finished.length
    some { p with
      taskCount := if answered then p.taskCount - 1 else p.taskCount
      handlers := p.handlers.set i { h with data := data } }

/-- The requests that `responder_.Finish` has not been called for. -/
def unanswered (p : Process) : Nat := p.handlers.countP fun h => h.data.finished.isEmpty

end Process

/-- The score that `SendLoadBalanceInfo` reports; doubles are exact rationals. -/
def loadBalanceScore (avgTime : ℚ) (taskCount : Int32) : ℚ :=
  if avgTime < 1 / 10000 ∧ taskCount ≠ 0 then 1 / 10000 else calLoadBalanceScore avgTime

end PushSystem
