import PushSystem.Lib.OrdMap
import PushSystem.Proto
import Mathlib.Algebra.Field.Rat

/-! The daemon's global tables and the critical sections that update them (`daemonServer.cpp`). Each
    function is what one thread does between taking `gSvrInfoMutex` and releasing it. -/

namespace PushSystem

/-- A channel stub; `serial` tells apart the stubs that were created. -/
structure Stub where
  serial : Nat
  address : String
  deriving DecidableEq

/-- An entry of `gSvrId2SvrInfo`; times are in seconds. -/
structure ServerInfo where
  address : String
  procName : String
  groupId : UInt32
  timestamp : Int
  score : ℚ
  deriving DecidableEq

/-- `ServerInfo(addr, proc, grp, ts)` -/
def ServerInfo.make (addr proc : String) (grp : UInt32) (ts : Int) : ServerInfo := ⟨addr, proc, grp, ts, 0⟩

/-- An entry of `gSvrId2ProducerState`. The default one has no stub. -/
structure ProducerState where
  producerCaller : Option Stub := none
  curTaskCount : UInt32 := 0
  failCount : UInt32 := 0
  deriving DecidableEq

structure Daemon where
  gSvrId2SvrInfo : OrdMap UInt64 ServerInfo := ∅
  gRank2SvrId : OrdMap ℚ UInt64 := ∅
  gSvrId2ProducerState : OrdMap UInt64 ProducerState := ∅
  gSetIdleProducer : OrdSet UInt64 := ∅
  sendingCount : UInt32 := 0
  /-- The number of stubs created so far. -/
  stubs : Nat := 0

def uidCountPerTime : UInt64 := 4096

def failCountLimit : UInt32 := 50

/-- Seconds. -/
def aliveDuration : Int := 10

/-- The process name of the servers that produce messages. -/
def producerName : String := "producer"

/-! ### Reading a peer and a score -/

/-- The host of a peer `scheme:host:port`, or the empty string. -/
def parseAndGetIp (peer : String) : String :=
  match peer.toList.splitOn ':' with
  | [_, host, _] => if host.isEmpty then "" else String.ofList host
  | _ => ""

/-- The value of a run of decimal digits. -/
def digitsValue (cs : List Char) : Nat := cs.foldl (fun n c => 10 * n + (c.toNat - '0'.toNat)) 0

/-- An optional sign; true for a minus. -/
def takeSign : List Char → Bool × List Char
  | '-' :: cs => (true, cs)
  | '+' :: cs => (false, cs)
  | cs => (false, cs)

def applySign (negative : Bool) (x : ℚ) : ℚ := if negative then -x else x

/-- The exponent that may follow a mantissa; `none` when it starts but has no digit. -/
def takeExponent : List Char → Option ℚ
  | c :: cs =>
    if c = 'e' ∨ c = 'E' then
      let (negative, cs) := takeSign cs
      let digits := cs.takeWhile Char.isDigit
      if digits.isEmpty then none
      else some (if negative then 1 / 10 ^ digitsValue digits else 10 ^ digitsValue digits)
    else some 1
  | [] => some 1

/-- The white space of the C locale. -/
def isSpace (c : Char) : Bool :=
  c = ' ' ∨ c = '\t' ∨ c = '\n' ∨ c = '\x0b' ∨ c = '\x0c' ∨ c = '\r'

/-- `ssScore >> score`: nothing but white space leaves the variable as it was, text that is no number
    stores 0. -/
def extractScore (text : String) (score : ℚ) : ℚ :=
  match text.toList.dropWhile isSpace with
  | [] => score
  | cs =>
    let (negative, cs) := takeSign cs
    let whole := cs.takeWhile Char.isDigit
    let rest := cs.dropWhile Char.isDigit
    let (fraction, rest) :=
      match rest with
      | '.' :: rest => (rest.takeWhile Char.isDigit, rest.dropWhile Char.isDigit)
      | rest => ([], rest)
    if whole.isEmpty ∧ fraction.isEmpty then 0
    else
      match takeExponent rest with
      | none => 0
      | some power => applySign negative ((digitsValue (whole ++ fraction) : ℚ) / 10 ^ fraction.length * power)

namespace Daemon

/-! ### Rebalance -/

/-- The loop of `Rebalance` over the entries of `gSvrId2SvrInfo` that are left. The log line reads
    `gSvrId2ProducerState` with `operator[]`, which inserts a missing entry. -/
def rebalanceLoop : List (UInt64 × ServerInfo) → ℚ → Daemon → Daemon
  | [], _, d => d
  | (svrId, info) :: rest, rank, d =>
    rebalanceLoop rest (rank + info.score)
      { d with
        gSvrId2ProducerState := d.gSvrId2ProducerState.insertNew svrId {}
        gRank2SvrId := d.gRank2SvrId.set (rank + info.score) svrId }

def rebalance (d : Daemon) : Daemon := rebalanceLoop d.gSvrId2SvrInfo.entries 0 { d with gRank2SvrId := ∅ }

/-! ### Requests -/

/-- Draws are written as numerals. -/
instance neZero_draws : NeZero (2 ^ 31) := ⟨by decide⟩

/-- The id a registration is given: a random one when no server is known, else one more than the
    greatest. -/
def newServerId (d : Daemon) (draw : Fin (2 ^ 31)) : UInt64 :=
  match d.gSvrId2SvrInfo.last? with
  | none => UInt64.ofNat draw
  | some x => x.1 + 1

/-- What `ClientRegisterCallData::Proceed` does for producers only, before `Rebalance`: the score of the
    entry under `serverId`, a fresh stub, an idle producer. -/
def addProducer (d : Daemon) (serverId : UInt64) (addr : String) : Daemon :=
  { d with
    gSvrId2SvrInfo :=
      match d.gSvrId2SvrInfo.find? serverId with
      | some info => d.gSvrId2SvrInfo.set serverId { info with score := calLoadBalanceScore 0 }
      | none => d.gSvrId2SvrInfo
    gSvrId2ProducerState := d.gSvrId2ProducerState.set serverId { producerCaller := some ⟨d.stubs, addr⟩ }
    gSetIdleProducer := d.gSetIdleProducer.set serverId ()
    stubs := d.stubs + 1 }

/-- `ClientRegisterCallData::Proceed` -/
def clientRegister (d : Daemon) (req : ClientRegisterRequest) (peer : String) (draw : Fin (2 ^ 31)) (now : Int) :
    ClientRegisterReply × Daemon :=
  let serverId := d.newServerId draw
  let addr := parseAndGetIp peer ++ ":" ++ req.listeningPort
  let d := { d with
    gSvrId2SvrInfo := d.gSvrId2SvrInfo.insertNew serverId (.make addr req.procName req.groupId now) }
  (⟨.success, serverId⟩, if producerName = req.procName then (d.addProducer serverId addr).rebalance else d)

/-- `HeartBeatCallData::Proceed` -/
def heartBeat (d : Daemon) (req : HeartBeatRequest) (now : Int) : HeartBeatReply × Daemon :=
  match d.gSvrId2SvrInfo.find? req.serverId with
  | none => (⟨.err⟩, d)
  | some info =>
    (⟨.success⟩, { d with gSvrId2SvrInfo := d.gSvrId2SvrInfo.set req.serverId { info with timestamp := now } })

/-- `LoadBalanceCallData::Proceed`; `score` is what the uninitialised variable holds. -/
def loadBalance (d : Daemon) (req : LoadBalanceRequest) (score : ℚ) : LoadBalanceReply × Daemon :=
  match d.gSvrId2SvrInfo.find? req.serverId with
  | none => (⟨.err⟩, d)
  | some info =>
    (⟨.success⟩, { d with
      gSvrId2SvrInfo := d.gSvrId2SvrInfo.set req.serverId { info with score := extractScore req.score score } })

/-! ### Choosing a producer and sending -/

/-- What one look at the tables in `SelectProducerAndSend` leads to: a producer of one of the two
    branches, a read past the end of `gRank2SvrId`, or waiting. -/
inductive Selection where
  | idle (svrId : UInt64)
  | ranked (svrId : UInt64)
  | pastEnd
  | wait
  deriving DecidableEq

/-- The branch for busy producers: `draw` over the factor 10000 of the greatest rank. -/
def selectRanked (d : Daemon) (draw : Fin 10001) : Selection :=
  match d.gRank2SvrId.last? with
  | none => .pastEnd
  | some top =>
    match d.gRank2SvrId.lowerBound ((draw.val : ℚ) / 10000 * top.1) with
    | some x => .ranked x.2
    | none => .pastEnd

/-- The three branches of `ServerImpl::SelectProducerAndSend`. -/
def select (d : Daemon) (draw : Fin 10001) : Selection :=
  let producerSize := UInt32.ofNat d.gSvrId2ProducerState.size
  match d.gSetIdleProducer.first? with
  | some x => .idle x.1
  | none => if d.sendingCount ≤ 3 * producerSize ∧ producerSize ≠ 0 then d.selectRanked draw else .wait

/-- The stub that a call to `svrId` goes through: `gSvrId2ProducerState[svrId]`. -/
def stubOf (d : Daemon) (svrId : UInt64) : Option Stub :=
  ((d.gSvrId2ProducerState.find? svrId).getD {}).producerCaller

/-- Both dispatching branches count the call, here and at the producer's entry, which `operator[]`
    makes if it is missing. -/
def countSend (d : Daemon) (svrId : UInt64) : Daemon :=
  let producerState := (d.gSvrId2ProducerState.find? svrId).getD {}
  { d with
    sendingCount := d.sendingCount + 1
    gSvrId2ProducerState :=
      d.gSvrId2ProducerState.set svrId { producerState with curTaskCount := producerState.curTaskCount + 1 } }

/-- The idle branch takes the producer out of `gSetIdleProducer` first. -/
def sendIdle (d : Daemon) (svrId : UInt64) : Daemon :=
  countSend { d with gSetIdleProducer := d.gSetIdleProducer.erase svrId } svrId

/-! ### Completions -/

/-- The first critical section of `ProduceMsgAsyncCall::OnResponseFail`: the circuit breaker. -/
def countFailure (d : Daemon) (svrId : UInt64) : Daemon :=
  match d.gSvrId2ProducerState.find? svrId with
  | none => d
  | some p =>
    if p.failCount + 1 > failCountLimit then
      rebalance
        { d with
          gSetIdleProducer := d.gSetIdleProducer.erase svrId
          gSvrId2ProducerState := d.gSvrId2ProducerState.erase svrId
          gSvrId2SvrInfo := d.gSvrId2SvrInfo.erase svrId }
    else { d with
      gSvrId2ProducerState := d.gSvrId2ProducerState.set svrId { p with failCount := p.failCount + 1 } }

/-- `DecreaseProducerTask` -/
def decreaseProducerTask (d : Daemon) (svrId : UInt64) : Daemon :=
  let d := { d with sendingCount := d.sendingCount - 1 }
  match d.gSvrId2ProducerState.find? svrId with
  | none => d
  | some p =>
    let curTask := p.curTaskCount - 1
    { d with
      gSvrId2ProducerState := d.gSvrId2ProducerState.set svrId { p with curTaskCount := curTask }
      gSetIdleProducer := if 0 ≥ curTask then d.gSetIdleProducer.set svrId () else d.gSetIdleProducer }

/-! ### The sweep -/

/-- `difftime(now, timestamp) > ALIVE_DURATION` -/
def expired (now : Int) (info : ServerInfo) : Bool := now - info.timestamp > aliveDuration

/-- Removes an expired server: a producer leaves all the tables, another server only the first. -/
def removeServer (d : Daemon) (svrId : UInt64) (procName : String) : Daemon :=
  let d := { d with gSvrId2SvrInfo := d.gSvrId2SvrInfo.erase svrId }
  if producerName = procName then
    rebalance
      { d with
        gSvrId2ProducerState := d.gSvrId2ProducerState.erase svrId
        gSetIdleProducer := d.gSetIdleProducer.erase svrId }
  else d

/-- The first loop of `ServerImpl::CheckProcAlive` over the entries the iterator has still to visit;
    erasing an entry moves the iterator to the next one. -/
def sweepLoop (now : Int) : List (UInt64 × ServerInfo) → Daemon → Daemon
  | [], d => d
  | (svrId, info) :: rest, d =>
    sweepLoop now rest (if expired now info then d.removeServer svrId info.procName else d)

/-- The second loop of `ServerImpl::CheckProcAlive`. -/
def resetFailCounts (d : Daemon) : Daemon :=
  { d with gSvrId2ProducerState := d.gSvrId2ProducerState.mapValues fun p => { p with failCount := 0 } }

/-- One pass of `ServerImpl::CheckProcAlive`. -/
def checkProcAlive (d : Daemon) (now : Int) : Daemon := (sweepLoop now d.gSvrId2SvrInfo.entries d).resetFailCounts

end Daemon

end PushSystem
