import PushSystem.Lib.Runs
import PushSystem.Daemon.Tables

/-! The running daemon: its tables, the `BeginPush` requests being served, the calls made to producers
    and the threads that handle their completions. A step is one critical section of one thread together
    with what the thread then does to its own variables, which no other thread reads. -/

namespace PushSystem

/-- Where a call stands. `HandleAsyncCall` starts a thread for each completion; `OnResponseFail` has a
    critical section of its own before `DecreaseProducerTask`. -/
inductive Stage where
  /-- The completion has not arrived. -/
  | inFlight
  /-- `OnGetResponse` is about to run `DecreaseProducerTask`. -/
  | gotReply (code : ErrCode)
  /-- `OnResponseFail` is about to count the failure. -/
  | rpcFailed
  /-- `OnResponseFail` is about to run `DecreaseProducerTask`. -/
  | failCounted
  /-- The handler runs `SelectProducerAndSend` for the chunk of the call. -/
  | resending (curUid : UInt64)
  /-- The producer answered `SUCCESS` and the call is finished. -/
  | succeeded
  deriving DecidableEq

/-- A `ProduceMsg` call. `push` is the `BeginPush` request whose users it carries; the code does not
    keep it. -/
structure Call where
  svrId : UInt64
  stub : Option Stub
  request : ProduceMsgRequest
  push : Nat
  stage : Stage
  deriving DecidableEq

/-- A `BeginPush` request in `SelectProducerAndSend`, with the loop's variable. -/
structure Push where
  request : ProduceMsgRequest
  curUid : UInt64
  deriving DecidableEq

/-- `undefined` is set when a thread has read past the end of `gRank2SvrId`. `registered` remembers the
    stub made at the last registration that was given an id; the code does not keep it. -/
structure State where
  daemon : Daemon := {}
  pushes : List Push := []
  calls : List Call := []
  undefined : Bool := false
  registered : OrdMap UInt64 Stub := ∅

/-- How gRPC completes a call. -/
inductive Completion where
  | reply (code : ErrCode)
  | rpcFail
  deriving DecidableEq

inductive Event where
  | clientRegister (req : ClientRegisterRequest) (peer : String) (draw : Fin (2 ^ 31)) (now : Int)
  | heartBeat (req : HeartBeatRequest) (now : Int)
  | loadBalance (req : LoadBalanceRequest) (score : ℚ)
  | beginPush (req : BeginPushRequest)
  /-- One iteration of the loop of a `BeginPush` request. -/
  | pushLoop (push : Nat) (draw : Fin 10001)
  /-- One iteration of the loop that sends the chunk of a failed call again. -/
  | resendLoop (call : Nat) (draw : Fin 10001)
  /-- The completion of a call leaves the completion queue. -/
  | completion (call : Nat) (outcome : Completion)
  /-- The next critical section of the thread that handles a completion. -/
  | handleCompletion (call : Nat)
  | checkProcAlive (now : Int)
  | reBalanceTimer

/-- The chunk of `request` that starts at `curUid`. -/
def chunkAt (request : ProduceMsgRequest) (curUid : UInt64) : ProduceMsgRequest where
  msgId := request.msgId
  startUid := curUid
  endUid :=
    if curUid + uidCountPerTime - 1 > request.endUid then request.endUid else curUid + uidCountPerTime - 1

namespace State

/-- One iteration of the loop of `SelectProducerAndSend`: the new state and loop variable. -/
def selectProducerAndSend (s : State) (push : Nat) (request : ProduceMsgRequest) (curUid : UInt64)
    (draw : Fin 10001) : State × UInt64 :=
  match s.daemon.select draw with
  | .idle svrId =>
    ({ s with
        daemon := s.daemon.sendIdle svrId
        calls := s.calls ++ [⟨svrId, s.daemon.stubOf svrId, chunkAt request curUid, push, .inFlight⟩] },
      curUid + uidCountPerTime)
  | .ranked svrId =>
    ({ s with
        daemon := s.daemon.countSend svrId
        calls := s.calls ++ [⟨svrId, s.daemon.stubOf svrId, chunkAt request curUid, push, .inFlight⟩] },
      curUid + uidCountPerTime)
  | .pastEnd => ({ s with undefined := true }, curUid)
  | .wait => (s, curUid)

/-- A registration and the reply to it. -/
def clientRegister (s : State) (req : ClientRegisterRequest) (peer : String) (draw : Fin (2 ^ 31)) (now : Int) :
    ClientRegisterReply × State :=
  let (reply, daemon) := s.daemon.clientRegister req peer draw now
  let stub : Stub := ⟨s.daemon.stubs, parseAndGetIp peer ++ ":" ++ req.listeningPort⟩
  (reply, { s with
    daemon
    registered := if producerName = req.procName then s.registered.set reply.serverId stub else s.registered })

/-- Replaces the call at `i`. -/
def setCall (s : State) (i : Nat) (c : Call) : State := { s with calls := s.calls.set i c }

/-- Replaces the push at `p`. -/
def setPush (s : State) (p : Nat) (x : Push) : State := { s with pushes := s.pushes.set p x }

/-- The step of each event, where it can happen. -/
def stepEvent (s : State) : Event → Option State
  | .clientRegister req peer draw now => some (s.clientRegister req peer draw now).2
  | .heartBeat req now => some { s with daemon := (s.daemon.heartBeat req now).2 }
  | .loadBalance req score => some { s with daemon := (s.daemon.loadBalance req score).2 }
  | .beginPush req =>
    some { s with pushes := s.pushes ++ [⟨⟨req.msgId, req.startUid, req.endUid⟩, req.startUid⟩] }
  | .pushLoop p draw =>
    match s.pushes[p]? with
    | some x =>
      if x.curUid ≤ x.request.endUid then
        let (t, curUid) := s.selectProducerAndSend p x.request x.curUid draw
        some (t.setPush p { x with curUid })
      else none
    | none => none
  | .resendLoop i draw =>
    match s.calls[i]? with
    | some c =>
      match c.stage with
      | .resending curUid =>
        if curUid ≤ c.request.endUid then
          let (t, curUid) := s.selectProducerAndSend c.push c.request curUid draw
          some (t.setCall i { c with stage := .resending curUid })
        else none
      | _ => none
    | none => none
  | .completion i outcome =>
    match s.calls[i]? with
    | some c =>
      match c.stage, outcome with
      | .inFlight, .reply code => some (s.setCall i { c with stage := .gotReply code })
      | .inFlight, .rpcFail => some (s.setCall i { c with stage := .rpcFailed })
      | _, _ => none
    | none => none
  | .handleCompletion i =>
    match s.calls[i]? with
    | some c =>
      match c.stage with
      | .gotReply .success =>
        some ({ s with daemon := s.daemon.decreaseProducerTask c.svrId }.setCall i { c with stage := .succeeded })
      | .gotReply .err | .failCounted =>
        some ({ s with daemon := s.daemon.decreaseProducerTask c.svrId }.setCall i
          { c with stage := .resending c.request.startUid })
      | .rpcFailed =>
        some ({ s with daemon := s.daemon.countFailure c.svrId }.setCall i { c with stage := .failCounted })
      | _ => none
    | none => none
  | .checkProcAlive now => some { s with daemon := s.daemon.checkProcAlive now }
  | .reBalanceTimer => some { s with daemon := s.daemon.rebalance }

/-- A step of the daemon; nothing is known once its behaviour is undefined. -/
def step (s : State) (e : Event) : Option State := if s.undefined then none else s.stepEvent e

end State

/-- Any event may happen in any state. -/
abbrev AnyEvent (_ : State) (_ : Event) : Prop := True

/-- The runs of the daemon whose events meet `ok`, from its start. -/
def DaemonReaches (ok : State → Event → Prop) (s : State) : Prop :=
  Runs.Reaches (Runs.under (Runs.ofFun State.step) ok) {} s

end PushSystem
