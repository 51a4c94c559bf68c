import PushSystem.Daemon.System

/-! The clients of the daemon (`daemonClient.cpp`) and the system of one daemon and its clients. A client
    has two threads: `ClientStatusHandler` wakes every two seconds, and `AsyncCompleteRpc` handles the
    completed calls one after the other. -/

namespace PushSystem

inductive ClientStatus where
  | noServer
  | registered
  deriving DecidableEq

/-- A client, with the variables of its two threads. The code does not keep the last field, the number of ids that
    `SetServerId` has stored. -/
structure DaemonClientImpl where
  listeningPort : String
  procName : String
  groupId : UInt32
  serverId : UInt64
  clientStatus : ClientStatus := .noServer
  /-- What `ClientStatusHandler` has read and not yet acted on. -/
  status : Option ClientStatus := none
  /-- `SetServerId` has stored the id and not yet the status. -/
  setting : Bool := false
  registrations : Nat := 0
  deriving DecidableEq

namespace DaemonClientImpl

/-- The first statement of `SetServerId`; the id is not under the lock. -/
def setServerId (c : DaemonClientImpl) (serverId : UInt64) : DaemonClientImpl :=
  { c with serverId, setting := true, registrations := c.registrations + 1 }

/-- The rest of `SetServerId`. -/
def setRegistered (c : DaemonClientImpl) : DaemonClientImpl :=
  { c with clientStatus := .registered, setting := false }

def setClientStatus (c : DaemonClientImpl) (status : ClientStatus) : DaemonClientImpl :=
  { c with clientStatus := status }

/-- `GetServerId` -/
def getServerId (c : DaemonClientImpl) : Option UInt64 :=
  if c.clientStatus = .registered then some c.serverId else none

/-- `ClientRegisterAsyncCall::OnGetResponse`, up to the first statement of `SetServerId`. -/
def onRegisterResponse (c : DaemonClientImpl) (reply : ClientRegisterReply) : DaemonClientImpl :=
  match reply.err with
  | .success => c.setServerId reply.serverId
  | .err => c.setClientStatus .noServer

/-- `HeartBeatAsyncCall::OnGetResponse` -/
def onHeartBeatResponse (c : DaemonClientImpl) (reply : HeartBeatReply) : DaemonClientImpl :=
  match reply.err with
  | .err => c.setClientStatus .noServer
  | .success => c

end DaemonClientImpl

/-! ### The daemon and its clients -/

/-- What a call of a client carries on its way. The reply to a heartbeat still names the heartbeat, and both name the
    registration of the client that it was sent for; the code keeps neither. -/
inductive Message where
  | clientRegister (req : ClientRegisterRequest)
  | clientRegisterReply (reply : ClientRegisterReply)
  | heartBeat (req : HeartBeatRequest) (registration : Nat)
  | heartBeatReply (req : HeartBeatRequest) (registration : Nat) (reply : HeartBeatReply)
  deriving DecidableEq

/-- A call that a client has started and not completed. -/
structure Packet where
  client : Nat
  message : Message
  deriving DecidableEq

/-- `creator` remembers the client whose registration was last given an id; the code does not keep it. -/
structure Cluster where
  server : State := {}
  clients : List DaemonClientImpl := []
  packets : List Packet := []
  creator : OrdMap UInt64 Nat := ∅

inductive ClusterEvent where
  /-- A client process starts; its `serverId_` is not initialised. -/
  | start (listeningPort procName : String) (groupId : UInt32) (serverId : UInt64)
  /-- `ClientStatusHandler` reads the status. -/
  | wake (client : Nat)
  /-- `ClientStatusHandler` sends the request for the status it has read. -/
  | send (client : Nat)
  /-- The daemon handles the request of a call. -/
  | deliver (packet : Nat) (peer : String) (draw : Fin (2 ^ 31)) (now : Int)
  /-- The client handles the reply to a call. -/
  | complete (packet : Nat)
  /-- A call fails, which its client only logs. -/
  | fail (packet : Nat)
  /-- The second half of `SetServerId`. -/
  | setRegistered (client : Nat)
  /-- Any other step of the daemon. -/
  | server (e : Event)

/-- The events of the daemon that are no request of a client. -/
def Event.Internal : Event → Prop
  | .clientRegister .. | .heartBeat .. => False
  | _ => True

instance (e : Event) : Decidable e.Internal := by
  cases e <;> unfold Event.Internal <;> infer_instance

namespace Cluster

/-- Replaces the client `i`. -/
def setClient (s : Cluster) (i : Nat) (c : DaemonClientImpl) : Cluster := { s with clients := s.clients.set i c }

/-- Starts a call. -/
def addPacket (s : Cluster) (p : Packet) : Cluster := { s with packets := s.packets ++ [p] }

/-- Ends the call at `k`. -/
def removePacket (s : Cluster) (k : Nat) : Cluster := { s with packets := s.packets.eraseIdx k }

/-- The step of each event, where it can happen. The completion thread handles no reply while it is in
    `SetServerId`. -/
def step (s : Cluster) : ClusterEvent → Option Cluster
  | .start listeningPort procName groupId serverId =>
    some { s with clients := s.clients ++ [{ listeningPort, procName, groupId, serverId }] }
  | .wake i =>
    match s.clients[i]? with
    | some c => if c.status = none then some (s.setClient i { c with status := some c.clientStatus }) else none
    | none => none
  | .send i =>
    match s.clients[i]? with
    | some c =>
      match c.status with
      | some .noServer =>
        some ((s.addPacket ⟨i, .clientRegister ⟨c.listeningPort, c.procName, c.groupId⟩⟩).setClient i
          { c with status := none })
      | some .registered =>
        some ((s.addPacket ⟨i, .heartBeat ⟨c.serverId⟩ c.registrations⟩).setClient i { c with status := none })
      | none => none
    | none => none
  | .deliver k peer draw now =>
    match s.packets[k]? with
    | some ⟨i, .clientRegister req⟩ =>
      let reply := (s.server.clientRegister req peer draw now).1
      (s.server.step (.clientRegister req peer draw now)).map fun server =>
        { s with
          server
          packets := s.packets.set k ⟨i, .clientRegisterReply reply⟩
          creator := s.creator.set reply.serverId i }
    | some ⟨i, .heartBeat req registration⟩ =>
      (s.server.step (.heartBeat req now)).map fun server =>
        { s with
          server
          packets := s.packets.set k ⟨i, .heartBeatReply req registration (s.server.daemon.heartBeat req now).1⟩ }
    | _ => none
  | .complete k =>
    match s.packets[k]? with
    | some ⟨i, .clientRegisterReply reply⟩ =>
      match s.clients[i]? with
      | some c =>
        if c.setting then none
        else some ((s.removePacket k).setClient i (c.onRegisterResponse reply))
      | none => none
    | some ⟨i, .heartBeatReply _ _ reply⟩ =>
      match s.clients[i]? with
      | some c =>
        if c.setting then none
        else some ((s.removePacket k).setClient i (c.onHeartBeatResponse reply))
      | none => none
    | _ => none
  | .fail k => some (s.removePacket k)
  | .setRegistered i =>
    match s.clients[i]? with
    | some c => if c.setting then some (s.setClient i c.setRegistered) else none
    | none => none
  | .server e => if e.Internal then (s.server.step e).map fun server => { s with server } else none

end Cluster

/-- Any event may happen in any state. -/
abbrev AnyClusterEvent (_ : Cluster) (_ : ClusterEvent) : Prop := True

/-- The runs of a daemon and its clients whose events meet `ok`. -/
def ClusterReaches (ok : Cluster → ClusterEvent → Prop) (s : Cluster) : Prop :=
  Runs.Reaches (Runs.under (Runs.ofFun Cluster.step) ok) {} s

end PushSystem
