import PushSystem.Theorems.DaemonClient.Entries

/-! A client is never stuck. Whatever has happened to it and to its calls, two wake-ups of its status thread are
    enough to have it registered with an id that the daemon knows. -/

namespace PushSystem

/-! ### Runs of one client -/

/-- What `ClientStatusHandler` sends for the status. -/
def DaemonClientImpl.request (c : DaemonClientImpl) : Message :=
  match c.clientStatus with
  | .noServer => .clientRegister ⟨c.listeningPort, c.procName, c.groupId⟩
  | .registered => .heartBeat ⟨c.serverId⟩ c.registrations

namespace Cluster

/-- The event is a step of the client `i` or of one of its calls, and the daemon's answer to it. -/
def Concerns (s : Cluster) (i : Nat) : ClusterEvent → Prop
  | .wake j | .send j | .setRegistered j => j = i
  | .deliver k _ _ _ | .complete k => ∃ p ∈ s.packets[k]?, p.client = i
  | .start .. | .fail _ | .server _ => False

instance (s : Cluster) (i : Nat) : (e : ClusterEvent) → Decidable (s.Concerns i e)
  | .wake j | .send j | .setRegistered j => inferInstanceAs (Decidable (j = i))
  | .deliver k _ _ _ | .complete k => inferInstanceAs (Decidable (∃ p ∈ s.packets[k]?, p.client = i))
  | .start .. | .fail _ | .server _ => isFalse id

end Cluster

def ClusterEvent.wakes : ClusterEvent → Bool
  | .wake _ => true
  | _ => false

/-- A run of the client `i` in which it wakes `n` times. -/
def Cluster.Leads (i n : Nat) (s t : Cluster) : Prop :=
  ∃ es, Runs.exec Cluster.step (fun u e => u.Concerns i e) es s = some t ∧ es.countP ClusterEvent.wakes = n

namespace Cluster
variable {s t u : Cluster} {i m n : Nat} {c : DaemonClientImpl}

theorem Leads.refl : Leads i 0 s s := ⟨[], rfl, rfl⟩

theorem Leads.trans (h : Leads i m s t) (h' : Leads i n t u) : Leads i (m + n) s u := by
  obtain ⟨es, hes, rfl⟩ := h
  obtain ⟨fs, hfs, rfl⟩ := h'
  refine ⟨es ++ fs, ?_, List.countP_append⟩
  rw [Runs.exec_append, hes]
  exact hfs

theorem Leads.step {e : ClusterEvent} (hok : s.Concerns i e) (hs : s.step e = some t) :
    Leads i (if e.wakes then 1 else 0) s t := by
  refine ⟨[e], ?_, List.countP_singleton⟩
  simp [Runs.exec, hok, hs]

/-! ### Rounds -/

/-- Both threads of the client are between two pieces of work. -/
structure AtRest (s : Cluster) (i : Nat) (c : DaemonClientImpl) : Prop where
  client : s.clients[i]? = some c
  setting : c.setting = false
  status : c.status = none

theorem getElem?_setClient (hc : s.clients[i]? = some c) (c' : DaemonClientImpl) :
    (s.setClient i c').clients[i]? = some c' :=
  List.getElem?_set_self (List.getElem?_eq_some_iff.mp hc).1

theorem setClient_self (hc : s.clients[i]? = some c) : s.setClient i c = s := by
  obtain ⟨hi, rfl⟩ := List.getElem?_eq_some_iff.mp hc
  simp [setClient]

/-- `SetServerId` comes to its end. -/
theorem leads_setRegistered (hc : s.clients[i]? = some c) :
    ∃ c', Leads i 0 s (s.setClient i c') ∧ c'.setting = false ∧ c'.status = c.status := by
  cases hset : c.setting with
  | true =>
    refine ⟨c.setRegistered, Leads.step (e := .setRegistered i) rfl ?_, rfl, rfl⟩
    simp [step, hc, hset]
  | false =>
    exact ⟨c, (setClient_self hc).symm ▸ Leads.refl, hset, rfl⟩

/-- `ClientStatusHandler` sends the request that it has read the status for. -/
theorem leads_send (hc : s.clients[i]? = some c) :
    ∃ packets, Leads i 0 s { s with packets, clients := s.clients.set i { c with status := none } } := by
  cases hst : c.status with
  | none =>
    have hself : s.clients.set i { c with status := none } = s.clients := by
      rw [← hst]
      exact congrArg Cluster.clients (setClient_self hc)
    exact ⟨s.packets, hself.symm ▸ Leads.refl⟩
  | some status =>
    cases status with
    | noServer =>
      exact ⟨_, Leads.step (e := .send i) rfl (by simp [step, hc, hst, setClient, addPacket]; rfl)⟩
    | registered =>
      exact ⟨_, Leads.step (e := .send i) rfl (by simp [step, hc, hst, setClient, addPacket]; rfl)⟩

/-- The threads of the client finish what they have begun. -/
theorem leads_atRest (hc : s.clients[i]? = some c) : ∃ t c', Leads i 0 s t ∧ t.AtRest i c' ∧ t.server = s.server ∧
    t.clients = s.clients.set i c' := by
  obtain ⟨c', hrun, hset, -⟩ := leads_setRegistered hc
  obtain ⟨packets, hrun'⟩ := leads_send (getElem?_setClient hc c')
  refine ⟨_, { c' with status := none }, hrun.trans hrun', ⟨?_, hset, rfl⟩, rfl, by simp [setClient]⟩
  exact List.getElem?_set_self (by simpa [setClient] using (List.getElem?_eq_some_iff.mp hc).1)

/-- The client wakes and sends the request for its status. -/
theorem AtRest.leads_request (h : s.AtRest i c) : Leads i 1 s (s.addPacket ⟨i, c.request⟩) := by
  obtain ⟨port, name, group, id, clientStatus, status, setting, registrations⟩ := c
  obtain rfl : status = none := h.status
  have hsent : ∀ x p, (((s.setClient i x).addPacket p).setClient i
      ⟨port, name, group, id, clientStatus, none, setting, registrations⟩) = s.addPacket p := fun x p => by
    simp only [setClient, addPacket, List.set_set]
    exact setClient_self (s := s.addPacket p) h.client
  have hwake : s.step (.wake i) =
      some (s.setClient i ⟨port, name, group, id, clientStatus, some clientStatus, setting, registrations⟩) := by
    simp [step, h.client]
  refine (Leads.step (e := .wake i) rfl hwake).trans (n := 0) (Leads.step (e := .send i) rfl ?_)
  simp only [step, getElem?_setClient h.client]
  cases clientStatus with
  | noServer | registered => exact congrArg some (hsent _ _)

/-! The call that the client has just started. -/

theorem getElem?_addPacket (p : Packet) : (s.addPacket p).packets[s.packets.length]? = some p := by simp [addPacket]

theorem set_snoc (packets : List Packet) (p p' : Packet) : (packets ++ [p]).set packets.length p' = packets ++ [p'] := by
  simp

theorem removePacket_addPacket (p : Packet) : (s.addPacket p).removePacket s.packets.length = s := by
  have herase : (s.packets ++ [p]).eraseIdx s.packets.length = s.packets := by
    rw [List.eraseIdx_append_of_length_le (Nat.le_refl _), Nat.sub_self]
    simp
  simp only [addPacket, removePacket, herase]

theorem leads_deliver {m : Message} {peer : String} {draw : Fin (2 ^ 31)} {now : Int}
    (h : (s.addPacket ⟨i, m⟩).step (.deliver s.packets.length peer draw now) = some t) :
    Leads i 0 (s.addPacket ⟨i, m⟩) t :=
  Leads.step (e := .deliver s.packets.length peer draw now) ⟨_, getElem?_addPacket _, rfl⟩ h

theorem leads_complete {m : Message} (h : (s.addPacket ⟨i, m⟩).step (.complete s.packets.length) = some t) :
    Leads i 0 (s.addPacket ⟨i, m⟩) t := Leads.step (e := .complete s.packets.length) ⟨_, getElem?_addPacket _, rfl⟩ h

/-- The client after a registration. -/
def joined (c : DaemonClientImpl) (serverId : UInt64) : DaemonClientImpl :=
  { c with serverId, clientStatus := .registered, registrations := c.registrations + 1 }

/-- The client is not registered; it wakes, and the daemon gives it an id. -/
theorem AtRest.leads_register (h : s.AtRest i c) (hst : c.clientStatus = .noServer) (hdef : s.server.undefined = false)
    (peer : String) (draw : Fin (2 ^ 31)) (now : Int) :
    Leads i 1 s { s with
      server := (s.server.clientRegister ⟨c.listeningPort, c.procName, c.groupId⟩ peer draw now).2
      clients := s.clients.set i (joined c (s.server.daemon.newServerId draw))
      creator := s.creator.set (s.server.daemon.newServerId draw) i } := by
  have hi : i < s.clients.length := (List.getElem?_eq_some_iff.mp h.client).1
  have hrequest := h.leads_request
  rw [DaemonClientImpl.request, hst] at hrequest
  let req : ClientRegisterRequest := ⟨c.listeningPort, c.procName, c.groupId⟩
  let id := s.server.daemon.newServerId draw
  let known : Cluster := { s with server := (s.server.clientRegister req peer draw now).2, creator := s.creator.set id i }
  have hdeliver : (s.addPacket ⟨i, .clientRegister req⟩).step (.deliver s.packets.length peer draw now) =
      some (known.addPacket ⟨i, .clientRegisterReply ⟨.success, id⟩⟩) := by
    simp only [step, getElem?_addPacket]
    simp only [addPacket, State.step, hdef, Bool.false_eq_true, if_false, State.stepEvent, Option.map_some, set_snoc]
    rfl
  have hcomplete : (known.addPacket ⟨i, .clientRegisterReply ⟨.success, id⟩⟩).step (.complete s.packets.length) =
      some (known.setClient i (c.setServerId id)) := by
    have hlast : (known.addPacket ⟨i, .clientRegisterReply ⟨.success, id⟩⟩).packets[s.packets.length]? = _ :=
      getElem?_addPacket _
    have hclient : (known.addPacket ⟨i, .clientRegisterReply ⟨.success, id⟩⟩).clients[i]? = some c := h.client
    have hremove := removePacket_addPacket (s := known) ⟨i, .clientRegisterReply ⟨.success, id⟩⟩
    simp only [step, hlast, hclient, h.setting, Bool.false_eq_true, if_false]
    exact congrArg (fun t : Cluster => some (t.setClient i (c.setServerId id))) hremove
  have hset : (known.setClient i (c.setServerId id)).step (.setRegistered i) =
      some (known.setClient i (joined c id)) := by
    have hclient := getElem?_setClient (s := known) h.client (c.setServerId id)
    simp only [step, hclient]
    simp [setClient, joined, DaemonClientImpl.setServerId, DaemonClientImpl.setRegistered, h.setting]
  have hanswer := (leads_deliver hdeliver).trans (leads_complete hcomplete)
  exact hrequest.trans (n := 0) (hanswer.trans (n := 0) (Leads.step (e := .setRegistered i) rfl hset))

/-- The client is registered with an id that the daemon does not know; it wakes, and hears of that. -/
theorem AtRest.leads_heartBeat (h : s.AtRest i c) (hst : c.clientStatus = .registered) (hdef : s.server.undefined = false)
    (hid : s.server.daemon.gSvrId2SvrInfo.find? c.serverId = none) :
    Leads i 1 s (s.setClient i { c with clientStatus := .noServer }) := by
  have hrequest := h.leads_request
  rw [DaemonClientImpl.request, hst] at hrequest
  have hreply : s.server.daemon.heartBeat ⟨c.serverId⟩ 0 = (⟨.err⟩, s.server.daemon) := by
    simp [Daemon.heartBeat, hid]
  have hserver : s.server.step (.heartBeat ⟨c.serverId⟩ 0) = some s.server := by
    rw [State.step, if_neg (by simp [hdef])]
    exact congrArg (fun x => some { s.server with daemon := x.2 }) hreply
  have hdeliver : (s.addPacket ⟨i, .heartBeat ⟨c.serverId⟩ c.registrations⟩).step (.deliver s.packets.length "" 0 0) =
      some (s.addPacket ⟨i, .heartBeatReply ⟨c.serverId⟩ c.registrations ⟨.err⟩⟩) := by
    simp only [step, getElem?_addPacket]
    simp only [addPacket, hserver, hreply, Option.map_some, set_snoc]
  have hcomplete : (s.addPacket ⟨i, .heartBeatReply ⟨c.serverId⟩ c.registrations ⟨.err⟩⟩).step
      (.complete s.packets.length) = some (s.setClient i { c with clientStatus := .noServer }) := by
    have hclient : (s.addPacket ⟨i, .heartBeatReply ⟨c.serverId⟩ c.registrations ⟨.err⟩⟩).clients[i]? = some c := h.client
    simp only [step, getElem?_addPacket, hclient, removePacket_addPacket]
    exact if_neg (by simp [h.setting])
  exact hrequest.trans (n := 0) ((leads_deliver hdeliver).trans (n := 0) (leads_complete hcomplete))

/-! ### Recovery -/

/-- The client is registered with an id that the daemon knows. -/
def Joined (s : Cluster) (i : Nat) : Prop :=
  ∃ c id, s.clients[i]? = some c ∧ c.getServerId = some id ∧ id ∈ s.server.daemon.gSvrId2SvrInfo

end Cluster

namespace Cluster
variable {s : Cluster} {i : Nat} {c : DaemonClientImpl}

/-- A client that is not registered joins at its next wake-up. -/
theorem AtRest.joins (h : s.AtRest i c) (hst : c.clientStatus = .noServer) (hdef : s.server.undefined = false)
    (peer : String) (draw : Fin (2 ^ 31)) (now : Int) :
    ∃ t c', Leads i 1 s t ∧ t.Joined i ∧ t.clients = s.clients.set i c' := by
  let id := s.server.daemon.newServerId draw
  have hclient : (s.clients.set i (joined c id))[i]? = some (joined c id) :=
    List.getElem?_set_self (List.getElem?_eq_some_iff.mp h.client).1
  exact ⟨_, _, h.leads_register hst hdef peer draw now,
    ⟨_, id, hclient, DaemonClientImpl.getServerId_eq_some_iff.mpr ⟨rfl, rfl⟩,
      (s.server.daemon.mem_infos_clientRegister ..).mpr (Or.inl rfl)⟩, rfl⟩

theorem AtRest.recovers (h : s.AtRest i c) (hdef : s.server.undefined = false) (peer : String) (draw : Fin (2 ^ 31))
    (now : Int) : ∃ t n c', Leads i n s t ∧ n ≤ 2 ∧ t.Joined i ∧ t.clients = s.clients.set i c' := by
  cases hst : c.clientStatus with
  | noServer =>
    obtain ⟨t, c', hrun, hjoined, hclients⟩ := h.joins hst hdef peer draw now
    exact ⟨t, 1, c', hrun, by decide, hjoined, hclients⟩
  | registered =>
    cases hid : s.server.daemon.gSvrId2SvrInfo.find? c.serverId with
    | some info =>
      refine ⟨s, 0, c, .refl, by decide, ⟨c, c.serverId, h.client, ?_, OrdMap.mem_iff.mpr ⟨info, hid⟩⟩, ?_⟩
      · exact DaemonClientImpl.getServerId_eq_some_iff.mpr ⟨hst, rfl⟩
      · exact congrArg Cluster.clients (setClient_self h.client).symm
    | none =>
      have hrun := h.leads_heartBeat hst hdef hid
      have hrest : (s.setClient i { c with clientStatus := .noServer }).AtRest i { c with clientStatus := .noServer } :=
        ⟨getElem?_setClient h.client _, h.setting, h.status⟩
      obtain ⟨t, c', hrun', hjoined, hclients⟩ := hrest.joins rfl hdef peer draw now
      exact ⟨t, 2, c', hrun.trans hrun', by decide, hjoined, hclients.trans (List.set_set ..)⟩

end Cluster

open Cluster in
/-- Whatever a client has in hand and whatever calls are on their way, it is registered with an id that the daemon knows
    after at most two wake-ups, in a run of its own steps and the daemon's answers, which touches no other client. -/
theorem client_recovers {s : Cluster} (hdef : s.server.undefined = false) {i : Nat} {c : DaemonClientImpl}
    (hc : s.clients[i]? = some c) (peer : String) (draw : Fin (2 ^ 31)) (now : Int) :
    ∃ t n, Leads i n s t ∧ n ≤ 2 ∧ t.Joined i ∧ ∀ j, j ≠ i → t.clients[j]? = s.clients[j]? := by
  obtain ⟨u, c', hrun, hrest, hserver, hclients⟩ := leads_atRest hc
  obtain ⟨t, n, x, hrun', hle, hjoined, hclients'⟩ := hrest.recovers (hserver ▸ hdef) peer draw now
  refine ⟨t, n, (Nat.zero_add n) ▸ hrun.trans hrun', hle, hjoined, fun j hj => ?_⟩
  rw [hclients', hclients, List.getElem?_set_ne (Ne.symm hj), List.getElem?_set_ne (Ne.symm hj)]

open Cluster in
/-- The client has been swept and is about to send a heartbeat for the id that it had. -/
theorem client_recovers_swept : ∃ s, ClusterReaches AnyClusterEvent s ∧ s.clients.map (·.getServerId) = [some 5] ∧
    5 ∉ s.server.daemon.gSvrId2SvrInfo ∧ ∃ t n, Leads 0 n s t ∧ n ≤ 2 ∧ t.Joined 0 := by
  obtain ⟨s, hs, hdef, hids, hgone⟩ := ClusterReaches.of_events AnyClusterEvent
    (fun s => s.server.undefined = false ∧ s.clients.map (·.getServerId) = [some 5] ∧ 5 ∉ s.server.daemon.gSvrId2SvrInfo)
    (registerClient 0 0 ++ [.server (.checkProcAlive 20), .wake 0]) (by decide +kernel)
  have hlen := congrArg List.length hids
  have hpos : 0 < s.clients.length := by simpa using Nat.lt_of_lt_of_eq Nat.zero_lt_one hlen.symm
  obtain ⟨t, n, hrun, hle, hjoined, -⟩ := client_recovers hdef (List.getElem?_eq_getElem hpos) "ipv4:10.0.0.1:4000" 5 20
  exact ⟨s, hs, hids, hgone, t, n, hrun, hle, hjoined⟩

end PushSystem
