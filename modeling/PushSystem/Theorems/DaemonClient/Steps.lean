import PushSystem.DaemonClient

/-! What a step of the daemon and its clients can do, one case for each way a thread can act. -/

namespace PushSystem

/-- The steps of the cluster, by what they do to the clients and to the calls on their way. -/
inductive Cluster.Steps (s : Cluster) : ClusterEvent → Cluster → Prop where
  | start {port procName groupId serverId} :
    Steps s (.start port procName groupId serverId)
      { s with clients := s.clients ++ [⟨port, procName, groupId, serverId, .noServer, none, false, 0⟩] }
  | wake {i c} (hc : s.clients[i]? = some c) :
    Steps s (.wake i) (s.setClient i { c with status := some c.clientStatus })
  | sendRegister {i c} (hc : s.clients[i]? = some c) (hst : c.status = some .noServer) :
    Steps s (.send i)
      ((s.addPacket ⟨i, .clientRegister ⟨c.listeningPort, c.procName, c.groupId⟩⟩).setClient i
        { c with status := none })
  | sendHeartBeat {i c} (hc : s.clients[i]? = some c) (hst : c.status = some .registered) :
    Steps s (.send i)
      ((s.addPacket ⟨i, .heartBeat ⟨c.serverId⟩ c.registrations⟩).setClient i { c with status := none })
  | clientRegister {k i req peer draw now server} (hp : s.packets[k]? = some ⟨i, .clientRegister req⟩)
    (hs : s.server.step (.clientRegister req peer draw now) = some server) :
    Steps s (.deliver k peer draw now)
      { s with
        server
        packets := s.packets.set k ⟨i, .clientRegisterReply ⟨.success, s.server.daemon.newServerId draw⟩⟩
        creator := s.creator.set (s.server.daemon.newServerId draw) i }
  | heartBeat {k i req registration peer draw now server} (hp : s.packets[k]? = some ⟨i, .heartBeat req registration⟩)
    (hs : s.server.step (.heartBeat req now) = some server) :
    Steps s (.deliver k peer draw now)
      { s with
        server
        packets := s.packets.set k ⟨i, .heartBeatReply req registration (s.server.daemon.heartBeat req now).1⟩ }
  | registered {k i c reply} (hp : s.packets[k]? = some ⟨i, .clientRegisterReply reply⟩)
    (hc : s.clients[i]? = some c) (hset : c.setting = false) :
    Steps s (.complete k) ((s.removePacket k).setClient i (c.onRegisterResponse reply))
  | heartBeaten {k i c req registration reply} (hp : s.packets[k]? = some ⟨i, .heartBeatReply req registration reply⟩)
    (hc : s.clients[i]? = some c) (hset : c.setting = false) :
    Steps s (.complete k) ((s.removePacket k).setClient i (c.onHeartBeatResponse reply))
  | fail {k} : Steps s (.fail k) (s.removePacket k)
  | setRegistered {i c} (hc : s.clients[i]? = some c) (hset : c.setting = true) :
    Steps s (.setRegistered i) (s.setClient i c.setRegistered)
  | server {e server} (he : e.Internal) (hs : s.server.step e = some server) :
    Steps s (.server e) { s with server }

namespace Cluster
variable {s t : Cluster}

theorem steps_send {i : Nat} (h : s.step (.send i) = some t) : Steps s (.send i) t := by
  simp only [step] at h
  split at h
  next c hc =>
    split at h
    next hst =>
      obtain rfl := Option.some.inj h
      exact .sendRegister hc hst
    next hst =>
      obtain rfl := Option.some.inj h
      exact .sendHeartBeat hc hst
    next => cases h
  next => cases h

theorem steps_deliver {k : Nat} {peer : String} {draw : Fin (2 ^ 31)} {now : Int}
    (h : s.step (.deliver k peer draw now) = some t) : Steps s (.deliver k peer draw now) t := by
  simp only [step] at h
  split at h
  next i req hp =>
    obtain ⟨server, hs, rfl⟩ := Option.map_eq_some_iff.mp h
    exact .clientRegister hp hs
  next i req registration hp =>
    obtain ⟨server, hs, rfl⟩ := Option.map_eq_some_iff.mp h
    exact .heartBeat hp hs
  next => cases h

theorem steps_complete {k : Nat} (h : s.step (.complete k) = some t) : Steps s (.complete k) t := by
  simp only [step] at h
  split at h
  next i reply hp =>
    split at h
    next c hc =>
      split at h
      next => cases h
      next hset =>
        obtain rfl := Option.some.inj h
        exact .registered hp hc (Bool.eq_false_iff.mpr hset)
    next => cases h
  next i req registration reply hp =>
    split at h
    next c hc =>
      split at h
      next => cases h
      next hset =>
        obtain rfl := Option.some.inj h
        exact .heartBeaten hp hc (Bool.eq_false_iff.mpr hset)
    next => cases h
  next => cases h

theorem steps_of_step {e : ClusterEvent} (h : s.step e = some t) : Steps s e t := by
  cases e with
  | start port procName groupId serverId => exact Option.some.inj h ▸ .start
  | send i => exact steps_send h
  | deliver k peer draw now => exact steps_deliver h
  | complete k => exact steps_complete h
  | fail k => exact Option.some.inj h ▸ .fail
  | wake i =>
    simp only [step] at h
    split at h
    next c hc =>
      split at h
      next => exact Option.some.inj h ▸ .wake hc
      next => cases h
    next => cases h
  | setRegistered i =>
    simp only [step] at h
    split at h
    next c hc =>
      split at h
      next hset => exact Option.some.inj h ▸ .setRegistered hc hset
      next => cases h
    next => cases h
  | server e =>
    simp only [step] at h
    split at h
    next he =>
      obtain ⟨server, hs, rfl⟩ := Option.map_eq_some_iff.mp h
      exact .server he hs
    next => cases h

end Cluster

/-- An invariant of the cluster holds from the start and survives each way of stepping. -/
theorem ClusterReaches.induct {ok : Cluster → ClusterEvent → Prop} {Inv : Cluster → Prop} {s : Cluster}
    (h : ClusterReaches ok s) (init : Inv {}) (keep : ∀ s e t, Inv s → ok s e → Cluster.Steps s e t → Inv t) :
    Inv s :=
  Runs.Reaches.invariant h init fun s e t hi hs => keep s e t hi hs.1 (Cluster.steps_of_step hs.2)

/-- A run of the cluster that is given by its events. -/
theorem ClusterReaches.of_events (ok : Cluster → ClusterEvent → Prop) [∀ s e, Decidable (ok s e)]
    (P : Cluster → Prop) [DecidablePred P] (es : List ClusterEvent)
    (h : (Runs.exec Cluster.step ok es {}).any (fun s => decide (P s)) = true) : ∃ s, ClusterReaches ok s ∧ P s :=
  Runs.exists_of_exec es h

end PushSystem
