import PushSystem.Theorems.Daemon.Steps
import PushSystem.Theorems.Daemon.Tables
import PushSystem.Theorems.DaemonClient.Steps
import PushSystem.Theorems.DaemonClient.Stale

/-! The entries of the clients in the registry. A client that has not handled the reply to its registration sends
    another one, and the daemon gives each of them an entry. A client has one entry at a time if it asks for an id only
    when nothing of an earlier registration is on its way, and loses no id that the daemon still knows. -/

namespace PushSystem

/-! ### The registry -/

namespace Daemon
variable {d : Daemon} {id k : UInt64}

theorem mem_infos_set {info : ServerInfo} (info' : ServerInfo) (hk : d.gSvrId2SvrInfo.find? k = some info)
    (h : id ∈ d.gSvrId2SvrInfo.set k info') : id ∈ d.gSvrId2SvrInfo := by
  rcases (OrdMap.mem_set _ _ _ _).mp h with rfl | h
  · exact OrdMap.mem_iff.mpr ⟨info, hk⟩
  · exact h

theorem mem_infos_heartBeat {req : HeartBeatRequest} {now : Int} (h : id ∈ (d.heartBeat req now).2.gSvrId2SvrInfo) :
    id ∈ d.gSvrId2SvrInfo := by
  unfold Daemon.heartBeat at h
  split at h
  next => exact h
  next hf => exact mem_infos_set _ hf h

theorem mem_infos_loadBalance {req : LoadBalanceRequest} {score : ℚ}
    (h : id ∈ (d.loadBalance req score).2.gSvrId2SvrInfo) : id ∈ d.gSvrId2SvrInfo := by
  unfold Daemon.loadBalance at h
  split at h
  next => exact h
  next hf => exact mem_infos_set _ hf h

theorem mem_infos_decreaseProducerTask (h : id ∈ (d.decreaseProducerTask k).gSvrId2SvrInfo) : id ∈ d.gSvrId2SvrInfo := by
  cases hp : d.gSvrId2ProducerState.find? k with
  | none =>
    rw [decreaseProducerTask_of_none hp] at h
    exact h
  | some p =>
    rw [decreaseProducerTask_of_some hp] at h
    exact h

theorem mem_infos_countFailure (h : id ∈ (d.countFailure k).gSvrId2SvrInfo) : id ∈ d.gSvrId2SvrInfo := by
  unfold Daemon.countFailure at h
  split at h
  next => exact h
  next =>
    split at h
    next =>
      rw [rebalance_infos] at h
      exact ((OrdMap.mem_erase _ _ _).mp h).2
    next => exact h

theorem mem_infos_sweepLoop {now : Int} {l : List (UInt64 × ServerInfo)}
    (h : id ∈ (sweepLoop now l d).gSvrId2SvrInfo) : id ∈ d.gSvrId2SvrInfo := by
  induction l generalizing d with
  | nil => exact h
  | cons x l ih =>
    unfold sweepLoop at h
    split at h
    next =>
      have hrem := ih h
      rw [removeServer_infos] at hrem
      exact ((OrdMap.mem_erase _ _ _).mp hrem).2
    next => exact ih h

theorem Sends.infos {d' : Daemon} {draw : Fin 10001} (hs : d.Sends draw k d') : d'.gSvrId2SvrInfo = d.gSvrId2SvrInfo := by
  cases hs with
  | idle | ranked => rfl

end Daemon

/-- A step adds no id to the registry but the one it gives to a registration. -/
theorem State.Steps.mem_infos {s t : State} {e : Event} {id : UInt64} (hs : State.Steps s e t)
    (h : id ∈ t.daemon.gSvrId2SvrInfo) :
    (∃ req peer draw now, e = .clientRegister req peer draw now ∧ id = s.daemon.newServerId draw) ∨
      id ∈ s.daemon.gSvrId2SvrInfo := by
  cases hs with
  | clientRegister => exact ((Daemon.mem_infos_clientRegister ..).mp h).imp_left fun hid => ⟨_, _, _, _, rfl, hid⟩
  | heartBeat => exact Or.inr (Daemon.mem_infos_heartBeat h)
  | loadBalance => exact Or.inr (Daemon.mem_infos_loadBalance h)
  | beginPush | pushPastEnd | resendPastEnd | pushWait | resendWait | reply | rpcFail => exact Or.inr h
  | pushSend _ _ hd | resendSend _ _ _ hd =>
    have h : id ∈ _ := hd.infos ▸ h
    exact Or.inr h
  | succeed | resend => exact Or.inr (Daemon.mem_infos_decreaseProducerTask h)
  | countFailure => exact Or.inr (Daemon.mem_infos_countFailure h)
  | checkProcAlive => exact Or.inr (Daemon.mem_infos_sweepLoop h)
  | reBalanceTimer =>
    have h : id ∈ s.daemon.rebalance.gSvrId2SvrInfo := h
    rw [Daemon.rebalance_infos] at h
    exact Or.inr h

/-! ### One entry per client -/

namespace Cluster

/-- The registry has an entry under `id` that the client `i` created. -/
def HasEntry (s : Cluster) (i : Nat) (id : UInt64) : Prop :=
  id ∈ s.server.daemon.gSvrId2SvrInfo ∧ s.creator.find? id = some i

instance (s : Cluster) (i : Nat) (id : UInt64) : Decidable (s.HasEntry i id) :=
  inferInstanceAs (Decidable (id ∈ s.server.daemon.gSvrId2SvrInfo ∧ s.creator.find? id = some i))

def EntriesUnique (s : Cluster) : Prop := ∀ i a b, s.HasEntry i a → s.HasEntry i b → a = b

end Cluster

/-! ### The registrations on their way -/

/-- A registration of the client `i`, or the reply to one. -/
def Packet.registerCall (p : Packet) (i : Nat) : Option Message :=
  match p.message with
  | .clientRegister _ | .clientRegisterReply _ => if p.client = i then some p.message else none
  | _ => none

/-- The registrations that the client `i` has not completed. -/
def registerCalls (packets : List Packet) (i : Nat) : List Message := packets.filterMap (·.registerCall i)

theorem Packet.registerCall_eq_some {p : Packet} {i : Nat} {m : Message} (h : p.registerCall i = some m) :
    p.message = m := by
  have hite : (if p.client = i then some p.message else none) = some m → p.message = m := by
    split
    next => exact Option.some.inj
    next => simp
  unfold registerCall at h
  split at h
  next => exact hite h
  next => exact hite h
  next => cases h

theorem Packet.registerCall_of_ne {p : Packet} {i : Nat} (h : p.client ≠ i) : p.registerCall i = none := by
  unfold registerCall
  split <;> simp [h]

section
variable {l : List Packet} {k i : Nat} {p : Packet} {m m' : Message}

theorem registerCalls_snoc : registerCalls (l ++ [p]) i = registerCalls l i ++ (p.registerCall i).toList := by
  unfold registerCalls
  rw [List.filterMap_append]
  cases h : p.registerCall i <;> simp [h]

/-- What is on the way besides the call at `k`. -/
theorem registerCalls_split (hp : l[k]? = some p) : ∃ l₁ l₂,
    registerCalls l i = l₁ ++ (p.registerCall i).toList ++ l₂ ∧
    (∀ q, registerCalls (l.set k q) i = l₁ ++ (q.registerCall i).toList ++ l₂) ∧
    registerCalls (l.eraseIdx k) i = l₁ ++ l₂ := by
  obtain ⟨l₁, l₂, hl, hset, herase⟩ := Count.exists_append_of_getElem? hp
  have hone : ∀ q, registerCalls (l₁ ++ q :: l₂) i =
      registerCalls l₁ i ++ (q.registerCall i).toList ++ registerCalls l₂ i := by
    intro q
    rw [List.append_cons]
    unfold registerCalls
    rw [List.filterMap_append, ← registerCalls, registerCalls_snoc]
    rfl
  refine ⟨registerCalls l₁ i, registerCalls l₂ i, ?_, fun q => ?_, ?_⟩
  · rw [hl, hone]
  · rw [hset, hone]
  · rw [herase]
    exact List.filterMap_append

/-- The calls of another client, and the heartbeats, do not count. -/
theorem registerCalls_set_of_none {q : Packet} (hp : l[k]? = some p) (hnone : p.registerCall i = none)
    (hq : q.registerCall i = none) : registerCalls (l.set k q) i = registerCalls l i := by
  obtain ⟨l₁, l₂, hl, hset, -⟩ := registerCalls_split (i := i) hp
  rw [hl, hset, hnone, hq]

theorem registerCalls_eraseIdx_of_none (hp : ∀ p ∈ l[k]?, p.registerCall i = none) :
    registerCalls (l.eraseIdx k) i = registerCalls l i := by
  cases hk : l[k]? with
  | none => rw [List.eraseIdx_of_length_le (List.getElem?_eq_none_iff.mp hk)]
  | some p =>
    obtain ⟨l₁, l₂, hl, -, herase⟩ := registerCalls_split (i := i) hk
    rw [hl, herase, hp p hk]
    simp

theorem mem_registerCalls (hp : l[k]? = some p) (hm : p.registerCall i = some m) : m ∈ registerCalls l i :=
  List.mem_filterMap.mpr ⟨p, List.mem_of_getElem? hp, hm⟩

/-- The only registration on its way is the one at `k`. -/
theorem registerCalls_of_one (hp : l[k]? = some p) (hm : p.registerCall i = some m) (h : registerCalls l i = [m']) :
    (∀ q, registerCalls (l.set k q) i = (q.registerCall i).toList) ∧ registerCalls (l.eraseIdx k) i = [] := by
  obtain ⟨l₁, l₂, hl, hset, herase⟩ := registerCalls_split (i := i) hp
  have hlen := congrArg List.length (hl.symm.trans h)
  simp only [hm, Option.toList_some, List.length_append, List.length_cons, List.length_nil] at hlen
  obtain rfl : l₁ = [] := List.eq_nil_of_length_eq_zero (by omega)
  obtain rfl : l₂ = [] := List.eq_nil_of_length_eq_zero (by omega)
  exact ⟨fun q => by rw [hset]; simp, herase⟩

end

/-! ### One registration at a time -/

/-- The message is the reply to a registration. -/
def Message.Joins : Message → Prop
  | .clientRegisterReply _ => True
  | _ => False

instance : (m : Message) → Decidable m.Joins
  | .clientRegisterReply _ => isTrue trivial
  | .clientRegister _ | .heartBeat _ _ | .heartBeatReply _ _ _ => isFalse id

/-- The registry has no entry that the client `i` created. -/
def Cluster.NoEntry (s : Cluster) (i : Nat) : Prop :=
  ∀ x ∈ s.server.daemon.gSvrId2SvrInfo.entries, ¬s.HasEntry i x.1

instance (s : Cluster) (i : Nat) : Decidable (s.NoEntry i) :=
  inferInstanceAs (Decidable (∀ x ∈ s.server.daemon.gSvrId2SvrInfo.entries, ¬s.HasEntry i x.1))

/-- A client wakes without a server only when it is not registering, a registered client is told that the daemon does
    not know it only when it has no entry, and so is a client that loses the reply to a registration. -/
def OneRegistration (s : Cluster) : ClusterEvent → Prop
  | .wake i => ∀ c ∈ s.clients[i]?, c.clientStatus = .noServer → c.setting = false ∧ registerCalls s.packets i = []
  | .complete k => ∀ p ∈ s.packets[k]?, p.message.rejected.isSome →
      ∀ c ∈ s.clients[p.client]?, c.clientStatus = .registered → s.NoEntry p.client
  | .fail k => ∀ p ∈ s.packets[k]?, p.message.Joins → s.NoEntry p.client
  | _ => True

instance (s : Cluster) : (e : ClusterEvent) → Decidable (OneRegistration s e)
  | .wake i => inferInstanceAs (Decidable (∀ c ∈ s.clients[i]?, c.clientStatus = .noServer →
      c.setting = false ∧ registerCalls s.packets i = []))
  | .complete k => inferInstanceAs (Decidable (∀ p ∈ s.packets[k]?, p.message.rejected.isSome →
      ∀ c ∈ s.clients[p.client]?, c.clientStatus = .registered → s.NoEntry p.client))
  | .fail k => inferInstanceAs (Decidable (∀ p ∈ s.packets[k]?, p.message.Joins → s.NoEntry p.client))
  | .start .. | .send _ | .deliver .. | .setRegistered _ | .server _ => isTrue trivial

namespace Cluster
variable {s t : Cluster} {i j : Nat} {id : UInt64}

theorem noEntry_iff : s.NoEntry i ↔ ∀ id, ¬s.HasEntry i id := by
  constructor
  · intro h id hentry
    obtain ⟨info, hinfo⟩ := OrdMap.mem_iff_entry.mp hentry.1
    exact h (id, info) hinfo hentry
  · exact fun h x _ => h x.1

/-- A registration gives an entry to its client only. -/
theorem hasEntry_clientRegister {req : ClientRegisterRequest} {peer : String} {draw : Fin (2 ^ 31)} {now : Int}
    {server : State} {packets : List Packet} (hs : s.server.step (.clientRegister req peer draw now) = some server)
    (h : HasEntry { s with server, packets, creator := s.creator.set (s.server.daemon.newServerId draw) i } j id) :
    j = i ∧ id = s.server.daemon.newServerId draw ∨ s.HasEntry j id := by
  obtain ⟨hmem, hlast⟩ := h
  rcases OrdMap.find?_set_eq_some_iff.mp hlast with ⟨hid, hj⟩ | ⟨hne, hcr⟩
  · exact Or.inl ⟨hj, hid⟩
  · rcases (State.steps_of_step hs).mem_infos hmem with ⟨_, _, draw', _, he, hid⟩ | hold
    · obtain ⟨-, -, rfl, -⟩ := Event.clientRegister.inj he
      exact absurd hid hne
    · exact Or.inr ⟨hold, hcr⟩

/-- The other steps of the daemon give no entry. -/
theorem hasEntry_of_step {e : Event} {server : State} {packets : List Packet}
    (he : ∀ req peer draw now, e ≠ .clientRegister req peer draw now) (hs : s.server.step e = some server)
    (h : HasEntry { s with server, packets } j id) : s.HasEntry j id := by
  obtain ⟨hmem, hcr⟩ := h
  rcases (State.steps_of_step hs).mem_infos hmem with ⟨_, _, _, _, heq, -⟩ | hold
  · exact absurd heq (he _ _ _ _)
  · exact ⟨hold, hcr⟩

theorem NoEntry.of_hasEntry (h : s.NoEntry i) (hsub : ∀ id, t.HasEntry i id → s.HasEntry i id) : t.NoEntry i :=
  noEntry_iff.mpr fun id hentry => noEntry_iff.mp h id (hsub id hentry)

end Cluster

namespace Cluster.EntriesUnique
variable {s t : Cluster} {e : ClusterEvent}

theorem of_hasEntry (h : s.EntriesUnique) (hsub : ∀ i id, t.HasEntry i id → s.HasEntry i id) : t.EntriesUnique :=
  fun i a b ha hb => h i a b (hsub i a ha) (hsub i b hb)

theorem clientRegister (h : s.EntriesUnique) {i : Nat} {req : ClientRegisterRequest} {peer : String}
    {draw : Fin (2 ^ 31)} {now : Int} {server : State} {packets : List Packet}
    (hs : s.server.step (.clientRegister req peer draw now) = some server) (hgone : s.NoEntry i) :
    EntriesUnique { s with server, packets, creator := s.creator.set (s.server.daemon.newServerId draw) i } := by
  have hentry : ∀ j id, HasEntry { s with server, packets, creator := s.creator.set (s.server.daemon.newServerId draw) i }
      j id → j = i ∧ id = s.server.daemon.newServerId draw ∨ j ≠ i ∧ s.HasEntry j id := by
    intro j id hj
    rcases hasEntry_clientRegister hs hj with hnew | hold
    · exact Or.inl hnew
    · refine Or.inr ⟨?_, hold⟩
      rintro rfl
      exact noEntry_iff.mp hgone id hold
  intro j a b ha hb
  rcases hentry j a ha with ⟨hj, rfl⟩ | ⟨hj, ha⟩ <;> rcases hentry j b hb with ⟨hj', rfl⟩ | ⟨hj', hb⟩
  · rfl
  · exact absurd hj hj'
  · exact absurd hj' hj
  · exact h j a b ha hb

end Cluster.EntriesUnique

/-! ### The invariant -/

namespace Cluster
variable {s t : Cluster} {i : Nat} {c : DaemonClientImpl}

/-- Where the client `i` stands with its registration. -/
inductive Phase (s : Cluster) (i : Nat) (c : DaemonClientImpl) : Prop where
  /-- It has no id and asks for none. -/
  | away (hcalls : registerCalls s.packets i = []) (hstatus : c.clientStatus = .noServer) (hset : c.setting = false)
    (hgone : s.NoEntry i)
  /-- Its request is on the way to the daemon. -/
  | asking {req} (hcalls : registerCalls s.packets i = [.clientRegister req]) (hstatus : c.clientStatus = .noServer)
    (hset : c.setting = false) (hread : c.status ≠ some .noServer) (hgone : s.NoEntry i)
  /-- The reply is on its way back. -/
  | answered {serverId} (hcalls : registerCalls s.packets i = [.clientRegisterReply ⟨.success, serverId⟩])
    (hstatus : c.clientStatus = .noServer) (hset : c.setting = false) (hread : c.status ≠ some .noServer)
  /-- It has its id, or stores it. -/
  | holding (hcalls : registerCalls s.packets i = []) (hstatus : c.clientStatus = .registered ∨ c.setting = true)
    (hread : c.status ≠ some .noServer)

/-- A step that leaves the registrations of the client alone, and gives it no entry. -/
theorem Phase.congr (h : s.Phase i c) (hcalls : registerCalls t.packets i = registerCalls s.packets i)
    (hgone : s.NoEntry i → t.NoEntry i) : t.Phase i c := by
  cases h with
  | away hc hstatus hset hno => exact .away (hcalls.trans hc) hstatus hset (hgone hno)
  | asking hc hstatus hset hread hno => exact .asking (hcalls.trans hc) hstatus hset hread (hgone hno)
  | answered hc hstatus hset hread => exact .answered (hcalls.trans hc) hstatus hset hread
  | holding hc hstatus hread => exact .holding (hcalls.trans hc) hstatus hread

/-- The client drops what it has read of its status, or has read that it is registered. -/
theorem Phase.read (h : s.Phase i c) (status : Option ClientStatus) (hread : status ≠ some .noServer) :
    s.Phase i { c with status } := by
  cases h with
  | away hc hstatus hset hno => exact .away hc hstatus hset hno
  | asking hc hstatus hset _ hno => exact .asking hc hstatus hset hread hno
  | answered hc hstatus hset => exact .answered hc hstatus hset hread
  | holding hc hstatus => exact .holding hc hstatus hread

end Cluster

/-- The invariant: the clients of the calls and of the entries exist, each client has one entry, and each stands
    somewhere in its registration. -/
structure EntriesInv (s : Cluster) : Prop where
  known : ∀ p ∈ s.packets, p.client < s.clients.length
  created : ∀ i id, s.creator.find? id = some i → i < s.clients.length
  unique : s.EntriesUnique
  phases : ∀ i c, s.clients[i]? = some c → s.Phase i c

namespace EntriesInv
variable {s t : Cluster} {e : ClusterEvent} {i k : Nat} {c c' : DaemonClientImpl}

theorem init : EntriesInv {} where
  known := by simp
  created _ _ hid := by cases hid
  unique _ a _ ha := absurd ha.1 (OrdMap.not_mem_empty a)
  phases := by simp

/-- A step of the client `i` or for one of its calls. -/
theorem of_client (h : EntriesInv s) (i : Nat) (hlen : t.clients.length = s.clients.length)
    (hknown : ∀ p ∈ t.packets, p ∈ s.packets ∨ p.client < s.clients.length)
    (hcreated : ∀ j id, t.creator.find? id = some j → j < s.clients.length) (hunique : t.EntriesUnique)
    (hcalls : ∀ j, i ≠ j → registerCalls t.packets j = registerCalls s.packets j)
    (hgone : ∀ j, i ≠ j → s.NoEntry j → t.NoEntry j)
    (hclients : ∀ j c, t.clients[j]? = some c → i ≠ j → s.clients[j]? = some c)
    (hphase : ∀ c, t.clients[i]? = some c → t.Phase i c) : EntriesInv t where
  known p hp := by
    rw [hlen]
    exact (hknown p hp).elim (h.known p) id
  created j id hj := hlen ▸ hcreated j id hj
  unique := hunique
  phases j c hc := by
    rcases eq_or_ne i j with rfl | hne
    · exact hphase c hc
    · exact (h.phases j c (hclients j c hc hne)).congr (hcalls j hne) (hgone j hne)

/-- A step of the client `i`, with the calls that it starts or completes. -/
theorem setClient (h : EntriesInv s) (hc : s.clients[i]? = some c) {packets : List Packet}
    (hknown : ∀ p ∈ packets, p ∈ s.packets ∨ p.client = i)
    (hcalls : ∀ j, i ≠ j → registerCalls packets j = registerCalls s.packets j)
    (hphase : Cluster.Phase { s with packets } i c') : EntriesInv (Cluster.setClient { s with packets } i c') := by
  obtain ⟨hi, -⟩ := List.getElem?_eq_some_iff.mp hc
  refine h.of_client i (List.length_set ..) (fun p hp => (hknown p hp).imp_right fun hpi : p.client = i => hpi ▸ hi)
    h.created h.unique hcalls (fun j _ hno => hno) (fun j x hx hne => ?_) fun x hx => ?_
  · exact (Count.of_getElem?_set hx).elim (fun heq => absurd heq.1 hne) fun hold => hold.2
  · rcases Count.of_getElem?_set hx with ⟨-, rfl⟩ | ⟨hne, -⟩
    · exact hphase.congr rfl id
    · exact absurd rfl hne

/-- A client sends a request. -/
theorem send (h : EntriesInv s) (hc : s.clients[i]? = some c) {m : Message}
    (hphase : Cluster.Phase (s.addPacket ⟨i, m⟩) i c') : EntriesInv ((s.addPacket ⟨i, m⟩).setClient i c') := by
  refine h.setClient hc (fun p hp => ?_) (fun j hne => ?_) hphase
  · rcases List.mem_append.mp hp with hp | hp
    · exact Or.inl hp
    · exact Or.inr (by rw [List.mem_singleton.mp hp])
  · rw [registerCalls_snoc, Packet.registerCall_of_ne hne]
    exact List.append_nil _

theorem eraseIdx_of_ne {m : Message} (hp : s.packets[k]? = some ⟨i, m⟩) {j : Nat} (hne : i ≠ j) :
    registerCalls (s.packets.eraseIdx k) j = registerCalls s.packets j := by
  refine registerCalls_eraseIdx_of_none fun p hp' => ?_
  obtain rfl := Option.some.inj (hp.symm.trans hp')
  exact Packet.registerCall_of_ne hne

/-- A client handles a reply. -/
theorem complete (h : EntriesInv s) {m : Message} (hp : s.packets[k]? = some ⟨i, m⟩) (hc : s.clients[i]? = some c)
    (hphase : (s.removePacket k).Phase i c') : EntriesInv ((s.removePacket k).setClient i c') :=
  h.setClient hc (fun _ hp => Or.inl (Cluster.mem_removePacket hp)) (fun _ hne => eraseIdx_of_ne hp hne) hphase

theorem start (h : EntriesInv s) (c : DaemonClientImpl) (hstatus : c.clientStatus = .noServer)
    (hset : c.setting = false) : EntriesInv { s with clients := s.clients ++ [c] } where
  known p hp := by
    rw [List.length_append]
    exact Nat.lt_add_right _ (h.known p hp)
  created j id hj := by
    rw [List.length_append]
    exact Nat.lt_add_right _ (h.created j id hj)
  unique := h.unique
  phases j x hx := by
    rcases Count.of_getElem?_snoc hx with hx | ⟨rfl, rfl⟩
    · exact (h.phases j x hx).congr rfl id
    -- no call and no entry belongs to the client that starts
    · refine .away (List.filterMap_eq_nil_iff.mpr fun p hp => ?_) hstatus hset (Cluster.noEntry_iff.mpr fun id hid => ?_)
      · exact Packet.registerCall_of_ne (Nat.ne_of_lt (h.known p hp))
      · exact absurd (h.created _ id hid.2) (Nat.lt_irrefl _)

/-- The daemon does something else. -/
theorem server (h : EntriesInv s) {server : State} {packets : List Packet}
    (hknown : ∀ p ∈ packets, p ∈ s.packets ∨ p.client < s.clients.length)
    (hcalls : ∀ j, registerCalls packets j = registerCalls s.packets j)
    (hentry : ∀ j id, Cluster.HasEntry { s with server, packets } j id → s.HasEntry j id) :
    EntriesInv { s with server, packets } where
  known p hp := (hknown p hp).elim (h.known p) id
  created := h.created
  unique := h.unique.of_hasEntry hentry
  phases j c hc := (h.phases j c hc).congr (hcalls j) fun hno => hno.of_hasEntry (hentry j)

/-- The daemon gives an id to a client that has none. -/
theorem clientRegister (h : EntriesInv s) {req : ClientRegisterRequest} {peer : String} {draw : Fin (2 ^ 31)}
    {now : Int} {server : State} (hp : s.packets[k]? = some ⟨i, .clientRegister req⟩)
    (hs : s.server.step (.clientRegister req peer draw now) = some server) :
    EntriesInv { s with
      server
      packets := s.packets.set k ⟨i, .clientRegisterReply ⟨.success, s.server.daemon.newServerId draw⟩⟩
      creator := s.creator.set (s.server.daemon.newServerId draw) i } := by
  have hi := h.known ⟨i, _⟩ (List.mem_of_getElem? hp)
  have hone : Packet.registerCall ⟨i, .clientRegister req⟩ i = some (.clientRegister req) := if_pos rfl
  obtain ⟨c, hc⟩ : ∃ c, s.clients[i]? = some c := ⟨_, List.getElem?_eq_getElem hi⟩
  cases h.phases i c hc with
  | asking hcalls hstatus hset hread hgone =>
    refine h.of_client i rfl (fun p hp' => ?_) (fun j id hj => ?_) (h.unique.clientRegister hs hgone) (fun j hne => ?_)
      (fun j hne hno => ?_) (fun _ _ hx _ => hx) fun x hx => ?_
    · rcases Count.mem_set hp' with rfl | hp'
      · exact Or.inr hi
      · exact Or.inl hp'
    · rcases OrdMap.find?_set_eq_some_iff.mp hj with ⟨-, rfl⟩ | ⟨-, hold⟩
      · exact hi
      · exact h.created j id hold
    · exact registerCalls_set_of_none hp (Packet.registerCall_of_ne hne) (Packet.registerCall_of_ne hne)
    · refine hno.of_hasEntry fun id hentry => ?_
      rcases Cluster.hasEntry_clientRegister hs hentry with ⟨hj, -⟩ | hold
      · exact absurd hj.symm hne
      · exact hold
    · obtain rfl := Option.some.inj (hc.symm.trans hx)
      have hreply := (registerCalls_of_one hp hone hcalls).1
        ⟨i, .clientRegisterReply ⟨.success, s.server.daemon.newServerId draw⟩⟩
      rw [Packet.registerCall, if_pos rfl] at hreply
      exact .answered hreply hstatus hset hread
  | answered hcalls =>
    have hmem := mem_registerCalls hp hone
    rw [hcalls, List.mem_singleton] at hmem
    cases hmem
  | away hcalls | holding hcalls =>
    have hmem := mem_registerCalls hp hone
    rw [hcalls] at hmem
    cases hmem

/-- The client is told its id. -/
theorem registered (h : EntriesInv s) {reply : ClientRegisterReply}
    (hp : s.packets[k]? = some ⟨i, .clientRegisterReply reply⟩) (hc : s.clients[i]? = some c) :
    EntriesInv ((s.removePacket k).setClient i (c.onRegisterResponse reply)) := by
  refine h.complete hp hc ?_
  have hone : Packet.registerCall ⟨i, .clientRegisterReply reply⟩ i = some (.clientRegisterReply reply) := if_pos rfl
  have hmem := mem_registerCalls hp hone
  cases h.phases i c hc with
  | answered hcalls hstatus hset hread =>
    rw [hcalls, List.mem_singleton, Message.clientRegisterReply.injEq] at hmem
    subst hmem
    exact .holding (registerCalls_of_one hp hone hcalls).2 (Or.inr rfl) hread
  | asking hcalls =>
    rw [hcalls, List.mem_singleton] at hmem
    cases hmem
  | away hcalls | holding hcalls =>
    rw [hcalls] at hmem
    cases hmem

/-- The client is told that the daemon does not know it, or that it does. -/
theorem heartBeaten (h : EntriesInv s) {req : HeartBeatRequest} {registration : Nat} {reply : HeartBeatReply}
    (hp : s.packets[k]? = some ⟨i, .heartBeatReply req registration reply⟩) (hc : s.clients[i]? = some c)
    (hset : c.setting = false) (hgone : reply.err = .err → c.clientStatus = .registered → s.NoEntry i) :
    EntriesInv ((s.removePacket k).setClient i (c.onHeartBeatResponse reply)) := by
  refine h.complete hp hc ?_
  have hcalls : registerCalls (s.removePacket k).packets i = registerCalls s.packets i := by
    refine registerCalls_eraseIdx_of_none fun p hp' => ?_
    obtain rfl := Option.some.inj (hp.symm.trans hp')
    rfl
  have hphase : (s.removePacket k).Phase i c := (h.phases i c hc).congr hcalls id
  unfold DaemonClientImpl.onHeartBeatResponse
  split
  next herr =>
    cases hphase with
    | away hcalls _ hset hno => exact .away hcalls rfl hset hno
    | asking hcalls _ hset hread hno => exact .asking hcalls rfl hset hread hno
    | answered hcalls _ hset hread => exact .answered hcalls rfl hset hread
    | holding hcalls hstatus =>
      rw [hset] at hstatus
      exact .away hcalls rfl hset (hgone herr (hstatus.resolve_right (by simp)))
  next => exact hphase

/-- A client loses a call. -/
theorem fail (h : EntriesInv s) (hgone : ∀ p ∈ s.packets[k]?, p.message.Joins → s.NoEntry p.client) :
    EntriesInv (s.removePacket k) := by
  cases hp : s.packets[k]? with
  | none =>
    rw [Cluster.removePacket, List.eraseIdx_of_length_le (List.getElem?_eq_none_iff.mp hp)]
    exact h
  | some p =>
    obtain ⟨i, m⟩ := p
    refine h.of_client i rfl (fun _ hp => Or.inl (Cluster.mem_removePacket hp)) h.created h.unique
      (fun j hne => eraseIdx_of_ne hp hne) (fun _ _ hno => hno) (fun _ _ hx _ => hx) fun c hc => ?_
    have hphase := h.phases i c hc
    cases hm : Packet.registerCall ⟨i, m⟩ i with
    | none =>
      refine hphase.congr (registerCalls_eraseIdx_of_none fun p hp' => ?_) id
      obtain rfl := Option.some.inj (hp.symm.trans hp')
      exact hm
    | some m' =>
      have hmem := mem_registerCalls hp hm
      cases hphase with
      | away hcalls | holding hcalls =>
        rw [hcalls] at hmem
        cases hmem
      | asking hcalls hstatus hset hread hno => exact .away (registerCalls_of_one hp hm hcalls).2 hstatus hset hno
      | answered hcalls hstatus hset hread =>
        rw [hcalls, List.mem_singleton] at hmem
        obtain rfl : m = _ := (Packet.registerCall_eq_some hm).trans hmem
        exact .away (registerCalls_of_one hp hm hcalls).2 hstatus hset (hgone _ hp trivial)

theorem keep (h : EntriesInv s) (hok : OneRegistration s e) (hs : Cluster.Steps s e t) : EntriesInv t := by
  cases hs with
  | start => exact h.start _ rfl rfl
  | @wake i c hc =>
    refine h.setClient hc (fun _ hp => Or.inl hp) (fun _ _ => rfl) ?_
    by_cases hstatus : c.clientStatus = .noServer
    · obtain ⟨hset, hcalls⟩ := hok c hc hstatus
      cases h.phases i c hc with
      | away _ _ _ hno => exact .away hcalls hstatus hset hno
      | asking hone | answered hone => rw [hcalls] at hone; cases hone
      | holding _ hheld => simp [hstatus, hset] at hheld
    · exact (h.phases i c hc).read _ fun hread => hstatus (Option.some.inj hread)
  | @sendRegister i c hc hst =>
    refine h.send hc ?_
    cases h.phases i c hc with
    | away hcalls hstatus hset hno =>
      have hone : registerCalls (s.addPacket ⟨i, .clientRegister ⟨c.listeningPort, c.procName, c.groupId⟩⟩).packets i =
          [.clientRegister ⟨c.listeningPort, c.procName, c.groupId⟩] := by
        rw [Cluster.addPacket, registerCalls_snoc, hcalls, Packet.registerCall, if_pos rfl]
        rfl
      exact .asking hone hstatus hset (by simp) hno
    | asking _ _ _ hread | answered _ _ _ hread | holding _ _ hread => exact absurd hst hread
  | @sendHeartBeat i c hc hst =>
    have hcalls : registerCalls (s.addPacket ⟨i, .heartBeat ⟨c.serverId⟩ c.registrations⟩).packets i =
        registerCalls s.packets i := registerCalls_snoc.trans (List.append_nil _)
    exact h.send hc (((h.phases i c hc).congr hcalls id).read none (by simp))
  | clientRegister hp hs => exact h.clientRegister hp hs
  | heartBeat hp hs =>
    have hi := h.known _ (List.mem_of_getElem? hp)
    refine h.server (fun p hp' => ?_) (fun j => registerCalls_set_of_none hp rfl rfl) fun j id =>
      Cluster.hasEntry_of_step (by simp) hs
    rcases Count.mem_set hp' with rfl | hp'
    · exact Or.inr hi
    · exact Or.inl hp'
  | registered hp hc => exact h.registered hp hc
  | @heartBeaten k i c req registration reply hp hc hset =>
    obtain ⟨code⟩ := reply
    refine h.heartBeaten hp hc hset fun herr => hok _ hp ?_ _ hc
    obtain rfl : code = .err := herr
    rfl
  | fail => exact h.fail hok
  | setRegistered hc hset =>
    refine h.setClient hc (fun _ hp => Or.inl hp) (fun _ _ => rfl) ?_
    cases h.phases _ _ hc with
    | away _ _ hset' | asking _ _ hset' | answered _ _ hset' => rw [hset] at hset'; cases hset'
    | holding hcalls _ hread => exact .holding hcalls (Or.inl rfl) hread
  | server he hs =>
    refine h.server (fun _ hp => Or.inl hp) (fun _ => rfl) fun j id =>
      Cluster.hasEntry_of_step (fun req peer draw now heq => ?_) hs
    subst heq
    exact he

end EntriesInv

/-- In every run in which the clients register once at a time, no client has two entries. -/
theorem entries_unique {s : Cluster} (h : ClusterReaches OneRegistration s) : s.EntriesUnique := by
  have hi : EntriesInv s := h.induct .init fun _ _ _ hi hok hs => hi.keep hok hs
  exact hi.unique

theorem entries_unique_two_clients : ∃ s, ClusterReaches OneRegistration s ∧ s.HasEntry 0 5 ∧ s.HasEntry 1 6 ∧
    s.EntriesUnique := by
  obtain ⟨s, hs, h₀, h₁⟩ := ClusterReaches.of_events OneRegistration (fun s => s.HasEntry 0 5 ∧ s.HasEntry 1 6)
    (registerClient 0 0 ++ registerClient 1 0) (by decide +kernel)
  exact ⟨s, hs, h₀, h₁, entries_unique hs⟩

/-- The client wakes a second time before it hears of its registration: both registrations are given an entry. -/
theorem entries_doubled : ∃ s, ClusterReaches AnyClusterEvent s ∧ s.HasEntry 0 5 ∧ s.HasEntry 0 6 ∧
    ¬s.EntriesUnique := by
  obtain ⟨s, hs, h₅, h₆⟩ := ClusterReaches.of_events AnyClusterEvent (fun s => s.HasEntry 0 5 ∧ s.HasEntry 0 6)
    [.start "50053" producerName 601 0, .wake 0, .send 0, .wake 0, .send 0, .deliver 0 "ipv4:10.0.0.1:4000" 5 0,
      .deliver 1 "ipv4:10.0.0.1:4000" 0 0]
    (by decide +kernel)
  exact ⟨s, hs, h₅, h₆, fun h => absurd (h 0 5 6 h₅ h₆) (by decide)⟩

end PushSystem
