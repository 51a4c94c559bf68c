import PushSystem.Lib.Count
import PushSystem.Theorems.DaemonClient.Ids

/-! Replies to old heartbeats. The reply to a heartbeat does not say what it is about, so an error that answers a
    heartbeat from before a registration takes the client off. This does not happen as long as no error is on its way
    when the client hears of its new id, and none is sent for an earlier registration afterwards. Ids are given out
    again, so it is the registration that tells an old heartbeat, also where the id is the same. -/

namespace PushSystem

namespace Message

/-- The client is told an id. -/
def Assigns : Message → Prop
  | .clientRegisterReply ⟨.success, _⟩ => True
  | _ => False

instance : (m : Message) → Decidable m.Assigns
  | .clientRegisterReply ⟨.success, _⟩ => isTrue trivial
  | .clientRegisterReply ⟨.err, _⟩ | .clientRegister _ | .heartBeat _ _ | .heartBeatReply _ _ _ => isFalse id

/-- The heartbeat that the daemon is still to handle, and the registration it was sent for. -/
def beats : Message → Option (HeartBeatRequest × Nat)
  | .heartBeat req registration => some (req, registration)
  | _ => none

/-- The registration that a heartbeat was sent for that is answered with an error. -/
def rejected : Message → Option Nat
  | .heartBeatReply _ registration ⟨.err⟩ => some registration
  | _ => none

/-- The heartbeat of a call, and the registration it was sent for. -/
def sentFor : Message → Option (HeartBeatRequest × Nat)
  | .heartBeat req registration | .heartBeatReply req registration _ => some (req, registration)
  | _ => none

end Message

/-- A reply to a heartbeat for another id, or from before its last registration, leaves a client registered whose id
    the daemon knows. -/
def Cluster.StaleHarmless (s : Cluster) : Prop :=
  ∀ (k i : Nat) (c c' : DaemonClientImpl) (req : HeartBeatRequest) (registration : Nat) (reply : HeartBeatReply)
    (t : Cluster), s.packets[k]? = some ⟨i, .heartBeatReply req registration reply⟩ → s.clients[i]? = some c →
    c.clientStatus = .registered → c.serverId ∈ s.server.daemon.gSvrId2SvrInfo →
    req.serverId ≠ c.serverId ∨ registration ≠ c.registrations →
    s.step (.complete k) = some t → t.clients[i]? = some c' → c'.clientStatus ≠ .noServer

/-- A client hears of a new id only when no error for a heartbeat is on its way to it, and the daemon answers a
    heartbeat with an error only when its client has not stored an id since it was sent, or is not registered nor about
    to be. -/
def NoStaleErrors (s : Cluster) : ClusterEvent → Prop
  | .complete k => ∀ p ∈ s.packets[k]?, p.message.Assigns → ∀ q ∈ s.packets, q.client = p.client →
      q.message.rejected = none
  | .deliver k _ _ _ => ∀ p ∈ s.packets[k]?, ∀ x ∈ p.message.beats, x.1.serverId ∉ s.server.daemon.gSvrId2SvrInfo →
      ∀ c ∈ s.clients[p.client]?, c.Has c.serverId → x.2 = c.registrations
  | _ => True

instance (s : Cluster) : (e : ClusterEvent) → Decidable (NoStaleErrors s e)
  | .complete k => inferInstanceAs (Decidable (∀ p ∈ s.packets[k]?, p.message.Assigns → ∀ q ∈ s.packets,
      q.client = p.client → q.message.rejected = none))
  | .deliver k _ _ _ => inferInstanceAs (Decidable (∀ p ∈ s.packets[k]?, ∀ x ∈ p.message.beats,
      x.1.serverId ∉ s.server.daemon.gSvrId2SvrInfo → ∀ c ∈ s.clients[p.client]?, c.Has c.serverId →
      x.2 = c.registrations))
  | .start .. | .wake _ | .send _ | .fail _ | .setRegistered _ | .server _ => isTrue trivial

/-! ### The invariant -/

/-- The clients of the calls exist, a heartbeat that was sent for the last registration has the client's id, and the
    errors on their way to a client that is registered or about to be answer heartbeats for its last registration. -/
structure StaleInv (s : Cluster) : Prop where
  known : ∀ p ∈ s.packets, p.client < s.clients.length
  sent : ∀ (i : Nat) (c : DaemonClientImpl), s.clients[i]? = some c → ∀ q ∈ s.packets, q.client = i →
    ∀ x ∈ q.message.sentFor, x.2 ≤ c.registrations ∧ (x.2 = c.registrations → x.1.serverId = c.serverId)
  errors : ∀ (i : Nat) (c : DaemonClientImpl), s.clients[i]? = some c → c.Has c.serverId →
    ∀ q ∈ s.packets, q.client = i → ∀ r ∈ q.message.rejected, r = c.registrations

namespace StaleInv
variable {s t : Cluster} {e : ClusterEvent} {i : Nat} {c c' : DaemonClientImpl}

/-- A step of one client that adds no error, and no heartbeat but for its id and registration. The client keeps them, or
    stores a new id when no error is on its way to it. -/
theorem setClient (h : StaleInv s) (hc : s.clients[i]? = some c) (ht : t.clients = s.clients)
    (hp : ∀ q ∈ t.packets, q ∈ s.packets ∨
      q.client = i ∧ q.message.rejected = none ∧ ∀ x ∈ q.message.sentFor, x = (⟨c'.serverId⟩, c'.registrations))
    (hid : (c'.serverId = c.serverId ∧ c'.registrations = c.registrations ∧ (c'.Has c'.serverId → c.Has c.serverId)) ∨
      c'.registrations = c.registrations + 1 ∧ ∀ q ∈ s.packets, q.client = i → q.message.rejected = none) :
    StaleInv (t.setClient i c') where
  known p hmem := by
    rw [Cluster.setClient, List.length_set, ht]
    rcases hp p hmem with hmem | ⟨rfl, -⟩
    · exact h.known p hmem
    · exact (List.getElem?_eq_some_iff.mp hc).1
  sent j x hx q hq hj y hy := by
    have hx' : (s.clients.set i c')[j]? = some x := ht ▸ hx
    rcases Count.of_getElem?_set hx' with ⟨rfl, rfl⟩ | ⟨hne, hx⟩
    · rcases hp q hq with hq | ⟨-, -, hy'⟩
      · obtain ⟨hle, hsame⟩ := h.sent i c hc q hq hj y hy
        rcases hid with ⟨hid, hreg, -⟩ | ⟨hreg, -⟩
        · rw [hid, hreg]
          exact ⟨hle, hsame⟩
        -- it was sent before the client has stored the new id
        · exact ⟨by omega, fun heq => by omega⟩
      · rw [hy' y hy]
        exact ⟨Nat.le_refl _, fun _ => rfl⟩
    · rcases hp q hq with hq | ⟨hi, -⟩
      · exact h.sent j x hx q hq hj y hy
      · exact absurd (hi.symm.trans hj) hne
  errors j x hx hhad q hq hj r hr := by
    have hx' : (s.clients.set i c')[j]? = some x := ht ▸ hx
    rcases hp q hq with hold | ⟨-, hnone, -⟩
    · rcases Count.of_getElem?_set hx' with ⟨rfl, rfl⟩ | ⟨-, hx⟩
      · rcases hid with ⟨-, hreg, hhas⟩ | ⟨-, hall⟩
        · rw [hreg]
          exact h.errors i c hc (hhas hhad) q hold hj r hr
        · rw [hall q hold hj] at hr
          cases hr
      · exact h.errors j x hx hhad q hold hj r hr
    · rw [hnone] at hr
      cases hr

/-- A client sends a request. -/
theorem send (h : StaleInv s) (hc : s.clients[i]? = some c) (m : Message) (hm : m.rejected = none)
    (hsent : ∀ x ∈ m.sentFor, x = (⟨c.serverId⟩, c.registrations)) (status : Option ClientStatus) :
    StaleInv ((s.addPacket ⟨i, m⟩).setClient i { c with status }) := by
  refine h.setClient hc rfl (fun q hq => ?_) (Or.inl ⟨rfl, rfl, id⟩)
  rcases List.mem_append.mp hq with hq | hq
  · exact Or.inl hq
  · obtain rfl := List.mem_singleton.mp hq
    exact Or.inr ⟨rfl, hm, hsent⟩

theorem complete (h : StaleInv s) {k : Nat} (hc : s.clients[i]? = some c)
    (hid : (c'.serverId = c.serverId ∧ c'.registrations = c.registrations ∧ (c'.Has c'.serverId → c.Has c.serverId)) ∨
      c'.registrations = c.registrations + 1 ∧ ∀ q ∈ s.packets, q.client = i → q.message.rejected = none) :
    StaleInv ((s.removePacket k).setClient i c') :=
  h.setClient hc rfl (fun _ hq => Or.inl (Cluster.mem_removePacket hq)) hid

/-- The daemon answers a call. -/
theorem deliver (h : StaleInv s) {k : Nat} {m m' : Message} (server : State) (creator : OrdMap UInt64 Nat)
    (hp : s.packets[k]? = some ⟨i, m⟩) (hsent : ∀ x ∈ m'.sentFor, m.sentFor = some x)
    (hm : ∀ r ∈ m'.rejected, ∀ c ∈ s.clients[i]?, c.Has c.serverId → r = c.registrations) :
    StaleInv { s with server, packets := s.packets.set k ⟨i, m'⟩, creator } where
  known q hq := by
    rcases Count.mem_set hq with rfl | hq
    · exact h.known ⟨i, m⟩ (List.mem_of_getElem? hp)
    · exact h.known q hq
  sent j x hx q hq hj y hy := by
    rcases Count.mem_set hq with rfl | hq
    · exact h.sent j x hx ⟨i, m⟩ (List.mem_of_getElem? hp) hj y (hsent y hy)
    · exact h.sent j x hx q hq hj y hy
  errors j x hx hhad q hq hj r hr := by
    rcases Count.mem_set hq with rfl | hq
    · subst hj
      exact hm r hr x hx hhad
    · exact h.errors j x hx hhad q hq hj r hr

/-- Steps that leave the clients and the calls alone, or end a call. -/
theorem of_packets (h : StaleInv s) (hc : t.clients = s.clients) (hp : ∀ q ∈ t.packets, q ∈ s.packets) : StaleInv t where
  known p hmem := hc ▸ h.known p (hp p hmem)
  sent j x hx q hq := h.sent j x (hc ▸ hx) q (hp q hq)
  errors j x hx hhas q hq := h.errors j x (hc ▸ hx) hhas q (hp q hq)

theorem start (h : StaleInv s) (c : DaemonClientImpl) : StaleInv { s with clients := s.clients ++ [c] } where
  known p hp := by
    rw [List.length_append]
    exact Nat.lt_add_right _ (h.known p hp)
  sent j x hx q hq hj := by
    rcases Count.of_getElem?_snoc hx with hx | ⟨rfl, -⟩
    · exact h.sent j x hx q hq hj
    -- no call belongs to the client that starts
    · exact absurd (h.known q hq) (Nat.not_lt.mpr (Nat.le_of_eq hj.symm))
  errors j x hx hhas q hq hj := by
    rcases Count.of_getElem?_snoc hx with hx | ⟨rfl, -⟩
    · exact h.errors j x hx hhas q hq hj
    · exact absurd (h.known q hq) (Nat.not_lt.mpr (Nat.le_of_eq hj.symm))

theorem keep (h : StaleInv s) (hok : NoStaleErrors s e) (hs : Cluster.Steps s e t) : StaleInv t := by
  cases hs with
  | start => exact h.start _
  | wake hc => exact h.setClient hc rfl (fun _ hq => Or.inl hq) (Or.inl ⟨rfl, rfl, id⟩)
  | sendRegister hc => exact h.send hc _ rfl (fun _ hx => by cases hx) none
  | sendHeartBeat hc => exact h.send hc _ rfl (fun _ hx => by cases hx; rfl) none
  | clientRegister hp => exact h.deliver _ _ hp (fun _ hx => by cases hx) fun _ hr => by cases hr
  | @heartBeat k i req registration peer draw now server hp hs =>
    refine h.deliver server s.creator hp (fun _ hx => hx) fun r hr c hc hhas => ?_
    have hunknown : r = registration ∧ req.serverId ∉ s.server.daemon.gSvrId2SvrInfo := by
      unfold Daemon.heartBeat at hr
      split at hr
      next hf => exact ⟨(Option.some.inj hr).symm, OrdMap.not_mem_iff.mpr hf⟩
      next => cases hr
    obtain ⟨rfl, hgone⟩ := hunknown
    exact hok _ hp _ rfl hgone c hc hhas
  | @registered k i c reply hp hc =>
    refine h.complete hc ?_
    obtain ⟨code, id⟩ := reply
    cases code with
    | success => exact Or.inr ⟨rfl, hok _ hp trivial⟩
    | err => exact Or.inl ⟨rfl, rfl, IdsInv.has_of_noServer⟩
  | @heartBeaten k i c req registration reply hp hc =>
    refine h.complete hc (Or.inl ?_)
    obtain ⟨code⟩ := reply
    cases code with
    | success => exact ⟨rfl, rfl, id⟩
    | err => exact ⟨rfl, rfl, IdsInv.has_of_noServer⟩
  | fail => exact h.of_packets rfl fun _ hq => Cluster.mem_removePacket hq
  | setRegistered hc hset =>
    exact h.setClient hc rfl (fun _ hq => Or.inl hq) (Or.inl ⟨rfl, rfl, fun _ => ⟨rfl, Or.inr hset⟩⟩)
  | server => exact h.of_packets rfl fun _ hq => hq

/-- A heartbeat for another id was sent for another registration. -/
theorem registration_ne (h : StaleInv s) (hc : s.clients[i]? = some c) {q : Packet} (hq : q ∈ s.packets)
    (hi : q.client = i) {req : HeartBeatRequest} {registration : Nat} (hx : q.message.sentFor = some (req, registration))
    (hold : req.serverId ≠ c.serverId ∨ registration ≠ c.registrations) : registration ≠ c.registrations :=
  hold.elim (fun hne heq => hne ((h.sent i c hc q hq hi _ hx).2 heq)) id

theorem staleHarmless (h : StaleInv s) : s.StaleHarmless := by
  intro k i c c' req registration reply t hp hc hreg _ hold hs hc'
  have hq := List.mem_of_getElem? hp
  have hne := h.registration_ne hc hq rfl rfl hold
  have herr : reply.err = .success := by
    obtain ⟨code⟩ := reply
    cases code with
    | success => rfl
    | err => exact absurd (h.errors i c hc ⟨rfl, Or.inl hreg⟩ _ hq rfl registration rfl) hne
  obtain ⟨hi, -⟩ := List.getElem?_eq_some_iff.mp hc
  cases Cluster.steps_of_step hs with
  | registered hp' => rw [hp] at hp'; cases hp'
  | heartBeaten hp' hx =>
    obtain ⟨rfl, rfl, rfl, rfl⟩ : _ ∧ _ ∧ _ ∧ _ := by simpa using hp.symm.trans hp'
    obtain rfl := Option.some.inj (hc.symm.trans hx)
    simp only [Cluster.setClient, Cluster.removePacket, List.getElem?_set_self hi, Option.some.injEq] at hc'
    rw [← hc', DaemonClientImpl.onHeartBeatResponse, herr]
    simp [hreg]

end StaleInv

/-- In every run without stale errors, no reply to an old heartbeat takes off a client whose id is known. -/
theorem stale_harmless {s : Cluster} (h : ClusterReaches NoStaleErrors s) : s.StaleHarmless := by
  have hi : StaleInv s := h.induct ⟨by simp, by simp, by simp⟩ fun _ _ _ hi hok hs => hi.keep hok hs
  exact hi.staleHarmless

theorem stale_harmless_two_heartbeats : ∃ s, ClusterReaches NoStaleErrors s ∧
    s.packets = [⟨0, .heartBeatReply ⟨5⟩ 1 ⟨.success⟩⟩, ⟨0, .heartBeat ⟨5⟩ 1⟩] ∧ s.StaleHarmless := by
  obtain ⟨s, hs, hp⟩ := ClusterReaches.of_events NoStaleErrors
    (fun s => s.packets = [⟨0, .heartBeatReply ⟨5⟩ 1 ⟨.success⟩⟩, ⟨0, .heartBeat ⟨5⟩ 1⟩])
    (registerClient 0 0 ++ ([.wake 0, .send 0, .wake 0, .send 0, .deliver 0 "" 0 0] : List ClusterEvent))
    (by decide +kernel)
  exact ⟨s, hs, hp, stale_harmless hs⟩

/-- Both heartbeats reach the daemon after it has swept the client. The first error makes the client register
    again, and the second one is handled when it has its new id. -/
theorem stale_harmful : ∃ s, ClusterReaches AnyClusterEvent s ∧ 6 ∈ s.server.daemon.gSvrId2SvrInfo ∧
    (s.clients[0]?.bind (·.getServerId)) = some 6 ∧ ¬s.StaleHarmless := by
  obtain ⟨s, hs, hmem, hc, hp, hstep⟩ := ClusterReaches.of_events AnyClusterEvent
    (fun s => 6 ∈ s.server.daemon.gSvrId2SvrInfo ∧ (s.clients[0]?.bind (·.getServerId)) = some 6 ∧
      s.packets[0]? = some ⟨0, .heartBeatReply ⟨5⟩ 1 ⟨.err⟩⟩ ∧
      ((s.step (.complete 0)).bind (·.clients[0]?)).map (·.clientStatus) = some .noServer)
    (registerClient 0 0 ++ ([.wake 0, .send 0, .wake 0, .send 0, .server (.checkProcAlive 20), .deliver 0 "" 0 20,
      .deliver 1 "" 0 20, .complete 0, .wake 0, .send 0, .deliver 1 "ipv4:10.0.0.1:4000" 6 20, .complete 1,
      .setRegistered 0] : List ClusterEvent))
    (by decide +kernel)
  refine ⟨s, hs, hmem, hc, fun hsafe => ?_⟩
  obtain ⟨c, hclient, hid⟩ := Option.bind_eq_some_iff.mp hc
  obtain ⟨hreg, hid⟩ := DaemonClientImpl.getServerId_eq_some_iff.mp hid
  obtain ⟨c', hnew, hstatus⟩ := Option.map_eq_some_iff.mp hstep
  obtain ⟨t, ht, hnew⟩ := Option.bind_eq_some_iff.mp hnew
  exact hsafe 0 0 c c' ⟨5⟩ 1 ⟨.err⟩ t hp hclient hreg (hid ▸ hmem) (Or.inl (by rw [hid]; decide)) ht hnew hstatus

end PushSystem
