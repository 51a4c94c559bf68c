import PushSystem.Lib.Count
import PushSystem.Theorems.DaemonClient.Steps

/-! The ids of the clients. A client claims the id that it is registered with, is storing, or will be
    told by a reply on its way. No two clients claim one id as long as no registration is given an id that
    another client still claims. -/

namespace PushSystem

/-- The client is registered with `id`, or is about to be. -/
def DaemonClientImpl.Has (c : DaemonClientImpl) (id : UInt64) : Prop :=
  c.serverId = id ∧ (c.clientStatus = .registered ∨ c.setting)

instance (c : DaemonClientImpl) (id : UInt64) : Decidable (c.Has id) := by
  unfold DaemonClientImpl.Has
  infer_instance

theorem DaemonClientImpl.getServerId_eq_some_iff {c : DaemonClientImpl} {id : UInt64} :
    c.getServerId = some id ↔ c.clientStatus = .registered ∧ c.serverId = id := by
  unfold getServerId
  split <;> simp [*]

namespace Cluster

/-- The client `i` claims `id`. -/
def Claims (s : Cluster) (i : Nat) (id : UInt64) : Prop :=
  ∃ c ∈ s.clients[i]?, c.Has id ∨ ⟨i, .clientRegisterReply ⟨.success, id⟩⟩ ∈ s.packets

instance (s : Cluster) (i : Nat) (id : UInt64) : Decidable (s.Claims i id) := by
  unfold Claims
  infer_instance

/-- No two clients are registered with one id, and a client is registered with an id that was last given to
    itself. -/
structure IdsUnshared (s : Cluster) : Prop where
  registered : ∀ (i j : Nat) (a b : DaemonClientImpl), s.clients[i]? = some a → s.clients[j]? = some b →
    a.clientStatus = .registered → b.clientStatus = .registered → a.serverId = b.serverId → i = j
  own : ∀ (i : Nat) (c : DaemonClientImpl), s.clients[i]? = some c → c.clientStatus = .registered →
    s.creator.find? c.serverId = some i

end Cluster

/-- The message asks the daemon for an id. -/
def Message.Registers : Message → Prop
  | .clientRegister _ => True
  | _ => False

instance : (m : Message) → Decidable m.Registers
  | .clientRegister _ => isTrue trivial
  | .clientRegisterReply _ | .heartBeat _ _ | .heartBeatReply _ _ _ => isFalse id

/-- A registration is given no id that another client claims. -/
def IdsFresh (s : Cluster) : ClusterEvent → Prop
  | .deliver k _ draw _ => ∀ p ∈ s.packets[k]?, p.message.Registers →
      ∀ j < s.clients.length, j ≠ p.client → ¬s.Claims j (s.server.daemon.newServerId draw)
  | _ => True

instance (s : Cluster) : (e : ClusterEvent) → Decidable (IdsFresh s e)
  | .deliver k _ draw _ => inferInstanceAs (Decidable (∀ p ∈ s.packets[k]?, p.message.Registers →
      ∀ j < s.clients.length, j ≠ p.client → ¬s.Claims j (s.server.daemon.newServerId draw)))
  | .start .. | .wake _ | .send _ | .complete _ | .fail _ | .setRegistered _ | .server _ => isTrue trivial

/-! ### The invariant -/

namespace Cluster
variable {s t : Cluster} {i j : Nat} {id : UInt64} {c c' : DaemonClientImpl}

/-- A step that leaves the replies alone but for those it takes away, and gives a client an id only if the
    client claimed it. -/
theorem Claims.of_setClient (h : (t.setClient i c').Claims j id) (hc : s.clients[i]? = some c)
    (ht : t.clients = s.clients) (hhas : c'.Has id → s.Claims i id)
    (hp : ∀ reply, ⟨j, .clientRegisterReply reply⟩ ∈ t.packets → ⟨j, .clientRegisterReply reply⟩ ∈ s.packets) :
    s.Claims j id := by
  obtain ⟨x, hx, hclaim⟩ := h
  have hx' : (s.clients.set i c')[j]? = some x := ht ▸ hx
  rcases Count.of_getElem?_set hx' with ⟨rfl, rfl⟩ | ⟨-, hx⟩
  · rcases hclaim with hclaim | hclaim
    · exact hhas hclaim
    · exact ⟨c, hc, Or.inr (hp _ hclaim)⟩
  · exact ⟨x, hx, hclaim.imp_right fun hclaim => hp _ hclaim⟩

theorem mem_addPacket_reply {p : Packet} {reply : ClientRegisterReply} (hp : ¬∃ r, p.message = .clientRegisterReply r)
    (h : ⟨j, .clientRegisterReply reply⟩ ∈ (s.addPacket p).packets) :
    ⟨j, .clientRegisterReply reply⟩ ∈ s.packets := by
  rcases List.mem_append.mp h with h | h
  · exact h
  · exact absurd ⟨reply, by rw [← List.mem_singleton.mp h]⟩ hp

theorem mem_removePacket {k : Nat} {p : Packet} (h : p ∈ (s.removePacket k).packets) : p ∈ s.packets :=
  List.mem_of_mem_eraseIdx h

end Cluster

/-- The invariant: the clients of the calls exist, and an id is claimed only by the client it was last given
    to. -/
structure IdsInv (s : Cluster) : Prop where
  known : ∀ p ∈ s.packets, p.client < s.clients.length
  created : ∀ i id, s.Claims i id → s.creator.find? id = some i

namespace IdsInv
variable {s t : Cluster} {e : ClusterEvent}

theorem unshared (h : IdsInv s) : s.IdsUnshared where
  registered i j a b ha hb hra hrb hid := by
    have hi := h.created i a.serverId ⟨a, ha, Or.inl ⟨rfl, Or.inl hra⟩⟩
    have hj := h.created j a.serverId ⟨b, hb, Or.inl ⟨hid.symm, Or.inl hrb⟩⟩
    exact Option.some.inj (hi.symm.trans hj)
  own i c hc hr := h.created i c.serverId ⟨c, hc, Or.inl ⟨rfl, Or.inl hr⟩⟩

/-- Steps that give out no id. -/
theorem of_claims (h : IdsInv s) (hlen : s.clients.length ≤ t.clients.length)
    (hp : ∀ p ∈ t.packets, p.client < s.clients.length) (hcr : t.creator = s.creator)
    (hclaims : ∀ i id, t.Claims i id → s.Claims i id) : IdsInv t where
  known p hmem := Nat.lt_of_lt_of_le (hp p hmem) hlen
  created i id hc := hcr ▸ h.created i id (hclaims i id hc)

/-- Steps that change the status of a client and start a call for it. -/
theorem send (h : IdsInv s) {i : Nat} {c : DaemonClientImpl} (hc : s.clients[i]? = some c) (m : Message)
    (hm : ¬∃ r, m = .clientRegisterReply r) (status : Option ClientStatus) :
    IdsInv ((s.addPacket ⟨i, m⟩).setClient i { c with status }) := by
  refine h.of_claims (by simp [Cluster.setClient, Cluster.addPacket]) (fun p hp => ?_) rfl fun j id hcl =>
    hcl.of_setClient hc rfl (fun hhas => ⟨c, hc, Or.inl hhas⟩) fun _ hp => Cluster.mem_addPacket_reply hm hp
  rcases List.mem_append.mp hp with hp | hp
  · exact h.known p hp
  · rw [List.mem_singleton.mp hp]
    exact (List.getElem?_eq_some_iff.mp hc).1

/-- An error answer to a client makes it claim less. -/
theorem has_of_noServer {c : DaemonClientImpl} {id : UInt64} (h : (c.setClientStatus .noServer).Has id) : c.Has id := by
  simp only [DaemonClientImpl.Has, DaemonClientImpl.setClientStatus, reduceCtorEq, false_or] at h
  exact ⟨h.1, Or.inr h.2⟩

/-- Steps in which a client handles a reply. -/
theorem complete (h : IdsInv s) {k i : Nat} {c c' : DaemonClientImpl} (hc : s.clients[i]? = some c)
    (hhas : ∀ id, c'.Has id → s.Claims i id) : IdsInv ((s.removePacket k).setClient i c') :=
  h.of_claims (by simp [Cluster.setClient, Cluster.removePacket])
    (fun p hp => h.known p (Cluster.mem_removePacket hp)) rfl fun _ id hcl =>
    hcl.of_setClient hc rfl (hhas id) fun _ hp => Cluster.mem_removePacket hp

theorem start (h : IdsInv s) (c : DaemonClientImpl) (hc : ∀ id, ¬c.Has id) :
    IdsInv { s with clients := s.clients ++ [c] } := by
  refine h.of_claims (by simp) h.known rfl fun i id ⟨x, hx, hcl⟩ => ?_
  rcases Count.of_getElem?_snoc hx with hx | ⟨rfl, rfl⟩
  · exact ⟨x, hx, hcl⟩
  · rcases hcl with hcl | hcl
    · exact absurd hcl (hc id)
    -- a reply cannot be on its way to a client that has just started
    · exact absurd (h.known _ hcl) (Nat.lt_irrefl _)

theorem clientRegister (h : IdsInv s) {k i : Nat} {req : ClientRegisterRequest} {id : UInt64} {server : State}
    (hp : s.packets[k]? = some ⟨i, .clientRegister req⟩)
    (hfresh : ∀ j < s.clients.length, j ≠ i → ¬s.Claims j id) :
    IdsInv { s with
      server
      packets := s.packets.set k ⟨i, .clientRegisterReply ⟨.success, id⟩⟩
      creator := s.creator.set id i } where
  known p hmem := by
    rcases Count.mem_set hmem with rfl | hmem
    · exact h.known ⟨i, .clientRegister req⟩ (List.mem_of_getElem? hp)
    · exact h.known p hmem
  created j x := by
    rintro ⟨c, hc, hcl⟩
    show (s.creator.set id i).find? x = some j
    have hold : j = i ∧ x = id ∨ s.Claims j x := by
      rcases hcl with hcl | hcl
      · exact Or.inr ⟨c, hc, Or.inl hcl⟩
      · rcases Count.mem_set hcl with heq | hcl
        · simp only [Packet.mk.injEq, Message.clientRegisterReply.injEq, ClientRegisterReply.mk.injEq, true_and] at heq
          exact Or.inl heq
        · exact Or.inr ⟨c, hc, Or.inr hcl⟩
    rw [OrdMap.find?_set]
    rcases hold with ⟨rfl, rfl⟩ | hold
    · rw [if_pos rfl]
    · split
      next hid =>
        subst hid
        by_contra hne
        exact hfresh j (List.getElem?_eq_some_iff.mp hc).1 (fun hj => hne (hj ▸ rfl)) hold
      next => exact h.created j x hold

theorem heartBeat (h : IdsInv s) {k i : Nat} {req : HeartBeatRequest} {registration : Nat} (server : State)
    (reply : HeartBeatReply) (hp : s.packets[k]? = some ⟨i, .heartBeat req registration⟩) :
    IdsInv { s with server, packets := s.packets.set k ⟨i, .heartBeatReply req registration reply⟩ } := by
  refine h.of_claims (Nat.le_refl _) (fun p hmem => ?_) rfl fun j id ⟨c, hc, hcl⟩ => ⟨c, hc, hcl.imp_right fun hcl => ?_⟩
  · rcases Count.mem_set hmem with rfl | hmem
    · exact h.known ⟨i, .heartBeat req registration⟩ (List.mem_of_getElem? hp)
    · exact h.known p hmem
  · rcases Count.mem_set hcl with heq | hcl
    · simp at heq
    · exact hcl

theorem keep (h : IdsInv s) (hok : IdsFresh s e) (hs : Cluster.Steps s e t) : IdsInv t := by
  cases hs with
  | start => exact h.start _ fun id hhas => by simp [DaemonClientImpl.Has] at hhas
  | wake hc =>
    exact h.of_claims (by simp [Cluster.setClient]) h.known rfl fun _ _ hcl =>
      hcl.of_setClient hc rfl (fun hhas => ⟨_, hc, Or.inl hhas⟩) fun _ hp => hp
  | sendRegister hc | sendHeartBeat hc => exact h.send hc _ (by simp) none
  | clientRegister hp => exact h.clientRegister hp (hok _ hp trivial)
  | heartBeat hp => exact h.heartBeat _ _ hp
  | @registered k i c reply hp hc =>
    refine h.complete hc fun id hhas => ?_
    unfold DaemonClientImpl.onRegisterResponse at hhas
    split at hhas
    next herr =>
      obtain ⟨rfl, -⟩ := hhas
      exact ⟨c, hc, Or.inr (herr ▸ List.mem_of_getElem? hp)⟩
    next => exact ⟨c, hc, Or.inl (has_of_noServer hhas)⟩
  | @heartBeaten k i c req registration reply hp hc =>
    refine h.complete hc fun id hhas => ⟨c, hc, Or.inl ?_⟩
    unfold DaemonClientImpl.onHeartBeatResponse at hhas
    split at hhas
    next => exact has_of_noServer hhas
    next => exact hhas
  | fail =>
    exact h.of_claims (Nat.le_refl _) (fun p hp => h.known p (Cluster.mem_removePacket hp)) rfl
      fun _ _ ⟨c, hc, hcl⟩ => ⟨c, hc, hcl.imp_right Cluster.mem_removePacket⟩
  | setRegistered hc hset =>
    exact h.of_claims (by simp [Cluster.setClient]) h.known rfl fun _ _ hcl =>
      hcl.of_setClient hc rfl (fun hhas => ⟨_, hc, Or.inl ⟨hhas.1, Or.inr hset⟩⟩) fun _ hp => hp
  | server => exact h.of_claims (Nat.le_refl _) h.known rfl fun _ _ hcl => hcl

end IdsInv

theorem idsInv_of_reaches {s : Cluster} (h : ClusterReaches IdsFresh s) : IdsInv s :=
  h.induct ⟨by simp, by simp [Cluster.Claims]⟩ fun _ _ _ hi hok hs => hi.keep hok hs

/-- In every run whose registrations are given unclaimed ids no two clients share an id. -/
theorem ids_unshared {s : Cluster} (h : ClusterReaches IdsFresh s) : s.IdsUnshared := (idsInv_of_reaches h).unshared

/-- The client `i` registers, with the id 5 if it is the first. -/
def registerClient (i packet : Nat) : List ClusterEvent :=
  [.start "50053" producerName 601 0, .wake i, .send i, .deliver packet "ipv4:10.0.0.1:4000" 5 0, .complete packet,
    .setRegistered i]

theorem ids_unshared_two_clients : ∃ s, ClusterReaches IdsFresh s ∧
    s.clients.map (·.getServerId) = [some 5, some 6] ∧ s.IdsUnshared := by
  obtain ⟨s, hs, hids⟩ := ClusterReaches.of_events IdsFresh
    (fun s => s.clients.map (·.getServerId) = [some 5, some 6]) (registerClient 0 0 ++ registerClient 1 0)
    (by decide +kernel)
  exact ⟨s, hs, hids, ids_unshared hs⟩

/-- The second client is silent for more than ten seconds and is swept; before it hears of it a third one
    registers and is given the same id. -/
theorem ids_shared : ∃ s, ClusterReaches AnyClusterEvent s ∧
    s.clients.map (·.getServerId) = [some 5, some 6, some 6] ∧ ¬s.IdsUnshared := by
  obtain ⟨s, hs, hids⟩ := ClusterReaches.of_events AnyClusterEvent
    (fun s => s.clients.map (·.getServerId) = [some 5, some 6, some 6])
    (registerClient 0 0 ++ registerClient 1 0 ++ ([.wake 0, .send 0, .deliver 0 "" 0 20, .complete 0,
      .server (.checkProcAlive 20)] : List ClusterEvent) ++ registerClient 2 0)
    (by decide +kernel)
  refine ⟨s, hs, hids, fun hun => ?_⟩
  have hget : ∀ i : Nat, (s.clients.map (·.getServerId))[i]? = some (some 6) →
      ∃ c, s.clients[i]? = some c ∧ c.clientStatus = .registered ∧ c.serverId = 6 := by
    intro i hi
    rw [List.getElem?_map, Option.map_eq_some_iff] at hi
    obtain ⟨c, hc, hid⟩ := hi
    exact ⟨c, hc, DaemonClientImpl.getServerId_eq_some_iff.mp hid⟩
  obtain ⟨b, hb, hrb, hidb⟩ := hget 1 (by rw [hids]; rfl)
  obtain ⟨c, hc, hrc, hidc⟩ := hget 2 (by rw [hids]; rfl)
  exact absurd (hun.registered 1 2 b c hb hc hrb hrc (hidb.trans hidc.symm)) (by decide)

end PushSystem
