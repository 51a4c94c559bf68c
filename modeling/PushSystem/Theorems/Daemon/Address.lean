import PushSystem.Theorems.Daemon.Live

/-! The address of a registered server. `parseAndGetIp` splits the peer at its colons, and the host of an IPv6
    peer has colons of its own: the split then finds no host, and the registration stores an address without
    one. -/

namespace PushSystem

/-- A TCP peer as gRPC reports it. The host of an IPv6 peer contains a colon. -/
inductive TcpPeer where
  | ipv4 (host port : String) (hhost : host ≠ "" ∧ ':' ∉ host.toList) (hport : ':' ∉ port.toList)
  | ipv6 (host port : String) (hhost : ':' ∈ host.toList)

namespace TcpPeer

/-- `ctx_.peer()` -/
def peer : TcpPeer → String
  | ipv4 host port _ _ => "ipv4:" ++ host ++ ":" ++ port
  | ipv6 host port _ => "ipv6:[" ++ host ++ "]:" ++ port

def host : TcpPeer → String
  | ipv4 host _ _ _ => host
  | ipv6 host _ _ => host

def IsIpv4 : TcpPeer → Prop
  | ipv4 .. => True
  | ipv6 .. => False

theorem host_ne_empty (p : TcpPeer) : p.host ≠ "" := by
  cases p with
  | ipv4 host port hhost hport => exact hhost.1
  | ipv6 host port hhost =>
    rintro rfl
    exact absurd hhost (by decide)

end TcpPeer

/-! ### Splitting a peer -/

theorem length_splitOn_pos (cs : List Char) : 0 < (cs.splitOn ':').length :=
  List.length_pos_iff.mpr (List.splitOn_ne_nil _ _)

theorem parseAndGetIp_ipv4 {host port : String} (hhost : host ≠ "" ∧ ':' ∉ host.toList) (hport : ':' ∉ port.toList) :
    parseAndGetIp ("ipv4:" ++ host ++ ":" ++ port) = host := by
  have htext : ("ipv4:" ++ host ++ ":" ++ port).toList =
      ['i', 'p', 'v', '4'] ++ ':' :: (host.toList ++ ':' :: port.toList) := by
    simp [String.toList_append]
  have hparts : ("ipv4:" ++ host ++ ":" ++ port).toList.splitOn ':' =
      [['i', 'p', 'v', '4'], host.toList, port.toList] := by
    rw [htext, List.splitOn_append_cons_self_of_not_mem (by decide), List.splitOn_append_cons_self_of_not_mem hhost.2,
      List.splitOn_eq_singleton hport]
  have hne : host.toList.isEmpty = false := by
    rw [List.isEmpty_eq_false_iff]
    exact fun h => hhost.1 (String.toList_inj.mp h)
  rw [parseAndGetIp, hparts]
  simp [hne]

/-- An IPv6 peer has at least four parts. -/
theorem parseAndGetIp_ipv6 {host port : String} (hhost : ':' ∈ host.toList) :
    parseAndGetIp ("ipv6:[" ++ host ++ "]:" ++ port) = "" := by
  obtain ⟨before, after, hsplit⟩ := List.append_of_mem hhost
  have htext : ("ipv6:[" ++ host ++ "]:" ++ port).toList =
      ['i', 'p', 'v', '6'] ++ ':' :: (('[' :: before) ++ ':' :: ((after ++ [']']) ++ ':' :: port.toList)) := by
    simp [String.toList_append, hsplit]
  have hparts : 4 ≤ (("ipv6:[" ++ host ++ "]:" ++ port).toList.splitOn ':').length := by
    have h₁ := length_splitOn_pos ['i', 'p', 'v', '6']
    have h₂ := length_splitOn_pos ('[' :: before)
    have h₃ := length_splitOn_pos (after ++ [']'])
    have h₄ := length_splitOn_pos port.toList
    rw [htext, List.splitOn_append_cons_self, List.splitOn_append_cons_self, List.splitOn_append_cons_self,
      List.length_append, List.length_append, List.length_append]
    omega
  unfold parseAndGetIp
  split
  next heq =>
    rw [heq] at hparts
    exact absurd hparts (by simp)
  next => rfl

/-! ### What a registration stores -/

namespace Daemon

section Register
variable (d : Daemon) (req : ClientRegisterRequest) (peer : String) (draw : Fin (2 ^ 31)) (now : Int)

/-- An id that was not in the registry gets an entry with the peer's parsed host. -/
theorem address_clientRegister (hnew : d.newServerId draw ∉ d.gSvrId2SvrInfo) :
    ∃ info, (d.clientRegister req peer draw now).2.gSvrId2SvrInfo.find? (d.newServerId draw) = some info ∧
      info.address = parseAndGetIp peer ++ ":" ++ req.listeningPort := by
  rw [find?_clientRegister, OrdMap.find?_insertNew, if_pos ⟨rfl, hnew⟩]
  refine ⟨_, rfl, ?_⟩
  split <;> rfl

/-- A producer gets a channel to the same address. -/
theorem stubOf_clientRegister (hn : producerName = req.procName) :
    (d.clientRegister req peer draw now).2.stubOf (d.newServerId draw) =
      some ⟨d.stubs, parseAndGetIp peer ++ ":" ++ req.listeningPort⟩ := by
  rw [clientRegister_of_eq _ _ _ _ hn, stubOf, find?_rebalance_producers]
  · simp [addProducer]
  · exact (OrdMap.mem_set _ _ _ _).mpr (Or.inl rfl)

end Register

/-- The registration of `p` stores and opens its channel to the host of `p`, which is not empty, with the
    listening port. -/
def RegistersHost (d : Daemon) (req : ClientRegisterRequest) (p : TcpPeer) (draw : Fin (2 ^ 31)) (now : Int) : Prop :=
  p.host ≠ "" ∧
  (d.newServerId draw ∉ d.gSvrId2SvrInfo →
    ∃ info ∈ (d.clientRegister req p.peer draw now).2.gSvrId2SvrInfo.find? (d.newServerId draw),
      info.address = p.host ++ ":" ++ req.listeningPort) ∧
  (producerName = req.procName →
    ∃ stub ∈ (d.clientRegister req p.peer draw now).2.stubOf (d.newServerId draw),
      stub.address = p.host ++ ":" ++ req.listeningPort)

/-- A registration stores the peer's host exactly when the peer is an IPv4 one, or it stores nothing: its id is
    in use and it opens no channel. -/
theorem registersHost_iff (d : Daemon) (req : ClientRegisterRequest) (p : TcpPeer) (draw : Fin (2 ^ 31)) (now : Int) :
    d.RegistersHost req p draw now ↔
      p.IsIpv4 ∨ d.newServerId draw ∈ d.gSvrId2SvrInfo ∧ producerName ≠ req.procName := by
  have hstored := d.address_clientRegister req p.peer draw now
  have hopened := d.stubOf_clientRegister req p.peer draw now
  unfold RegistersHost
  cases p with
  | ipv4 host port hhost hport =>
    rw [TcpPeer.peer, parseAndGetIp_ipv4 hhost hport] at hstored hopened
    refine ⟨fun _ => Or.inl trivial, fun _ => ⟨hhost.1, fun hnew => ?_, fun hn => ?_⟩⟩
    · obtain ⟨info, hinfo, haddr⟩ := hstored hnew
      exact ⟨info, hinfo, haddr⟩
    · exact ⟨_, hopened hn, rfl⟩
  | ipv6 host port hhost =>
    rw [TcpPeer.peer, parseAndGetIp_ipv6 hhost] at hstored hopened
    -- The address starts with the colon, so no host of a peer is in it.
    have hno : "" ++ ":" ++ req.listeningPort ≠ host ++ ":" ++ req.listeningPort := by
      intro h
      have hlen : host.length = 0 := by simpa [String.length_append] using congrArg String.length h
      exact absurd hhost (by simp [String.length_eq_zero_iff.mp hlen])
    constructor
    · rintro ⟨-, hinfo, hstub⟩
      refine Or.inr ⟨?_, fun hn => ?_⟩
      · by_contra hnew
        obtain ⟨info, hmem, haddr⟩ := hinfo hnew
        obtain ⟨info', hinfo', haddr'⟩ := hstored hnew
        obtain rfl := Option.some.inj (hinfo'.symm.trans hmem)
        exact hno (haddr'.symm.trans haddr)
      · obtain ⟨stub, hmem, haddr⟩ := hstub hn
        obtain rfl := Option.some.inj ((hopened hn).symm.trans hmem)
        exact hno haddr
    · rintro (hv4 | ⟨hused, hn⟩)
      · exact hv4.elim
      · exact ⟨(TcpPeer.ipv6 host port hhost).host_ne_empty, fun hnew => absurd hused hnew, fun h => absurd h hn⟩

end Daemon

/-- The loopback of IPv6. -/
def loopback6 : TcpPeer := .ipv6 "::1" "50000" (by decide)

/-- A producer at `[::1]` is registered under an address without a host. -/
theorem loopback6_not_registered : ¬∀ (d : Daemon) (req : ClientRegisterRequest) (p : TcpPeer) (draw : Fin (2 ^ 31))
    (now : Int), d.RegistersHost req p draw now := by
  intro hall
  obtain ⟨-, -, hstub⟩ := hall {} ⟨"50053", producerName, 601⟩ loopback6 5 0
  obtain ⟨stub, hmem, haddr⟩ := hstub rfl
  have hlost : (((({} : Daemon).clientRegister ⟨"50053", producerName, 601⟩ loopback6.peer 5 0).2.stubOf
      (Daemon.newServerId {} 5)).map (·.address)) = some ":50053" := by decide +kernel
  rw [Option.mem_def.mp hmem, Option.map_some, haddr] at hlost
  exact absurd hlost (by decide)

end PushSystem
