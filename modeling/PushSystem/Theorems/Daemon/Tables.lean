import PushSystem.Daemon.Tables

/-! How the daemon's four tables stay together. `Aligned` relates the registry, the producers and the idle
    set; `Consistent` adds the ranking. `Rebalance` inserts a producer for every known server that has none,
    so the tables stay aligned as long as it runs while all known servers are producers. -/

namespace PushSystem.Daemon

/-- Every known server is a producer. -/
def OnlyProducers (d : Daemon) : Prop := ∀ x ∈ d.gSvrId2SvrInfo.entries, x.2.procName = producerName

instance (d : Daemon) : Decidable d.OnlyProducers :=
  inferInstanceAs (Decidable (∀ x ∈ d.gSvrId2SvrInfo.entries, x.2.procName = producerName))

theorem onlyProducers_iff {d : Daemon} :
    d.OnlyProducers ↔ ∀ id info, d.gSvrId2SvrInfo.find? id = some info → info.procName = producerName := by
  simp only [OnlyProducers, OrdMap.find?_eq_some_iff, Prod.forall]

/-! ### Rebalance -/

section Rebalance
variable {l : List (UInt64 × ServerInfo)} {rank : ℚ} {d : Daemon}

/-- The tables that `Rebalance` leaves alone. -/
theorem rebalanceLoop_frame (l : List (UInt64 × ServerInfo)) (rank : ℚ) (d : Daemon) :
    (rebalanceLoop l rank d).gSvrId2SvrInfo = d.gSvrId2SvrInfo ∧
    (rebalanceLoop l rank d).gSetIdleProducer = d.gSetIdleProducer ∧
    (rebalanceLoop l rank d).sendingCount = d.sendingCount ∧ (rebalanceLoop l rank d).stubs = d.stubs := by
  induction l generalizing rank d with
  | nil => exact ⟨rfl, rfl, rfl, rfl⟩
  | cons x l ih => exact ih _ _

@[simp] theorem rebalance_infos : d.rebalance.gSvrId2SvrInfo = d.gSvrId2SvrInfo := (rebalanceLoop_frame _ _ _).1
@[simp] theorem rebalance_idle : d.rebalance.gSetIdleProducer = d.gSetIdleProducer := (rebalanceLoop_frame _ _ _).2.1
@[simp] theorem rebalance_sendingCount : d.rebalance.sendingCount = d.sendingCount :=
  (rebalanceLoop_frame _ _ _).2.2.1
@[simp] theorem rebalance_stubs : d.rebalance.stubs = d.stubs := (rebalanceLoop_frame _ _ _).2.2.2

theorem rebalanceLoop_producers (h : ∀ x ∈ l, x.1 ∈ d.gSvrId2ProducerState) :
    (rebalanceLoop l rank d).gSvrId2ProducerState = d.gSvrId2ProducerState := by
  induction l generalizing rank d with
  | nil => rfl
  | cons x l ih =>
    have hx := OrdMap.insertNew_of_mem (v := ({} : ProducerState)) (h x List.mem_cons_self)
    unfold rebalanceLoop
    rw [ih, hx]
    rw [hx]
    exact fun y hy => h y (List.mem_cons_of_mem _ hy)

theorem find?_rebalanceLoop_producers {id : UInt64} (h : id ∈ d.gSvrId2ProducerState) :
    (rebalanceLoop l rank d).gSvrId2ProducerState.find? id = d.gSvrId2ProducerState.find? id := by
  induction l generalizing rank d with
  | nil => rfl
  | cons x l ih =>
    rw [rebalanceLoop, ih ((OrdMap.mem_insertNew _ _ _ _).mpr (Or.inr h)), OrdMap.find?_insertNew, if_neg]
    rintro ⟨rfl, hno⟩
    exact hno h

/-- `Rebalance` leaves the producers there are. -/
theorem find?_rebalance_producers {id : UInt64} (h : id ∈ d.gSvrId2ProducerState) :
    d.rebalance.gSvrId2ProducerState.find? id = d.gSvrId2ProducerState.find? id :=
  find?_rebalanceLoop_producers h

/-- No producer is inserted when every known server is one already. -/
theorem rebalance_producers (h : ∀ id ∈ d.gSvrId2SvrInfo, id ∈ d.gSvrId2ProducerState) :
    d.rebalance.gSvrId2ProducerState = d.gSvrId2ProducerState :=
  rebalanceLoop_producers fun _ hx => h _ (OrdMap.mem_of_entry hx)

theorem mem_producers_rebalanceLoop {id : UInt64} :
    id ∈ (rebalanceLoop l rank d).gSvrId2ProducerState ↔ id ∈ d.gSvrId2ProducerState ∨ ∃ info, (id, info) ∈ l := by
  induction l generalizing rank d with
  | nil => simp [rebalanceLoop]
  | cons x l ih =>
    rw [rebalanceLoop, ih, OrdMap.mem_insertNew]
    constructor
    · rintro ((rfl | hid) | ⟨info, hinfo⟩)
      · exact Or.inr ⟨x.2, List.mem_cons_self⟩
      · exact Or.inl hid
      · exact Or.inr ⟨info, List.mem_cons_of_mem _ hinfo⟩
    · rintro (hid | ⟨info, hinfo⟩)
      · exact Or.inl (Or.inr hid)
      · rcases List.mem_cons.mp hinfo with rfl | hinfo
        · exact Or.inl (Or.inl rfl)
        · exact Or.inr ⟨info, hinfo⟩

/-- The producers after `Rebalance`: those before it and all known servers. -/
theorem mem_producers_rebalance {id : UInt64} :
    id ∈ d.rebalance.gSvrId2ProducerState ↔ id ∈ d.gSvrId2ProducerState ∨ id ∈ d.gSvrId2SvrInfo := by
  rw [OrdMap.mem_iff_entry (m := d.gSvrId2SvrInfo)]
  exact mem_producers_rebalanceLoop

theorem mem_rank_rebalanceLoop {y : ℚ × UInt64} (h : y ∈ (rebalanceLoop l rank d).gRank2SvrId.entries) :
    y ∈ d.gRank2SvrId.entries ∨ ∃ x ∈ l, x.1 = y.2 := by
  induction l generalizing rank d with
  | nil => exact Or.inl h
  | cons x l ih =>
    rcases ih h with h | ⟨z, hz, hy⟩
    · rw [← OrdMap.find?_eq_some_iff, OrdMap.find?_set] at h
      split at h
      next => exact Or.inr ⟨x, List.mem_cons_self, Option.some.inj h⟩
      next => exact Or.inl (OrdMap.find?_eq_some_iff.mp h)
    · exact Or.inr ⟨z, List.mem_cons_of_mem _ hz, hy⟩

/-- The ranking names known servers only. -/
theorem mem_rank_rebalance {y : ℚ × UInt64} (h : y ∈ d.rebalance.gRank2SvrId.entries) : y.2 ∈ d.gSvrId2SvrInfo := by
  rcases mem_rank_rebalanceLoop h with h | ⟨x, hx, hy⟩
  · cases h
  · exact hy ▸ OrdMap.mem_of_entry hx

theorem rank_mem_rebalanceLoop {k : ℚ} (h : k ∈ d.gRank2SvrId) : k ∈ (rebalanceLoop l rank d).gRank2SvrId := by
  induction l generalizing rank d with
  | nil => exact h
  | cons x l ih => exact ih ((OrdMap.mem_set _ _ _ _).mpr (Or.inr h))

theorem last?_rebalance {id : UInt64} (h : id ∈ d.gSvrId2SvrInfo) : d.rebalance.gRank2SvrId.last? ≠ none := by
  obtain ⟨info, hinfo⟩ := OrdMap.mem_iff_entry.mp h
  rw [Ne, OrdMap.last?_eq_none_iff]
  intro hnone
  cases hl : d.gSvrId2SvrInfo.entries with
  | nil => simp [hl] at hinfo
  | cons x l =>
    refine hnone (0 + x.2.score) ?_
    rw [rebalance, hl]
    show _ ∈ (rebalanceLoop l (0 + x.2.score) _).gRank2SvrId
    exact rank_mem_rebalanceLoop ((OrdMap.mem_set (∅ : OrdMap ℚ UInt64) _ _ _).mpr (Or.inl rfl))

end Rebalance

/-! ### Aligned and consistent tables -/

/-- The registry, the producers and the idle set agree, and each producer has the stub of its
    registration. -/
structure Aligned (d : Daemon) (registered : OrdMap UInt64 Stub) : Prop where
  keys : ∀ id, id ∈ d.gSvrId2ProducerState ↔
    ∃ info, d.gSvrId2SvrInfo.find? id = some info ∧ info.procName = producerName
  stubs : ∀ id p, d.gSvrId2ProducerState.find? id = some p →
    ∃ stub, p.producerCaller = some stub ∧ registered.find? id = some stub
  idle : ∀ id ∈ d.gSetIdleProducer, id ∈ d.gSvrId2ProducerState

/-- The ranking names producers, and some producer if there is one. -/
structure Consistent (d : Daemon) (registered : OrdMap UInt64 Stub) : Prop extends Aligned d registered where
  rank : ∀ x ∈ d.gRank2SvrId.entries, x.2 ∈ d.gSvrId2ProducerState
  filled : ∀ id ∈ d.gSvrId2ProducerState, d.gRank2SvrId.last? ≠ none

section Keep
variable {d d' : Daemon} {reg : OrdMap UInt64 Stub}

theorem Aligned.rebalance_producers (h : Aligned d reg) (ho : OnlyProducers d) :
    d.rebalance.gSvrId2ProducerState = d.gSvrId2ProducerState := by
  refine Daemon.rebalance_producers fun id hid => ?_
  obtain ⟨info, hinfo⟩ := OrdMap.mem_iff.mp hid
  exact (h.keys id).mpr ⟨info, hinfo, onlyProducers_iff.mp ho id info hinfo⟩

theorem Aligned.rebalance (h : Aligned d reg) (ho : OnlyProducers d) : Consistent d.rebalance reg := by
  have hp := h.rebalance_producers ho
  refine ⟨⟨?_, ?_, ?_⟩, ?_, ?_⟩
  · rw [hp, rebalance_infos]
    exact h.keys
  · rw [hp]
    exact h.stubs
  · rw [hp, rebalance_idle]
    exact h.idle
  · intro x hx
    obtain ⟨info, hinfo⟩ := OrdMap.mem_iff.mp (mem_rank_rebalance hx)
    rw [hp]
    exact (h.keys x.2).mpr ⟨info, hinfo, onlyProducers_iff.mp ho _ info hinfo⟩
  · rw [hp]
    intro id hid
    obtain ⟨info, hinfo, -⟩ := (h.keys id).mp hid
    exact last?_rebalance (OrdMap.mem_iff.mpr ⟨info, hinfo⟩)

/-- Changing the other fields of the registry's entries keeps the tables consistent. -/
theorem Consistent.of_infos (h : Consistent d reg) {infos : OrdMap UInt64 ServerInfo}
    (hn : ∀ id, (infos.find? id).map (·.procName) = (d.gSvrId2SvrInfo.find? id).map (·.procName)) :
    Consistent { d with gSvrId2SvrInfo := infos } reg := by
  refine ⟨⟨fun id => ?_, h.stubs, h.idle⟩, h.rank, h.filled⟩
  have hiff : ∀ m : OrdMap UInt64 ServerInfo,
      (∃ info, m.find? id = some info ∧ info.procName = producerName) ↔
        (m.find? id).map (·.procName) = some producerName := by
    intro m
    simp [Option.map_eq_some_iff]
  rw [h.keys id, hiff, hiff, hn]

theorem map_procName_set {m : OrdMap UInt64 ServerInfo} {k id : UInt64} {info info' : ServerInfo}
    (hk : m.find? k = some info) (hn : info'.procName = info.procName) :
    ((m.set k info').find? id).map (·.procName) = (m.find? id).map (·.procName) := by
  rw [OrdMap.find?_set]
  split
  next h => simp [← h, hk, hn]
  next => rfl

theorem Consistent.heartBeat (h : Consistent d reg) (req : HeartBeatRequest) (now : Int) :
    Consistent (d.heartBeat req now).2 reg := by
  unfold Daemon.heartBeat
  cases hf : d.gSvrId2SvrInfo.find? req.serverId with
  | none => exact h
  | some info => exact h.of_infos fun id => map_procName_set hf rfl

theorem Consistent.loadBalance (h : Consistent d reg) (req : LoadBalanceRequest) (score : ℚ) :
    Consistent (d.loadBalance req score).2 reg := by
  unfold Daemon.loadBalance
  cases hf : d.gSvrId2SvrInfo.find? req.serverId with
  | none => exact h
  | some info => exact h.of_infos fun id => map_procName_set hf rfl

/-! ### Registration -/

theorem clientRegister_of_ne {req : ClientRegisterRequest} {peer : String} {draw : Fin (2 ^ 31)} {now : Int}
    (hn : producerName ≠ req.procName) :
    (d.clientRegister req peer draw now).2 =
      { d with
        gSvrId2SvrInfo := d.gSvrId2SvrInfo.insertNew (d.newServerId draw)
          (.make (parseAndGetIp peer ++ ":" ++ req.listeningPort) req.procName req.groupId now) } := by
  simp [Daemon.clientRegister, hn]

theorem clientRegister_of_eq (d : Daemon) {req : ClientRegisterRequest} (peer : String) (draw : Fin (2 ^ 31))
    (now : Int) (hn : producerName = req.procName) :
    (d.clientRegister req peer draw now).2 =
      (addProducer
        { d with
          gSvrId2SvrInfo := d.gSvrId2SvrInfo.insertNew (d.newServerId draw)
            (.make (parseAndGetIp peer ++ ":" ++ req.listeningPort) req.procName req.groupId now) }
        (d.newServerId draw) (parseAndGetIp peer ++ ":" ++ req.listeningPort)).rebalance := by
  simp [Daemon.clientRegister, ← hn]

/-- A server that is no producer is only added to the registry. -/
theorem Consistent.registerOther (h : Consistent d reg) {id : UInt64} {info : ServerInfo}
    (hn : info.procName ≠ producerName) :
    Consistent { d with gSvrId2SvrInfo := d.gSvrId2SvrInfo.insertNew id info } reg := by
  refine ⟨⟨fun k => ?_, h.stubs, h.idle⟩, h.rank, h.filled⟩
  rw [h.keys k]
  simp only [OrdMap.find?_insertNew]
  split
  next hk =>
    obtain ⟨rfl, hk⟩ := hk
    rw [OrdMap.not_mem_iff] at hk
    simp [hk, hn]
  next => rfl

section AddProducer
variable (id : UInt64) {info : ServerInfo} (addr : String)

theorem find?_addProducer_infos (k : UInt64) (d : Daemon) :
    (d.addProducer id addr).gSvrId2SvrInfo.find? k =
      if id = k then (d.gSvrId2SvrInfo.find? k).map fun x => { x with score := calLoadBalanceScore 0 }
      else d.gSvrId2SvrInfo.find? k := by
  unfold addProducer
  cases hx : d.gSvrId2SvrInfo.find? id with
  | none =>
    by_cases h : id = k
    · simp [← h, hx]
    · simp [h]
  | some x =>
    simp only [OrdMap.find?_set]
    by_cases h : id = k
    · simp [← h, hx]
    · simp [h]

end AddProducer

section Register
variable (d : Daemon) (req : ClientRegisterRequest) (peer : String) (draw : Fin (2 ^ 31)) (now : Int)

/-- A registration enters the server under its id, unless there is an entry, and writes the score of a producer. -/
theorem find?_clientRegister (id : UInt64) :
    (d.clientRegister req peer draw now).2.gSvrId2SvrInfo.find? id =
      ((d.gSvrId2SvrInfo.insertNew (d.newServerId draw)
        (.make (parseAndGetIp peer ++ ":" ++ req.listeningPort) req.procName req.groupId now)).find? id).map fun info =>
          if producerName = req.procName ∧ d.newServerId draw = id then { info with score := calLoadBalanceScore 0 }
          else info := by
  by_cases hn : producerName = req.procName
  · rw [clientRegister_of_eq _ _ _ _ hn, rebalance_infos, find?_addProducer_infos]
    by_cases hid : d.newServerId draw = id <;> simp [hn, hid]
  · rw [clientRegister_of_ne hn]
    simp [hn]

theorem mem_infos_clientRegister {id : UInt64} :
    id ∈ (d.clientRegister req peer draw now).2.gSvrId2SvrInfo ↔ id = d.newServerId draw ∨ id ∈ d.gSvrId2SvrInfo := by
  rw [OrdMap.mem_iff, find?_clientRegister, ← OrdMap.mem_insertNew _ _ _
    (.make (parseAndGetIp peer ++ ":" ++ req.listeningPort) req.procName req.groupId now), OrdMap.mem_iff]
  simp

end Register

section AddProducer
variable (id : UInt64) {info : ServerInfo} (addr : String)

theorem OnlyProducers.addProducer (ho : OnlyProducers d) (hn : info.procName = producerName) :
    OnlyProducers (Daemon.addProducer { d with gSvrId2SvrInfo := d.gSvrId2SvrInfo.insertNew id info } id addr) := by
  rw [onlyProducers_iff] at ho ⊢
  intro k y hy
  have hinsert : ∀ x, (d.gSvrId2SvrInfo.insertNew id info).find? k = some x → x.procName = producerName := by
    intro x hx
    rw [OrdMap.find?_insertNew] at hx
    split at hx
    next => exact Option.some.inj hx ▸ hn
    next => exact ho k x hx
  rw [find?_addProducer_infos] at hy
  split at hy
  next =>
    obtain ⟨x, hx, rfl⟩ := Option.map_eq_some_iff.mp hy
    exact hinsert x hx
  next => exact hinsert y hy

/-- A producer is added to the registry, the producers and the idle set. -/
theorem Aligned.addProducer (h : Aligned d reg) (ho : OnlyProducers d) (hn : info.procName = producerName) :
    Aligned (Daemon.addProducer { d with gSvrId2SvrInfo := d.gSvrId2SvrInfo.insertNew id info } id addr)
      (reg.set id ⟨d.stubs, addr⟩) := by
  have honly := onlyProducers_iff.mp (ho.addProducer id addr hn)
  have hmem : ∀ k, k ∈ (Daemon.addProducer { d with gSvrId2SvrInfo := d.gSvrId2SvrInfo.insertNew id info } id
      addr).gSvrId2SvrInfo ↔ k = id ∨ k ∈ d.gSvrId2SvrInfo := by
    intro k
    rw [← OrdMap.mem_insertNew (v := info), OrdMap.mem_iff, OrdMap.mem_iff, find?_addProducer_infos]
    split <;> simp
  refine ⟨fun k => ?_, fun k p hp => ?_, fun k hk => ?_⟩
  · show k ∈ d.gSvrId2ProducerState.set id _ ↔ _
    rw [OrdMap.mem_set, h.keys k]
    constructor
    · intro hk
      obtain ⟨y, hy⟩ := OrdMap.mem_iff.mp
        ((hmem k).mpr (hk.imp_right fun ⟨y, hy, _⟩ => OrdMap.mem_iff.mpr ⟨y, hy⟩))
      exact ⟨y, hy, honly k y hy⟩
    · rintro ⟨y, hy, -⟩
      refine ((hmem k).mp (OrdMap.mem_iff.mpr ⟨y, hy⟩)).imp_right fun hk => ?_
      obtain ⟨z, hz⟩ := OrdMap.mem_iff.mp hk
      exact ⟨z, hz, onlyProducers_iff.mp ho k z hz⟩
  · rcases OrdMap.find?_set_eq_some_iff.mp hp with ⟨rfl, rfl⟩ | ⟨hk, hp⟩
    · exact ⟨_, rfl, OrdMap.find?_set_self _ _ _⟩
    · rw [OrdMap.find?_set, if_neg (Ne.symm hk)]
      exact h.stubs k p hp
  · have hk' : k ∈ d.gSetIdleProducer.set id () := hk
    show k ∈ d.gSvrId2ProducerState.set id _
    rw [OrdMap.mem_set] at hk' ⊢
    exact hk'.imp_right (h.idle k)

end AddProducer

/-! ### Calls -/

/-- Updating an entry that keeps its stub. -/
theorem Consistent.setProducer (h : Consistent d reg) {id : UInt64} {p : ProducerState} (p' : ProducerState)
    (idle : OrdSet UInt64) (n : UInt32) (hp : d.gSvrId2ProducerState.find? id = some p)
    (hs : p'.producerCaller = p.producerCaller) (hi : ∀ k ∈ idle, k = id ∨ k ∈ d.gSetIdleProducer) :
    Consistent
      { d with
        sendingCount := n
        gSvrId2ProducerState := d.gSvrId2ProducerState.set id p'
        gSetIdleProducer := idle } reg := by
  have hmem : ∀ k, k ∈ d.gSvrId2ProducerState.set id p' ↔ k ∈ d.gSvrId2ProducerState := by
    intro k
    rw [OrdMap.mem_set]
    exact ⟨fun hk => hk.elim (fun hk => hk ▸ OrdMap.mem_iff.mpr ⟨p, hp⟩) fun hk => hk, Or.inr⟩
  refine ⟨⟨fun k => (hmem k).trans (h.keys k), fun k q hq => ?_, fun k hk => (hmem k).mpr ?_⟩,
    fun x hx => (hmem _).mpr (h.rank x hx), fun k hk => h.filled k ((hmem k).mp hk)⟩
  · rcases OrdMap.find?_set_eq_some_iff.mp hq with ⟨rfl, rfl⟩ | ⟨-, hq⟩
    · rw [hs]
      exact h.stubs k p hp
    · exact h.stubs k q hq
  · rcases hi k hk with rfl | hk
    · exact OrdMap.mem_iff.mpr ⟨p, hp⟩
    · exact h.idle k hk

theorem Consistent.setSendingCount (h : Consistent d reg) (n : UInt32) : Consistent { d with sendingCount := n } reg :=
  ⟨⟨h.keys, h.stubs, h.idle⟩, h.rank, h.filled⟩

theorem Consistent.countSend (h : Consistent d reg) {id : UInt64} (hid : id ∈ d.gSvrId2ProducerState) :
    Consistent (d.countSend id) reg := by
  obtain ⟨p, hp⟩ := OrdMap.mem_iff.mp hid
  unfold Daemon.countSend
  simp only [hp, Option.getD_some]
  exact h.setProducer _ _ _ hp rfl fun k hk => Or.inr hk

theorem Consistent.sendIdle (h : Consistent d reg) {id : UInt64} (hid : id ∈ d.gSvrId2ProducerState) :
    Consistent (d.sendIdle id) reg := by
  have he : Consistent { d with gSetIdleProducer := d.gSetIdleProducer.erase id } reg :=
    ⟨⟨h.keys, h.stubs, fun k hk => h.idle k ((OrdMap.mem_erase _ _ _).mp hk).2⟩, h.rank, h.filled⟩
  exact he.countSend hid

theorem decreaseProducerTask_of_none {id : UInt64} (hp : d.gSvrId2ProducerState.find? id = none) :
    d.decreaseProducerTask id = { d with sendingCount := d.sendingCount - 1 } := by
  simp [Daemon.decreaseProducerTask, hp]

theorem decreaseProducerTask_of_some {id : UInt64} {p : ProducerState}
    (hp : d.gSvrId2ProducerState.find? id = some p) :
    d.decreaseProducerTask id =
      { d with
        sendingCount := d.sendingCount - 1
        gSvrId2ProducerState := d.gSvrId2ProducerState.set id { p with curTaskCount := p.curTaskCount - 1 }
        gSetIdleProducer :=
          if 0 ≥ p.curTaskCount - 1 then d.gSetIdleProducer.set id () else d.gSetIdleProducer } := by
  simp [Daemon.decreaseProducerTask, hp]

theorem Consistent.decreaseProducerTask (h : Consistent d reg) (id : UInt64) :
    Consistent (d.decreaseProducerTask id) reg := by
  cases hp : d.gSvrId2ProducerState.find? id with
  | none =>
    rw [decreaseProducerTask_of_none hp]
    exact h.setSendingCount _
  | some p =>
    rw [decreaseProducerTask_of_some hp]
    refine h.setProducer _ _ _ hp rfl fun k hk => ?_
    split at hk
    next => exact (OrdMap.mem_set _ _ _ _).mp hk
    next => exact Or.inr hk

/-! ### Removal -/

/-- Taking a producer out of the registry, the producers and the idle set. -/
theorem Aligned.eraseProducer (h : Aligned d reg) (id : UInt64) :
    Aligned
      { d with
        gSvrId2SvrInfo := d.gSvrId2SvrInfo.erase id
        gSvrId2ProducerState := d.gSvrId2ProducerState.erase id
        gSetIdleProducer := d.gSetIdleProducer.erase id } reg := by
  refine ⟨fun k => ?_, fun k p hp => ?_, fun k hk => ?_⟩
  · rw [OrdMap.mem_erase, h.keys k]
    simp only [OrdMap.find?_erase]
    by_cases hk : id = k
    · simp [hk]
    · simp [hk, Ne.symm hk]
  · simp only [OrdMap.find?_erase] at hp
    split at hp
    next => cases hp
    next => exact h.stubs k p hp
  · rw [OrdMap.mem_erase] at hk ⊢
    exact ⟨hk.1, h.idle k hk.2⟩

theorem OnlyProducers.erase (ho : OnlyProducers d) (id : UInt64) :
    ∀ k info, (d.gSvrId2SvrInfo.erase id).find? k = some info → info.procName = producerName := by
  intro k info hk
  rw [OrdMap.find?_erase] at hk
  split at hk
  next => cases hk
  next => exact onlyProducers_iff.mp ho k info hk

theorem Consistent.countFailure (h : Consistent d reg) (id : UInt64)
    (ho : ∀ p, d.gSvrId2ProducerState.find? id = some p → p.failCount + 1 > failCountLimit → OnlyProducers d) :
    Consistent (d.countFailure id) reg := by
  unfold Daemon.countFailure
  cases hp : d.gSvrId2ProducerState.find? id with
  | none => exact h
  | some p =>
    simp only
    split
    next hf => exact (h.eraseProducer id).rebalance (onlyProducers_iff.mpr ((ho p hp hf).erase id))
    next => exact h.setProducer _ _ _ hp rfl fun k hk => Or.inr hk

theorem Consistent.removeProducer (h : Consistent d reg) {id : UInt64}
    (ho : ∀ k info, k ≠ id → d.gSvrId2SvrInfo.find? k = some info → info.procName = producerName) :
    Consistent (d.removeServer id producerName) reg := by
  unfold Daemon.removeServer
  rw [if_pos rfl]
  refine (h.eraseProducer id).rebalance (onlyProducers_iff.mpr fun k info hk => ?_)
  simp only [OrdMap.find?_erase] at hk
  split at hk
  next => cases hk
  next hne => exact ho k info (Ne.symm hne) hk

theorem Consistent.removeOther (h : Consistent d reg) {id : UInt64} {info : ServerInfo} {procName : String}
    (hid : d.gSvrId2SvrInfo.find? id = some info) (hn : info.procName ≠ producerName) (hp : procName ≠ producerName) :
    Consistent (d.removeServer id procName) reg := by
  unfold Daemon.removeServer
  rw [if_neg (Ne.symm hp)]
  refine ⟨⟨fun k => ?_, h.stubs, h.idle⟩, h.rank, h.filled⟩
  rw [h.keys k]
  simp only [OrdMap.find?_erase]
  split
  next hk =>
    subst hk
    simp [hid, hn]
  next => rfl

theorem Consistent.resetFailCounts (h : Consistent d reg) : Consistent d.resetFailCounts reg := by
  have hmem : ∀ k, k ∈ d.resetFailCounts.gSvrId2ProducerState ↔ k ∈ d.gSvrId2ProducerState := fun k =>
    OrdMap.mem_mapValues _ _ _
  refine ⟨⟨fun k => (hmem k).trans (h.keys k), fun k p hp => ?_, fun k hk => (hmem k).mpr (h.idle k hk)⟩,
    fun x hx => (hmem _).mpr (h.rank x hx), fun k hk => h.filled k ((hmem k).mp hk)⟩
  obtain ⟨q, hq, rfl⟩ := Option.map_eq_some_iff.mp ((OrdMap.find?_mapValues _ _ _).symm.trans hp)
  exact h.stubs k q hq

/-! ### The sweep -/

/-- A sweep at `now` finds no server of another kind when it removes a producer, other than expired ones
    it has passed. -/
def SweepsProducers (d : Daemon) (now : Int) : Prop :=
  ∀ x ∈ d.gSvrId2SvrInfo.entries, expired now x.2 = true → x.2.procName = producerName →
    ∀ y ∈ d.gSvrId2SvrInfo.entries, y.2.procName ≠ producerName → expired now y.2 = true ∧ y.1 < x.1

instance (d : Daemon) (now : Int) : Decidable (d.SweepsProducers now) :=
  inferInstanceAs (Decidable (∀ x ∈ d.gSvrId2SvrInfo.entries, expired now x.2 = true → x.2.procName = producerName →
    ∀ y ∈ d.gSvrId2SvrInfo.entries, y.2.procName ≠ producerName → expired now y.2 = true ∧ y.1 < x.1))

theorem removeServer_infos (d : Daemon) (id : UInt64) (procName : String) :
    (d.removeServer id procName).gSvrId2SvrInfo = d.gSvrId2SvrInfo.erase id := by
  unfold Daemon.removeServer
  split <;> simp

/-- The loop keeps the tables consistent: the expired servers that are left in the registry are still to
    be visited. -/
theorem Consistent.sweepLoop {now : Int} {l : List (UInt64 × ServerInfo)} (h : Consistent d reg)
    (hsorted : l.Pairwise fun x y => x.1 < y.1) (hl : ∀ x ∈ l, d.gSvrId2SvrInfo.find? x.1 = some x.2)
    (hleft : ∀ id info, d.gSvrId2SvrInfo.find? id = some info → expired now info = true → (id, info) ∈ l)
    (hok : ∀ x ∈ l, expired now x.2 = true → x.2.procName = producerName →
      ∀ id info, d.gSvrId2SvrInfo.find? id = some info → info.procName ≠ producerName →
        expired now info = true ∧ id < x.1) :
    Consistent (Daemon.sweepLoop now l d) reg := by
  induction l generalizing d with
  | nil => exact h
  | cons x l ih =>
    obtain ⟨id, info⟩ := x
    have hlt : ∀ y ∈ l, id < y.1 := fun y hy => List.rel_of_pairwise_cons hsorted hy
    have hid := hl _ List.mem_cons_self
    unfold Daemon.sweepLoop
    by_cases hexp : expired now info = true
    · rw [if_pos hexp]
      have hinfos : ∀ k, (d.removeServer id info.procName).gSvrId2SvrInfo.find? k =
          if id = k then none else d.gSvrId2SvrInfo.find? k := fun k => by
        rw [removeServer_infos, OrdMap.find?_erase]
      have hrem : Consistent (d.removeServer id info.procName) reg := by
        by_cases hn : info.procName = producerName
        · rw [hn]
          refine h.removeProducer fun k y hk hy => ?_
          -- A server of another kind would be an expired one that was visited before.
          by_contra hne
          obtain ⟨hexp', hlt'⟩ := hok _ List.mem_cons_self hexp hn k y hy hne
          rcases List.mem_cons.mp (hleft k y hy hexp') with heq | hmem
          · exact hk (congrArg Prod.fst heq)
          · exact absurd (hlt _ hmem) (not_lt.mpr hlt'.le)
        · exact h.removeOther hid hn hn
      refine ih hrem (List.Pairwise.of_cons hsorted) (fun y hy => ?_) (fun k y hk hy => ?_)
        fun y hy hey hny k z hz hnz => ?_
      · rw [hinfos, if_neg (hlt y hy).ne]
        exact hl y (List.mem_cons_of_mem _ hy)
      · rw [hinfos] at hk
        split at hk
        next => cases hk
        next hne =>
          rcases List.mem_cons.mp (hleft k y hk hy) with heq | hmem
          · exact absurd (congrArg Prod.fst heq).symm hne
          · exact hmem
      · rw [hinfos] at hz
        split at hz
        next => cases hz
        next => exact hok y (List.mem_cons_of_mem _ hy) hey hny k z hz hnz
    · rw [if_neg hexp]
      refine ih h (List.Pairwise.of_cons hsorted) (fun y hy => hl y (List.mem_cons_of_mem _ hy)) (fun k y hk hy => ?_)
        fun y hy => hok y (List.mem_cons_of_mem _ hy)
      rcases List.mem_cons.mp (hleft k y hk hy) with heq | hmem
      · obtain ⟨-, rfl⟩ := Prod.mk.inj heq
        exact absurd hy hexp
      · exact hmem

theorem Consistent.checkProcAlive (h : Consistent d reg) {now : Int} (hok : d.SweepsProducers now) :
    Consistent (d.checkProcAlive now) reg := by
  refine Consistent.resetFailCounts (h.sweepLoop d.gSvrId2SvrInfo.sorted ?_ ?_ ?_)
  · exact fun x hx => OrdMap.find?_eq_some_iff.mpr hx
  · exact fun id info hid _ => OrdMap.find?_eq_some_iff.mp hid
  · exact fun x hx he hn id info hid hni => hok x hx he hn _ (OrdMap.find?_eq_some_iff.mp hid) hni

end Keep

end PushSystem.Daemon
