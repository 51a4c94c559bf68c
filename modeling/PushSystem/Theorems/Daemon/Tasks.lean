import Mathlib.Data.UInt
import PushSystem.Theorems.Daemon.Live

/-! Task accounting. `curTaskCount` of a producer is the number of calls sent through its stub whose
    completion has not yet run `DecreaseProducerTask`, as long as no registration is given the id that
    such a call was sent to. -/

namespace PushSystem

/-! ### Steps that send and complete nothing -/

namespace Daemon

/-- `d'` has some of the servers of `d`, with the counts they had. -/
structure Thins (d d' : Daemon) : Prop where
  infos : ∀ id info', d'.gSvrId2SvrInfo.find? id = some info' →
    ∃ info, d.gSvrId2SvrInfo.find? id = some info ∧ info'.procName = info.procName
  producers : ∀ id p', d'.gSvrId2ProducerState.find? id = some p' →
    ∃ p, d.gSvrId2ProducerState.find? id = some p ∧ p'.producerCaller = p.producerCaller ∧
      p'.curTaskCount = p.curTaskCount
  idle : ∀ id ∈ d'.gSvrId2ProducerState, id ∈ d'.gSetIdleProducer ↔ id ∈ d.gSetIdleProducer
  stubs : d'.stubs = d.stubs

namespace Thins
variable {d d' d'' : Daemon} {reg : OrdMap UInt64 Stub}

theorem refl (d : Daemon) : Thins d d :=
  ⟨fun _ info h => ⟨info, h, rfl⟩, fun _ p h => ⟨p, h, rfl, rfl⟩, fun _ _ => Iff.rfl, rfl⟩

theorem trans (h₁ : Thins d d') (h₂ : Thins d' d'') : Thins d d'' where
  infos id info'' h := by
    obtain ⟨info', h', hn'⟩ := h₂.infos id info'' h
    obtain ⟨info, h, hn⟩ := h₁.infos id info' h'
    exact ⟨info, h, hn'.trans hn⟩
  producers id p'' h := by
    obtain ⟨p', h', hs', hc'⟩ := h₂.producers id p'' h
    obtain ⟨p, h, hs, hc⟩ := h₁.producers id p' h'
    exact ⟨p, h, hs'.trans hs, hc'.trans hc⟩
  idle id h := by
    obtain ⟨p'', hp⟩ := OrdMap.mem_iff.mp h
    obtain ⟨p', hp', -⟩ := h₂.producers id p'' hp
    rw [h₂.idle id h, h₁.idle id (OrdMap.mem_iff.mpr ⟨p', hp'⟩)]
  stubs := h₂.stubs.trans h₁.stubs

theorem only (h : Thins d d') (ho : OnlyProducers d) : OnlyProducers d' := by
  rw [onlyProducers_iff] at ho ⊢
  intro id info' hi
  obtain ⟨info, hinfo, hn⟩ := h.infos id info' hi
  exact hn.trans (ho id info hinfo)

theorem of_infos {infos : OrdMap UInt64 ServerInfo} {k : UInt64} {info : ServerInfo} (info' : ServerInfo)
    (hk : d.gSvrId2SvrInfo.find? k = some info) (hn : info'.procName = info.procName)
    (hi : infos = d.gSvrId2SvrInfo.set k info') : Thins d { d with gSvrId2SvrInfo := infos } where
  infos id x hx := by
    have hx' : infos.find? id = some x := hx
    rw [hi] at hx'
    rcases OrdMap.find?_set_eq_some_iff.mp hx' with ⟨rfl, rfl⟩ | ⟨-, hx⟩
    · exact ⟨info, hk, hn⟩
    · exact ⟨x, hx, rfl⟩
  producers _ p h := ⟨p, h, rfl, rfl⟩
  idle _ _ := Iff.rfl
  stubs := rfl

theorem heartBeat (d : Daemon) (req : HeartBeatRequest) (now : Int) : Thins d (d.heartBeat req now).2 := by
  unfold Daemon.heartBeat
  cases hf : d.gSvrId2SvrInfo.find? req.serverId with
  | none => exact refl d
  | some info => exact of_infos { info with timestamp := now } hf rfl rfl

theorem loadBalance (d : Daemon) (req : LoadBalanceRequest) (score : ℚ) : Thins d (d.loadBalance req score).2 := by
  unfold Daemon.loadBalance
  cases hf : d.gSvrId2SvrInfo.find? req.serverId with
  | none => exact refl d
  | some info => exact of_infos { info with score := extractScore req.score score } hf rfl rfl

theorem rebalance (h : Aligned d reg) (ho : OnlyProducers d) : Thins d d.rebalance where
  infos id info hi := ⟨info, by simpa using hi, rfl⟩
  producers id p hp := ⟨p, by rwa [h.rebalance_producers ho] at hp, rfl, rfl⟩
  idle id _ := by rw [rebalance_idle]
  stubs := rebalance_stubs

theorem eraseProducer (d : Daemon) (id : UInt64) :
    Thins d
      { d with
        gSvrId2SvrInfo := d.gSvrId2SvrInfo.erase id
        gSvrId2ProducerState := d.gSvrId2ProducerState.erase id
        gSetIdleProducer := d.gSetIdleProducer.erase id } where
  infos _ info hi := ⟨info, (OrdMap.find?_erase_eq_some_iff.mp hi).2, rfl⟩
  producers _ p hp := ⟨p, (OrdMap.find?_erase_eq_some_iff.mp hp).2, rfl, rfl⟩
  idle k hk := by
    rw [OrdMap.mem_erase] at hk ⊢
    exact ⟨fun h => h.2, fun h => ⟨hk.1, h⟩⟩
  stubs := rfl

theorem setProducer {id : UInt64} {p : ProducerState} (p' : ProducerState)
    (hp : d.gSvrId2ProducerState.find? id = some p) (hs : p'.producerCaller = p.producerCaller)
    (hc : p'.curTaskCount = p.curTaskCount) :
    Thins d { d with gSvrId2ProducerState := d.gSvrId2ProducerState.set id p' } where
  infos _ info h := ⟨info, h, rfl⟩
  producers k q hq := by
    rcases OrdMap.find?_set_eq_some_iff.mp hq with ⟨rfl, rfl⟩ | ⟨-, hq⟩
    · exact ⟨p, hp, hs, hc⟩
    · exact ⟨q, hq, rfl, rfl⟩
  idle _ _ := Iff.rfl
  stubs := rfl

theorem eraseAndRebalance (h : Aligned d reg) (ho : OnlyProducers d) (id : UInt64) :
    Thins d (Daemon.rebalance
      { d with
        gSvrId2SvrInfo := d.gSvrId2SvrInfo.erase id
        gSvrId2ProducerState := d.gSvrId2ProducerState.erase id
        gSetIdleProducer := d.gSetIdleProducer.erase id }) :=
  (eraseProducer d id).trans (rebalance (h.eraseProducer id) ((eraseProducer d id).only ho))

theorem countFailure (h : Aligned d reg) (ho : OnlyProducers d) (id : UInt64) : Thins d (d.countFailure id) := by
  unfold Daemon.countFailure
  cases hp : d.gSvrId2ProducerState.find? id with
  | none => exact refl d
  | some p =>
    simp only
    split
    next => exact eraseAndRebalance h ho id
    next => exact setProducer _ hp rfl rfl

theorem sweepLoop {now : Int} {l : List (UInt64 × ServerInfo)} (h : Consistent d reg) (ho : OnlyProducers d)
    (hl : ∀ x ∈ l, x.2.procName = producerName) : Thins d (Daemon.sweepLoop now l d) := by
  induction l generalizing d with
  | nil => exact refl d
  | cons x l ih =>
    obtain ⟨id, info⟩ := x
    have hl' : ∀ y ∈ l, y.2.procName = producerName := fun y hy => hl y (List.mem_cons_of_mem _ hy)
    unfold Daemon.sweepLoop
    split
    next =>
      have hn : info.procName = producerName := hl _ List.mem_cons_self
      have hrem : Thins d (d.removeServer id info.procName) := by
        unfold Daemon.removeServer
        rw [hn, if_pos rfl]
        exact eraseAndRebalance h.toAligned ho id
      have hc : Consistent (d.removeServer id info.procName) reg := by
        rw [hn]
        exact h.removeProducer fun k y _ hy => onlyProducers_iff.mp ho k y hy
      exact hrem.trans (ih hc (hrem.only ho) hl')
    next => exact ih h ho hl'

theorem resetFailCounts (d : Daemon) : Thins d d.resetFailCounts where
  infos _ info h := ⟨info, h, rfl⟩
  producers id p' hp := by
    obtain ⟨p, hp₀, rfl⟩ := Option.map_eq_some_iff.mp ((OrdMap.find?_mapValues _ _ _).symm.trans hp)
    exact ⟨p, hp₀, rfl, rfl⟩
  idle _ _ := Iff.rfl
  stubs := rfl

theorem checkProcAlive (h : Consistent d reg) (ho : OnlyProducers d) (now : Int) : Thins d (d.checkProcAlive now) :=
  (sweepLoop h ho ho).trans (resetFailCounts _)

end Thins

theorem OnlyProducers.sweepsProducers {d : Daemon} (ho : OnlyProducers d) (now : Int) : d.SweepsProducers now :=
  fun _ _ _ _ y hy hne => absurd (ho y hy) hne

/-- What either dispatching branch does to the tables. -/
theorem Sends.spec {d d' : Daemon} {reg : OrdMap UInt64 Stub} {draw : Fin 10001} {svrId : UInt64}
    (hs : d.Sends draw svrId d') (h : Consistent d reg) :
    ∃ p, d.gSvrId2ProducerState.find? svrId = some p ∧ d.stubOf svrId = p.producerCaller ∧
      d'.gSvrId2ProducerState = d.gSvrId2ProducerState.set svrId { p with curTaskCount := p.curTaskCount + 1 } ∧
      (∀ k, k ∈ d'.gSetIdleProducer ↔ k ≠ svrId ∧ k ∈ d.gSetIdleProducer) ∧
      d'.gSvrId2SvrInfo = d.gSvrId2SvrInfo ∧ d'.stubs = d.stubs := by
  obtain ⟨p, hp⟩ := OrdMap.mem_iff.mp (hs.mem h)
  refine ⟨p, hp, by simp [stubOf, hp], ?_⟩
  cases hs with
  | idle => exact ⟨by simp [sendIdle, countSend, hp], fun k => OrdMap.mem_erase _ _ _, rfl, rfl⟩
  | ranked hsel =>
    have hempty := OrdMap.first?_eq_none_iff.mp (select_ranked hsel).1.1
    exact ⟨by simp [countSend, hp], fun k => ⟨fun hk => absurd hk (hempty k), fun hk => hk.2⟩, rfl, rfl⟩

end Daemon

/-! ### Outstanding calls -/

/-- The completion of the call has not yet run `DecreaseProducerTask`. -/
def Call.Outstanding (c : Call) : Prop := (∀ curUid, c.stage ≠ .resending curUid) ∧ c.stage ≠ .succeeded

instance (c : Call) : Decidable c.Outstanding :=
  match hst : c.stage with
  | .resending curUid => isFalse fun h => h.1 curUid hst
  | .succeeded => isFalse fun h => h.2 hst
  | .inFlight | .gotReply _ | .rpcFailed | .failCounted => isTrue (by simp [Call.Outstanding, hst])

/-- The number of outstanding calls that were sent through `stub`. -/
def outstanding (calls : List Call) (stub : Option Stub) : Nat := calls.countP fun c => c.Outstanding ∧ c.stub = stub

section Outstanding
variable {calls : List Call} {i : Nat} {c : Call} {st : Stage} {stub : Option Stub} (hc : calls[i]? = some c)
include hc

theorem outstanding_set_of_iff (hout : ({ c with stage := st } : Call).Outstanding ↔ c.Outstanding) :
    outstanding (calls.set i { c with stage := st }) stub = outstanding calls stub := by
  have hset := Count.countP_set (p := fun c => decide (c.Outstanding ∧ c.stub = stub)) (b := { c with stage := st }) hc
  simp only [hout] at hset
  exact Nat.add_right_cancel hset

theorem outstanding_set_of_ne (hne : c.stub ≠ stub) :
    outstanding (calls.set i { c with stage := st }) stub = outstanding calls stub := by
  have hset := Count.countP_set (p := fun c => decide (c.Outstanding ∧ c.stub = stub)) (b := { c with stage := st }) hc
  simp only [hne, and_false, decide_false] at hset
  exact Nat.add_right_cancel hset

theorem outstanding_set_of_done (hout : c.Outstanding) (hst : ¬({ c with stage := st } : Call).Outstanding) :
    outstanding (calls.set i { c with stage := st }) c.stub + 1 = outstanding calls c.stub := by
  have hset := Count.countP_set (p := fun x => decide (x.Outstanding ∧ x.stub = c.stub)) (b := { c with stage := st }) hc
  simpa [outstanding, hout, hst] using hset

/-- The calls after one changes its stage. -/
theorem mem_set_stage {y : Call} (hst : ({ c with stage := st } : Call).Outstanding → c.Outstanding)
    (hy : y ∈ calls.set i { c with stage := st }) :
    ∃ x ∈ calls, y.stub = x.stub ∧ y.svrId = x.svrId ∧ (y.Outstanding → x.Outstanding) := by
  rcases Count.mem_set hy with rfl | hy
  · exact ⟨c, List.mem_of_getElem? hc, rfl, rfl, hst⟩
  · exact ⟨y, hy, rfl, rfl, id⟩

end Outstanding

/-- Changing the counts of a producer leaves the stubs. -/
theorem caller_of_find?_set {producers : OrdMap UInt64 ProducerState} {id k : UInt64} {p₀ p₁ p : ProducerState}
    (hp₀ : producers.find? id = some p₀) (hp : (producers.set id p₁).find? k = some p)
    (hstub : p₁.producerCaller = p₀.producerCaller) :
    ∃ q, producers.find? k = some q ∧ p.producerCaller = q.producerCaller := by
  rcases OrdMap.find?_set_eq_some_iff.mp hp with ⟨rfl, rfl⟩ | ⟨-, hp⟩
  · exact ⟨p₀, hp₀, hstub⟩
  · exact ⟨p, hp, rfl⟩

/-- The next critical section of the handler of the call is `DecreaseProducerTask`. -/
def Call.Decreases (c : Call) : Prop := (∃ code, c.stage = .gotReply code) ∨ c.stage = .failCounted

/-- Task accounting is exact: the counts, the idle set, and no count that is 0 is decreased. -/
structure State.TasksExact (s : State) : Prop where
  count : ∀ id p, s.daemon.gSvrId2ProducerState.find? id = some p →
    p.curTaskCount.toNat = outstanding s.calls p.producerCaller
  idle : ∀ id p, s.daemon.gSvrId2ProducerState.find? id = some p →
    (id ∈ s.daemon.gSetIdleProducer ↔ outstanding s.calls p.producerCaller = 0)
  positive : ∀ c ∈ s.calls, c.Decreases → ∀ p, s.daemon.gSvrId2ProducerState.find? c.svrId = some p →
    p.curTaskCount ≠ 0

/-- Only producers register, none is given the id of an outstanding call, and a loop sends while fewer than
    2^32 - 1 calls are outstanding. -/
def TasksKept (s : State) : Event → Prop
  | .clientRegister req _ draw _ => req.procName = producerName ∧
      ∀ c ∈ s.calls, c.Outstanding → c.svrId ≠ s.daemon.newServerId draw
  | .pushLoop .. | .resendLoop .. => s.calls.countP (·.Outstanding) < 2 ^ 32 - 1
  | _ => True

instance (s : State) : (e : Event) → Decidable (TasksKept s e)
  | .clientRegister req _ draw _ => inferInstanceAs (Decidable (req.procName = producerName ∧
      ∀ c ∈ s.calls, c.Outstanding → c.svrId ≠ s.daemon.newServerId draw))
  | .pushLoop .. | .resendLoop .. => inferInstanceAs (Decidable (s.calls.countP (·.Outstanding) < 2 ^ 32 - 1))
  | .heartBeat .. | .loadBalance .. | .beginPush _ | .completion .. | .handleCompletion _ | .checkProcAlive _ |
    .reBalanceTimer => isTrue trivial

/-- The invariant: each producer is known by its stub, which the outstanding calls to its id went through. -/
structure TasksInv (s : State) : Prop where
  tables : s.daemon.Consistent s.registered
  only : s.daemon.OnlyProducers
  count : ∀ id p, s.daemon.gSvrId2ProducerState.find? id = some p →
    p.curTaskCount.toNat = outstanding s.calls p.producerCaller
  idle : ∀ id p, s.daemon.gSvrId2ProducerState.find? id = some p →
    (id ∈ s.daemon.gSetIdleProducer ↔ outstanding s.calls p.producerCaller = 0)
  current : ∀ c ∈ s.calls, c.Outstanding → ∀ p, s.daemon.gSvrId2ProducerState.find? c.svrId = some p →
    c.stub = p.producerCaller
  owner : ∀ c ∈ s.calls, ∀ id p, s.daemon.gSvrId2ProducerState.find? id = some p → c.stub = p.producerCaller →
    c.svrId = id
  distinct : ∀ id id' p p', s.daemon.gSvrId2ProducerState.find? id = some p →
    s.daemon.gSvrId2ProducerState.find? id' = some p' → p.producerCaller = p'.producerCaller → id = id'
  freshProducers : ∀ id p, s.daemon.gSvrId2ProducerState.find? id = some p →
    ∀ stub, p.producerCaller = some stub → stub.serial < s.daemon.stubs
  freshCalls : ∀ c ∈ s.calls, ∀ stub, c.stub = some stub → stub.serial < s.daemon.stubs

namespace TasksInv
variable {s t : State} {e : Event}

theorem exact (h : TasksInv s) : s.TasksExact where
  count := h.count
  idle := h.idle
  positive c hc hd p hp := by
    have hout : c.Outstanding := by
      rcases hd with ⟨code, hst⟩ | hst <;> simp [Call.Outstanding, hst]
    have hpos : 0 < outstanding s.calls p.producerCaller :=
      List.countP_pos_iff.mpr ⟨c, hc, by simp [hout, h.current c hc hout p hp]⟩
    intro h0
    have := h.count _ p hp
    rw [h0] at this
    simp only [UInt32.reduceToNat] at this
    omega

/-- A step that adds no producer keeps what is known of the stubs; a new call goes through the stub of a producer. -/
theorem of_sent (h : TasksInv s) (tables : t.daemon.Consistent t.registered) (only : t.daemon.OnlyProducers)
    (count : ∀ id p, t.daemon.gSvrId2ProducerState.find? id = some p →
      p.curTaskCount.toNat = outstanding t.calls p.producerCaller)
    (idle : ∀ id p, t.daemon.gSvrId2ProducerState.find? id = some p →
      (id ∈ t.daemon.gSetIdleProducer ↔ outstanding t.calls p.producerCaller = 0))
    (hstubs : t.daemon.stubs = s.daemon.stubs)
    (hproducers : ∀ id p, t.daemon.gSvrId2ProducerState.find? id = some p →
      ∃ q, s.daemon.gSvrId2ProducerState.find? id = some q ∧ p.producerCaller = q.producerCaller)
    (hcalls : ∀ y ∈ t.calls, (∃ x ∈ s.calls, y.stub = x.stub ∧ y.svrId = x.svrId ∧ (y.Outstanding → x.Outstanding)) ∨
      ∃ q, s.daemon.gSvrId2ProducerState.find? y.svrId = some q ∧ y.stub = q.producerCaller) : TasksInv t where
  tables := tables
  only := only
  count := count
  idle := idle
  current y hy ho p hp := by
    obtain ⟨q, hq, hcaller⟩ := hproducers _ p hp
    rcases hcalls y hy with ⟨x, hx, hstub, hid, hout⟩ | ⟨q', hq', hstub⟩
    · rw [hstub, hcaller]
      exact h.current x hx (hout ho) q (hid ▸ hq)
    · obtain rfl := Option.some.inj (hq.symm.trans hq')
      exact hstub.trans hcaller.symm
  owner y hy id p hp heq := by
    obtain ⟨q, hq, hcaller⟩ := hproducers id p hp
    rcases hcalls y hy with ⟨x, hx, hstub, hid, -⟩ | ⟨q', hq', hstub⟩
    · rw [hid]
      exact h.owner x hx id q hq (hstub.symm.trans (heq.trans hcaller))
    · exact h.distinct y.svrId id q' q hq' hq (hstub.symm.trans (heq.trans hcaller))
  distinct id id' p p' hp hp' heq := by
    obtain ⟨q, hq, hcaller⟩ := hproducers id p hp
    obtain ⟨q', hq', hcaller'⟩ := hproducers id' p' hp'
    exact h.distinct id id' q q' hq hq' (hcaller.symm.trans (heq.trans hcaller'))
  freshProducers id p hp stub hstub := by
    obtain ⟨q, hq, hcaller⟩ := hproducers id p hp
    rw [hstubs]
    exact h.freshProducers id q hq stub (hcaller ▸ hstub)
  freshCalls y hy stub hstub := by
    rw [hstubs]
    rcases hcalls y hy with ⟨x, hx, hsame, -⟩ | ⟨q, hq, hsame⟩
    · exact h.freshCalls x hx stub (hsame ▸ hstub)
    · exact h.freshProducers y.svrId q hq stub (hsame ▸ hstub)

/-- A step that adds no producer and no call keeps what is known of the stubs. -/
theorem of_kept (h : TasksInv s) (tables : t.daemon.Consistent t.registered) (only : t.daemon.OnlyProducers)
    (count : ∀ id p, t.daemon.gSvrId2ProducerState.find? id = some p →
      p.curTaskCount.toNat = outstanding t.calls p.producerCaller)
    (idle : ∀ id p, t.daemon.gSvrId2ProducerState.find? id = some p →
      (id ∈ t.daemon.gSetIdleProducer ↔ outstanding t.calls p.producerCaller = 0))
    (hstubs : t.daemon.stubs = s.daemon.stubs)
    (hproducers : ∀ id p, t.daemon.gSvrId2ProducerState.find? id = some p →
      ∃ q, s.daemon.gSvrId2ProducerState.find? id = some q ∧ p.producerCaller = q.producerCaller)
    (hcalls : ∀ y ∈ t.calls, ∃ x ∈ s.calls, y.stub = x.stub ∧ y.svrId = x.svrId ∧ (y.Outstanding → x.Outstanding)) :
    TasksInv t :=
  h.of_sent tables only count idle hstubs hproducers fun y hy => Or.inl (hcalls y hy)

/-- Steps that thin the tables and leave the calls alone, up to their order in the list. -/
theorem thin (h : TasksInv s) {d : Daemon} (hd : s.daemon.Thins d) (hc : d.Consistent s.registered) :
    TasksInv { s with daemon := d } := by
  refine h.of_kept hc (hd.only h.only) (fun id p' hp => ?_) (fun id p' hp => ?_) hd.stubs (fun id p' hp => ?_)
    fun c hc => ⟨c, hc, rfl, rfl, fun ho => ho⟩
  · obtain ⟨p, hp, hs, hn⟩ := hd.producers id p' hp
    rw [hs, hn]
    exact h.count id p hp
  · obtain ⟨p, hp₀, hs, -⟩ := hd.producers id p' hp
    rw [hs]
    exact (hd.idle id (OrdMap.mem_iff.mpr ⟨p', hp⟩)).trans (h.idle id p hp₀)
  · obtain ⟨p, hp, hs, -⟩ := hd.producers id p' hp
    exact ⟨p, hp, hs⟩

/-- A call that stays outstanding, or stays done. -/
theorem setStage (h : TasksInv s) (st : Stage) {i : Nat} {c : Call} (hc : s.calls[i]? = some c)
    (hout : ({ c with stage := st } : Call).Outstanding ↔ c.Outstanding) :
    TasksInv (s.setCall i { c with stage := st }) :=
  h.of_kept h.tables h.only (fun id p hp => (h.count id p hp).trans (outstanding_set_of_iff hc hout).symm)
    (fun id p hp => (h.idle id p hp).trans (iff_of_eq (congrArg (· = 0) (outstanding_set_of_iff hc hout).symm))) rfl
    (fun _ p hp => ⟨p, hp, rfl⟩) fun _ => mem_set_stage hc hout.mp

/-- The count of a producer stays below 2^32, so it does not wrap. -/
theorem count_succ (h : TasksInv s) {id : UInt64} {p : ProducerState}
    (hp : s.daemon.gSvrId2ProducerState.find? id = some p) (hroom : s.calls.countP (·.Outstanding) < 2 ^ 32 - 1) :
    (p.curTaskCount + 1).toNat = p.curTaskCount.toNat + 1 := by
  have hle : outstanding s.calls p.producerCaller < 2 ^ 32 - 1 := by
    refine lt_of_le_of_lt (List.countP_mono_left fun c _ hc => ?_) hroom
    simp only [decide_eq_true_eq] at hc ⊢
    exact hc.1
  have hcount := h.count id p hp
  rw [UInt32.toNat_add]
  simp only [UInt32.reduceToNat]
  omega

/-- A call is counted at the producer it is sent to, which is the only one with its stub. -/
theorem sent (h : TasksInv s) {d : Daemon} {draw : Fin 10001} {svrId : UInt64} (hs : s.daemon.Sends draw svrId d)
    (hroom : s.calls.countP (·.Outstanding) < 2 ^ 32 - 1) (request : ProduceMsgRequest) (push : Nat)
    (curUid : UInt64) : TasksInv (s.sent d svrId request push curUid) := by
  obtain ⟨p₀, hp₀, hstub₀, hprod, hidle, hinfos, hstubs⟩ := hs.spec h.tables
  have hkeep : ∀ k p, d.gSvrId2ProducerState.find? k = some p →
      ∃ q, s.daemon.gSvrId2ProducerState.find? k = some q ∧ p.producerCaller = q.producerCaller := by
    intro k p hp
    rw [hprod] at hp
    exact caller_of_find?_set hp₀ hp rfl
  have hcases : ∀ k p, d.gSvrId2ProducerState.find? k = some p →
      (k = svrId ∧ p = { p₀ with curTaskCount := p₀.curTaskCount + 1 }) ∨
        (k ≠ svrId ∧ s.daemon.gSvrId2ProducerState.find? k = some p) := fun k p hp =>
    OrdMap.find?_set_eq_some_iff.mp (hprod ▸ hp)
  have hcount : ∀ stub, outstanding (s.sent d svrId request push curUid).calls stub =
      outstanding s.calls stub + if p₀.producerCaller = stub then 1 else 0 := by
    intro stub
    unfold outstanding
    rw [State.sent, Count.countP_snoc, hstub₀]
    simp [Call.Outstanding]
  have hne : ∀ k p, k ≠ svrId → s.daemon.gSvrId2ProducerState.find? k = some p →
      p₀.producerCaller ≠ p.producerCaller := fun k p hk hp heq => hk (h.distinct svrId k p₀ p hp₀ hp heq).symm
  have honly : d.OnlyProducers := by
    unfold Daemon.OnlyProducers
    rw [hinfos]
    exact h.only
  refine h.of_sent (hs.consistent h.tables) honly (fun k p hp => ?_) (fun k p hp => ?_) hstubs hkeep fun c hc => ?_
  · rw [hcount]
    rcases hcases k p hp with ⟨rfl, rfl⟩ | ⟨hk, hp⟩
    · simp only [if_true, h.count_succ hp₀ hroom, h.count k p₀ hp₀]
    · simp only [hne k p hk hp, if_false, h.count k p hp, Nat.add_zero]
  · show k ∈ d.gSetIdleProducer ↔ _
    rw [hcount, hidle]
    rcases hcases k p hp with ⟨rfl, rfl⟩ | ⟨hk, hp⟩
    · simp
    · simp only [hne k p hk hp, if_false, Nat.add_zero, ← h.idle k p hp, and_iff_right_iff_imp]
      exact fun _ => hk
  · rcases List.mem_append.mp hc with hc | hc
    · exact Or.inl ⟨c, hc, rfl, rfl, fun ho => ho⟩
    · obtain rfl := List.mem_singleton.mp hc
      exact Or.inr ⟨p₀, hp₀, hstub₀⟩

/-- The completion of a call to a producer that is gone. -/
theorem decrease_of_none (h : TasksInv s) (st : Stage) {i : Nat} {c : Call} (hc : s.calls[i]? = some c)
    (hst : ¬({ c with stage := st } : Call).Outstanding) (hp₀ : s.daemon.gSvrId2ProducerState.find? c.svrId = none) :
    TasksInv ({ s with daemon := s.daemon.decreaseProducerTask c.svrId }.setCall i { c with stage := st }) := by
  have htables := h.tables.decreaseProducerTask c.svrId
  rw [Daemon.decreaseProducerTask_of_none hp₀] at htables ⊢
  have hsame : ∀ k p, s.daemon.gSvrId2ProducerState.find? k = some p →
      outstanding (s.calls.set i { c with stage := st }) p.producerCaller = outstanding s.calls p.producerCaller := by
    intro k p hp
    refine outstanding_set_of_ne hc fun heq => ?_
    rw [h.owner c (List.mem_of_getElem? hc) k p hp heq, hp] at hp₀
    cases hp₀
  exact h.of_kept htables h.only (fun k p hp => (h.count k p hp).trans (hsame k p hp).symm)
    (fun k p hp => (h.idle k p hp).trans (iff_of_eq (congrArg (· = 0) (hsame k p hp).symm))) rfl
    (fun _ p hp => ⟨p, hp, rfl⟩) fun _ => mem_set_stage hc fun ho => absurd ho hst

/-- The completion of a call to a producer that is still there. The call is counted, so the count does not wrap. -/
theorem decrease_of_some (h : TasksInv s) (st : Stage) {i : Nat} {c : Call} {p₀ : ProducerState}
    (hc : s.calls[i]? = some c) (hout : c.Outstanding) (hst : ¬({ c with stage := st } : Call).Outstanding)
    (hp₀ : s.daemon.gSvrId2ProducerState.find? c.svrId = some p₀) :
    TasksInv ({ s with daemon := s.daemon.decreaseProducerTask c.svrId }.setCall i { c with stage := st }) := by
  have hmem := List.mem_of_getElem? hc
  have htables := h.tables.decreaseProducerTask c.svrId
  rw [Daemon.decreaseProducerTask_of_some hp₀] at htables ⊢
  have hother : ∀ k p, k ≠ c.svrId → s.daemon.gSvrId2ProducerState.find? k = some p →
      outstanding (s.calls.set i { c with stage := st }) p.producerCaller = outstanding s.calls p.producerCaller :=
    fun k p hk hp => outstanding_set_of_ne hc fun heq => hk (h.owner c hmem k p hp heq).symm
  have hcount₀ : outstanding (s.calls.set i { c with stage := st }) p₀.producerCaller + 1 = p₀.curTaskCount.toNat := by
    rw [h.count _ p₀ hp₀, ← h.current c hmem hout p₀ hp₀]
    exact outstanding_set_of_done hc hout hst
  have hpred : (p₀.curTaskCount - 1).toNat = p₀.curTaskCount.toNat - 1 := by
    have := p₀.curTaskCount.toNat_lt
    rw [UInt32.toNat_sub]
    simp only [UInt32.reduceToNat]
    omega
  have hzero : 0 ≥ p₀.curTaskCount - 1 ↔ p₀.curTaskCount.toNat - 1 = 0 := by
    rw [ge_iff_le, UInt32.le_iff_toNat_le, hpred]
    simp
  refine h.of_kept htables h.only (fun k p hp => ?_) (fun k p hp => ?_) rfl
    (fun _ _ hp => caller_of_find?_set hp₀ hp rfl) fun _ => mem_set_stage hc fun ho => absurd ho hst
  · simp only [State.setCall] at hp ⊢
    rcases OrdMap.find?_set_eq_some_iff.mp hp with ⟨-, rfl⟩ | ⟨hk, hp⟩
    · simp only [hpred]
      omega
    · rw [hother k p hk hp]
      exact h.count k p hp
  · simp only [State.setCall] at hp ⊢
    rcases OrdMap.find?_set_eq_some_iff.mp hp with ⟨rfl, rfl⟩ | ⟨hk, hp⟩
    · simp only [hzero]
      split
      next hz =>
        simp only [OrdMap.mem_set, true_or, true_iff]
        omega
      next hz =>
        rw [h.idle _ p₀ hp₀, ← h.count _ p₀ hp₀]
        omega
    · rw [hother k p hk hp, ← h.idle k p hp]
      split
      · rw [OrdMap.mem_set]
        exact ⟨fun h => h.resolve_left hk, Or.inr⟩
      · rfl

/-- A call is taken out of the count of the producer it was sent to, if that is still there. -/
theorem decrease (h : TasksInv s) (st : Stage) {i : Nat} {c : Call} (hc : s.calls[i]? = some c)
    (hout : c.Outstanding) (hst : ¬({ c with stage := st } : Call).Outstanding) :
    TasksInv ({ s with daemon := s.daemon.decreaseProducerTask c.svrId }.setCall i { c with stage := st }) := by
  cases hp₀ : s.daemon.gSvrId2ProducerState.find? c.svrId with
  | none => exact h.decrease_of_none st hc hst hp₀
  | some p₀ => exact h.decrease_of_some st hc hout hst hp₀

/-- A producer joins with a new stub, which no call has gone through, and an id that no outstanding call
    was sent to. -/
theorem join (h : TasksInv s) {d : Daemon} {reg : OrdMap UInt64 Stub} {id : UInt64} {addr : String}
    (htables : d.Consistent reg) (honly : d.OnlyProducers)
    (hprod : d.gSvrId2ProducerState =
      s.daemon.gSvrId2ProducerState.set id { producerCaller := some ⟨s.daemon.stubs, addr⟩ })
    (hidle : d.gSetIdleProducer = s.daemon.gSetIdleProducer.set id ()) (hstubs : d.stubs = s.daemon.stubs + 1)
    (hfresh : ∀ c ∈ s.calls, c.Outstanding → c.svrId ≠ id) :
    TasksInv { s with daemon := d, registered := reg } := by
  have hcases : ∀ k p, d.gSvrId2ProducerState.find? k = some p →
      (k = id ∧ p = { producerCaller := some ⟨s.daemon.stubs, addr⟩ }) ∨
        (k ≠ id ∧ s.daemon.gSvrId2ProducerState.find? k = some p) := fun k p hp =>
    OrdMap.find?_set_eq_some_iff.mp (hprod ▸ hp)
  have hcalls : ∀ c ∈ s.calls, c.stub ≠ some ⟨s.daemon.stubs, addr⟩ := fun c hc heq =>
    absurd (h.freshCalls c hc _ heq) (lt_irrefl _)
  have hprods : ∀ k p, s.daemon.gSvrId2ProducerState.find? k = some p →
      p.producerCaller ≠ some ⟨s.daemon.stubs, addr⟩ := fun k p hp heq =>
    absurd (h.freshProducers k p hp _ heq) (lt_irrefl _)
  have hzero : outstanding s.calls (some ⟨s.daemon.stubs, addr⟩) = 0 := by
    rw [outstanding, List.countP_eq_zero]
    intro c hc ho
    exact hcalls c hc (of_decide_eq_true ho).2
  refine ⟨htables, honly, fun k p hp => ?_, fun k p hp => ?_, fun c hc ho p hp => ?_, fun c hc k p hp hs => ?_,
    fun k k' p p' hp hp' heq => ?_, fun k p hp st hst => ?_, fun c hc st hst => ?_⟩
  · rcases hcases k p hp with ⟨-, rfl⟩ | ⟨-, hp⟩
    · exact hzero.symm
    · exact h.count k p hp
  · show k ∈ d.gSetIdleProducer ↔ _
    rw [hidle, OrdMap.mem_set]
    rcases hcases k p hp with ⟨rfl, rfl⟩ | ⟨hk, hp⟩
    · exact ⟨fun _ => hzero, fun _ => Or.inl rfl⟩
    · rw [← h.idle k p hp]
      exact ⟨fun h => h.resolve_left hk, Or.inr⟩
  · rcases hcases _ p hp with ⟨hk, -⟩ | ⟨-, hp⟩
    · exact absurd hk (hfresh c hc ho)
    · exact h.current c hc ho p hp
  · rcases hcases k p hp with ⟨-, rfl⟩ | ⟨-, hp⟩
    · exact absurd hs (hcalls c hc)
    · exact h.owner c hc k p hp hs
  · rcases hcases k p hp with ⟨hk, rfl⟩ | ⟨-, hp⟩
    · rcases hcases k' p' hp' with ⟨hk', -⟩ | ⟨-, hp'⟩
      · exact hk.trans hk'.symm
      · exact absurd heq.symm (hprods k' p' hp')
    · rcases hcases k' p' hp' with ⟨-, rfl⟩ | ⟨-, hp'⟩
      · exact absurd heq (hprods k p hp)
      · exact h.distinct k k' p p' hp hp' heq
  · show st.serial < d.stubs
    rw [hstubs]
    rcases hcases k p hp with ⟨-, rfl⟩ | ⟨-, hp⟩
    · obtain rfl := Option.some.inj hst
      exact Nat.lt_succ_self _
    · exact Nat.lt_succ_of_lt (h.freshProducers k p hp st hst)
  · show st.serial < d.stubs
    rw [hstubs]
    exact Nat.lt_succ_of_lt (h.freshCalls c hc st hst)

theorem clientRegister (h : TasksInv s) {req : ClientRegisterRequest} (peer : String) {draw : Fin (2 ^ 31)}
    (now : Int) (hn : req.procName = producerName)
    (hfresh : ∀ c ∈ s.calls, c.Outstanding → c.svrId ≠ s.daemon.newServerId draw) :
    TasksInv (s.clientRegister req peer draw now).2 := by
  have hname : (ServerInfo.make (parseAndGetIp peer ++ ":" ++ req.listeningPort) req.procName req.groupId
      now).procName = producerName := hn
  have hform := Daemon.clientRegister_of_eq s.daemon peer draw now hn.symm
  have hal := h.tables.toAligned.addProducer (s.daemon.newServerId draw)
    (parseAndGetIp peer ++ ":" ++ req.listeningPort) h.only hname
  have honly := h.only.addProducer (s.daemon.newServerId draw)
    (parseAndGetIp peer ++ ":" ++ req.listeningPort) hname
  have honly' : (s.daemon.clientRegister req peer draw now).2.OnlyProducers := by
    rw [hform]
    exact (Daemon.Thins.rebalance hal honly).only honly
  have hprod : (s.daemon.clientRegister req peer draw now).2.gSvrId2ProducerState =
      s.daemon.gSvrId2ProducerState.set (s.daemon.newServerId draw)
        { producerCaller := some ⟨s.daemon.stubs, parseAndGetIp peer ++ ":" ++ req.listeningPort⟩ } := by
    rw [hform]
    exact hal.rebalance_producers honly
  have hidle : (s.daemon.clientRegister req peer draw now).2.gSetIdleProducer =
      s.daemon.gSetIdleProducer.set (s.daemon.newServerId draw) () := by
    rw [hform, Daemon.rebalance_idle]
    rfl
  have hstubs : (s.daemon.clientRegister req peer draw now).2.stubs = s.daemon.stubs + 1 := by
    rw [hform, Daemon.rebalance_stubs]
    rfl
  exact h.join (h.tables.clientRegister (fun _ => h.only) peer draw now) honly' hprod hidle hstubs hfresh

theorem keep (h : TasksInv s) (hok : TasksKept s e) (hs : State.Steps s e t) : TasksInv t := by
  cases hs with
  | clientRegister => exact h.clientRegister _ _ hok.1 hok.2
  | heartBeat => exact h.thin (.heartBeat _ _ _) (h.tables.heartBeat _ _)
  | loadBalance => exact h.thin (.loadBalance _ _ _) (h.tables.loadBalance _ _)
  | beginPush | pushPastEnd | resendPastEnd =>
    exact ⟨h.tables, h.only, h.count, h.idle, h.current, h.owner, h.distinct, h.freshProducers, h.freshCalls⟩
  | pushWait | resendWait => exact h
  | @pushSend p _ x _ _ _ _ hd =>
    have hsent := h.sent hd hok x.request p x.curUid
    exact ⟨hsent.tables, hsent.only, hsent.count, hsent.idle, hsent.current, hsent.owner, hsent.distinct,
      hsent.freshProducers, hsent.freshCalls⟩
  | resendSend hc hst _ hd =>
    exact (h.sent hd hok _ _ _).setStage _ (Count.getElem?_snoc_of_some hc) (by simp [Call.Outstanding, hst])
  | reply hc hst | rpcFail hc hst => exact h.setStage _ hc (by simp [Call.Outstanding, hst])
  | succeed hc hst =>
    exact h.decrease _ hc (by simp [Call.Outstanding, hst]) (by simp [Call.Outstanding])
  | resend hc hst =>
    refine h.decrease _ hc ?_ (by simp [Call.Outstanding])
    rcases hst with hst | hst <;> simp [Call.Outstanding, hst]
  | @countFailure i c hc hst =>
    have hthin := h.thin (.countFailure h.tables.toAligned h.only c.svrId)
      (h.tables.countFailure c.svrId fun _ _ _ => h.only)
    exact hthin.setStage _ hc (by simp [Call.Outstanding, hst])
  | checkProcAlive =>
    exact h.thin (.checkProcAlive h.tables h.only _) (h.tables.checkProcAlive (h.only.sweepsProducers _))
  | reBalanceTimer => exact h.thin (.rebalance h.tables.toAligned h.only) (h.tables.toAligned.rebalance h.only)

end TasksInv

theorem tasksInv_of_reaches {s : State} (h : DaemonReaches TasksKept s) : TasksInv s := by
  refine h.induct ?_ fun _ _ _ hi hok hs => hi.keep hok hs
  have hnone : ∀ (id : UInt64) (p : ProducerState), ({} : State).daemon.gSvrId2ProducerState.find? id ≠ some p :=
    fun _ _ h => nomatch h
  refine ⟨⟨⟨fun id => by simp, fun id p hp => absurd hp (hnone id p), ?_⟩, ?_, ?_⟩, ?_,
    fun id p hp => absurd hp (hnone id p), fun id p hp => absurd hp (hnone id p), by simp, by simp,
    fun id _ p _ hp => absurd hp (hnone id p), fun id p hp => absurd hp (hnone id p), by simp⟩
  · exact fun id hid => absurd hid (OrdMap.not_mem_empty id)
  · exact fun x hx => nomatch hx
  · exact fun id hid => absurd hid (OrdMap.not_mem_empty id)
  · exact fun x hx => nomatch hx

/-- In every run whose steps meet `TasksKept` the task accounting of every producer is exact. -/
theorem tasks_exact {s : State} (h : DaemonReaches TasksKept s) : s.TasksExact := (tasksInv_of_reaches h).exact

theorem tasks_exact_two_producers : ∃ s, DaemonReaches TasksKept s ∧
    (s.calls.map (·.stage) = [.succeeded, .failCounted]) ∧ s.TasksExact := by
  obtain ⟨s, hs, hst⟩ := DaemonReaches.of_events TasksKept
    (fun s => s.calls.map (·.stage) = [.succeeded, .failCounted])
    [registerAs producerName, registerAs producerName, .beginPush ⟨1, 0, 8191⟩, .pushLoop 0 0, .pushLoop 0 0,
      .completion 0 (.reply .success), .completion 1 .rpcFail, .handleCompletion 0, .handleCompletion 1]
    (by decide +kernel)
  exact ⟨s, hs, hst, tasks_exact hs⟩

/-- The producer 6 falls silent with a call in flight and is swept; the next registration is given the id 6
    again, and the completion of the old call decreases its count of 0. -/
theorem tasks_not_exact : ∃ s, DaemonReaches AnyEvent s ∧
    (∃ p ∈ s.daemon.gSvrId2ProducerState.find? 6, p.curTaskCount = 2 ^ 32 - 1) ∧
    (∀ c ∈ s.calls, c.svrId = 6 → ¬c.Outstanding) ∧ ¬s.TasksExact := by
  obtain ⟨s, hs, ⟨p, hp, hcount⟩, hout, hzero⟩ := DaemonReaches.of_events AnyEvent
    (fun s => (∃ p ∈ s.daemon.gSvrId2ProducerState.find? 6, p.curTaskCount = 2 ^ 32 - 1) ∧
      (∀ c ∈ s.calls, c.svrId = 6 → ¬c.Outstanding) ∧
      ∀ p ∈ s.daemon.gSvrId2ProducerState.find? 6, outstanding s.calls p.producerCaller = 0)
    [registerAs producerName, registerAs producerName, .beginPush ⟨1, 0, 8191⟩, .pushLoop 0 0, .pushLoop 0 0,
      .heartBeat ⟨5⟩ 20, .checkProcAlive 20, registerAs producerName, .completion 1 (.reply .success),
      .handleCompletion 1]
    (by decide +kernel)
  refine ⟨s, hs, ⟨p, hp, hcount⟩, hout, fun hexact => ?_⟩
  have := hexact.count 6 p hp
  rw [hzero p hp, hcount] at this
  exact absurd this (by decide)

end PushSystem
