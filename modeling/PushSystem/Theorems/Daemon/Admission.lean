import PushSystem.Theorems.Daemon.Sending
import PushSystem.Theorems.Daemon.Sweep

/-! Admission control. The idle branch of `SelectProducerAndSend` sends without looking at `sendingCount`, so an
    idle producer counts as a slot that is taken: the calls in flight and the idle producers together stay
    within the limit that the other branch tests, as long as no producer is removed. -/

namespace PushSystem

namespace Daemon
variable {d d' : Daemon} {svrId : UInt64}

/-- The calls counted and the slots kept for idle producers are within three a producer and one. -/
def Admitted (d : Daemon) : Prop :=
  d.sendingCount.toNat + d.gSetIdleProducer.size ≤ 3 * d.gSvrId2ProducerState.size + 1

instance decidableAdmitted (d : Daemon) : Decidable d.Admitted :=
  inferInstanceAs (Decidable (d.sendingCount.toNat + d.gSetIdleProducer.size ≤ 3 * d.gSvrId2ProducerState.size + 1))

/-! ### What the idle set gains -/

theorem idle_heartBeat (d : Daemon) (req : HeartBeatRequest) (now : Int) :
    (d.heartBeat req now).2.gSetIdleProducer = d.gSetIdleProducer := by
  unfold Daemon.heartBeat
  split <;> rfl

theorem idle_loadBalance (d : Daemon) (req : LoadBalanceRequest) (score : ℚ) :
    (d.loadBalance req score).2.gSetIdleProducer = d.gSetIdleProducer := by
  unfold Daemon.loadBalance
  split <;> rfl

theorem idle_countFailure {id : UInt64} (h : id ∈ (d.countFailure svrId).gSetIdleProducer) : id ∈ d.gSetIdleProducer := by
  unfold Daemon.countFailure at h
  split at h
  · exact h
  · split at h
    · rw [rebalance_idle] at h
      exact ((OrdMap.mem_erase _ _ _).mp h).2
    · exact h

theorem idle_removeServer {procName : String} {id : UInt64} (h : id ∈ (d.removeServer svrId procName).gSetIdleProducer) :
    id ∈ d.gSetIdleProducer := by
  unfold Daemon.removeServer at h
  split at h
  · rw [rebalance_idle] at h
    exact ((OrdMap.mem_erase _ _ _).mp h).2
  · exact h

theorem idle_checkProcAlive {now : Int} {id : UInt64} (h : id ∈ (d.checkProcAlive now).gSetIdleProducer) :
    id ∈ d.gSetIdleProducer := by
  have hloop : ∀ (l : List (UInt64 × ServerInfo)) (d : Daemon),
      id ∈ (sweepLoop now l d).gSetIdleProducer → id ∈ d.gSetIdleProducer := by
    intro l
    induction l with
    | nil => exact fun _ h => h
    | cons x l ih =>
      intro d h
      rw [sweepLoop] at h
      split at h
      · exact idle_removeServer (ih _ h)
      · exact ih _ h
  exact hloop _ _ h

/-! ### What a critical section keeps -/

namespace Admitted

/-- Neither the count nor the idle set grows, and no producer goes. -/
theorem keeps (h : Admitted d) (hp : ∀ id, id ∈ d.gSvrId2ProducerState → id ∈ d'.gSvrId2ProducerState)
    (hidle : ∀ id, id ∈ d'.gSetIdleProducer → id ∈ d.gSetIdleProducer) (hc : d'.sendingCount = d.sendingCount) :
    Admitted d' := by
  have hsize := OrdMap.size_le_of_mem hp
  have hidle := OrdMap.size_le_of_mem hidle
  unfold Admitted at h ⊢
  rw [hc]
  omega

/-- A new producer is idle, and brings room for three calls. -/
theorem clientRegister (h : Admitted d) {req : ClientRegisterRequest} {peer : String} {draw : Fin (2 ^ 31)} {now : Int}
    (hnew : producerName = req.procName → d.newServerId draw ∉ d.gSvrId2ProducerState) :
    Admitted (d.clientRegister req peer draw now).2 := by
  rcases eq_or_ne producerName req.procName with hn | hn
  · rw [clientRegister_of_eq _ _ _ _ hn]
    generalize hd : addProducer _ _ _ = d'
    have hc : d'.sendingCount = d.sendingCount := hd ▸ rfl
    have hidle : d'.gSetIdleProducer.size ≤ d.gSetIdleProducer.size + 1 := hd ▸ OrdMap.size_set_le _ _ _
    have hp : d'.gSvrId2ProducerState.size = d.gSvrId2ProducerState.size + 1 :=
      hd ▸ OrdMap.size_set_of_not_mem _ (hnew hn)
    have hadd : Admitted d' := by
      unfold Admitted at h ⊢
      rw [hc]
      omega
    exact hadd.keeps (fun id hid => mem_producers_rebalance.mpr (Or.inl hid))
      (fun id hid => rebalance_idle (d := d') ▸ hid) rebalance_sendingCount
  · rw [clientRegister_of_ne hn]
    exact h

theorem toNat_add_one_le (n : UInt32) : (n + 1).toNat ≤ n.toNat + 1 := by
  rw [UInt32.toNat_add]
  exact Nat.mod_le _ _

theorem size_countSend (d : Daemon) (svrId : UInt64) :
    d.gSvrId2ProducerState.size ≤ (d.countSend svrId).gSvrId2ProducerState.size :=
  OrdMap.size_le_of_mem fun _ hid => (OrdMap.mem_set _ _ _ _).mpr (Or.inr hid)

/-- The idle branch gives the slot of the producer it takes; the other one tests for a free slot. -/
theorem sends (h : Admitted d) {draw : Fin 10001} (hlt : d.gSvrId2ProducerState.size < 2 ^ 30)
    (hs : d.Sends draw svrId d') : Admitted d' := by
  have hcount := toNat_add_one_le d.sendingCount
  cases hs with
  | idle hsel =>
    have hsize := size_countSend { d with gSetIdleProducer := d.gSetIdleProducer.erase svrId } svrId
    have hidle : (d.gSetIdleProducer.erase svrId).size + 1 = d.gSetIdleProducer.size :=
      OrdMap.size_erase (select_idle hsel)
    unfold Admitted at h ⊢
    show (d.sendingCount + 1).toNat + (d.gSetIdleProducer.erase svrId).size ≤ _
    unfold sendIdle
    simp only at hsize
    omega
  | ranked hsel =>
    obtain ⟨⟨hnone, hroom, -⟩, -⟩ := select_ranked hsel
    have hsize := size_countSend d svrId
    have hidle : d.gSetIdleProducer.size = 0 := OrdMap.size_eq_zero_iff.mpr (OrdMap.first?_eq_none_iff.mp hnone)
    have hroom : d.sendingCount.toNat ≤ 3 * d.gSvrId2ProducerState.size := by
      rw [UInt32.le_iff_toNat_le, UInt32.toNat_mul, UInt32.toNat_ofNat'] at hroom
      simp only [UInt32.reduceToNat, Nat.reducePow, Nat.mul_mod_mod] at hroom
      omega
    show (d.sendingCount + 1).toNat + d.gSetIdleProducer.size ≤ _
    omega

/-- A completion frees a slot, which its producer may take as an idle one. -/
theorem decreaseProducerTask (h : Admitted d) (hpos : d.sendingCount ≠ 0) : Admitted (d.decreaseProducerTask svrId) := by
  have hcount : (d.sendingCount - 1).toNat + 1 = d.sendingCount.toNat := by
    have hne : d.sendingCount.toNat ≠ 0 := fun h => hpos (UInt32.toNat_inj.mp h)
    have hle : (1 : UInt32) ≤ d.sendingCount := by
      rw [UInt32.le_iff_toNat_le]
      exact Nat.one_le_iff_ne_zero.mpr hne
    rw [UInt32.toNat_sub_of_le _ _ hle]
    exact Nat.sub_add_cancel (Nat.one_le_iff_ne_zero.mpr hne)
  unfold Admitted at h ⊢
  cases hp : d.gSvrId2ProducerState.find? svrId with
  | none =>
    rw [decreaseProducerTask_of_none hp]
    simp only
    omega
  | some p =>
    rw [decreaseProducerTask_of_some hp]
    have hsize : d.gSvrId2ProducerState.size ≤
        (d.gSvrId2ProducerState.set svrId { p with curTaskCount := p.curTaskCount - 1 }).size :=
      OrdMap.size_le_of_mem fun _ hid => (OrdMap.mem_set _ _ _ _).mpr (Or.inr hid)
    have hidle : (if 0 ≥ p.curTaskCount - 1 then d.gSetIdleProducer.set svrId () else d.gSetIdleProducer).size ≤
        d.gSetIdleProducer.size + 1 := by
      split
      · exact OrdMap.size_set_le _ _ _
      · exact Nat.le_succ _
    simp only
    omega

end Admitted

end Daemon

/-! ### Steps -/

/-- The event registers a producer under the id of another one, which loses its entry to it. -/
def State.Replaces (s : State) : Event → Prop
  | .clientRegister req _ draw _ => producerName = req.procName ∧ s.daemon.newServerId draw ∈ s.daemon.gSvrId2ProducerState
  | _ => False

instance decidableReplaces (s : State) : (e : Event) → Decidable (s.Replaces e)
  | .clientRegister req _ draw _ => inferInstanceAs (Decidable (producerName = req.procName ∧
      s.daemon.newServerId draw ∈ s.daemon.gSvrId2ProducerState))
  | .heartBeat .. | .loadBalance .. | .beginPush _ | .pushLoop .. | .resendLoop .. | .completion .. |
    .handleCompletion _ | .checkProcAlive _ | .reBalanceTimer => isFalse not_false

/-- The step takes a producer out of `gSvrId2ProducerState`, or puts another one in its place. -/
def State.Removes (s : State) (e : Event) (t : State) : Prop :=
  (∃ x ∈ s.daemon.gSvrId2ProducerState.entries, x.1 ∉ t.daemon.gSvrId2ProducerState) ∨ s.Replaces e

instance decidableRemoves (s : State) (e : Event) (t : State) : Decidable (s.Removes e t) :=
  inferInstanceAs (Decidable ((∃ x ∈ s.daemon.gSvrId2ProducerState.entries, x.1 ∉ t.daemon.gSvrId2ProducerState) ∨
    s.Replaces e))

section Step
variable {s t : State} {e : Event}

theorem State.outstandingCalls_setCall_le {i : Nat} {c c' : Call} (hc : s.calls[i]? = some c)
    (hout : c'.Outstanding → c.Outstanding) : (s.setCall i c').outstandingCalls ≤ s.outstandingCalls := by
  have hset := Count.countP_set (p := fun c => decide c.Outstanding) (b := c') hc
  have hle : (if decide c'.Outstanding = true then 1 else 0) ≤ if decide c.Outstanding = true then 1 else 0 := by
    by_cases h : c'.Outstanding
    · simp [h, hout h]
    · simp [h]
  show (s.calls.set i c').countP _ ≤ s.calls.countP _
  omega

/-- A completion that runs `DecreaseProducerTask` is outstanding until then. -/
theorem outstandingCalls_ne_zero {i : Nat} {c : Call} (hc : s.calls[i]? = some c) (hdec : c.Decreases) :
    s.outstandingCalls ≠ 0 := fun h =>
  List.countP_eq_zero.mp h c (List.mem_of_getElem? hc) (decide_eq_true hdec.outstanding)

/-- A step that removes no producer stays within the limit, unless `sendingCount` is zero while calls are
    outstanding. -/
theorem Admitted.step (h : s.daemon.Admitted) (hs : State.Steps s e t) (hkeep : ¬s.Removes e t)
    (hlt : s.daemon.gSvrId2ProducerState.size < 2 ^ 30) (hzero : s.daemon.sendingCount = 0 → s.outstandingCalls = 0) :
    t.daemon.Admitted := by
  have hp : ∀ id, id ∈ s.daemon.gSvrId2ProducerState → id ∈ t.daemon.gSvrId2ProducerState := by
    intro id hid
    by_contra hno
    obtain ⟨p, hp⟩ := OrdMap.mem_iff_entry.mp hid
    exact hkeep (Or.inl ⟨_, hp, hno⟩)
  cases hs with
  | clientRegister => exact h.clientRegister fun hn hmem => hkeep (Or.inr ⟨hn, hmem⟩)
  | heartBeat => exact h.keeps hp (fun _ hid => Daemon.idle_heartBeat _ _ _ ▸ hid) (Daemon.sendingCount_heartBeat _ _ _)
  | loadBalance =>
    exact h.keeps hp (fun _ hid => Daemon.idle_loadBalance _ _ _ ▸ hid) (Daemon.sendingCount_loadBalance _ _ _)
  | beginPush | pushWait | resendWait | pushPastEnd | resendPastEnd | reply | rpcFail => exact h
  | pushSend _ _ hd => exact h.sends hlt hd
  | resendSend _ _ _ hd => exact h.sends hlt hd
  | succeed hc hst =>
    exact h.decreaseProducerTask fun h0 => outstandingCalls_ne_zero hc (Or.inl ⟨_, hst⟩) (hzero h0)
  | resend hc hst =>
    exact h.decreaseProducerTask fun h0 =>
      outstandingCalls_ne_zero hc (hst.imp_left fun hst => ⟨_, hst⟩) (hzero h0)
  | countFailure => exact h.keeps hp (fun _ => Daemon.idle_countFailure) (Daemon.sendingCount_countFailure _ _)
  | checkProcAlive => exact h.keeps hp (fun _ => Daemon.idle_checkProcAlive) (Daemon.sendingCount_checkProcAlive _ _)
  | reBalanceTimer =>
    exact h.keeps hp (fun _ hid => Daemon.rebalance_idle (d := s.daemon) ▸ hid) Daemon.rebalance_sendingCount

/-- A step sends one call at most. -/
theorem outstandingCalls_step_le (hs : State.Steps s e t) : t.outstandingCalls ≤ s.outstandingCalls + 1 := by
  cases hs with
  | clientRegister | heartBeat | loadBalance | beginPush | pushWait | resendWait | pushPastEnd | resendPastEnd |
    checkProcAlive | reBalanceTimer => exact Nat.le_succ _
  | pushSend => exact (Count.countP_snoc (p := fun c => decide (Call.Outstanding c))).le
  | resendSend hc hst =>
    refine (State.outstandingCalls_setCall_le (Count.getElem?_snoc_of_some hc) ?_).trans
      (Count.countP_snoc (p := fun c => decide (Call.Outstanding c))).le
    exact fun hout => absurd rfl (hout.1 _)
  | reply hc hst | rpcFail hc hst | countFailure hc hst =>
    exact (State.outstandingCalls_setCall_le hc fun _ => by simp [Call.Outstanding, hst]).trans (Nat.le_succ _)
  | succeed hc => exact (State.outstandingCalls_setCall_le hc fun hout => absurd rfl hout.2).trans (Nat.le_succ _)
  | resend hc => exact (State.outstandingCalls_setCall_le hc fun hout => absurd rfl (hout.1 _)).trans (Nat.le_succ _)

end Step

/-! ### Runs -/

/-- There are fewer than 2^30 producers and the step removes none. -/
def Admits (s : State) (e : Event) : Prop :=
  s.daemon.gSvrId2ProducerState.size < 2 ^ 30 ∧ ∀ t ∈ s.step e, ¬s.Removes e t

instance decidableAdmits (s : State) (e : Event) : Decidable (Admits s e) :=
  inferInstanceAs (Decidable (s.daemon.gSvrId2ProducerState.size < 2 ^ 30 ∧ ∀ t ∈ s.step e, ¬s.Removes e t))

/-- The limit holds and the count is exact. -/
structure AdmissionInv (s : State) : Prop where
  admitted : s.daemon.Admitted
  sending : SendingInv s
  count : s.daemon.sendingCount.toNat = s.outstandingCalls

theorem AdmissionInv.keep {s t : State} {e : Event} (h : AdmissionInv s)
    (hlt : s.daemon.gSvrId2ProducerState.size < 2 ^ 30) (hs : State.Steps s e t) (hkeep : ¬s.Removes e t) :
    AdmissionInv t where
  admitted := Admitted.step h.admitted hs hkeep hlt fun h0 => by rw [← h.count, h0]; rfl
  sending := h.sending.keep hs
  count := by
    have hadm := h.admitted
    have hle := outstandingCalls_step_le hs
    have hsmall : t.outstandingCalls < 2 ^ 32 := by
      unfold Daemon.Admitted at hadm
      have := h.count
      omega
    rw [h.sending.keep hs, UInt32.toNat_ofNat', Nat.mod_eq_of_lt hsmall]

/-- A step that removes no producer keeps the calls in flight and the idle producers within the limit, unless
    `sendingCount` has come round to zero with calls outstanding; and in every run that removes none they are within
    it, and so is `sendingCount`. -/
theorem admission :
    (∀ (s t : State) (e : Event), s.step e = some t → ¬s.Removes e t → s.daemon.gSvrId2ProducerState.size < 2 ^ 30 →
      (s.daemon.sendingCount = 0 → s.outstandingCalls = 0) → s.daemon.Admitted → t.daemon.Admitted) ∧
    ∀ s, DaemonReaches Admits s →
      s.daemon.Admitted ∧ s.daemon.sendingCount.toNat ≤ 3 * s.daemon.gSvrId2ProducerState.size + 1 := by
  refine ⟨fun s t e hs hkeep hlt hzero h => Admitted.step h (State.steps_of_step hs) hkeep hlt hzero, fun s h => ?_⟩
  have hinv : AdmissionInv s := by
    refine Runs.Reaches.invariant h ⟨by decide, rfl, rfl⟩ fun s e t hi hs => ?_
    exact hi.keep hs.1.1 (State.steps_of_step hs.2) (hs.1.2 t hs.2)
  refine ⟨hinv.admitted, ?_⟩
  have hadm := hinv.admitted
  unfold Daemon.Admitted at hadm
  omega

theorem admission_four : ∃ s, DaemonReaches Admits s ∧ s.daemon.sendingCount = 4 ∧ s.daemon.gSvrId2ProducerState.size = 1 ∧
    s.daemon.sendingCount.toNat ≤ 3 * s.daemon.gSvrId2ProducerState.size + 1 := by
  obtain ⟨s, hs, hcount, hsize⟩ := DaemonReaches.of_events Admits
    (fun s => s.daemon.sendingCount = 4 ∧ s.daemon.gSvrId2ProducerState.size = 1)
    [registerAs producerName, .beginPush ⟨1, 0, 99999⟩, .pushLoop 0 0, .pushLoop 0 0, .pushLoop 0 0, .pushLoop 0 0,
      .pushLoop 0 0] (by decide +kernel)
  exact ⟨s, hs, hcount, hsize, (admission.2 s hs).2⟩

/-! ### Stranded calls -/

/-- Only producers register, and there are fewer than 2^30. -/
def FewProducers (s : State) (e : Event) : Prop :=
  (match e with
    | .clientRegister req _ _ _ => req.procName = producerName
    | _ => True) ∧ s.daemon.gSvrId2ProducerState.size < 2 ^ 30

/-- No server is left, the calls were sent to producers that are gone, and one push goes on for ever. -/
def stranded (n : UInt32) (stubs : Nat) (curUid : UInt64) (calls : List Call) (registered : OrdMap UInt64 Stub) :
    State where
  daemon := { sendingCount := n, stubs }
  pushes := [⟨⟨1, 0, 18446744073709551615⟩, curUid⟩]
  calls
  registered

theorem le_maxUInt64 (k : UInt64) : k ≤ 18446744073709551615 :=
  UInt64.le_iff_toNat_le.mpr (Nat.le_of_lt_succ k.toNat_lt)

/-- A producer registers, is sent a chunk and is swept away: one more call is in flight. -/
theorem stranded_round {n : UInt32} {stubs : Nat} {curUid : UInt64} {calls : List Call} {registered : OrdMap UInt64 Stub}
    (h : DaemonReaches FewProducers (stranded n stubs curUid calls registered)) :
    ∃ curUid' registered' c, c.stage = .inFlight ∧
      DaemonReaches FewProducers (stranded (n + 1) (stubs + 1) curUid' (calls ++ [c]) registered') := by
  let s := stranded n stubs curUid calls registered
  let t := (s.clientRegister ⟨"50053", producerName, 601⟩ "ipv4:10.0.0.1:4000" 5 0).2
  let u := (t.sent (t.daemon.sendIdle 5) 5 ⟨1, 0, 18446744073709551615⟩ 0 curUid).setPush 0
    ⟨⟨1, 0, 18446744073709551615⟩, curUid + uidCountPerTime⟩
  have hpush : t.step (.pushLoop 0 0) = some u := by
    show (if curUid ≤ 18446744073709551615 then some u else none) = some u
    rw [if_pos (le_maxUInt64 curUid)]
  have hsize : (1 : Nat) < 2 ^ 30 := by decide
  have hregister : DaemonReaches FewProducers t := h.step (e := registerAs producerName) ⟨⟨rfl, Nat.two_pow_pos 30⟩, rfl⟩
  have hsent : DaemonReaches FewProducers u := hregister.step ⟨⟨trivial, hsize⟩, hpush⟩
  exact ⟨_, _, _, rfl, hsent.step (e := .checkProcAlive 11) ⟨⟨trivial, hsize⟩, rfl⟩⟩

theorem exists_stranded (n : Nat) : ∃ stubs curUid calls registered,
    DaemonReaches FewProducers (stranded (UInt32.ofNat n) stubs curUid calls registered) ∧
      calls.length = n ∧ ∀ c ∈ calls, c.stage = .inFlight := by
  induction n with
  | zero =>
    have hpush := Runs.Reaches.refl.step (R := Runs.under (Runs.ofFun State.step) FewProducers)
      (e := .beginPush ⟨1, 0, 18446744073709551615⟩) (s := {}) ⟨⟨trivial, Nat.two_pow_pos 30⟩, rfl⟩
    exact ⟨0, 0, [], ∅, hpush, rfl, fun c hc => (List.not_mem_nil hc).elim⟩
  | succ n ih =>
    obtain ⟨stubs, curUid, calls, registered, h, hlen, hcalls⟩ := ih
    obtain ⟨curUid', registered', c, hc, h⟩ := stranded_round h
    refine ⟨_, _, _, _, UInt32.ofNat_add n 1 ▸ h, by simp [hlen], fun x hx => ?_⟩
    rcases List.mem_append.mp hx with hx | hx
    · exact hcalls x hx
    · exact List.mem_singleton.mp hx ▸ hc

/-- With 2^32 calls left behind by producers that were swept away, `sendingCount` is 0, and the first of them to
    complete takes it to 2^32 - 1. -/
theorem admission_wraps : ¬∀ (s t : State) (e : Event), DaemonReaches FewProducers s → s.step e = some t →
    ¬s.Removes e t → s.daemon.Admitted → t.daemon.Admitted := by
  intro hall
  obtain ⟨stubs, curUid, calls, registered, h, hlen, hcalls⟩ := exists_stranded (2 ^ 32)
  cases calls with
  | nil => cases hlen
  | cons c calls =>
    have hc : c.stage = .inFlight := hcalls c List.mem_cons_self
    obtain ⟨svrId, stub, request, push, stage⟩ := c
    obtain rfl : stage = .inFlight := hc
    have hzero : UInt32.ofNat (2 ^ 32) = 0 := by decide
    rw [hzero] at h
    have hreply : DaemonReaches FewProducers (stranded 0 stubs curUid (⟨svrId, stub, request, push, .gotReply .success⟩ ::
        calls) registered) := h.step (e := .completion 0 (.reply .success)) ⟨⟨trivial, Nat.two_pow_pos 30⟩, rfl⟩
    have hkeep : ∀ s t : State, s.daemon.gSvrId2ProducerState = ∅ → ¬s.Removes (.handleCompletion 0) t := by
      rintro s t hs (⟨x, hx, -⟩ | hreplace)
      · rw [hs] at hx
        cases hx
      · exact hreplace
    have hadmitted := hall _ _ (.handleCompletion 0) hreply rfl (hkeep _ _ rfl) (Nat.zero_le _)
    have hlt : ¬(4294967295 + 0 ≤ 3 * 0 + 1) := by decide
    exact hlt hadmitted

/-! ### An id in use -/

/-- The servers are the producers `ids`, and `idleIds` of them are idle; `n` calls are counted, and one push goes on for
    ever. -/
structure Staffed (ids idleIds : Finset UInt64) (n : UInt32) (s : State) : Prop where
  reached : DaemonReaches FewProducers s
  defined : s.undefined = false
  tables : s.daemon.Consistent s.registered
  only : s.daemon.OnlyProducers
  known : ∀ id, id ∈ s.daemon.gSvrId2SvrInfo ↔ id ∈ ids
  idle : ∀ id, id ∈ s.daemon.gSetIdleProducer ↔ id ∈ idleIds
  count : s.daemon.sendingCount = n
  push : ∃ curUid, s.pushes = [⟨⟨1, 0, 18446744073709551615⟩, curUid⟩]

namespace Staffed
variable {ids idleIds : Finset UInt64} {n : UInt32} {s : State} {id : UInt64}

theorem mem_producers (h : Staffed ids idleIds n s) (id : UInt64) : id ∈ s.daemon.gSvrId2ProducerState ↔ id ∈ ids := by
  rw [← h.known, h.tables.keys, OrdMap.mem_iff]
  exact ⟨fun ⟨info, hinfo, _⟩ => ⟨info, hinfo⟩,
    fun ⟨info, hinfo⟩ => ⟨info, hinfo, Daemon.onlyProducers_iff.mp h.only id info hinfo⟩⟩

theorem admitted_iff (h : Staffed ids idleIds n s) :
    s.daemon.Admitted ↔ n.toNat + idleIds.card ≤ 3 * ids.card + 1 := by
  rw [Daemon.Admitted, h.count, OrdMap.size_eq_card_of_mem h.idle, OrdMap.size_eq_card_of_mem h.mem_producers]

theorem step (h : Staffed ids idleIds n s) (hids : ids.card < 2 ^ 30) {e : Event} {t : State} (he : s.stepEvent e = some t)
    (hn : ∀ req peer draw now, e = .clientRegister req peer draw now → req.procName = producerName) :
    DaemonReaches FewProducers t := by
  refine h.reached.step (e := e) ⟨⟨?_, OrdMap.size_eq_card_of_mem h.mem_producers ▸ hids⟩, ?_⟩
  · cases e with
    | clientRegister => exact hn _ _ _ _ rfl
    | heartBeat | loadBalance | beginPush | pushLoop | resendLoop | completion | handleCompletion | checkProcAlive |
      reBalanceTimer => trivial
  · simp only [Runs.ofFun, State.step, h.defined, Bool.false_eq_true, if_false, he]

theorem register (h : Staffed ids idleIds n s) (hids : ids.card < 2 ^ 30) (draw : Fin (2 ^ 31)) (now : Int) :
    Staffed (insert (s.daemon.newServerId draw) ids) (insert (s.daemon.newServerId draw) idleIds) n
      (s.clientRegister ⟨"50053", producerName, 601⟩ "ipv4:10.0.0.1:4000" draw now).2 where
  reached := h.step hids (e := .clientRegister ⟨"50053", producerName, 601⟩ "ipv4:10.0.0.1:4000" draw now) rfl
    fun _ _ _ _ he => (Event.clientRegister.inj he).1 ▸ rfl
  defined := h.defined
  tables := h.tables.clientRegister (fun _ => h.only) "ipv4:10.0.0.1:4000" draw now
  only := by
    rw [Daemon.onlyProducers_iff]
    intro id info hinfo
    obtain ⟨x, hx, rfl⟩ := Option.map_eq_some_iff.mp ((Daemon.find?_clientRegister ..).symm.trans hinfo)
    have hname : x.procName = producerName := by
      rw [OrdMap.find?_insertNew] at hx
      split at hx
      next => exact Option.some.inj hx ▸ rfl
      next => exact Daemon.onlyProducers_iff.mp h.only id x hx
    split <;> exact hname
  known id := by
    rw [Finset.mem_insert, ← h.known]
    exact Daemon.mem_infos_clientRegister ..
  idle id := by
    rw [Finset.mem_insert, ← h.idle]
    show id ∈ (s.daemon.clientRegister _ _ draw now).2.gSetIdleProducer ↔ _
    rw [Daemon.clientRegister_of_eq _ _ _ _ rfl, Daemon.rebalance_idle]
    exact OrdMap.mem_set ..
  count := (Daemon.sendingCount_clientRegister ..).trans h.count
  push := h.push

theorem newServerId_eq (h : Staffed ids idleIds n s) (id : UInt64) (hid : id ∈ ids) (hle : ∀ k ∈ ids, k ≤ id)
    (draw : Fin (2 ^ 31)) : s.daemon.newServerId draw = id + 1 := by
  have hmem := (h.known id).mpr hid
  obtain ⟨info, hinfo⟩ := OrdMap.mem_iff_entry.mp hmem
  unfold Daemon.newServerId
  cases hlast : s.daemon.gSvrId2SvrInfo.last? with
  | none => exact absurd hmem (OrdMap.last?_eq_none_iff.mp hlast id)
  | some x =>
    have hx := hle x.1 ((h.known x.1).mp (OrdMap.mem_of_entry (OrdMap.mem_of_last? hlast)))
    simp [le_antisymm hx (OrdMap.le_last? hlast hinfo)]

/-- A sweep removes the one of two producers that has been silent. -/
theorem sweep {new old : UInt64} (h : Staffed {new, old} {new, old} n s) {info info' : ServerInfo} (now : Int)
    (hne : old ≠ new) (hnew : s.daemon.gSvrId2SvrInfo.find? new = some info)
    (hold : s.daemon.gSvrId2SvrInfo.find? old = some info') (hheard : ¬now - info.timestamp > 10)
    (hsilent : now - info'.timestamp > 10) :
    Staffed {new} {new} n { s with daemon := s.daemon.checkProcAlive now } := by
  have htables := h.tables.checkProcAlive (h.only.sweepsProducers now)
  have honly := (Daemon.Thins.checkProcAlive h.tables h.only now).only h.only
  have hknown : ∀ id, id ∈ (s.daemon.checkProcAlive now).gSvrId2SvrInfo ↔ id ∈ ({new} : Finset UInt64) := by
    intro id
    rw [OrdMap.mem_iff, Daemon.find?_checkProcAlive, Finset.mem_singleton]
    rcases eq_or_ne id new with rfl | hid
    · rw [hnew, Option.filter_some, if_pos (decide_eq_true hheard)]
      exact ⟨fun _ => rfl, fun _ => ⟨info, rfl⟩⟩
    · refine ⟨fun ⟨x, hx⟩ => ?_, fun heq => absurd heq hid⟩
      obtain ⟨hx, hkept⟩ := Option.filter_eq_some_iff.mp hx
      have hmem := (h.known id).mp (OrdMap.mem_iff.mpr ⟨x, hx⟩)
      obtain rfl : id = old := by simpa [hid] using hmem
      obtain rfl := Option.some.inj (hold.symm.trans hx)
      exact absurd hsilent (of_decide_eq_true hkept)
  refine ⟨h.step (Finset.card_le_two.trans_lt (by decide)) (e := .checkProcAlive now) rfl (by simp), h.defined, htables,
    honly, hknown, fun id => ?_, (Daemon.sendingCount_checkProcAlive ..).trans h.count, h.push⟩
  constructor
  · intro hid
    obtain ⟨info, hinfo, -⟩ := (htables.keys id).mp (htables.idle id hid)
    exact (hknown id).mp (OrdMap.mem_iff.mpr ⟨info, hinfo⟩)
  · intro hid
    obtain rfl := Finset.mem_singleton.mp hid
    obtain ⟨p, hp⟩ := OrdMap.mem_iff.mp ((h.mem_producers id).mpr (Finset.mem_insert_self ..))
    refine (Daemon.checkProcAlive_other hp fun x hx hlate => ?_).2.mpr ((h.idle id).mpr (Finset.mem_insert_self ..))
    obtain rfl := Option.some.inj (hnew.symm.trans hx)
    exact absurd hlate hheard

/-- The only producer is swept away after another one has registered. -/
theorem next (h : Staffed {id} {id} n s) : ∃ t, Staffed {id + 1} {id + 1} n t := by
  obtain ⟨info, hinfo⟩ := OrdMap.mem_iff.mp ((h.known id).mpr (Finset.mem_singleton_self id))
  have hnew : s.daemon.newServerId 0 = id + 1 :=
    h.newServerId_eq id (Finset.mem_singleton_self id) (fun k hk => (Finset.mem_singleton.mp hk).le) 0
  have hne : id ≠ id + 1 := by simp
  have hfresh : id + 1 ∉ s.daemon.gSvrId2SvrInfo := by simp [h.known]
  have ht := h.register (by simp) 0 (info.timestamp + 11)
  rw [hnew] at ht
  have hfind := s.daemon.find?_clientRegister ⟨"50053", producerName, 601⟩ "ipv4:10.0.0.1:4000" 0 (info.timestamp + 11)
  simp only [hnew, OrdMap.find?_insertNew] at hfind
  obtain ⟨joined, hjoined, hstamp⟩ : ∃ x, (s.daemon.clientRegister ⟨"50053", producerName, 601⟩ "ipv4:10.0.0.1:4000" 0
      (info.timestamp + 11)).2.gSvrId2SvrInfo.find? (id + 1) = some x ∧ x.timestamp = info.timestamp + 11 := by
    rw [hfind]
    simp [hfresh, ServerInfo.make]
  have hold := (hfind id).trans (show _ = some info by simp [hinfo])
  exact ⟨_, ht.sweep (info.timestamp + 11) hne hjoined hold (by omega) (by omega)⟩

/-- The idle producer with the least id is sent the next chunk. -/
theorem send (h : Staffed ids idleIds n s) (hids : ids.card < 2 ^ 30) (id : UInt64) (hid : id ∈ idleIds)
    (hle : ∀ k ∈ idleIds, id ≤ k) : ∃ t, Staffed ids (idleIds.erase id) (n + 1) t := by
  have hsel : s.daemon.select 0 = .idle id := by
    have hmem := (h.idle id).mpr hid
    obtain ⟨v, hv⟩ := OrdMap.mem_iff_entry.mp hmem
    cases hfirst : s.daemon.gSetIdleProducer.first? with
    | none => exact absurd hmem (OrdMap.first?_eq_none_iff.mp hfirst id)
    | some x =>
      have hx := hle x.1 ((h.idle x.1).mp (OrdMap.mem_of_entry (OrdMap.mem_of_first? hfirst)))
      simp [Daemon.select, hfirst, le_antisymm (OrdMap.first?_le hfirst hv) hx]
  obtain ⟨curUid, hpush⟩ := h.push
  have hproducer := h.tables.idle id ((h.idle id).mpr hid)
  refine ⟨(s.sent (s.daemon.sendIdle id) id ⟨1, 0, 18446744073709551615⟩ 0 curUid).setPush 0
    ⟨⟨1, 0, 18446744073709551615⟩, curUid + uidCountPerTime⟩, h.step hids (e := .pushLoop 0 0) ?_ (by simp), h.defined,
    h.tables.sendIdle hproducer, h.only, h.known, fun k => ?_, congrArg (· + 1) h.count, curUid + uidCountPerTime, ?_⟩
  · simp [State.stepEvent, hpush, le_maxUInt64, State.selectProducerAndSend, hsel, State.sent]
  · rw [Finset.mem_erase, ← h.idle]
    exact OrdMap.mem_erase ..
  · simp [State.setPush, State.sent, hpush]

end Staffed

/-- Calls are left behind, and then one producer follows the other until the ids are used up. -/
theorem exists_staffed (k : Nat) : ∃ s, Staffed {UInt64.ofNat k} {UInt64.ofNat k} 5 s := by
  induction k with
  | zero =>
    obtain ⟨stubs, curUid, calls, registered, h, -⟩ := exists_stranded 5
    have hempty : Staffed ∅ ∅ 5 (stranded 5 stubs curUid calls registered) := by
      refine ⟨h, rfl, ⟨⟨fun id => ?_, fun id p hp => ?_, fun id hid => ?_⟩, fun x hx => ?_, fun id hid => ?_⟩,
        fun x hx => ?_, fun id => ?_, fun id => ?_, rfl, curUid, rfl⟩
      · simp [stranded]
      · cases hp
      · cases hid
      · cases hx
      · cases hid
      · cases hx
      · simp [stranded]
      · simp [stranded]
    exact ⟨_, hempty.register (by simp) 0 0⟩
  | succ k ih =>
    obtain ⟨s, h⟩ := ih
    exact UInt64.ofNat_add k 1 ▸ h.next

/-- After the id 2^64 - 1 a producer is given the id 0, and so is the next one: it takes the place of a producer with a
    call in flight, and is idle. -/
theorem admission_replaces : ¬∀ (s t : State) (e : Event), DaemonReaches FewProducers s → s.step e = some t →
    (∀ x ∈ s.daemon.gSvrId2ProducerState.entries, x.1 ∈ t.daemon.gSvrId2ProducerState) →
      (s.daemon.sendingCount = 0 → s.outstandingCalls = 0) → s.daemon.Admitted → t.daemon.Admitted := by
  intro hall
  let register : Event := .clientRegister ⟨"50053", producerName, 601⟩ "ipv4:10.0.0.1:4000" 0 0
  obtain ⟨s, hs⟩ : ∃ s, Staffed {18446744073709551615} {18446744073709551615} 5 s := exists_staffed 18446744073709551615
  have hlast : (18446744073709551615 : UInt64) + 1 = 0 := by decide
  obtain ⟨t, ht⟩ : ∃ t, Staffed {0, 18446744073709551615} {0, 18446744073709551615} 5 t := by
    have ht := hs.register (by simp) 0 0
    rw [hs.newServerId_eq 18446744073709551615 (by simp) fun k _ => le_maxUInt64 k, hlast] at ht
    exact ⟨_, ht⟩
  obtain ⟨u, hu⟩ := ht.send (by decide) 0 (by decide) fun _ _ => UInt64.zero_le
  obtain ⟨v, hv, hstep⟩ : ∃ v, Staffed {0, 0, 18446744073709551615} {0, 18446744073709551615} 6 v ∧
      u.step register = some v := by
    have hv := hu.register (by decide) 0 0
    rw [hu.newServerId_eq 18446744073709551615 (by simp) fun k _ => le_maxUInt64 k, hlast] at hv
    refine ⟨_, hv, ?_⟩
    simp only [State.step, hu.defined, Bool.false_eq_true, if_false]
    rfl
  have hkept : ∀ x ∈ u.daemon.gSvrId2ProducerState.entries, x.1 ∈ v.daemon.gSvrId2ProducerState := fun x hx =>
    (hv.mem_producers x.1).mpr (Finset.mem_insert_of_mem ((hu.mem_producers x.1).mp (OrdMap.mem_of_entry hx)))
  have hzero : u.daemon.sendingCount = 0 → u.outstandingCalls = 0 := fun h => absurd (hu.count.symm.trans h) (by decide)
  have hadmitted := hall u v register hu.reached hstep hkept hzero (hu.admitted_iff.mpr (by decide))
  exact absurd (hv.admitted_iff.mp hadmitted) (by decide)

end PushSystem
