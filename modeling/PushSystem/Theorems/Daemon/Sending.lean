import PushSystem.Theorems.Daemon.Tasks

/-! `sendingCount` is the number of calls whose completion has not yet run `DecreaseProducerTask`. Only the two
    dispatching branches and `DecreaseProducerTask` change it. -/

namespace PushSystem

/-! ### What leaves the count alone -/

namespace Daemon
variable (d : Daemon)

theorem sendingCount_heartBeat (req : HeartBeatRequest) (now : Int) :
    (d.heartBeat req now).2.sendingCount = d.sendingCount := by
  unfold Daemon.heartBeat
  split <;> rfl

theorem sendingCount_loadBalance (req : LoadBalanceRequest) (score : ℚ) :
    (d.loadBalance req score).2.sendingCount = d.sendingCount := by
  unfold Daemon.loadBalance
  split <;> rfl

theorem sendingCount_clientRegister (req : ClientRegisterRequest) (peer : String) (draw : Fin (2 ^ 31)) (now : Int) :
    (d.clientRegister req peer draw now).2.sendingCount = d.sendingCount := by
  rcases eq_or_ne producerName req.procName with hn | hn
  · rw [clientRegister_of_eq _ _ _ _ hn, rebalance_sendingCount]
    rfl
  · rw [clientRegister_of_ne hn]

theorem sendingCount_countFailure (svrId : UInt64) : (d.countFailure svrId).sendingCount = d.sendingCount := by
  unfold Daemon.countFailure
  split
  · rfl
  · split
    · rw [rebalance_sendingCount]
    · rfl

theorem sendingCount_removeServer (svrId : UInt64) (procName : String) :
    (d.removeServer svrId procName).sendingCount = d.sendingCount := by
  unfold Daemon.removeServer
  split
  · rw [rebalance_sendingCount]
  · rfl

theorem sendingCount_sweepLoop (now : Int) (l : List (UInt64 × ServerInfo)) :
    (sweepLoop now l d).sendingCount = d.sendingCount := by
  induction l generalizing d with
  | nil => rfl
  | cons x l ih =>
    unfold sweepLoop
    rw [ih]
    split
    · exact sendingCount_removeServer _ _ _
    · rfl

theorem sendingCount_checkProcAlive (now : Int) : (d.checkProcAlive now).sendingCount = d.sendingCount :=
  sendingCount_sweepLoop d now _

theorem sendingCount_decreaseProducerTask (svrId : UInt64) :
    (d.decreaseProducerTask svrId).sendingCount = d.sendingCount - 1 := by
  cases hp : d.gSvrId2ProducerState.find? svrId with
  | none => rw [decreaseProducerTask_of_none hp]
  | some p => rw [decreaseProducerTask_of_some hp]

theorem Sends.sendingCount {d d' : Daemon} {draw : Fin 10001} {svrId : UInt64} (hs : d.Sends draw svrId d') :
    d'.sendingCount = d.sendingCount + 1 := by
  cases hs with
  | idle | ranked => rfl

end Daemon

/-! ### The invariant -/

/-- The number of calls whose completion has not yet run `DecreaseProducerTask`. -/
def State.outstandingCalls (s : State) : Nat := s.calls.countP fun c => c.Outstanding

theorem Call.Decreases.outstanding {c : Call} (h : c.Decreases) : c.Outstanding := by
  rcases h with ⟨code, hst⟩ | hst <;> simp [Call.Outstanding, hst]

def SendingInv (s : State) : Prop := s.daemon.sendingCount = UInt32.ofNat s.outstandingCalls

namespace SendingInv
variable {s t : State} {i : Nat} {c : Call}

theorem setStage (h : SendingInv s) {d : Daemon} (hd : d.sendingCount = s.daemon.sendingCount) (st : Stage)
    (hc : s.calls[i]? = some c) (hout : ({ c with stage := st } : Call).Outstanding ↔ c.Outstanding) :
    SendingInv ({ s with daemon := d }.setCall i { c with stage := st }) := by
  have hset := Count.countP_set (p := fun c => decide c.Outstanding) (b := { c with stage := st }) hc
  simp only [hout] at hset
  exact hd.trans (h.trans (congrArg UInt32.ofNat (Nat.add_right_cancel hset).symm))

theorem sent (h : SendingInv s) {d : Daemon} {draw : Fin 10001} {svrId : UInt64} (hs : s.daemon.Sends draw svrId d)
    (request : ProduceMsgRequest) (push : Nat) (curUid : UInt64) : SendingInv (s.sent d svrId request push curUid) := by
  have hcount : (s.sent d svrId request push curUid).outstandingCalls = s.outstandingCalls + 1 := Count.countP_snoc
  unfold SendingInv
  rw [hcount, UInt32.ofNat_add, ← h]
  exact hs.sendingCount

/-- The completion of an outstanding call runs `DecreaseProducerTask`. -/
theorem decrease (h : SendingInv s) (st : Stage) (hc : s.calls[i]? = some c) (hout : c.Outstanding)
    (hst : ¬({ c with stage := st } : Call).Outstanding) :
    SendingInv ({ s with daemon := s.daemon.decreaseProducerTask c.svrId }.setCall i { c with stage := st }) := by
  have hset := Count.countP_set (p := fun c => decide c.Outstanding) (b := { c with stage := st }) hc
  simp only [hout, hst, decide_true, decide_false, if_true, Bool.false_eq_true, if_false, Nat.add_zero] at hset
  have hset : (s.calls.set i { c with stage := st }).countP (fun c => decide c.Outstanding) + 1 = s.outstandingCalls := hset
  show (s.daemon.decreaseProducerTask c.svrId).sendingCount = _
  rw [Daemon.sendingCount_decreaseProducerTask, h, ← hset, UInt32.ofNat_add]
  exact UInt32.add_sub_cancel _ _

theorem keep (h : SendingInv s) {e : Event} (hs : State.Steps s e t) : SendingInv t := by
  cases hs with
  | clientRegister => exact (Daemon.sendingCount_clientRegister _ _ _ _ _).trans h
  | heartBeat => exact (Daemon.sendingCount_heartBeat _ _ _).trans h
  | loadBalance => exact (Daemon.sendingCount_loadBalance _ _ _).trans h
  | beginPush | pushPastEnd | resendPastEnd | pushWait | resendWait => exact h
  | @pushSend p _ x _ _ _ _ hd => exact h.sent hd x.request p x.curUid
  | resendSend hc hst _ hd =>
    exact (h.sent hd _ _ _).setStage rfl _ (Count.getElem?_snoc_of_some hc) (by simp [Call.Outstanding, hst])
  | reply hc hst | rpcFail hc hst => exact h.setStage (d := s.daemon) rfl _ hc (by simp [Call.Outstanding, hst])
  | succeed hc hst =>
    exact h.decrease _ hc (Call.Decreases.outstanding (Or.inl ⟨_, hst⟩)) (by simp [Call.Outstanding])
  | resend hc hst =>
    exact h.decrease _ hc (Call.Decreases.outstanding (hst.imp_left fun hst => ⟨_, hst⟩)) (by simp [Call.Outstanding])
  | countFailure hc hst =>
    exact h.setStage (Daemon.sendingCount_countFailure _ _) _ hc (by simp [Call.Outstanding, hst])
  | checkProcAlive => exact (Daemon.sendingCount_checkProcAlive _ _).trans h
  | reBalanceTimer => exact Daemon.rebalance_sendingCount.trans h

end SendingInv

/-- In every run `sendingCount` is the number of outstanding calls, `DecreaseProducerTask` never takes it below
    zero, and it is zero once every call has completed. -/
theorem sendingCount_exact {s : State} (h : DaemonReaches AnyEvent s) (hlt : s.outstandingCalls < 2 ^ 32) :
    s.daemon.sendingCount.toNat = s.outstandingCalls ∧ (∀ c ∈ s.calls, c.Decreases → s.daemon.sendingCount ≠ 0) ∧
      ((∀ c ∈ s.calls, ¬c.Outstanding) → s.daemon.sendingCount = 0) := by
  have hi : SendingInv s := h.induct rfl fun _ _ _ hi _ hs => hi.keep hs
  have hcount : s.daemon.sendingCount.toNat = s.outstandingCalls := by
    rw [hi, UInt32.toNat_ofNat', Nat.mod_eq_of_lt hlt]
  refine ⟨hcount, fun c hc hdec hzero => ?_, fun hnone => ?_⟩
  · have hpos : 0 < s.outstandingCalls := List.countP_pos_iff.mpr ⟨c, hc, decide_eq_true hdec.outstanding⟩
    rw [← hcount, hzero] at hpos
    exact absurd hpos (lt_irrefl _)
  · have hzero : s.outstandingCalls = 0 := List.countP_eq_zero.mpr fun c hc => by simpa using hnone c hc
    rw [← UInt32.toNat_inj, hcount, hzero]
    rfl

/-- The producer 6 is swept with a call in flight and its id is given out again; both calls complete. -/
theorem sendingCount_exact_reused_id : ∃ s, DaemonReaches AnyEvent s ∧ s.calls.length = 2 ∧
    s.daemon.sendingCount.toNat = s.outstandingCalls ∧ (∀ c ∈ s.calls, c.Decreases → s.daemon.sendingCount ≠ 0) ∧
      ((∀ c ∈ s.calls, ¬c.Outstanding) → s.daemon.sendingCount = 0) := by
  obtain ⟨s, hs, hlen, hlt⟩ := DaemonReaches.of_events AnyEvent
    (fun s => s.calls.length = 2 ∧ s.outstandingCalls < 2 ^ 32)
    [registerAs producerName, registerAs producerName, .beginPush ⟨1, 0, 8191⟩, .pushLoop 0 0, .pushLoop 0 0,
      .heartBeat ⟨5⟩ 20, .checkProcAlive 20, registerAs producerName, .completion 1 (.reply .success),
      .handleCompletion 1]
    (by decide +kernel)
  exact ⟨s, hs, hlen, sendingCount_exact hs hlt⟩

end PushSystem
