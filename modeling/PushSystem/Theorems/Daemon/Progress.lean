import PushSystem.Theorems.Daemon.Sending
import PushSystem.Theorems.Daemon.Work
import PushSystem.Theorems.LoadBalance.Reported

/-! The daemon does not stall. While a producer is registered, a loop that waits waits for a call that is still to
    complete, and the work that is left goes down by one with every call that is made and every completion. -/

namespace PushSystem

/-- The pushes are bounded, and the producers are those of this repository. -/
def Served (s : State) (e : Event) : Prop := PushesBounded s e ∧ Reporting s e

/-! ### What can happen next -/

/-- With no call outstanding a registered producer is chosen, whatever is drawn. -/
theorem Daemon.Consistent.exists_sends {d : Daemon} {reg : OrdMap UInt64 Stub} {draw : Fin 10001} (h : d.Consistent reg)
    (hdraw : d.DrawsInRange draw) (hcount : d.sendingCount = 0)
    (hsize : UInt32.ofNat d.gSvrId2ProducerState.size ≠ 0) : ∃ svrId d', d.Sends draw svrId d' := by
  cases hsel : d.select draw with
  | idle svrId => exact ⟨svrId, _, .idle hsel⟩
  | ranked svrId => exact ⟨svrId, _, .ranked hsel⟩
  | pastEnd => exact absurd hsel (h.select_ne_pastEnd hdraw)
  | wait =>
    simp only [select, hcount, UInt32.zero_le, hsize, ne_eq, not_false_eq_true, and_self, if_true] at hsel
    split at hsel
    next => cases hsel
    next =>
      rcases d.selectRanked_cases draw with ⟨x, -, hr⟩ | ⟨hr, -⟩ <;> rw [hr] at hsel <;> cases hsel

namespace State
variable {s t : State} {e : Event}

/-- A call is made. -/
theorem step_pushLoop (hdef : s.undefined = false) {p : Nat} {x : Push} (hx : s.pushes[p]? = some x)
    (hcur : x.curUid ≤ x.request.endUid) {draw : Fin 10001} {svrId : UInt64} {d : Daemon}
    (hs : s.daemon.Sends draw svrId d) : s.step (.pushLoop p draw) =
      some ((s.sent d svrId x.request p x.curUid).setPush p { x with curUid := x.curUid + uidCountPerTime }) := by
  cases hs with
  | idle hsel | ranked hsel =>
    simp only [step, hdef, Bool.false_eq_true, if_false, stepEvent, hx, if_pos hcur, selectProducerAndSend, hsel, sent]

/-- A failed call is made again. -/
theorem step_resendLoop (hdef : s.undefined = false) {i : Nat} {c : Call} {curUid : UInt64} (hc : s.calls[i]? = some c)
    (hst : c.stage = .resending curUid) (hcur : curUid ≤ c.request.endUid) {draw : Fin 10001} {svrId : UInt64}
    {d : Daemon}
    (hs : s.daemon.Sends draw svrId d) : s.step (.resendLoop i draw) =
      some ((s.sent d svrId c.request c.push curUid).setCall i
        { c with stage := .resending (curUid + uidCountPerTime) }) := by
  cases hs with
  | idle hsel | ranked hsel =>
    simp only [step, hdef, Bool.false_eq_true, if_false, stepEvent, hc, hst, if_pos hcur, selectProducerAndSend, hsel,
      sent]

/-- An outstanding call takes its next step towards `DecreaseProducerTask`. -/
theorem exists_completes (hdef : s.undefined = false) {i : Nat} {c : Call} (hc : s.calls[i]? = some c)
    (hout : c.Outstanding) : ∃ e t, s.step e = some t ∧ Served s e ∧ e.cost = 0 ∧
      e.completes = true ∧ t.calls.length = s.calls.length := by
  cases hst : c.stage with
  | inFlight =>
    exact ⟨.completion i (.reply .success), s.setCall i { c with stage := .gotReply .success },
      by simp [step, hdef, stepEvent, hc, hst], ⟨trivial, trivial⟩, rfl, rfl, List.length_set⟩
  | gotReply code =>
    cases code with
    | success =>
      exact ⟨.handleCompletion i,
        { s with daemon := s.daemon.decreaseProducerTask c.svrId }.setCall i { c with stage := .succeeded },
        by simp [step, hdef, stepEvent, hc, hst], ⟨trivial, trivial⟩, rfl, rfl, List.length_set⟩
    | err =>
      exact ⟨.handleCompletion i, { s with daemon := s.daemon.decreaseProducerTask c.svrId }.setCall i
        { c with stage := .resending c.request.startUid },
        by simp [step, hdef, stepEvent, hc, hst], ⟨trivial, trivial⟩, rfl, rfl, List.length_set⟩
  | rpcFailed =>
    exact ⟨.handleCompletion i,
      { s with daemon := s.daemon.countFailure c.svrId }.setCall i { c with stage := .failCounted },
      by simp [step, hdef, stepEvent, hc, hst], ⟨trivial, trivial⟩, rfl, rfl, List.length_set⟩
  | failCounted =>
    exact ⟨.handleCompletion i, { s with daemon := s.daemon.decreaseProducerTask c.svrId }.setCall i
      { c with stage := .resending c.request.startUid },
      by simp [step, hdef, stepEvent, hc, hst], ⟨trivial, trivial⟩, rfl, rfl, List.length_set⟩
  | resending curUid => exact absurd hst (hout.1 curUid)
  | succeeded => exact absurd hst hout.2

/-- A call that is made, and a step of a completion, take from the work. -/
theorem Accounts.work_lt (h : Accounts s e t) (hcost : e.cost = 0)
    (hlen : s.calls.length + (if e.completes then 0 else 1) = t.calls.length) : t.work < s.work := by
  have hwork := h.work
  rw [hcost] at hwork
  split at hlen
  next hc =>
    rw [if_pos hc] at hwork
    omega
  next hc =>
    rw [if_neg hc] at hwork
    omega

end State

/-! ### The end -/

/-- All loops have ended, and each call was answered `SUCCESS` or made again. -/
structure State.Settled (s : State) : Prop where
  pushes : ∀ x ∈ s.pushes, x.request.endUid < x.curUid
  calls : ∀ c ∈ s.calls, c.stage = .succeeded ∨ ∃ curUid, c.stage = .resending curUid ∧ c.request.endUid < curUid

theorem Call.toHandle_eq_zero {c : Call} : c.toHandle = 0 ↔ ¬c.Outstanding := by
  unfold Call.toHandle Call.Outstanding
  split <;> simp_all

theorem State.toHandle_eq_zero {s : State} : s.toHandle = 0 ↔ ∀ c ∈ s.calls, ¬c.Outstanding := by
  simp only [State.toHandle, List.sum_eq_zero_iff_forall_eq_nat, List.forall_mem_map, Call.toHandle_eq_zero]

/-- No work is left exactly when the daemon has settled. -/
theorem ChunkInv.work_eq_zero {s : State} (h : ChunkInv s) : s.work = 0 ↔ s.Settled := by
  have hzero : s.work = 0 ↔ s.toSend = 0 ∧ s.toHandle = 0 := by
    unfold State.work
    omega
  rw [hzero, h.toSend_eq_zero, State.toHandle_eq_zero]
  constructor
  · rintro ⟨hd, hout⟩
    refine ⟨hd.pushes, fun c hc => ?_⟩
    have hleft := (hd.calls c hc).2.2.2
    have hdone := hout c hc
    cases hst : c.stage with
    | resending curUid => exact Or.inr ⟨curUid, rfl, hleft curUid hst⟩
    | succeeded => exact Or.inl rfl
    | inFlight | gotReply _ | rpcFailed | failCounted => exact absurd (by simp [Call.Outstanding, hst]) hdone
  · intro hset
    refine ⟨⟨hset.pushes, fun c hc => ?_⟩, fun c hc hout => ?_⟩
    · rcases hset.calls c hc with hst | ⟨curUid, hst, hlt⟩ <;> simp [hst]
      exact hlt
    · rcases hset.calls c hc with hst | ⟨curUid, hst, -⟩
      · exact hout.2 hst
      · exact hout.1 curUid hst

/-! ### Runs -/

structure ServedInv (s : State) : Prop where
  chunks : ChunkInv s
  sending : SendingInv s
  reporting : ReportingInv s

theorem ServedInv.keep {s t : State} {e : Event} (h : ServedInv s) (hok : Served s e) (hs : State.Steps s e t) :
    ServedInv t := ⟨h.chunks.keep hs hok.1, h.sending.keep hs, h.reporting.keep hok.2 hs⟩

theorem servedInv_of_reaches {s : State} (h : DaemonReaches Served s) : ServedInv s :=
  h.induct ⟨chunkInv_of_reaches .refl, rfl, reportingInv_of_reaches .refl⟩ fun _ _ _ hi hok hs => hi.keep hok hs

/-- Until the daemon has settled a step takes from the work, whatever is drawn, if a producer can be chosen once no
    call is outstanding. -/
theorem ServedInv.exists_step {s : State} (h : ServedInv s) (hset : ¬s.Settled)
    (hsends : s.daemon.sendingCount = 0 → ∀ draw, ∃ svrId d, s.daemon.Sends draw svrId d) :
    ∃ e : Fin 10001 → Event, ∀ draw, Served s (e draw) ∧ (e draw).cost = 0 ∧
      ∃ t, s.step (e draw) = some t ∧ t.work < s.work := by
  have hdef := h.reporting.tables.defined
  by_cases hout : ∃ c ∈ s.calls, c.Outstanding
  · -- The completion of an outstanding call moves on.
    obtain ⟨c, hc, hout⟩ := hout
    obtain ⟨i, hi⟩ := List.mem_iff_getElem?.mp hc
    obtain ⟨e, t, hs, hserved, hcost, hcompletes, hlen⟩ := State.exists_completes hdef hi hout
    have hacc := (State.steps_of_step hs).accounts h.chunks
    exact ⟨fun _ => e, fun _ => ⟨hserved, hcost, t, hs, hacc.work_lt hcost (by simp [hcompletes, hlen])⟩⟩
  · -- Nothing is counted as being sent, so no loop waits.
    have hzero : s.outstandingCalls = 0 := List.countP_eq_zero.mpr fun c hc => by
      simpa using fun ho => hout ⟨c, hc, ho⟩
    have hcount : s.daemon.sendingCount = 0 := by
      rw [h.sending, hzero]
      rfl
    by_cases hpush : ∃ x ∈ s.pushes, x.curUid ≤ x.request.endUid
    · obtain ⟨x, hx, hcur⟩ := hpush
      obtain ⟨p, hp⟩ := List.mem_iff_getElem?.mp hx
      refine ⟨fun draw => .pushLoop p draw, fun draw => ⟨⟨trivial, trivial⟩, rfl, ?_⟩⟩
      obtain ⟨svrId, d, hd⟩ := hsends hcount draw
      have hs := State.step_pushLoop hdef hp hcur hd
      have hacc := (State.steps_of_step hs).accounts h.chunks
      exact ⟨_, hs, hacc.work_lt rfl (s.length_calls_sent d ..).symm⟩
    · by_cases hcall : ∃ c ∈ s.calls, ∃ curUid, c.stage = .resending curUid ∧ curUid ≤ c.request.endUid
      · obtain ⟨c, hc, curUid, hst, hcur⟩ := hcall
        obtain ⟨i, hi⟩ := List.mem_iff_getElem?.mp hc
        refine ⟨fun draw => .resendLoop i draw, fun draw => ⟨⟨trivial, trivial⟩, rfl, ?_⟩⟩
        obtain ⟨svrId, d, hd⟩ := hsends hcount draw
        have hs := State.step_resendLoop hdef hi hst hcur hd
        have hacc := (State.steps_of_step hs).accounts h.chunks
        exact ⟨_, hs, hacc.work_lt rfl (List.length_set.trans (s.length_calls_sent d ..)).symm⟩
      · -- No loop is left: the daemon has settled.
        refine absurd ⟨fun x hx => ?_, fun c hc => ?_⟩ hset
        · exact UInt64.not_le.mp fun hcur => hpush ⟨x, hx, hcur⟩
        · cases hst : c.stage with
          | resending curUid =>
            exact Or.inr ⟨curUid, rfl, UInt64.not_le.mp fun hcur => hcall ⟨c, hc, curUid, hst, hcur⟩⟩
          | succeeded => exact Or.inl rfl
          | inFlight | gotReply _ | rpcFailed | failCounted =>
            exact absurd ⟨c, hc, by simp [Call.Outstanding, hst]⟩ hout

/-- A producer that has just registered is idle. -/
theorem Daemon.clientRegister_idle (d : Daemon) {req : ClientRegisterRequest} (hn : producerName = req.procName)
    (peer : String) (draw : Fin (2 ^ 31)) (now : Int) :
    d.newServerId draw ∈ (d.clientRegister req peer draw now).2.gSetIdleProducer := by
  rw [clientRegister_of_eq _ _ _ _ hn, rebalance_idle]
  exact (OrdMap.mem_set _ _ _ _).mpr (Or.inl rfl)

theorem Daemon.exists_sends_of_idle {d : Daemon} {svrId : UInt64} (h : svrId ∈ d.gSetIdleProducer) (draw : Fin 10001) :
    ∃ svrId d', d.Sends draw svrId d' := by
  cases hfirst : d.gSetIdleProducer.first? with
  | none => exact absurd h (OrdMap.first?_eq_none_iff.mp hfirst svrId)
  | some x => exact ⟨x.1, _, .idle (by simp [select, hfirst])⟩

/-- A run in which no call fails and no push with a chunk begins. -/
def Settles : State → State → Prop :=
  Runs.Reaches (Runs.under (Runs.ofFun State.step) fun s e => Served s e ∧ e.cost = 0)

/-- A producer registers, and then a step takes from the work. -/
theorem ServedInv.exists_run {s : State} (h : ServedInv s) (hset : ¬s.Settled) :
    ∃ t, Settles s t ∧ ServedInv t ∧ t.work < s.work := by
  let req : ClientRegisterRequest := ⟨"50053", producerName, 601⟩
  let u := (s.clientRegister req "" 0 0).2
  have hstep : s.step (.clientRegister req "" 0 0) = some u := by
    simp only [State.step, h.reporting.tables.defined, Bool.false_eq_true, if_false]
    rfl
  have hserved : Served s (.clientRegister req "" 0 0) := ⟨trivial, rfl⟩
  have hu := h.keep hserved (State.steps_of_step hstep)
  have hwork : u.work = s.work := rfl
  have hset' : ¬u.Settled := by rwa [← hu.chunks.work_eq_zero, hwork, h.chunks.work_eq_zero]
  have hidle : s.daemon.newServerId 0 ∈ u.daemon.gSetIdleProducer := s.daemon.clientRegister_idle rfl "" 0 0
  obtain ⟨e, he⟩ := hu.exists_step hset' fun _ draw => Daemon.exists_sends_of_idle hidle draw
  obtain ⟨hok, hcost, t, ht, hlt⟩ := he 0
  exact ⟨t, (Runs.Reaches.refl.step ⟨⟨hserved, rfl⟩, hstep⟩).step ⟨⟨hok, hcost⟩, ht⟩,
    hu.keep hok (State.steps_of_step ht), hwork ▸ hlt⟩

/-- From any state that is reached the daemon can settle: a run leads there in which producers register, no call fails
    and no push with a chunk begins. -/
theorem settled_reachable {s : State} (h : DaemonReaches Served s) : ∃ t, Settles s t ∧ t.Settled := by
  have hi := servedInv_of_reaches h
  clear h
  obtain ⟨n, hn⟩ : ∃ n, s.work ≤ n := ⟨_, le_rfl⟩
  induction n generalizing s with
  | zero => exact ⟨s, .refl, hi.chunks.work_eq_zero.mp (Nat.le_zero.mp hn)⟩
  | succ n ih =>
    by_cases hset : s.Settled
    · exact ⟨s, .refl, hset⟩
    · obtain ⟨u, hu, hinv, hlt⟩ := hi.exists_run hset
      obtain ⟨t, ht, hdone⟩ := ih hinv (by omega)
      exact ⟨t, Relation.ReflTransGen.trans hu ht, hdone⟩

/-- The only producer has been swept with a call in flight, and the second chunk waits for another one. -/
theorem settled_reachable_swept : ∃ s, DaemonReaches Served s ∧ s.work = 5 ∧ s.daemon.gSvrId2ProducerState.size = 0 ∧
    ∃ t, Settles s t ∧ t.Settled := by
  obtain ⟨s, hs, hwork, hsize⟩ := DaemonReaches.of_events (fun s e => PushesBounded s e ∧ e.reportsLeast)
    (fun s => s.work = 5 ∧ s.daemon.gSvrId2ProducerState.size = 0)
    [registerAs producerName, .beginPush ⟨1, 0, 8191⟩, .pushLoop 0 0, .checkProcAlive 20] (by decide +kernel)
  have hserved : DaemonReaches Served s :=
    hs.mono fun _ _ _ hstep => ⟨⟨hstep.1.1, Event.reporting_of_least hstep.1.2⟩, hstep.2⟩
  exact ⟨s, hserved, hwork, hsize, settled_reachable hserved⟩

end PushSystem
