import PushSystem.Daemon.System

/-! What a step of the daemon can do, one case for each way a thread can pass a critical section. Every
    invariant of the running daemon is proved by these cases. -/

namespace PushSystem

/-- `d` sends a call to `svrId`, by either dispatching branch, and becomes `d'`. -/
inductive Daemon.Sends (d : Daemon) (draw : Fin 10001) : UInt64 → Daemon → Prop where
  | idle {svrId : UInt64} (h : d.select draw = .idle svrId) : Sends d draw svrId (d.sendIdle svrId)
  | ranked {svrId : UInt64} (h : d.select draw = .ranked svrId) : Sends d draw svrId (d.countSend svrId)

namespace State

/-- The state after a loop has sent the chunk at `curUid` to `svrId`. -/
def sent (s : State) (d : Daemon) (svrId : UInt64) (request : ProduceMsgRequest) (push : Nat) (curUid : UInt64) :
    State :=
  { s with
    daemon := d
    calls := s.calls ++ [⟨svrId, s.daemon.stubOf svrId, chunkAt request curUid, push, .inFlight⟩] }

theorem selectProducerAndSend_cases (s : State) (push : Nat) (request : ProduceMsgRequest) (curUid : UInt64)
    (draw : Fin 10001) :
    s.selectProducerAndSend push request curUid draw = (s, curUid) ∨
    (s.daemon.select draw = .pastEnd ∧
      s.selectProducerAndSend push request curUid draw = ({ s with undefined := true }, curUid)) ∨
    ∃ svrId d, s.daemon.Sends draw svrId d ∧
      s.selectProducerAndSend push request curUid draw =
        (s.sent d svrId request push curUid, curUid + uidCountPerTime) := by
  unfold selectProducerAndSend
  cases h : s.daemon.select draw with
  | idle svrId => exact Or.inr (Or.inr ⟨svrId, _, .idle h, rfl⟩)
  | ranked svrId => exact Or.inr (Or.inr ⟨svrId, _, .ranked h, rfl⟩)
  | pastEnd => exact Or.inr (Or.inl ⟨rfl, rfl⟩)
  | wait => exact Or.inl rfl

/-- The steps of the daemon, by what they do. -/
inductive Steps (s : State) : Event → State → Prop where
  | clientRegister {req peer draw now} :
    Steps s (.clientRegister req peer draw now) (s.clientRegister req peer draw now).2
  | heartBeat {req now} : Steps s (.heartBeat req now) { s with daemon := (s.daemon.heartBeat req now).2 }
  | loadBalance {req score} : Steps s (.loadBalance req score) { s with daemon := (s.daemon.loadBalance req score).2 }
  | beginPush {req : BeginPushRequest} :
    Steps s (.beginPush req)
      { s with pushes := s.pushes ++ [⟨⟨req.msgId, req.startUid, req.endUid⟩, req.startUid⟩] }
  | pushWait {p draw} : Steps s (.pushLoop p draw) s
  | pushPastEnd {p draw} (h : s.daemon.select draw = .pastEnd) :
    Steps s (.pushLoop p draw) { s with undefined := true }
  | pushSend {p draw x svrId d} (hx : s.pushes[p]? = some x) (hcur : x.curUid ≤ x.request.endUid)
    (hd : s.daemon.Sends draw svrId d) :
    Steps s (.pushLoop p draw)
      ((s.sent d svrId x.request p x.curUid).setPush p { x with curUid := x.curUid + uidCountPerTime })
  | resendWait {i draw} : Steps s (.resendLoop i draw) s
  | resendPastEnd {i draw} (h : s.daemon.select draw = .pastEnd) :
    Steps s (.resendLoop i draw) { s with undefined := true }
  | resendSend {i draw c curUid svrId d} (hc : s.calls[i]? = some c) (hst : c.stage = .resending curUid)
    (hcur : curUid ≤ c.request.endUid) (hd : s.daemon.Sends draw svrId d) :
    Steps s (.resendLoop i draw)
      ((s.sent d svrId c.request c.push curUid).setCall i
        { c with stage := .resending (curUid + uidCountPerTime) })
  | reply {i c code} (hc : s.calls[i]? = some c) (hst : c.stage = .inFlight) :
    Steps s (.completion i (.reply code)) (s.setCall i { c with stage := .gotReply code })
  | rpcFail {i c} (hc : s.calls[i]? = some c) (hst : c.stage = .inFlight) :
    Steps s (.completion i .rpcFail) (s.setCall i { c with stage := .rpcFailed })
  | succeed {i c} (hc : s.calls[i]? = some c) (hst : c.stage = .gotReply .success) :
    Steps s (.handleCompletion i)
      ({ s with daemon := s.daemon.decreaseProducerTask c.svrId }.setCall i { c with stage := .succeeded })
  | resend {i c} (hc : s.calls[i]? = some c) (hst : c.stage = .gotReply .err ∨ c.stage = .failCounted) :
    Steps s (.handleCompletion i)
      ({ s with daemon := s.daemon.decreaseProducerTask c.svrId }.setCall i
        { c with stage := .resending c.request.startUid })
  | countFailure {i c} (hc : s.calls[i]? = some c) (hst : c.stage = .rpcFailed) :
    Steps s (.handleCompletion i)
      ({ s with daemon := s.daemon.countFailure c.svrId }.setCall i { c with stage := .failCounted })
  | checkProcAlive {now} : Steps s (.checkProcAlive now) { s with daemon := s.daemon.checkProcAlive now }
  | reBalanceTimer : Steps s .reBalanceTimer { s with daemon := s.daemon.rebalance }

theorem setPush_self {s : State} {p : Nat} {x : Push} (h : s.pushes[p]? = some x) : s.setPush p x = s := by
  obtain ⟨hp, rfl⟩ := List.getElem?_eq_some_iff.mp h
  simp [setPush]

theorem setCall_self {s : State} {i : Nat} {c : Call} (h : s.calls[i]? = some c) : s.setCall i c = s := by
  obtain ⟨hi, rfl⟩ := List.getElem?_eq_some_iff.mp h
  simp [setCall]

theorem steps_pushLoop {s t : State} {p : Nat} {draw : Fin 10001} (h : s.stepEvent (.pushLoop p draw) = some t) :
    Steps s (.pushLoop p draw) t := by
  simp only [stepEvent] at h
  split at h
  next x hx =>
    split at h
    next hcur =>
      rcases s.selectProducerAndSend_cases p x.request x.curUid draw with hs | ⟨hend, hs⟩ | ⟨svrId, d, hd, hs⟩
      · rw [hs] at h
        obtain rfl := Option.some.inj h
        rw [setPush_self hx]
        exact .pushWait
      · rw [hs] at h
        obtain rfl := Option.some.inj h
        rw [setPush_self (s := { s with undefined := true }) hx]
        exact .pushPastEnd hend
      · rw [hs] at h
        obtain rfl := Option.some.inj h
        exact .pushSend hx hcur hd
    next => cases h
  next => cases h

theorem steps_resendLoop {s t : State} {i : Nat} {draw : Fin 10001}
    (h : s.stepEvent (.resendLoop i draw) = some t) : Steps s (.resendLoop i draw) t := by
  simp only [stepEvent] at h
  split at h
  next c hc =>
    split at h
    next curUid hst =>
      split at h
      next hcur =>
        have hself : { c with stage := .resending curUid } = c := by rw [← hst]
        rcases s.selectProducerAndSend_cases c.push c.request curUid draw with hs | ⟨hend, hs⟩ | ⟨svrId, d, hd, hs⟩
        · rw [hs] at h
          obtain rfl := Option.some.inj h
          rw [hself, setCall_self hc]
          exact .resendWait
        · rw [hs] at h
          obtain rfl := Option.some.inj h
          rw [hself, setCall_self (s := { s with undefined := true }) hc]
          exact .resendPastEnd hend
        · rw [hs] at h
          obtain rfl := Option.some.inj h
          exact .resendSend hc hst hcur hd
      next => cases h
    next => cases h
  next => cases h

theorem steps_completion {s t : State} {i : Nat} {o : Completion} (h : s.stepEvent (.completion i o) = some t) :
    Steps s (.completion i o) t := by
  simp only [stepEvent] at h
  split at h
  next c hc =>
    split at h
    next hst =>
      obtain rfl := Option.some.inj h
      exact .reply hc hst
    next hst =>
      obtain rfl := Option.some.inj h
      exact .rpcFail hc hst
    next => cases h
  next => cases h

theorem steps_handleCompletion {s t : State} {i : Nat} (h : s.stepEvent (.handleCompletion i) = some t) :
    Steps s (.handleCompletion i) t := by
  simp only [stepEvent] at h
  split at h
  next c hc =>
    split at h
    next hst =>
      obtain rfl := Option.some.inj h
      exact .succeed hc hst
    next hst =>
      obtain rfl := Option.some.inj h
      exact .resend hc (Or.inl hst)
    next hst =>
      obtain rfl := Option.some.inj h
      exact .resend hc (Or.inr hst)
    next hst =>
      obtain rfl := Option.some.inj h
      exact .countFailure hc hst
    next => cases h
  next => cases h

theorem steps_of_step {s t : State} {e : Event} (h : s.step e = some t) : Steps s e t := by
  unfold step at h
  split at h
  next => cases h
  next =>
    cases e with
    | pushLoop p draw => exact steps_pushLoop h
    | resendLoop i draw => exact steps_resendLoop h
    | completion i o => exact steps_completion h
    | handleCompletion i => exact steps_handleCompletion h
    | clientRegister req peer draw now => exact Option.some.inj h ▸ .clientRegister
    | heartBeat req now => exact Option.some.inj h ▸ .heartBeat
    | loadBalance req score => exact Option.some.inj h ▸ .loadBalance
    | beginPush req => exact Option.some.inj h ▸ .beginPush
    | checkProcAlive now => exact Option.some.inj h ▸ .checkProcAlive
    | reBalanceTimer => exact Option.some.inj h ▸ .reBalanceTimer

end State

/-- An invariant of the daemon holds from the start and survives each way of stepping. -/
theorem DaemonReaches.induct {ok : State → Event → Prop} {Inv : State → Prop} {s : State}
    (h : DaemonReaches ok s) (init : Inv {}) (keep : ∀ s e t, Inv s → ok s e → State.Steps s e t → Inv t) : Inv s :=
  Runs.Reaches.invariant h init fun s e t hi hs => keep s e t hi hs.1 (State.steps_of_step hs.2)

/-- A run of the daemon that is given by its events. -/
theorem DaemonReaches.of_events (ok : State → Event → Prop) [∀ s e, Decidable (ok s e)] (P : State → Prop)
    [DecidablePred P] (es : List Event) (h : (Runs.exec State.step ok es {}).any (fun s => decide (P s)) = true) :
    ∃ s, DaemonReaches ok s ∧ P s :=
  Runs.exists_of_exec es h

end PushSystem
