import PushSystem.CallData
import PushSystem.Theorems.Producer.Decodes

/-! A request is deleted once, and nothing is left then that could touch it but the `NotifyOne` that has answered it,
    which has still to unlock. -/

namespace PushSystem
open Prog

/-! ### One request -/

/-- `Finish` is the last call of a program. -/
def FinishLast {α : Type} (p : ProduceMsgProg α) : Prop := p.Everywhere fun o k => o = .finish → ∀ r, ∃ a, k r = .pure a

theorem finishLast_sendAll (msgId : UInt32) (uids : List UInt64) :
    FinishLast (sendAll msgId uids >>= fun _ => (return .success : ProduceMsgProg ErrCode)) := by
  induction uids with
  | nil => trivial
  | cons uid uids ih => exact ⟨fun ho => (by cases ho), fun _ => ih⟩

theorem finishLast_produceMsg (request : ProduceMsgRequest) : FinishLast (produceMsg request) := by
  refine everywhere_bind_of everywhere_fetchUserInfoStr (fun o k ho hf => ?_) fun userInfoStr => ?_
  · subst hf
    exact ho.elim
  · cases userInfoStr with
    | none => trivial
    | some userInfoStr =>
      refine ⟨fun ho => (by cases ho), fun _ => ?_⟩
      show FinishLast (if (uidsToSend request.startUid userInfoStr).length ≠ 0 then _ else _)
      split
      · exact finishLast_sendAll _ _
      · exact ⟨fun _ _ => ⟨_, rfl⟩, fun _ => trivial⟩

/-- The request has been answered once: its thread is done, and the broker has accepted all its messages. -/
structure Handler.Answered (h : Handler) : Prop where
  finished : h.data.finished = [⟨.success⟩]
  status : h.data.status = .finish
  done : h.next = none
  acked : h.data.outstanding = 0

section Request
variable {acks : Nat → Nat} {h h' : Handler}

/-- No call or callback is left. -/
theorem Handler.Answered.call_eq_none (h₀ : h.Answered) (outcome : Outcome) : h.call outcome = none := by
  have hdone := h₀.done
  unfold Handler.next at hdone
  unfold Handler.call
  split <;> simp_all

theorem Handler.Answered.broker_eq_none (h₀ : h.Answered) (e : BrokerEvent) : h.data.broker e = none := by
  cases hb : h.data.broker e with
  | none => rfl
  | some d =>
    obtain ⟨k, send, -, hk, hst, -⟩ := ProduceMsgCallData.broker_sends hb
    have hzero := List.countP_eq_zero.mp h₀.acked send (List.mem_of_getElem? hk)
    exact absurd hst (by simpa using hzero)

/-- Only `Finish` answers. -/
theorem finished_of_try {o : ProduceMsgOp} {n : Nat} {c d : ProduceMsgCallData} {r : Option o.Ret} (ho : o ≠ .finish)
    (hm : produceMsgTry o n c r d) : d.finished = c.finished := by
  cases o with
  | finish => exact absurd rfl ho
  | send body =>
    rcases send_of_try hm with ⟨-, rfl⟩ | ⟨-, rfl⟩ <;> rfl
  | setWaitForSendCount =>
    obtain ⟨outcome, hm⟩ := hm
    cases outcome <;> simp [ProduceMsgOp.attempt] at hm
    rw [← hm.2]
  | lock | unlock | redis | freeReply | copy => exact congrArg (·.finished) (eq_of_quiet (by trivial) hm)

/-- A thread that comes to `Finish` has sent nothing. -/
theorem Handler.Phase.sends_of_finish {k : Unit → ProduceMsgProg ErrCode} (hp : h.Phase acks)
    (hprog : h.thread.prog = .call .finish k) : h.data.sends = [] := by
  cases hp with
  | empty hsends => exact hsends
  | fetching _ _ _ hfresh => exact hfresh.sends
  | @sending _ rest _ hprog' =>
    rw [hprog'] at hprog
    cases rest <;> cases hprog

/-- A call of the thread leaves the request unanswered, or is the last one. -/
theorem Handler.Phase.call_answered {outcome : Outcome} (hp : h.Phase acks) (hlast : FinishLast h.thread.prog)
    (hfin : h.data.finished = []) (hc : h.call outcome = some h') : h'.data.finished = [] ∨ h'.Answered := by
  obtain ⟨o, k, n, hprog, hcases⟩ := Handler.call_cases hc
  by_cases ho : o = .finish
  · subst ho
    refine Or.inr ?_
    have hsends := hp.sends_of_finish hprog
    rw [hprog] at hlast
    rcases hcases with ⟨hm, -⟩ | ⟨r, hm, hp'⟩
    · cases outcome <;> simp [ProduceMsgOp.attempt] at hm
    · cases outcome <;> simp [ProduceMsgOp.attempt] at hm
      obtain ⟨a, ha⟩ := hlast.1 rfl r
      refine ⟨?_, ?_, ?_, ?_⟩
      · rw [← hm, ProduceMsgCallData.finish, hfin]
        rfl
      · rw [← hm, ProduceMsgCallData.finish]
      · rw [Handler.next, hp', ha]
      · rw [← hm, ProduceMsgCallData.outstanding, ProduceMsgCallData.finish, hsends]
        rfl
  · refine Or.inl ?_
    rcases hcases with ⟨hm, -⟩ | ⟨r, hm, -⟩ <;> rw [finished_of_try ho ⟨_, hm⟩, hfin]

theorem length_uidsToSend_le {request : ProduceMsgRequest} (hr : request.Dispatched) {userInfoStr : List Bitmap.Byte}
    (hbytes : userInfoStr.length = (request.endUid / 8 - request.startUid / 8 + 1).toNat) :
    (uidsToSend request.startUid userInfoStr).length ≤ 2 ^ 32 := by
  have hlen : userInfoStr.length ≤ 513 := hbytes ▸ bytes_le_of_dispatched hr
  rw [length_uidsToSend]
  exact List.countP_le_length.trans (by rw [List.length_range]; omega)

theorem ProduceMsgCallData.broker_status {c d : ProduceMsgCallData} {e : BrokerEvent} (hb : c.broker e = some d)
    (hfin : c.finished = []) (hd : d.finished ≠ []) : d.status = .finish := by
  cases Broker.of_event hb with
  | thrown | moved => exact absurd hfin hd
  | acked =>
    unfold ProduceMsgCallData.notifyOne at hd ⊢
    split at hd
    next hz => rw [if_pos hz, ProduceMsgCallData.finish]
    next => exact absurd hfin hd

/-- A callback leaves the request unanswered, or is the last one. -/
theorem Handler.Phase.broker_answered {e : BrokerEvent} {data : ProduceMsgCallData} (hp : h.Phase acks)
    (hr : h.data.request.Dispatched) (hfin : h.data.finished = []) (hb : h.data.broker e = some data) :
    data.finished = [] ∨ Handler.Answered { h with data } := by
  obtain ⟨k, send, -, hk, -⟩ := ProduceMsgCallData.broker_sends hb
  cases hp with
  | fetching _ _ _ hfresh => simp [hfresh.sends] at hk
  | empty hsends => simp [hsends] at hk
  | @sending userInfoStr rest hbytes hprog _ hcount =>
    have honce := (hcount.broker (Broker.of_event hb)).once (length_uidsToSend_le hr hbytes)
    split at honce
    next hzero =>
      have hrest : rest = [] := List.length_eq_zero_iff.mp (by omega)
      subst hrest
      have hout : data.outstanding = 0 := by omega
      have hdone : h.next = none := by
        rw [Handler.next, hprog]
        rfl
      exact Or.inr ⟨honce.1, ProduceMsgCallData.broker_status hb hfin (by simp [honce.1]), hdone, hout⟩
    next => exact Or.inl honce.1

end Request

/-! ### The process -/

/-- Each request is unanswered or done with. -/
structure Process.Tended (p : Process) : Prop where
  runs : ∃ es, p.Run es
  requests : ∀ (i : Nat) (h : Handler), p.handlers[i]? = some h →
    h.data.request.Dispatched ∧ FinishLast h.thread.prog ∧ (h.data.finished = [] ∨ h.Answered)

/-- The requests are for ranges that the daemon sends. -/
def ProcessEvent.Dispatches : ProcessEvent → Prop
  | .receive request => request.Dispatched
  | _ => True

section Process
variable {p q : Process} {e : ProcessEvent} {i : Nat} {h h' : Handler}

theorem FinishLast.call {outcome : Outcome} (hl : FinishLast h.thread.prog) (hc : h.call outcome = some h') :
    FinishLast h'.thread.prog := by
  obtain ⟨o, k, n, hprog, hcases⟩ := Handler.call_cases hc
  rw [hprog] at hl
  rcases hcases with ⟨-, hp⟩ | ⟨r, -, hp⟩
  · rw [hp]
    exact hl
  · rw [hp]
    exact hl.2 r

theorem Process.Tended.step (hp : p.Tended) (hok : e.Dispatches) (hs : p.step e = some q) : q.Tended := by
  obtain ⟨es, hrun⟩ := hp.runs
  have hphase := (sendsInv_of_run hrun).phase
  refine ⟨⟨_, Process.run_snoc hrun hs⟩, fun j x hj => ?_⟩
  cases (Process.steps_of_step hs).2 with
  | throws => exact hp.requests j x hj
  | @receive request =>
    rcases Count.of_getElem?_snoc hj with hj | ⟨-, rfl⟩
    · exact hp.requests j x hj
    · exact ⟨hok, finishLast_produceMsg request, Or.inl rfl⟩
  | @call i outcome h h' _ hi hc =>
    rcases Count.of_getElem?_set hj with ⟨rfl, rfl⟩ | ⟨-, hj⟩
    · obtain ⟨hr, hlast, hfin | hans⟩ := hp.requests i h hi
      · exact ⟨Handler.request_of_call hc ▸ hr, hlast.call hc, (hphase i h hi).call_answered hlast hfin hc⟩
      · rw [hans.call_eq_none] at hc
        cases hc
    · exact hp.requests j x hj
  | @broker i b h data hi hb =>
    rcases Count.of_getElem?_set hj with ⟨rfl, rfl⟩ | ⟨-, hj⟩
    · obtain ⟨hr, hlast, hfin | hans⟩ := hp.requests i h hi
      · obtain ⟨-, -, -, -, -, -, hrequest, -⟩ := ProduceMsgCallData.broker_sends hb
        exact ⟨hrequest ▸ hr, hlast, (hphase i h hi).broker_answered hr hfin hb⟩
      · rw [hans.broker_eq_none] at hb
        cases hb
    · exact hp.requests j x hj

/-- No step of the process is about a request that has been answered, and it stays as it is. -/
theorem Handler.Answered.untouched (hans : h.Answered) (hi : p.handlers[i]? = some h) (hs : p.step e = some q) :
    ¬(HeapEvent.process e).Touches i ∧ q.handlers[i]? = some h := by
  cases (Process.steps_of_step hs).2 with
  | receive => exact ⟨id, Count.getElem?_snoc_of_some hi⟩
  | @throws j x _ _ hj hn =>
    refine ⟨?_, hi⟩
    rintro rfl
    obtain rfl := Option.some.inj (hi.symm.trans hj)
    rw [hans.done] at hn
    cases hn
  | @call j outcome x _ _ hj hc =>
    have hne : j ≠ i := by
      rintro rfl
      obtain rfl := Option.some.inj (hi.symm.trans hj)
      rw [hans.call_eq_none] at hc
      cases hc
    exact ⟨hne, (List.getElem?_set_ne hne).trans hi⟩
  | @broker j b x _ hj hb =>
    have hne : j ≠ i := by
      rintro rfl
      obtain rfl := Option.some.inj (hi.symm.trans hj)
      rw [hans.broker_eq_none] at hb
      cases hb
    exact ⟨hne, (List.getElem?_set_ne hne).trans hi⟩

theorem Process.Tended.answered_of_finishes (hp : p.Tended) (hpos : 0 < p.finishes i) :
    ∃ h, p.handlers[i]? = some h ∧ h.Answered := by
  cases hi : p.handlers[i]? with
  | none => simp [Process.finishes, hi] at hpos
  | some h =>
    refine ⟨h, rfl, ?_⟩
    rcases (hp.requests i h hi).2.2 with hfin | hans
    · simp [Process.finishes, hi, hfin] at hpos
    · exact hans

end Process

/-! ### The objects -/

namespace CallDataHeap
variable {m t : CallDataHeap} {e : HeapEvent} {i : Nat}

/-- The requests that the process receives are for ranges that the daemon sends. -/
def Dispatches (_ : CallDataHeap) : HeapEvent → Prop
  | .process e => e.Dispatches
  | _ => True

instance (m : CallDataHeap) (e : HeapEvent) : Decidable (m.Dispatches e) :=
  match e with
  | .process (.receive request) => inferInstanceAs (Decidable (request.startUid ≤ request.endUid ∧ _))
  | .process (.call _ _) | .process (.throws _) | .process (.broker _ _) | .unlock _ | .proceed _ => isTrue trivial

def HasAnswered (m : CallDataHeap) (i : Nat) : Prop := ∃ h, m.process.handlers[i]? = some h ∧ h.Answered

structure Inv (m : CallDataHeap) : Prop where
  tended : m.process.Tended
  notifying : ∀ i ∈ m.notifying, m.HasAnswered i
  deleted : ∀ i ∈ m.deleted, m.HasAnswered i
  once : m.deleted.Nodup
  asserted : m.aborted = false

/-- What an event does. -/
inductive Steps (m : CallDataHeap) : HeapEvent → CallDataHeap → Prop
  | process {e : ProcessEvent} {q : Process} (hfree : ∀ i ∈ e.notified, i ∉ m.notifying)
      (hs : m.process.step e = some q) :
    Steps m (.process e) { m with
      process := q
      notifying := (e.notified.toList.filter fun i => m.process.finishes i < q.finishes i) ++ m.notifying }
  | unlock {i : Nat} (hi : i ∈ m.notifying) : Steps m (.unlock i) { m with notifying := m.notifying.erase i }
  | proceed {i : Nat} {h : Handler} (hi : m.process.handlers[i]? = some h)
      (hlt : m.deleted.count i < h.data.finished.length) :
    Steps m (.proceed i)
      (if h.data.status = .finish then { m with deleted := i :: m.deleted } else { m with aborted := true })

theorem steps_of_step (ht : m.step e = some t) : m.Steps e t := by
  unfold step at ht
  split at ht
  next => cases ht
  next =>
    cases e with
    | process e =>
      dsimp only at ht
      split at ht
      next => cases ht
      next hfree =>
        obtain ⟨q, hq, rfl⟩ := Option.map_eq_some_iff.mp ht
        exact .process (fun i hi hn => hfree ⟨i, hi, hn⟩) hq
    | unlock i =>
      dsimp only at ht
      split at ht
      next hi => cases ht; exact .unlock hi
      next => cases ht
    | proceed i =>
      obtain ⟨h, hi, ht⟩ := Option.bind_eq_some_iff.mp ht
      split at ht
      next hlt => cases ht; exact .proceed hi hlt
      next => cases ht

/-- A tag comes out once, and finds an answered request. -/
theorem Inv.proceed (hm : m.Inv) {h : Handler} (hi : m.process.handlers[i]? = some h)
    (hlt : m.deleted.count i < h.data.finished.length) : h.Answered ∧ i ∉ m.deleted := by
  rcases (hm.tended.requests i h hi).2.2 with hfin | hans
  · simp [hfin] at hlt
  · rw [hans.finished, List.length_singleton, Nat.lt_one_iff, List.count_eq_zero] at hlt
    exact ⟨hans, hlt⟩

theorem HasAnswered.step {q : Process} {e : ProcessEvent} (hans : m.HasAnswered i) (hq : m.process.step e = some q) :
    ∃ h, q.handlers[i]? = some h ∧ h.Answered := by
  obtain ⟨h, hi, hans⟩ := hans
  exact ⟨h, (hans.untouched hi hq).2, hans⟩

theorem Inv.step (hm : m.Inv) (hok : m.Dispatches e) (ht : m.step e = some t) : t.Inv := by
  cases steps_of_step ht with
  | @process e q _ hq =>
    have htended := hm.tended.step hok hq
    refine ⟨htended, fun i hi => ?_, fun i hi => (hm.deleted i hi).step hq, hm.once, hm.asserted⟩
    rcases List.mem_append.mp hi with hi | hi
    · have hlt := of_decide_eq_true (List.mem_filter.mp hi).2
      exact htended.answered_of_finishes (Nat.lt_of_le_of_lt (Nat.zero_le _) hlt)
    · exact (hm.notifying i hi).step hq
  | unlock => exact ⟨hm.tended, fun j hj => hm.notifying j (List.mem_of_mem_erase hj), hm.deleted, hm.once, hm.asserted⟩
  | @proceed i h hi hlt =>
    obtain ⟨hans, hnew⟩ := hm.proceed hi hlt
    rw [if_pos hans.status]
    refine ⟨hm.tended, hm.notifying, fun j hj => ?_, hm.once.cons hnew, hm.asserted⟩
    rcases List.mem_cons.mp hj with rfl | hj
    · exact ⟨h, hi, hans⟩
    · exact hm.deleted j hj

/-- The runs of a producer whose requests are for ranges that the daemon sends. -/
def Reaches : CallDataHeap → Prop := Runs.Reaches (Runs.under (Runs.ofFun step) Dispatches) {}

/-- A run that is given by its events. -/
theorem Reaches.of_events (P : CallDataHeap → Prop) [DecidablePred P] (es : List HeapEvent)
    (h : (Runs.exec step Dispatches es {}).any (fun m => decide (P m)) = true) : ∃ m, Reaches m ∧ P m :=
  Runs.exists_of_exec es h

theorem Reaches.inv (h : Reaches m) : m.Inv :=
  Runs.Reaches.invariant h
    ⟨⟨⟨[], rfl⟩, fun i h hi => by simp at hi⟩, fun i hi => absurd hi List.not_mem_nil,
      fun i hi => absurd hi List.not_mem_nil, List.nodup_nil, rfl⟩
    fun _ _ _ hm hs => hm.step hs.1 hs.2

/-- A request is deleted once, by a `Proceed` that finds it finished, and what comes after touches it no more, but for
    one `unlock`. -/
structure Safe (m : CallDataHeap) : Prop where
  once : m.deleted.Nodup
  asserted : m.aborted = false
  untouched : ∀ i ∈ m.deleted, ∀ e t, m.step e = some t → e.Touches i → e = .unlock i

theorem Inv.safe (hm : m.Inv) : m.Safe := by
  refine ⟨hm.once, hm.asserted, fun i hi e t ht htouch => ?_⟩
  obtain ⟨h, hi', hans⟩ := hm.deleted i hi
  cases steps_of_step ht with
  | process _ hq => exact absurd htouch (hans.untouched hi' hq).1
  | unlock =>
    obtain rfl := htouch
    rfl
  | proceed hj hlt =>
    obtain rfl := htouch
    exact absurd hi (hm.proceed hj hlt).2

/-- Nothing keeps the tag of `Finish` until `NotifyOne` has unlocked. -/
theorem Inv.unlocks_late (hm : m.Inv) (hdown : m.process.down = false) (hi : i ∈ m.notifying) (hnew : i ∉ m.deleted) :
    ∃ t u, m.step (.proceed i) = some t ∧ i ∈ t.deleted ∧ t.step (.unlock i) = some u := by
  obtain ⟨h, hi', hans⟩ := hm.notifying i hi
  have hcount : m.deleted.count i < h.data.finished.length := by
    rw [hans.finished, List.count_eq_zero_of_not_mem hnew]
    exact Nat.zero_lt_one
  have hproceed : m.step (.proceed i) = some { m with deleted := i :: m.deleted } := by
    simp [CallDataHeap.step, hm.asserted, hdown, hi', hcount, hans.status]
  refine ⟨_, { m with deleted := i :: m.deleted, notifying := m.notifying.erase i }, hproceed, List.mem_cons_self, ?_⟩
  simp [CallDataHeap.step, hm.asserted, hdown, hi]

/-- In every run a request is deleted at most once, `Proceed` finds it finished, and nothing touches it after that but
    the `NotifyOne` that has answered it: that one unlocks a mutex of the request, and whenever it has called `Finish`
    the request can be deleted before it does. -/
theorem deleted_untouched (h : Reaches m) : m.Safe ∧ (m.process.down = false → ∀ i ∈ m.notifying, i ∉ m.deleted →
    ∃ t u, m.step (.proceed i) = some t ∧ i ∈ t.deleted ∧ t.step (.unlock i) = some u) :=
  ⟨h.inv.safe, fun hdown _ hi hnew => h.inv.unlocks_late hdown hi hnew⟩

/-- The broker has accepted the message of the one user, and `NotifyOne` has not unlocked, before and after the request
    is deleted. -/
theorem deleted_untouched_oneUser : ∃ m t : CallDataHeap, Reaches m ∧ Reaches t ∧
    (m.process.down = false ∧ 0 ∈ m.notifying ∧ m.deleted = []) ∧ (t.notifying = [0] ∧ t.deleted = [0]) ∧ t.Safe ∧
    ∃ t u, m.step (.proceed 0) = some t ∧ 0 ∈ t.deleted ∧ t.step (.unlock 0) = some u := by
  obtain ⟨m, hm, hdown, hnotifying, hnone⟩ := Reaches.of_events (fun m => m.process.down = false ∧ 0 ∈ m.notifying ∧ m.deleted = [])
    (oneUser.map .process ++ [.process (.broker 0 (.onSuccess 0))]) (by decide +kernel)
  obtain ⟨t, ht, hdeleted⟩ := Reaches.of_events (fun t => t.notifying = [0] ∧ t.deleted = [0])
    (oneUser.map .process ++ [.process (.broker 0 (.onSuccess 0)), .proceed 0]) (by decide +kernel)
  exact ⟨m, t, hm, ht, ⟨hdown, hnotifying, hnone⟩, hdeleted, (deleted_untouched ht).1,
    (deleted_untouched hm).2 hdown 0 hnotifying (by simp [hnone])⟩

end CallDataHeap

end PushSystem
