import PushSystem.Theorems.Producer.Replies
import PushSystem.Theorems.Producer.Uids

/-! The messages of a request. The counter is the number of messages without an `onSuccess`, whatever order the
    loop that sends them, the callbacks and the retries run in, and the last `onSuccess` answers the request. -/

namespace PushSystem
open Redis Bitmap Prog

/-! ### Messages and callbacks -/

/-- The messages that a program sends before any other call. -/
def sendsLeft {α : Type} : ProduceMsgProg α → List ProducerMsg
  | .call (.send body) k => body :: sendsLeft (k ())
  | _ => []

/-- The messages of a request from the moment its counter is set: those that have been sent, and the rest. -/
def Handler.messages (h : Handler) : List ProducerMsg := h.data.sends.map (·.body) ++ sendsLeft h.thread.prog

/-- How often the broker has called `onSuccess` for the message `k` of the request `i`. -/
def onSuccesses (es : List ProcessEvent) (i k : Nat) : Nat :=
  es.countP fun e =>
    match e with
    | .broker j (.onSuccess l) => j = i && l = k
    | _ => false

/-- The events lead to the state. -/
def Process.Run (es : List ProcessEvent) (p : Process) : Prop :=
  Runs.exec Process.step (fun _ _ => True) es {} = some p

theorem Process.run_snoc {es : List ProcessEvent} {p q : Process} {e : ProcessEvent} (h : p.Run es)
    (hs : p.step e = some q) : q.Run (es ++ [e]) := by
  rw [Process.Run, Runs.exec_snoc, h]
  exact hs

section OnSuccesses
variable {es : List ProcessEvent} {i k : Nat}

theorem onSuccesses_snoc_self : onSuccesses (es ++ [.broker i (.onSuccess k)]) i k = onSuccesses es i k + 1 := by
  rw [onSuccesses, Count.countP_snoc]
  simp [onSuccesses]

theorem onSuccesses_snoc_of_ne {e : ProcessEvent} (h : e ≠ .broker i (.onSuccess k)) :
    onSuccesses (es ++ [e]) i k = onSuccesses es i k := by
  rw [onSuccesses, Count.countP_snoc]
  cases e with
  | receive | call | throws => rfl
  | broker j b =>
    cases b with
    | onException | retrySending => rfl
    | onSuccess l =>
      have hne : ¬(j = i ∧ l = k) := fun hjl => h (by rw [hjl.1, hjl.2])
      simp [onSuccesses, hne]

theorem onSuccesses_snoc_of_forall {e : ProcessEvent} (h : ∀ k, e ≠ .broker i (.onSuccess k)) :
    onSuccesses (es ++ [e]) i = onSuccesses es i := funext fun k => onSuccesses_snoc_of_ne (h k)

theorem onSuccesses_le_snoc {e : ProcessEvent} : onSuccesses es i k ≤ onSuccesses (es ++ [e]) i k := by
  rw [onSuccesses, onSuccesses, Count.countP_snoc]
  exact Nat.le_add_right _ _

end OnSuccesses

/-! ### A request -/

/-- What `ProduceMsg` does with the bytes of the range. -/
def ProduceMsgRequest.afterFetch (request : ProduceMsgRequest) : Option (List Byte) → ProduceMsgProg ErrCode
  | none => return .err
  | some userInfoStr => sendToUids request.msgId (uidsToSend request.startUid userInfoStr)

theorem produceMsg_eq (request : ProduceMsgRequest) :
    produceMsg request = fetchUserInfoStr request.startUid request.endUid >>= request.afterFetch := rfl

/-- The copy of the range has the length that is asked for. -/
def copiesLength : (o : ProduceMsgOp) → o.Ret → Prop
  | .copy _ len, bytes => bytes.length = len.toNat
  | _, _ => True

theorem copiesLength_of_try {o : ProduceMsgOp} {n : Nat} {c d : ProduceMsgCallData} {r : o.Ret}
    (h : produceMsgTry o n c (some r) d) : copiesLength o r := by
  obtain ⟨outcome, h⟩ := h
  cases o with
  | copy =>
    cases outcome <;> simp [ProduceMsgOp.attempt] at h
    rw [← h.2.1]
    simp [copiesLength, copyBytes]
  | lock | unlock | redis | freeReply | setWaitForSendCount | send | finish => trivial

/-- Only `AsyncProducerWorker` adds a message. -/
theorem sends_of_try {o : ProduceMsgOp} {n : Nat} {c d : ProduceMsgCallData} {r : Option o.Ret}
    (ho : ∀ body, o ≠ .send body) (h : produceMsgTry o n c r d) : d.sends = c.sends := by
  cases o with
  | send body => exact absurd rfl (ho body)
  | setWaitForSendCount =>
    obtain ⟨outcome, h⟩ := h
    cases outcome <;> simp [ProduceMsgOp.attempt] at h
    rw [← h.2]
  | finish =>
    obtain ⟨outcome, h⟩ := h
    cases outcome <;> simp [ProduceMsgOp.attempt] at h
    rw [← h.2, ProduceMsgCallData.finish]
  | lock | unlock | redis | freeReply | copy => exact congrArg (·.sends) (eq_of_quiet (by trivial) h)

theorem send_of_try {body : ProducerMsg} {n : Nat} {c d : ProduceMsgCallData} {r : Option Unit}
    (h : produceMsgTry (.send body) n c r d) :
    r = none ∧ d = c ∨ r = some () ∧ d = { c with sends := c.sends ++ [⟨body, .inFlight⟩] } := by
  obtain ⟨outcome, h⟩ := h
  cases outcome <;> simp [ProduceMsgOp.attempt] at h
  · exact Or.inr ⟨h.1.symm, h.2.symm⟩
  · exact Or.inl ⟨h.1.symm, h.2.symm⟩

def ProduceMsgRequest.messagesTo (request : ProduceMsgRequest) (uids : List UInt64) : List ProducerMsg :=
  uids.map fun uid => ⟨uid, request.msgId⟩

/-- Where the thread of a request is, and what the broker has done for it. -/
inductive Handler.Phase (acks : Nat → Nat) (h : Handler) : Prop where
  | fetching {prog} (hprog : h.thread.prog = prog >>= h.data.request.afterFetch)
    (hquiet : prog.Everywhere fun o _ => o.Quiet)
    (hbytes : prog.Yields copiesLength fun r => ∀ bytes, r = some bytes →
      bytes.length = (h.data.request.endUid / 8 - h.data.request.startUid / 8 + 1).toNat)
    (hfresh : Fresh h.data) (hacks : ∀ k, acks k = 0)
  | sending {userInfoStr rest}
    (hbytes : userInfoStr.length = (h.data.request.endUid / 8 - h.data.request.startUid / 8 + 1).toNat)
    (hprog : h.thread.prog = sendAll h.data.request.msgId rest >>= fun _ => return .success)
    (hbodies : h.data.sends.map (·.body) ++ h.data.request.messagesTo rest =
      h.data.request.messagesTo (uidsToSend h.data.request.startUid userInfoStr))
    (hcount : Counting (uidsToSend h.data.request.startUid userInfoStr).length rest.length h.data)
    (hacks : ∀ k, acks k = if h.data.sends[k]?.any (·.stage = .acked) then 1 else 0)
  | empty (hsends : h.data.sends = []) (hprog : h.thread.prog.Everywhere fun o _ => ∀ body, o ≠ .send body)
    (hacks : ∀ k, acks k = 0)

section Phase
variable {acks : Nat → Nat} {h h' : Handler}

/-- Setting the counter ends the fetching. -/
theorem Handler.Phase.counterSet {userInfoStr : List Byte} {n : Nat} {r : Unit}
    (hbytes : userInfoStr.length = (h.data.request.endUid / 8 - h.data.request.startUid / 8 + 1).toNat)
    (hfresh : Fresh h.data) (hacks : ∀ k, acks k = 0)
    (hm : produceMsgTry (.setWaitForSendCount
      (UInt32.ofNat (uidsToSend h.data.request.startUid userInfoStr).length)) n h.data (some r) h'.data)
    (hp : h'.thread.prog = if (uidsToSend h.data.request.startUid userInfoStr).length ≠ 0 then
        sendAll h.data.request.msgId (uidsToSend h.data.request.startUid userInfoStr) >>= fun _ => return .success
      else ProduceMsgProg.finish >>= fun _ => return .success) : h'.Phase acks := by
  obtain ⟨outcome, hm⟩ := hm
  cases outcome <;> simp [ProduceMsgOp.attempt] at hm
  split at hp
  next hne =>
    have hcount := hfresh.counting (Nat.pos_of_ne_zero hne)
    refine @Handler.Phase.sending _ _ userInfoStr (uidsToSend h.data.request.startUid userInfoStr) ?_ ?_ ?_ ?_ ?_
    · rw [← hm]
      exact hbytes
    · rw [← hm]
      exact hp
    · rw [← hm]
      simp [hfresh.sends]
    · rw [← hm]
      exact hcount
    · rw [← hm]
      simp [hfresh.sends, hacks]
  next =>
    refine .empty ?_ ?_ hacks
    · rw [← hm]
      exact hfresh.sends
    · rw [hp]
      exact ⟨by simp, fun _ => trivial⟩

theorem Handler.Phase.sent {userInfoStr : List Byte} {uid : UInt64} {rest : List UInt64}
    (hbytes : userInfoStr.length = (h.data.request.endUid / 8 - h.data.request.startUid / 8 + 1).toNat)
    (hbodies : h.data.sends.map (·.body) ++ h.data.request.messagesTo (uid :: rest) =
      h.data.request.messagesTo (uidsToSend h.data.request.startUid userInfoStr))
    (hcount : Counting (uidsToSend h.data.request.startUid userInfoStr).length (rest.length + 1) h.data)
    (hacks : ∀ k, acks k = if h.data.sends[k]?.any (·.stage = .acked) then 1 else 0)
    (hdata : h'.data = { h.data with sends := h.data.sends ++ [⟨⟨uid, h.data.request.msgId⟩, .inFlight⟩] })
    (hp : h'.thread.prog = sendAll h.data.request.msgId rest >>= fun _ => return .success) : h'.Phase acks := by
  refine @Handler.Phase.sending _ _ userInfoStr rest ?_ ?_ ?_ ?_ fun k => ?_
  · rw [hdata]
    exact hbytes
  · rw [hdata]
    exact hp
  · rw [hdata]
    simpa [ProduceMsgRequest.messagesTo] using hbodies
  · rw [hdata]
    exact hcount.send
  · rw [hacks k, hdata]
    -- the new message is not acknowledged
    rcases Nat.lt_trichotomy k h.data.sends.length with hk | rfl | hk
    · rw [List.getElem?_append_left hk]
    · simp
    · rw [List.getElem?_eq_none (Nat.le_of_lt hk), List.getElem?_eq_none (by simpa using Nat.succ_le_of_lt hk)]

theorem Handler.Phase.call {outcome : Outcome} (hp : h.Phase acks) (hc : h.call outcome = some h') : h'.Phase acks := by
  obtain ⟨o, k, n, hprog, hcases⟩ := Handler.call_cases hc
  cases hp with
  | @fetching prog heq hquiet hbytes hfresh hacks =>
    cases prog with
    | pure r =>
      cases r with
      | none => cases hprog.symm.trans heq
      | some userInfoStr =>
        obtain ⟨rfl, hk⟩ := Prog.call.inj (hprog.symm.trans heq)
        obtain rfl := eq_of_heq hk
        rcases hcases with ⟨hm, -⟩ | ⟨r, hm, hp'⟩
        · cases outcome <;> simp [ProduceMsgOp.attempt] at hm
        · exact .counterSet (hbytes _ rfl) hfresh hacks ⟨_, hm⟩ hp'
    | call o' k' =>
      obtain ⟨rfl, hk⟩ := Prog.call.inj (hprog.symm.trans heq)
      obtain rfl := eq_of_heq hk
      rcases hcases with ⟨hm, hp'⟩ | ⟨r, hm, hp'⟩
      · have hdata := eq_of_quiet hquiet.1 ⟨_, hm⟩
        rw [← hdata] at hbytes hfresh hp'
        exact @Handler.Phase.fetching _ _ (.call o k') hp' hquiet hbytes hfresh hacks
      · have hdata := eq_of_quiet hquiet.1 ⟨_, hm⟩
        have hcopy := copiesLength_of_try ⟨_, hm⟩
        rw [← hdata] at hbytes hfresh hp'
        exact .fetching hp' (hquiet.2 r) (hbytes r hcopy) hfresh hacks
  | @sending userInfoStr rest hbytes heq hbodies hcount hacks =>
    cases rest with
    | nil => cases hprog.symm.trans heq
    | cons uid rest =>
      obtain ⟨rfl, hk⟩ := Prog.call.inj (hprog.symm.trans heq)
      obtain rfl := eq_of_heq hk
      rcases hcases with ⟨hm, hp'⟩ | ⟨r, hm, hp'⟩ <;> rcases send_of_try ⟨_, hm⟩ with ⟨hr, hdata⟩ | ⟨hr, hdata⟩
      · rw [← hdata] at hbytes hbodies hcount hacks hp'
        exact @Handler.Phase.sending _ _ _ (uid :: rest) hbytes hp' hbodies hcount hacks
      · cases hr
      · cases hr
      · exact .sent hbytes hbodies hcount hacks hdata hp'
  | empty hsends hnone hacks =>
    rw [hprog] at hnone
    rcases hcases with ⟨hm, hp'⟩ | ⟨r, hm, hp'⟩
    · refine .empty ((sends_of_try hnone.1 ⟨_, hm⟩).trans hsends) ?_ hacks
      rw [hp']
      exact hnone
    · refine .empty ((sends_of_try hnone.1 ⟨_, hm⟩).trans hsends) ?_ hacks
      rw [hp']
      exact hnone.2 r

end Phase

/-! ### The broker -/

section BrokerStep
variable {acks : Nat → Nat} {c d : ProduceMsgCallData} {e : BrokerEvent} {h : Handler} {data : ProduceMsgCallData}

theorem ProduceMsgCallData.notifyOne_sends : c.notifyOne.sends = c.sends := by
  unfold ProduceMsgCallData.notifyOne
  split <;> rfl

theorem ProduceMsgCallData.notifyOne_request : c.notifyOne.request = c.request := by
  unfold ProduceMsgCallData.notifyOne
  split <;> rfl

/-- A step of the broker moves one message, which is not acknowledged yet, to another stage. -/
theorem ProduceMsgCallData.broker_sends (hb : c.broker e = some d) :
    ∃ k send stage, c.sends[k]? = some send ∧ send.stage ≠ .acked ∧ d.sends = c.sends.set k { send with stage } ∧
      d.request = c.request ∧ ∀ l, e = .onSuccess l ↔ l = k ∧ stage = .acked := by
  cases e with
  | onSuccess k =>
    obtain ⟨send, hk, hb⟩ := Option.bind_eq_some_iff.mp hb
    split at hb
    next hst =>
      obtain rfl := Option.some.inj hb
      exact ⟨k, send, .acked, hk, by simp [hst], notifyOne_sends, notifyOne_request, by simp [eq_comm]⟩
    next => cases hb
  | onException k =>
    obtain ⟨send, hk, hb⟩ := Option.bind_eq_some_iff.mp hb
    split at hb
    next hst =>
      obtain rfl := Option.some.inj hb
      exact ⟨k, send, .retrying, hk, by simp [hst], rfl, rfl, by simp⟩
    next => cases hb
  | retrySending k thrown =>
    obtain ⟨send, hk, hb⟩ := Option.bind_eq_some_iff.mp hb
    split at hb
    next hst =>
      obtain rfl := Option.some.inj hb
      cases thrown with
      | true =>
        refine ⟨k, send, send.stage, hk, by simp [hst], ?_, rfl, by simp [hst]⟩
        obtain ⟨hlt, rfl⟩ := List.getElem?_eq_some_iff.mp hk
        exact (List.set_getElem_self hlt).symm
      | false => exact ⟨k, send, .inFlight, hk, by simp [hst], rfl, rfl, by simp⟩
    next => cases hb

theorem ProduceMsgCallData.broker_bodies (hb : c.broker e = some d) : d.sends.map (·.body) = c.sends.map (·.body) := by
  obtain ⟨k, send, stage, hk, -, hsends, -⟩ := broker_sends hb
  obtain ⟨hlt, rfl⟩ := List.getElem?_eq_some_iff.mp hk
  rw [hsends, List.map_set]
  exact (congrArg _ (List.getElem_map _).symm).trans (List.set_getElem_self (by simpa using hlt))

theorem Handler.Phase.broker (hp : h.Phase acks) (hb : h.data.broker e = some data) :
    Handler.Phase (fun k => acks k + if e = .onSuccess k then 1 else 0) { h with data } := by
  obtain ⟨k, send, stage, hk, hst, hsends, hrequest, honce⟩ := ProduceMsgCallData.broker_sends hb
  cases hp with
  | fetching hprog hquiet hbytes hfresh hacks => simp [hfresh.sends] at hk
  | empty hsends => simp [hsends] at hk
  | sending hbytes hprog hbodies hcount hacks =>
    rw [← hrequest] at hbytes hprog hbodies hcount
    rw [← ProduceMsgCallData.broker_bodies hb] at hbodies
    refine .sending hbytes hprog hbodies (hcount.broker (Broker.of_event hb)) fun l => ?_
    rw [hacks l, hsends, List.getElem?_set]
    by_cases hl : k = l
    · subst hl
      obtain ⟨hlt, rfl⟩ := List.getElem?_eq_some_iff.mp hk
      simp [hst, hlt, honce]
    · have hne : e ≠ .onSuccess l := fun he => hl ((honce l).mp he).1.symm
      simp [hl, hne]

end BrokerStep

/-! ### Runs -/

/-- Every request is where its events have brought it. -/
structure SendsInv (es : List ProcessEvent) (p : Process) : Prop where
  unknown : ∀ i k, p.handlers.length ≤ i → onSuccesses es i k = 0
  phase : ∀ i h, p.handlers[i]? = some h → Handler.Phase (onSuccesses es i) h

section Runs
variable {es : List ProcessEvent} {p q : Process} {e : ProcessEvent}

theorem SendsInv.init : SendsInv [] {} where
  unknown _ _ _ := rfl
  phase _ _ hi := by cases hi

theorem SendsInv.step (hp : SendsInv es p) (hs : p.step e = some q) : SendsInv (es ++ [e]) q := by
  cases (Process.steps_of_step hs).2 with
  | @receive request =>
    have hsame : ∀ i, onSuccesses (es ++ [.receive request]) i = onSuccesses es i :=
      fun i => onSuccesses_snoc_of_forall (by simp)
    refine ⟨fun i k hi => ?_, fun i h hi => ?_⟩
    · rw [List.length_append] at hi
      exact (congrFun (hsame i) k).trans (hp.unknown i k (Nat.le_of_add_right_le hi))
    · rw [hsame]
      rcases Count.of_getElem?_snoc hi with hi | ⟨rfl, rfl⟩
      · exact hp.phase i h hi
      · refine .fetching (produceMsg_eq request) (everywhere_fetchUserInfoStr.mono fun _ ho => ho.quiet)
          (yields_fetchUserInfoStr_of_copy fun _ _ hlen => hlen) ⟨rfl, rfl, rfl⟩ fun k => hp.unknown _ k (Nat.le_refl _)
  | @call i outcome x x' redisMtx hi hc =>
    have hsame : ∀ j, onSuccesses (es ++ [.call i outcome]) j = onSuccesses es j :=
      fun j => onSuccesses_snoc_of_forall (by simp)
    refine ⟨fun j k hj => ?_, fun j h hj => ?_⟩
    · rw [List.length_set] at hj
      exact (congrFun (hsame j) k).trans (hp.unknown j k hj)
    · rw [hsame]
      rcases Count.of_getElem?_set hj with ⟨rfl, rfl⟩ | ⟨-, hj⟩
      · exact (hp.phase i x hi).call hc
      · exact hp.phase j h hj
  | @throws i =>
    have hsame : ∀ j, onSuccesses (es ++ [.throws i]) j = onSuccesses es j :=
      fun j => onSuccesses_snoc_of_forall (by simp)
    exact ⟨fun j k hj => (congrFun (hsame j) k).trans (hp.unknown j k hj), fun j h hj => hsame j ▸ hp.phase j h hj⟩
  | @broker i b x data hi hb =>
    refine ⟨fun j k hj => ?_, fun j h hj => ?_⟩
    · rw [List.length_set] at hj
      have hij : i ≠ j := by
        rintro rfl
        exact absurd (List.getElem?_eq_some_iff.mp hi).1 (Nat.not_lt.mpr hj)
      rw [onSuccesses_snoc_of_ne (by simp [hij]), hp.unknown j k hj]
    · rcases Count.of_getElem?_set hj with ⟨rfl, rfl⟩ | ⟨hij, hj⟩
      · have hacks : ∀ k, onSuccesses (es ++ [.broker i b]) i k =
            onSuccesses es i k + if b = .onSuccess k then 1 else 0 := by
          intro k
          split
          next hb => rw [hb, onSuccesses_snoc_self]
          next hb => rw [onSuccesses_snoc_of_ne (by simp [hb]), Nat.add_zero]
        rw [funext hacks]
        exact (hp.phase i x hi).broker hb
      · rw [onSuccesses_snoc_of_forall (by simp [hij])]
        exact hp.phase j h hj

theorem sendsInv_of_run (h : p.Run es) : SendsInv es p :=
  Runs.exec_induct h .init fun _ _ _ _ hp _ hs => hp.step hs

end Runs

/-! ### Messages -/

section Messages
variable {acks : Nat → Nat} {h h' : Handler}

theorem sendsLeft_eq_nil {α : Type} {prog : ProduceMsgProg α} (h : prog.Everywhere fun o _ => ∀ body, o ≠ .send body) :
    sendsLeft prog = [] := by
  unfold sendsLeft
  split
  next body k => exact absurd rfl (h.1 body)
  next => rfl

theorem sendsLeft_sendAll (msgId : UInt32) (uids : List UInt64) :
    sendsLeft (sendAll msgId uids >>= fun _ => (return .success : ProduceMsgProg ErrCode)) =
      uids.map fun uid => ⟨uid, msgId⟩ := by
  induction uids with
  | nil => rfl
  | cons uid uids ih => exact congrArg (⟨uid, msgId⟩ :: ·) ih

/-- Nothing is sent before the counter is set. -/
theorem sendsLeft_fetching {request : ProduceMsgRequest} {prog : ProduceMsgProg (Option (List Byte))}
    (h : prog.Everywhere fun o _ => o.Quiet) : sendsLeft (prog >>= request.afterFetch) = [] := by
  cases prog with
  | pure r => cases r <;> rfl
  | call o k =>
    cases o with
    | send body => exact h.1.elim
    | lock | unlock | redis | freeReply | copy | setWaitForSendCount | finish => rfl

theorem Handler.Phase.messages (hp : h.Phase acks) (hne : h.messages ≠ []) :
    ∃ userInfoStr rest,
      userInfoStr.length = (h.data.request.endUid / 8 - h.data.request.startUid / 8 + 1).toNat ∧
      h.messages = h.data.request.messagesTo (uidsToSend h.data.request.startUid userInfoStr) ∧
      h.thread.prog = (sendAll h.data.request.msgId rest >>= fun _ => return .success) ∧
      Counting (uidsToSend h.data.request.startUid userInfoStr).length rest.length h.data ∧
      ∀ k, acks k = if h.data.sends[k]?.any (·.stage = .acked) then 1 else 0 := by
  cases hp with
  | fetching hprog hquiet hbytes hfresh hacks =>
    rw [Handler.messages, hfresh.sends, hprog, sendsLeft_fetching hquiet] at hne
    exact absurd rfl hne
  | empty hsends hprog hacks =>
    rw [Handler.messages, hsends, sendsLeft_eq_nil hprog] at hne
    exact absurd rfl hne
  | @sending userInfoStr rest hbytes hprog hbodies hcount hacks =>
    refine ⟨userInfoStr, rest, hbytes, ?_, hprog, hcount, hacks⟩
    rw [← hbodies, Handler.messages, hprog, sendsLeft_sendAll]
    rfl

/-- The thread keeps the messages once the counter is set. -/
theorem Handler.Phase.call_messages {outcome : Outcome} (hp : h.Phase acks) (hne : h.messages ≠ [])
    (hc : h.call outcome = some h') : h'.messages = h.messages ∧ h'.data.request = h.data.request := by
  obtain ⟨-, rest, -, -, hprog, -⟩ := hp.messages hne
  obtain ⟨o, k, n, hcall, hcases⟩ := Handler.call_cases hc
  cases rest with
  | nil => cases hcall.symm.trans hprog
  | cons uid rest =>
    obtain ⟨rfl, hk⟩ := Prog.call.inj (hcall.symm.trans hprog)
    obtain rfl := eq_of_heq hk
    rcases hcases with ⟨hm, hp'⟩ | ⟨r, hm, hp'⟩ <;> rcases send_of_try ⟨_, hm⟩ with ⟨hr, hdata⟩ | ⟨hr, hdata⟩
    · rw [Handler.messages, Handler.messages, hdata, hp', hcall]
      exact ⟨rfl, rfl⟩
    · cases hr
    · cases hr
    · rw [Handler.messages, Handler.messages, hdata, hp', hcall]
      exact ⟨by simp [sendsLeft], rfl⟩

theorem Handler.broker_messages {e : BrokerEvent} {data : ProduceMsgCallData} (hb : h.data.broker e = some data) :
    Handler.messages { h with data } = h.messages := by
  rw [Handler.messages, Handler.messages, ProduceMsgCallData.broker_bodies hb]

end Messages

/-! ### Answers -/

/-- The range of the request is one that the daemon sends. -/
def ProduceMsgRequest.Dispatched (request : ProduceMsgRequest) : Prop :=
  request.startUid ≤ request.endUid ∧ request.endUid.toNat - request.startUid.toNat < 4096

/-- The messages of a request, one to each uid of `uidsToSend`, after the events. -/
structure SendsExact (es : List ProcessEvent) (i : Nat) (h : Handler) : Prop where
  uids : ∃ userInfoStr : List Byte,
    userInfoStr.length = (h.data.request.endUid / 8 - h.data.request.startUid / 8 + 1).toNat ∧
      h.messages = h.data.request.messagesTo (uidsToSend h.data.request.startUid userInfoStr)
  distinct : h.messages.Nodup
  /-- The counter is the number of messages without an `onSuccess`. -/
  count : h.data.waitForSendCount.toNat = (List.range h.messages.length).countP fun k => onSuccesses es i k = 0
  once : ∀ k, onSuccesses es i k ≤ 1
  /-- `NotifyOne` does not decrement 0. -/
  positive : ∀ k d, h.data.broker (.onSuccess k) = some d → h.data.waitForSendCount ≠ 0
  answered : h.data.finished = if ∀ k < h.messages.length, onSuccesses es i k = 1 then [⟨.success⟩] else []

section Exact
variable {es : List ProcessEvent} {p q : Process} {e : ProcessEvent} {i : Nat} {h h' : Handler}

theorem bytes_le_of_dispatched {request : ProduceMsgRequest} (hr : request.Dispatched) :
    (request.endUid / 8 - request.startUid / 8 + 1).toNat ≤ 513 := by
  rw [byteCount_toNat hr.1]
  have hsize := hr.2
  have hle := UInt64.le_iff_toNat_le.mp hr.1
  omega

theorem Handler.Phase.exact (hp : h.Phase (onSuccesses es i)) (hne : h.messages ≠ []) (hr : h.data.request.Dispatched) :
    SendsExact es i h := by
  obtain ⟨userInfoStr, rest, hbytes, hmessages, -, hcount, hacks⟩ := hp.messages hne
  have hlen : userInfoStr.length ≤ 513 := hbytes ▸ bytes_le_of_dispatched hr
  have htotal : (uidsToSend h.data.request.startUid userInfoStr).length ≤ 8 * 513 := by
    rw [length_uidsToSend]
    exact List.countP_le_length.trans (by rw [List.length_range]; omega)
  have hlength : h.messages.length = h.data.sends.length + rest.length := by
    rw [hmessages, ProduceMsgRequest.messagesTo, List.length_map, hcount.sent]
  have hwait : (List.range h.messages.length).countP (fun k => decide (onSuccesses es i k = 0)) =
      h.data.outstanding + rest.length := by
    have hpos := Count.countP_getElem? h.data.sends rest.length fun send => !send.any (·.stage = .acked)
    simp only [Option.any_none, Bool.not_false, if_true, Option.any_some] at hpos
    rw [hlength, ProduceMsgCallData.outstanding]
    refine Eq.trans (congrArg (List.countP · _) (funext fun k => ?_)) (hpos.trans ?_)
    · rw [hacks k]
      split <;> simp_all
    · simp
  have hzero : (∀ k < h.messages.length, onSuccesses es i k = 1) ↔ rest.length + h.data.outstanding = 0 := by
    rw [Nat.add_comm, ← hwait, List.countP_eq_zero]
    refine forall_congr' fun k => imp_congr List.mem_range.symm ?_
    rw [decide_eq_true_eq, hacks k]
    split <;> simp
  refine ⟨⟨userInfoStr, hbytes, hmessages⟩, ?_, ?_, fun k => ?_, fun k d hb => ?_, ?_⟩
  · rw [hmessages]
    exact (nodup_uidsToSend _ (by omega)).map fun _ _ heq => (ProducerMsg.mk.inj heq).1
  · rw [hwait, hcount.count, UInt32.toNat_ofNat', Nat.add_comm, Nat.mod_eq_of_lt]
    have := hcount.sent
    have := ProduceMsgCallData.outstanding_le (c := h.data)
    omega
  · rw [hacks k]
    split
    · exact Nat.le_refl _
    · exact Nat.zero_le _
  · intro hz
    obtain ⟨j, send, stage, hj, hst, -, -, hack⟩ := ProduceMsgCallData.broker_sends hb
    have hout := ProduceMsgCallData.outstanding_acked hj hst
    have hle := ProduceMsgCallData.outstanding_le (c := h.data)
    have hsent := hcount.sent
    rw [hcount.count, ofNat_eq_zero_iff] at hz
    omega
  · have honce := hcount.once (by omega)
    simp only [hzero]
    split at honce
    next hz => rw [if_pos hz, honce.1]
    next hz => rw [if_neg hz, honce.1]

def LastSuccess (es : List ProcessEvent) (i n : Nat) (e : ProcessEvent) : Prop :=
  ∃ k < n, e = .broker i (.onSuccess k) ∧ ∀ l < n, l ≠ k → onSuccesses es i l = 1

/-- A step keeps the messages of a request, and answers it if it is the last `onSuccess`. -/
theorem SendsExact.step (hx : SendsExact es i h) (hx' : SendsExact (es ++ [e]) i h') (hm : h'.messages = h.messages) :
    h'.data.finished ≠ h.data.finished ↔ LastSuccess es i h.messages.length e := by
  rw [hx.answered, hx'.answered, hm]
  constructor
  · intro hne
    have hmono : (∀ k < h.messages.length, onSuccesses es i k = 1) →
        ∀ k < h.messages.length, onSuccesses (es ++ [e]) i k = 1 :=
      fun hall k hk => Nat.le_antisymm (hx'.once k) (hall k hk ▸ onSuccesses_le_snoc)
    split at hne
    next hall =>
      obtain ⟨k, hk, hzero⟩ : ∃ k < h.messages.length, onSuccesses es i k ≠ 1 := by
        by_contra hnot
        push Not at hnot
        exact hne (if_pos hnot).symm
      have hack : e = .broker i (.onSuccess k) := by
        by_contra hno
        exact hzero (onSuccesses_snoc_of_ne hno ▸ hall k hk)
      refine ⟨k, hk, hack, fun l hl hlk => ?_⟩
      rw [← hall l hl, onSuccesses_snoc_of_ne (by simpa [hack] using Ne.symm hlk)]
    next hnot =>
      rw [if_neg fun hall => hnot (hmono hall)] at hne
      exact absurd rfl hne
  · rintro ⟨k, hk, rfl, hrest⟩
    have hle := hx'.once k
    rw [onSuccesses_snoc_self] at hle
    have hall : ∀ l < h.messages.length, onSuccesses (es ++ [.broker i (.onSuccess k)]) i l = 1 := by
      intro l hl
      by_cases hlk : l = k
      · subst hlk
        rw [onSuccesses_snoc_self]
        omega
      · rw [onSuccesses_snoc_of_ne (by simpa using Ne.symm hlk), hrest l hl hlk]
    rw [if_pos hall, if_neg fun hnot => by have := hnot k hk; omega]
    simp

end Exact

/-- Each next step keeps the messages of the request, and answers it exactly if it is the last `onSuccess`. -/
def AnsweredLast (es : List ProcessEvent) (p : Process) (i : Nat) (h : Handler) : Prop :=
  ∀ e q h', p.step e = some q → q.handlers[i]? = some h' →
    h'.messages = h.messages ∧ (h'.data.finished ≠ h.data.finished ↔ LastSuccess es i h.messages.length e)

/-- In every run the counter of a request with messages is the number of those without an `onSuccess`, and the
    last `onSuccess` answers the request. -/
theorem sends_exact {es : List ProcessEvent} {p : Process} {i : Nat} {h : Handler} (hrun : p.Run es)
    (hi : p.handlers[i]? = some h) (hr : h.data.request.Dispatched) (hne : h.messages ≠ []) :
    SendsExact es i h ∧ AnsweredLast es p i h := by
  have hinv := sendsInv_of_run hrun
  have hphase := hinv.phase i h hi
  have hx := hphase.exact hne hr
  refine ⟨hx, fun e q h' hs hi' => ?_⟩
  have hkept : h'.messages = h.messages ∧ h'.data.request = h.data.request := by
    cases (Process.steps_of_step hs).2 with
    | receive =>
      rw [Count.getElem?_snoc_of_some hi] at hi'
      obtain rfl := Option.some.inj hi'
      exact ⟨rfl, rfl⟩
    | throws =>
      obtain rfl := Option.some.inj (hi.symm.trans hi')
      exact ⟨rfl, rfl⟩
    | call hj hc =>
      rcases Count.of_getElem?_set hi' with ⟨rfl, rfl⟩ | ⟨-, hi'⟩
      · obtain rfl := Option.some.inj (hi.symm.trans hj)
        exact hphase.call_messages hne hc
      · obtain rfl := Option.some.inj (hi.symm.trans hi')
        exact ⟨rfl, rfl⟩
    | broker hj hb =>
      rcases Count.of_getElem?_set hi' with ⟨rfl, rfl⟩ | ⟨-, hi'⟩
      · obtain rfl := Option.some.inj (hi.symm.trans hj)
        obtain ⟨-, -, -, -, -, -, hrequest, -⟩ := ProduceMsgCallData.broker_sends hb
        exact ⟨Handler.broker_messages hb, hrequest⟩
      · obtain rfl := Option.some.inj (hi.symm.trans hi')
        exact ⟨rfl, rfl⟩
  obtain ⟨hmessages, hrequest⟩ := hkept
  have hx' := ((hinv.step hs).phase i h' hi').exact (hmessages ▸ hne) (hrequest ▸ hr)
  exact ⟨hmessages, hx.step hx' hmessages⟩

/-- The broker rejects the message, the first retry throws, and the second one is accepted. -/
def retriedOnce : List ProcessEvent :=
  oneUser ++ [.broker 0 (.onException 0), .broker 0 (.retrySending 0 true), .broker 0 (.retrySending 0 false),
    .broker 0 (.onSuccess 0)]

theorem sends_exact_retriedOnce : ∃ (p : Process) (h : Handler), p.Run retriedOnce ∧ p.handlers[0]? = some h ∧
    h.messages = [⟨0, 1⟩] ∧ h.data.finished = [⟨.success⟩] ∧ SendsExact retriedOnce 0 h ∧
      AnsweredLast retriedOnce p 0 h := by
  have hend : (Runs.exec Process.step (fun _ _ => True) retriedOnce {}).any (fun p => p.handlers[0]?.any fun h =>
      decide (h.messages = [⟨0, 1⟩] ∧ h.data.finished = [⟨.success⟩] ∧ h.data.request = ⟨1, 0, 7⟩)) = true := by
    decide +kernel
  obtain ⟨p, hrun, hp⟩ := (Option.any_eq_true _ _).mp hend
  obtain ⟨h, hi, hh⟩ := (Option.any_eq_true _ _).mp hp
  obtain ⟨hmessages, hfin, hrequest⟩ := of_decide_eq_true hh
  have hr : h.data.request.Dispatched := by
    rw [hrequest]
    exact ⟨by decide, by decide⟩
  exact ⟨p, h, hrun, hi, hmessages, hfin, sends_exact hrun hi hr (by rw [hmessages]; simp)⟩

end PushSystem
