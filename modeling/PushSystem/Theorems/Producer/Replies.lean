import PushSystem.Theorems.Producer.Steps

/-! Every request is answered or still can be, as long as `ProduceMsg` takes none of its error exits: the counter of
    a request is the number of its messages that the broker has not accepted, and the last one answers. -/

namespace PushSystem
open Redis Bitmap Prog

/-! ### The counter -/

namespace ProduceMsgCallData
variable {c : ProduceMsgCallData} {k : Nat} {send : Send} {stage : SendStage}

theorem outstanding_acked (hk : c.sends[k]? = some send) (hst : send.stage ≠ .acked) :
    (c.setStage k send .acked).outstanding + 1 = c.outstanding := by
  have hcount := Count.countP_set (p := fun x : Send => decide (x.stage ≠ .acked))
    (b := { send with stage := .acked }) hk
  simp only [hst, ne_eq, not_false_eq_true, decide_true, if_true, not_true_eq_false, decide_false, Bool.false_eq_true,
    if_false, Nat.add_zero] at hcount
  exact hcount

theorem outstanding_moved (hk : c.sends[k]? = some send) (hst : send.stage ≠ .acked) (hnew : stage ≠ .acked) :
    (c.setStage k send stage).outstanding = c.outstanding := by
  have hcount := Count.countP_set (p := fun x : Send => decide (x.stage ≠ .acked))
    (b := { send with stage := stage }) hk
  simp only [hst, hnew, ne_eq, not_false_eq_true, decide_true, if_true] at hcount
  exact Nat.add_right_cancel hcount

theorem outstanding_notifyOne : c.notifyOne.outstanding = c.outstanding := by
  unfold notifyOne
  split <;> rfl

end ProduceMsgCallData

/-- Of `total` uids the last `unsent` are still to be sent; `waitForSendCount` counts them and the messages that
    are outstanding. -/
structure Counting (total unsent : Nat) (c : ProduceMsgCallData) : Prop where
  sent : c.sends.length + unsent = total
  count : c.waitForSendCount = UInt32.ofNat (unsent + c.outstanding)
  answered : unsent + c.outstanding = 0 → c.finished ≠ []
  /-- A list that fits the counter is answered once. -/
  once : total ≤ 2 ^ 32 →
    if unsent + c.outstanding = 0 then c.finished = [⟨.success⟩] ∧ c.taskShare = 0
    else c.finished = [] ∧ c.taskShare = 1

section Counting
variable {total unsent : Nat} {c d : ProduceMsgCallData}

theorem ProduceMsgCallData.outstanding_le : c.outstanding ≤ c.sends.length := List.countP_le_length

theorem ofNat_eq_zero_iff {n : Nat} : UInt32.ofNat n = 0 ↔ n % 2 ^ 32 = 0 := by
  rw [← UInt32.toNat_inj]
  simp

/-- `NotifyOne` answers if the counter comes to zero. -/
theorem ProduceMsgCallData.notifyOne_cases {n : Nat} (h : c.waitForSendCount = UInt32.ofNat (n + 1)) :
    (n % 2 ^ 32 = 0 ∧
      c.notifyOne = { c.finish with waitForSendCount := UInt32.ofNat n, taskShare := c.taskShare - 1 }) ∨
    (n % 2 ^ 32 ≠ 0 ∧ c.notifyOne = { c with waitForSendCount := UInt32.ofNat n }) := by
  have hcount : c.waitForSendCount - 1 = UInt32.ofNat n := by simp [h]
  unfold ProduceMsgCallData.notifyOne
  rw [hcount]
  split
  next hz => exact Or.inl ⟨ofNat_eq_zero_iff.mp hz, rfl⟩
  next hz => exact Or.inr ⟨fun h => hz (ofNat_eq_zero_iff.mpr h), rfl⟩

theorem Counting.broker (h : Counting total unsent c) (hb : Broker c d) : Counting total unsent d := by
  cases hb with
  | thrown => exact h
  | moved hk hst hnew =>
    have hout := ProduceMsgCallData.outstanding_moved hk hst hnew
    refine ⟨?_, ?_, ?_, ?_⟩
    · simpa [ProduceMsgCallData.setStage] using h.sent
    · rw [hout]
      exact h.count
    · rw [hout]
      exact h.answered
    · rw [hout]
      exact h.once
  | @acked k send hk hst =>
    have hout := ProduceMsgCallData.outstanding_acked hk hst
    have hpos : unsent + c.outstanding = unsent + (c.setStage k send .acked).outstanding + 1 := by omega
    have hlen : (c.setStage k send .acked).sends.length = c.sends.length := List.length_set
    have hle := ProduceMsgCallData.outstanding_le (c := c)
    have hmod : unsent + (c.setStage k send .acked).outstanding = 0 →
        (unsent + (c.setStage k send .acked).outstanding) % 2 ^ 32 = 0 := fun hzero => by rw [hzero, Nat.zero_mod]
    have honce := h.once
    rw [hpos, if_neg (Nat.succ_ne_zero _)] at honce
    have hsent := h.sent
    rcases ProduceMsgCallData.notifyOne_cases (c := c.setStage k send .acked) (hpos ▸ h.count) with
      ⟨hz, heq⟩ | ⟨hz, heq⟩
    · rw [heq]
      refine ⟨hlen ▸ hsent, rfl, fun _ => by simp [ProduceMsgCallData.finish], fun htotal => ?_⟩
      obtain ⟨hfin, hshare⟩ := honce htotal
      have hzero : unsent + (c.setStage k send .acked).outstanding = 0 := by omega
      refine (if_pos hzero).mpr ⟨?_, ?_⟩
      · exact congrArg (· ++ [⟨.success⟩]) hfin
      · exact congrArg (· - 1) hshare
    · rw [heq]
      exact ⟨hlen ▸ hsent, rfl, fun hzero => absurd (hmod hzero) hz,
        fun htotal => (if_neg fun hzero => hz (hmod hzero)).mpr (honce htotal)⟩

theorem Counting.send {body : ProducerMsg} (h : Counting total (unsent + 1) c) :
    Counting total unsent { c with sends := c.sends ++ [⟨body, .inFlight⟩] } := by
  have hout : ({ c with sends := c.sends ++ [⟨body, .inFlight⟩] } : ProduceMsgCallData).outstanding = c.outstanding + 1 :=
    Count.countP_snoc
  have hsum : unsent + (c.outstanding + 1) = unsent + 1 + c.outstanding := by omega
  have hsent := h.sent
  refine ⟨?_, ?_, ?_, ?_⟩
  · simp only [List.length_append, List.length_singleton]
    omega
  · rw [hout, hsum]
    exact h.count
  · rw [hout, hsum]
    exact h.answered
  · rw [hout, hsum]
    exact h.once

end Counting

/-! ### `ProduceMsg` -/

/-- Nothing has been sent or answered. -/
structure Fresh (c : ProduceMsgCallData) : Prop where
  sends : c.sends = []
  finished : c.finished = []
  share : c.taskShare = 1

section Fresh
variable {c d : ProduceMsgCallData}

theorem Fresh.broker (h : Fresh c) (hb : Broker c d) : Fresh d := by
  cases hb with
  | acked hk => simp [h.sends] at hk
  | moved hk => simp [h.sends] at hk
  | thrown => exact h

theorem Fresh.counting {total : Nat} (h : Fresh c) (hpos : 0 < total) :
    Counting total total { c with waitForSendCount := UInt32.ofNat total } := by
  have hout : ({ c with waitForSendCount := UInt32.ofNat total } : ProduceMsgCallData).outstanding = 0 := by
    simp [ProduceMsgCallData.outstanding, h.sends]
  refine ⟨by simp [h.sends], by rw [hout, Nat.add_zero], fun hzero => by omega, fun _ => ?_⟩
  rw [if_neg (by omega)]
  exact ⟨h.finished, h.share⟩

end Fresh

/-- The broker takes no answer back. -/
theorem Broker.finished {c d : ProduceMsgCallData} (hb : Broker c d) (h : c.finished ≠ []) : d.finished ≠ [] := by
  cases hb with
  | thrown => exact h
  | moved => exact h
  | acked hk hst =>
    unfold ProduceMsgCallData.notifyOne
    split
    · simp [ProduceMsgCallData.finish]
    · exact h

/-- The call does not change the request. -/
def ProduceMsgOp.Quiet : ProduceMsgOp → Prop
  | .setWaitForSendCount _ | .send _ | .finish => False
  | _ => True

theorem eq_of_quiet {o : ProduceMsgOp} {n : Nat} {c d : ProduceMsgCallData} {r : Option o.Ret} (ho : o.Quiet)
    (h : produceMsgTry o n c r d) : d = c := by
  obtain ⟨outcome, h⟩ := h
  cases o with
  | setWaitForSendCount | send | finish => exact ho.elim
  | lock | unlock | freeReply =>
    cases outcome <;> simp [ProduceMsgOp.attempt] at h
    exact h.2.symm
  | redis =>
    cases outcome <;> simp [ProduceMsgOp.attempt] at h
    · exact h.2.symm
    · exact h.2.2.symm
  | copy =>
    cases outcome <;> simp [ProduceMsgOp.attempt] at h
    exact h.2.2.symm

/-- The Redis commands that `ProduceMsg` can send for a range. -/
inductive ProduceMsgCommand (startUid endUid : UInt64) : RedisCommand → Prop where
  | existsAudience : ProduceMsgCommand startUid endUid (.existsKey tmpUserInfoKey)
  | bitop : ProduceMsgCommand startUid endUid bitopAudience
  | expire : ProduceMsgCommand startUid endUid expireAudience
  | getrange : ProduceMsgCommand startUid endUid
    (.getrange tmpUserInfoKey (startUid / 8).toNat (endUid / 8).toNat)

/-- The calls under the lock. -/
def ProduceMsgOp.Fetches (startUid endUid : UInt64) : ProduceMsgOp → Prop
  | .setWaitForSendCount _ | .send _ | .finish => False
  | .redis cmd => ProduceMsgCommand startUid endUid cmd
  | _ => True

theorem ProduceMsgOp.Fetches.quiet {startUid endUid : UInt64} {o : ProduceMsgOp} (h : o.Fetches startUid endUid) :
    o.Quiet := by
  cases o with
  | setWaitForSendCount | send | finish => exact h
  | lock | unlock | redis | freeReply | copy => trivial

section Fetch
variable {startUid endUid : UInt64}

theorem everywhere_readUserInfoStr :
    (readUserInfoStr startUid endUid).Everywhere fun o _ => o.Fetches startUid endUid := by
  refine ⟨.getrange, fun reply => ?_⟩
  cases reply with
  | none => exact ⟨trivial, fun _ => trivial⟩
  | some => exact ⟨trivial, fun _ => ⟨trivial, fun _ => ⟨trivial, fun _ => trivial⟩⟩⟩

theorem everywhere_createTmpUserInfoKey :
    createTmpUserInfoKey.Everywhere fun o _ => o.Fetches startUid endUid := by
  have hunlock : (ProduceMsgProg.unlock >>= fun _ => return false : ProduceMsgProg Bool).Everywhere
      fun o _ => o.Fetches startUid endUid := ⟨trivial, fun _ => trivial⟩
  refine ⟨.bitop, fun reply => ?_⟩
  cases reply with
  | none => exact hunlock
  | some reply =>
    show Everywhere _ (if reply.toInteger ≤ 0 then _ else _)
    split
    · exact hunlock
    · refine ⟨trivial, fun _ => ⟨.expire, fun reply => ?_⟩⟩
      cases reply with
      | none => exact hunlock
      | some reply =>
        show Everywhere _ (if reply.toInteger = 0 then _ else _)
        split
        · exact hunlock
        · exact ⟨trivial, fun _ => trivial⟩

theorem everywhere_fetchUserInfoStr :
    (fetchUserInfoStr startUid endUid).Everywhere fun o _ => o.Fetches startUid endUid := by
  refine ⟨trivial, fun _ => ⟨.existsAudience, fun reply => ?_⟩⟩
  cases reply with
  | none => exact ⟨trivial, fun _ => trivial⟩
  | some reply =>
    refine ⟨trivial, fun _ => ?_⟩
    show Everywhere _ (if reply.toInteger = 0 then _ else _)
    split
    · refine everywhere_bind everywhere_createTmpUserInfoKey fun ok => ?_
      cases ok with
      | false => trivial
      | true => exact everywhere_readUserInfoStr
    · exact everywhere_readUserInfoStr

end Fetch

theorem everywhere_sendToUids {R : RedisCommand → Prop} (msgId : UInt32) (uids : List UInt64) :
    (sendToUids msgId uids).Everywhere fun o _ => ∀ cmd, o = .redis cmd → R cmd := by
  have hsend : (sendAll msgId uids).Everywhere fun o _ => ∀ cmd, o = .redis cmd → R cmd := by
    induction uids with
    | nil => trivial
    | cons uid uids ih => exact ⟨by simp, fun _ => ih⟩
  refine ⟨by simp, fun _ => ?_⟩
  show Everywhere _ (if uids.length ≠ 0 then _ else _)
  split
  · exact everywhere_bind hsend fun _ => trivial
  · exact ⟨by simp, fun _ => trivial⟩

theorem everywhere_produceMsg (request : ProduceMsgRequest) :
    (produceMsg request).Everywhere fun o _ =>
      ∀ cmd, o = .redis cmd → ProduceMsgCommand request.startUid request.endUid cmd := by
  refine everywhere_bind (everywhere_fetchUserInfoStr.mono ?_) fun userInfoStr => ?_
  · rintro o ho cmd rfl
    exact ho
  · cases userInfoStr with
    | none => trivial
    | some => exact everywhere_sendToUids _ _

section Wp
variable {φ : (o : ProduceMsgOp) → Option o.Ret → Bool} {J : ProduceMsgCallData → Prop} {c : ProduceMsgCallData}

theorem wp_sendAll {total : Nat} (hJ : ∀ n c, Counting total n c → J c) (msgId : UInt32) {uids : List UInt64}
    (h : Counting total uids.length c) :
    wp (produceMsgTry.under fun o _ _ r _ => φ o r) Broker J (sendAll msgId uids) (fun _ d => Counting total 0 d) c := by
  induction uids generalizing c with
  | nil => exact ⟨hJ _ _ h, h⟩
  | cons uid uids ih =>
    refine ⟨Counting total (uids.length + 1), ⟨fun d hd => hJ _ d hd, fun _ _ hd he => hd.broker he, ?_, ?_⟩, h⟩
    · rintro n d d' hd ⟨⟨outcome, hm⟩, -⟩
      cases outcome <;> simp [ProduceMsgOp.attempt] at hm
      exact hm ▸ hd
    · rintro n d r d' hd ⟨⟨outcome, hm⟩, -⟩
      cases outcome <;> simp [ProduceMsgOp.attempt] at hm
      exact ih (hm ▸ hd.send)

theorem wp_sendToUids {uids : List UInt64} (hfresh : ∀ c, Fresh c → J c) (hJ : ∀ n c, Counting uids.length n c → J c)
    (msgId : UInt32) (hpos : uids ≠ []) (h : Fresh c) :
    wp (produceMsgTry.under fun o _ _ r _ => φ o r) Broker J (sendToUids msgId uids)
      (fun _ d => Counting uids.length 0 d) c := by
  have hlen : uids.length ≠ 0 := fun hzero => hpos (List.length_eq_zero_iff.mp hzero)
  refine ⟨Fresh, ⟨hfresh, fun _ _ hf he => hf.broker he, ?_, ?_⟩, h⟩
  · rintro n d d' hf ⟨⟨outcome, hm⟩, -⟩
    cases outcome <;> simp [ProduceMsgOp.attempt] at hm
  · rintro n d r d' hf ⟨⟨outcome, hm⟩, -⟩
    cases outcome <;> simp [ProduceMsgOp.attempt] at hm
    subst hm
    show wp _ _ _ (if uids.length ≠ 0 then _ else _) _ _
    rw [if_pos hlen]
    have hcounting := hf.counting (Nat.pos_of_ne_zero hlen)
    exact wp_bind ((wp_sendAll hJ msgId hcounting).mono fun _ d hj hd => ⟨hj, hd⟩)

/-- The empty list is answered at once. -/
theorem wp_sendToUids_nil (msgId : UInt32) :
    wp (produceMsgTry.under fun o _ _ r _ => φ o r) Broker (fun _ => True) (sendToUids msgId [])
      (fun _ d => d.finished ≠ []) c := by
  refine ⟨fun _ => True, ⟨fun _ _ => trivial, fun _ _ _ _ => trivial, fun _ _ _ _ _ => trivial, ?_⟩, trivial⟩
  refine fun n d r d' _ _ => ⟨fun _ => True, ⟨fun _ _ => trivial, fun _ _ _ _ => trivial, fun _ _ _ _ _ => trivial, ?_⟩,
    trivial⟩
  rintro n d r d' - ⟨⟨outcome, hm⟩, -⟩
  cases outcome <;> simp [ProduceMsgOp.attempt] at hm
  exact ⟨trivial, by simp [← hm, ProduceMsgCallData.finish]⟩

/-- What is done under the lock leaves the request as it was. -/
theorem wp_fetchUserInfoStr {startUid endUid : UInt64} {ψ : Option (List Byte) → Prop} (hfresh : ∀ c, Fresh c → J c)
    (hy : (fetchUserInfoStr startUid endUid).Yields (fun o r => φ o (some r)) ψ) (h : Fresh c) :
    wp (produceMsgTry.under fun o _ _ r _ => φ o r) Broker J (fetchUserInfoStr startUid endUid)
      (fun r d => ψ r ∧ Fresh d) c := by
  have hkeep : wp (produceMsgTry.under fun o _ _ r _ => φ o r) Broker Fresh (fetchUserInfoStr startUid endUid)
      (fun r _ => ψ r) c :=
    wp_of_yields (fun _ _ hf he => hf.broker he) (fun _ _ _ _ _ ho hf hm => eq_of_quiet ho hm.1 ▸ hf)
      (everywhere_fetchUserInfoStr.mono fun _ ho => ho.quiet) (fun _ _ _ _ _ _ hm => hm.2) hy h
  exact (hkeep.mono fun r d hf hr => ⟨hr, hf⟩).weaken hfresh

end Wp

/-! ### Answers -/

/-- The error exits of `ProduceMsg` are not taken. -/
def accepts : (o : ProduceMsgOp) → Option o.Ret → Bool
  | .redis (.existsKey _), some reply | .redis (.getrange _ _ _), some reply => reply.isSome
  | .redis (.bitop _ _ _ _), some reply | .redis (.expire _ _), some reply => reply.any fun x => 0 < x.toInteger
  | _, _ => true

/-- The steps after which no request takes an error exit or ends the process. -/
def repliesAccepted (p : Process) : ProcessEvent → Bool
  | .throws _ => false
  | e => p.allows accepts e

theorem yields_readUserInfoStr {startUid endUid : UInt64} :
    (readUserInfoStr startUid endUid).Yields (fun o r => accepts o (some r)) fun r => r.isSome := by
  intro reply hr
  cases reply with
  | none => cases hr
  | some => exact fun _ _ _ _ _ _ => rfl

theorem yields_createTmpUserInfoKey :
    createTmpUserInfoKey.Yields (fun o r => accepts o (some r)) fun ok => ok = true := by
  intro reply hr
  cases reply with
  | none => cases hr
  | some reply =>
    have hpos : 0 < reply.toInteger := of_decide_eq_true hr
    show Yields _ _ (if reply.toInteger ≤ 0 then _ else _)
    rw [if_neg (Nat.not_le_of_lt hpos)]
    intro _ _ reply hr
    cases reply with
    | none => cases hr
    | some reply =>
      have hpos : 0 < reply.toInteger := of_decide_eq_true hr
      show Yields _ _ (if reply.toInteger = 0 then _ else _)
      rw [if_neg (Nat.ne_of_gt hpos)]
      exact fun _ _ => rfl

theorem yields_fetchUserInfoStr {startUid endUid : UInt64} :
    (fetchUserInfoStr startUid endUid).Yields (fun o r => accepts o (some r)) fun r => r.isSome := by
  intro _ _ reply hr
  cases reply with
  | none => cases hr
  | some reply =>
    intro _ _
    show Yields _ _ (if reply.toInteger = 0 then _ else _)
    split
    · refine yields_bind (yields_createTmpUserInfoKey.mono fun ok hok => ?_)
      subst hok
      exact yields_readUserInfoStr
    · exact yields_readUserInfoStr

/-- What holds of every copy of the range holds of the bytes that are decoded. -/
theorem yields_fetchUserInfoStr_of_copy {startUid endUid : UInt64} {A : (o : ProduceMsgOp) → o.Ret → Prop}
    {φ : List Byte → Prop} (h : ∀ str bytes, A (.copy str (endUid / 8 - startUid / 8 + 1)) bytes → φ bytes) :
    (fetchUserInfoStr startUid endUid).Yields A fun r => ∀ bytes, r = some bytes → φ bytes := by
  have hread : (readUserInfoStr startUid endUid).Yields A fun r => ∀ bytes, r = some bytes → φ bytes := by
    intro reply _
    cases reply with
    | none => exact fun _ _ _ h => by cases h
    | some reply =>
      intro userInfoStr hr _ _ _ _ bytes heq
      obtain rfl := Option.some.inj heq
      exact h _ _ hr
  intro _ _ reply _
  cases reply with
  | none => exact fun _ _ _ h => by cases h
  | some reply =>
    intro _ _
    show Yields _ _ (if reply.toInteger = 0 then _ else _)
    split
    · refine yields_bind (yields_of_forall fun ok => ?_)
      cases ok with
      | false => exact fun _ h => by cases h
      | true => exact hread
    · exact hread

/-- The counter of a request is the number of its outstanding messages. -/
structure Waiting (c : ProduceMsgCallData) : Prop where
  outstanding : 0 < c.outstanding
  count : c.waitForSendCount = UInt32.ofNat c.outstanding
  /-- The broker answers the request if it accepts the messages. -/
  answerable : ∃ (es : List BrokerEvent) (d : ProduceMsgCallData),
    es.foldlM (fun c e => c.broker e) c = some d ∧ d.finished ≠ []

theorem Counting.answerable {total : Nat} {c : ProduceMsgCallData} (h : Counting total 0 c) :
    ∃ (es : List BrokerEvent) (d : ProduceMsgCallData),
      es.foldlM (fun c e => c.broker e) c = some d ∧ d.finished ≠ [] := by
  induction hn : c.outstanding generalizing c with
  | zero => exact ⟨[], c, rfl, h.answered (by omega)⟩
  | succ n ih =>
    -- the next message that is acknowledged
    have hpos : 0 < c.outstanding := by omega
    obtain ⟨send, hmem, hst⟩ := List.countP_pos_iff.mp hpos
    obtain ⟨k, hk⟩ := List.mem_iff_getElem?.mp hmem
    have hack : ∀ (c : ProduceMsgCallData) (send : Send), Counting total 0 c → c.outstanding = n + 1 →
        c.sends[k]? = some send → send.stage = .inFlight →
        ∃ (es : List BrokerEvent) (d : ProduceMsgCallData),
          es.foldlM (fun c e => c.broker e) c = some d ∧ d.finished ≠ [] := by
      intro c send h hn hk hst
      have hb : c.broker (.onSuccess k) = some (c.setStage k send .acked).notifyOne := by
        simp [ProduceMsgCallData.broker, hk, hst]
      have hout := ProduceMsgCallData.outstanding_acked hk (by simp [hst])
      obtain ⟨es, d, hrun, hd⟩ := ih (h.broker (Broker.of_event hb))
        (by rw [ProduceMsgCallData.outstanding_notifyOne]; omega)
      exact ⟨.onSuccess k :: es, d, by rw [List.foldlM_cons, hb]; exact hrun, hd⟩
    cases hstage : send.stage with
    | acked => simp [hstage] at hst
    | inFlight => exact hack c send h hn hk hstage
    | retrying =>
      -- `RetrySending` hands the message to the broker again first
      have hb : c.broker (.retrySending k false) = some (c.setStage k send .inFlight) := by
        simp [ProduceMsgCallData.broker, hk, hstage]
      have hk' : (c.setStage k send .inFlight).sends[k]? = some { send with stage := .inFlight } := by
        simp [ProduceMsgCallData.setStage, (List.getElem?_eq_some_iff.mp hk).1]
      have hout : (c.setStage k send .inFlight).outstanding = c.outstanding :=
        ProduceMsgCallData.outstanding_moved hk (by simp [hstage]) (by simp)
      obtain ⟨es, d, hrun, hd⟩ := hack _ _ (h.broker (Broker.of_event hb)) (hout.trans hn) hk' rfl
      exact ⟨.retrySending k false :: es, d, by rw [List.foldlM_cons, hb]; exact hrun, hd⟩

/-- What a request comes to once `ProduceMsg` has returned. -/
theorem wp_produceMsg_accepts (request : ProduceMsgRequest) :
    wp (produceMsgTry.under fun o _ _ r _ => accepts o r) Broker (fun _ => True) (produceMsg request)
      (fun _ d => d.finished ≠ [] ∨ ∃ total, Counting total 0 d) { request := request } := by
  refine wp_bind ((wp_fetchUserInfoStr (fun _ _ => trivial) yields_fetchUserInfoStr ⟨rfl, rfl, rfl⟩).mono ?_)
  rintro r d - ⟨hr, hfresh⟩
  cases r with
  | none => cases hr
  | some userInfoStr =>
    show wp _ _ _ (sendToUids request.msgId (uidsToSend request.startUid userInfoStr)) _ _
    by_cases hnil : uidsToSend request.startUid userInfoStr = []
    · rw [hnil]
      exact (wp_sendToUids_nil _).mono fun _ _ _ hfin => Or.inl hfin
    · exact (wp_sendToUids (fun _ _ => trivial) (fun _ _ _ => trivial) _ hnil hfresh).mono
        fun _ _ _ hcount => Or.inr ⟨_, hcount⟩

/-- The process runs, and what is left of each `ProduceMsg` ends in an answer or leaves messages to wait for. -/
structure Process.Replying (p : Process) : Prop where
  up : p.down = false
  holds : p.Holds accepts (fun _ => True) fun _ d => d.finished ≠ [] ∨ ∃ total, Counting total 0 d

theorem Process.Replying.step {p q : Process} {e : ProcessEvent} (hp : p.Replying) (hok : repliesAccepted p e)
    (hs : p.step e = some q) : q.Replying := by
  have ha : p.allows accepts e := by
    cases e with
    | throws => cases hok
    | receive | call | broker => exact hok
  have hkeeps : Keeps Broker (fun _ => True) fun (_ : ErrCode) d => d.finished ≠ [] ∨ ∃ total, Counting total 0 d :=
    ⟨fun _ _ _ _ _ _ => trivial, fun _ _ _ _ hq hb => hq.imp hb.finished fun ⟨total, hcount⟩ => ⟨total, hcount.broker hb⟩⟩
  refine ⟨?_, hp.holds.step hs ha hkeeps wp_produceMsg_accepts⟩
  cases (Process.steps_of_step hs).2 with
  | throws => cases hok
  | receive | call | broker => exact hp.up

/-- Every request that is not answered is in `ProduceMsg` or waits for messages whose acknowledgement answers it. -/
theorem requests_answered {p : Process} (h : ProcessReaches (fun p e => repliesAccepted p e) p) :
    p.down = false ∧ ∀ x ∈ p.handlers, x.data.finished = [] → x.executing ∨ Waiting x.data := by
  have hp : p.Replying := h.invariant ⟨rfl, fun _ hx => (List.not_mem_nil hx).elim⟩ fun _ _ _ hp hok hs => hp.step hok hs
  refine ⟨hp.up, fun x hx hnone => ?_⟩
  have hholds := hp.holds x hx
  obtain ⟨data, ⟨prog, n⟩⟩ := x
  cases prog with
  | call o k => exact Or.inl rfl
  | pure code =>
    rcases hholds.2 with hfin | ⟨total, hcount⟩
    · exact absurd hnone hfin
    · refine Or.inr ⟨Nat.pos_of_ne_zero fun hzero => hcount.answered (by omega) hnone, ?_, hcount.answerable⟩
      rw [hcount.count, Nat.zero_add]

/-- The audience exists, and the range asked for has the user 0. -/
def oneUser : List ProcessEvent :=
  [.receive ⟨1, 0, 7⟩, .call 0 .done, .call 0 (.redisCommand (some (.integer 1))), .call 0 .done,
    .call 0 (.redisCommand (some (.str [0x80]))), .call 0 (.copied fun _ => 0), .call 0 .done, .call 0 .done,
    .call 0 .done, .call 0 .done]

theorem requests_answered_oneUser : ∃ p, ProcessReaches (fun p e => repliesAccepted p e) p ∧
    (p.handlers.map fun x => (x.executing, x.data.finished, x.data.outstanding)) = [(false, [], 1)] ∧
    (p.down = false ∧ ∀ x ∈ p.handlers, x.data.finished = [] → x.executing ∨ Waiting x.data) := by
  obtain ⟨p, hp, hone⟩ := ProcessReaches.of_events (fun p e => repliesAccepted p e)
    (fun p => (p.handlers.map fun x => (x.executing, x.data.finished, x.data.outstanding)) = [(false, [], 1)])
    oneUser (by decide +kernel)
  exact ⟨p, hp, hone, requests_answered hp⟩

/-- `EXISTS` is given up, and `ProduceMsg` returns without an answer. -/
theorem requests_abandoned : ∃ p, ProcessReaches (fun _ _ => True) p ∧
    ¬(p.down = false ∧ ∀ x ∈ p.handlers, x.data.finished = [] → x.executing ∨ Waiting x.data) := by
  obtain ⟨p, hp, x, hx, hexec, hfin, hout⟩ := ProcessReaches.of_events (fun _ _ => True)
    (fun p => ∃ x ∈ p.handlers, x.executing = false ∧ x.data.finished = [] ∧ x.data.outstanding = 0)
    [.receive ⟨1, 0, 7⟩, .call 0 .done, .call 0 (.redisCommand none), .call 0 (.redisCommand none),
      .call 0 (.redisCommand none), .call 0 .done]
    (by decide +kernel)
  refine ⟨p, hp, fun hanswered => ?_⟩
  rcases hanswered.2 x hx hfin with hrun | hwait
  · rw [hexec] at hrun
    cases hrun
  · have := hwait.outstanding
    omega

end PushSystem
