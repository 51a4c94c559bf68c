import PushSystem.Theorems.Producer.Replies
import PushSystem.Theorems.Producer.Uids

/-! `taskCount` counts the requests that are not answered, as long as every range has users in it: a request with
    an empty range is answered without being taken off the count. -/

namespace PushSystem
open Redis Bitmap Prog

/-! ### What a request contributes -/

/-- The request contributes one until it is answered. -/
def Shared (c : ProduceMsgCallData) : Prop := c.taskShare = if c.finished = [] then 1 else 0

theorem Fresh.shared {c : ProduceMsgCallData} (h : Fresh c) : Shared c := by simp [Shared, h.finished, h.share]

theorem Counting.shared {total unsent : Nat} {c : ProduceMsgCallData} (h : Counting total unsent c)
    (ht : total ≤ 2 ^ 32) : Shared c := by
  have honce := h.once ht
  split at honce
  next => simp [Shared, honce]
  next => simp [Shared, honce]

/-- A step of the broker that answers takes one off the share. -/
theorem Broker.share {c d : ProduceMsgCallData} (hb : Broker c d) :
    (c.finished.length < d.finished.length ∧ d.taskShare = c.taskShare - 1) ∨
    (¬c.finished.length < d.finished.length ∧ d.finished = c.finished ∧ d.taskShare = c.taskShare) := by
  cases hb with
  | thrown => exact Or.inr ⟨Nat.lt_irrefl _, rfl, rfl⟩
  | moved => exact Or.inr ⟨Nat.lt_irrefl _, rfl, rfl⟩
  | acked hk hst =>
    unfold ProduceMsgCallData.notifyOne
    split
    · exact Or.inl ⟨by simp [ProduceMsgCallData.finish, ProduceMsgCallData.setStage], rfl⟩
    · exact Or.inr ⟨Nat.lt_irrefl _, rfl, rfl⟩

theorem ProduceMsgOp.attempt_share {o : ProduceMsgOp} {n : Nat} {c d : ProduceMsgCallData} {outcome : Outcome}
    {r : Option o.Ret} (h : o.attempt n c outcome = some (r, d)) : d.taskShare = c.taskShare := by
  cases o with
  | copy =>
    cases outcome <;> simp [ProduceMsgOp.attempt] at h
    exact h.2.2 ▸ rfl
  | redis =>
    cases outcome <;> simp [ProduceMsgOp.attempt] at h
    · exact h.2 ▸ rfl
    · exact h.2.2 ▸ rfl
  | lock | unlock | freeReply | setWaitForSendCount | finish =>
    cases outcome <;> simp [ProduceMsgOp.attempt] at h
    exact h.2 ▸ rfl
  | send =>
    cases outcome <;> simp [ProduceMsgOp.attempt] at h
    · exact h.2 ▸ rfl
    · exact h.2 ▸ rfl

theorem Handler.call_share {h h' : Handler} {outcome : Outcome} (hc : h.call outcome = some h') :
    h'.data.taskShare = h.data.taskShare := by
  obtain ⟨o, k, n, -, ⟨hd, -⟩ | ⟨r, hd, -⟩⟩ := Handler.call_cases hc
  · exact ProduceMsgOp.attempt_share hd
  · exact ProduceMsgOp.attempt_share hd

/-! ### Ranges with users -/

/-- The copied range has users in it, and no more than the counter can count. -/
def countable : (o : ProduceMsgOp) → Option o.Ret → Bool
  | .copy _ _, some bytes => 0 < bitCount bytes && bitCount bytes ≤ 2 ^ 32
  | _, _ => true

/-- The ranges that are read are countable, and so are the requests. -/
def rangesCountable (p : Process) : ProcessEvent → Bool
  | .receive _ => p.unanswered + 1 < 2 ^ 31
  | e => p.allows countable e

theorem yields_fetchUserInfoStr_countable {startUid endUid : UInt64} :
    (fetchUserInfoStr startUid endUid).Yields (fun o r => countable o (some r)) fun r =>
      ∀ bytes, r = some bytes → 0 < bitCount bytes ∧ bitCount bytes ≤ 2 ^ 32 :=
  yields_fetchUserInfoStr_of_copy fun _ bytes hr => by simpa [countable] using hr

theorem wp_produceMsg_countable (request : ProduceMsgRequest) :
    wp (produceMsgTry.under fun o _ _ r _ => countable o r) Broker Shared (produceMsg request)
      (fun _ d => Fresh d ∨ ∃ total ≤ 2 ^ 32, Counting total 0 d) { request := request } := by
  refine wp_bind ((wp_fetchUserInfoStr (fun _ hf => hf.shared) yields_fetchUserInfoStr_countable ⟨rfl, rfl, rfl⟩).mono ?_)
  rintro r d - ⟨hr, hfresh⟩
  cases r with
  | none => exact ⟨hfresh.shared, Or.inl hfresh⟩
  | some userInfoStr =>
    obtain ⟨hpos, hle⟩ := hr userInfoStr rfl
    rw [← length_uidsToSend request.startUid] at hpos hle
    exact (wp_sendToUids (fun _ hf => hf.shared) (fun _ _ hcount => hcount.shared hle) _
      (List.length_pos_iff.mp hpos) hfresh).mono fun _ _ _ hcount => Or.inr ⟨_, hle, hcount⟩

/-! ### The count -/

/-- `taskCount` is the number of requests that are not answered. -/
structure Process.Exact (p : Process) : Prop where
  count : p.taskCount = Int32.ofNat p.unanswered
  bound : p.unanswered < 2 ^ 31
  holds : p.Holds countable Shared fun _ d => Fresh d ∨ ∃ total ≤ 2 ^ 32, Counting total 0 d

theorem Process.Holds.shared {p : Process} {Q : ErrCode → ProduceMsgCallData → Prop} (hp : p.Holds countable Shared Q)
    {x : Handler} (hx : x ∈ p.handlers) : Shared x.data := wp.inv (hp x hx)

/-- Two requests that contribute the same are both answered or both not. -/
theorem Shared.isEmpty_eq {c d : ProduceMsgCallData} (hc : Shared c) (hd : Shared d) (h : d.taskShare = c.taskShare) :
    d.finished.isEmpty = c.finished.isEmpty := by
  unfold Shared at hc hd
  rw [hc, hd] at h
  cases hcf : c.finished <;> cases hdf : d.finished <;> simp [hcf, hdf] at h ⊢

section Unanswered
variable {p : Process} {i : Nat} {x x' : Handler} (hi : p.handlers[i]? = some x)
include hi

theorem Process.unanswered_set (hsame : x'.data.finished.isEmpty = x.data.finished.isEmpty) :
    (p.handlers.set i x').countP (fun h => h.data.finished.isEmpty) = p.unanswered := by
  have hcount := Count.countP_set (p := fun x : Handler => x.data.finished.isEmpty) (b := x') hi
  rw [hsame] at hcount
  exact Nat.add_right_cancel hcount

theorem Process.unanswered_set_of_answered (hnone : x.data.finished = []) (hsome : x'.data.finished ≠ []) :
    (p.handlers.set i x').countP (fun h => h.data.finished.isEmpty) + 1 = p.unanswered := by
  have hcount := Count.countP_set (p := fun x : Handler => x.data.finished.isEmpty) (b := x') hi
  simp only [hnone, List.isEmpty_nil, if_true, List.isEmpty_iff, hsome, if_false, Nat.add_zero] at hcount
  exact hcount

end Unanswered

theorem Process.Exact.step {p q : Process} {e : ProcessEvent} (hp : p.Exact) (hok : rangesCountable p e)
    (hs : p.step e = some q) : q.Exact := by
  have ha : p.allows countable e := by
    cases e with
    | receive => rfl
    | call | throws | broker => exact hok
  have hkeeps : Keeps Broker Shared fun (_ : ErrCode) d => Fresh d ∨ ∃ total ≤ 2 ^ 32, Counting total 0 d := by
    refine ⟨fun _ c d _ hq hb => ?_, fun _ c d _ hq hb => ?_⟩
    · rcases hq with hf | ⟨total, hle, hcount⟩
      · exact (hf.broker hb).shared
      · exact (hcount.broker hb).shared hle
    · exact hq.imp (fun hf => hf.broker hb) fun ⟨total, hle, hcount⟩ => ⟨total, hle, hcount.broker hb⟩
  have hholds := hp.holds.step hs ha hkeeps wp_produceMsg_countable
  cases (Process.steps_of_step hs).2 with
  | @receive request =>
    have hcount : (p.handlers ++ [(⟨{ request := request }, ⟨produceMsg request, 0⟩⟩ : Handler)]).countP
        (fun x => x.data.finished.isEmpty) = p.unanswered + 1 := Count.countP_snoc
    refine ⟨?_, ?_, hholds⟩
    · rw [Process.unanswered, hcount, Int32.ofNat_add, ← hp.count]
      rfl
    · rw [Process.unanswered, hcount]
      exact of_decide_eq_true hok
  | @call i _ x x' _ hi hc =>
    have hsame : x'.data.finished.isEmpty = x.data.finished.isEmpty :=
      (hp.holds.shared (List.mem_of_getElem? hi)).isEmpty_eq
        (hholds.shared (List.mem_set (List.getElem?_eq_some_iff.mp hi).1 _)) (Handler.call_share hc)
    have hcount := Process.unanswered_set hi hsame
    exact ⟨hp.count.trans (congrArg Int32.ofNat hcount.symm), hcount.trans_lt hp.bound, hholds⟩
  | throws => exact ⟨hp.count, hp.bound, hholds⟩
  | @broker i _ x data hi hb =>
    have hx := hp.holds.shared (List.mem_of_getElem? hi)
    have hdata : Shared data := hholds.shared (List.mem_set (List.getElem?_eq_some_iff.mp hi).1 ⟨data, x.thread⟩)
    rcases (Broker.of_event hb).share with ⟨hlt, hshare⟩ | ⟨hlt, hfin, hshare⟩
    · -- the request was not answered before, and is now
      have hnone : x.data.finished = [] := by
        by_contra hne
        rw [Shared, if_neg hne] at hx
        rw [Shared, hshare, hx] at hdata
        split at hdata <;> omega
      have hsome : data.finished ≠ [] := List.length_pos_iff.mp (by omega)
      have hcount := @Process.unanswered_set_of_answered _ _ _ ⟨data, x.thread⟩ hi hnone hsome
      refine ⟨?_, by rw [Process.unanswered]; exact Nat.lt_of_succ_lt (hcount.trans_lt hp.bound), hholds⟩
      rw [if_pos hlt, hp.count, ← hcount, Int32.ofNat_add]
      exact Int32.add_sub_cancel _ _
    · have hcount := @Process.unanswered_set _ _ _ ⟨data, x.thread⟩ hi (congrArg List.isEmpty hfin)
      refine ⟨?_, hcount.trans_lt hp.bound, hholds⟩
      rw [if_neg hlt]
      exact hp.count.trans (congrArg Int32.ofNat hcount.symm)

/-- `taskCount` is the number of requests that are not answered, and a producer without any is not reported as
    stuck. -/
theorem taskCount_exact {p : Process} (h : ProcessReaches (fun p e => rangesCountable p e) p) :
    p.taskCount.toInt = p.unanswered ∧
      (p.unanswered = 0 → ∀ avgTime, loadBalanceScore avgTime p.taskCount = calLoadBalanceScore avgTime) := by
  have hp : p.Exact := h.invariant ⟨rfl, by decide, fun _ hx => (List.not_mem_nil hx).elim⟩ fun _ _ _ hp hok hs =>
    hp.step hok hs
  refine ⟨?_, fun hzero avgTime => ?_⟩
  · rw [hp.count]
    exact Int32.toInt_ofNat_of_lt hp.bound
  · have hcount : p.taskCount = 0 := by rw [hp.count, hzero]; rfl
    simp [loadBalanceScore, hcount]

theorem taskCount_exact_oneUser : ∃ p, ProcessReaches (fun p e => rangesCountable p e) p ∧
    (p.handlers.map fun x => x.data.finished) = [[⟨.success⟩]] ∧ p.taskCount.toInt = p.unanswered ∧
      (p.unanswered = 0 → ∀ avgTime, loadBalanceScore avgTime p.taskCount = calLoadBalanceScore avgTime) := by
  obtain ⟨p, hp, hone⟩ := ProcessReaches.of_events (fun p e => rangesCountable p e)
    (fun p => (p.handlers.map fun x => x.data.finished) = [[⟨.success⟩]])
    (oneUser ++ [.broker 0 (.onSuccess 0)]) (by decide +kernel)
  exact ⟨p, hp, hone, taskCount_exact hp⟩

/-- The range has no users. The request is answered and stays in the count, and the idle producer reports the
    score of one that is stuck. -/
theorem taskCount_leaked : ∃ p, ProcessReaches (fun _ _ => True) p ∧ p.unanswered = 0 ∧
    loadBalanceScore 0 p.taskCount = 1 / 10000 ∧ ¬(p.taskCount.toInt = p.unanswered ∧
      (p.unanswered = 0 → ∀ avgTime, loadBalanceScore avgTime p.taskCount = calLoadBalanceScore avgTime)) := by
  obtain ⟨p, hp, hzero, hcount⟩ := ProcessReaches.of_events (fun _ _ => True)
    (fun p => p.unanswered = 0 ∧ p.taskCount = 1)
    [.receive ⟨1, 0, 7⟩, .call 0 .done, .call 0 (.redisCommand (some (.integer 1))), .call 0 .done,
      .call 0 (.redisCommand (some (.str [0]))), .call 0 (.copied fun _ => 0), .call 0 .done, .call 0 .done,
      .call 0 .done, .call 0 .done]
    (by decide +kernel)
  refine ⟨p, hp, hzero, by rw [hcount]; decide +kernel, fun hexact => ?_⟩
  rw [hcount, hzero] at hexact
  exact absurd hexact.1 (by decide)

end PushSystem
