import PushSystem.Theorems.Producer.Released

/-! `redisMtx` is held exactly while one request talks to Redis or reads what Redis has answered, and not for long:
    within `holdLimit` tries its thread gives the lock back. -/

namespace PushSystem
open Redis Prog

/-! ### One request -/

/-- The call is made under the lock. -/
def ProduceMsgOp.underLock : ProduceMsgOp → Bool
  | .redis _ | .copy _ _ | .freeReply | .unlock => true
  | .lock | .setWaitForSendCount _ | .send _ | .finish => false

/-- The thread is between `redisMtx.lock` and `redisMtx.unlock`. -/
def Handler.inside (h : Handler) : Bool := h.next.any ProduceMsgOp.underLock

/-- Where a thread is; `left` is how many tries it makes at most before it gives the lock back. -/
inductive LockPhase where
  | before
  | inside (left : Nat)
  | after

/-- The tries that a call takes at most, as long as nothing else is tried again. -/
def ProduceMsgOp.maxTries : ProduceMsgOp → Nat
  | .redis _ => tryCount
  | _ => 1

/-- The tries that a request makes at most under the lock: four commands, four replies, a copy and the `unlock`. -/
def holdLimit : Nat := 18

/-- Where a call takes its thread. -/
inductive ProduceMsgOp.Moves : ProduceMsgOp → LockPhase → LockPhase → Prop where
  | lock : Moves .lock .before (.inside holdLimit)
  | unlock {left} (h : 0 < left) : Moves .unlock (.inside left) .after
  | stays {o : ProduceMsgOp} {left left' : Nat} (ho : o.underLock) (hne : o ≠ .unlock) (h : left' + o.maxTries ≤ left) :
    Moves o (.inside left) (.inside left')
  | sends {o : ProduceMsgOp} (ho : o.underLock = false) (hne : o ≠ .lock) : Moves o .after .after

/-- The calls of the program move it through the phases. -/
def Phased {α : Type} (Q : α → LockPhase → Prop) : ProduceMsgProg α → LockPhase → Prop
  | .pure a, phase => Q a phase
  | .call o k, phase => ∃ phase', o.Moves phase phase' ∧ ∀ r, Phased Q (k r) phase'

section Requests
variable {α β : Type} {phase : LockPhase} {left : Nat}

theorem phased_bind {R : β → LockPhase → Prop} {p : ProduceMsgProg α} {f : α → ProduceMsgProg β}
    (h : Phased (fun a => Phased R (f a)) p phase) : Phased R (p >>= f) phase := by
  induction p generalizing phase with
  | pure a => exact h
  | call o k ih =>
    obtain ⟨phase', hm, hk⟩ := h
    exact ⟨phase', hm, fun r => ih r (hk r)⟩

theorem Phased.mono {Q R : α → LockPhase → Prop} {p : ProduceMsgProg α} (h : Phased Q p phase)
    (hQ : ∀ a phase, Q a phase → R a phase) : Phased R p phase := by
  induction p generalizing phase with
  | pure a => exact hQ a phase h
  | call o k ih =>
    obtain ⟨phase', hm, hk⟩ := h
    exact ⟨phase', hm, fun r => ih r (hk r)⟩

/-- A call under the lock. -/
theorem phased_stays {Q : α → LockPhase → Prop} {o : ProduceMsgOp} {k : o.Ret → ProduceMsgProg α} (left' : Nat)
    (ho : o.underLock) (hne : o ≠ .unlock) (hleft : left' + o.maxTries ≤ left)
    (hk : ∀ r, Phased Q (k r) (.inside left')) :
    Phased Q (.call o k) (.inside left) := ⟨_, .stays ho hne hleft, hk⟩

theorem phased_redis {Q : α → LockPhase → Prop} {cmd : RedisCommand} {k : Option Reply → ProduceMsgProg α} (left' : Nat)
    (hleft : left' + 3 ≤ left) (hk : ∀ r, Phased Q (k r) (.inside left')) :
    Phased Q (.call (.redis cmd) k) (.inside left) := phased_stays left' rfl (by simp) hleft hk

theorem phased_freeReply {Q : α → LockPhase → Prop} {k : Unit → ProduceMsgProg α} (left' : Nat)
    (hleft : left' + 1 ≤ left) (hk : Phased Q (k ()) (.inside left')) :
    Phased Q (.call .freeReply k) (.inside left) := phased_stays left' rfl (by simp) hleft fun _ => hk

theorem phased_unlock {Q : α → LockPhase → Prop} {k : Unit → ProduceMsgProg α} (hleft : 0 < left)
    (hk : Phased Q (k ()) .after) : Phased Q (.call .unlock k) (.inside left) := ⟨_, .unlock hleft, fun _ => hk⟩

variable {startUid endUid : UInt64}

theorem phased_readUserInfoStr (hleft : 6 ≤ left) :
    Phased (fun _ phase => phase = .after) (readUserInfoStr startUid endUid) (.inside left) := by
  refine phased_redis 3 hleft fun reply => ?_
  cases reply with
  | none => exact phased_unlock (by decide) rfl
  | some reply =>
    exact phased_stays 2 rfl (by simp) le_rfl fun _ =>
      phased_freeReply 1 (by decide) (phased_unlock (by decide) rfl)

/-- The audience is created, and GETRANGE is left to do; or the lock is given back. -/
theorem phased_createTmpUserInfoKey :
    Phased (fun ok phase => phase = if ok then .inside 6 else .after) createTmpUserInfoKey (.inside 14) := by
  refine phased_redis 11 (by decide) fun reply => ?_
  cases reply with
  | none => exact phased_unlock (by decide) rfl
  | some reply =>
    show Phased _ (if reply.toInteger ≤ 0 then _ else _) _
    split
    · exact phased_unlock (by decide) rfl
    · refine phased_freeReply 10 (by decide) (phased_redis 7 (by decide) fun reply => ?_)
      cases reply with
      | none => exact phased_unlock (by decide) rfl
      | some reply =>
        show Phased _ (if reply.toInteger = 0 then _ else _) _
        split
        · exact phased_unlock (by decide) rfl
        · exact phased_freeReply 6 (by decide) rfl

theorem phased_fetchUserInfoStr :
    Phased (fun _ phase => phase = .after) (fetchUserInfoStr startUid endUid) .before := by
  refine ⟨_, .lock, fun _ => phased_redis 15 (by decide) fun reply => ?_⟩
  cases reply with
  | none => exact phased_unlock (by decide) rfl
  | some reply =>
    refine phased_freeReply 14 (by decide) ?_
    show Phased _ (if reply.toInteger = 0 then _ else _) _
    split
    · refine phased_bind (phased_createTmpUserInfoKey.mono ?_)
      rintro ok phase rfl
      cases ok with
      | false => rfl
      | true => exact phased_readUserInfoStr (by decide)
    · exact phased_readUserInfoStr (by decide)

theorem phased_sends {Q : α → LockPhase → Prop} {o : ProduceMsgOp} {k : o.Ret → ProduceMsgProg α}
    (ho : o.underLock = false) (hne : o ≠ .lock) (hk : ∀ r, Phased Q (k r) .after) :
    Phased Q (.call o k) .after := ⟨_, .sends ho hne, hk⟩

theorem phased_sendToUids (msgId : UInt32) (uids : List UInt64) :
    Phased (fun _ phase => phase = .after) (sendToUids msgId uids) .after := by
  have hsend : Phased (fun _ phase => phase = .after) (sendAll msgId uids) .after := by
    induction uids with
    | nil => rfl
    | cons uid uids ih => exact phased_sends rfl (by simp) fun _ => ih
  refine phased_sends rfl (by simp) fun _ => ?_
  show Phased _ (if uids.length ≠ 0 then _ else _) _
  split
  · refine phased_bind (hsend.mono ?_)
    rintro _ phase rfl
    rfl
  · exact phased_sends rfl (by simp) fun _ => rfl

theorem phased_produceMsg (request : ProduceMsgRequest) :
    Phased (fun _ phase => phase = .after) (produceMsg request) .before := by
  refine phased_bind (phased_fetchUserInfoStr.mono ?_)
  rintro userInfoStr phase rfl
  cases userInfoStr with
  | none => rfl
  | some => exact phased_sendToUids _ _

end Requests

/-- The thread of the request is in the phase; under the lock a call is tried `maxTries` times at most. -/
structure Handler.At (h : Handler) (phase : LockPhase) : Prop where
  phased : Phased (fun _ phase => phase = .after) h.thread.prog phase
  tries : ∀ o, h.next = some o → phase ≠ .after → h.thread.tries < o.maxTries
  bound : ∀ left, phase = .inside left → left ≤ holdLimit

section Step
variable {h h' : Handler} {phase : LockPhase} {o : ProduceMsgOp} {outcome : Outcome}

theorem Handler.At.inside_iff (hp : h.At phase) : h.inside = true ↔ ∃ left, phase = .inside left := by
  obtain ⟨data, ⟨prog, n⟩⟩ := h
  have hphased := hp.phased
  cases prog with
  | pure a =>
    obtain rfl : phase = .after := hphased
    simp [Handler.inside, Handler.next]
  | call o k =>
    obtain ⟨phase', hm, -⟩ := hphased
    show o.underLock = true ↔ _
    cases hm with
    | lock => simp [ProduceMsgOp.underLock]
    | unlock => simp [ProduceMsgOp.underLock]
    | stays ho => simp [ho]
    | sends ho => simp [ho]

/-- Only commands and messages are tried again. -/
theorem ProduceMsgOp.retries {n : Nat} {c d : ProduceMsgCallData} (h : o.attempt n c outcome = some (none, d)) :
    (∃ cmd, o = .redis cmd ∧ n + 1 < o.maxTries) ∨ ∃ body, o = .send body := by
  cases o with
  | redis cmd =>
    refine Or.inl ⟨cmd, rfl, ?_⟩
    cases outcome with
    | redisCommand reply =>
      have hnone : RedisHandler.command n reply = none := congrArg Prod.fst (Option.some.inj h)
      unfold RedisHandler.command at hnone
      split at hnone
      next =>
        split at hnone
        next hlt => exact hlt
        next => cases hnone
      next =>
        split at hnone
        next hlt => exact hlt
        next => cases hnone
      next => cases hnone
    | noConnection =>
      simp only [ProduceMsgOp.attempt] at h
      split at h
      next => cases h
      next => cases h
    | done | copied | thrown => cases h
  | send body => exact Or.inr ⟨body, rfl⟩
  | copy => cases outcome <;> simp [ProduceMsgOp.attempt] at h
  | lock | unlock | freeReply | setWaitForSendCount | finish => cases outcome <;> cases h

/-- What a call does to the phase and to the lock. -/
inductive LockStep (h h' : Handler) : LockPhase → Bool → Bool → Prop where
  | enters {left} (hp : h'.At (.inside left)) : LockStep h h' .before false true
  | stays {left left' locked} (hp : h'.At (.inside left')) (hlt : left' - h'.thread.tries < left - h.thread.tries) :
    LockStep h h' (.inside left) locked locked
  | leaves {left locked} (hp : h'.At .after) (hlt : 0 < left - h.thread.tries) :
    LockStep h h' (.inside left) locked false
  | sends {locked} (hp : h'.At .after) : LockStep h h' .after locked locked

theorem ProduceMsgOp.mutex_of_ne {locked locked' : Bool} (hm : o.mutex locked = some locked') (hl : o ≠ .lock)
    (hu : o ≠ .unlock) : locked' = locked := by
  cases o <;> first | exact absurd rfl hl | exact absurd rfl hu | exact (Option.some.inj hm).symm

theorem ProduceMsgOp.maxTries_pos (o : ProduceMsgOp) : 0 < o.maxTries := by
  cases o <;> exact Nat.succ_pos _

/-- A call that has returned leaves a thread at the start of the next one. -/
theorem at_start {data : ProduceMsgCallData} {prog : ProduceMsgProg ErrCode}
    (hg : Phased (fun _ phase => phase = .after) prog phase) (hb : ∀ left, phase = .inside left → left ≤ holdLimit) :
    Handler.At ⟨data, ⟨prog, 0⟩⟩ phase := ⟨hg, fun o _ _ => o.maxTries_pos, hb⟩

theorem Handler.At.call {locked locked' : Bool} (hp : h.At phase) (hn : h.next = some o)
    (hm : o.mutex locked = some locked') (hc : h.call outcome = some h') : LockStep h h' phase locked locked' := by
  obtain ⟨data, ⟨prog, n⟩⟩ := h
  cases prog with
  | pure a => cases hc
  | call o' k =>
    obtain rfl : o' = o := Option.some.inj hn
    obtain ⟨phase', hmoves, hk⟩ := hp.phased
    simp only [Handler.call] at hc
    split at hc
    next => cases hc
    next d hd =>
      obtain rfl := Option.some.inj hc
      have hret := ProduceMsgOp.retries hd
      cases hmoves with
      | lock => simp at hret
      | unlock => simp at hret
      | @stays _ left left' ho hne hle =>
        obtain ⟨cmd, rfl, hlt⟩ | ⟨body, rfl⟩ := hret
        · obtain rfl := ProduceMsgOp.mutex_of_ne hm (by simp) (by simp)
          refine .stays ⟨⟨_, .stays ho hne hle, hk⟩, fun o ho _ => ?_, hp.bound⟩ ?_
          · obtain rfl := Option.some.inj ho
            exact hlt
          · show left - (n + 1) < left - n
            omega
        · cases ho
      | sends ho hne =>
        obtain ⟨cmd, rfl, -⟩ | ⟨body, rfl⟩ := hret
        · cases ho
        · obtain rfl := ProduceMsgOp.mutex_of_ne hm (by simp) (by simp)
          exact .sends ⟨⟨_, .sends ho hne, hk⟩, fun _ _ hne => absurd rfl hne, hp.bound⟩
    next r d hd =>
      obtain rfl := Option.some.inj hc
      cases hmoves with
      | lock =>
        cases locked with
        | true => cases hm
        | false =>
          obtain rfl := Option.some.inj hm
          exact .enters (at_start (hk r) fun left hl => by cases hl; exact le_rfl)
      | unlock hpos =>
        obtain rfl := Option.some.inj hm
        have htries : n < 1 := hp.tries _ rfl (by simp)
        exact .leaves (at_start (hk r) fun left hl => by cases hl) (by show 0 < _ - n; omega)
      | @stays _ left left' ho hne hle =>
        obtain rfl := ProduceMsgOp.mutex_of_ne hm (fun heq => by rw [heq] at ho; cases ho) hne
        have htries : n < o'.maxTries := hp.tries _ rfl (by simp)
        have hbound := hp.bound left rfl
        refine .stays (at_start (hk r) fun l hl => ?_) ?_
        · cases hl
          omega
        · show left' - 0 < left - n
          omega
      | sends ho hne =>
        obtain rfl := ProduceMsgOp.mutex_of_ne hm hne (fun heq => by rw [heq] at ho; cases ho)
        exact .sends (at_start (hk r) fun left hl => by cases hl)

theorem Handler.At.of_thread (hp : h.At phase) (ht : h'.thread = h.thread) : h'.At phase := by
  obtain ⟨data, thread⟩ := h'
  obtain rfl : thread = h.thread := ht
  exact ⟨hp.phased, hp.tries, hp.bound⟩

end Step

/-! ### The process -/

/-- The request `owner`, if there is one, is inside the lock. -/
structure Process.Locked (p : Process) (owner : Option Nat) : Prop where
  locked : p.redisMtx = owner.isSome
  valid : ∀ i, owner = some i → i < p.handlers.length
  phase : ∀ i h, p.handlers[i]? = some h → (∃ phase, h.At phase) ∧ (h.inside = true ↔ owner = some i)

/-- A step of the request's thread. -/
def ProcessEvent.callOf (i : Nat) : ProcessEvent → Bool
  | .call j _ => j = i
  | _ => false

section Process
variable {p q : Process} {owner owner' : Option Nat} {e : ProcessEvent} {i : Nat} {h h' : Handler} {left : Nat}

/-- A step of the request `i` concerns no other one. -/
theorem Process.Locked.set (hp : p.Locked owner) (hi : p.handlers[i]? = some h)
    (hhandlers : q.handlers = p.handlers.set i h') (hlocked : q.redisMtx = owner'.isSome)
    (hothers : ∀ j, j ≠ i → (owner' = some j ↔ owner = some j)) (hphase : ∃ phase, h'.At phase)
    (hinside : h'.inside = true ↔ owner' = some i) : q.Locked owner' := by
  have hlt : i < p.handlers.length := (List.getElem?_eq_some_iff.mp hi).1
  refine ⟨hlocked, fun j hj => ?_, fun j x hx => ?_⟩
  · rw [hhandlers, List.length_set]
    rcases eq_or_ne j i with rfl | hne
    · exact hlt
    · exact hp.valid j ((hothers j hne).mp hj)
  · rw [hhandlers] at hx
    rcases Count.of_getElem?_set hx with ⟨rfl, rfl⟩ | ⟨hne, hx⟩
    · exact ⟨hphase, hinside⟩
    · obtain ⟨hat, hin⟩ := hp.phase j x hx
      exact ⟨hat, hin.trans (hothers j (Ne.symm hne)).symm⟩

/-- The thread that makes a call takes the lock, gives it back, or leaves it to its owner. -/
theorem Process.Locked.call {outcome : Outcome} (hp : p.Locked owner) (hs : p.step (.call i outcome) = some q) :
    ∃ owner', q.Locked owner' := by
  obtain ⟨h, o, h', hi, hn, hm, hc, hhandlers⟩ := Process.call_of_step hs
  obtain ⟨⟨phase, hat⟩, hin⟩ := hp.phase i h hi
  have hlock := hp.locked
  have hstep := hat.call hn hm hc
  generalize p.redisMtx = locked at hstep hlock
  generalize hlocked' : q.redisMtx = locked' at hstep
  cases hstep with
  | enters hat' =>
    obtain rfl : owner = none := by simpa using hlock.symm
    refine ⟨some i, hp.set hi hhandlers hlocked' (fun j hj => ?_) ⟨_, hat'⟩ ?_⟩
    · simp [Ne.symm hj]
    · simp [hat'.inside_iff]
  | stays hat' =>
    have hsame : h'.inside = h.inside := by rw [hat'.inside_iff.mpr ⟨_, rfl⟩, hat.inside_iff.mpr ⟨_, rfl⟩]
    exact ⟨owner, hp.set hi hhandlers (hlocked'.trans hlock) (fun _ _ => Iff.rfl) ⟨_, hat'⟩ (hsame ▸ hin)⟩
  | leaves hat' =>
    obtain rfl := hin.mp (hat.inside_iff.mpr ⟨_, rfl⟩)
    refine ⟨none, hp.set hi hhandlers hlocked' (fun j hj => ?_) ⟨_, hat'⟩ ?_⟩
    · simp [Ne.symm hj]
    · simp [hat'.inside_iff]
  | sends hat' =>
    have hsame : h'.inside = h.inside := by
      rw [Bool.eq_iff_iff, hat'.inside_iff, hat.inside_iff]
    exact ⟨owner, hp.set hi hhandlers (hlocked'.trans hlock) (fun _ _ => Iff.rfl) ⟨_, hat'⟩ (hsame ▸ hin)⟩

theorem Process.Locked.step (hp : p.Locked owner) (hs : p.step e = some q) : ∃ owner', q.Locked owner' := by
  cases e with
  | call i outcome => exact hp.call hs
  | receive request =>
    cases (Process.steps_of_step hs).2
    refine ⟨owner, hp.locked, fun j hj => ?_, fun j x hx => ?_⟩
    · rw [List.length_append]
      exact Nat.lt_add_right _ (hp.valid j hj)
    · rcases Count.of_getElem?_snoc hx with hx | ⟨rfl, rfl⟩
      · exact hp.phase j x hx
      · have hat : Handler.At ⟨{ request := request }, ⟨produceMsg request, 0⟩⟩ .before :=
          at_start (phased_produceMsg request) fun left hl => by cases hl
        refine ⟨⟨_, hat⟩, ?_⟩
        have hnew : owner ≠ some p.handlers.length := fun ho => absurd (hp.valid _ ho) (Nat.lt_irrefl _)
        simp [hat.inside_iff, hnew]
  | throws i =>
    cases (Process.steps_of_step hs).2
    exact ⟨owner, hp.locked, hp.valid, hp.phase⟩
  | broker i e =>
    cases (Process.steps_of_step hs).2 with
    | broker hi hb =>
      obtain ⟨⟨phase, hat⟩, hin⟩ := hp.phase i _ hi
      exact ⟨owner, hp.set hi rfl hp.locked (fun _ _ => Iff.rfl) ⟨phase, hat.of_thread rfl⟩ hin⟩

theorem locked_of_reaches (h : ProcessReaches (fun _ _ => True) p) : ∃ owner, p.Locked owner := by
  have hinit : Process.Locked {} none := ⟨rfl, fun _ ho => (by cases ho), fun _ _ hi => (by simp at hi)⟩
  refine h.invariant (I := fun p => ∃ owner, p.Locked owner) ⟨none, hinit⟩ ?_
  rintro p e q ⟨owner, hp⟩ - hs
  exact hp.step hs

/-- What is no step of a request's thread leaves the thread alone. -/
theorem Process.thread_of_step (hs : p.step e = some q) (he : e.callOf i = false) (hi : p.handlers[i]? = some h) :
    ∃ h', q.handlers[i]? = some h' ∧ h'.thread = h.thread := by
  cases (Process.steps_of_step hs).2 with
  | receive => exact ⟨h, Count.getElem?_snoc_of_some hi, rfl⟩
  | throws => exact ⟨h, hi, rfl⟩
  | @call j outcome =>
    have hne : j ≠ i := of_decide_eq_false he
    exact ⟨h, (List.getElem?_set_ne hne).trans hi, rfl⟩
  | @broker j b x data hj =>
    rcases eq_or_ne j i with rfl | hne
    · obtain rfl := Option.some.inj (hi.symm.trans hj)
      exact ⟨_, List.getElem?_set_self (List.getElem?_eq_some_iff.mp hi).1, rfl⟩
    · exact ⟨h, (List.getElem?_set_ne hne).trans hi, rfl⟩

/-- While the lock is held its owner uses up its tries. -/
theorem Handler.At.brief (hat : h.At (.inside left)) (hi : p.handlers[i]? = some h) {es : List ProcessEvent}
    (hr : Runs.exec Process.step (fun p _ => p.redisMtx = true) es p = some q) :
    es.countP (ProcessEvent.callOf i) ≤ left - h.thread.tries := by
  induction es generalizing p h left with
  | nil => exact Nat.zero_le _
  | cons e es ih =>
    unfold Runs.exec at hr
    split at hr
    next hheld =>
      obtain ⟨t, hs, hrest⟩ := Option.bind_eq_some_iff.mp hr
      rw [List.countP_cons]
      cases he : e.callOf i with
      | false =>
        obtain ⟨h', hi', ht⟩ := Process.thread_of_step hs he hi
        have := ih (hat.of_thread ht) hi' hrest
        rw [ht] at this
        simpa using this
      | true =>
        cases e with
        | call j outcome =>
          obtain rfl : j = i := of_decide_eq_true he
          obtain ⟨x, o, h', hx, hn, hm, hc, hhandlers⟩ := Process.call_of_step hs
          obtain rfl := Option.some.inj (hi.symm.trans hx)
          have hi' : t.handlers[j]? = some h' := by
            rw [hhandlers]
            exact List.getElem?_set_self (List.getElem?_eq_some_iff.mp hi).1
          have hstep := hat.call hn hm hc
          generalize p.redisMtx = locked at hstep
          generalize hlocked' : t.redisMtx = locked' at hstep
          cases hstep with
          | stays hat' hlt =>
            have := ih hat' hi' hrest
            simp only [if_true]
            omega
          | leaves hat' hlt =>
            -- the lock is free, and the run is at its end
            cases es with
            | nil => exact hlt
            | cons e' es =>
              unfold Runs.exec at hrest
              rw [if_neg (by simp [hlocked'])] at hrest
              cases hrest
        | receive | throws | broker => cases he
    next => cases hr

theorem Process.step_call {outcome : Outcome} {o : ProduceMsgOp} {locked : Bool} (hdown : p.down = false)
    (hi : p.handlers[i]? = some h) (hn : h.next = some o) (hm : o.mutex p.redisMtx = some locked)
    (hc : h.call outcome ≠ none) : ∃ q, p.step (.call i outcome) = some q := by
  obtain ⟨h', hc⟩ := Option.ne_none_iff_exists'.mp hc
  exact ⟨{ p with redisMtx := locked, handlers := p.handlers.set i h' }, by simp [Process.step, hdown, hi, hn, hm, hc]⟩

/-- An outcome that the call can have takes the thread on. -/
theorem Handler.call_ne_none (outcome : Outcome) {o : ProduceMsgOp} (hn : h.next = some o)
    (ha : o.attempt h.thread.tries h.data outcome ≠ none) : h.call outcome ≠ none := by
  obtain ⟨data, ⟨prog, n⟩⟩ := h
  cases prog with
  | pure a => cases hn
  | call o' k =>
    obtain rfl : o' = o := Option.some.inj hn
    obtain ⟨⟨r, d⟩, ha⟩ := Option.ne_none_iff_exists'.mp ha
    have ha : o'.attempt n data outcome = some (r, d) := ha
    cases r <;> simp [Handler.call, ha]

/-- The thread inside the lock never waits. -/
theorem Process.inside_steps (hdown : p.down = false) (hi : p.handlers[i]? = some h) (hin : h.inside = true) :
    (∃ outcome q, p.step (.call i outcome) = some q) ∨ ∃ q, p.step (.throws i) = some q := by
  cases hn : h.next with
  | none => simp [Handler.inside, hn] at hin
  | some o =>
    have ho : o.underLock = true := by simpa [Handler.inside, hn] using hin
    cases o with
    | redis cmd =>
      exact Or.inl ⟨_, Process.step_call hdown hi hn rfl
        (Handler.call_ne_none (.redisCommand none) hn (by simp [ProduceMsgOp.attempt]))⟩
    | unlock | freeReply =>
      exact Or.inl ⟨_, Process.step_call hdown hi hn rfl
        (Handler.call_ne_none .done hn (by simp [ProduceMsgOp.attempt]))⟩
    | copy str len =>
      cases ht : copyThrows str len with
      | true => exact Or.inr ⟨{ p with down := true }, by simp [Process.step, hdown, hi, hn]⟩
      | false =>
        exact Or.inl ⟨_, Process.step_call hdown hi hn rfl
          (Handler.call_ne_none (.copied fun _ => 0) hn (by simp [ProduceMsgOp.attempt, ht]))⟩
    | lock | setWaitForSendCount | send | finish => cases ho

/-- What `redisMtx` is good for. -/
structure Process.LockKept (p : Process) : Prop where
  held : p.redisMtx = true ↔ ∃ (i : Nat) (h : Handler), p.handlers[i]? = some h ∧ h.inside = true
  exclusive : ∀ (i j : Nat) (h h' : Handler), p.handlers[i]? = some h → p.handlers[j]? = some h' → h.inside = true →
    h'.inside = true → i = j
  /-- The thread inside never waits: its next call can be made, or ends the process. -/
  free : p.down = false → ∀ (i : Nat) (h : Handler), p.handlers[i]? = some h → h.inside = true →
    (∃ outcome q, p.step (.call i outcome) = some q) ∨ ∃ q, p.step (.throws i) = some q
  /-- It makes few tries, whatever the others do meanwhile, until the lock is free again. -/
  brief : ∀ (i : Nat) (h : Handler), p.handlers[i]? = some h → h.inside = true → ∀ es q,
    Runs.exec Process.step (fun p _ => p.redisMtx = true) es p = some q → es.countP (ProcessEvent.callOf i) ≤ holdLimit

theorem Process.Locked.kept (hp : p.Locked owner) : p.LockKept := by
  refine ⟨?_, fun i j h h' hi hj hin hin' => ?_, fun hdown i h hi hin => Process.inside_steps hdown hi hin,
    fun i h hi hin es q hr => ?_⟩
  · rw [hp.locked]
    constructor
    · intro hsome
      obtain ⟨i, ho⟩ := Option.isSome_iff_exists.mp hsome
      have hi := List.getElem?_eq_getElem (hp.valid i ho)
      exact ⟨i, _, hi, (hp.phase i _ hi).2.mpr ho⟩
    · rintro ⟨i, h, hi, hin⟩
      rw [(hp.phase i h hi).2.mp hin]
      rfl
  · have howner := (hp.phase i h hi).2.mp hin
    exact Option.some.inj (howner.symm.trans ((hp.phase j h' hj).2.mp hin'))
  · obtain ⟨phase, hat⟩ := (hp.phase i h hi).1
    obtain ⟨left, rfl⟩ := hat.inside_iff.mp hin
    have hbrief := hat.brief hi hr
    have hbound := hat.bound left rfl
    omega

/-- In every run `redisMtx` is held exactly while one request is between `lock` and `unlock`: it alone talks to Redis
    and reads the replies, nothing keeps it waiting, and after at most `holdLimit` of its tries the lock is free. -/
theorem redisMtx_kept (h : ProcessReaches (fun _ _ => True) p) : p.LockKept := by
  obtain ⟨owner, hp⟩ := locked_of_reaches h
  exact hp.kept

/-- The second request waits while the first one is inside. -/
theorem redisMtx_kept_twoRequests : ∃ p, ProcessReaches (fun _ _ => True) p ∧
    (p.redisMtx = true ∧ p.handlers.map (·.inside) = [true, false]) ∧ p.LockKept := by
  obtain ⟨p, hp, hheld⟩ := ProcessReaches.of_events (fun _ _ => True)
    (fun p => p.redisMtx = true ∧ p.handlers.map (·.inside) = [true, false])
    [.receive ⟨1, 0, 7⟩, .receive ⟨1, 8, 15⟩, .call 0 .done, .call 0 (.redisCommand none)] (by decide +kernel)
  exact ⟨p, hp, hheld, redisMtx_kept hp⟩

end Process

end PushSystem
