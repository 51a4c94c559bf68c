import PushSystem.Theorems.UserInfoUpdate.Released
import PushSystem.Theorems.Producer.Steps

/-! A producer releases every reply before the next one, as long as no error reply is tried again and no answer makes
    `ProduceMsg` leave with it. `redisMtx` keeps the requests apart. -/

namespace PushSystem
open Redis Prog

/-! ### One request -/

/-- An error reply would be overwritten by the next try; with an empty audience, or one whose expiry is not set,
    `ProduceMsg` leaves before it releases the reply. -/
def releasesReply (cmd : RedisCommand) (reply : Reply) : Bool :=
  reply ≠ .error &&
    match cmd with
    | .bitop _ _ _ _ => 0 < reply.toInteger
    | .expire _ _ => reply.toInteger ≠ 0
    | _ => true

/-- The try leaves no reply behind. -/
def ProduceMsgOp.releases : ProduceMsgOp → Outcome → Bool
  | .redis cmd, .redisCommand (some reply) => releasesReply cmd reply
  | _, _ => true

def ReplyProcess.releases (s : ReplyProcess) : ProcessEvent → Bool
  | .call i outcome => (s.process.handlers[i]?.bind Handler.next).all fun o => o.releases outcome
  | _ => true

/-- A thread takes the lock and sends its commands under it, one after the release of the reply to the other, and
    holds no reply where it gives the lock back. It is `inside` the lock, and a reply is `held`. -/
def Tidy {α : Type} (Q : α → Bool → Bool → Prop) : ProduceMsgProg α → Bool → Bool → Prop
  | .pure a, inside, held => Q a inside held
  | .call .lock k, inside, held => inside = false ∧ held = false ∧ Tidy Q (k ()) true false
  | .call .unlock k, inside, held => inside = true ∧ held = false ∧ Tidy Q (k ()) false false
  | .call (.redis cmd) k, inside, held =>
    inside = true ∧ held = false ∧
      ∀ r : Option Reply, (∀ reply ∈ r, releasesReply cmd reply = true) → Tidy Q (k r) true r.isSome
  | .call .freeReply k, inside, _ => inside = true ∧ Tidy Q (k ()) true false
  | .call (.copy _ _) k, inside, held => ∀ bytes, Tidy Q (k bytes) inside held
  | .call (.setWaitForSendCount _) k, inside, held | .call (.send _) k, inside, held | .call .finish k, inside, held =>
    Tidy Q (k ()) inside held

section Tidy
variable {α β : Type} {Q : α → Bool → Bool → Prop} {inside held : Bool}

/-- What follows a tidy call may be replaced by what is tidy where that is. -/
theorem Tidy.call {R : β → Bool → Bool → Prop} {o : ProduceMsgOp} {k : o.Ret → ProduceMsgProg α}
    {k' : o.Ret → ProduceMsgProg β} (h : Tidy Q (.call o k) inside held)
    (hk : ∀ r inside held, Tidy Q (k r) inside held → Tidy R (k' r) inside held) : Tidy R (.call o k') inside held := by
  cases o with
  | lock => exact ⟨h.1, h.2.1, hk () _ _ h.2.2⟩
  | unlock => exact ⟨h.1, h.2.1, hk () _ _ h.2.2⟩
  | redis => exact ⟨h.1, h.2.1, fun r hr => hk r _ _ (h.2.2 r hr)⟩
  | freeReply => exact ⟨h.1, hk () _ _ h.2⟩
  | copy => exact fun bytes => hk bytes _ _ (h bytes)
  | setWaitForSendCount | send | finish => exact hk () _ _ h

theorem Tidy.mono {R : α → Bool → Bool → Prop} {p : ProduceMsgProg α} (h : Tidy Q p inside held)
    (hQ : ∀ a inside held, Q a inside held → R a inside held) : Tidy R p inside held := by
  induction p generalizing inside held with
  | pure a => exact hQ a inside held h
  | call o k ih => exact h.call fun r _ _ => ih r

theorem tidy_bind {Q : β → Bool → Bool → Prop} {p : ProduceMsgProg α} {f : α → ProduceMsgProg β}
    (h : Tidy (fun a => Tidy Q (f a)) p inside held) : Tidy Q (p >>= f) inside held := by
  induction p generalizing inside held with
  | pure a => exact h
  | call o k ih => exact h.call fun r _ _ => ih r

end Tidy

/-- Whether a thread is inside the lock after a call, or the lock is taken. -/
def ProduceMsgOp.insideAfter : ProduceMsgOp → Bool → Bool
  | .lock, _ => true
  | .unlock, _ => false
  | _, inside => inside

theorem ProduceMsgOp.mutex_eq {o : ProduceMsgOp} {locked locked' : Bool} (h : o.mutex locked = some locked') :
    locked' = o.insideAfter locked := by
  cases o with
  | lock =>
    cases locked <;> cases h
    rfl
  | unlock | redis | freeReply | copy | setWaitForSendCount | send | finish => exact (Option.some.inj h).symm

section Step
variable {α : Type} {Q : α → Bool → Bool → Prop} {o : ProduceMsgOp} {k : o.Ret → ProduceMsgProg α} {inside : Bool}
  {f : Field}

/-- A try of a command leaves nothing behind, or a reply that is released next. -/
theorem Tidy.step_redis {cmd : RedisCommand} {k : Option Reply → ProduceMsgProg α} {n : Nat} {c d : ProduceMsgCallData}
    {outcome : Outcome} {r : Option (Option Reply)} (h : Tidy Q (.call (.redis cmd) k) inside f.held)
    (hok : (ProduceMsgOp.redis cmd).releases outcome = true)
    (hatt : (ProduceMsgOp.redis cmd).attempt n c outcome = some (r, d)) :
    Tidy Q (r.elim (.call (.redis cmd) k) k) inside ((ProduceMsgOp.redis cmd).replyAfter f outcome).held := by
  obtain ⟨rfl, hheld, hk⟩ := h
  have hnone : Tidy Q (k none) true false := hk none fun _ hr => by cases hr
  cases outcome with
  | noConnection =>
    simp only [ProduceMsgOp.attempt] at hatt
    split at hatt
    · obtain ⟨rfl, -⟩ := Prod.mk.inj (Option.some.inj hatt)
      show Tidy Q _ true f.held
      rw [hheld]
      exact hnone
    · cases hatt
  | redisCommand reply =>
    obtain ⟨rfl, -⟩ := Prod.mk.inj (Option.some.inj hatt)
    cases reply with
    | none =>
      show Tidy Q (Option.elim (if n + 1 < tryCount then none else some none) _ k) true false
      split
      · exact ⟨rfl, rfl, hk⟩
      · exact hnone
    | some reply =>
      have hreply : Tidy Q (k (some reply)) true true := hk (some reply) fun x hx => by
        obtain rfl := Option.some.inj hx
        exact hok
      cases reply with
      | error => cases hok
      | _ => exact hreply
  | done | copied | thrown => cases hatt

/-- What the thread has to do after a try. -/
theorem Tidy.step {n : Nat} {c d : ProduceMsgCallData} {outcome : Outcome} {r : Option o.Ret}
    (h : Tidy Q (.call o k) inside f.held) (hok : o.releases outcome = true)
    (hatt : o.attempt n c outcome = some (r, d)) :
    Tidy Q (r.elim (.call o k) k) (o.insideAfter inside) (o.replyAfter f outcome).held := by
  cases o with
  | lock =>
    cases outcome <;> cases hatt
    obtain ⟨-, hheld, hk⟩ := h
    show Tidy Q _ _ f.held
    rw [hheld]
    exact hk
  | unlock =>
    cases outcome <;> cases hatt
    obtain ⟨-, hheld, hk⟩ := h
    show Tidy Q _ _ f.held
    rw [hheld]
    exact hk
  | redis cmd => exact h.step_redis hok hatt
  | freeReply =>
    cases outcome <;> cases hatt
    obtain ⟨hin, hk⟩ := h
    show Tidy Q _ inside false
    rw [hin]
    exact hk
  | copy =>
    cases outcome <;> simp [ProduceMsgOp.attempt] at hatt
    obtain ⟨-, rfl, -⟩ := hatt
    exact h _
  | setWaitForSendCount | finish =>
    cases outcome <;> cases hatt
    exact h
  | send =>
    cases outcome <;> cases hatt
    · exact h
    · exact h

/-- The field is assigned only when it holds nothing. -/
theorem Tidy.overwritten (outcome : Outcome) (h : Tidy Q (.call o k) inside f.held) (hf : f.overwritten = false) :
    (o.replyAfter f outcome).overwritten = false := by
  cases o with
  | redis cmd =>
    cases outcome with
    | redisCommand reply =>
      show (f.overwritten || f.held) = false
      rw [hf, h.2.1, Bool.or_false]
    | noConnection | done | copied | thrown => exact hf
  | lock | unlock | freeReply | copy | setWaitForSendCount | send | finish => exact hf

/-- A thread that gives the lock back holds nothing. -/
theorem Tidy.held_of_leaves (outcome : Outcome) (h : Tidy Q (.call o k) inside f.held) (ho : o.insideAfter true = false) :
    (o.replyAfter f outcome).held = false := by
  cases o with
  | unlock => exact h.2.1
  | lock | redis | freeReply | copy | setWaitForSendCount | send | finish => cases ho

end Step

section Requests
variable {startUid endUid : UInt64}

theorem tidy_readUserInfoStr :
    Tidy (fun _ inside held => inside = false ∧ held = false) (readUserInfoStr startUid endUid) true false := by
  refine ⟨rfl, rfl, fun reply _ => ?_⟩
  cases reply with
  | none => exact ⟨rfl, rfl, rfl, rfl⟩
  | some => exact fun bytes => ⟨rfl, rfl, rfl, rfl, rfl⟩

/-- The audience is created under the lock, or the lock is given back. -/
theorem tidy_createTmpUserInfoKey :
    Tidy (fun ok inside held => inside = ok ∧ held = false) createTmpUserInfoKey true false := by
  refine ⟨rfl, rfl, fun reply hreply => ?_⟩
  cases reply with
  | none => exact ⟨rfl, rfl, rfl, rfl⟩
  | some reply =>
    have hpos : 0 < reply.toInteger := of_decide_eq_true (Bool.and_elim_right (hreply reply rfl))
    show Tidy _ (if reply.toInteger ≤ 0 then _ else _) _ _
    rw [if_neg (Nat.not_le_of_lt hpos)]
    refine ⟨rfl, rfl, rfl, fun reply hreply => ?_⟩
    cases reply with
    | none => exact ⟨rfl, rfl, rfl, rfl⟩
    | some reply =>
      have hne : reply.toInteger ≠ 0 := of_decide_eq_true (Bool.and_elim_right (hreply reply rfl))
      show Tidy _ (if reply.toInteger = 0 then _ else _) _ _
      rw [if_neg hne]
      exact ⟨rfl, rfl, rfl⟩

theorem tidy_fetchUserInfoStr :
    Tidy (fun _ inside held => inside = false ∧ held = false) (fetchUserInfoStr startUid endUid) false false := by
  refine ⟨rfl, rfl, rfl, rfl, fun reply _ => ?_⟩
  cases reply with
  | none => exact ⟨rfl, rfl, rfl, rfl⟩
  | some reply =>
    refine ⟨rfl, ?_⟩
    show Tidy _ (if reply.toInteger = 0 then _ else _) _ _
    split
    · refine tidy_bind (tidy_createTmpUserInfoKey.mono ?_)
      rintro ok inside held ⟨rfl, rfl⟩
      cases inside with
      | false => exact ⟨rfl, rfl⟩
      | true => exact tidy_readUserInfoStr
    · exact tidy_readUserInfoStr

theorem tidy_sendToUids (msgId : UInt32) (uids : List UInt64) :
    Tidy (fun _ inside _ => inside = false) (sendToUids msgId uids) false false := by
  have hsend : Tidy (fun _ inside _ => inside = false) (sendAll msgId uids) false false := by
    induction uids with
    | nil => rfl
    | cons uid uids ih => exact ih
  show Tidy _ (if uids.length ≠ 0 then _ else _) _ _
  split
  · exact tidy_bind hsend
  · rfl

theorem tidy_produceMsg (request : ProduceMsgRequest) :
    Tidy (fun _ inside _ => inside = false) (produceMsg request) false false := by
  refine tidy_bind (tidy_fetchUserInfoStr.mono ?_)
  rintro userInfoStr inside held ⟨rfl, rfl⟩
  cases userInfoStr with
  | none => rfl
  | some => exact tidy_sendToUids _ _

end Requests

/-! ### The process -/

/-- What a call does besides what the thread does. -/
theorem Process.call_of_step {p q : Process} {i : Nat} {outcome : Outcome} (hs : p.step (.call i outcome) = some q) :
    ∃ h o h', p.handlers[i]? = some h ∧ h.next = some o ∧ o.mutex p.redisMtx = some q.redisMtx ∧
      h.call outcome = some h' ∧ q.handlers = p.handlers.set i h' := by
  unfold Process.step at hs
  split at hs
  next => cases hs
  next =>
    obtain ⟨h, hi, hs⟩ := Option.bind_eq_some_iff.mp hs
    obtain ⟨o, ho, hs⟩ := Option.bind_eq_some_iff.mp hs
    obtain ⟨redisMtx, hm, hs⟩ := Option.bind_eq_some_iff.mp hs
    obtain ⟨h', hc, hs⟩ := Option.bind_eq_some_iff.mp hs
    obtain rfl := Option.some.inj hs
    exact ⟨h, o, h', hi, ho, hm, hc, rfl⟩

/-- The request `owner`, if there is one, is inside the lock; the others hold nothing. -/
structure ReplyProcess.Owned (s : ReplyProcess) (owner : Option Nat) : Prop where
  unharmed : s.reply.overwritten = false
  locked : s.process.redisMtx = owner.isSome
  free : owner = none → s.reply.held = false
  valid : ∀ i, owner = some i → i < s.process.handlers.length
  tidy : ∀ i h, s.process.handlers[i]? = some h →
    Tidy (fun _ inside _ => inside = false) h.thread.prog (decide (owner = some i))
      (decide (owner = some i) && s.reply.held)

namespace ReplyProcess
variable {s t : ReplyProcess} {owner owner' : Option Nat} {i : Nat} {h h' : Handler} {o : ProduceMsgOp} {outcome : Outcome}

/-- A step of the request `i` concerns no other one. -/
theorem Owned.set (hs : s.Owned owner) (hi : s.process.handlers[i]? = some h)
    (hhandlers : t.process.handlers = s.process.handlers.set i h')
    (hothers : ∀ j, j ≠ i → (owner' = some j ↔ owner = some j) ∧ (owner = some j → t.reply = s.reply))
    (hunharmed : t.reply.overwritten = false) (hlocked : t.process.redisMtx = owner'.isSome)
    (hfree : owner' = none → t.reply.held = false)
    (htidy : Tidy (fun _ inside _ => inside = false) h'.thread.prog (decide (owner' = some i))
      (decide (owner' = some i) && t.reply.held)) : t.Owned owner' := by
  refine ⟨hunharmed, hlocked, hfree, fun j hj => ?_, fun j x hx => ?_⟩
  · rw [hhandlers, List.length_set]
    rcases eq_or_ne j i with rfl | hne
    · exact (List.getElem?_eq_some_iff.mp hi).1
    · exact hs.valid j ((hothers j hne).1.mp hj)
  · rw [hhandlers] at hx
    rcases Count.of_getElem?_set hx with ⟨rfl, rfl⟩ | ⟨hne, hx⟩
    · exact htidy
    · obtain ⟨howner, hreply⟩ := hothers j (Ne.symm hne)
      have hx' := hs.tidy j x hx
      rw [decide_eq_decide.mpr howner]
      by_cases hj : owner = some j
      · rw [hreply hj]
        exact hx'
      · rw [decide_eq_false hj] at hx' ⊢
        exact hx'

/-- The request inside the lock makes a call: it stays inside, or gives the lock back and holds nothing. -/
theorem Owned.call_owner {k : o.Ret → ProduceMsgProg ErrCode} (hs : s.Owned (some i))
    (hi : s.process.handlers[i]? = some h) (hhandlers : t.process.handlers = s.process.handlers.set i h')
    (hlocked : t.process.redisMtx = o.insideAfter true) (hreply : t.reply = o.replyAfter s.reply outcome)
    (htidy : Tidy (fun _ inside _ => inside = false) (.call o k) true s.reply.held)
    (hnext : Tidy (fun _ inside _ => inside = false) h'.thread.prog (o.insideAfter true) t.reply.held) :
    ∃ owner', t.Owned owner' := by
  have hunharmed : t.reply.overwritten = false := hreply ▸ htidy.overwritten outcome hs.unharmed
  cases hafter : o.insideAfter true with
  | true =>
    rw [hafter] at hnext
    refine ⟨some i, hs.set hi hhandlers (fun j hj => ⟨Iff.rfl, fun h => absurd (Option.some.inj h).symm hj⟩) hunharmed
      (hlocked.trans hafter) (fun h => by cases h) ?_⟩
    rw [decide_eq_true rfl, Bool.true_and]
    exact hnext
  | false =>
    rw [hafter] at hnext
    have hfree : t.reply.held = false := hreply ▸ htidy.held_of_leaves outcome hafter
    refine ⟨none, hs.set hi hhandlers (fun j hj => ⟨?_, fun h => absurd (Option.some.inj h).symm hj⟩) hunharmed
      (hlocked.trans hafter) (fun _ => hfree) ?_⟩
    · exact ⟨fun h => (by cases h), fun h => absurd (Option.some.inj h).symm hj⟩
    · rw [hfree] at hnext
      exact hnext

/-- A request outside the lock makes a call: it takes the lock, or one that concerns no reply. -/
theorem Owned.call_other {k : o.Ret → ProduceMsgProg ErrCode} (hs : s.Owned owner) (hin : owner ≠ some i)
    (hi : s.process.handlers[i]? = some h) (hhandlers : t.process.handlers = s.process.handlers.set i h')
    (hm : o.mutex owner.isSome = some t.process.redisMtx) (hreply : t.reply = o.replyAfter s.reply outcome)
    (htidy : Tidy (fun _ inside _ => inside = false) (.call o k) false false)
    (hnext : Tidy (fun _ inside _ => inside = false) h'.thread.prog (o.insideAfter false)
      (o.replyAfter {} outcome).held) : ∃ owner', t.Owned owner' := by
  have hlocked := ProduceMsgOp.mutex_eq hm
  cases o with
  | unlock | redis | freeReply => cases htidy.1
  | lock =>
    have hreply : t.reply = s.reply := hreply
    -- the lock is free, and so is the reply
    cases owner with
    | some j => cases hm
    | none =>
      refine ⟨some i, hs.set hi hhandlers (fun j hj => ⟨?_, fun h => (by cases h)⟩) (hreply ▸ hs.unharmed) hlocked
        (fun h => (by cases h)) ?_⟩
      · exact ⟨fun h => absurd (Option.some.inj h).symm hj, fun h => (by cases h)⟩
      · rw [decide_eq_true rfl, Bool.true_and, hreply, hs.free rfl]
        exact hnext
  | copy | setWaitForSendCount | send | finish =>
    have hreply : t.reply = s.reply := hreply
    refine ⟨owner, hs.set hi hhandlers (fun j _ => ⟨Iff.rfl, fun _ => hreply⟩) (hreply ▸ hs.unharmed) hlocked
      (fun h => hreply ▸ hs.free h) ?_⟩
    rw [decide_eq_false hin]
    exact hnext

/-- The step of a request that makes a call. -/
theorem Owned.call (hs : s.Owned owner) (hok : s.releases (.call i outcome) = true)
    (ht : s.step (.call i outcome) = some t) : ∃ owner', t.Owned owner' := by
  obtain ⟨q, hq, rfl⟩ := Option.map_eq_some_iff.mp ht
  obtain ⟨h, o, h', hi, hn, hm, hc, hhandlers⟩ := Process.call_of_step hq
  have hnext : s.process.handlers[i]?.bind Handler.next = some o := by rw [hi, Option.bind_some, hn]
  have hreply : s.replyAfter (.call i outcome) = o.replyAfter s.reply outcome := by rw [replyAfter, hnext]
  have hok' : o.releases outcome = true := by rwa [releases, hnext] at hok
  obtain ⟨o', k, n, hprog, hstep⟩ := Handler.call_cases hc
  obtain rfl : o = o' := by
    unfold Handler.next at hn
    rw [hprog] at hn
    exact (Option.some.inj hn).symm
  have htidy := hs.tidy i h hi
  rw [hs.locked] at hm
  rw [hprog] at htidy
  -- what the thread has to do next
  have hnew : ∀ {inside : Bool} {f : Field}, Tidy (fun _ inside _ => inside = false) (.call o k) inside f.held →
      Tidy (fun _ inside _ => inside = false) h'.thread.prog (o.insideAfter inside) (o.replyAfter f outcome).held := by
    intro inside f ht
    rcases hstep with ⟨hatt, hp⟩ | ⟨r, hatt, hp⟩
    · exact hp ▸ ht.step hok' hatt
    · exact hp ▸ ht.step hok' hatt
  by_cases hin : owner = some i
  · subst hin
    rw [decide_eq_true rfl, Bool.true_and] at htidy
    have hown := hnew htidy
    rw [← hreply] at hown
    exact hs.call_owner hi hhandlers (ProduceMsgOp.mutex_eq hm) hreply htidy hown
  · rw [decide_eq_false hin, Bool.false_and] at htidy
    exact hs.call_other hin hi hhandlers hm hreply htidy (hnew (f := {}) htidy)

theorem Owned.step {e : ProcessEvent} (hs : s.Owned owner) (hok : s.releases e = true) (ht : s.step e = some t) :
    ∃ owner', t.Owned owner' := by
  cases e with
  | call i outcome => exact hs.call hok ht
  | receive request =>
    obtain ⟨q, hq, rfl⟩ := Option.map_eq_some_iff.mp ht
    cases (Process.steps_of_step hq).2
    refine ⟨owner, hs.unharmed, hs.locked, hs.free, fun j hj => ?_, fun j x hx => ?_⟩
    · rw [List.length_append]
      exact Nat.lt_add_right _ (hs.valid j hj)
    · rcases Count.of_getElem?_snoc hx with hx | ⟨rfl, rfl⟩
      · exact hs.tidy j x hx
      · have hnew : owner ≠ some s.process.handlers.length := fun h => absurd (hs.valid _ h) (Nat.lt_irrefl _)
        rw [decide_eq_false hnew]
        exact tidy_produceMsg request
  | throws i =>
    obtain ⟨q, hq, rfl⟩ := Option.map_eq_some_iff.mp ht
    cases (Process.steps_of_step hq).2
    exact ⟨owner, hs.unharmed, hs.locked, hs.free, hs.valid, hs.tidy⟩
  | broker i e =>
    obtain ⟨q, hq, rfl⟩ := Option.map_eq_some_iff.mp ht
    cases (Process.steps_of_step hq).2 with
    | broker hi hb =>
      have htidy := hs.tidy i _ hi
      exact ⟨owner, hs.set hi rfl (fun _ _ => ⟨Iff.rfl, fun _ => rfl⟩) hs.unharmed hs.locked hs.free htidy⟩

/-- The runs of a producer whose steps meet the condition. -/
def ReachesUnder (ok : ReplyProcess → ProcessEvent → Prop) : ReplyProcess → Prop :=
  Runs.Reaches (Runs.under (Runs.ofFun step) ok) {}

/-- A run that is given by its events. -/
theorem ReachesUnder.of_events (ok : ReplyProcess → ProcessEvent → Prop) [∀ s e, Decidable (ok s e)]
    (P : ReplyProcess → Prop) [DecidablePred P] (es : List ProcessEvent)
    (h : (Runs.exec step ok es {}).any (fun s => decide (P s)) = true) : ∃ s : ReplyProcess, s.ReachesUnder ok ∧ P s :=
  Runs.exists_of_exec es h

/-- A request owns the lock, or none does. -/
def Kept (s : ReplyProcess) : Prop := ∃ owner, s.Owned owner

theorem kept_of_reaches (h : ReachesUnder (fun s e => s.releases e) s) : s.Kept := by
  have hinit : Kept {} := ⟨none, rfl, rfl, fun _ => rfl, fun _ h => (nomatch h), fun _ _ h => (nomatch h)⟩
  refine Runs.Reaches.invariant h hinit ?_
  rintro s e t ⟨owner, hs⟩ ⟨hok, ht⟩
  exact hs.step hok ht

end ReplyProcess

/-! ### Both programs -/

/-- As long as every try releases what it has to, no run of either program overwrites a reply or a result set. -/
theorem fields_released {offset : Int} {calls : List UpdaterCall} {th : Thread HandlerOp HandlerOp.Ret Unit}
    {updater : Fields} {producer : ReplyProcess}
    (hu : Reaches (handlerTry HandlerOp.Releases) NoOthers (updaterCalls offset calls) {} th updater)
    (hp : producer.ReachesUnder fun s e => s.releases e) :
    updater.Unharmed ∧ producer.reply.overwritten = false := by
  obtain ⟨owner, hs⟩ := ReplyProcess.kept_of_reaches hp
  exact ⟨updater_released hu, hs.unharmed⟩

/-- Every call of the updater is answered: the tables are empty, and no time is recorded. -/
def answered : (o : HandlerOp) → Fields → o.Ret × Fields
  | .updater (.redis _), s => (some (.integer 1), { s with reply := s.reply.assign true })
  | .updater .freeReply, s => ((), { s with reply := s.reply.free })
  | .updater (.mysql _), s | .selectTime _, s => (true, { s with result := s.result.assign true })
  | .updater .fetchRows, s => ([], s)
  | .updater .affectedRows, s => (1, s)
  | .updater .freeResult, s => ((), { s with result := s.result.free })
  | .updater .time, s => (0, s)
  | .fetchRow, s => (none, s)

theorem handlerTry_answered (o : HandlerOp) (s : Fields) :
    handlerTry HandlerOp.Releases o 0 s (some (answered o s).1) (answered o s).2 := by
  cases o with
  | selectTime => exact ⟨.mysqlQuery true true, trivial, rfl⟩
  | fetchRow => exact ⟨.row none, trivial, rfl⟩
  | updater o =>
    cases o with
    | redis cmd => exact ⟨.redisCommand (some (.integer 1)), trivial, rfl⟩
    | freeReply | freeResult => exact ⟨.freed, trivial, rfl⟩
    | mysql => exact ⟨.mysqlQuery true true, trivial, rfl⟩
    | fetchRows => exact ⟨.rows [], trivial, rfl⟩
    | affectedRows => exact ⟨.affectedRows 1, trivial, rfl⟩
    | time => exact ⟨.now 0, trivial, rfl⟩

/-- The audience is created, and then found. -/
def twoRequests : List ProcessEvent :=
  [.receive ⟨1, 0, 7⟩, .receive ⟨1, 8, 15⟩,
    .call 0 .done, .call 0 (.redisCommand (some (.integer 0))), .call 0 .done,
    .call 0 (.redisCommand none), .call 0 (.redisCommand (some (.integer 2))), .call 0 .done,
    .call 0 (.redisCommand (some (.integer 1))), .call 0 .done,
    .call 0 (.redisCommand (some (.str [0x80]))), .call 0 (.copied fun _ => 0), .call 0 .done, .call 0 .done,
    .call 1 .done, .call 1 (.redisCommand (some (.integer 1))), .call 1 .done,
    .call 1 (.redisCommand (some (.str [0x80])))]

theorem fields_released_answered :
    ∃ (th : Thread HandlerOp HandlerOp.Ret Unit) (updater : Fields) (producer : ReplyProcess),
      Reaches (handlerTry HandlerOp.Releases) NoOthers (updaterCalls 28800 [.check 0, .check 1, .check 2]) {} th updater ∧
      th.prog = .pure () ∧ (producer.ReachesUnder fun s e => s.releases e) ∧ producer.reply.held = true ∧
      updater.Unharmed ∧ producer.reply.overwritten = false := by
  have hu := returns_eval_unit (E := NoOthers) handlerTry_answered (updaterCalls 28800 [.check 0, .check 1, .check 2]) {}
  obtain ⟨producer, hp, hheld⟩ := ReplyProcess.ReachesUnder.of_events (fun s e => s.releases e)
    (fun s => s.reply.held = true) twoRequests (by decide +kernel)
  exact ⟨_, _, producer, hu, rfl, hp, hheld, fields_released hu hp⟩

/-- An error reply is overwritten by the next try; a producer that finds no user leaves with the reply of `BITOP`,
    and the next request overwrites it. -/
theorem fields_overwritten :
    (¬∀ (offset : Int) (calls : List UpdaterCall) (th : Thread HandlerOp HandlerOp.Ret Unit) (s : Fields),
      Reaches (handlerTry fun _ _ _ _ => True) NoOthers (updaterCalls offset calls) {} th s → s.Unharmed) ∧
    ¬∀ s : ReplyProcess, s.ReachesUnder (fun _ _ => True) → s.reply.overwritten = false := by
  constructor
  · intro hall
    have herror : ∀ s n, n + 1 < tryCount → handlerTry (fun _ _ _ _ => True)
        (.updater (.redis (.del (genTempKey (userInfoKey 0))))) n s none { s with reply := s.reply.assign true } :=
      fun s n hn => ⟨.redisCommand (some .error), trivial, congrArg (fun r => some (r, _)) (if_pos hn)⟩
    have hfirst : Reaches (handlerTry fun _ _ _ _ => True) NoOthers (updaterCalls 28800 [.update 0]) {} _ _ :=
      Relation.ReflTransGen.refl.tail (.own (.retry (herror _ 0 (by decide))))
    have hrun := hfirst.tail (.own (.retry (herror _ 1 (by decide))))
    cases (hall _ _ _ _ hrun).1
  · intro hall
    obtain ⟨s, hs, hover⟩ := ReplyProcess.ReachesUnder.of_events (fun _ _ => True)
      (fun s => s.reply.overwritten = true)
      [.receive ⟨1, 0, 7⟩, .receive ⟨1, 8, 15⟩,
        .call 0 .done, .call 0 (.redisCommand (some (.integer 0))), .call 0 .done,
        .call 0 (.redisCommand (some (.integer 0))), .call 0 .done,
        .call 1 .done, .call 1 (.redisCommand (some (.integer 0)))] (by decide +kernel)
    rw [hall s hs] at hover
    cases hover

end PushSystem
