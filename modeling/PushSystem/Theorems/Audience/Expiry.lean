import PushSystem.AudienceCache
import PushSystem.Theorems.Audience.Real
import PushSystem.Theorems.Producer.RoundTrip

/-! The audience expires as long as no request gives up after it has created the key and before its expiry is set. -/

namespace PushSystem
open Redis Prog

/-- `TMP_USER_INFO_KEY` does not exist, or it has an expiry. -/
def Stores.AudienceExpires (w : Stores) : Prop := ∀ entry, w.redis tmpUserInfoKey = some entry → entry.expiry ≠ none

namespace CacheState

def Expires (s : CacheState) : Prop := s.stores.AudienceExpires

def Absent (s : CacheState) : Prop := s.stores.redis tmpUserInfoKey = none

/-- A command that is given up leaves no audience without an expiry: Redis has not executed `BITOP`, it has executed
    `EXPIRE`, or there is no key. -/
def Settled (s : CacheState) (cmd : RedisCommand) : Prop :=
  s.Absent ∨ (cmd = bitopAudience → s.executed = false) ∧ (cmd = expireAudience → s.executed = true)

/-- The condition on a try: one that gives the command up leaves it settled, and `EXPIRE` is refused only if there
    is no key. -/
def Settles (s : CacheState) (cmd : RedisCommand) (n : Nat) : CacheOutcome → Prop
  | .noConnection => s.Settled cmd
  | .attempt a => a ≠ .heard → tryCount ≤ n + 1 → (s.tried cmd a).Settled cmd
  | .refused => s.Absent

section Others
variable {s t : CacheState}

theorem Absent.expires (h : s.Absent) : s.Expires := fun entry hentry => by
  rw [h] at hentry
  cases hentry

theorem Expires.of_eq (h : s.Expires) (heq : t.stores.redis tmpUserInfoKey = s.stores.redis tmpUserInfoKey) : t.Expires :=
  fun entry hentry => h entry (heq ▸ hentry)

theorem Others.expires (h : Others s t) (hs : s.Expires) : t.Expires := by
  rcases h.2 with hnone | heq
  · exact Absent.expires hnone
  · exact hs.of_eq heq

theorem Others.absent (h : Others s t) (hs : s.Absent) : t.Absent := by
  rcases h.2 with hnone | heq
  · exact hnone
  · exact heq.trans hs

end Others

/-! ### The commands -/

section Commands
variable {s t : CacheState} {cmd : RedisCommand} {n : Nat} {outcome : CacheOutcome} {r : Option (Option Reply)}

/-- A try of a command: it has been refused, or Redis has executed it as the attempt says. -/
theorem attempt_cases (h : s.attempt cmd n outcome = some (r, t)) :
    (outcome = .noConnection ∧ r = some none ∧ t = { s with executed := false }) ∨
    (outcome = .refused ∧ r = some (some (.integer 0)) ∧ t = { s with executed := false }) ∨
    ∃ a, outcome = .attempt a ∧ RedisHandler.command n (s.stores.redisCommand cmd a).1 = r ∧
      t = if r.isNone then s.tried cmd a else { s.tried cmd a with executed := false } := by
  cases outcome with
  | noConnection =>
    simp only [attempt] at h
    split at h
    · obtain ⟨rfl, rfl⟩ := Prod.mk.inj (Option.some.inj h)
      exact Or.inl ⟨rfl, rfl, rfl⟩
    · cases h
  | refused =>
    simp only [attempt] at h
    split at h
    · obtain ⟨rfl, rfl⟩ := Prod.mk.inj (Option.some.inj h)
      exact Or.inr (Or.inl ⟨rfl, rfl, rfl⟩)
    · cases h
  | attempt a =>
    refine Or.inr (Or.inr ⟨a, rfl, ?_⟩)
    simp only [attempt] at h
    split at h
    next hnone =>
      obtain ⟨rfl, rfl⟩ := Prod.mk.inj (Option.some.inj h)
      exact ⟨hnone, rfl⟩
    next hsome =>
      obtain ⟨rfl, rfl⟩ := Prod.mk.inj (Option.some.inj h)
      exact ⟨hsome, rfl⟩

theorem tried_lost : s.tried cmd .lost = s := by simp [tried, Stores.redisCommand]

theorem tried_of_ne {a : Attempt} (ha : a ≠ .lost) : s.tried cmd a = ⟨(s.stores.exec cmd).2, true⟩ := by
  cases a with
  | lost => exact absurd rfl ha
  | unheard | heard => simp [tried, Stores.redisCommand]

theorem tried_of_not_mem {a : Attempt} {key : String} (h : key ∉ cmd.writes) :
    (s.tried cmd a).stores.redis key = s.stores.redis key := by
  by_cases ha : a = .lost
  · rw [ha, tried_lost]
  · rw [tried_of_ne ha]
    exact Stores.exec_of_not_mem h

/-- A reply is one that Redis has sent. -/
theorem heard_of_reply {w : Stores} {a : Attempt} {reply : Reply}
    (h : RedisHandler.command n (w.redisCommand cmd a).1 = some (some reply)) :
    a = .heard ∧ reply = (w.exec cmd).1 := by
  cases a with
  | heard =>
    obtain ⟨hreply, -⟩ := RedisHandler.command_eq_some_some_iff.mp h
    exact ⟨rfl, (Option.some.inj hreply).symm⟩
  | lost | unheard =>
    obtain ⟨hreply, -⟩ := RedisHandler.command_eq_some_some_iff.mp h
    cases hreply

/-- A command is given up after its last try, which has not been answered. -/
theorem given_up {w : Stores} {a : Attempt} (h : RedisHandler.command n (w.redisCommand cmd a).1 = some none)
    (hne : (w.exec cmd).1 ≠ .error) : a ≠ .heard ∧ tryCount ≤ n + 1 := by
  have hheard : a ≠ .heard := by
    rintro rfl
    have hreply : RedisHandler.command n (w.redisCommand cmd .heard).1 = some (some (w.exec cmd).1) :=
      RedisHandler.command_eq_some_some_iff.mpr ⟨rfl, hne⟩
    rw [hreply] at h
    cases h
  refine ⟨hheard, ?_⟩
  by_contra hlt
  have hretry : RedisHandler.command n none = none := if_pos (Nat.lt_of_not_le hlt)
  cases a with
  | heard => exact hheard rfl
  | lost | unheard =>
    rw [Stores.redisCommand, hretry] at h
    cases h

end Commands

section Audience
variable {w : Stores}

theorem expires_exec_expireAudience : (w.exec expireAudience).2.AudienceExpires := by
  intro entry hentry
  cases hkey : w.redis tmpUserInfoKey with
  | none =>
    have hexec : (w.exec expireAudience).2.redis tmpUserInfoKey = none := by
      simp [Stores.exec, expireAudience, Store.exec, hkey]
    rw [hexec] at hentry
    cases hentry
  | some old =>
    rw [(exec_expireAudience hkey).2] at hentry
    obtain rfl := Option.some.inj hentry
    exact Option.some_ne_none _

theorem exec_bitopAudience_ne_error : (w.exec bitopAudience).1 ≠ .error := by
  simp [Stores.exec, bitopAudience, Store.exec]

theorem exec_expireAudience_ne_error : (w.exec expireAudience).1 ≠ .error := by
  simp only [Stores.exec, expireAudience, Store.exec]
  split <;> simp

/-- A `BITOP` that is answered by 0 leaves no key. -/
theorem absent_exec_bitopAudience (h : (w.exec bitopAudience).1.toInteger ≤ 0) :
    (w.exec bitopAudience).2.redis tmpUserInfoKey = none := by
  by_cases hnil : w.audience = []
  · simp only [Stores.exec, bitopAudience, Store.exec]
    rw [← Stores.audience, hnil]
    exact Store.remove_self
  · rw [(exec_bitopAudience hnil).1] at h
    exact absurd (List.length_eq_zero_iff.mp (Nat.le_zero.mp h)) hnil

end Audience

/-! ### What the calls of a request keep -/

/-- What a program of a request comes to if its tries settle the audience. -/
abbrev wpCache {α : Type} : ProduceMsgProg α → (α → CacheState → Prop) → CacheState → Prop :=
  wp (cacheTry Settles) Others fun _ => True

section Rules
variable {α : Type} {Q : α → CacheState → Prop} {s : CacheState}

/-- A call that is no command, in a state that the others keep. -/
theorem wp_still {P : CacheState → Prop} (hP : ∀ s t, P s → Others s t → P t) {o : ProduceMsgOp}
    (ho : ∀ cmd, o ≠ .redis cmd) {k : o.Ret → ProduceMsgProg α}
    (hk : ∀ r t, P t → wpCache (k r) Q t) (hs : P s) :
    wpCache (.call o k) Q s := by
  have heq : ∀ {n s r t}, cacheTry Settles o n s r t → t = s := by
    intro n s r t hm
    cases o with
    | redis cmd => exact absurd rfl (ho cmd)
    | lock | unlock | freeReply | copy | setWaitForSendCount | send | finish => exact hm
  exact ⟨P, ⟨fun _ _ => trivial, hP, fun n s t hs hm => heq hm ▸ hs, fun n s r t hs hm => hk r t (heq hm ▸ hs)⟩, hs⟩

/-- `EXISTS` changes nothing; it is answered by 0 only if there is no key. -/
theorem wp_existsAudience {k : Option Reply → ProduceMsgProg α}
    (hnone : ∀ t, t.Expires → wpCache (k none) Q t)
    (hsome : ∀ (reply : Reply) t, t.Expires → (reply.toInteger = 0 → t.Absent) →
      wpCache (k (some reply)) Q t) (hs : s.Expires) :
    wpCache (.call (.redis (.existsKey tmpUserInfoKey)) k) Q s := by
  have htried : ∀ (s : CacheState) (a : Attempt), (s.tried (.existsKey tmpUserInfoKey) a).stores.redis tmpUserInfoKey =
      s.stores.redis tmpUserInfoKey := fun s a => tried_of_not_mem List.not_mem_nil
  refine ⟨Expires, ⟨fun _ _ => trivial, fun s t hs he => he.expires hs, ?_, ?_⟩, hs⟩
  · rintro n s t hs ⟨outcome, hok, h⟩
    rcases attempt_cases h with ⟨-, hr, -⟩ | ⟨-, hr, -⟩ | ⟨a, -, -, rfl⟩
    · cases hr
    · cases hr
    · exact hs.of_eq (htried s a)
  · rintro n s r t hs ⟨outcome, hok, h⟩
    rcases attempt_cases h with ⟨-, hr, rfl⟩ | ⟨rfl, hr, rfl⟩ | ⟨a, -, hr, rfl⟩
    · obtain rfl := Option.some.inj hr
      exact hnone _ hs
    · obtain rfl := Option.some.inj hr
      exact hsome _ _ hs fun _ => hok
    · have ht := hs.of_eq (t := { s.tried (.existsKey tmpUserInfoKey) a with executed := false })
        (htried s a)
      cases r with
      | none => exact hnone _ ht
      | some reply =>
        refine hsome reply _ ht fun hzero => ?_
        obtain ⟨rfl, rfl⟩ := heard_of_reply hr
        cases hkey : s.stores.redis tmpUserInfoKey with
        | none => exact (htried s .heard).trans hkey
        | some entry => simp [Stores.exec, Store.exec, hkey, Reply.toInteger] at hzero

/-- A `BITOP` that is given up has created no key, and neither has one that is answered by 0. -/
theorem wp_bitopAudience {k : Option Reply → ProduceMsgProg α}
    (hnone : ∀ t, t.Absent → wpCache (k none) Q t)
    (hsome : ∀ (reply : Reply) t, t.executed = false → (reply.toInteger ≤ 0 → t.Absent) →
      wpCache (k (some reply)) Q t) (hs : s.Absent) :
    wpCache (.call (.redis bitopAudience) k) Q s := by
  -- as long as Redis has not executed it, there is no key
  have htried : ∀ (s : CacheState) (a : Attempt), s.Absent ∨ s.executed = true →
      (s.tried bitopAudience a).Absent ∨ (s.tried bitopAudience a).executed = true := by
    intro s a hs
    by_cases ha : a = .lost
    · rw [ha, tried_lost]
      exact hs
    · rw [tried_of_ne ha]
      exact Or.inr rfl
  have hsettled : ∀ s : CacheState, s.Absent ∨ s.executed = true → s.Settled bitopAudience → s.Absent := by
    rintro s (hs | hs) (hset | ⟨hset, -⟩)
    · exact hs
    · exact hs
    · exact hset
    · rw [hset rfl] at hs
      cases hs
  refine ⟨fun s => s.Absent ∨ s.executed = true, ⟨fun _ _ => trivial, ?_, ?_, ?_⟩, Or.inl hs⟩
  · rintro s t hs he
    exact hs.imp he.absent fun hex => he.1.trans hex
  · rintro n s t hs ⟨outcome, -, h⟩
    rcases attempt_cases h with ⟨-, hr, -⟩ | ⟨-, hr, -⟩ | ⟨a, -, -, rfl⟩
    · cases hr
    · cases hr
    · exact htried s a hs
  · rintro n s r t hs ⟨outcome, hok, h⟩
    rcases attempt_cases h with ⟨rfl, hr, rfl⟩ | ⟨rfl, hr, rfl⟩ | ⟨a, rfl, hr, rfl⟩
    · obtain rfl := Option.some.inj hr
      exact hnone _ (hsettled s hs hok)
    · obtain rfl := Option.some.inj hr
      exact hsome _ _ rfl fun _ => hok
    · cases r with
      | none =>
        obtain ⟨ha, hn⟩ := given_up hr exec_bitopAudience_ne_error
        have habsent := hsettled _ (htried s a hs) (hok ha hn)
        exact hnone _ habsent
      | some reply =>
        obtain ⟨rfl, rfl⟩ := heard_of_reply hr
        exact hsome _ _ rfl fun hzero => absent_exec_bitopAudience hzero

/-- After `EXPIRE` the audience expires, however it is answered. -/
theorem wp_expireAudience {k : Option Reply → ProduceMsgProg α}
    (hk : ∀ r t, t.Expires → wpCache (k r) Q t) (hs : s.executed = false) :
    wpCache (.call (.redis expireAudience) k) Q s := by
  -- once Redis has executed it, the audience expires
  have htried : ∀ (s : CacheState) (a : Attempt), (s.executed = true → s.Expires) →
      (s.tried expireAudience a).executed = true → (s.tried expireAudience a).Expires := by
    intro s a hs
    by_cases ha : a = .lost
    · rw [ha, tried_lost]
      exact hs
    · rw [tried_of_ne ha]
      exact fun _ => expires_exec_expireAudience
  have hsettled : ∀ s : CacheState, (s.executed = true → s.Expires) → s.Settled expireAudience → s.Expires := by
    rintro s hs (hset | ⟨-, hset⟩)
    · exact hset.expires
    · exact hs (hset rfl)
  refine ⟨fun s => s.executed = true → s.Expires, ⟨fun _ _ => trivial, ?_, ?_, ?_⟩, fun hex => ?_⟩
  · rintro s t hs he hex
    exact he.expires (hs (he.1.symm.trans hex))
  · rintro n s t hs ⟨outcome, -, h⟩
    rcases attempt_cases h with ⟨-, hr, -⟩ | ⟨-, hr, -⟩ | ⟨a, -, -, rfl⟩
    · cases hr
    · cases hr
    · exact htried s a hs
  · rintro n s r t hs ⟨outcome, hok, h⟩
    rcases attempt_cases h with ⟨rfl, -, rfl⟩ | ⟨rfl, -, rfl⟩ | ⟨a, rfl, hr, rfl⟩
    · exact hk _ _ (hsettled s hs hok)
    · exact hk _ _ (Absent.expires hok)
    · cases r with
      | none =>
        obtain ⟨ha, hn⟩ := given_up hr exec_expireAudience_ne_error
        have hexpires := hsettled _ (htried s a hs) (hok ha hn)
        exact hk _ _ hexpires
      | some reply =>
        obtain ⟨rfl, -⟩ := heard_of_reply hr
        exact hk _ _ expires_exec_expireAudience
  · rw [hs] at hex
    cases hex

end Rules

/-! ### Requests -/

section Requests
variable {s : CacheState} {startUid endUid : UInt64}

/-- The request only reads the key from here on. -/
def Leaves : ProduceMsgOp → Prop
  | .redis cmd => tmpUserInfoKey ∉ cmd.writes
  | _ => True

theorem wp_leaves {α : Type} {p : ProduceMsgProg α} (h : p.Everywhere fun o _ => Leaves o) (hs : s.Expires) :
    wpCache p (fun _ s => s.Expires) s := by
  have hkeep : ∀ o n s r t, Leaves o → s.Expires → cacheTry Settles o n s r t → t.Expires := by
    intro o n s r t ho hs hm
    cases o with
    | redis cmd =>
      obtain ⟨outcome, -, hm⟩ := hm
      rcases attempt_cases hm with ⟨-, -, rfl⟩ | ⟨-, -, rfl⟩ | ⟨a, -, -, rfl⟩
      · exact hs
      · exact hs
      · have ht := hs.of_eq (tried_of_not_mem (a := a) ho)
        split <;> exact ht
    | lock | unlock | freeReply | copy | setWaitForSendCount | send | finish => exact Eq.symm hm ▸ hs
  exact ((wp_of_everywhere (fun s t hs he => he.expires hs) hkeep h hs).mono fun _ _ hs _ => hs).weaken fun _ _ => trivial

theorem everywhere_readUserInfoStr_leaves : (readUserInfoStr startUid endUid).Everywhere fun o _ => Leaves o := by
  refine ⟨List.not_mem_nil, fun reply => ?_⟩
  cases reply with
  | none => exact ⟨trivial, fun _ => trivial⟩
  | some => exact ⟨trivial, fun _ => ⟨trivial, fun _ => ⟨trivial, fun _ => trivial⟩⟩⟩

theorem wp_createTmpUserInfoKey (hs : s.Absent) :
    wpCache createTmpUserInfoKey (fun _ s => s.Expires) s := by
  have hunlock : (ProduceMsgProg.unlock >>= fun _ => return false : ProduceMsgProg Bool).Everywhere fun o _ => Leaves o :=
    ⟨trivial, fun _ => trivial⟩
  refine wp_bitopAudience (fun t ht => wp_leaves hunlock ht.expires) (fun reply t hexecuted hzero => ?_) hs
  show wp _ _ _ (if reply.toInteger ≤ 0 then _ else _) _ _
  split
  next hle => exact wp_leaves hunlock (hzero hle).expires
  next =>
    refine wp_still (P := fun t => t.executed = false) (fun _ _ h he => he.1.trans h) (by simp)
      (fun _ t ht => wp_expireAudience (fun reply t ht => ?_) ht) hexecuted
    cases reply with
    | none => exact wp_leaves hunlock ht
    | some reply =>
      show wp _ _ _ (if reply.toInteger = 0 then _ else _) _ _
      split
      · exact wp_leaves hunlock ht
      · exact wp_leaves ⟨trivial, fun _ => trivial⟩ ht

theorem wp_fetchUserInfoStr_expires (hs : s.Expires) :
    wpCache (fetchUserInfoStr startUid endUid) (fun _ s => s.Expires) s := by
  refine wp_still (fun _ _ h he => he.expires h) (by simp) (fun _ t ht => ?_) hs
  refine wp_existsAudience (fun t ht => wp_leaves ⟨trivial, fun _ => trivial⟩ ht) (fun reply t ht hzero => ?_) ht
  refine wp_still (P := fun t => t.Expires ∧ (reply.toInteger = 0 → t.Absent))
    (fun _ _ h he => ⟨he.expires h.1, fun hz => he.absent (h.2 hz)⟩) (by simp) (fun _ t ht => ?_) ⟨ht, hzero⟩
  show wp _ _ _ (if reply.toInteger = 0 then _ else _) _ _
  split
  next hz =>
    refine wp_bind ((wp_createTmpUserInfoKey (ht.2 hz)).mono fun ok t _ ht => ?_)
    cases ok with
    | false => exact wp_leaves trivial ht
    | true => exact wp_leaves everywhere_readUserInfoStr_leaves ht
  next => exact wp_leaves everywhere_readUserInfoStr_leaves ht.1

theorem wp_produceMsg_expires (request : ProduceMsgRequest) (hs : s.Expires) :
    wpCache (produceMsg request) (fun _ s => s.Expires) s := by
  refine wp_bind ((wp_fetchUserInfoStr_expires hs).mono fun userInfoStr t _ ht => ?_)
  cases userInfoStr with
  | none => exact wp_leaves trivial ht
  | some =>
    have hsend := everywhere_sendToUids (R := fun cmd => tmpUserInfoKey ∉ cmd.writes) request.msgId
    refine wp_leaves ((hsend _).mono fun o ho => ?_) ht
    cases o with
    | redis cmd => exact ho cmd rfl
    | lock | unlock | freeReply | copy | setWaitForSendCount | send | finish => trivial

end Requests

end CacheState

/-- In every sequence of requests whose tries settle the audience, it expires after each request. -/
theorem audience_expires {s₀ s : CacheState} (h₀ : s₀.Absent) (h : Runs.Reaches (serves CacheState.Settles) s₀ s) :
    s.stores.AudienceExpires := by
  have hkeeps : Keeps CacheState.Others (fun _ => True) fun (_ : ErrCode) s => s.Expires :=
    ⟨fun _ _ _ _ _ _ => trivial, fun _ _ _ _ hs he => he.expires hs⟩
  have hinit : s₀.Expires := h₀.expires
  have hkeep : ∀ s request t, CacheState.Expires s → serves CacheState.Settles s request t → CacheState.Expires t := by
    rintro s request t hs ⟨code, hrun⟩
    exact (hrun.holds (CacheState.wp_produceMsg_expires request hs) hkeeps).2
  exact h.invariant hinit hkeep

/-- Every command is answered, but for those whose tries are lost. -/
def cacheAnswer (lost : RedisCommand → Bool) : (o : ProduceMsgOp) → CacheState → o.Ret × CacheState
  | .redis cmd, s =>
    if lost cmd ∨ (s.stores.exec cmd).1 = .error then (none, { s with executed := false })
    else (some (s.stores.exec cmd).1, { s.tried cmd .heard with executed := false })
  | .copy str len, s => (copyBytes (str.getD []) len.toNat fun _ => 0, s)
  | .lock, s | .unlock, s | .freeReply, s | .setWaitForSendCount _, s | .send _, s | .finish, s => ((), s)

section Answer
variable (ok : CacheState → RedisCommand → Nat → CacheOutcome → Prop) (lost : RedisCommand → Bool)

/-- All tries of a command are lost. -/
theorem reaches_lostTries {α : Type} {cmd : RedisCommand} (k : Option Reply → ProduceMsgProg α) (s : CacheState)
    (hlost : ∀ t : CacheState, t.stores = s.stores → ∀ n, ok t cmd n (.attempt .lost)) :
    Reaches (cacheTry ok) CacheState.Others (.call (.redis cmd) k) s ⟨k none, 0⟩ { s with executed := false } := by
  have hretry : ∀ n < 2, ∀ t : CacheState, t.stores = s.stores →
      cacheTry ok (.redis cmd) n t none (t.tried cmd .lost) := by
    intro n hn t ht
    refine ⟨.attempt .lost, hlost t ht n, ?_⟩
    have hnone : RedisHandler.command n none = none :=
      RedisHandler.command_eq_none_iff.mpr ⟨Or.inl rfl, Nat.succ_lt_succ hn⟩
    simp only [CacheState.attempt, Stores.redisCommand, hnone]
  have hlast : cacheTry ok (.redis cmd) 2 ((s.tried cmd .lost).tried cmd .lost) (some none) { s with executed := false } :=
    ⟨.attempt .lost, hlost ((s.tried cmd .lost).tried cmd .lost) rfl 2, rfl⟩
  exact .head (.own (.retry (hretry 0 (by decide) s rfl)))
    (.head (.own (.retry (hretry 1 (by decide) _ rfl))) (.single (.own (.ret hlast))))

theorem reaches_cacheAnswer {α : Type}
    (hlost : ∀ s cmd n, lost cmd ∨ (s.stores.exec cmd).1 = .error → ok s cmd n (.attempt .lost))
    (hheard : ∀ s cmd, ok s cmd 0 (.attempt .heard)) (o : ProduceMsgOp) (k : o.Ret → ProduceMsgProg α) (s : CacheState) :
    Reaches (cacheTry ok) CacheState.Others (.call o k) s ⟨k (cacheAnswer lost o s).1, 0⟩ (cacheAnswer lost o s).2 := by
  cases o with
  | redis cmd =>
    simp only [cacheAnswer]
    split
    next hcmd => exact reaches_lostTries ok k s fun t ht n => hlost t cmd n (ht ▸ hcmd)
    next hcmd =>
      rw [not_or] at hcmd
      have hreply : RedisHandler.command 0 (s.stores.redisCommand cmd .heard).1 = some (some (s.stores.exec cmd).1) :=
        RedisHandler.command_eq_some_some_iff.mpr ⟨rfl, hcmd.2⟩
      refine Reaches.ret ⟨.attempt .heard, hheard s cmd, ?_⟩ .refl
      simp only [CacheState.attempt, hreply]
  | lock | unlock | freeReply | copy | setWaitForSendCount | send | finish => exact Reaches.ret rfl .refl

/-- A request whose commands are answered so. -/
theorem serves_cacheAnswer
    (hlost : ∀ s cmd n, lost cmd ∨ (s.stores.exec cmd).1 = .error → ok s cmd n (.attempt .lost))
    (hheard : ∀ s cmd, ok s cmd 0 (.attempt .heard)) (s : CacheState) (request : ProduceMsgRequest) :
    serves ok s request ((produceMsg request).eval (cacheAnswer lost) s).2 :=
  ⟨_, Prog.returns_eval_of_reaches (reaches_cacheAnswer ok lost hlost hheard) (produceMsg request) s⟩

end Answer

/-- The three bitmaps are published, and there is no audience yet. -/
def noAudience : CacheState := ⟨publishedStores [0, 1, 2], false⟩

/-- The first request creates the audience, and the second finds it. -/
theorem audience_expires_answered : ∃ s : CacheState, noAudience.Absent ∧
    Runs.Reaches (serves CacheState.Settles) noAudience s ∧
    s.stores.redis tmpUserInfoKey = some ⟨[0x80], some 1800⟩ ∧ s.stores.AudienceExpires := by
  have hserves := serves_cacheAnswer CacheState.Settles (fun _ => false) (fun s cmd n herror _ _ => ?_)
    fun _ _ hne => absurd rfl hne
  · have hrun := (Runs.Reaches.refl.step (hserves noAudience ⟨1, 0, 7⟩)).step (hserves _ ⟨1, 0, 7⟩)
    have habsent : noAudience.Absent := by rfl
    exact ⟨_, habsent, hrun, by decide +kernel, audience_expires habsent hrun⟩
  · -- neither of the two commands is answered by an error
    have herror := herror.resolve_left Bool.false_ne_true
    refine Or.inr ⟨?_, ?_⟩
    · rintro rfl
      exact absurd herror CacheState.exec_bitopAudience_ne_error
    · rintro rfl
      exact absurd herror CacheState.exec_expireAudience_ne_error

/-- The three tries of `EXPIRE` are lost, and the next request accepts the audience that never expires. -/
theorem audience_forever : ¬∀ s₀ s : CacheState, s₀.Absent → Runs.Reaches (serves fun _ _ _ _ => True) s₀ s →
    s.stores.AudienceExpires := by
  intro hall
  have hserves := fun lost => serves_cacheAnswer (fun _ _ _ _ => True) lost (fun _ _ _ _ => trivial) fun _ _ => trivial
  have hrun := (Runs.Reaches.refl.step (hserves (fun cmd => decide (cmd = expireAudience)) noAudience ⟨1, 0, 7⟩)).step
    (hserves (fun _ => false) _ ⟨1, 0, 7⟩)
  exact hall _ _ (by rfl) hrun ⟨[0x80], none⟩ (by decide +kernel) rfl

end PushSystem
