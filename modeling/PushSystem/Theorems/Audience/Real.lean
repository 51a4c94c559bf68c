import PushSystem.Audience
import PushSystem.Theorems.Producer.Replies
import PushSystem.Theorems.UserInfoUpdate.Windows

/-! The audience that a push is decoded from. It is real as long as the bitmaps it is computed from exist and it
    is not removed between the command of a request that finds or creates it and the `GETRANGE` that reads it. -/

namespace PushSystem
open Redis Bitmap Prog

/-! ### `ProduceMsg` -/

/-- The next Redis command of a thread, once it has freed the last reply. -/
def nextRedis {α : Type} : ProduceMsgProg α → Option RedisCommand
  | .call .freeReply k => nextRedis (k ())
  | .call (.redis cmd) _ => some cmd
  | _ => none

/-- The thread has found or created the audience and is about to read it. -/
def reads {α : Type} (prog : ProduceMsgProg α) : Bool :=
  match nextRedis prog with
  | some (.getrange _ _ _) => true
  | _ => false

/-- The answer says that the audience exists. -/
def Confirms : (o : ProduceMsgOp) → o.Ret → Prop
  | .redis (.existsKey _), some reply | .redis (.expire _ _), some reply => reply.toInteger ≠ 0
  | .freeReply, _ => True
  | _, _ => False

/-- Only a call that confirms the audience leads to its reading. -/
def Approaches {α : Type} (o : ProduceMsgOp) (k : o.Ret → ProduceMsgProg α) : Prop :=
  ∀ r, reads (k r) → Confirms o r

def AnswersRead : (o : ProduceMsgOp) → o.Ret → Prop
  | .redis (.getrange _ _ _), some _ => True
  | _, _ => False

/-- Nothing is sent or answered before the `GETRANGE` is answered. -/
def Guarded {α : Type} : ProduceMsgProg α → Prop
  | .pure _ => True
  | .call o k => o.Quiet ∧ ∀ r, ¬AnswersRead o r → Guarded (k r)

section Program

theorem everywhere_sendAll_approaches (msgId : UInt32) (uids : List UInt64) :
    (sendAll msgId uids >>= fun _ => (return .success : ProduceMsgProg ErrCode)).Everywhere fun o k => Approaches o k := by
  induction uids with
  | nil => trivial
  | cons uid uids ih =>
    refine ⟨fun _ hr => ?_, fun _ => ih⟩
    cases uids <;> cases hr

theorem everywhere_sendToUids_approaches (msgId : UInt32) (uids : List UInt64) :
    (sendToUids msgId uids).Everywhere fun o k => Approaches o k := by
  refine ⟨fun r hr => ?_, fun _ => ?_⟩
  · cases uids <;> cases hr
  · cases uids with
    | nil => exact ⟨fun r hr => (by cases hr), fun _ => trivial⟩
    | cons uid uids => exact everywhere_sendAll_approaches msgId (uid :: uids)

section Fetch
variable {F : Option (List Bitmap.Byte) → ProduceMsgProg ErrCode} (hF : ∀ r, (F r).Everywhere fun o k => Approaches o k)
  (hreads : ∀ r, reads (F r) = false) {startUid endUid : UInt64}
include hF hreads

theorem everywhere_unlock_approaches :
    (ProduceMsgProg.unlock >>= fun _ => F none).Everywhere fun o k => Approaches o k :=
  ⟨fun _ hr => absurd ((hreads none).symm.trans hr) Bool.false_ne_true, fun _ => hF none⟩

theorem everywhere_readUserInfoStr_approaches :
    (readUserInfoStr startUid endUid >>= F).Everywhere fun o k => Approaches o k := by
  refine ⟨fun reply hr => ?_, fun reply => ?_⟩
  · cases reply <;> cases hr
  · cases reply with
    | none => exact everywhere_unlock_approaches hF hreads
    | some reply =>
      refine ⟨fun userInfoStr hr => (by cases hr), fun userInfoStr => ⟨fun _ _ => trivial, fun _ => ?_⟩⟩
      exact ⟨fun _ hr => absurd ((hreads (some userInfoStr)).symm.trans hr) Bool.false_ne_true, fun _ => hF _⟩

theorem everywhere_createTmpUserInfoKey_approaches :
    (createTmpUserInfoKey >>= fun ok => (if !ok then return none else readUserInfoStr startUid endUid) >>= F).Everywhere
      fun o k => Approaches o k := by
  have hunlock := everywhere_unlock_approaches hF hreads
  have hread : (readUserInfoStr startUid endUid >>= F).Everywhere fun o k => Approaches o k :=
    everywhere_readUserInfoStr_approaches hF hreads
  refine ⟨fun reply hr => ?_, fun reply => ?_⟩
  · cases reply with
    | none => cases hr
    | some reply =>
      change reads ((if reply.toInteger ≤ 0 then _ else _) >>= _) = true at hr
      split at hr <;> cases hr
  · cases reply with
    | none => exact hunlock
    | some reply =>
      show Everywhere _ ((if reply.toInteger ≤ 0 then _ else _) >>= _)
      split
      · exact hunlock
      · refine ⟨fun _ _ => trivial, fun _ => ⟨fun reply hr => ?_, fun reply => ?_⟩⟩
        · cases reply with
          | none => cases hr
          | some reply =>
            change reads ((if reply.toInteger = 0 then _ else _) >>= _) = true at hr
            split at hr
            next => cases hr
            next hne => exact hne
        · cases reply with
          | none => exact hunlock
          | some reply =>
            show Everywhere _ ((if reply.toInteger = 0 then _ else _) >>= _)
            split
            · exact hunlock
            · exact ⟨fun _ _ => trivial, fun _ => hread⟩

/-- The calls under the lock, and what follows them. -/
theorem everywhere_fetchUserInfoStr_approaches :
    (fetchUserInfoStr startUid endUid >>= F).Everywhere fun o k => Approaches o k := by
  have hunlock := everywhere_unlock_approaches hF hreads
  refine ⟨fun _ hr => (by cases hr), fun _ => ⟨fun reply hr => ?_, fun reply => ?_⟩⟩
  · cases reply with
    | none => cases hr
    | some reply =>
      change reads ((if reply.toInteger = 0 then _ else _) >>= _) = true at hr
      split at hr
      next => cases hr
      next hne => exact hne
  · cases reply with
    | none => exact hunlock
    | some reply =>
      refine ⟨fun _ _ => trivial, fun _ => ?_⟩
      show Everywhere _ ((if reply.toInteger = 0 then _ else _) >>= _)
      split
      · rw [bind_bind]
        exact everywhere_createTmpUserInfoKey_approaches hF hreads
      · exact everywhere_readUserInfoStr_approaches hF hreads

end Fetch

theorem everywhere_produceMsg_approaches (request : ProduceMsgRequest) :
    (produceMsg request).Everywhere fun o k => Approaches o k := by
  refine everywhere_fetchUserInfoStr_approaches (fun userInfoStr => ?_) fun userInfoStr => ?_
  · cases userInfoStr with
    | none => trivial
    | some => exact everywhere_sendToUids_approaches _ _
  · cases userInfoStr <;> rfl

/-! ### Before the `GETRANGE` -/

theorem guarded_bind {α β : Type} {p : ProduceMsgProg α} {f : α → ProduceMsgProg β}
    (hquiet : p.Everywhere fun o _ => o.Quiet) (h : p.Yields (fun o r => ¬AnswersRead o r) fun a => Guarded (f a)) :
    Guarded (p >>= f) := by
  induction p with
  | pure a => exact h
  | call o k ih => exact ⟨hquiet.1, fun r hr => ih r (hquiet.2 r) (h r hr)⟩

theorem yields_fetchUserInfoStr_none {startUid endUid : UInt64} :
    (fetchUserInfoStr startUid endUid).Yields (fun o r => ¬AnswersRead o r) fun r => r = none := by
  have hread : (readUserInfoStr startUid endUid).Yields (fun o r => ¬AnswersRead o r) fun r => r = none := by
    intro reply hr
    cases reply with
    | none => exact fun _ _ => rfl
    | some => exact absurd trivial hr
  intro _ _ reply _
  cases reply with
  | none => exact fun _ _ => rfl
  | some reply =>
    intro _ _
    show Yields _ _ (if reply.toInteger = 0 then _ else _)
    split
    · refine yields_bind (yields_of_forall fun ok => ?_)
      cases ok with
      | false => rfl
      | true => exact hread
    · exact hread

theorem guarded_produceMsg (request : ProduceMsgRequest) : Guarded (produceMsg request) :=
  guarded_bind (everywhere_fetchUserInfoStr.mono fun _ ho => ho.quiet) (yields_fetchUserInfoStr_none.mono fun r hr => by
    subst hr
    trivial)

end Program

/-! ### The stores -/

def AudienceCommand (cmd : RedisCommand) : Prop := ∃ startUid endUid, ProduceMsgCommand startUid endUid cmd

/-- The three published bitmaps exist. -/
def Stores.Published (w : Stores) : Prop := ∀ tag, (w.redis (genReleaseKey (userInfoKey tag))).isSome

instance (w : Stores) : Decidable w.Published :=
  inferInstanceAs (Decidable (∀ tag, (w.redis (genReleaseKey (userInfoKey tag))).isSome))

/-- The three published bitmaps are missing or empty strings. -/
def Stores.NoUsers (w : Stores) : Prop := ∀ tag, w.redis.value (genReleaseKey (userInfoKey tag)) = []

instance (w : Stores) : Decidable w.NoUsers :=
  inferInstanceAs (Decidable (∀ tag, w.redis.value (genReleaseKey (userInfoKey tag)) = []))

section Stores
variable {w : Stores} {cmd : RedisCommand} {a : Attempt}

def Stores.NoneOrReal (w : Stores) : Prop := (w.redis tmpUserInfoKey).isSome → w.real = true

theorem real_bitopAudience (h : w.Published) : (w.exec bitopAudience).2.real = true := by
  simp [bitopAudience, Stores.exec, h 0, h 1, h 2]

/-- The `BITOP` of bitmaps without users leaves no audience. -/
theorem exec_bitopAudience_of_noUsers (h : w.NoUsers) : (w.exec bitopAudience).2.redis tmpUserInfoKey = none := by
  simp [bitopAudience, Stores.exec, Store.exec, Store.bitop, combine, h 0, h 1, h 2, Store.remove_self]

theorem noneOrReal_redisCommand (h : w.NoneOrReal) (hcmd : AudienceCommand cmd)
    (hbitop : cmd = bitopAudience → a ≠ .lost → w.Published ∨ w.NoUsers) : (w.redisCommand cmd a).2.NoneOrReal := by
  have hexec : a ≠ .lost → (w.exec cmd).2.NoneOrReal := by
    intro ha hsome
    obtain ⟨startUid, endUid, hcmd⟩ := hcmd
    cases hcmd with
    | existsAudience | getrange => exact h hsome
    | bitop =>
      rcases hbitop rfl ha with hpublished | hno
      · exact real_bitopAudience hpublished
      · rw [exec_bitopAudience_of_noUsers hno] at hsome
        cases hsome
    | expire =>
      refine h ?_
      cases hkey : w.redis tmpUserInfoKey with
      | none => simp [expireAudience, Stores.exec, Store.exec, hkey] at hsome
      | some => rfl
  cases a with
  | lost => exact h
  | unheard => exact hexec (by simp)
  | heard => exact hexec (by simp)

theorem bitopAudience_ne_nil (h : ¬w.NoUsers) :
    w.redis.bitop .and (genReleaseKey (userInfoKey 0)) [genReleaseKey (userInfoKey 1), genReleaseKey (userInfoKey 2)] ≠
      [] := by
  intro hnil
  have hlen := congrArg List.length hnil
  simp only [Store.bitop, List.foldl_cons, List.foldl_nil, length_combine, List.length_nil] at hlen
  have hnone : ∀ tag, (w.redis.value (genReleaseKey (userInfoKey tag))).length = 0 := by
    refine forall_tag.mpr ⟨?_, ?_, ?_⟩ <;> omega
  exact h fun tag => List.length_eq_zero_iff.mp (hnone tag)

/-- Only the `BITOP` of bitmaps without users removes the audience. -/
theorem isSome_redisCommand (h : (w.redis tmpUserInfoKey).isSome) (hcmd : AudienceCommand cmd)
    (hbitop : cmd = bitopAudience → a ≠ .lost → ¬w.NoUsers) :
    ((w.redisCommand cmd a).2.redis tmpUserInfoKey).isSome := by
  have hexec : a ≠ .lost → ((w.exec cmd).2.redis tmpUserInfoKey).isSome := by
    intro ha
    obtain ⟨startUid, endUid, hcmd⟩ := hcmd
    cases hcmd with
    | existsAudience | getrange => exact h
    | bitop =>
      have hne := bitopAudience_ne_nil (hbitop rfl ha)
      simp [bitopAudience, Stores.exec, Store.exec, hne, Store.set_self]
    | expire =>
      obtain ⟨entry, hkey⟩ := Option.isSome_iff_exists.mp h
      simp [expireAudience, Stores.exec, Store.exec, hkey, Store.set_self]
  cases a with
  | lost => exact h
  | unheard => exact hexec (by simp)
  | heard => exact hexec (by simp)

/-- A confirmation is heard while the audience exists. -/
theorem isSome_of_confirms {r : Option Reply} (hcmd : AudienceCommand cmd) (hr : Confirms (.redis cmd) r)
    (hreply : (w.redisCommand cmd a).1 = r) : ((w.redisCommand cmd a).2.redis tmpUserInfoKey).isSome := by
  cases r with
  | none =>
    cases cmd <;> exact hr.elim
  | some reply =>
    cases a with
    | lost | unheard => cases hreply
    | heard =>
      obtain rfl := Option.some.inj hreply
      obtain ⟨startUid, endUid, hcmd⟩ := hcmd
      cases hkey : w.redis tmpUserInfoKey with
      | none =>
        cases hcmd with
        | bitop | getrange => exact hr.elim
        | existsAudience => exact absurd (by simp [Stores.exec, Store.exec, Reply.toInteger, hkey]) hr
        | expire => exact absurd (by simp [expireAudience, Stores.exec, Store.exec, Reply.toInteger, hkey]) hr
      | some entry =>
        cases hcmd with
        | bitop | getrange => exact hr.elim
        | existsAudience => simp [Stores.redisCommand, Stores.exec, Store.exec, hkey]
        | expire => simp [expireAudience, Stores.redisCommand, Stores.exec, Store.exec, hkey, Store.set_self]

end Stores

section Updater
variable {tag : Tag} {o : UpdaterOp} {n : Nat} {c d : UpdaterState} {r : Option o.Ret}

theorem exec_updaterCommand {w : Stores} {cmd : RedisCommand} (h : UpdaterCommand tag cmd) :
    (w.exec cmd).2.real = w.real ∧ ((w.exec cmd).2.redis tmpUserInfoKey = w.redis tmpUserInfoKey ∨
      (w.exec cmd).2.redis tmpUserInfoKey = none ∧ cmd = .del tmpUserInfoKey) := by
  cases h with
  | dropAudience => exact ⟨rfl, Or.inr ⟨by simp [Stores.exec, Store.exec, Store.remove_self], rfl⟩⟩
  | diff =>
    refine ⟨by simp [Stores.exec, diff_ne_tmp], Or.inl (Stores.exec_of_not_mem ?_)⟩
    simp [Command.writes, (diff_ne_tmp tag).symm]
  | delTemp | window | existsRelease | countDiff | delDiff | publish =>
    refine ⟨rfl, Or.inl (Stores.exec_of_not_mem ?_)⟩
    simp [Command.writes, (diff_ne_tmp tag).symm, (temp_ne_tmp tag).symm, (release_ne_tmp tag).symm]

/-- An update leaves the audience alone, but for its `DEL`. -/
theorem updaterTry_audience (ho : o.Sends (UpdaterCommand tag)) (h : updaterTry o n c r d) :
    d.stores.real = c.stores.real ∧ (d.stores.redis tmpUserInfoKey = c.stores.redis tmpUserInfoKey ∨
      d.stores.redis tmpUserInfoKey = none ∧ o = .redis (.del tmpUserInfoKey)) := by
  cases o with
  | redis cmd =>
    rcases h with ⟨-, -, rfl⟩ | ⟨a, -, rfl⟩
    · exact ⟨rfl, Or.inl rfl⟩
    · cases a with
      | lost => exact ⟨rfl, Or.inl rfl⟩
      | unheard | heard =>
        obtain ⟨hreal, hkey⟩ := exec_updaterCommand (w := c.stores) ho
        exact ⟨hreal, hkey.imp_right fun ⟨hnone, hdel⟩ => ⟨hnone, congrArg UpdaterOp.redis hdel⟩⟩
  | mysql q =>
    obtain ⟨a, -, rfl⟩ := h
    cases a <;> cases q <;> exact ⟨rfl, Or.inl rfl⟩
  | fetchRows =>
    obtain ⟨m, -, rfl⟩ := h
    exact ⟨rfl, Or.inl rfl⟩
  | freeReply | affectedRows | freeResult | time =>
    obtain ⟨-, rfl⟩ := h
    exact ⟨rfl, Or.inl rfl⟩

end Updater

/-! ### The condition -/

/-- The request has found or created the audience and has not read it. -/
def Handler.reading (h : Handler) : Bool := reads h.thread.prog

/-- The next call of the request computes the audience. -/
def Handler.computes (h : Handler) : Bool :=
  match h.next with
  | some (.redis (.bitop _ _ _ _)) => true
  | _ => false

/-- The next call of the update drops the audience. -/
def Update.drops (u : Update) : Bool :=
  match u.thread.prog with
  | .call (.redis (.del key)) _ => key = tmpUserInfoKey
  | _ => false

def Audience.Reading (s : Audience) : Prop := ∃ p ∈ s.processes, ∃ h ∈ p.handlers, h.reading

instance (s : Audience) : Decidable s.Reading :=
  inferInstanceAs (Decidable (∃ p ∈ s.processes, ∃ h ∈ p.handlers, h.reading))

/-- The audience is computed when the published bitmaps exist or none of them has users, and is not removed while a
    request is reading. -/
def AudienceKept (s : Audience) : AudienceEvent → Prop
  | .redis pid i a => ∀ p ∈ s.processes[pid]?, ∀ h ∈ p.handlers[i]?, h.computes → a ≠ .lost →
      (s.stores.Published ∨ s.stores.NoUsers) ∧ (s.stores.NoUsers → ¬s.Reading)
  | .updater j => ∀ u ∈ s.updates[j]?, u.drops → ¬s.Reading
  | .expire => ¬s.Reading
  | _ => True

instance (s : Audience) : (e : AudienceEvent) → Decidable (AudienceKept s e)
  | .redis pid i a => inferInstanceAs (Decidable (∀ p ∈ s.processes[pid]?, ∀ h ∈ p.handlers[i]?, h.computes →
      a ≠ .lost → (s.stores.Published ∨ s.stores.NoUsers) ∧ (s.stores.NoUsers → ¬s.Reading)))
  | .updater j => inferInstanceAs (Decidable (∀ u ∈ s.updates[j]?, u.drops → ¬s.Reading))
  | .expire => inferInstanceAs (Decidable (¬s.Reading))
  | .start | .update _ | .process _ _ => isTrue trivial

/-! ### A request -/

theorem Handler.prog_of_next {h : Handler} {o : ProduceMsgOp} (hn : h.next = some o) :
    ∃ k, h.thread.prog = .call o k := by
  unfold Handler.next at hn
  split at hn
  next => cases hn
  next o' k hprog =>
    obtain rfl := Option.some.inj hn
    exact ⟨k, hprog⟩

/-- A command returns a reply only if it is heard. -/
theorem heard_of_attempt {w : Stores} {cmd : RedisCommand} {a : Attempt} {n : Nat} {c d : ProduceMsgCallData}
    {reply : Reply} (hm : ProduceMsgOp.attempt (.redis cmd) n c (.redisCommand (w.redisCommand cmd a).1) =
      some (some (some reply), d)) : a = .heard ∧ (w.redisCommand cmd a).1 = some reply := by
  simp only [ProduceMsgOp.attempt, Option.some.injEq, Prod.mk.injEq] at hm
  have hreply := (RedisHandler.command_eq_some_some_iff.mp hm.1).1
  cases a with
  | lost | unheard => cases hreply
  | heard => exact ⟨rfl, hreply⟩

/-- Where the thread of a request is, and what its `GETRANGE` has read. -/
structure Handler.Safe (source : Option Bool) (h : Handler) : Prop where
  commands : h.thread.prog.Everywhere fun o _ => ∀ cmd, o = .redis cmd → AudienceCommand cmd
  approaches : h.thread.prog.Everywhere fun o k => Approaches o k
  source : Guarded h.thread.prog ∧ Fresh h.data ∨ source = some true

section Safe
variable {source : Option Bool} {h h' : Handler} {outcome : Outcome}

theorem Handler.safe_new (request : ProduceMsgRequest) :
    Handler.Safe source ⟨{ request := request }, ⟨produceMsg request, 0⟩⟩ where
  commands := (everywhere_produceMsg request).mono fun _ ho cmd heq => ⟨_, _, ho cmd heq⟩
  approaches := everywhere_produceMsg_approaches request
  source := Or.inl ⟨guarded_produceMsg request, ⟨rfl, rfl, rfl⟩⟩

/-- A step of the thread; what it is answered by `GETRANGE` must be a real audience. -/
theorem Handler.Safe.call {source' : Option Bool} (hs : h.Safe source) (hc : h.call outcome = some h')
    (hsource : source' = source ∨ source' = some true)
    (hread : ∀ o k n r, h.thread.prog = .call o k → o.attempt n h.data outcome = some (some r, h'.data) →
      AnswersRead o r → source' = some true) : h'.Safe source' := by
  obtain ⟨o, k, n, hprog, hcases⟩ := Handler.call_cases hc
  have hcommands := hs.commands
  have happroaches := hs.approaches
  have hguarded : Guarded h.thread.prog ∧ Fresh h.data ∨ source' = some true := by
    rcases hsource with rfl | hsource
    · exact hs.source
    · exact Or.inr hsource
  rw [hprog] at hcommands happroaches hguarded
  rcases hcases with ⟨hm, hp⟩ | ⟨r, hm, hp⟩
  · refine ⟨hp ▸ hcommands, hp ▸ happroaches, hguarded.imp_left fun ⟨hguard, hfresh⟩ => ?_⟩
    exact ⟨hp ▸ hguard, eq_of_quiet hguard.1 ⟨_, hm⟩ ▸ hfresh⟩
  · refine ⟨hp ▸ hcommands.2 r, hp ▸ happroaches.2 r, ?_⟩
    rcases hguarded with ⟨hguard, hfresh⟩ | hsource
    · by_cases hanswer : AnswersRead o r
      · exact Or.inr (hread o k n r hprog hm hanswer)
      · exact Or.inl ⟨hp ▸ hguard.2 r hanswer, eq_of_quiet hguard.1 ⟨_, hm⟩ ▸ hfresh⟩
    · exact Or.inr hsource

theorem Handler.Safe.broker {e : BrokerEvent} {data : ProduceMsgCallData} (hs : h.Safe source)
    (hb : h.data.broker e = some data) : Handler.Safe source { h with data } where
  commands := hs.commands
  approaches := hs.approaches
  source := hs.source.imp_left fun ⟨hguard, hfresh⟩ => ⟨hguard, hfresh.broker (Broker.of_event hb)⟩

theorem Handler.Safe.source_of_eq {source' : Option Bool} (hs : h.Safe source)
    (hsource : source' = source ∨ source' = some true) : h.Safe source' where
  commands := hs.commands
  approaches := hs.approaches
  source := by
    rcases hsource with rfl | hsource
    · exact hs.source
    · exact Or.inr hsource

/-- A call that leads to the reading confirms the audience, or was made while reading. -/
theorem Handler.Safe.reading_call (hs : h.Safe source) (hc : h.call outcome = some h') (hr : h'.reading) :
    h.reading ∨ ∃ cmd k n r, h.thread.prog = .call (.redis cmd) k ∧
      ProduceMsgOp.attempt (.redis cmd) n h.data outcome = some (some r, h'.data) ∧ Confirms (.redis cmd) r := by
  obtain ⟨o, k, n, hprog, hcases⟩ := Handler.call_cases hc
  have happroaches := hs.approaches
  rw [Handler.reading] at hr
  rw [hprog] at happroaches
  rcases hcases with ⟨-, hp⟩ | ⟨r, hm, hp⟩
  · rw [hp, ← hprog] at hr
    exact Or.inl hr
  · rw [hp] at hr
    have hconfirms := happroaches.1 r hr
    cases o with
    | redis cmd => exact Or.inr ⟨cmd, k, n, r, hprog, hm, hconfirms⟩
    | freeReply =>
      left
      rw [Handler.reading, hprog]
      exact hr
    | lock | unlock | copy | setWaitForSendCount | send | finish => exact hconfirms.elim

end Safe

/-! ### Runs -/

/-- The audience is real, it exists while it is read, and every request has read what it should. -/
structure AudienceInv (s : Audience) : Prop where
  real : s.stores.NoneOrReal
  reading : s.Reading → (s.stores.redis tmpUserInfoKey).isSome
  updates : ∀ u ∈ s.updates, ∃ tag, u.thread.prog.Everywhere fun o _ => o.Sends (UpdaterCommand tag)
  safe : ∀ (pid : Nat) (p : Process) (i : Nat) (h : Handler), s.processes[pid]? = some p → p.handlers[i]? = some h →
    h.Safe (s.sources pid i)

namespace AudienceInv
variable {s t : Audience} {e : AudienceEvent}

/-- A step of a process: the audience is kept for those that are reading, and the requests of the process stay
    safe. -/
theorem of_process (hs : AudienceInv s) {pid : Nat} {q : Process} {stores : Stores}
    {sources : Nat → Nat → Option Bool} (hreal : stores.NoneOrReal)
    (hkept : s.Reading → (stores.redis tmpUserInfoKey).isSome)
    (hsources : ∀ pid' i', sources pid' i' = s.sources pid' i' ∨ sources pid' i' = some true)
    (hreading : ∀ (i : Nat) (h' : Handler), q.handlers[i]? = some h' → h'.reading →
      (stores.redis tmpUserInfoKey).isSome)
    (hsafe : ∀ (i : Nat) (h' : Handler), q.handlers[i]? = some h' → h'.Safe (sources pid i)) :
    AudienceInv { s with stores, processes := s.processes.set pid q, sources } where
  real := hreal
  reading := by
    rintro ⟨p', hp', h', hi, hr⟩
    rcases Count.mem_set hp' with rfl | hp'
    · obtain ⟨i, hi⟩ := List.mem_iff_getElem?.mp hi
      exact hreading i h' hi hr
    · exact hkept ⟨p', hp', h', hi, hr⟩
  updates := hs.updates
  safe pid' p' i h' hp' hi := by
    rcases Count.of_getElem?_set hp' with ⟨rfl, rfl⟩ | ⟨-, hp'⟩
    · exact hsafe i h' hi
    · exact (hs.safe pid' p' i h' hp' hi).source_of_eq (hsources pid' i)

theorem process (hs : AudienceInv s) {pid : Nat} {p q : Process} {e : ProcessEvent} (hp : s.processes[pid]? = some p)
    (he : e.isRedis = false) (hq : p.step e = some q) : AudienceInv { s with processes := s.processes.set pid q } := by
  have hnone : ∀ (outcome : Outcome) (cmd : RedisCommand) (n : Nat) (c d : ProduceMsgCallData) (r : Option Reply)
      (i : Nat), e = .call i outcome → ProduceMsgOp.attempt (.redis cmd) n c outcome = some (some r, d) →
      r = none := by
    rintro outcome cmd n c d r i rfl hm
    cases outcome <;> simp [ProduceMsgOp.attempt, ProcessEvent.isRedis] at hm he
    exact hm.2.1.symm
  refine hs.of_process hs.real hs.reading (fun _ _ => Or.inl rfl) (fun i h' hi hr => ?_) fun i h' hi => ?_
  · have hold : ∀ h, p.handlers[i]? = some h → h.reading → (s.stores.redis tmpUserInfoKey).isSome := fun h hi hr =>
      hs.reading ⟨p, List.mem_of_getElem? hp, h, List.mem_of_getElem? hi, hr⟩
    rcases Process.step_handlers hq hi with
      hi | ⟨-, request, rfl⟩ | ⟨h, outcome, rfl, hi, hc⟩ | ⟨h, b, data, -, hj, -, rfl⟩
    · exact hold h' hi hr
    · cases hr
    · rcases (hs.safe pid p i h hp hi).reading_call hc hr with hr | ⟨cmd, k, n, r, -, hm, hconfirms⟩
      · exact hold h hi hr
      · obtain rfl := hnone outcome cmd n _ _ r i rfl hm
        cases cmd <;> exact hconfirms.elim
    · exact hold h hj hr
  · rcases Process.step_handlers hq hi with
      hi | ⟨-, request, rfl⟩ | ⟨h, outcome, rfl, hi, hc⟩ | ⟨h, b, data, -, hj, hb, rfl⟩
    · exact hs.safe pid p i h' hp hi
    · exact Handler.safe_new request
    · refine (hs.safe pid p i h hp hi).call hc (Or.inl rfl) fun o k n r hprog hm hread => ?_
      cases o with
      | redis cmd =>
        obtain rfl := hnone outcome cmd n _ _ r i rfl hm
        cases cmd <;> exact hread.elim
      | lock | unlock | freeReply | copy | setWaitForSendCount | send | finish => exact hread.elim
    · exact (hs.safe pid p i h hp hj).broker hb

/-- A request that is answered its `GETRANGE` has read a real audience. -/
theorem note (hs : AudienceInv s) {pid i : Nat} {a : Attempt} {p : Process} {h : Handler} {cmd : RedisCommand}
    {k : Option Reply → ProduceMsgProg ErrCode} (hp : s.processes[pid]? = some p) (hi : p.handlers[i]? = some h)
    (hprog : h.thread.prog = .call (.redis cmd) k) :
    (∀ pid' i', s.note pid i cmd a pid' i' = s.sources pid' i' ∨ s.note pid i cmd a pid' i' = some true) ∧
      ∀ {reply}, AnswersRead (.redis cmd) (some reply) → a = .heard → s.note pid i cmd a pid i = some true := by
  have hreal : ∀ {key first last}, cmd = .getrange key first last → s.stores.RealAudience := by
    rintro key first last rfl
    have hsome := hs.reading ⟨p, List.mem_of_getElem? hp, h, List.mem_of_getElem? hi, by
      rw [Handler.reading, hprog]
      rfl⟩
    exact ⟨hsome, hs.real hsome⟩
  constructor
  · intro pid' i'
    unfold Audience.note
    split
    next key first last =>
      by_cases hpid : pid' = pid
      · subst hpid
        by_cases hi' : i' = i
        · subst hi'
          right
          simp [hreal rfl]
        · left
          simp [hi']
      · left
        simp [hpid]
    next => exact Or.inl rfl
  · rintro reply hr rfl
    cases cmd with
    | getrange key first last => simp [Audience.note, hreal rfl]
    | del | existsKey | setrange | rename | bitop | bitcount | expire => exact hr.elim

theorem redis (hs : AudienceInv s) {pid i : Nat} {a : Attempt} {p q : Process} {h : Handler} {cmd : RedisCommand}
    (hok : AudienceKept s (.redis pid i a)) (hp : s.processes[pid]? = some p) (hi : p.handlers[i]? = some h)
    (hn : h.next = some (.redis cmd))
    (hq : p.step (.call i (.redisCommand (s.stores.redisCommand cmd a).1)) = some q) :
    AudienceInv { s with
      stores := (s.stores.redisCommand cmd a).2
      processes := s.processes.set pid q
      sources := s.note pid i cmd a } := by
  obtain ⟨k, hprog⟩ := Handler.prog_of_next hn
  have hsafe := hs.safe pid p i h hp hi
  have hcmd : AudienceCommand cmd := by
    have hcommands := hsafe.commands
    rw [hprog] at hcommands
    exact hcommands.1 cmd rfl
  have hbitop : cmd = bitopAudience → a ≠ .lost →
      (s.stores.Published ∨ s.stores.NoUsers) ∧ (s.stores.NoUsers → ¬s.Reading) := by
    rintro rfl ha
    refine hok p hp h hi ?_ ha
    rw [Handler.computes, hn]
    rfl
  have hkept : s.Reading → ((s.stores.redisCommand cmd a).2.redis tmpUserInfoKey).isSome := fun hr =>
    isSome_redisCommand (hs.reading hr) hcmd fun heq ha hno => (hbitop heq ha).2 hno hr
  obtain ⟨hnote, hread⟩ := hs.note (a := a) hp hi hprog
  refine hs.of_process (noneOrReal_redisCommand hs.real hcmd fun heq ha => (hbitop heq ha).1) hkept hnote
    (fun j h' hj hr => ?_) fun j h' hj => ?_
  · have hold : ∀ x, p.handlers[j]? = some x → x.reading → s.Reading := fun x hx hr =>
      ⟨p, List.mem_of_getElem? hp, x, List.mem_of_getElem? hx, hr⟩
    rcases Process.step_handlers hq hj with hj | ⟨-, request, rfl⟩ | ⟨x, outcome, he, hx, hc⟩ | ⟨x, b, data, he, -⟩
    · exact hkept (hold h' hj hr)
    · cases hr
    · obtain ⟨rfl, rfl⟩ := ProcessEvent.call.inj he
      obtain rfl := Option.some.inj (hi.symm.trans hx)
      rcases hsafe.reading_call hc hr with hr | ⟨cmd', k', n, r, hprog', hm, hconfirms⟩
      · exact hkept (hold h hi hr)
      · obtain ⟨heq, -⟩ := Prog.call.inj (hprog.symm.trans hprog')
        obtain rfl := ProduceMsgOp.redis.inj heq
        cases r with
        | none => cases cmd <;> exact hconfirms.elim
        | some reply => exact isSome_of_confirms hcmd hconfirms (heard_of_attempt hm).2
    · cases he
  · rcases Process.step_handlers hq hj with hj | ⟨-, request, rfl⟩ | ⟨x, outcome, he, hx, hc⟩ | ⟨x, b, data, he, -⟩
    · exact (hs.safe pid p j h' hp hj).source_of_eq (hnote pid j)
    · exact Handler.safe_new request
    · obtain ⟨rfl, rfl⟩ := ProcessEvent.call.inj he
      obtain rfl := Option.some.inj (hi.symm.trans hx)
      refine hsafe.call hc (hnote pid i) fun o k' n r hprog' hm hr => ?_
      obtain ⟨rfl, -⟩ := Prog.call.inj (hprog.symm.trans hprog')
      cases r with
      | none => cases cmd <;> exact hr.elim
      | some reply => exact hread hr (heard_of_attempt hm).1
    · cases he

theorem updater (hs : AudienceInv s) {j : Nat} {u : Update} {thread : Thread UpdaterOp UpdaterOp.Ret Unit}
    {c : UpdaterState} (hok : AudienceKept s (.updater j)) (hu : s.updates[j]? = some u)
    (hstep : Thread.Step updaterTry (u.thread, ⟨s.stores, u.result, u.affectedRows⟩) (thread, c)) :
    AudienceInv { s with stores := c.stores, updates := s.updates.set j ⟨thread, c.result, c.affectedRows⟩ } := by
  obtain ⟨tag, hsends⟩ := hs.updates u (List.mem_of_getElem? hu)
  have hnext : ∃ tag, thread.prog.Everywhere fun o _ => o.Sends (UpdaterCommand tag) := by
    refine ⟨tag, ?_⟩
    obtain ⟨th, result, affectedRows⟩ := u
    cases hstep with
    | retry => exact hsends
    | ret => exact hsends.2 _
  have haudience : c.stores.real = s.stores.real ∧
      (c.stores.redis tmpUserInfoKey = s.stores.redis tmpUserInfoKey ∨
        c.stores.redis tmpUserInfoKey = none ∧ ¬s.Reading) := by
    have hdrops : ∀ k, u.thread.prog = .call (.redis (.del tmpUserInfoKey)) k → ¬s.Reading := fun k hk =>
      hok u hu (by rw [Update.drops, hk]; exact decide_eq_true rfl)
    obtain ⟨th, result, affectedRows⟩ := u
    cases hstep with
    | retry hm =>
      obtain ⟨hreal, hkey⟩ := updaterTry_audience hsends.1 hm
      exact ⟨hreal, hkey.imp_right fun ⟨hnone, ho⟩ => ⟨hnone, by subst ho; exact hdrops _ rfl⟩⟩
    | ret hm =>
      obtain ⟨hreal, hkey⟩ := updaterTry_audience hsends.1 hm
      exact ⟨hreal, hkey.imp_right fun ⟨hnone, ho⟩ => ⟨hnone, by subst ho; exact hdrops _ rfl⟩⟩
  obtain ⟨hreal, hkey⟩ := haudience
  refine ⟨fun hsome => ?_, fun hr => ?_, fun v hv => ?_, hs.safe⟩
  · rcases hkey with hkey | ⟨hnone, -⟩
    · exact hreal.trans (hs.real (hkey ▸ hsome))
    · rw [hnone] at hsome
      cases hsome
  · rcases hkey with hkey | ⟨-, hno⟩
    · exact hkey ▸ hs.reading hr
    · exact absurd hr hno
  · rcases Count.mem_set hv with rfl | hv
    · exact hnext
    · exact hs.updates v hv

theorem keep (hs : AudienceInv s) (hok : AudienceKept s e) (ht : Audience.Trans s e t) : AudienceInv t := by
  cases ht with
  | updater hu hstep => exact hs.updater hok hu hstep
  | step ht =>
    cases e with
    | start =>
      obtain rfl := Option.some.inj ht
      refine ⟨hs.real, fun hr => ?_, hs.updates, fun pid p i h hp hi => ?_⟩
      · obtain ⟨p, hp, h, hi, hr⟩ := hr
        rcases List.mem_append.mp hp with hp | hp
        · exact hs.reading ⟨p, hp, h, hi, hr⟩
        · obtain rfl := List.mem_singleton.mp hp
          cases hi
      · rcases Count.of_getElem?_snoc hp with hp | ⟨-, rfl⟩
        · exact hs.safe pid p i h hp hi
        · cases hi
    | update tag =>
      obtain rfl := Option.some.inj ht
      refine ⟨hs.real, hs.reading, fun u hu => ?_, hs.safe⟩
      rcases List.mem_append.mp hu with hu | hu
      · exact hs.updates u hu
      · obtain rfl := List.mem_singleton.mp hu
        exact ⟨tag, everywhere_updateUserInfo tag⟩
    | process pid e =>
      obtain ⟨p, hp, ht⟩ := Option.bind_eq_some_iff.mp ht
      split at ht
      next => cases ht
      next he =>
        obtain ⟨q, hq, ht⟩ := Option.bind_eq_some_iff.mp ht
        obtain rfl := Option.some.inj ht
        exact hs.process hp (Bool.eq_false_iff.mpr he) hq
    | redis pid i a =>
      obtain ⟨p, hp, ht⟩ := Option.bind_eq_some_iff.mp ht
      obtain ⟨h, hi, ht⟩ := Option.bind_eq_some_iff.mp ht
      split at ht
      next cmd hn =>
        obtain ⟨q, hq, ht⟩ := Option.bind_eq_some_iff.mp ht
        obtain rfl := Option.some.inj ht
        exact hs.redis hok hp hi hn hq
      next => cases ht
    | updater j => cases ht
    | expire =>
      obtain ⟨entry, hkey, ht⟩ := Option.bind_eq_some_iff.mp ht
      split at ht
      next => cases ht
      next =>
        obtain rfl := Option.some.inj ht
        refine ⟨fun hsome => ?_, fun hr => absurd hr hok, hs.updates, hs.safe⟩
        have hgone : (s.stores.redis.remove tmpUserInfoKey tmpUserInfoKey).isSome := hsome
        rw [Store.remove_self] at hgone
        cases hgone

end AudienceInv

/-- Every request that is answered `SUCCESS` has read a real audience. -/
def Audience.Decoded (s : Audience) : Prop :=
  ∀ (pid : Nat) (p : Process) (i : Nat) (h : Handler), s.processes[pid]? = some p → p.handlers[i]? = some h →
    ⟨.success⟩ ∈ h.data.finished → s.sources pid i = some true

/-- In every run that keeps the audience while it is read, pushes are decoded from a real audience only. -/
theorem audience_real {s : Audience} (h : AudienceReaches AudienceKept s) : s.Decoded := by
  obtain ⟨w, hw, hrun⟩ := h
  have hinit : AudienceInv { stores := w } := by
    refine ⟨fun hsome => (hw hsome).2, fun ⟨p, hp, _⟩ => ?_, fun u hu => ?_, fun pid p i h hp => ?_⟩
    · cases hp
    · cases hu
    · cases hp
  have hinv := Runs.Reaches.invariant hrun hinit fun s e t hs ⟨hok, ht⟩ => hs.keep hok ht
  intro pid p i h hp hi hfin
  rcases (hinv.safe pid p i h hp hi).source with ⟨-, hfresh⟩ | hsource
  · rw [hfresh.finished] at hfin
    cases hfin
  · exact hsource

/-- A run of producers that is given by its events. -/
theorem AudienceReaches.of_events (ok : Audience → AudienceEvent → Prop) [∀ s e, Decidable (ok s e)]
    (P : Audience → Prop) [DecidablePred P] {w : Stores} (hw : w.redis tmpUserInfoKey = none) (es : List AudienceEvent)
    (h : (Runs.exec Audience.step ok es { stores := w }).any (fun s => decide (P s)) = true) :
    ∃ s, AudienceReaches ok s ∧ P s := by
  obtain ⟨s, hrun, hs⟩ := Runs.exists_of_exec es h
  refine ⟨s, ⟨w, fun hsome => ?_, hrun.mono fun s e t ⟨hok, ht⟩ => ⟨hok, .step ht⟩⟩, hs⟩
  rw [hw] at hsome
  cases hsome

/-- Redis with the bitmaps of some tables, each with the user 0. -/
def publishedStores (tags : List Tag) : Stores where
  redis key := if key ∈ tags.map fun tag => genReleaseKey (userInfoKey tag) then some ⟨[0x80], none⟩ else none

/-- A process computes the audience for a request, reads it, and sends its message or answers. -/
def firstPush : List AudienceEvent :=
  [.start, .process 0 (.receive ⟨1, 0, 7⟩), .process 0 (.call 0 .done), .redis 0 0 .heard, .process 0 (.call 0 .done),
    .redis 0 0 .heard, .process 0 (.call 0 .done), .redis 0 0 .heard, .process 0 (.call 0 .done), .redis 0 0 .heard,
    .process 0 (.call 0 (.copied fun _ => 0)), .process 0 (.call 0 .done), .process 0 (.call 0 .done),
    .process 0 (.call 0 .done), .process 0 (.call 0 .done)]

theorem audience_real_firstPush : ∃ s, AudienceReaches AudienceKept s ∧
    (s.processes.map fun p => p.handlers.map fun h => h.data.finished) = [[[⟨.success⟩]]] ∧ s.Decoded := by
  obtain ⟨s, hs, hfin⟩ := AudienceReaches.of_events AudienceKept
    (fun s => (s.processes.map fun p => p.handlers.map fun h => h.data.finished) = [[[⟨.success⟩]]])
    (w := publishedStores [0, 1, 2]) (by decide +kernel) (firstPush ++ [.process 0 (.broker 0 (.onSuccess 0))])
    (by decide +kernel)
  exact ⟨s, hs, hfin, audience_real hs⟩

/-- The bitmap of the push switches is missing. `BITOP` takes it for zeros, and the request is answered although
    it was sent to nobody. -/
theorem audience_unreal : ∃ s, AudienceReaches (fun _ _ => True) s ∧ ¬s.Decoded := by
  obtain ⟨s, hs, hfin, hsource⟩ := AudienceReaches.of_events (fun _ _ => True)
    (fun s => (s.processes.map fun p => p.handlers.map fun h => h.data.finished) = [[[⟨.success⟩]]] ∧
      s.sources 0 0 = some false)
    (w := publishedStores [0, 1]) (by decide +kernel) firstPush (by decide +kernel)
  refine ⟨s, hs, fun hdecoded => ?_⟩
  obtain ⟨p, hp, hfin⟩ := List.map_eq_singleton_iff.mp hfin
  obtain ⟨h, hi, hfin⟩ := List.map_eq_singleton_iff.mp hfin
  have htrue := hdecoded 0 p 0 h (by rw [hp]; rfl) (by rw [hi]; rfl) (by rw [hfin]; exact List.mem_singleton_self _)
  rw [hsource] at htrue
  cases htrue

end PushSystem
