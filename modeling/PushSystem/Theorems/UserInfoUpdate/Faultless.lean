import PushSystem.Theorems.UserInfoUpdate.Release

/-! Updates in which no command fails. Such an update publishes its bitmap and drops the audience, unless it
    rejects the difference to the old one. -/

namespace PushSystem
open Redis Bitmap Prog

/-- Every command is answered at its first try; `mysql_fetch_row` returns a null pointer after `fetched` rows. -/
def answer (fetched : List UInt64 → Nat) (now : UInt64) : (o : UpdaterOp) → UpdaterState → o.Ret × UpdaterState
  | .redis cmd, s =>
    match (s.stores.exec cmd).1 with
    | .error => (none, s)
    | reply => (some reply, s.exec cmd)
  | .freeReply, s => ((), s)
  | .mysql q, s => (true, s.query q)
  | .fetchRows, s => (s.result.take (fetched s.result), { s with result := s.result.drop (fetched s.result) })
  | .affectedRows, s => (s.mysqlAffectedRows, s)
  | .freeResult, s => ((), { s with result := [] })
  | .time, s => (now, s)

section Answer
variable (fetched : List UInt64 → Nat) (now : UInt64) {s : UpdaterState}

theorem answer_redis {cmd : RedisCommand} (h : (s.stores.exec cmd).1 ≠ .error) :
    answer fetched now (.redis cmd) s = (some (s.stores.exec cmd).1, s.exec cmd) := by
  simp only [answer]

/-- A command whose answer is no error returns it at the first try. -/
theorem updaterTry_heard {cmd : RedisCommand} (h : (s.stores.exec cmd).1 ≠ .error) :
    updaterTry (.redis cmd) 0 s (some (some (s.stores.exec cmd).1)) (s.exec cmd) :=
  Or.inr ⟨.heard, (RedisHandler.command_eq_some_some_iff.mpr ⟨rfl, h⟩).symm, rfl⟩

theorem updaterTry_answer (o : UpdaterOp) (s : UpdaterState) :
    updaterTry o 0 s (some (answer fetched now o s).1) (answer fetched now o s).2 := by
  cases o with
  | redis cmd =>
    by_cases he : (s.stores.exec cmd).1 = .error
    · refine Or.inl ⟨rfl, ?_⟩
      simp [answer, he]
    · rw [answer_redis _ _ he]
      exact updaterTry_heard he
  | mysql q => exact ⟨.heard, rfl, rfl⟩
  | fetchRows => exact ⟨_, rfl, rfl⟩
  | time => exact ⟨⟨now, rfl⟩, rfl⟩
  | freeReply | affectedRows | freeResult => exact ⟨rfl, rfl⟩

theorem ofHandler_answer (o : UpdaterOp) (n : Nat) (s : UpdaterState) (r : Option o.Ret) (t : UpdaterState)
    (h : ofHandler (answer fetched now) o n s r t) : updaterTry o n s r t := by
  obtain ⟨rfl, rfl, rfl⟩ := h
  exact updaterTry_answer fetched now o s

theorem faultless_answer : Faultless (ofHandler (answer fetched now)) where
  redis cmd n s t hm := by
    obtain ⟨-, hr, -⟩ := hm
    by_contra he
    rw [answer_redis _ _ he] at hr
    simp at hr
  select tag uid n s t hm := by
    obtain ⟨-, hr, -⟩ := hm
    simp [answer] at hr

/-- After the `RENAME` only the audience is removed from Redis. -/
theorem eval_recordAndDrop (tag : Tag) (s : UpdaterState) :
    ((recordAndDrop tag).eval (answer fetched now) s).2.stores.redis = s.stores.redis.remove tmpUserInfoKey ∧
      ((recordAndDrop tag).eval (answer fetched now) s).2.stores.tables = s.stores.tables := by
  have hrecord : ((recordUpdate tag).eval (answer fetched now) s).1 = true ∧
      ((recordUpdate tag).eval (answer fetched now) s).2.stores.redis = s.stores.redis ∧
      ((recordUpdate tag).eval (answer fetched now) s).2.stores.tables = s.stores.tables := by
    have heval : (recordUpdate tag).eval (answer fetched now) s =
        (if (s.query (.update tag now)).mysqlAffectedRows ≤ 0 then
          UpdaterProg.mysql (.insert tag now) >>= fun ok =>
            if !ok then return false else UpdaterProg.freeResult >>= fun _ => return true
        else return true : UpdaterProg Bool).eval (answer fetched now)
          { s.query (.update tag now) with result := [] } := rfl
    rw [heval]
    split
    · exact ⟨rfl, rfl, rfl⟩
    · exact ⟨rfl, rfl, rfl⟩
  obtain ⟨hok, hredis, htables⟩ := hrecord
  have hdel : ∀ w : Stores, (w.exec (.del tmpUserInfoKey)).1 ≠ .error := fun w => by simp [Stores.exec, Store.exec]
  rw [recordAndDrop, eval_bind, hok]
  simp only [Bool.not_true, Bool.false_eq_true, if_false, perform_bind, eval_call, answer_redis _ _ (hdel _)]
  exact ⟨congrArg (·.remove tmpUserInfoKey) hredis, htables⟩

/-- The bitmap of the tag is published and the audience dropped, and nothing else is changed. -/
structure Updated (tag : Tag) (redis : Redis.Store String) (tables : String → List UserRow) (F : UInt64 → Prop)
    (s : UpdaterState) : Prop where
  unchanged : s.stores.tables = tables
  release : ∃ e, s.release tag = some e ∧ Encodes tables tag F 9766 e.bytes
  dropped : s.stores.redis tmpUserInfoKey = none
  frame : ∀ key, key ≠ genTempKey (userInfoKey tag) → key ≠ genDiffKey (userInfoKey tag) →
    key ≠ genReleaseKey (userInfoKey tag) → key ≠ tmpUserInfoKey → s.stores.redis key = redis key

variable {tag : Tag} {redis : Redis.Store String} {tables : String → List UserRow} {F : UInt64 → Prop}

theorem eval_publish (h : Built tag redis tables F 9766 s) :
    Updated tag redis tables F ((publish tag).eval (answer fetched now) s).2 := by
  obtain ⟨e, he, henc⟩ := h.exists_temp
  let s' := s.exec (.rename (genTempKey (userInfoKey tag)) (genReleaseKey (userInfoKey tag)))
  have hne : (s.stores.exec (.rename (genTempKey (userInfoKey tag)) (genReleaseKey (userInfoKey tag)))).1 ≠ .error := by
    simp [Stores.exec, Store.exec, he]
  have heval : (publish tag).eval (answer fetched now) s = (recordAndDrop tag).eval (answer fetched now) s' := by
    rw [publish, perform_bind, eval_call, answer_redis _ _ hne]
    rfl
  obtain ⟨hredis, htables⟩ := eval_recordAndDrop fetched now tag s'
  have hrelease : s'.release tag = some e := by
    simp [s', UpdaterState.release, UpdaterState.exec, Stores.exec, Store.exec, he]
  rw [heval]
  refine ⟨htables.trans h.unchanged, ⟨e, ?_, henc⟩, ?_, fun key ht hd hr htmp => ?_⟩
  · rw [UpdaterState.release, hredis, ← hrelease]
    exact Function.update_of_ne (release_ne_tmp tag) _ _
  · rw [hredis]
    exact Store.remove_self
  · rw [hredis]
    refine (Function.update_of_ne htmp _ _).trans (Eq.trans (Stores.exec_of_not_mem ?_) (h.frame key ht hd htmp))
    simp [Command.writes, ht, hr]

/-- The difference to the published bitmap is accepted, if there is one. -/
def AcceptsDiff (s : UpdaterState) (tag : Tag) (F : UInt64 → Prop) : Prop :=
  s.release tag = none ∨ ∀ bytes, Encodes s.stores.tables tag F 9766 bytes →
    acceptsDiff (UInt32.ofNat (bitCount
      (combine (· ^^^ ·) (s.stores.redis.value (genReleaseKey (userInfoKey tag))) bytes)))

theorem eval_checkDiff (h : Built tag redis tables F 9766 s) :
    ((checkDiff tag).eval (answer fetched now) s).1 = some (acceptsDiff (UInt32.ofNat (bitCount
        (combine (· ^^^ ·) (s.stores.redis.value (genReleaseKey (userInfoKey tag)))
          (s.stores.redis.value (genTempKey (userInfoKey tag))))))) ∧
      Built tag redis tables F 9766 ((checkDiff tag).eval (answer fetched now) s).2 := by
  refine ⟨?_, (eval_post (wp_checkDiff (E := Producers) (ofHandler_answer fetched now) (fun _ _ he => he) h)).1⟩
  have heval : ((checkDiff tag).eval (answer fetched now) s).1 = some (acceptsDiff (UInt32.ofNat (bitCount
      ((s.exec (.bitop .xor (genDiffKey (userInfoKey tag)) (genReleaseKey (userInfoKey tag))
        [genTempKey (userInfoKey tag)])).stores.redis.value (genDiffKey (userInfoKey tag)))))) := rfl
  rw [heval]
  congr 4
  exact Store.value_bitop _ _ _ _ _

theorem eval_checkAndPublish (h : Built tag redis tables F 9766 s)
    (hacc : s.release tag = none ∨ acceptsDiff (UInt32.ofNat (bitCount
        (combine (· ^^^ ·) (s.stores.redis.value (genReleaseKey (userInfoKey tag)))
          (s.stores.redis.value (genTempKey (userInfoKey tag))))))) :
    Updated tag redis tables F ((checkAndPublish tag).eval (answer fetched now) s).2 := by
  have hne : (s.stores.exec (.existsKey (genReleaseKey (userInfoKey tag)))).1 ≠ .error := by
    simp [Stores.exec, Store.exec]
  have hreply : (s.stores.exec (.existsKey (genReleaseKey (userInfoKey tag)))).1 =
      .integer (if (s.release tag).isSome then 1 else 0) := rfl
  rw [checkAndPublish, perform_bind, eval_call, answer_redis _ _ hne, hreply]
  rcases hacc with hnone | hacc
  · rw [hnone]
    exact eval_publish fetched now h
  · cases hrel : s.release tag with
    | none => exact eval_publish fetched now h
    | some e =>
      obtain ⟨hok, hb⟩ := eval_checkDiff fetched now h
      rw [hacc] at hok
      have heval : ∀ f : Option Bool → UpdaterProg Unit, (checkDiff tag >>= f).eval (answer fetched now) s =
          (f (some true)).eval (answer fetched now) ((checkDiff tag).eval (answer fetched now) s).2 := by
        intro f
        rw [eval_bind, hok]
      exact (heval _).symm ▸ eval_publish fetched now hb

/-- The windows are written to the end. -/
theorem eval_updateWindows (hF : ∀ (rows : List UInt64) (x : UInt64), x ∈ rows.take (fetched rows) ↔ x ∈ rows ∧ F x)
    (h : Built tag redis tables F 0 s) :
    ((updateWindows tag 0).eval (answer fetched now) s).1 = true ∧
      Built tag redis tables F 9766 ((updateWindows tag 0).eval (answer fetched now) s).2 := by
  have hfetch : ∀ n s r t, ofHandler (answer fetched now) .fetchRows n s (some r) t → ∀ x, x ∈ r ↔ x ∈ s.result ∧ F x := by
    rintro n s r t ⟨-, hr, -⟩ x
    rw [Option.some.inj hr]
    exact hF s.result x
  obtain ⟨-, hok, hfail⟩ := eval_post (wp_updateWindows (E := Producers) (ofHandler_answer fetched now) hfetch
    (fun _ _ he => he) 0 (Nat.zero_le _) rfl h)
  cases hwindows : ((updateWindows tag 0).eval (answer fetched now) s).1 with
  | false => exact absurd (faultless_answer fetched now) (hfail hwindows)
  | true => exact ⟨rfl, hok hwindows⟩

theorem eval_updateUserInfo (hF : ∀ (rows : List UInt64) (x : UInt64), x ∈ rows.take (fetched rows) ↔ x ∈ rows ∧ F x)
    (hacc : AcceptsDiff s tag F) :
    Updated tag s.stores.redis s.stores.tables F ((updateUserInfo tag).eval (answer fetched now) s).2 := by
  have hstart : Building tag s.stores.redis s.stores.tables s := ⟨rfl, fun _ _ _ _ => rfl⟩
  have hdel : (s.stores.exec (.del (genTempKey (userInfoKey tag)))).1 ≠ .error := by simp [Stores.exec, Store.exec]
  have heval : (updateUserInfo tag).eval (answer fetched now) s =
      (updateWindows tag 0 >>= fun ok => if !ok then return else checkAndPublish tag : UpdaterProg Unit).eval
        (answer fetched now) (s.exec (.del (genTempKey (userInfoKey tag)))) := by
    rw [updateUserInfo, perform_bind, eval_call, answer_redis _ _ hdel]
    rfl
  obtain ⟨hok, hb⟩ := eval_updateWindows fetched now hF (hstart.del F)
  rw [heval, eval_bind, hok]
  have hrelease := hb.toBuilding.frame (genReleaseKey (userInfoKey tag)) (temp_ne_release tag tag).symm
    (diff_ne_release tag tag).symm (release_ne_tmp tag)
  refine eval_checkAndPublish fetched now hb (hacc.imp (fun h => hrelease.trans h) fun h => ?_)
  rw [Store.value_of_eq hrelease]
  exact h _ hb.temp

end Answer

end PushSystem
