import PushSystem.Theorems.UserInfoUpdate.Windows
import PushSystem.Theorems.Producer.Replies

/-! A command that is tried again. The commands of the updater and of the producers can be executed twice, all but
    the `RENAME`: if its answer is lost, the next try finds no key and fails, although the bitmap is published. -/

namespace PushSystem
open Redis Prog

/-! ### The tries -/

section Command
variable {w : Stores} {cmd : RedisCommand} {n : Nat} {attempts : List Attempt}

/-- A try without an answer is not the last one if an answer is still to come. -/
theorem RedisHandler.command_none (hlen : n + 1 + attempts.length = tryCount) (h : .heard ∈ attempts) :
    RedisHandler.command n none = none := by
  have hpos := List.length_pos_of_mem h
  exact RedisHandler.command_eq_none_iff.mpr ⟨Or.inl rfl, by omega⟩

/-- What is returned without an answer is a null pointer. -/
theorem RedisHandler.eq_none_of_command {x : Option Reply} {result : Option Reply}
    (h : RedisHandler.command n x = some result) (hx : x = none ∨ x = some .error) : result = none := by
  cases result with
  | none => rfl
  | some reply =>
    obtain ⟨rfl, hne⟩ := RedisHandler.command_eq_some_some_iff.mp h
    rcases hx with hx | hx
    · cases hx
    · exact absurd (Option.some.inj hx) hne

end Command

/-! ### Repeatable commands -/

section Repeatable
variable {w : Stores} {cmd : RedisCommand} {n : Nat} {attempts : List Attempt}

/-- However its tries fare, a repeatable command is answered with the effect of one execution. -/
theorem Stores.command_of_repeatable (h : cmd.Repeatable) {redis : Redis.Store String}
    (hw : w.redis = redis ∨ w.redis = (redis.exec cmd).2) (hlen : n + attempts.length = tryCount)
    (hheard : .heard ∈ attempts) :
    (w.command cmd n attempts).1.isSome ∧ (w.command cmd n attempts).2.redis = (redis.exec cmd).2 := by
  have hexec : ∀ w : Stores, w.redis = redis ∨ w.redis = (redis.exec cmd).2 →
      (w.exec cmd).2.redis = (redis.exec cmd).2 := by
    rintro w (hw | hw)
    · exact congrArg (fun s : Redis.Store String => (s.exec cmd).2) hw
    · exact (congrArg (fun s : Redis.Store String => (s.exec cmd).2) hw).trans (Store.exec_exec h redis)
  induction attempts generalizing n w with
  | nil => cases hheard
  | cons a attempts ih =>
    have hlen' : n + 1 + attempts.length = tryCount := (Nat.add_right_comm n 1 _).trans hlen
    cases a with
    | heard =>
      have hret : RedisHandler.command n (some (w.exec cmd).1) = some (some (w.exec cmd).1) :=
        RedisHandler.command_eq_some_some_iff.mpr ⟨rfl, Store.exec_ne_error h _⟩
      simp only [Stores.command, Stores.redisCommand, hret]
      exact ⟨rfl, hexec w hw⟩
    | lost =>
      have hmem : .heard ∈ attempts := by simpa using hheard
      simp only [Stores.command, Stores.redisCommand, RedisHandler.command_none hlen' hmem]
      exact ih hw hlen' hmem
    | unheard =>
      have hmem : .heard ∈ attempts := by simpa using hheard
      simp only [Stores.command, Stores.redisCommand, RedisHandler.command_none hlen' hmem]
      exact ih (Or.inr (hexec w hw)) hlen' hmem

end Repeatable

/-! ### `RENAME` -/

section Rename
variable {w : Stores} {key newKey : String} {n : Nat} {attempts : List Attempt}

/-- A key that does not exist cannot be renamed. -/
theorem Stores.command_rename_of_none (newKey : String) (h : w.redis key = none)
    (hlen : n + attempts.length = tryCount) :
    (w.command (.rename key newKey) n attempts).1 = none ∧
      (w.command (.rename key newKey) n attempts).2.redis = w.redis := by
  induction attempts generalizing n w with
  | nil => exact ⟨rfl, rfl⟩
  | cons a attempts ih =>
    have hlen' : n + 1 + attempts.length = tryCount := (Nat.add_right_comm n 1 _).trans hlen
    have hredis : (w.redisCommand (.rename key newKey) a).2.redis = w.redis := by
      cases a <;> simp [Stores.redisCommand, Stores.exec, Store.exec, h]
    have hreply : (w.redisCommand (.rename key newKey) a).1 = none ∨
        (w.redisCommand (.rename key newKey) a).1 = some .error := by
      cases a <;> simp [Stores.redisCommand, Stores.exec, Store.exec, h]
    simp only [Stores.command]
    split
    next result hr => exact ⟨RedisHandler.eq_none_of_command hr hreply, hredis⟩
    next =>
      obtain ⟨hnone, hsame⟩ := ih (w := (w.redisCommand (.rename key newKey) a).2) (hredis ▸ h) hlen'
      exact ⟨hnone, hsame.trans hredis⟩

/-- The first try that is executed decides. -/
theorem Stores.command_rename (hne : key ≠ newKey) (hw : (w.redis key).isSome) (hlen : n + attempts.length = tryCount)
    (hheard : .heard ∈ attempts) :
    ((w.command (.rename key newKey) n attempts).1.isSome ↔ attempts.find? (· ≠ .lost) = some .heard) ∧
      (w.command (.rename key newKey) n attempts).2.redis = (w.redis.exec (.rename key newKey)).2 := by
  obtain ⟨entry, hkey⟩ := Option.isSome_iff_exists.mp hw
  induction attempts generalizing n with
  | nil => cases hheard
  | cons a attempts ih =>
    have hlen' : n + 1 + attempts.length = tryCount := (Nat.add_right_comm n 1 _).trans hlen
    cases a with
    | heard =>
      have hstatus : (w.exec (.rename key newKey)).1 = .status := by simp [Stores.exec, Store.exec, hkey]
      have hret : RedisHandler.command n (some (w.exec (.rename key newKey)).1) = some (some .status) :=
        RedisHandler.command_eq_some_some_iff.mpr ⟨congrArg some hstatus, by simp⟩
      simp only [Stores.command, Stores.redisCommand, hret]
      exact ⟨by simp, rfl⟩
    | lost =>
      have hmem : .heard ∈ attempts := by simpa using hheard
      simp only [Stores.command, Stores.redisCommand, RedisHandler.command_none hlen' hmem]
      simpa using ih hlen' hmem
    | unheard =>
      have hmem : .heard ∈ attempts := by simpa using hheard
      have hgone : (w.exec (.rename key newKey)).2.redis key = none := by
        simp [Stores.exec, Store.exec, hkey, Store.remove, hne]
      obtain ⟨hnone, hsame⟩ := Stores.command_rename_of_none newKey hgone hlen'
      simp only [Stores.command, Stores.redisCommand, RedisHandler.command_none hlen' hmem]
      exact ⟨by simp [hnone], hsame⟩

end Rename

/-! ### The commands that are sent -/

/-- The commands of the updater and of the producers. -/
inductive Sent : RedisCommand → Prop where
  | updateUserInfo {tag cmd} (h : (updateUserInfo tag).Makes (.redis cmd)) : Sent cmd
  | produceMsg {request cmd} (h : (produceMsg request).Makes (.redis cmd)) : Sent cmd

/-- All commands can be repeated, except the `RENAME`. -/
theorem Sent.repeatable {cmd : RedisCommand} (h : Sent cmd) :
    cmd.Repeatable ∨ ∃ tag, cmd = .rename (genTempKey (userInfoKey tag)) (genReleaseKey (userInfoKey tag)) := by
  cases h with
  | @updateUserInfo tag _ h =>
    have hcmd : UpdaterCommand tag cmd := (everywhere_updateUserInfo tag).of_makes h
    cases hcmd with
    | publish => exact Or.inr ⟨tag, rfl⟩
    | diff => exact Or.inl (by simp [Command.Repeatable, diff_ne_release, (temp_ne_diff _ _).symm])
    | delTemp | window | existsRelease | countDiff | delDiff | dropAudience => exact Or.inl trivial
  | @produceMsg request _ h =>
    have hcmd : ProduceMsgCommand request.startUid request.endUid cmd := (everywhere_produceMsg request).of_makes h cmd rfl
    cases hcmd with
    | bitop => exact Or.inl (by simp [bitopAudience, Command.Repeatable, (release_ne_tmp _).symm])
    | existsAudience | expire | getrange => exact Or.inl trivial

/-! ### Transparency -/

/-- Trying the command has the outcome of executing it once. -/
structure Stores.Transparent (w : Stores) (cmd : RedisCommand) (attempts : List Attempt) : Prop where
  result : (w.command cmd 0 attempts).1.isSome ↔ (w.exec cmd).1 ≠ .error
  redis : (w.command cmd 0 attempts).2.redis = (w.exec cmd).2.redis

/-- The answer to the first execution of a `RENAME` that takes effect comes back. -/
def Stores.RenameHeard (w : Stores) (attempts : List Attempt) : RedisCommand → Prop
  | .rename key _ => (w.redis key).isSome → attempts.find? (· ≠ .lost) = some .heard
  | _ => True

/-- Retrying is transparent but for a `RENAME` that takes effect unheard. -/
theorem retries_transparent_iff {w : Stores} {cmd : RedisCommand} {attempts : List Attempt} (h : Sent cmd)
    (hlen : attempts.length = tryCount) (hheard : .heard ∈ attempts) :
    w.Transparent cmd attempts ↔ w.RenameHeard attempts cmd := by
  have hlen : 0 + attempts.length = tryCount := (Nat.zero_add _).trans hlen
  rcases h.repeatable with hrep | ⟨tag, rfl⟩
  · obtain ⟨hsome, hredis⟩ := Stores.command_of_repeatable hrep (Or.inl rfl) hlen hheard
    refine iff_of_true ⟨iff_of_true hsome (Store.exec_ne_error hrep _), hredis⟩ ?_
    cases cmd with
    | rename => exact hrep.elim
    | del | existsKey | setrange | bitop | bitcount | expire | getrange => trivial
  · cases hkey : w.redis (genTempKey (userInfoKey tag)) with
    | none =>
      obtain ⟨hnone, hredis⟩ := Stores.command_rename_of_none (genReleaseKey (userInfoKey tag)) hkey hlen
      refine iff_of_true ⟨?_, hredis.trans ?_⟩ fun hsome => ?_
      · simp [hnone, Stores.exec, Store.exec, hkey]
      · simp [Stores.exec, Store.exec, hkey]
      · rw [hkey] at hsome
        cases hsome
    | some entry =>
      have hsome : (w.redis (genTempKey (userInfoKey tag))).isSome := hkey ▸ rfl
      obtain ⟨hresult, hredis⟩ := Stores.command_rename (temp_ne_release tag tag) hsome hlen hheard
      have hreply : (w.exec (.rename (genTempKey (userInfoKey tag)) (genReleaseKey (userInfoKey tag)))).1 ≠ .error := by
        simp [Stores.exec, Store.exec, hkey]
      constructor
      · exact fun ht _ => hresult.mp (ht.result.mpr hreply)
      · exact fun hr => ⟨iff_of_true (hresult.mpr (hr hsome)) hreply, hredis⟩

theorem ends_updateWindows (tag : Tag) (uid : UInt64) : (updateWindows tag uid).Ends true := by
  obtain ⟨n, hn⟩ : ∃ n, endUid.toNat + 10240 - uid.toNat ≤ n := ⟨_, le_rfl⟩
  induction n generalizing uid with
  | zero =>
    have hend : ¬uid ≤ endUid := by
      rw [UInt64.le_iff_toNat_le]
      omega
    rw [updateWindows, dif_neg hend]
    exact .pure
  | succ n ih =>
    rw [updateWindows]
    split
    next hle =>
      have hle' : uid.toNat ≤ 100000000 := UInt64.le_iff_toNat_le.mp hle
      refine .call true (.call [] (.call (some .status) (.call () (.call () (ih (uid + countsPerLoop) ?_)))))
      simp only [endUid, countsPerLoop, UInt64.toNat_add, UInt64.reduceToNat] at hn ⊢
      omega
    next => exact .pure

theorem sent_rename (tag : Tag) : Sent (.rename (genTempKey (userInfoKey tag)) (genReleaseKey (userInfoKey tag))) := by
  have hpublish : (checkAndPublish tag).Makes
      (.redis (.rename (genTempKey (userInfoKey tag)) (genReleaseKey (userInfoKey tag)))) :=
    .later (some (.integer 0)) (.later () .here)
  exact .updateUserInfo (.later (some .status) (.later ()
    (Makes.bind (p := updateWindows tag 0) (ends_updateWindows tag 0) hpublish)))

/-- Redis with a bitmap that is ready to be published. -/
def readyToPublish : Stores where
  redis key := if key = genTempKey (userInfoKey 0) then some ⟨[4], none⟩ else none

theorem retries_transparent_lost :
    readyToPublish.Transparent (.rename (genTempKey (userInfoKey 0)) (genReleaseKey (userInfoKey 0)))
      [.lost, .heard, .unheard] :=
  (retries_transparent_iff (sent_rename 0) rfl (by decide)).mpr fun _ => rfl

/-- The `RENAME` takes effect, its answer is lost, and the command fails. -/
theorem rename_reported_failed :
    ∃ cmd, Sent cmd ∧ (readyToPublish.command cmd 0 [.unheard, .heard, .heard]).1 = none ∧
      (readyToPublish.command cmd 0 [.unheard, .heard, .heard]).2.redis (genReleaseKey (userInfoKey 0)) =
        some ⟨[4], none⟩ ∧
      ¬readyToPublish.Transparent cmd [.unheard, .heard, .heard] := by
  refine ⟨_, sent_rename 0, by decide +kernel, by decide +kernel, fun ht => ?_⟩
  have hsome := ht.result.mpr (by decide +kernel)
  exact absurd hsome (by decide +kernel)

end PushSystem
