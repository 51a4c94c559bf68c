import PushSystem.UserInfoUpdate

/-! The calls of the updater beside the producers, which rebuild `TMP_USER_INFO_KEY` and let it expire:
    one rule for each kind of call. -/

namespace PushSystem
open Redis Prog

/-- What the producers do to the stores meanwhile. -/
inductive Stores.Produces (w : Stores) : Stores → Prop where
  | bitop : Produces w
    (w.exec (.bitop .and tmpUserInfoKey (genReleaseKey (userInfoKey 0))
      [genReleaseKey (userInfoKey 1), genReleaseKey (userInfoKey 2)])).2
  | expire : Produces w (w.exec (.expire tmpUserInfoKey (30 * secondsPerMinute))).2
  /-- The key has lived as long as it was given. -/
  | expired {entry} (h : w.redis tmpUserInfoKey = some entry) (he : entry.expiry ≠ none) :
    Produces w { w with redis := w.redis.remove tmpUserInfoKey }

/-- A step of the producers seen by the updater. -/
def Producers (s t : UpdaterState) : Prop := ∃ w, s.stores.Produces w ∧ t = { s with stores := w }

theorem Stores.exec_of_not_mem {w : Stores} {cmd : RedisCommand} {key : String} (h : key ∉ cmd.writes) :
    (w.exec cmd).2.redis key = w.redis key := Store.exec_of_not_mem h

/-- The producers leave the other keys alone. -/
theorem Stores.Produces.redis {w w' : Stores} (h : w.Produces w') {key : String} (hk : key ≠ tmpUserInfoKey) :
    w'.redis key = w.redis key := by
  cases h with
  | bitop => exact Stores.exec_of_not_mem fun hmem => hk (List.mem_singleton.mp hmem)
  | expire => exact Stores.exec_of_not_mem fun hmem => hk (List.mem_singleton.mp hmem)
  | expired => exact Function.update_of_ne hk _ _

theorem Stores.Produces.tables {w w' : Stores} (h : w.Produces w') : w'.tables = w.tables := by
  cases h <;> rfl

theorem Producers.redis {s t : UpdaterState} (h : Producers s t) {key : String} (hk : key ≠ tmpUserInfoKey) :
    t.stores.redis key = s.stores.redis key := by
  obtain ⟨w, hw, rfl⟩ := h
  exact hw.redis hk

theorem Producers.tables {s t : UpdaterState} (h : Producers s t) : t.stores.tables = s.stores.tables := by
  obtain ⟨w, hw, rfl⟩ := h
  exact hw.tables

theorem Producers.result {s t : UpdaterState} (h : Producers s t) : t.result = s.result := by
  obtain ⟨w, hw, rfl⟩ := h
  rfl

/-! ### The commands of the updater -/

/-- The Redis commands that `updateUserInfo tag` can send. -/
inductive UpdaterCommand (tag : Tag) : RedisCommand → Prop where
  | delTemp : UpdaterCommand tag (.del (genTempKey (userInfoKey tag)))
  | window (offset : Nat) (value : List Bitmap.Byte) :
    UpdaterCommand tag (.setrange (genTempKey (userInfoKey tag)) offset value)
  | existsRelease : UpdaterCommand tag (.existsKey (genReleaseKey (userInfoKey tag)))
  | diff : UpdaterCommand tag
    (.bitop .xor (genDiffKey (userInfoKey tag)) (genReleaseKey (userInfoKey tag)) [genTempKey (userInfoKey tag)])
  | countDiff : UpdaterCommand tag (.bitcount (genDiffKey (userInfoKey tag)))
  | delDiff : UpdaterCommand tag (.del (genDiffKey (userInfoKey tag)))
  | publish : UpdaterCommand tag (.rename (genTempKey (userInfoKey tag)) (genReleaseKey (userInfoKey tag)))
  | dropAudience : UpdaterCommand tag (.del tmpUserInfoKey)

/-- A Redis command that the call sends is in `R`. -/
def UpdaterOp.Sends (R : RedisCommand → Prop) : UpdaterOp → Prop
  | .redis cmd => R cmd
  | _ => True

section Commands
variable {R : RedisCommand → Prop} {tag : Tag}

/-- The windows begin at `END_UID` at most. -/
theorem everywhere_updateWindows_of (h : ∀ uid rows, uid.toNat ≤ endUid.toNat →
      R (.setrange (genTempKey (userInfoKey tag)) (uid.toNat / 8) (windowBitmap uid rows)))
    (uid : UInt64) : (updateWindows tag uid).Everywhere fun o _ => o.Sends R := by
  obtain ⟨n, hn⟩ : ∃ n, endUid.toNat + 10240 - uid.toNat ≤ n := ⟨_, le_rfl⟩
  induction n generalizing uid with
  | zero =>
    have hend : ¬uid ≤ endUid := by
      rw [UInt64.le_iff_toNat_le]
      omega
    rw [updateWindows, dif_neg hend]
    trivial
  | succ n ih =>
    rw [updateWindows]
    split
    next hle =>
      have hle' : uid.toNat ≤ 100000000 := UInt64.le_iff_toNat_le.mp hle
      refine ⟨trivial, fun ok => ?_⟩
      cases ok with
      | false => trivial
      | true =>
        refine ⟨trivial, fun rows => ⟨h _ _ hle', fun reply => ?_⟩⟩
        cases reply with
        | none => trivial
        | some =>
          refine ⟨trivial, fun _ => ⟨trivial, fun _ => ih (uid + countsPerLoop) ?_⟩⟩
          simp only [endUid, countsPerLoop, UInt64.toNat_add, UInt64.reduceToNat] at hn ⊢
          omega
    next => trivial

theorem everywhere_updateWindows (h : ∀ offset value, R (.setrange (genTempKey (userInfoKey tag)) offset value))
    (uid : UInt64) : (updateWindows tag uid).Everywhere fun o _ => o.Sends R :=
  everywhere_updateWindows_of (fun _ _ _ => h _ _) uid

theorem everywhere_checkDiff
    (hdiff : R (.bitop .xor (genDiffKey (userInfoKey tag)) (genReleaseKey (userInfoKey tag))
      [genTempKey (userInfoKey tag)]))
    (hcount : R (.bitcount (genDiffKey (userInfoKey tag)))) (hdel : R (.del (genDiffKey (userInfoKey tag)))) :
    (checkDiff tag).Everywhere fun o _ => o.Sends R := by
  refine ⟨hdiff, fun reply => ?_⟩
  cases reply with
  | none => trivial
  | some =>
    refine ⟨trivial, fun _ => ⟨hcount, fun reply => ?_⟩⟩
    cases reply with
    | none => trivial
    | some => exact ⟨trivial, fun _ => ⟨hdel, fun _ => ⟨trivial, fun _ => trivial⟩⟩⟩

theorem everywhere_recordAndDrop (hdel : R (.del tmpUserInfoKey)) :
    (recordAndDrop tag).Everywhere fun o _ => o.Sends R := by
  refine everywhere_bind ?_ fun ok => ?_
  · refine ⟨trivial, fun now => ⟨trivial, fun ok => ?_⟩⟩
    cases ok with
    | false => trivial
    | true =>
      refine ⟨trivial, fun affectedRows => ⟨trivial, fun _ => ?_⟩⟩
      show Everywhere _ (if affectedRows ≤ 0 then _ else _)
      split
      · refine ⟨trivial, fun ok => ?_⟩
        cases ok with
        | false => trivial
        | true => exact ⟨trivial, fun _ => trivial⟩
      · trivial
  · cases ok with
    | false => trivial
    | true => exact ⟨hdel, fun _ => ⟨trivial, fun _ => trivial⟩⟩

theorem everywhere_publish : (publish tag).Everywhere fun o _ => o.Sends (UpdaterCommand tag) := by
  refine ⟨.publish, fun reply => ?_⟩
  cases reply with
  | none => trivial
  | some => exact ⟨trivial, fun _ => everywhere_recordAndDrop .dropAudience⟩

theorem everywhere_updateUserInfo (tag : Tag) :
    (updateUserInfo tag).Everywhere fun o _ => o.Sends (UpdaterCommand tag) := by
  refine ⟨.delTemp, fun reply => ?_⟩
  cases reply with
  | none => trivial
  | some =>
    refine ⟨trivial, fun _ => everywhere_bind (p := updateWindows tag 0) (everywhere_updateWindows .window 0) fun ok => ?_⟩
    cases ok with
    | false => trivial
    | true =>
      refine ⟨.existsRelease, fun reply => ?_⟩
      cases reply with
      | none => trivial
      | some reply =>
        refine ⟨trivial, fun _ => ?_⟩
        show Everywhere _ (if reply.toInteger = 0 then _ else _)
        split
        · exact everywhere_publish
        · refine everywhere_bind (p := checkDiff tag) (everywhere_checkDiff .diff .countDiff .delDiff) fun ok => ?_
          match ok with
          | none | some false => trivial
          | some true => exact everywhere_publish

end Commands

/-! ### Calls that keep an invariant -/

/-- The call does not write the keys in `P`. -/
def UpdaterOp.Leaves (P : String → Prop) : UpdaterOp → Prop
  | .redis cmd => ∀ key ∈ cmd.writes, ¬P key
  | _ => True

/-- An invariant that depends on the user tables and some keys only survives the calls that do not write
    these keys. -/
theorem updaterTry_keeps {J : UpdaterState → Prop} {P : String → Prop}
    (hJ : ∀ s t : UpdaterState, J s → t.stores.tables = s.stores.tables →
      (∀ key, P key → t.stores.redis key = s.stores.redis key) → J t)
    {o : UpdaterOp} {n : Nat} {s t : UpdaterState} {r : Option o.Ret} (ho : o.Leaves P) (hs : J s)
    (hm : updaterTry o n s r t) : J t := by
  cases o with
  | redis cmd =>
    rcases hm with ⟨-, -, rfl⟩ | ⟨a, -, rfl⟩
    · exact hs
    · cases a with
      | lost => exact hs
      | unheard | heard =>
        exact hJ s _ hs rfl fun key hk => Stores.exec_of_not_mem fun hmem => ho key hmem hk
  | mysql q =>
    obtain ⟨a, -, rfl⟩ := hm
    cases a <;> cases q <;> exact hJ s _ hs rfl fun _ _ => rfl
  | fetchRows =>
    obtain ⟨m, -, rfl⟩ := hm
    exact hJ s _ hs rfl fun _ _ => rfl
  | freeResult =>
    obtain ⟨-, rfl⟩ := hm
    exact hJ s _ hs rfl fun _ _ => rfl
  | freeReply | affectedRows | time =>
    obtain ⟨-, rfl⟩ := hm
    exact hs

/-! ### Rules -/

theorem RedisHandler.command_eq_some_some_iff {n : Nat} {x : Option Reply} {reply : Reply} :
    RedisHandler.command n x = some (some reply) ↔ x = some reply ∧ reply ≠ .error := by
  unfold RedisHandler.command
  split
  next => split <;> simp
  next => split <;> simp_all
  next r hne =>
    simp only [Option.some.injEq]
    exact ⟨fun h => ⟨h, fun he => hne (h.trans he)⟩, fun h => h.1⟩

theorem RedisHandler.command_eq_none_iff {n : Nat} {x : Option Reply} :
    RedisHandler.command n x = none ↔ (x = none ∨ x = some .error) ∧ n + 1 < tryCount := by
  unfold RedisHandler.command
  split
  next => simp
  next => simp
  next r hne => simpa using fun he => absurd he hne

theorem MysqlHandler.command_eq_some_true_iff {n : Nat} {ok : Bool} :
    MysqlHandler.command n ok = some true ↔ ok = true := by
  unfold MysqlHandler.command
  split
  · simp [*]
  · split <;> simp [*]

section Rules
variable {M : Machine UpdaterOp UpdaterOp.Ret UpdaterState} (hM : ∀ o n s r t, M o n s r t → updaterTry o n s r t)
variable {E : UpdaterState → UpdaterState → Prop} {J : UpdaterState → Prop} {α : Type} {Q : α → UpdaterState → Prop}
variable {s : UpdaterState}
include hM

/-- `P` carries a Redis command over its tries: it must survive each execution that goes unheard. -/
theorem wp_redis {cmd : RedisCommand} {k : Option Reply → UpdaterProg α} (P : UpdaterState → Prop) (hs : P s)
    (inv : ∀ s, P s → J s) (env : ∀ s t, P s → E s t → P t)
    (unheard : ∀ n s r, P s → M (.redis cmd) n s r (s.exec cmd) → r.join = none → P (s.exec cmd))
    (gaveUp : ∀ n s t, P t → M (.redis cmd) n s (some none) t → wp M E J (k none) Q t)
    (heard : ∀ s, P s → (s.stores.exec cmd).1 ≠ .error →
      wp M E J (k (some (s.stores.exec cmd).1)) Q (s.exec cmd)) :
    wp M E J (.call (.redis cmd) k) Q s := by
  have hnull : ∀ n s r t, P s → M (.redis cmd) n s r t → r.join = none → P t := by
    intro n s r t hp hm hr
    rcases hM _ _ _ _ _ hm with ⟨-, -, rfl⟩ | ⟨a, -, rfl⟩
    · exact hp
    · cases a with
      | lost => exact hp
      | unheard | heard => exact unheard n s r hp hm hr
  refine ⟨P, ⟨inv, env, fun n s t hp hm => hnull n s none t hp hm rfl, fun n s r t hp hm => ?_⟩, hs⟩
  cases r with
  | none => exact gaveUp n s t (hnull n s _ t hp hm rfl) hm
  | some reply =>
    rcases hM _ _ _ _ _ hm with ⟨-, hr, -⟩ | ⟨a, hr, rfl⟩
    · simp at hr
    · obtain ⟨hreply, hne⟩ := RedisHandler.command_eq_some_some_iff.mp hr.symm
      cases a with
      | lost | unheard => cases hreply
      | heard =>
        obtain rfl := Option.some.inj hreply
        exact heard s hp hne

/-- `P` carries a statement over its tries. -/
theorem wp_mysql {q : Query} {k : Bool → UpdaterProg α} (P : UpdaterState → Prop) (hs : P s)
    (inv : ∀ s, P s → J s) (env : ∀ s t, P s → E s t → P t) (exec : ∀ s a, P s → P (s.mysqlQuery q a))
    (gaveUp : ∀ n s t, P t → M (.mysql q) n s (some false) t → wp M E J (k false) Q t)
    (heard : ∀ s, P s → wp M E J (k true) Q (s.query q)) :
    wp M E J (.call (.mysql q) k) Q s := by
  refine ⟨P, ⟨inv, env, fun n s t hp hm => ?_, fun n s r t hp hm => ?_⟩, hs⟩
  · obtain ⟨a, -, rfl⟩ := hM _ _ _ _ _ hm
    exact exec s a hp
  · obtain ⟨a, hr, rfl⟩ := hM _ _ _ _ _ hm
    cases r with
    | false => exact gaveUp n s _ (exec s a hp) hm
    | true =>
      have hheard := of_decide_eq_true (MysqlHandler.command_eq_some_true_iff.mp hr.symm)
      subst hheard
      exact heard s hp

/-- A call that only looks at the state. -/
theorem wp_idle {o : UpdaterOp} {k : o.Ret → UpdaterProg α} (hk : Keeps E J Q)
    (ho : ∀ n s r t, updaterTry o n s r t → r ≠ none ∧ t = s) (h : ∀ r, wp M E J (k r) Q s) (r : o.Ret) :
    wp M E J (.call o k) Q s := by
  refine ⟨fun s => ∀ r, wp M E J (k r) Q s, ⟨fun s h => (h r).inv, fun s t h he r => (h r).env hk he,
    fun n s t h hm => absurd rfl (ho _ _ _ _ (hM _ _ _ _ _ hm)).1, fun n s r t h hm => ?_⟩, h⟩
  obtain ⟨-, rfl⟩ := ho _ _ _ _ (hM _ _ _ _ _ hm)
  exact h r

theorem wp_freeReply {k : Unit → UpdaterProg α} (hk : Keeps E J Q) (h : wp M E J (k ()) Q s) :
    wp M E J (.call .freeReply k) Q s :=
  wp_idle hM hk (fun _ _ _ _ hm => ⟨by rw [hm.1]; simp, hm.2⟩) (fun _ => h) ()

theorem wp_fetchRows {k : List UInt64 → UpdaterProg α} (P : UpdaterState → Prop) (hs : P s)
    (inv : ∀ s, P s → J s) (env : ∀ s t, P s → E s t → P t)
    (ret : ∀ n s r t, P s → M .fetchRows n s (some r) t → wp M E J (k r) Q t) :
    wp M E J (.call .fetchRows k) Q s := by
  refine ⟨P, ⟨inv, env, fun n s t hp hm => ?_, ret⟩, hs⟩
  obtain ⟨m, hr, -⟩ := hM _ _ _ _ _ hm
  cases hr

theorem wp_freeResult {k : Unit → UpdaterProg α} (P : UpdaterState → Prop) (hs : P s) (inv : ∀ s, P s → J s)
    (env : ∀ s t, P s → E s t → P t) (ret : ∀ s, P s → wp M E J (k ()) Q { s with result := [] }) :
    wp M E J (.call .freeResult k) Q s := by
  refine ⟨P, ⟨inv, env, fun n s t hp hm => ?_, fun n s r t hp hm => ?_⟩, hs⟩
  · obtain ⟨hr, -⟩ := hM _ _ _ _ _ hm
    cases hr
  · obtain ⟨-, rfl⟩ := hM _ _ _ _ _ hm
    exact ret s hp

end Rules

end PushSystem
