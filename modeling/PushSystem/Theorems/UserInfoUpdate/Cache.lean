import PushSystem.Theorems.UserInfoUpdate.Complete

/-! The audience in `TMP_USER_INFO_KEY` is dropped whenever a new bitmap is published, as long as no command
    from the `RENAME` on is given up over an old audience. -/

namespace PushSystem
open Redis Prog

/-- There is an audience, and it was computed before the last `RENAME`. -/
def UpdaterState.Stale (s : UpdaterState) : Prop :=
  (s.stores.redis tmpUserInfoKey).isSome ∧ s.stores.fresh = false

/-- The answer to a `RENAME` that takes effect comes back, or there is no audience. The statements that follow are given
    up only when there is no audience or a producer has computed one since, and so is the `DEL`, or else its last try
    leaves no key. -/
def AudienceDropped : Machine UpdaterOp UpdaterOp.Ret UpdaterState
  | .redis (.rename key _), _, s, r, t => (s.stores.redis key).isSome → t.stores.redis key = none →
      (∃ reply, r = some (some reply)) ∨ s.stores.redis tmpUserInfoKey = none
  | .redis (.del key), _, s, r, t => key = tmpUserInfoKey → r = some none →
      t.stores.redis key = none ∨ s.stores.fresh = true
  | .mysql (.update _ _), _, s, r, _ | .mysql (.insert _ _), _, s, r, _ => r = some false →
      s.stores.redis tmpUserInfoKey = none ∨ s.stores.fresh = true
  | _, _, _, _, _ => True

section Dropped
variable {tag : Tag} {s t : UpdaterState}

theorem UpdaterState.Stale.producers (h : ¬s.Stale) (he : Producers s t) : ¬t.Stale := by
  obtain ⟨w, hw, rfl⟩ := he
  cases hw with
  | bitop =>
    rintro ⟨-, hfresh⟩
    simp [Stores.exec] at hfresh
  | expire =>
    rintro ⟨hsome, hfresh⟩
    refine h ⟨?_, hfresh⟩
    by_contra hnone
    rw [Bool.not_eq_true, Option.isSome_eq_false_iff, Option.isNone_iff_eq_none] at hnone
    simp [Stores.exec, Store.exec, hnone] at hsome
  | expired =>
    rintro ⟨hsome, -⟩
    simp [Store.remove_self] at hsome

theorem not_stale_of_none (h : s.stores.redis tmpUserInfoKey = none) : ¬s.Stale := by
  rintro ⟨hsome, -⟩
  simp [h] at hsome

theorem not_stale_of_fresh (h : s.stores.fresh = true) : ¬s.Stale := by
  rintro ⟨-, hfresh⟩
  rw [h] at hfresh
  cases hfresh

/-- A query to MySQL leaves the audience as it is. -/
theorem not_stale_of_mysql {q : Query} {n : Nat} {r : Option Bool} (hm : updaterTry (.mysql q) n s r t)
    (h : s.stores.redis tmpUserInfoKey = none ∨ s.stores.fresh = true) : ¬t.Stale := by
  obtain ⟨a, -, rfl⟩ := hm
  have hsame : (s.mysqlQuery q a).stores.redis = s.stores.redis ∧ (s.mysqlQuery q a).stores.fresh = s.stores.fresh := by
    cases a <;> cases q <;> exact ⟨rfl, rfl⟩
  rcases h with hnone | hfresh
  · exact not_stale_of_none (hsame.1 ▸ hnone)
  · exact not_stale_of_fresh (hsame.2.trans hfresh)

/-- A `DEL` makes no audience older than the `RENAME`. -/
theorem not_stale_of_del {key : String} {n : Nat} {r : Option (Option Reply)}
    (hm : updaterTry (.redis (.del key)) n s r t) (h : s.stores.fresh = true) : ¬t.Stale := by
  refine not_stale_of_fresh ?_
  rcases hm with ⟨-, -, rfl⟩ | ⟨a, -, rfl⟩
  · exact h
  · cases a <;> exact h

/-- The RELEASE key is what it was, or there is no stale audience. -/
def Dropped (tag : Tag) (old : Option Entry) (s : UpdaterState) : Prop := s.release tag = old ∨ ¬s.Stale

theorem Dropped.producers {old : Option Entry} (h : Dropped tag old s) (he : Producers s t) : Dropped tag old t :=
  h.imp (fun hr => (he.redis (release_ne_tmp tag)).trans hr) fun hs => UpdaterState.Stale.producers hs he

theorem Dropped.keeps {old : Option Entry} :
    Keeps Producers (fun _ => True) fun (_ : Unit) t => Dropped tag old t :=
  ⟨fun _ _ _ _ _ _ => trivial, fun _ _ _ _ hd he => hd.producers he⟩

/-- Where `recordUpdate` stops the update there is no stale audience. -/
theorem wp_recordUpdate : wp (updaterTry.under AudienceDropped) Producers (fun _ => True) (recordUpdate tag)
    (fun ok t => ok = false → ¬t.Stale) s := by
  have hM : ∀ o n s r t, (updaterTry.under AudienceDropped) o n s r t → updaterTry o n s r t := fun _ _ _ _ _ hm => hm.1
  have hkeeps : Keeps Producers (fun _ => True) fun (ok : Bool) (t : UpdaterState) => ok = false → ¬t.Stale :=
    ⟨fun _ _ _ _ _ _ => trivial, fun _ _ _ _ hq he hok => UpdaterState.Stale.producers (hq hok) he⟩
  unfold recordUpdate
  simp only [perform_bind]
  refine wp_idle hM hkeeps (fun _ _ _ _ hm => ⟨by rcases hm with ⟨⟨now, rfl⟩, -⟩; simp, hm.2⟩) (fun now => ?_) 0
  refine wp_mysql hM (fun _ => True) trivial (fun _ _ => trivial) (fun _ _ _ _ => trivial) (fun _ _ _ => trivial)
    (fun n s t _ hm => ⟨trivial, fun _ => not_stale_of_mysql hm.1 (hm.2 rfl)⟩) fun s _ => ?_
  simp only [Bool.not_true, Bool.false_eq_true, if_false]
  refine wp_idle hM hkeeps (fun _ _ _ _ hm => ⟨by rw [hm.1]; simp, hm.2⟩) (fun affectedRows => ?_) 0
  refine wp_freeResult hM (fun _ => True) trivial (fun _ _ => trivial) (fun _ _ _ _ => trivial) fun s _ => ?_
  split
  · refine wp_mysql hM (fun _ => True) trivial (fun _ _ => trivial) (fun _ _ _ _ => trivial) (fun _ _ _ => trivial)
      (fun n s t _ hm => ⟨trivial, fun _ => not_stale_of_mysql hm.1 (hm.2 rfl)⟩) fun s _ => ?_
    simp only [Bool.not_true, Bool.false_eq_true, if_false]
    exact wp_freeResult hM (fun _ => True) trivial (fun _ _ => trivial) (fun _ _ _ _ => trivial) fun s _ =>
      ⟨trivial, by simp⟩
  · exact ⟨trivial, by simp⟩

/-- However an update ends after the `RENAME`, there is no stale audience. -/
theorem wp_recordAndDrop_not_stale : wp (updaterTry.under AudienceDropped) Producers (fun _ => True) (recordAndDrop tag)
    (fun _ t => ¬t.Stale) s := by
  have hM : ∀ o n s r t, (updaterTry.under AudienceDropped) o n s r t → updaterTry o n s r t := fun _ _ _ _ _ hm => hm.1
  have hkeeps : Keeps Producers (fun _ => True) fun (_ : Unit) (t : UpdaterState) => ¬t.Stale :=
    ⟨fun _ _ _ _ _ _ => trivial, fun _ _ _ _ hq he => UpdaterState.Stale.producers hq he⟩
  refine wp_bind (wp_recordUpdate.mono fun ok t _ hok => ?_)
  cases ok with
  | false => exact ⟨trivial, hok rfl⟩
  | true =>
    simp only [Bool.not_true, Bool.false_eq_true, if_false, perform_bind]
    refine wp_redis hM (fun _ => True) trivial (fun _ _ => trivial) (fun _ _ _ _ => trivial)
      (fun _ _ _ _ _ _ => trivial) (fun n s t _ hm => ?_) fun s _ _ => ?_
    · refine wp_freeReply hM hkeeps ⟨trivial, ?_⟩
      rcases hm.2 rfl rfl with hnone | hfresh
      · exact not_stale_of_none hnone
      · exact not_stale_of_del hm.1 hfresh
    · have hgone : (s.exec (.del tmpUserInfoKey)).stores.redis tmpUserInfoKey = none := by
        simp [UpdaterState.exec, Stores.exec, Store.exec, Store.remove_self]
      exact wp_freeReply hM hkeeps ⟨trivial, not_stale_of_none hgone⟩

/-- `RENAME` is the only command that changes the RELEASE key. -/
theorem wp_publish_dropped {old : Option Entry} (h : s.release tag = old) :
    wp (updaterTry.under AudienceDropped) Producers (fun _ => True) (publish tag) (fun _ t => Dropped tag old t) s := by
  have hM : ∀ o n s r t, (updaterTry.under AudienceDropped) o n s r t → updaterTry o n s r t := fun _ _ _ _ _ hm => hm.1
  unfold publish
  simp only [perform_bind]
  refine wp_redis hM (Dropped tag old) (Or.inl h) (fun _ _ => trivial) (fun s t hd he => hd.producers he)
    (fun n s r hd hm hr => ?_) (fun n s t hd _ => ⟨trivial, hd⟩) fun s _ _ => ?_
  · cases htemp : s.stores.redis (genTempKey (userInfoKey tag)) with
    | none =>
      have hsame : s.exec (.rename (genTempKey (userInfoKey tag)) (genReleaseKey (userInfoKey tag))) = s := by
        simp [UpdaterState.exec, Stores.exec, Store.exec, htemp]
      rw [hsame]
      exact hd
    | some e =>
      have hgone : (s.exec (.rename (genTempKey (userInfoKey tag)) (genReleaseKey (userInfoKey tag)))).stores.redis
          (genTempKey (userInfoKey tag)) = none := by
        simp [UpdaterState.exec, Stores.exec, Store.exec, htemp, Store.remove, temp_ne_release]
      rcases hm.2 (by rw [htemp]; rfl) hgone with ⟨reply, rfl⟩ | htmp
      · cases hr
      · refine Or.inr (not_stale_of_none ((Stores.exec_of_not_mem ?_).trans htmp))
        simp [Command.writes, (temp_ne_tmp tag).symm, (release_ne_tmp tag).symm]
  · simp only [Option.isNone_some, Bool.false_eq_true, if_false]
    exact wp_freeReply hM Dropped.keeps (wp_recordAndDrop_not_stale.mono fun _ _ _ hs => Or.inr hs)

/-- Calls that do not write the RELEASE key keep it. -/
theorem wp_release {α : Type} {p : UpdaterProg α} {f : α → UpdaterProg Unit} {old : Option Entry}
    (hp : p.Everywhere fun o _ => o.Leaves fun key => key = genReleaseKey (userInfoKey tag)) (h : s.release tag = old)
    (hf : ∀ a t, t.release tag = old → wp (updaterTry.under AudienceDropped) Producers (fun _ => True) (f a)
      (fun _ t => Dropped tag old t) t) :
    wp (updaterTry.under AudienceDropped) Producers (fun _ => True) (p >>= f) (fun _ t => Dropped tag old t) s := by
  have hkeep : wp (updaterTry.under AudienceDropped) Producers (fun s => s.release tag = old) p (fun _ _ => True) s :=
    wp_of_everywhere (fun _ _ hs he => (he.redis (release_ne_tmp tag)).trans hs)
      (fun _ _ _ _ _ ho hs hm => updaterTry_keeps (P := fun key => key = genReleaseKey (userInfoKey tag))
        (fun _ _ hs _ hkey => (hkey _ rfl).trans hs) ho hs hm.1) hp h
  exact wp_bind ((hkeep.mono fun a t ht _ => hf a t ht).weaken fun _ _ => trivial)

theorem wp_checkAndPublish_dropped {old : Option Entry} (h : s.release tag = old) :
    wp (updaterTry.under AudienceDropped) Producers (fun _ => True) (checkAndPublish tag)
      (fun _ t => Dropped tag old t) s := by
  have hdiff : ∀ key ∈ [genDiffKey (userInfoKey tag)], key ≠ genReleaseKey (userInfoKey tag) :=
    fun key hk => List.mem_singleton.mp hk ▸ diff_ne_release tag tag
  unfold checkAndPublish
  refine wp_release ⟨fun _ hk => (List.not_mem_nil hk).elim, fun _ => trivial⟩ h fun reply t ht => ?_
  cases reply with
  | none => exact ⟨trivial, Or.inl ht⟩
  | some reply =>
    refine wp_release ⟨trivial, fun _ => trivial⟩ ht fun _ t ht => ?_
    split
    · exact wp_publish_dropped ht
    · refine wp_release (everywhere_checkDiff hdiff (fun _ hk => (List.not_mem_nil hk).elim) hdiff) ht fun ok t ht => ?_
      match ok with
      | none | some false => exact ⟨trivial, Or.inl ht⟩
      | some true => exact wp_publish_dropped ht

theorem wp_updateUserInfo_dropped (tag : Tag) (s : UpdaterState) :
    wp (updaterTry.under AudienceDropped) Producers (fun _ => True) (updateUserInfo tag)
      (fun _ t => Dropped tag (s.release tag) t) s := by
  have hdel : ∀ key ∈ (Command.del (genTempKey (userInfoKey tag))).writes, key ≠ genReleaseKey (userInfoKey tag) :=
    fun key hk => List.mem_singleton.mp hk ▸ temp_ne_release tag tag
  unfold updateUserInfo
  refine wp_release ⟨hdel, fun _ => trivial⟩ rfl fun reply t ht => ?_
  cases reply with
  | none => exact ⟨trivial, Or.inl ht⟩
  | some =>
    refine wp_release ⟨trivial, fun _ => trivial⟩ ht fun _ t ht => ?_
    refine wp_release (everywhere_updateWindows (fun _ _ => hdel) 0) ht fun ok t ht => ?_
    cases ok with
    | false => exact ⟨trivial, Or.inl ht⟩
    | true => exact wp_checkAndPublish_dropped ht

end Dropped

/-- When an update returns, the RELEASE key is what it was or no audience is left that was computed before. -/
theorem audience_dropped {tag : Tag} {s t : UpdaterState}
    (h : Returns (updaterTry.under AudienceDropped) Producers (updateUserInfo tag) s () t) :
    t.release tag = s.release tag ∨ ¬t.Stale :=
  (h.holds (wp_updateUserInfo_dropped tag s) Dropped.keeps).2

/-- A producer has computed an audience, with the user 5. -/
def oldAudience : UpdaterState :=
  { oneFan with
    stores := { oneFan.stores with redis := fun key => if key = tmpUserInfoKey then some ⟨[4], some 1800⟩ else none } }

theorem oldAudience_release : oldAudience.release 0 = none := by
  simp [UpdaterState.release, oldAudience, release_ne_tmp]

theorem audience_dropped_oldAudience :
    ∃ t, Returns (updaterTry.under AudienceDropped) Producers (updateUserInfo 0) oldAudience () t ∧
      t.release 0 ≠ oldAudience.release 0 ∧ (t.release 0 = oldAudience.release 0 ∨ ¬t.Stale) := by
  have hanswer : ∀ o s, (updaterTry.under AudienceDropped) o 0 s (some (answer List.length 0 o s).1)
      (answer List.length 0 o s).2 := by
    intro o s
    refine ⟨updaterTry_answer _ _ o s, ?_⟩
    cases o with
    | redis cmd =>
      cases cmd with
      | rename key newKey =>
        intro htemp _
        have hne : (s.stores.exec (.rename key newKey)).1 ≠ .error := by
          obtain ⟨e, he⟩ := Option.isSome_iff_exists.mp htemp
          simp [Stores.exec, Store.exec, he]
        exact Or.inl ⟨_, congrArg (some ·.1) (answer_redis _ _ hne)⟩
      | del key =>
        intro _ hr
        have hne : (s.stores.exec (.del key)).1 ≠ .error := by simp [Stores.exec, Store.exec]
        rw [answer_redis _ _ hne] at hr
        cases hr
      | existsKey | setrange | bitop | bitcount | expire | getrange => trivial
    | mysql q =>
      cases q with
      | select => trivial
      | update | insert => exact fun hr => by cases hr
    | freeReply | fetchRows | affectedRows | freeResult | time => trivial
  have hrun := returns_eval_unit (E := Producers) hanswer (updateUserInfo 0) oldAudience
  obtain ⟨e, he, -⟩ := (eval_updateUserInfo List.length 0 (s := oldAudience) (F := fun _ => True) (fun rows x => by simp)
    (Or.inl oldAudience_release)).release
  exact ⟨_, hrun, by rw [he, oldAudience_release]; simp, audience_dropped hrun⟩

/-- The windows are written while no producer runs. -/
theorem exists_windows {tag : Tag} {redis : Redis.Store String} {tables : String → List UserRow} {s : UpdaterState}
    (h : Built tag redis tables (fun _ => True) 0 s) :
    ∃ t, Returns updaterTry Producers (updateWindows tag 0) s true t ∧ Built tag redis tables (fun _ => True) 9766 t ∧
      t.stores.redis tmpUserInfoKey = s.stores.redis tmpUserInfoKey := by
  obtain ⟨hok, hb⟩ := eval_updateWindows List.length 0 (F := fun _ => True) (fun rows x => by simp) h
  have hrun := returns_eval (E := Producers) (updaterTry_answer List.length 0) (updateWindows tag 0) s
  have hkeep : wp (ofHandler (answer List.length 0)) (fun _ _ => False)
      (fun t => t.stores.redis tmpUserInfoKey = s.stores.redis tmpUserInfoKey) (updateWindows tag 0) (fun _ _ => True) s :=
    wp_of_everywhere (fun _ _ _ he => he.elim)
      (fun o n s r t ho hs hm => updaterTry_keeps (P := fun key => key = tmpUserInfoKey)
        (fun _ _ hs _ hkey => (hkey _ rfl).trans hs) ho hs (ofHandler_answer List.length 0 o n s r t hm))
      (everywhere_updateWindows (fun _ _ _ hk => List.mem_singleton.mp hk ▸ temp_ne_tmp tag) 0) rfl
  rw [hok] at hrun
  exact ⟨_, hrun, hb, (eval_post hkeep).1⟩

/-- A statement that is given up. -/
theorem reaches_lost {α : Type} {E : UpdaterState → UpdaterState → Prop} {q : Query} {k : Bool → UpdaterProg α}
    {s t : UpdaterState} {th : Thread UpdaterOp UpdaterOp.Ret α} (h : Reaches updaterTry E (k false) s th t) :
    Reaches updaterTry E (.call (.mysql q) k) s th t := by
  have hfirst : updaterTry (.mysql q) 0 s none s := ⟨.lost, rfl, rfl⟩
  have hsecond : updaterTry (.mysql q) 1 s none s := ⟨.lost, rfl, rfl⟩
  have hthird : updaterTry (.mysql q) 2 s (some false) s := ⟨.lost, rfl, rfl⟩
  exact .head (.own (.retry hfirst)) (.head (.own (.retry hsecond)) (.head (.own (.ret hthird)) h))

/-- The bitmap is published, the `UPDATE` of the record fails three times, and the update stops before it drops
    the old audience. -/
theorem audience_stale : ∃ t, Returns updaterTry Producers (updateUserInfo 0) oldAudience () t ∧
    ¬(t.release 0 = oldAudience.release 0 ∨ ¬t.Stale) := by
  have hstart : Building 0 oldAudience.stores.redis oldAudience.stores.tables oldAudience := ⟨rfl, fun _ _ _ _ => rfl⟩
  obtain ⟨s, hwindows, hb, htmp⟩ := exists_windows (hstart.del fun _ => True)
  have hrelease : s.release 0 = none :=
    (hb.toBuilding.frame _ (temp_ne_release 0 0).symm (diff_ne_release 0 0).symm (release_ne_tmp 0)).trans
      oldAudience_release
  have hold : s.stores.redis tmpUserInfoKey = some ⟨[4], some 1800⟩ := by
    rw [htmp]
    exact Stores.exec_of_not_mem (by simp [Command.writes, (temp_ne_tmp 0).symm])
  obtain ⟨e, he, henc⟩ := hb.exists_temp
  have hdel : (oldAudience.stores.exec (.del (genTempKey (userInfoKey 0)))).1 ≠ .error := by
    simp [Stores.exec, Store.exec]
  have hexists : (s.stores.exec (.existsKey (genReleaseKey (userInfoKey 0)))).1 = .integer 0 := by
    have := hrelease
    simp only [UpdaterState.release] at this
    simp [Stores.exec, Store.exec, this]
  have hrename : (s.stores.exec (.rename (genTempKey (userInfoKey 0)) (genReleaseKey (userInfoKey 0)))).1 ≠ .error := by
    simp [Stores.exec, Store.exec, he]
  refine ⟨s.exec (.rename (genTempKey (userInfoKey 0)) (genReleaseKey (userInfoKey 0))), ?_, ?_⟩
  · unfold updateUserInfo
    refine Reaches.ret (updaterTry_heard hdel) (Reaches.ret ⟨rfl, rfl⟩ (hwindows.bind ?_))
    refine Reaches.ret (updaterTry_heard (by rw [hexists]; simp)) ?_
    rw [hexists]
    refine Reaches.ret ⟨rfl, rfl⟩ (Reaches.ret (updaterTry_heard hrename) ?_)
    exact Reaches.ret ⟨rfl, rfl⟩ (Reaches.ret ⟨⟨0, rfl⟩, rfl⟩ (reaches_lost Relation.ReflTransGen.refl))
  · have hnew : (s.exec (.rename (genTempKey (userInfoKey 0)) (genReleaseKey (userInfoKey 0)))).release 0 = some e := by
      simp [UpdaterState.release, UpdaterState.exec, Stores.exec, Store.exec, he]
    have hkept : (s.stores.exec (.rename (genTempKey (userInfoKey 0)) (genReleaseKey (userInfoKey 0)))).2.redis
        tmpUserInfoKey = s.stores.redis tmpUserInfoKey :=
      Stores.exec_of_not_mem (by simp [Command.writes, (temp_ne_tmp 0).symm, (release_ne_tmp 0).symm])
    rintro (hsame | hfresh)
    · rw [hnew, oldAudience_release] at hsame
      cases hsame
    · refine hfresh ⟨?_, ?_⟩
      · rw [UpdaterState.exec, hkept, hold]
        rfl
      · simp [UpdaterState.exec, Stores.exec, he]

end PushSystem
