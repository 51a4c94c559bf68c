import PushSystem.Theorems.Audience.Real
import PushSystem.Theorems.Producer.RoundTrip

/-! When the audience is exact. If updates run one after the other and fetch all rows, every published bitmap is that of
    its table, and the audience marks the users that are in all three, whatever else fails. -/

namespace PushSystem
open Redis Bitmap Prog

/-! ### The stores -/

/-- The bitmap marks the users that are in all three tables. -/
structure MarksAll (tables : String → List UserRow) (bitmap : List Byte) : Prop where
  length : bitmap.length = 12500480
  bits : ∀ uid, testBit bitmap uid ↔ uid < 100003840 ∧ ∀ tag, HasUid tables tag uid

/-- The tables are the ones given, and each bitmap that exists is the whole of its table. -/
structure Stores.Exact (tables : String → List UserRow) (w : Stores) : Prop where
  unchanged : w.tables = tables
  release : ∀ tag entry, w.redis (genReleaseKey (userInfoKey tag)) = some entry →
    Encodes tables tag (fun _ => True) 9766 entry.bytes
  audience : ∀ entry, w.redis tmpUserInfoKey = some entry → MarksAll tables entry.bytes

/-- The command leaves the published bitmaps alone, and does not compute the audience. -/
def LeavesExact (cmd : RedisCommand) : Prop :=
  (∀ tag, genReleaseKey (userInfoKey tag) ∉ cmd.writes) ∧ (tmpUserInfoKey ∈ cmd.writes → cmd = .del tmpUserInfoKey)

section Stores
variable {tables : String → List UserRow} {w w' : Stores} {cmd : RedisCommand}

theorem Stores.Exact.of_eq (h : w.Exact tables) (htables : w'.tables = w.tables)
    (hrelease : ∀ tag, w'.redis (genReleaseKey (userInfoKey tag)) = w.redis (genReleaseKey (userInfoKey tag)))
    (haudience : w'.redis tmpUserInfoKey = w.redis tmpUserInfoKey ∨ w'.redis tmpUserInfoKey = none) : w'.Exact tables where
  unchanged := htables.trans h.unchanged
  release tag entry hentry := h.release tag entry (hrelease tag ▸ hentry)
  audience entry hentry := by
    rcases haudience with heq | hnone
    · exact h.audience entry (heq ▸ hentry)
    · rw [hnone] at hentry
      cases hentry

theorem Stores.Exact.exec (h : w.Exact tables) (hcmd : LeavesExact cmd) : (w.exec cmd).2.Exact tables := by
  refine h.of_eq rfl (fun tag => Stores.exec_of_not_mem (hcmd.1 tag)) ?_
  by_cases hmem : tmpUserInfoKey ∈ cmd.writes
  · rw [hcmd.2 hmem]
    exact Or.inr (by simp [Stores.exec, Store.exec, Store.remove_self])
  · exact Or.inl (Stores.exec_of_not_mem hmem)

/-- The audience is computed when the three bitmaps exist, or not at all. -/
theorem Stores.Exact.bitop (h : w.Exact tables) (hbitmaps : w.Published ∨ w.NoUsers) :
    (w.exec bitopAudience).2.Exact tables := by
  have hrelease : ∀ tag, (w.exec bitopAudience).2.redis (genReleaseKey (userInfoKey tag)) =
      w.redis (genReleaseKey (userInfoKey tag)) := fun tag =>
    Stores.exec_of_not_mem fun hmem => release_ne_tmp tag (List.mem_singleton.mp hmem)
  rcases hbitmaps with hpublished | hno
  · have hencode : ReleasesEncode tables w := fun tag => by
      obtain ⟨entry, hentry⟩ := Option.isSome_iff_exists.mp (hpublished tag)
      have hvalue : w.redis.value (genReleaseKey (userInfoKey tag)) = entry.bytes := by simp [Store.value, hentry]
      rw [hvalue]
      exact h.release tag entry hentry
    have hne : w.audience ≠ [] := fun hnil => by simpa [hnil] using hencode.length
    refine ⟨h.unchanged, fun tag entry hentry => h.release tag entry (hrelease tag ▸ hentry), fun entry hentry => ?_⟩
    rw [(exec_bitopAudience hne).2] at hentry
    obtain rfl := Option.some.inj hentry
    exact ⟨hencode.length, hencode.testBit⟩
  · exact h.of_eq rfl hrelease (Or.inr (exec_bitopAudience_of_noUsers hno))

theorem Stores.Exact.expire (h : w.Exact tables) : (w.exec expireAudience).2.Exact tables := by
  cases hkey : w.redis tmpUserInfoKey with
  | none =>
    refine h.of_eq rfl (fun tag => Stores.exec_of_not_mem fun hmem => release_ne_tmp tag (List.mem_singleton.mp hmem))
      (Or.inr ?_)
    simp [expireAudience, Stores.exec, Store.exec, hkey]
  | some entry =>
    refine ⟨h.unchanged, fun tag e he => h.release tag e ?_, fun e he => ?_⟩
    · rwa [Stores.exec_of_not_mem (fun hmem => release_ne_tmp tag (List.mem_singleton.mp hmem))] at he
    · have hset : (w.exec expireAudience).2.redis tmpUserInfoKey = some ⟨entry.bytes, some (30 * secondsPerMinute)⟩ := by
        simp [expireAudience, Stores.exec, Store.exec, hkey, Store.set_self]
      rw [hset] at he
      obtain rfl := Option.some.inj he
      exact h.audience entry hkey

end Stores

/-! ### An update -/

abbrev UpdaterState.Exact (tables : String → List UserRow) (s : UpdaterState) : Prop := s.stores.Exact tables

/-- The producers, whose audience is exact. -/
def ExactProducers (tables : String → List UserRow) (s t : UpdaterState) : Prop := Producers s t ∧ t.Exact tables

/-- The tries of an update that fetches all rows. -/
abbrev fetchingTry : Machine UpdaterOp UpdaterOp.Ret UpdaterState := updaterTry.under RowsFetched

section Update
variable {tables : String → List UserRow} {tag : Tag} {s t : UpdaterState}

theorem updaterTry_exact {o : UpdaterOp} {n : Nat} {r : Option o.Ret} (ho : o.Sends LeavesExact) (h : s.Exact tables)
    (hm : updaterTry o n s r t) : t.Exact tables := by
  cases o with
  | redis cmd =>
    rcases hm with ⟨-, -, rfl⟩ | ⟨a, -, rfl⟩
    · exact h
    · cases a with
      | lost => exact h
      | unheard | heard => exact Stores.Exact.exec h ho
  | mysql q =>
    obtain ⟨a, -, rfl⟩ := hm
    cases a <;> cases q <;> exact h.of_eq rfl (fun _ => rfl) (Or.inl rfl)
  | fetchRows =>
    obtain ⟨m, -, rfl⟩ := hm
    exact h
  | freeReply | affectedRows | freeResult | time =>
    obtain ⟨-, rfl⟩ := hm
    exact h

/-- A program that leaves the published bitmaps alone. -/
theorem wp_leavesExact {α : Type} {p : UpdaterProg α} (hp : p.Everywhere fun o _ => o.Sends LeavesExact)
    (h : s.Exact tables) :
    wp fetchingTry (ExactProducers tables) (UpdaterState.Exact tables) p (fun _ _ => True) s :=
  wp_of_everywhere (fun _ _ _ he => he.2) (fun _ _ _ _ _ ho h hm => updaterTry_exact ho h hm.1) hp h

theorem leavesExact_temp {cmd : RedisCommand} (h : cmd.writes = [genTempKey (userInfoKey tag)]) : LeavesExact cmd := by
  rw [LeavesExact, h]
  exact ⟨fun tag' hmem => temp_ne_release tag tag' (List.mem_singleton.mp hmem).symm,
    fun hmem => absurd (List.mem_singleton.mp hmem).symm (temp_ne_tmp tag)⟩

theorem leavesExact_diff {cmd : RedisCommand} (h : cmd.writes = [genDiffKey (userInfoKey tag)]) : LeavesExact cmd := by
  rw [LeavesExact, h]
  exact ⟨fun tag' hmem => diff_ne_release tag tag' (List.mem_singleton.mp hmem).symm,
    fun hmem => absurd (List.mem_singleton.mp hmem).symm (diff_ne_tmp tag)⟩

theorem leavesExact_read {cmd : RedisCommand} (h : cmd.writes = []) : LeavesExact cmd := by
  rw [LeavesExact, h]
  exact ⟨fun _ => List.not_mem_nil, fun hmem => (List.not_mem_nil hmem).elim⟩

theorem leavesExact_dropAudience : LeavesExact (.del tmpUserInfoKey) :=
  ⟨fun tag hmem => release_ne_tmp tag (List.mem_singleton.mp hmem), fun _ => rfl⟩

/-- Renaming publishes the bitmap of the table. -/
theorem Built.rename_exact {redis : Redis.Store String} (hb : Built tag redis tables (fun _ => True) 9766 s)
    (h : s.Exact tables) :
    UpdaterState.Exact tables (s.exec (.rename (genTempKey (userInfoKey tag)) (genReleaseKey (userInfoKey tag)))) ∧
      (s.exec (.rename (genTempKey (userInfoKey tag)) (genReleaseKey (userInfoKey tag)))).stores.redis
        (genTempKey (userInfoKey tag)) = none := by
  obtain ⟨e, he, henc⟩ := hb.exists_temp
  refine ⟨⟨h.unchanged, fun tag' entry hentry => ?_, fun entry hentry => h.audience entry ?_⟩, hb.rename.2⟩
  · by_cases htag : tag = tag'
    · subst htag
      have hrelease : (s.exec (.rename (genTempKey (userInfoKey tag)) (genReleaseKey (userInfoKey tag)))).stores.redis
          (genReleaseKey (userInfoKey tag)) = some e := by
        simp [UpdaterState.exec, Stores.exec, Store.exec, he]
      rw [hrelease] at hentry
      obtain rfl := Option.some.inj hentry
      exact henc
    · refine h.release tag' entry (Eq.trans (Stores.exec_of_not_mem ?_).symm hentry)
      simp [Command.writes, (temp_ne_release tag tag').symm, (release_ne_release htag).symm]
  · refine Eq.trans (Stores.exec_of_not_mem ?_).symm hentry
    simp [Command.writes, (temp_ne_tmp tag).symm, (release_ne_tmp tag).symm]

theorem wp_publish_exact {redis : Redis.Store String} (hb : Built tag redis tables (fun _ => True) 9766 s)
    (h : s.Exact tables) :
    wp fetchingTry (ExactProducers tables) (UpdaterState.Exact tables) (publish tag) (fun _ _ => True) s := by
  have hdrop : (recordAndDrop tag).Everywhere fun o _ => o.Sends LeavesExact :=
    everywhere_recordAndDrop leavesExact_dropAudience
  unfold publish
  simp only [perform_bind]
  refine wp_redis (fun _ _ _ _ _ hm => hm.1)
    (fun s => s.Exact tables ∧ (Built tag redis tables (fun _ => True) 9766 s ∨
      s.stores.redis (genTempKey (userInfoKey tag)) = none)) ⟨h, Or.inl hb⟩ (fun _ hp => hp.1)
    (fun s t hp he => ⟨he.2, hp.2.imp (fun hb => hb.producers he.1)
      fun hnone => (he.1.redis (temp_ne_tmp tag)).trans hnone⟩)
    (fun n s r hp _ _ => ?_) (fun n s t hp _ => ⟨hp.1, trivial⟩) fun s hp hne => ?_
  · -- executed once more, `RENAME` finds no TEMP key and changes nothing
    rcases hp with ⟨h, hb | hnone⟩
    · exact ⟨(hb.rename_exact h).1, Or.inr (hb.rename_exact h).2⟩
    · have hsame : s.exec (.rename (genTempKey (userInfoKey tag)) (genReleaseKey (userInfoKey tag))) = s := by
        simp [UpdaterState.exec, Stores.exec, Store.exec, hnone]
      rw [hsame]
      exact ⟨h, Or.inr hnone⟩
  · rcases hp with ⟨h, hb | hnone⟩
    · exact wp_freeReply (fun _ _ _ _ _ hm => hm.1) ⟨fun _ _ _ _ _ he => he.2, fun _ _ _ _ _ _ => trivial⟩
        (wp_leavesExact hdrop (hb.rename_exact h).1)
    · exact absurd (by simp [Stores.exec, Store.exec, hnone]) hne

theorem wp_checkAndPublish_exact {redis : Redis.Store String} (hb : Built tag redis tables (fun _ => True) 9766 s)
    (h : s.Exact tables) :
    wp fetchingTry (ExactProducers tables) (UpdaterState.Exact tables) (checkAndPublish tag) (fun _ _ => True) s := by
  have hdiff : (checkDiff tag).Everywhere fun o _ => o.Sends LeavesExact :=
    everywhere_checkDiff (leavesExact_diff rfl) (leavesExact_read rfl) (leavesExact_diff rfl)
  unfold checkAndPublish
  simp only [perform_bind]
  refine wp_redis (fun _ _ _ _ _ hm => hm.1)
    (fun s => Built tag redis tables (fun _ => True) 9766 s ∧ s.Exact tables) ⟨hb, h⟩ (fun _ hp => hp.2)
    (fun s t hp he => ⟨hp.1.producers he.1, he.2⟩) (fun _ _ _ hp _ _ => hp) (fun _ _ _ hp _ => ⟨hp.2, trivial⟩)
    fun s hp _ => wp_freeReply (fun _ _ _ _ _ hm => hm.1) ⟨fun _ _ _ _ _ he => he.2, fun _ _ _ _ _ _ => trivial⟩ ?_
  obtain ⟨hb, h⟩ : Built tag redis tables (fun _ => True) 9766 s ∧ s.Exact tables := hp
  split
  · exact wp_publish_exact hb h
  · have hchecked := wp_and (wp_checkDiff (fun _ _ _ _ _ hm => hm.1) (fun _ _ he => he.1) hb) (wp_leavesExact hdiff h)
    refine wp_bind ((hchecked.mono fun ok t hp _ => ?_).weaken fun t hp => hp.2)
    obtain ⟨hb, h⟩ := hp
    cases ok with
    | none => exact ⟨h, trivial⟩
    | some ok =>
      cases ok with
      | false => exact ⟨h, trivial⟩
      | true => exact wp_publish_exact hb h

theorem fetched_all (n : Nat) (s : UpdaterState) (r : List UInt64) (t : UpdaterState)
    (hm : fetchingTry .fetchRows n s (some r) t) : ∀ x, x ∈ r ↔ x ∈ s.result ∧ True := by
  obtain ⟨⟨m, hr, rfl⟩, hleft⟩ := hm
  intro x
  have hleft : s.result.drop m = [] := hleft
  have hall : s.result.take m = s.result := by
    have := List.take_append_drop m s.result
    rwa [hleft, List.append_nil] at this
  rw [Option.some.inj hr, hall, and_true]

variable (tag) in
/-- An update that fetches all rows keeps the bitmaps exact. -/
theorem wp_updateUserInfo_exact (h : s.Exact tables) :
    wp fetchingTry (ExactProducers tables) (UpdaterState.Exact tables) (updateUserInfo tag) (fun _ _ => True) s := by
  have hstart : Building tag s.stores.redis tables s := ⟨h.unchanged, fun _ _ _ _ => rfl⟩
  have hwindows : (updateWindows tag 0).Everywhere fun o _ => o.Sends LeavesExact :=
    everywhere_updateWindows (fun _ _ => leavesExact_temp rfl) 0
  unfold updateUserInfo
  simp only [perform_bind]
  refine wp_redis (fun _ _ _ _ _ hm => hm.1) (fun t => Building tag s.stores.redis tables t ∧ t.Exact tables)
    ⟨hstart, h⟩ (fun _ hp => hp.2) (fun _ _ hp he => ⟨hp.1.producers he.1, he.2⟩)
    (fun _ _ _ hp _ _ => ⟨(hp.1.del fun _ => True).toBuilding, hp.2.exec (leavesExact_temp rfl)⟩)
    (fun _ _ _ hp _ => ⟨hp.2, trivial⟩) fun t hp _ => ?_
  refine wp_freeReply (fun _ _ _ _ _ hm => hm.1) ⟨fun _ _ _ _ _ he => he.2, fun _ _ _ _ _ _ => trivial⟩ (wp_bind ?_)
  have hexact : wp fetchingTry (ExactProducers tables) (UpdaterState.Exact tables) (updateWindows tag 0) (fun _ _ => True)
      (t.exec (.del (genTempKey (userInfoKey tag)))) := wp_leavesExact hwindows (hp.2.exec (leavesExact_temp rfl))
  have hproducers : ∀ s t, ExactProducers tables s t → Producers s t := fun _ _ he => he.1
  have hbuilt := wp_updateWindows (fun _ _ _ _ _ hm => hm.1) fetched_all hproducers 0 (Nat.zero_le _) rfl
    (hp.1.del fun _ => True)
  refine ((wp_and hbuilt hexact).mono fun ok t hp hq => ?_).weaken fun t hp => hp.2
  cases ok with
  | false => exact ⟨hp.2, trivial⟩
  | true => exact wp_checkAndPublish_exact (hq.1.1 rfl) hp.2

end Update

/-! ### The system -/

/-- `UpdateUserInfo` has returned. -/
def Update.returned (u : Update) : Bool :=
  match u.thread.prog with
  | .pure _ => true
  | .call _ _ => false

/-- The next call of the update is `mysql_fetch_row`. -/
def Update.fetches (u : Update) : Bool :=
  match u.thread.prog with
  | .call .fetchRows _ => true
  | _ => false

/-- An update starts when no other one runs. -/
def OneUpdate (s : Audience) : AudienceEvent → Prop
  | .update _ => ∀ u ∈ s.updates, u.returned
  | _ => True

instance (s : Audience) : (e : AudienceEvent) → Decidable (OneUpdate s e)
  | .update _ => inferInstanceAs (Decidable (∀ u ∈ s.updates, u.returned))
  | .start | .process _ _ | .redis _ _ _ | .updater _ | .expire => isTrue trivial

/-- An update that fetches leaves no row of its result set. -/
def Audience.Fetched (s : Audience) : AudienceEvent → Audience → Prop
  | .updater j, t => ∀ u ∈ s.updates[j]?, u.fetches → ∀ v ∈ t.updates[j]?, v.result = []
  | _, _ => True

theorem Thread.step_fetching {u : Update} {w : Stores} {thread : Thread UpdaterOp UpdaterOp.Ret Unit} {c : UpdaterState}
    (h : Thread.Step updaterTry (u.thread, ⟨w, u.result, u.affectedRows⟩) (thread, c))
    (hfetched : u.fetches → c.result = []) :
    Thread.Step fetchingTry (u.thread, ⟨w, u.result, u.affectedRows⟩) (thread, c) := by
  have hall : ∀ {o : UpdaterOp} {k : o.Ret → UpdaterProg Unit} {n : Nat} {s : UpdaterState} {r : Option o.Ret},
      u.thread.prog = .call o k → updaterTry o n s r c → fetchingTry o n s r c := by
    intro o k n s r hprog hm
    refine ⟨hm, ?_⟩
    cases o with
    | fetchRows => exact hfetched (by rw [Update.fetches, hprog])
    | redis | freeReply | mysql | affectedRows | freeResult | time => trivial
  obtain ⟨th, result, affectedRows⟩ := u
  cases h with
  | retry hm => exact .retry (hall rfl hm)
  | ret hm => exact .ret (hall rfl hm)

/-- The update will keep the bitmaps exact. -/
def Update.HoldsExact (tables : String → List UserRow) (w : Stores) (u : Update) : Prop :=
  u.thread.Holds fetchingTry (ExactProducers tables) (UpdaterState.Exact tables) (fun _ _ => True)
    ⟨w, u.result, u.affectedRows⟩

/-- The bitmaps are exact, and the update that runs, if one does, keeps them so. -/
structure Audience.Exact (tables : String → List UserRow) (s : Audience) : Prop where
  stores : s.stores.Exact tables
  updates : ∀ (j : Nat) (u : Update), s.updates[j]? = some u → u.returned ∨ u.HoldsExact tables s.stores
  single : ∀ (j j' : Nat) (u u' : Update), s.updates[j]? = some u → s.updates[j']? = some u' →
    u.returned = false → u'.returned = false → j = j'

namespace Audience.Exact
variable {tables : String → List UserRow} {s t : Audience} {e : AudienceEvent}

theorem init {w : Stores} (h : w.Exact tables) : Exact tables { stores := w } :=
  ⟨h, fun _ _ hu => by simp at hu, fun _ _ _ _ hu => by simp at hu⟩

/-- What the producers do. -/
theorem produces (h : s.Exact tables) {w : Stores} (hw : w.Exact tables) (hp : s.stores.Produces w) (j : Nat) (u : Update)
    (hu : s.updates[j]? = some u) : u.returned ∨ u.HoldsExact tables w :=
  (h.updates j u hu).imp_right fun hh => Thread.Holds.env hh
    ⟨fun _ _ _ _ _ he => he.2, fun _ _ _ _ _ _ => trivial⟩ ⟨⟨w, hp, rfl⟩, hw⟩

/-- A command of a request. -/
theorem redisCommand (h : s.Exact tables) {cmd : RedisCommand} (hcmd : AudienceCommand cmd) {a : Attempt}
    (hbitop : cmd = bitopAudience → a ≠ .lost → s.stores.Published ∨ s.stores.NoUsers) :
    (s.stores.redisCommand cmd a).2.Exact tables ∧ ∀ (j : Nat) (u : Update), s.updates[j]? = some u →
      u.returned ∨ u.HoldsExact tables (s.stores.redisCommand cmd a).2 := by
  have hexec : a ≠ .lost → (s.stores.exec cmd).2.Exact tables ∧ ∀ (j : Nat) (u : Update), s.updates[j]? = some u →
      u.returned ∨ u.HoldsExact tables (s.stores.exec cmd).2 := by
    intro ha
    obtain ⟨startUid, endUid, hcmd⟩ := hcmd
    cases hcmd with
    | existsAudience | getrange => exact ⟨h.stores, h.updates⟩
    | bitop =>
      have hw := h.stores.bitop (hbitop rfl ha)
      exact ⟨hw, h.produces hw .bitop⟩
    | expire => exact ⟨h.stores.expire, h.produces h.stores.expire .expire⟩
  cases a with
  | lost => exact ⟨h.stores, h.updates⟩
  | unheard => exact hexec (by simp)
  | heard => exact hexec (by simp)

theorem updater (h : s.Exact tables) {j : Nat} {u : Update} {thread : Thread UpdaterOp UpdaterOp.Ret Unit}
    {c : UpdaterState} (hu : s.updates[j]? = some u)
    (hstep : Thread.Step updaterTry (u.thread, ⟨s.stores, u.result, u.affectedRows⟩) (thread, c))
    (hfetched : u.fetches → c.result = []) :
    Exact tables { s with stores := c.stores, updates := s.updates.set j ⟨thread, c.result, c.affectedRows⟩ } := by
  have hruns : u.returned = false := by
    obtain ⟨th, result, affectedRows⟩ := u
    cases hstep <;> rfl
  have hholds : u.HoldsExact tables s.stores := (h.updates j u hu).resolve_left (by simp [hruns])
  have hnext : thread.Holds fetchingTry (ExactProducers tables) (UpdaterState.Exact tables) (fun _ _ => True) c :=
    @Thread.Holds.step _ _ _ _ _ _ _ _ (u.thread, _) (thread, c) hholds (Thread.step_fetching hstep hfetched)
  have hstores : UpdaterState.Exact tables c := wp.inv hnext
  refine ⟨hstores, fun j' v hv => ?_, fun j₁ j₂ v₁ v₂ hv₁ hv₂ hr₁ hr₂ => ?_⟩
  · rcases Count.of_getElem?_set hv with ⟨rfl, rfl⟩ | ⟨hne, hv⟩
    · exact Or.inr hnext
    · -- no other update runs
      refine Or.inl ?_
      by_contra hr
      exact hne (h.single j j' u v hu hv hruns (Bool.eq_false_iff.mpr hr))
  · have hold : ∀ {j' : Nat} {v : Update}, (s.updates.set j ⟨thread, c.result, c.affectedRows⟩)[j']? = some v →
        v.returned = false → j' = j := by
      intro j' v hv hr
      rcases Count.of_getElem?_set hv with ⟨rfl, -⟩ | ⟨-, hv⟩
      · rfl
      · exact h.single j' j v u hv hu hr hruns
    rw [hold hv₁ hr₁, hold hv₂ hr₂]

theorem trans (h : s.Exact tables) (hs : AudienceInv s) (hkept : AudienceKept s e) (hone : OneUpdate s e)
    (hfetched : s.Fetched e t) (ht : Audience.Trans s e t) : t.Exact tables := by
  cases ht with
  | @updater j u thread c hu hstep =>
    refine h.updater hu hstep fun hf => ?_
    exact hfetched u hu hf ⟨thread, c.result, c.affectedRows⟩ (List.getElem?_set_self (List.getElem?_eq_some_iff.mp hu).1)
  | step hstep =>
    cases e with
    | start =>
      obtain rfl := Option.some.inj hstep
      exact ⟨h.stores, h.updates, h.single⟩
    | update tag =>
      obtain rfl := Option.some.inj hstep
      refine ⟨h.stores, fun j u hu => ?_, fun j j' u u' hu hu' hr hr' => ?_⟩
      · rcases Count.of_getElem?_snoc hu with hu | ⟨-, rfl⟩
        · exact h.updates j u hu
        · exact Or.inr (wp_updateUserInfo_exact tag h.stores)
      · have hlast : ∀ {j : Nat} {u : Update}, (s.updates ++ [{ thread := ⟨updateUserInfo tag, 0⟩ }])[j]? = some u →
            u.returned = false → j = s.updates.length := by
          intro j u hu hr
          rcases Count.of_getElem?_snoc hu with hu | ⟨rfl, -⟩
          · exact absurd (hone u (List.mem_of_getElem? hu)) (by simp [hr])
          · rfl
        rw [hlast hu hr, hlast hu' hr']
    | process pid e =>
      obtain ⟨p, hp, hstep⟩ := Option.bind_eq_some_iff.mp hstep
      split at hstep
      next => cases hstep
      next =>
        obtain ⟨q, hq, hstep⟩ := Option.bind_eq_some_iff.mp hstep
        obtain rfl := Option.some.inj hstep
        exact ⟨h.stores, h.updates, h.single⟩
    | redis pid i a =>
      obtain ⟨p, hp, hstep⟩ := Option.bind_eq_some_iff.mp hstep
      obtain ⟨x, hi, hstep⟩ := Option.bind_eq_some_iff.mp hstep
      split at hstep
      next cmd hn =>
        obtain ⟨q, hq, hstep⟩ := Option.bind_eq_some_iff.mp hstep
        obtain rfl := Option.some.inj hstep
        obtain ⟨k, hprog⟩ := Handler.prog_of_next hn
        have hcommands := (hs.safe pid p i x hp hi).commands
        rw [hprog] at hcommands
        obtain ⟨hstores, hupdates⟩ := h.redisCommand (a := a) (hcommands.1 cmd rfl) fun heq ha => by
          subst heq
          refine (hkept p hp x hi ?_ ha).1
          rw [Handler.computes, hn]
          rfl
        exact ⟨hstores, hupdates, h.single⟩
      next => cases hstep
    | updater j => cases hstep
    | expire =>
      obtain ⟨entry, hkey, hstep⟩ := Option.bind_eq_some_iff.mp hstep
      split at hstep
      next => cases hstep
      next hexpiry =>
        obtain rfl := Option.some.inj hstep
        have hremoved : s.stores.redis.remove tmpUserInfoKey tmpUserInfoKey = none := Store.remove_self
        have hstores : Stores.Exact tables { s.stores with redis := s.stores.redis.remove tmpUserInfoKey } :=
          h.stores.of_eq rfl (fun tag => Function.update_of_ne (release_ne_tmp tag) _ _) (Or.inr hremoved)
        refine ⟨hstores, h.produces hstores (.expired hkey ?_), h.single⟩
        simpa using hexpiry

end Audience.Exact

end PushSystem
