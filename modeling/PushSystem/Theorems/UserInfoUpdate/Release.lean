import PushSystem.Theorems.UserInfoUpdate.Windows

/-! What is published: wherever an update stops, the RELEASE key is as it was or holds the bitmap of the rows
    that were fetched. -/

namespace PushSystem
open Redis Bitmap Prog

/-- Up to `END_UID` the bits are the uids that were fetched. -/
def BitmapOf (tables : String → List UserRow) (tag : Tag) (F : UInt64 → Prop) (entry : Option Entry) : Prop :=
  ∃ e, entry = some e ∧ ∀ uid ≤ endUid.toNat, (testBit e.bytes uid ↔ Fetched tables tag F uid)

/-- The RELEASE key of the tag. -/
def UpdaterState.release (s : UpdaterState) (tag : Tag) : Option Entry :=
  s.stores.redis (genReleaseKey (userInfoKey tag))

/-- The RELEASE key is as it was or has the uids that were fetched. -/
structure Released (tag : Tag) (old : Option Entry) (tables : String → List UserRow) (F : UInt64 → Prop)
    (s : UpdaterState) : Prop where
  unchanged : s.stores.tables = tables
  release : s.release tag = old ∨ BitmapOf tables tag F (s.release tag)

/-- The RELEASE key has the uids that were fetched. -/
structure Published (tag : Tag) (tables : String → List UserRow) (F : UInt64 → Prop) (s : UpdaterState) : Prop where
  unchanged : s.stores.tables = tables
  complete : BitmapOf tables tag F (s.release tag)

section Updates
variable {tag : Tag} {redis : Redis.Store String} {tables : String → List UserRow} {F : UInt64 → Prop}
variable {s t : UpdaterState} {old : Option Entry}

theorem Building.released (h : Building tag redis tables s) :
    Released tag (redis (genReleaseKey (userInfoKey tag))) tables F s :=
  ⟨h.unchanged, Or.inl (h.frame _ (temp_ne_release tag tag).symm (diff_ne_release tag tag).symm (release_ne_tmp tag))⟩

theorem Published.released (h : Published tag tables F s) (old : Option Entry) : Released tag old tables F s :=
  ⟨h.unchanged, Or.inr h.complete⟩

/-- What has been published stays as long as the key is not written. -/
theorem Published.of_eq (h : Published tag tables F s) (ht : t.stores.tables = s.stores.tables)
    (hkey : ∀ key, key = genReleaseKey (userInfoKey tag) → t.stores.redis key = s.stores.redis key) :
    Published tag tables F t :=
  ⟨ht.trans h.unchanged, by rw [UpdaterState.release, hkey _ rfl]; exact h.complete⟩

theorem Published.producers (h : Published tag tables F s) (he : Producers s t) : Published tag tables F t :=
  h.of_eq he.tables fun _ hk => he.redis (hk ▸ release_ne_tmp tag)

theorem Released.producers (h : Released tag old tables F s) (he : Producers s t) : Released tag old tables F t := by
  have hrelease : t.release tag = s.release tag := he.redis (release_ne_tmp tag)
  exact ⟨he.tables.trans h.unchanged, by rw [hrelease]; exact h.release⟩

/-- The entry that all windows make is complete. -/
theorem Encodes.bitmapOf {e : Entry} (h : Encodes tables tag F 9766 e.bytes) : BitmapOf tables tag F (some e) := by
  refine ⟨e, rfl, fun uid huid => (h.bits uid).trans ⟨fun hb => hb.2, fun hb => ⟨?_, hb⟩⟩⟩
  simp only [endUid, UInt64.reduceToNat] at huid
  omega

/-- The TEMP key exists once it holds a window. -/
theorem Built.exists_temp (h : Built tag redis tables F 9766 s) :
    ∃ e, s.stores.redis (genTempKey (userInfoKey tag)) = some e ∧ Encodes tables tag F 9766 e.bytes := by
  have htemp := h.temp
  have hne : s.stores.redis.value (genTempKey (userInfoKey tag)) ≠ [] := by
    intro hnil
    have := htemp.length
    rw [hnil] at this
    simp at this
  obtain ⟨e, he⟩ := Store.exists_of_value hne
  refine ⟨e, he, ?_⟩
  simpa [Store.value, he] using htemp

/-- Renaming publishes what the windows have built. -/
theorem Built.rename (h : Built tag redis tables F 9766 s) :
    Published tag tables F
        (s.exec (.rename (genTempKey (userInfoKey tag)) (genReleaseKey (userInfoKey tag)))) ∧
      (s.exec (.rename (genTempKey (userInfoKey tag)) (genReleaseKey (userInfoKey tag)))).stores.redis
        (genTempKey (userInfoKey tag)) = none := by
  obtain ⟨e, he, henc⟩ := h.exists_temp
  refine ⟨⟨h.unchanged, ?_⟩, ?_⟩
  · have hrelease : (s.exec (.rename (genTempKey (userInfoKey tag)) (genReleaseKey (userInfoKey tag)))).release tag =
        some e := by
      simp [UpdaterState.release, UpdaterState.exec, Stores.exec, Store.exec, he]
    rw [hrelease]
    exact henc.bitmapOf
  · simp [UpdaterState.exec, Stores.exec, Store.exec, he, Store.remove, temp_ne_release]

variable {M : Machine UpdaterOp UpdaterOp.Ret UpdaterState} {E : UpdaterState → UpdaterState → Prop}
variable (hM : ∀ o n s r t, M o n s r t → updaterTry o n s r t) (hE : ∀ s t, E s t → Producers s t)
include hM hE

/-- What follows the `RENAME` leaves the RELEASE key alone. -/
theorem wp_recordAndDrop (h : Published tag tables F s) :
    wp M E (Published tag tables F) (recordAndDrop tag) (fun _ _ => True) s := by
  have hdel : ∀ key ∈ (Command.del tmpUserInfoKey).writes, key ≠ genReleaseKey (userInfoKey tag) :=
    fun key hk => List.mem_singleton.mp hk ▸ (release_ne_tmp tag).symm
  refine wp_of_everywhere (fun s t hp he => hp.producers (hE s t he))
    (fun o n s r t ho hp hm => updaterTry_keeps (fun _ _ hp ht hkey => hp.of_eq ht hkey) ho hp (hM o n s r t hm)) ?_ h
  exact everywhere_recordAndDrop (R := fun cmd => ∀ key ∈ cmd.writes, key ≠ genReleaseKey (userInfoKey tag)) hdel

theorem wp_publish (h : Built tag redis tables F 9766 s) :
    wp M E (Released tag (redis (genReleaseKey (userInfoKey tag))) tables F) (publish tag) (fun _ _ => True) s := by
  unfold publish
  simp only [perform_bind]
  refine wp_redis hM (fun s => Built tag redis tables F 9766 s ∨
      Published tag tables F s ∧ s.stores.redis (genTempKey (userInfoKey tag)) = none) (Or.inl h)
    (fun s hp => hp.elim (fun hb => hb.toBuilding.released) fun hp => hp.1.released _) (fun s t hp he => ?_)
    (fun n s r hp _ _ => ?_) (fun n s t hp _ => ?_) fun s hp hne => ?_
  · have hprod := hE s t he
    exact hp.imp (fun hb => hb.producers hprod) fun hp =>
      ⟨hp.1.producers hprod, (hprod.redis (temp_ne_tmp tag)).trans hp.2⟩
  · -- executed once more, `RENAME` finds no TEMP key and changes nothing
    rcases hp with hb | hp
    · exact Or.inr hb.rename
    · refine Or.inr ?_
      have hsame : s.exec (.rename (genTempKey (userInfoKey tag)) (genReleaseKey (userInfoKey tag))) = s := by
        simp [UpdaterState.exec, Stores.exec, Store.exec, hp.2]
      rw [hsame]
      exact hp
  · exact ⟨hp.elim (fun hb => hb.toBuilding.released) fun hp => hp.1.released _, trivial⟩
  · rcases hp with hb | hp
    · have hrest := (wp_recordAndDrop hM hE hb.rename.1).weaken
        fun s hp => hp.released (redis (genReleaseKey (userInfoKey tag)))
      exact wp_freeReply hM ⟨fun _ s t hp _ he => hp.producers (hE s t he), fun _ _ _ _ _ _ => trivial⟩ hrest
    · exact absurd (by simp [Stores.exec, Store.exec, hp.2]) hne

theorem wp_checkDiff (h : Built tag redis tables F 9766 s) :
    wp M E (Built tag redis tables F 9766) (checkDiff tag) (fun _ _ => True) s := by
  refine wp_of_everywhere (fun s t hb he => hb.producers (hE s t he))
    (fun o n s r t ho hb hm => updaterTry_keeps (fun _ _ hb ht hkey => hb.of_eq ht hkey) ho hb (hM o n s r t hm)) ?_ h
  have hdiff : ∀ key ∈ [genDiffKey (userInfoKey tag)],
      ¬(key ≠ genDiffKey (userInfoKey tag) ∧ key ≠ tmpUserInfoKey) := fun key hk hne => hne.1 (List.mem_singleton.mp hk)
  refine ⟨hdiff, fun reply => ?_⟩
  cases reply with
  | none => trivial
  | some =>
    refine ⟨trivial, fun _ => ⟨fun key hk => (List.not_mem_nil hk).elim, fun reply => ?_⟩⟩
    cases reply with
    | none => trivial
    | some => exact ⟨trivial, fun _ => ⟨hdiff, fun _ => ⟨trivial, fun _ => trivial⟩⟩⟩

theorem wp_checkAndPublish (h : Built tag redis tables F 9766 s) :
    wp M E (Released tag (redis (genReleaseKey (userInfoKey tag))) tables F) (checkAndPublish tag)
      (fun _ _ => True) s := by
  have hkeeps : Keeps E (Released tag (redis (genReleaseKey (userInfoKey tag))) tables F) fun (_ : Unit) _ => True :=
    ⟨fun _ s t hp _ he => hp.producers (hE s t he), fun _ _ _ _ _ _ => trivial⟩
  unfold checkAndPublish
  simp only [perform_bind]
  refine wp_redis hM (Built tag redis tables F 9766) h (fun s hb => hb.toBuilding.released)
    (fun s t hb he => hb.producers (hE s t he)) (fun n s r hb _ _ => hb)
    (fun n s t hb _ => ⟨hb.toBuilding.released, trivial⟩) fun t hb _ => wp_freeReply hM hkeeps ?_
  have hpublish := wp_publish hM hE hb
  split
  · exact hpublish
  · refine wp_bind (((wp_checkDiff hM hE hb).mono fun ok t hb _ => ?_).weaken fun t hb => hb.toBuilding.released)
    cases ok with
    | none => exact ⟨hb.toBuilding.released, trivial⟩
    | some ok =>
      cases ok with
      | false => exact ⟨hb.toBuilding.released, trivial⟩
      | true => exact wp_publish hM hE hb

variable (tag) in
/-- An update keeps the RELEASE key or completes it with what was fetched. -/
theorem wp_updateUserInfo (hfetch : ∀ n s r t, M .fetchRows n s (some r) t → ∀ x, x ∈ r ↔ x ∈ s.result ∧ F x)
    (s : UpdaterState) :
    wp M E (Released tag (s.release tag) s.stores.tables F) (updateUserInfo tag) (fun _ _ => True) s := by
  have hkeeps : Keeps E (Released tag (s.release tag) s.stores.tables F) fun (_ : Unit) _ => True :=
    ⟨fun _ s t hp _ he => hp.producers (hE s t he), fun _ _ _ _ _ _ => trivial⟩
  have hstart : Building tag s.stores.redis s.stores.tables s := ⟨rfl, fun _ _ _ _ => rfl⟩
  unfold updateUserInfo
  simp only [perform_bind]
  refine wp_redis hM (Building tag s.stores.redis s.stores.tables) hstart (fun s hb => hb.released)
    (fun s t hb he => hb.producers (hE s t he)) (fun n s r hb _ _ => (hb.del F).toBuilding)
    (fun n s t hb _ => ⟨hb.released, trivial⟩) fun t hb _ => ?_
  refine wp_freeReply hM hkeeps (wp_bind ?_)
  refine ((wp_updateWindows hM hfetch hE 0 (Nat.zero_le _) rfl (hb.del F)).mono fun ok t hb hq => ?_).weaken
    fun t hb => hb.released
  cases ok with
  | false => exact ⟨hb.released, trivial⟩
  | true => exact wp_checkAndPublish hM hE (hq.1 rfl)

end Updates

end PushSystem
