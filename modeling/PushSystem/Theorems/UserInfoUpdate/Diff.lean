import Mathlib.Algebra.Order.Field.Basic
import Mathlib.Algebra.Order.Ring.Rat
import PushSystem.Theorems.UserInfoUpdate.Complete

/-! The check of a new bitmap against the published one: whatever fails, a bitmap that is published stays as it is or
    gives way to one that differs from it for fewer than `END_UID` users. -/

namespace PushSystem
open Redis Bitmap Prog

/-- The bitmaps differ in fewer than `END_UID` bits. -/
def Near (a b : List Byte) : Prop :=
  ∃ uids : List Nat, uids.Nodup ∧ uids.length < endUid.toNat ∧ ∀ uid, uid ∈ uids ↔ testBit a uid ≠ testBit b uid

theorem acceptsDiff_iff {bitcounts : UInt32} : acceptsDiff bitcounts = true ↔ bitcounts.toNat < endUid.toNat := by
  have hpos : (0 : ℚ) < (endUid.toNat : ℚ) := by
    rw [Nat.cast_pos]
    decide
  rw [acceptsDiff, decide_eq_true_iff, diffPercentage, div_lt_iff₀ hpos, mul_comm, mul_lt_mul_iff_right₀ (by norm_num),
    Nat.cast_lt]

/-- The count is taken in 32 bits, which are enough for strings of less than 512 MB. -/
theorem near_of_accepts {a b : List Byte} (ha : a.length < 2 ^ 29) (hb : b.length < 2 ^ 29)
    (h : acceptsDiff (UInt32.ofNat (bitCount (combine (· ^^^ ·) a b))) = true) : Near a b := by
  obtain ⟨uids, hnodup, hlen, hmem⟩ := exists_differing a b
  have hcount := bitCount_le (combine (· ^^^ ·) a b)
  rw [length_combine] at hcount
  have hsmall : bitCount (combine (· ^^^ ·) a b) < 2 ^ 32 := by omega
  rw [acceptsDiff_iff, UInt32.toNat_ofNat', Nat.mod_eq_of_lt hsmall, ← hlen] at h
  exact ⟨uids, hnodup, h, hmem⟩

/-- The value of the TEMP key. -/
def UpdaterState.temp (s : UpdaterState) (tag : Tag) : List Byte := s.stores.redis.value (genTempKey (userInfoKey tag))

/-- The RELEASE key holds the old entry or one near it. -/
def Gated (tag : Tag) (old : Entry) (s : UpdaterState) : Prop :=
  s.release tag = some old ∨ ∃ e, s.release tag = some e ∧ Near old.bytes e.bytes

/-- Nothing is published yet, and the new bitmap is short. -/
structure Unpublished (tag : Tag) (old : Entry) (s : UpdaterState) : Prop where
  release : s.release tag = some old
  short : (s.temp tag).length < 2 ^ 29

/-- Nothing is published yet, and the new bitmap may be if `ok`. -/
structure Compared (tag : Tag) (old : Entry) (ok : Bool) (s : UpdaterState) : Prop extends Unpublished tag old s where
  near : ok = true → Near old.bytes (s.temp tag)

section Diff
variable {tag : Tag} {old : Entry} {ok : Bool} {s t : UpdaterState}

/-- The keys that count here. -/
def Kept (tag : Tag) (key : String) : Prop := key = genReleaseKey (userInfoKey tag) ∨ key = genTempKey (userInfoKey tag)

theorem Gated.of_eq (h : Gated tag old s) (hkey : ∀ key, Kept tag key → t.stores.redis key = s.stores.redis key) :
    Gated tag old t := by
  have hrelease : t.release tag = s.release tag := hkey _ (Or.inl rfl)
  rwa [Gated, hrelease]

theorem Unpublished.of_eq (h : Unpublished tag old s)
    (hkey : ∀ key, Kept tag key → t.stores.redis key = s.stores.redis key) : Unpublished tag old t := by
  have htemp : t.temp tag = s.temp tag := Store.value_of_eq (hkey _ (Or.inr rfl))
  exact ⟨(hkey _ (Or.inl rfl)).trans h.release, htemp ▸ h.short⟩

theorem Compared.of_eq (h : Compared tag old ok s)
    (hkey : ∀ key, Kept tag key → t.stores.redis key = s.stores.redis key) : Compared tag old ok t := by
  have htemp : t.temp tag = s.temp tag := Store.value_of_eq (hkey _ (Or.inr rfl))
  exact ⟨h.toUnpublished.of_eq hkey, fun hok => htemp ▸ h.near hok⟩

/-- The producers leave the keys alone. -/
theorem Producers.kept (he : Producers s t) {key : String} (hk : Kept tag key) :
    t.stores.redis key = s.stores.redis key := by
  rcases hk with rfl | rfl
  · exact he.redis (release_ne_tmp tag)
  · exact he.redis (temp_ne_tmp tag)

theorem Unpublished.gated (h : Unpublished tag old s) : Gated tag old s := Or.inl h.release

theorem keeps_gated : Keeps Producers (Gated tag old) fun (_ : Unit) _ => True :=
  ⟨fun _ _ _ hg _ he => hg.of_eq fun _ hk => he.kept hk, fun _ _ _ _ _ _ => trivial⟩

/-- What the check writes is kept apart. -/
theorem not_mem_of_kept {key : String} (hk : Kept tag key) : key ∉ [genDiffKey (userInfoKey tag)] := by
  intro hmem
  obtain rfl := List.mem_singleton.mp hmem
  rcases hk with hk | hk
  · exact diff_ne_release tag tag hk
  · exact temp_ne_diff tag tag hk.symm

/-! ### The windows -/

theorem length_windowBitmap (uid : UInt64) (rows : List UInt64) : (windowBitmap uid rows).length = 1280 := by
  have hfold : ∀ bytes : List Byte,
      (rows.foldl (fun bitmap row2Uid => setBit bitmap (row2Uid - uid).toNat) bytes).length =
      bytes.length := by
    induction rows with
    | nil => exact fun _ => rfl
    | cons x rows ih => exact fun bytes => (ih _).trans length_setBit
  exact (hfold _).trans List.length_replicate

theorem Unpublished.setrange (h : Unpublished tag old s) {uid : UInt64} (huid : uid.toNat ≤ endUid.toNat)
    (rows : List UInt64) :
    Unpublished tag old
      (s.exec (.setrange (genTempKey (userInfoKey tag)) (uid.toNat / 8) (windowBitmap uid rows))) := by
  have hempty : (windowBitmap uid rows).isEmpty = false := by
    rw [List.isEmpty_eq_false_iff, ← List.length_pos_iff, length_windowBitmap]
    decide
  have htemp : (s.exec (.setrange (genTempKey (userInfoKey tag)) (uid.toNat / 8) (windowBitmap uid rows))).temp tag =
      setRange (s.temp tag) (uid.toNat / 8) (windowBitmap uid rows) := by
    simp [UpdaterState.temp, UpdaterState.exec, Stores.exec, Store.exec, hempty]
  refine ⟨(Stores.exec_of_not_mem ?_).trans h.release, ?_⟩
  · exact fun hmem => temp_ne_release tag tag (List.mem_singleton.mp hmem).symm
  · have hshort := h.short
    simp only [endUid, UInt64.reduceToNat] at huid
    rw [htemp, length_setRange, length_windowBitmap]
    omega

/-- A window that the loop writes. -/
def WindowCommand (tag : Tag) (cmd : RedisCommand) : Prop := ∃ (uid : UInt64) (rows : List UInt64),
  uid.toNat ≤ endUid.toNat ∧ cmd = .setrange (genTempKey (userInfoKey tag)) (uid.toNat / 8) (windowBitmap uid rows)

theorem Unpublished.window {o : UpdaterOp} {n : Nat} {r : Option o.Ret} (ho : o.Sends (WindowCommand tag))
    (h : Unpublished tag old s) (hm : updaterTry o n s r t) : Unpublished tag old t := by
  cases o with
  | redis cmd =>
    obtain ⟨uid, rows, huid, rfl⟩ := ho
    rcases hm with ⟨-, -, rfl⟩ | ⟨a, -, rfl⟩
    · exact h
    · cases a with
      | lost => exact h
      | unheard | heard => exact h.setrange huid rows
  | freeReply | mysql | fetchRows | affectedRows | freeResult | time =>
    refine updaterTry_keeps (P := Kept tag) (fun _ _ h _ hkey => h.of_eq hkey) ?_ h hm
    trivial

theorem wp_updateWindows_short (h : Unpublished tag old s) :
    wp updaterTry Producers (Unpublished tag old) (updateWindows tag 0) (fun _ _ => True) s :=
  wp_of_everywhere (fun _ _ h he => h.of_eq fun _ hk => he.kept hk) (fun _ _ _ _ _ ho h hm => h.window ho hm)
    (everywhere_updateWindows_of (R := WindowCommand tag) (fun uid rows huid => ⟨uid, rows, huid, rfl⟩) 0) h

/-! ### The check -/

theorem Compared.keeps : Keeps Producers (Unpublished tag old) fun (ok : Option Bool) t =>
    Compared tag old (ok == some true) t :=
  ⟨fun _ _ _ h _ he => h.of_eq fun _ hk => he.kept hk, fun _ _ _ _ h he => h.of_eq fun _ hk => he.kept hk⟩

theorem Unpublished.compared (h : Unpublished tag old s) : Compared tag old false s := ⟨h, by simp⟩

/-- `BITOP XOR` leaves in the DIFF key what tells the two bitmaps apart. -/
theorem Unpublished.xor (h : Unpublished tag old s) :
    (s.exec (.bitop .xor (genDiffKey (userInfoKey tag)) (genReleaseKey (userInfoKey tag))
      [genTempKey (userInfoKey tag)])).stores.redis.value (genDiffKey (userInfoKey tag)) =
      combine (· ^^^ ·) old.bytes (s.temp tag) := by
  have hrelease : s.stores.redis.value (genReleaseKey (userInfoKey tag)) = old.bytes := by
    have := h.release
    rw [UpdaterState.release] at this
    simp [Store.value, this]
  rw [UpdaterState.temp, ← hrelease]
  exact Store.value_bitop _ _ _ _ _

/-- The count of the DIFF key decides whether the two bitmaps are near. -/
theorem Unpublished.counted (h : Unpublished tag old s) (hold : old.bytes.length < 2 ^ 29)
    (hdiff : s.stores.redis.value (genDiffKey (userInfoKey tag)) = combine (· ^^^ ·) old.bytes (s.temp tag)) :
    Compared tag old (acceptsDiff (UInt32.ofNat (bitCount (s.stores.redis.value (genDiffKey (userInfoKey tag)))))) s :=
  ⟨h, fun hok => near_of_accepts hold h.short (hdiff ▸ hok)⟩

/-- The end of the check. -/
theorem wp_dropDiff (h : Compared tag old ok s) : wp updaterTry Producers (Unpublished tag old)
    (.call (.redis (.del (genDiffKey (userInfoKey tag)))) fun _ => .call .freeReply fun _ => .pure (some ok) :
      UpdaterProg (Option Bool)) (fun ok t => Compared tag old (ok == some true) t) s := by
  have hdel : ∀ (s : UpdaterState) key, Kept tag key →
      (s.exec (.del (genDiffKey (userInfoKey tag)))).stores.redis key = s.stores.redis key :=
    fun s key hk => Stores.exec_of_not_mem fun hmem => not_mem_of_kept hk hmem
  have hdone : ∀ t, Compared tag old ok t → wp updaterTry Producers (Unpublished tag old)
      (.call .freeReply fun _ => .pure (some ok) : UpdaterProg (Option Bool))
      (fun ok t => Compared tag old (ok == some true) t) t := by
    intro t ht
    have hok : (some ok == some true) = ok := by cases ok <;> rfl
    refine wp_freeReply (fun _ _ _ _ _ hm => hm) Compared.keeps ⟨ht.toUnpublished, ?_⟩
    show Compared tag old (some ok == some true) t
    rw [hok]
    exact ht
  exact wp_redis (fun _ _ _ _ _ hm => hm) (Compared tag old ok) h (fun _ h => h.toUnpublished)
    (fun _ _ h he => h.of_eq fun _ hk => he.kept hk) (fun _ s _ h _ _ => h.of_eq (hdel s)) (fun _ _ _ h _ => hdone _ h)
    fun s h _ => hdone _ (h.of_eq (hdel s))

/-- What the check accepts is near the old bitmap. -/
theorem wp_checkDiff_near (hold : old.bytes.length < 2 ^ 29) (h : Unpublished tag old s) :
    wp updaterTry Producers (Unpublished tag old) (checkDiff tag)
      (fun ok t => Compared tag old (ok == some true) t) s := by
  have henv : ∀ s t, Unpublished tag old s → Producers s t → Unpublished tag old t :=
    fun _ _ h he => h.of_eq fun _ hk => he.kept hk
  have hkept : ∀ (s : UpdaterState) key, Kept tag key → (s.exec (.bitop .xor (genDiffKey (userInfoKey tag))
      (genReleaseKey (userInfoKey tag)) [genTempKey (userInfoKey tag)])).stores.redis key = s.stores.redis key :=
    fun s key hk => Stores.exec_of_not_mem fun hmem => not_mem_of_kept hk hmem
  unfold checkDiff
  simp only [perform_bind]
  refine wp_redis (fun _ _ _ _ _ hm => hm) (Unpublished tag old) h (fun _ h => h) henv
    (fun _ s _ h _ _ => h.of_eq (hkept s)) (fun _ _ _ h _ => ⟨h, h.compared⟩) fun s h _ => ?_
  have hxor := h.xor
  have hkept' := hkept s
  generalize s.exec (.bitop .xor (genDiffKey (userInfoKey tag)) (genReleaseKey (userInfoKey tag))
    [genTempKey (userInfoKey tag)]) = s' at hxor hkept' ⊢
  have htemp : s'.temp tag = s.temp tag := Store.value_of_eq (hkept' _ (Or.inr rfl))
  rw [← htemp] at hxor
  refine wp_freeReply (fun _ _ _ _ _ hm => hm) Compared.keeps ?_
  -- the DIFF key stays as it is until it has been counted
  refine wp_redis (fun _ _ _ _ _ hm => hm)
    (fun s => Unpublished tag old s ∧
      s.stores.redis.value (genDiffKey (userInfoKey tag)) = combine (· ^^^ ·) old.bytes (s.temp tag))
    ⟨h.of_eq hkept', hxor⟩ (fun _ h => h.1) (fun s t h he => ⟨henv s t h.1 he, ?_⟩) (fun _ _ _ h _ _ => h)
    (fun _ _ _ h _ => ⟨h.1, h.1.compared⟩) fun s h _ => ?_
  · have htemp : t.temp tag = s.temp tag := Store.value_of_eq (he.kept (Or.inr rfl))
    rw [htemp, ← h.2]
    exact Store.value_of_eq (he.redis (diff_ne_tmp tag))
  have hcounted : Compared tag old
      (acceptsDiff (UInt32.ofNat (s.stores.exec (.bitcount (genDiffKey (userInfoKey tag)))).1.toInteger)) s :=
    h.1.counted hold h.2
  generalize (s.stores.exec (.bitcount (genDiffKey (userInfoKey tag)))).1 = reply at hcounted ⊢
  exact wp_freeReply (fun _ _ _ _ _ hm => hm) Compared.keeps (wp_dropDiff hcounted)

/-! ### Publishing -/

theorem wp_recordAndDrop_gated (h : Gated tag old s) :
    wp updaterTry Producers (Gated tag old) (recordAndDrop tag) (fun _ _ => True) s := by
  have hdel : ∀ key ∈ (Command.del tmpUserInfoKey).writes, ¬Kept tag key := by
    intro key hmem hk
    obtain rfl := List.mem_singleton.mp hmem
    rcases hk with hk | hk
    · exact release_ne_tmp tag hk.symm
    · exact temp_ne_tmp tag hk.symm
  refine wp_of_everywhere (fun _ _ h he => h.of_eq fun _ hk => he.kept hk)
    (fun _ _ _ _ _ ho h hm => updaterTry_keeps (P := Kept tag) (fun _ _ h _ hkey => h.of_eq hkey) ho h hm) ?_ h
  exact everywhere_recordAndDrop (R := fun cmd => ∀ key ∈ cmd.writes, ¬Kept tag key) hdel

/-- `RENAME` publishes a bitmap that the check has accepted, and takes it from the TEMP key. -/
theorem Compared.rename (h : Compared tag old true s)
    (htemp : s.stores.redis (genTempKey (userInfoKey tag)) ≠ none) :
    Gated tag old (s.exec (.rename (genTempKey (userInfoKey tag)) (genReleaseKey (userInfoKey tag)))) ∧
      (s.exec (.rename (genTempKey (userInfoKey tag)) (genReleaseKey (userInfoKey tag)))).stores.redis
        (genTempKey (userInfoKey tag)) = none := by
  obtain ⟨e, he⟩ := Option.ne_none_iff_exists'.mp htemp
  refine ⟨Or.inr ⟨e, ?_, ?_⟩, ?_⟩
  · simp [UpdaterState.release, UpdaterState.exec, Stores.exec, Store.exec, he]
  · have hbytes : s.temp tag = e.bytes := by simp [UpdaterState.temp, Store.value, he]
    exact hbytes ▸ h.near rfl
  · simp [UpdaterState.exec, Stores.exec, Store.exec, he, Store.remove, temp_ne_release]

/-- Without a TEMP key there is nothing to rename. -/
theorem rename_of_none (htemp : s.stores.redis (genTempKey (userInfoKey tag)) = none) :
    (s.stores.exec (.rename (genTempKey (userInfoKey tag)) (genReleaseKey (userInfoKey tag)))).1 = .error ∧
      s.exec (.rename (genTempKey (userInfoKey tag)) (genReleaseKey (userInfoKey tag))) = s := by
  simp [UpdaterState.exec, Stores.exec, Store.exec, htemp]

theorem wp_publish_gated (h : Compared tag old true s) :
    wp updaterTry Producers (Gated tag old) (publish tag) (fun _ _ => True) s := by
  unfold publish
  simp only [perform_bind]
  refine wp_redis (fun _ _ _ _ _ hm => hm)
    (fun s => Compared tag old true s ∨ Gated tag old s ∧ s.stores.redis (genTempKey (userInfoKey tag)) = none)
    (Or.inl h) (fun s hp => hp.elim (fun h => h.gated) fun h => h.1) (fun s t hp he => ?_) (fun n s r hp _ _ => ?_)
    (fun n s t hp _ => ⟨hp.elim (fun h => h.gated) fun h => h.1, trivial⟩) fun s hp hne => ?_
  · exact hp.imp (fun h => h.of_eq fun _ hk => he.kept hk) fun h =>
      ⟨h.1.of_eq fun _ hk => he.kept hk, (he.kept (Or.inr rfl)).trans h.2⟩
  · cases htemp : s.stores.redis (genTempKey (userInfoKey tag)) with
    | none =>
      rw [(rename_of_none htemp).2]
      exact hp
    | some e =>
      rcases hp with h | h
      · exact Or.inr (h.rename (by simp [htemp]))
      · rw [h.2] at htemp
        cases htemp
  · cases htemp : s.stores.redis (genTempKey (userInfoKey tag)) with
    | none => exact absurd (rename_of_none htemp).1 hne
    | some e =>
      rcases hp with h | h
      · have hgated := (h.rename (by simp [htemp])).1
        exact wp_freeReply (fun _ _ _ _ _ hm => hm) keeps_gated (wp_recordAndDrop_gated hgated)
      · rw [h.2] at htemp
        cases htemp

theorem wp_checkAndPublish_gated (hold : old.bytes.length < 2 ^ 29) (h : Unpublished tag old s) :
    wp updaterTry Producers (Gated tag old) (checkAndPublish tag) (fun _ _ => True) s := by
  unfold checkAndPublish
  simp only [perform_bind]
  refine wp_redis (fun _ _ _ _ _ hm => hm) (Unpublished tag old) h (fun _ h => h.gated)
    (fun _ _ h he => h.of_eq fun _ hk => he.kept hk) (fun _ _ _ h _ _ => h) (fun _ _ _ h _ => ⟨h.gated, trivial⟩)
    fun s h _ => wp_freeReply (fun _ _ _ _ _ hm => hm) keeps_gated ?_
  -- the RELEASE key exists, and the new bitmap is checked
  have hreply : (s.stores.exec (.existsKey (genReleaseKey (userInfoKey tag)))).1.toInteger = 1 := by
    have hrelease : s.stores.redis (genReleaseKey (userInfoKey tag)) = some old := h.release
    simp [Stores.exec, Store.exec, Reply.toInteger, hrelease]
  rw [hreply, if_neg Nat.one_ne_zero]
  refine wp_bind (((wp_checkDiff_near hold h).mono fun ok t ht hnear => ?_).weaken fun _ h => h.gated)
  cases ok with
  | none => exact ⟨ht.gated, trivial⟩
  | some ok =>
    cases ok with
    | false => exact ⟨ht.gated, trivial⟩
    | true => exact wp_publish_gated hnear

theorem wp_updateUserInfo_gated (hold : old.bytes.length < 2 ^ 29) (h : s.release tag = some old) :
    wp updaterTry Producers (Gated tag old) (updateUserInfo tag) (fun _ _ => True) s := by
  have hdel : ∀ s : UpdaterState, (s.exec (.del (genTempKey (userInfoKey tag)))).release tag = s.release tag :=
    fun s => Stores.exec_of_not_mem fun hmem => temp_ne_release tag tag (List.mem_singleton.mp hmem).symm
  unfold updateUserInfo
  simp only [perform_bind]
  refine wp_redis (fun _ _ _ _ _ hm => hm) (fun s => s.release tag = some old) h (fun _ h => Or.inl h)
    (fun s t h he => (he.kept (Or.inl rfl)).trans h) (fun _ s _ h _ _ => (hdel s).trans h)
    (fun _ _ _ h _ => ⟨Or.inl h, trivial⟩) fun s h _ => wp_freeReply (fun _ _ _ _ _ hm => hm) keeps_gated ?_
  have hstart : Unpublished tag old (s.exec (.del (genTempKey (userInfoKey tag)))) := by
    have htemp : (s.exec (.del (genTempKey (userInfoKey tag)))).temp tag = [] := Store.value_remove_self
    exact ⟨(hdel s).trans h, htemp ▸ Nat.two_pow_pos 29⟩
  refine wp_bind (((wp_updateWindows_short hstart).mono fun ok t ht _ => ?_).weaken fun _ h => h.gated)
  cases ok with
  | false => exact ⟨ht.gated, trivial⟩
  | true => exact wp_checkAndPublish_gated hold ht

/-- Whatever fails, at every moment of an update a bitmap that was published is published still, or the published one
    differs from it for fewer than `END_UID` users. -/
theorem release_near {th : Thread UpdaterOp UpdaterOp.Ret Unit} (hold : s.release tag = some old)
    (hshort : old.bytes.length < 2 ^ 29) (h : Reaches updaterTry Producers (updateUserInfo tag) s th t) :
    t.release tag = some old ∨ ∃ e, t.release tag = some e ∧ Near old.bytes e.bytes :=
  (h.holds (wp_updateUserInfo_gated hshort hold) keeps_gated).inv

end Diff

/-- The official fan 0 is published, and no user is left in the table. -/
def lastFan : UpdaterState :=
  { stores := { redis := fun key => if key = genReleaseKey (userInfoKey 0) then some ⟨[0x80], none⟩ else none } }

theorem acceptsDiff_lastFan : AcceptsDiff lastFan 0 fun _ => True := by
  refine Or.inr fun bytes henc => ?_
  have hvalue : lastFan.stores.redis.value (genReleaseKey (userInfoKey 0)) = [0x80] := by
    simp [Store.value, lastFan]
  have hbits : ∀ i, testBit (combine (· ^^^ ·) [0x80] bytes) i → i < 8 := by
    intro i hi
    have hnew : testBit bytes i = false := by
      by_contra hbit
      obtain ⟨-, row, hrow, -⟩ := (henc.bits i).mp (by simpa using hbit)
      cases hrow
    rw [testBit_combine_xor, hnew, Bool.xor_false] at hi
    by_contra hge
    rw [testBit_eq_false (by simpa using hge)] at hi
    cases hi
  have hcount := bitCount_le_of hbits
  rw [hvalue, acceptsDiff_iff, UInt32.toNat_ofNat', Nat.mod_eq_of_lt (by omega)]
  exact Nat.lt_of_le_of_lt hcount (by decide)

theorem release_near_lastFan : ∃ t, Returns updaterTry Producers (updateUserInfo 0) lastFan () t ∧
    t.release 0 ≠ some ⟨[0x80], none⟩ ∧
    (t.release 0 = some ⟨[0x80], none⟩ ∨ ∃ e, t.release 0 = some e ∧ Near [0x80] e.bytes) := by
  have hrun := returns_eval_unit (E := Producers) (updaterTry_answer List.length 0) (updateUserInfo 0) lastFan
  obtain ⟨e, he, henc⟩ := (eval_updateUserInfo List.length 0 (fun rows x => by simp) acceptsDiff_lastFan).release
  refine ⟨_, hrun, ?_, release_near rfl (by decide) hrun⟩
  rw [he]
  intro hsame
  have hlen := henc.length
  rw [Option.some.inj hsame] at hlen
  simp at hlen

end PushSystem
