import PushSystem.Theorems.UserInfoUpdate.Complete
import PushSystem.Theorems.Producer.Uids

/-! Updates and `ProduceMsg` agree on the bitmaps: what the updater encodes for the three tables is decoded as the
    uids that are in all three. -/

namespace PushSystem
open Redis Bitmap Prog

/-! ### Calls that are answered -/

/-- Every call of `ProduceMsg` succeeds at once; `memory` follows a reply. -/
def answerProduce (memory : Nat → Byte) : (o : ProduceMsgOp) → Stores → o.Ret × Stores
  | .redis cmd, w =>
    match (w.exec cmd).1 with
    | .error => (none, w)
    | reply => (some reply, (w.exec cmd).2)
  | .copy str len, w => (copyBytes (str.getD []) len.toNat memory, w)
  | .lock, w | .unlock, w | .freeReply, w | .setWaitForSendCount _, w | .send _, w | .finish, w => ((), w)

/-- A copy that stays inside the reply. -/
theorem copyBytes_of_le {str : List Byte} {len : Nat} (h : len ≤ str.length) (memory : Nat → Byte) :
    copyBytes str len memory = str.take len := by
  refine List.ext_getElem? fun i => ?_
  rw [copyBytes, List.getElem?_map, List.getElem?_take]
  by_cases hi : i < len
  · have hlt : i < str.length := by omega
    simp [hi, hlt]
  · simp [hi]

/-- The audience that the three published bitmaps give. -/
def Stores.audience (w : Stores) : List Byte :=
  w.redis.bitop .and (genReleaseKey (userInfoKey 0)) [genReleaseKey (userInfoKey 1), genReleaseKey (userInfoKey 2)]

section Eval
variable {w : Stores} {bytes : List Byte} {expiry : Option Nat}

theorem exec_bitopAudience (h : w.audience ≠ []) :
    (w.exec bitopAudience).1 = .integer w.audience.length ∧
      (w.exec bitopAudience).2.redis tmpUserInfoKey = some ⟨w.audience, none⟩ := by
  refine ⟨rfl, ?_⟩
  have hne : w.audience.isEmpty = false := by simpa using h
  simp only [Stores.exec, bitopAudience, Store.exec]
  rw [← Stores.audience, hne]
  exact Store.set_self _ _

theorem exec_expireAudience (h : w.redis tmpUserInfoKey = some ⟨bytes, expiry⟩) :
    (w.exec expireAudience).1 = .integer 1 ∧
      (w.exec expireAudience).2.redis tmpUserInfoKey = some ⟨bytes, some (30 * secondsPerMinute)⟩ := by
  simp [Stores.exec, expireAudience, Store.exec, h, Store.set_self]

theorem exec_getrange (h : w.redis tmpUserInfoKey = some ⟨bytes, expiry⟩) (first last : Nat) :
    (w.exec (.getrange tmpUserInfoKey first last)).1 = .str (getRange bytes first last) := by
  simp [Stores.exec, Store.exec, Store.value, h]

variable (memory : Nat → Byte)

/-- Locking and the release of a reply. -/
theorem eval_done {α : Type} {o : ProduceMsgOp} {r : o.Ret} (h : ∀ w, answerProduce memory o w = (r, w))
    (k : o.Ret → ProduceMsgProg α) :
    (Prog.perform o >>= k).eval (answerProduce memory) w = (k r).eval (answerProduce memory) w := by
  rw [perform_bind, eval_call, h]

/-- A command whose answer is known. -/
theorem eval_redis {α : Type} {cmd : RedisCommand} {reply : Reply} (h : (w.exec cmd).1 = reply) (hne : reply ≠ .error)
    (k : Option Reply → ProduceMsgProg α) :
    (ProduceMsgProg.redis cmd >>= k).eval (answerProduce memory) w =
      (k (some reply)).eval (answerProduce memory) (w.exec cmd).2 := by
  subst h
  rw [perform_bind, eval_call]
  simp only [answerProduce]

theorem eval_createTmpUserInfoKey (h : w.audience ≠ []) :
    (createTmpUserInfoKey.eval (answerProduce memory) w).1 = true ∧
      (createTmpUserInfoKey.eval (answerProduce memory) w).2.redis tmpUserInfoKey =
        some ⟨w.audience, some (30 * secondsPerMinute)⟩ := by
  obtain ⟨hbitop, hentry⟩ := exec_bitopAudience h
  obtain ⟨hexpire, hentry'⟩ := exec_expireAudience hentry
  have hlen : ¬w.audience.length ≤ 0 := fun hle => h (List.length_eq_zero_iff.mp (Nat.le_zero.mp hle))
  have heval : createTmpUserInfoKey.eval (answerProduce memory) w =
      (true, ((w.exec bitopAudience).2.exec expireAudience).2) := by
    rw [createTmpUserInfoKey, eval_redis memory hbitop (by simp)]
    show Prog.eval _ (if w.audience.length ≤ 0 then _ else _) _ = _
    rw [if_neg hlen, eval_done memory fun _ => rfl, eval_redis memory hexpire (by simp)]
    simp only [Reply.toInteger, one_ne_zero, if_false]
    rw [eval_done memory fun _ => rfl, pure_def, eval_pure]
  rw [heval]
  exact ⟨rfl, hentry'⟩

theorem eval_readUserInfoStr (h : w.redis tmpUserInfoKey = some ⟨bytes, expiry⟩) (startUid endUid : UInt64) :
    ((readUserInfoStr startUid endUid).eval (answerProduce memory) w).1 =
      some (copyBytes (getRange bytes (startUid / 8).toNat (endUid / 8).toNat)
        (endUid / 8 - startUid / 8 + 1).toNat memory) := by
  have hreply := exec_getrange h (startUid / 8).toNat (endUid / 8).toNat
  rw [readUserInfoStr, eval_redis memory hreply (by simp)]
  simp only [perform_bind, eval_call, pure_def, eval_pure, answerProduce, Reply.toStr, Option.getD_some]

/-- A new audience is computed, and the range is read from it. -/
theorem eval_fetchUserInfoStr (startUid endUid : UInt64) (hnone : w.redis tmpUserInfoKey = none) (hpos : w.audience ≠ []) :
    ((fetchUserInfoStr startUid endUid).eval (answerProduce memory) w).1 =
      some (copyBytes (getRange w.audience (startUid / 8).toNat (endUid / 8).toNat)
        (endUid / 8 - startUid / 8 + 1).toNat memory) := by
  have hexists : (w.exec (.existsKey tmpUserInfoKey)).1 = .integer 0 := by simp [Stores.exec, Store.exec, hnone]
  obtain ⟨hok, hentry⟩ := eval_createTmpUserInfoKey memory hpos
  have heval : (fetchUserInfoStr startUid endUid).eval (answerProduce memory) w =
      (createTmpUserInfoKey >>= fun ok => if !ok then return none else readUserInfoStr startUid endUid :
        ProduceMsgProg (Option (List Byte))).eval (answerProduce memory) w := by
    rw [fetchUserInfoStr, eval_done memory fun _ => rfl, eval_redis memory hexists (by simp)]
    simp only [Reply.toInteger, if_true]
    exact eval_done memory (fun _ => rfl) _
  rw [heval, eval_bind, hok]
  exact eval_readUserInfoStr memory hentry startUid endUid

/-- The audience is there, and the range is read from it. -/
theorem eval_fetchUserInfoStr_of_some (h : w.redis tmpUserInfoKey = some ⟨bytes, expiry⟩) (startUid endUid : UInt64) :
    ((fetchUserInfoStr startUid endUid).eval (answerProduce memory) w).1 =
      some (copyBytes (getRange bytes (startUid / 8).toNat (endUid / 8).toNat)
        (endUid / 8 - startUid / 8 + 1).toNat memory) := by
  have hexists : (w.exec (.existsKey tmpUserInfoKey)).1 = .integer 1 := by simp [Stores.exec, Store.exec, h]
  have heval : (fetchUserInfoStr startUid endUid).eval (answerProduce memory) w =
      (readUserInfoStr startUid endUid).eval (answerProduce memory) w := by
    rw [fetchUserInfoStr, eval_done memory fun _ => rfl, eval_redis memory hexists (by simp)]
    simp only [Reply.toInteger, one_ne_zero, if_false]
    exact eval_done memory (fun _ => rfl) _
  rw [heval]
  exact eval_readUserInfoStr memory h startUid endUid

end Eval

theorem length_getRange_of_inside (startUid : UInt64) {endUid : UInt64} {bytes : List Byte}
    (hin : endUid.toNat / 8 < bytes.length) :
    (getRange bytes (startUid.toNat / 8) (endUid.toNat / 8)).length = endUid.toNat / 8 + 1 - startUid.toNat / 8 := by
  rw [length_getRange]
  omega

/-- A range that ends inside the bitmap is copied as it is. -/
theorem copyBytes_getRange {startUid endUid : UInt64} {bytes : List Byte} (hle : startUid ≤ endUid)
    (hin : endUid.toNat / 8 < bytes.length) (memory : Nat → Byte) :
    copyBytes (getRange bytes (startUid / 8).toNat (endUid / 8).toNat) (endUid / 8 - startUid / 8 + 1).toNat memory =
      getRange bytes (startUid.toNat / 8) (endUid.toNat / 8) := by
  have hlen := length_getRange_of_inside startUid hin
  rw [byteCount_toNat hle, div_eight_toNat, div_eight_toNat, copyBytes_of_le (Nat.le_of_eq hlen.symm), ← hlen,
    List.take_length]

/-! ### The audience of three complete bitmaps -/

/-- The RELEASE keys hold the bitmaps of the three tables. -/
def ReleasesEncode (tables : String → List UserRow) (w : Stores) : Prop :=
  ∀ tag, Encodes tables tag (fun _ => True) 9766 (w.redis.value (genReleaseKey (userInfoKey tag)))

section Audience
variable {tables : String → List UserRow} {w : Stores}

theorem ReleasesEncode.length (h : ReleasesEncode tables w) : w.audience.length = 12500480 := by
  obtain ⟨h₀, h₁, h₂⟩ := forall_tag.mp fun tag => (h tag).length
  simp only [Stores.audience, Store.bitop, List.foldl_cons, List.foldl_nil, length_combine, h₀, h₁, h₂]
  decide

/-- A bit of the audience is set if the uid is in all three tables. -/
theorem ReleasesEncode.testBit (h : ReleasesEncode tables w) (j : Nat) :
    Bitmap.testBit w.audience j ↔ j < 100003840 ∧ ∀ tag, HasUid tables tag j := by
  have hbits : ∀ tag, Bitmap.testBit (w.redis.value (genReleaseKey (userInfoKey tag))) j ↔
      j < 100003840 ∧ HasUid tables tag j := fun tag => ((h tag).bits j).trans (and_congr_right fun _ => fetched_true_iff)
  have hand : w.audience = combine (· &&& ·) (combine (· &&& ·) (w.redis.value (genReleaseKey (userInfoKey 0)))
      (w.redis.value (genReleaseKey (userInfoKey 1)))) (w.redis.value (genReleaseKey (userInfoKey 2))) := rfl
  rw [hand, testBit_combine_and, testBit_combine_and, Bool.and_eq_true, Bool.and_eq_true, hbits, hbits, hbits, forall_tag]
  tauto

/-- What `ProduceMsg` decodes from the audience. -/
theorem ReleasesEncode.uids (h : ReleasesEncode tables w) (memory : Nat → Byte) {startUid endUid : UInt64}
    (hnone : w.redis tmpUserInfoKey = none) (hstart : startUid.toNat % 8 = 0) (hend : endUid.toNat % 8 = 7)
    (hle : startUid ≤ endUid) (hlt : endUid < 100003840) :
    ∃ userInfoStr, ((fetchUserInfoStr startUid endUid).eval (answerProduce memory) w).1 = some userInfoStr ∧
      (uidsToSend startUid userInfoStr).Pairwise (· < ·) ∧
      ∀ uid, uid ∈ uidsToSend startUid userInfoStr ↔
        startUid ≤ uid ∧ uid ≤ endUid ∧ ∀ tag, HasUid tables tag uid.toNat := by
  have hlt : endUid.toNat < 100003840 := UInt64.lt_iff_toNat_lt.mp hlt
  have hlen := h.length
  have hpos : w.audience ≠ [] := fun hnil => by simp [hnil] at hlen
  have hin : endUid.toNat / 8 < w.audience.length := by omega
  have hrange := length_getRange_of_inside startUid hin
  refine ⟨getRange w.audience (startUid.toNat / 8) (endUid.toNat / 8), ?_, ?_⟩
  · rw [eval_fetchUserInfoStr memory startUid endUid hnone hpos, copyBytes_getRange hle hin]
  · rw [UInt64.le_iff_toNat_le] at hle
    have hfits : startUid.toNat + 8 * (getRange w.audience (startUid.toNat / 8) (endUid.toNat / 8)).length ≤ 2 ^ 64 := by
      omega
    obtain ⟨hsorted, hmem⟩ := uidsToSend_of_fits hfits
    refine ⟨hsorted, fun uid => (hmem uid).trans ?_⟩
    rw [testBit_getRange, Bool.and_eq_true, decide_eq_true_eq, h.testBit, UInt64.le_iff_toNat_le,
      UInt64.le_iff_toNat_le]
    constructor
    · rintro ⟨hge, hin, -, hall⟩
      have hbit : 8 * (startUid.toNat / 8) + (uid.toNat - startUid.toNat) = uid.toNat := by omega
      exact ⟨hge, by omega, hbit ▸ hall⟩
    · rintro ⟨hge, hin, hall⟩
      have hbit : 8 * (startUid.toNat / 8) + (uid.toNat - startUid.toNat) = uid.toNat := by omega
      rw [hbit]
      exact ⟨hge, by omega, by omega, hall⟩

end Audience

/-! ### Three updates -/

/-- `UpdateUserInfo` in which no command fails and every row is fetched. -/
def updated (now : UInt64) (tag : Tag) (s : UpdaterState) : UpdaterState :=
  ((updateUserInfo tag).eval (answer List.length now) s).2

section Updated
variable {s : UpdaterState} {tag tag' : Tag} {redis : Redis.Store String} {tables : String → List UserRow}

theorem updated_updated (now : UInt64) (h : AcceptsDiff s tag fun _ => True) :
    Updated tag s.stores.redis s.stores.tables (fun _ => True) (updated now tag s) :=
  eval_updateUserInfo List.length now (fun rows x => by simp) h

theorem release_ne_release (h : tag ≠ tag') : genReleaseKey (userInfoKey tag) ≠ genReleaseKey (userInfoKey tag') := by
  revert tag tag'
  decide +kernel

theorem Updated.encodes (h : Updated tag redis tables (fun _ => True) s) :
    Encodes tables tag (fun _ => True) 9766 (s.stores.redis.value (genReleaseKey (userInfoKey tag))) := by
  obtain ⟨e, he, henc⟩ := h.release
  have hvalue : s.stores.redis.value (genReleaseKey (userInfoKey tag)) = e.bytes := by
    have he : s.stores.redis (genReleaseKey (userInfoKey tag)) = some e := he
    simp [Store.value, he]
  rw [hvalue]
  exact henc

/-- An update leaves the bitmaps of the other tables alone. -/
theorem Updated.release_other (h : Updated tag redis tables (fun _ => True) s) (hne : tag' ≠ tag) :
    s.stores.redis (genReleaseKey (userInfoKey tag')) = redis (genReleaseKey (userInfoKey tag')) :=
  h.frame _ (temp_ne_release tag tag').symm (diff_ne_release tag tag').symm (release_ne_release hne) (release_ne_tmp tag')

theorem acceptsDiff_of_none {F : UInt64 → Prop} (h : s.stores.redis (genReleaseKey (userInfoKey tag)) =
    redis (genReleaseKey (userInfoKey tag))) (hnone : redis (genReleaseKey (userInfoKey tag)) = none) :
    AcceptsDiff s tag F := Or.inl (h.trans hnone)

/-- After one update of each table the three bitmaps are complete. -/
theorem releasesEncode {s₁ s₂ s₃ : UpdaterState} (h₀ : Updated 0 redis tables (fun _ => True) s₁)
    (h₁ : Updated 1 s₁.stores.redis s₁.stores.tables (fun _ => True) s₂)
    (h₂ : Updated 2 s₂.stores.redis s₂.stores.tables (fun _ => True) s₃) : ReleasesEncode tables s₃.stores := by
  have ht₁ := h₀.unchanged
  have ht₂ := h₁.unchanged.trans ht₁
  refine forall_tag.mpr ⟨?_, ?_, ?_⟩
  · rw [Store.value_of_eq ((h₂.release_other (by decide)).trans (h₁.release_other (by decide)))]
    exact h₀.encodes
  · rw [Store.value_of_eq (h₂.release_other (by decide)), ← ht₁]
    exact h₁.encodes
  · rw [← ht₂]
    exact h₂.encodes

end Updated

/-- After one update of each table `ProduceMsg` decodes, in order, the uids of its range that are in all three
    tables, and no window writes past its bitmap. -/
theorem uids_exact {s : UpdaterState} {now₀ now₁ now₂ : UInt64} {memory : Nat → Byte} {startUid endUid : UInt64}
    (h₀ : AcceptsDiff s 0 fun _ => True) (h₁ : AcceptsDiff (updated now₀ 0 s) 1 fun _ => True)
    (h₂ : AcceptsDiff (updated now₁ 1 (updated now₀ 0 s)) 2 fun _ => True) (hstart : startUid.toNat % 8 = 0)
    (hend : endUid.toNat % 8 = 7) (hle : startUid ≤ endUid) (hlt : endUid < 100003840) :
    (∃ userInfoStr,
      ((fetchUserInfoStr startUid endUid).eval (answerProduce memory)
        (updated now₂ 2 (updated now₁ 1 (updated now₀ 0 s))).stores).1 = some userInfoStr ∧
      (uidsToSend startUid userInfoStr).Pairwise (· < ·) ∧
      ∀ uid, uid ∈ uidsToSend startUid userInfoStr ↔
        startUid ≤ uid ∧ uid ≤ endUid ∧ ∀ tag, HasUid s.stores.tables tag uid.toNat) ∧
    ∀ tag (uid : UInt64), ∀ row2Uid ∈ s.stores.rows (genSQL tag uid.toNat),
      (row2Uid - uid).toNat / 8 < countsPerLoop.toNat / 8 := by
  have hu₂ := updated_updated now₂ h₂
  refine ⟨(releasesEncode (updated_updated now₀ h₀) (updated_updated now₁ h₁) hu₂).uids memory hu₂.dropped hstart hend
    hle hlt, fun tag uid row2Uid hrow => ?_⟩
  obtain ⟨-, hge, hlt⟩ := mem_rows_genSQL.mp hrow
  rw [offset_toNat hge]
  simp only [countsPerLoop, UInt64.reduceToNat]
  omega

/-- The user 5 is in all three tables, and nothing has been published. -/
def userFive : UpdaterState := { stores := { tables := fun _ => [⟨5, 1⟩] } }

theorem uids_exact_userFive : ∃ userInfoStr,
    ((fetchUserInfoStr 0 7).eval (answerProduce fun _ => 0)
      (updated 0 2 (updated 0 1 (updated 0 0 userFive))).stores).1 = some userInfoStr ∧
    (5 : UInt64) ∈ uidsToSend 0 userInfoStr := by
  have h₀ : AcceptsDiff userFive 0 fun _ => True := Or.inl rfl
  have hu₀ := updated_updated 0 h₀
  have h₁ : AcceptsDiff (updated 0 0 userFive) 1 fun _ => True :=
    acceptsDiff_of_none (hu₀.release_other (by decide)) rfl
  have hu₁ := updated_updated 0 h₁
  have h₂ : AcceptsDiff (updated 0 1 (updated 0 0 userFive)) 2 fun _ => True :=
    acceptsDiff_of_none ((hu₁.release_other (by decide)).trans (hu₀.release_other (by decide))) rfl
  obtain ⟨⟨userInfoStr, heval, -, hmem⟩, -⟩ := @uids_exact userFive 0 0 0 (fun _ => 0) 0 7 h₀ h₁ h₂ (by decide)
    (by decide) (by decide) (by decide)
  exact ⟨userInfoStr, heval, (hmem 5).mpr ⟨by decide, by decide, fun tag =>
    ⟨⟨5, 1⟩, List.mem_singleton_self _, rfl, fun _ => rfl⟩⟩⟩

end PushSystem
