import Mathlib.Data.Nat.Find
import PushSystem.Theorems.Daemon.Partition
import PushSystem.Theorems.Producer.RoundTrip

/-! The range of a request. `ProduceMsg` reads whole bytes and counts the uids from `startUid` on, and it trusts
    the request, not the reply, for the number of bytes: it sends to the users asked for if the range starts at
    a byte of the bitmap, ends in front of clear bits and ends inside the bitmap. -/

namespace PushSystem
open Redis Bitmap Prog

/-- The uids that `ProduceMsg` decodes for a request when its calls succeed; `memory` follows a reply. -/
def computedUids (memory : Nat → Byte) (w : Stores) (request : ProduceMsgRequest) : Option (List UInt64) :=
  ((fetchUserInfoStr request.startUid request.endUid).eval (answerProduce memory) w).1.map (uidsToSend request.startUid)

section Decode
variable {memory : Nat → Byte} {w : Stores} {bitmap : List Byte} {expiry : Option Nat} {request : ProduceMsgRequest}
  {startUid endUid : UInt64}

theorem computedUids_of_inside (htmp : w.redis tmpUserInfoKey = some ⟨bitmap, expiry⟩)
    (hle : request.startUid ≤ request.endUid) (hin : request.endUid.toNat / 8 < bitmap.length) :
    computedUids memory w request = some (uidsToSend request.startUid
      (getRange bitmap (request.startUid.toNat / 8) (request.endUid.toNat / 8))) := by
  rw [computedUids, eval_fetchUserInfoStr_of_some memory htmp, copyBytes_getRange hle hin, Option.map_some]

/-- The bits of the bytes that are read, counted from `startUid`. -/
theorem uidsToSend_getRange (hin : endUid.toNat / 8 < bitmap.length) :
    uidsToSend startUid (getRange bitmap (startUid.toNat / 8) (endUid.toNat / 8)) =
      ((List.range (8 * (endUid.toNat / 8 + 1 - startUid.toNat / 8))).filter fun k =>
        testBit bitmap (8 * (startUid.toNat / 8) + k)).map fun k => startUid + UInt64.ofNat k := by
  rw [uidsToSend_eq, length_getRange_of_inside _ hin]
  congr 1
  refine List.filter_congr fun k hk => ?_
  simp [testBit_getRange, List.mem_range.mp hk]

end Decode

/-! ### The uids of a request -/

/-- The uids of the request whose bit is set, in increasing order. -/
structure ProduceMsgRequest.Targets (request : ProduceMsgRequest) (bitmap : List Byte) (uids : List UInt64) : Prop where
  sorted : uids.Pairwise (· < ·)
  mem_iff : ∀ uid, uid ∈ uids ↔ request.Covers uid ∧ bitmap.getD (uid.toNat / 8) 0 &&& mask (uid.toNat % 8) ≠ 0

section Targets
variable {memory : Nat → Byte} {w : Stores} {bitmap : List Byte} {expiry : Option Nat} {request : ProduceMsgRequest}
  {startUid endUid : UInt64}

theorem mask_iff (uid : UInt64) :
    bitmap.getD (uid.toNat / 8) 0 &&& mask (uid.toNat % 8) ≠ 0 ↔ testBit bitmap uid.toNat :=
  and_mask_ne_zero_iff (Nat.mod_lt _ (by decide))

/-- A set bit of the bytes that are read gives a uid, shifted by what `startUid` is past its byte. -/
theorem mem_uidsToSend_getRange (startUid : UInt64) {i : Nat} (hin : endUid.toNat / 8 < bitmap.length)
    (hge : startUid.toNat / 8 ≤ i / 8) (hle : i / 8 ≤ endUid.toNat / 8) (hbit : testBit bitmap i) :
    ∃ uid ∈ uidsToSend startUid (getRange bitmap (startUid.toNat / 8) (endUid.toNat / 8)),
      uid.toNat = (i + startUid.toNat % 8) % 2 ^ 64 := by
  rw [uidsToSend_getRange hin]
  refine ⟨startUid + UInt64.ofNat (i - 8 * (startUid.toNat / 8)), List.mem_map.mpr ⟨_, ?_, rfl⟩, ?_⟩
  · have hi : 8 * (startUid.toNat / 8) + (i - 8 * (startUid.toNat / 8)) = i := by omega
    rw [List.mem_filter, List.mem_range, hi]
    exact ⟨by omega, hbit⟩
  · rw [UInt64.toNat_add, UInt64.toNat_ofNat']
    omega

/-- The last set bit is shifted to one that is clear unless the range is aligned. -/
theorem ProduceMsgRequest.Targets.aligned
    (h : request.Targets bitmap
      (uidsToSend request.startUid (getRange bitmap (request.startUid.toNat / 8) (request.endUid.toNat / 8))))
    (hin : request.endUid.toNat / 8 < bitmap.length) {i : Nat} (hge : request.startUid.toNat / 8 ≤ i / 8)
    (hle : i / 8 ≤ request.endUid.toNat / 8) (hbit : testBit bitmap i) : request.startUid.toNat % 8 = 0 := by
  have hend := request.endUid.toNat_lt
  obtain ⟨last, hlast, hmax, hgreatest⟩ : ∃ last, (request.startUid.toNat / 8 ≤ last / 8 ∧ testBit bitmap last) ∧
      last ≤ 8 * (request.endUid.toNat / 8) + 7 ∧ ∀ j ≤ 8 * (request.endUid.toNat / 8) + 7,
        request.startUid.toNat / 8 ≤ j / 8 ∧ testBit bitmap j → j ≤ last :=
    ⟨Nat.findGreatest (fun i => request.startUid.toNat / 8 ≤ i / 8 ∧ testBit bitmap i) _,
      Nat.findGreatest_spec (m := i) (P := fun i => request.startUid.toNat / 8 ≤ i / 8 ∧ testBit bitmap i) (by omega)
        ⟨hge, hbit⟩,
      Nat.findGreatest_le _, fun _ hj h => Nat.le_findGreatest hj h⟩
  obtain ⟨uid, hmem, huid⟩ := mem_uidsToSend_getRange _ hin hlast.1 (by omega) hlast.2
  obtain ⟨⟨hstart, hstop⟩, hset⟩ := (h.mem_iff uid).mp hmem
  rw [mask_iff] at hset
  rw [UInt64.le_iff_toNat_le] at hstart hstop
  have hle := hgreatest uid.toNat (by omega) ⟨by omega, hset⟩
  omega

theorem ProduceMsgRequest.Targets.clear
    (h : request.Targets bitmap
      (uidsToSend request.startUid (getRange bitmap (request.startUid.toNat / 8) (request.endUid.toNat / 8))))
    (hin : request.endUid.toNat / 8 < bitmap.length) (hle : request.startUid ≤ request.endUid)
    (hstart : request.startUid.toNat % 8 = 0) {i : Nat} (hi : request.endUid.toNat < i)
    (hbyte : i / 8 = request.endUid.toNat / 8) : testBit bitmap i = false := by
  rw [UInt64.le_iff_toNat_le] at hle
  have hend := request.endUid.toNat_lt
  refine Bool.eq_false_iff.mpr fun hbit => ?_
  obtain ⟨uid, hmem, huid⟩ := mem_uidsToSend_getRange request.startUid hin (by omega) (Nat.le_of_eq hbyte)
    hbit
  have hstop := UInt64.le_iff_toNat_le.mp ((h.mem_iff uid).mp hmem).1.2
  omega

theorem targets_of_aligned (hin : request.endUid.toNat / 8 < bitmap.length) (hle : request.startUid ≤ request.endUid)
    (hstart : request.startUid.toNat % 8 = 0)
    (hclear : ∀ i, request.endUid.toNat < i → i / 8 = request.endUid.toNat / 8 → testBit bitmap i = false) :
    request.Targets bitmap
      (uidsToSend request.startUid (getRange bitmap (request.startUid.toNat / 8) (request.endUid.toNat / 8))) := by
  rw [UInt64.le_iff_toNat_le] at hle
  have hlen := length_getRange_of_inside request.startUid hin
  have hend := request.endUid.toNat_lt
  have hfits : request.startUid.toNat +
      8 * (getRange bitmap (request.startUid.toNat / 8) (request.endUid.toNat / 8)).length ≤ 2 ^ 64 := by omega
  obtain ⟨hsorted, hmem⟩ := uidsToSend_of_fits hfits
  refine ⟨hsorted, fun uid => (hmem uid).trans ?_⟩
  rw [mask_iff, testBit_getRange, Bool.and_eq_true, decide_eq_true_eq, ProduceMsgRequest.Covers,
    UInt64.le_iff_toNat_le, UInt64.le_iff_toNat_le]
  constructor
  · rintro ⟨hge, hlt, hbit⟩
    have hi : 8 * (request.startUid.toNat / 8) + (uid.toNat - request.startUid.toNat) = uid.toNat := by omega
    rw [hi] at hbit
    refine ⟨⟨hge, ?_⟩, hbit⟩
    by_contra hgt
    rw [hclear uid.toNat (by omega) (by omega)] at hbit
    cases hbit
  · rintro ⟨⟨hge, hstop⟩, hbit⟩
    have hi : 8 * (request.startUid.toNat / 8) + (uid.toNat - request.startUid.toNat) = uid.toNat := by omega
    rw [hi]
    exact ⟨hge, by omega, hbit⟩

theorem targets_of_clear (hin : request.endUid.toNat / 8 < bitmap.length)
    (hclear : ∀ i, request.startUid.toNat / 8 ≤ i / 8 → i / 8 ≤ request.endUid.toNat / 8 → testBit bitmap i = false) :
    request.Targets bitmap
      (uidsToSend request.startUid (getRange bitmap (request.startUid.toNat / 8) (request.endUid.toNat / 8))) := by
  have hnil : uidsToSend request.startUid
      (getRange bitmap (request.startUid.toNat / 8) (request.endUid.toNat / 8)) = [] := by
    rw [uidsToSend_getRange hin, List.map_eq_nil_iff, List.filter_eq_nil_iff]
    intro k hk
    rw [List.mem_range] at hk
    rw [hclear _ (by omega) (by omega)]
    exact Bool.false_ne_true
  rw [hnil]
  refine ⟨List.Pairwise.nil, fun uid => ?_⟩
  simp only [List.not_mem_nil, false_iff, not_and]
  rintro ⟨hge, hstop⟩ hset
  rw [UInt64.le_iff_toNat_le] at hge hstop
  rw [mask_iff, hclear _ (Nat.div_le_div_right hge) (Nat.div_le_div_right hstop)] at hset
  cases hset

end Targets

/-- `ProduceMsg` sends to the users it is asked for exactly if the range starts at a byte and no bit after its end
    is set in its last byte, or no bit is set in the bytes of the range at all. -/
theorem uids_requested_iff {memory : Nat → Byte} {w : Stores} {bitmap : List Byte} {expiry : Option Nat}
    {request : ProduceMsgRequest} (htmp : w.redis tmpUserInfoKey = some ⟨bitmap, expiry⟩)
    (hle : request.startUid ≤ request.endUid) (hin : request.endUid.toNat / 8 < bitmap.length) :
    (∃ uids, computedUids memory w request = some uids ∧ request.Targets bitmap uids) ↔
      (request.startUid.toNat % 8 = 0 ∧
        ∀ i, request.endUid.toNat < i → i / 8 = request.endUid.toNat / 8 → testBit bitmap i = false) ∨
      ∀ i, request.startUid.toNat / 8 ≤ i / 8 → i / 8 ≤ request.endUid.toNat / 8 → testBit bitmap i = false := by
  rw [computedUids_of_inside htmp hle hin]
  constructor
  · rintro ⟨uids, heq, h⟩
    obtain rfl := Option.some.inj heq
    by_cases hset : ∃ i, request.startUid.toNat / 8 ≤ i / 8 ∧ i / 8 ≤ request.endUid.toNat / 8 ∧ testBit bitmap i
    · obtain ⟨i, hge, hstop, hbit⟩ := hset
      have hstart := h.aligned hin hge hstop hbit
      exact Or.inl ⟨hstart, fun i hi hbyte => h.clear hin hle hstart hi hbyte⟩
    · exact Or.inr fun i hge hstop => Bool.eq_false_iff.mpr fun hbit => hset ⟨i, hge, hstop, hbit⟩
  · rintro (⟨hstart, hclear⟩ | hclear)
    · exact ⟨_, rfl, targets_of_aligned hin hle hstart hclear⟩
    · exact ⟨_, rfl, targets_of_clear hin hclear⟩

/-- Stores in which `TMP_USER_INFO_KEY` holds the bitmap. -/
def storesWith (bitmap : List Byte) : Stores :=
  { redis := fun key => if key = tmpUserInfoKey then some ⟨bitmap, some (30 * secondsPerMinute)⟩ else none }

theorem redis_storesWith (bitmap : List Byte) :
    (storesWith bitmap).redis tmpUserInfoKey = some ⟨bitmap, some (30 * secondsPerMinute)⟩ := by
  simp [storesWith]

theorem uids_requested_byte : ∃ uids, computedUids (fun _ => 0) (storesWith [0x40]) ⟨1, 0, 7⟩ = some uids ∧
    ProduceMsgRequest.Targets ⟨1, 0, 7⟩ [0x40] uids :=
  (uids_requested_iff (redis_storesWith _) (by decide) (by decide)).mpr (Or.inl ⟨by decide, fun i hi hbyte => by
    simp only [UInt64.reduceToNat] at hi hbyte
    omega⟩)

/-- The user 0 has a set bit and the user 1 has not; asked for the users from 1 on, `ProduceMsg` sends to the
    user 1. -/
theorem uids_shifted : computedUids (fun _ => 0) (storesWith [0x80]) ⟨1, 1, 7⟩ = some [1] ∧
    ¬∃ uids, computedUids (fun _ => 0) (storesWith [0x80]) ⟨1, 1, 7⟩ = some uids ∧
      ProduceMsgRequest.Targets ⟨1, 1, 7⟩ [0x80] uids := by
  have hone : computedUids (fun _ => 0) (storesWith [0x80]) ⟨1, 1, 7⟩ = some [1] := by decide +kernel
  refine ⟨hone, ?_⟩
  rintro ⟨uids, huids, h⟩
  obtain rfl := Option.some.inj (hone.symm.trans huids)
  exact ((h.mem_iff 1).mp (List.mem_singleton_self _)).2 (by decide)

/-! ### The bytes of the reply -/

/-- The bytes that the copies read are bytes of the replies. -/
def CopiesInside (ops : List ProduceMsgOp) : Prop :=
  ∀ str len, ProduceMsgOp.copy str len ∈ ops → ∀ i < len.toNat, i < (str.getD []).length

/-- From `GETRANGE` on, `ProduceMsg` reads bytes of the reply only, and each set bit it finds is a set bit of
    `TMP_USER_INFO_KEY`. -/
structure ReadsReply (memory : Nat → Byte) (w : Stores) (startUid endUid : UInt64) : Prop where
  inside : CopiesInside ((readUserInfoStr startUid endUid).calls (answerProduce memory) w)
  bits : ∀ userInfoStr ∈ ((readUserInfoStr startUid endUid).eval (answerProduce memory) w).1, ∀ k,
    testBit userInfoStr k → testBit (w.redis.value tmpUserInfoKey) (8 * (startUid.toNat / 8) + k)

section Reply
variable {memory : Nat → Byte} {w : Stores} {startUid endUid : UInt64}

theorem calls_readUserInfoStr : (readUserInfoStr startUid endUid).calls (answerProduce memory) w =
    [.redis (.getrange tmpUserInfoKey (startUid / 8).toNat (endUid / 8).toNat),
      .copy (some (getRange (w.redis.value tmpUserInfoKey) (startUid / 8).toNat (endUid / 8).toNat))
        (endUid / 8 - startUid / 8 + 1),
      .freeReply, .unlock] := rfl

theorem eval_readUserInfoStr_value : ((readUserInfoStr startUid endUid).eval (answerProduce memory) w).1 =
    some (copyBytes (getRange (w.redis.value tmpUserInfoKey) (startUid / 8).toNat (endUid / 8).toNat)
      (endUid / 8 - startUid / 8 + 1).toNat memory) := rfl

theorem copiesInside_iff (hle : startUid ≤ endUid) :
    CopiesInside ((readUserInfoStr startUid endUid).calls (answerProduce memory) w) ↔
      endUid.toNat / 8 < (w.redis.value tmpUserInfoKey).length := by
  have hcount := byteCount_toNat hle
  rw [UInt64.le_iff_toNat_le] at hle
  rw [calls_readUserInfoStr]
  constructor
  · intro h
    have hlast := h _ _ (List.mem_cons_of_mem _ List.mem_cons_self) (endUid.toNat / 8 - startUid.toNat / 8) (by omega)
    rw [Option.getD_some, length_getRange, div_eight_toNat, div_eight_toNat] at hlast
    omega
  · intro hin str len hmem i hi
    simp only [List.mem_cons, List.not_mem_nil, or_false, reduceCtorEq, false_or, ProduceMsgOp.copy.injEq] at hmem
    obtain ⟨rfl, rfl⟩ := hmem
    rw [Option.getD_some, length_getRange, div_eight_toNat, div_eight_toNat]
    omega

/-- `ProduceMsg` reads no byte past the reply exactly if the range ends inside the bitmap. -/
theorem readsReply_iff (memory : Nat → Byte) (w : Stores) (hle : startUid ≤ endUid) :
    ReadsReply memory w startUid endUid ↔ endUid.toNat / 8 < (w.redis.value tmpUserInfoKey).length := by
  refine ⟨fun h => (copiesInside_iff hle).mp h.inside, fun hin => ⟨(copiesInside_iff hle).mpr hin, ?_⟩⟩
  intro userInfoStr hstr k hbit
  rw [eval_readUserInfoStr_value, copyBytes_getRange hle hin] at hstr
  obtain rfl := Option.some.inj hstr
  rw [testBit_getRange, Bool.and_eq_true] at hbit
  exact hbit.2

end Reply

theorem readsReply_byte : ReadsReply (fun _ => 0xFF) (storesWith [0x40]) 0 7 :=
  (readsReply_iff _ _ (by decide)).mpr (by decide +kernel)

/-- The bitmap has one byte and the range three: two bytes are read from what follows the reply, and `ProduceMsg`
    sends to users whose bits do not exist. -/
theorem reads_past_reply : computedUids (fun _ => 0xFF) (storesWith [0x40]) ⟨1, 0, 23⟩ =
      some [1, 16, 17, 18, 19, 20, 21, 22, 23] ∧ ¬ReadsReply (fun _ => 0xFF) (storesWith [0x40]) 0 23 :=
  ⟨by decide +kernel, fun h => absurd ((copiesInside_iff (by decide)).mp h.inside) (by decide +kernel)⟩

/-! ### Splitting a push -/

section Split
variable {memory : Nat → Byte} {w : Stores} {bitmap : List Byte} {expiry : Option Nat} {r : ProduceMsgRequest}
  {cur last : UInt64} {chunks : List ProduceMsgRequest}

/-- The uids from `first` to the end of the byte of `stop` whose bit is set. -/
def setUids (bitmap : List Byte) (first stop : Nat) : List UInt64 :=
  ((List.range' first (8 * (stop / 8 + 1) - first)).filter (testBit bitmap)).map UInt64.ofNat

/-- What `ProduceMsg` computes for a range that starts at a byte. -/
theorem computedUids_eq_setUids (request : ProduceMsgRequest) (htmp : w.redis tmpUserInfoKey = some ⟨bitmap, expiry⟩)
    (hle : request.startUid ≤ request.endUid) (hin : request.endUid.toNat / 8 < bitmap.length)
    (hstart : request.startUid.toNat % 8 = 0) :
    computedUids memory w request = some (setUids bitmap request.startUid.toNat request.endUid.toNat) := by
  have hfirst : 8 * (request.startUid.toNat / 8) = request.startUid.toNat := by omega
  have hcount : 8 * (request.endUid.toNat / 8 + 1) - request.startUid.toNat =
      8 * (request.endUid.toNat / 8 + 1 - request.startUid.toNat / 8) := by omega
  rw [computedUids_of_inside htmp hle hin, uidsToSend_getRange hin, setUids, hcount, List.range'_eq_map_range,
    List.filter_map, List.map_map, hfirst]
  congr 1
  refine List.map_congr_left fun k _ => ?_
  rw [Function.comp_apply, UInt64.ofNat_add, UInt64.ofNat_toNat]

/-- Two ranges that meet at a byte share none. -/
theorem setUids_append (bitmap : List Byte) {first next stop : Nat} (hlt : first < next) (hnext : next % 8 = 0)
    (hstop : next ≤ stop) : setUids bitmap first (next - 1) ++ setUids bitmap next stop = setUids bitmap first stop := by
  have hfirst : 8 * ((next - 1) / 8 + 1) - first = next - first := by omega
  have hsum : 8 * (stop / 8 + 1) - first = (next - first) + (8 * (stop / 8 + 1) - next) := by omega
  have hmeet : first + (next - first) = next := by omega
  rw [setUids, setUids, setUids, hfirst, hsum, ← List.range'_append_1, hmeet, List.filter_append, List.map_append]

/-- The chunks from `cur` on give the uids from `cur` on. -/
theorem Iterations.uids (memory : Nat → Byte) (h : Iterations r cur chunks last) (hend : r.endUid < last) (hb : r.Bounded)
    (htmp : w.redis tmpUserInfoKey = some ⟨bitmap, expiry⟩) (hin : r.endUid.toNat / 8 < bitmap.length)
    (hcur : cur.toNat % 8 = 0) (hle : cur ≤ r.endUid) :
    ∃ lists : List (List UInt64), chunks.map (computedUids memory w) = lists.map some ∧
      lists.flatten = setUids bitmap cur.toNat r.endUid.toNat := by
  induction h with
  | nil => exact absurd hle (UInt64.not_le.mpr hend)
  | @cons cur chunk next chunks last hi hs ih =>
    obtain ⟨-, rfl, rfl⟩ := iteration_iff.mp hi
    have hadd := add_uidCount_toNat hb hle
    have hstop := chunkAt_endUid_toNat hb hle
    have hle' := UInt64.le_iff_toNat_le.mp hle
    have hchunk : computedUids memory w (chunkAt r cur) =
        some (setUids bitmap cur.toNat (chunkAt r cur).endUid.toNat) := by
      refine computedUids_eq_setUids (chunkAt r cur) htmp ?_ ?_ hcur
      · rw [UInt64.le_iff_toNat_le, hstop]
        show cur.toNat ≤ _
        omega
      · rw [hstop]
        omega
    by_cases hnext : cur + uidCountPerTime ≤ r.endUid
    · obtain ⟨lists, hmap, hflat⟩ := ih hend (by rw [hadd]; omega) hnext
      rw [UInt64.le_iff_toNat_le, hadd] at hnext
      have hlast : (chunkAt r cur).endUid.toNat = cur.toNat + 4096 - 1 := by omega
      refine ⟨setUids bitmap cur.toNat (chunkAt r cur).endUid.toNat :: lists, by rw [List.map_cons, hchunk, hmap]; rfl, ?_⟩
      rw [List.flatten_cons, hflat, hlast, hadd]
      exact setUids_append bitmap (by omega) (by omega) hnext
    · -- the chunk is the last one
      have hnil : chunks = [] := by
        cases chunks with
        | nil => rfl
        | cons d chunks => exact absurd ((hs.head d rfl).1 ▸ (hs.head d rfl).2) hnext
      subst hnil
      rw [UInt64.le_iff_toNat_le, hadd] at hnext
      have hlast : (chunkAt r cur).endUid.toNat = r.endUid.toNat := by omega
      refine ⟨[setUids bitmap cur.toNat (chunkAt r cur).endUid.toNat], by rw [List.map_cons, hchunk]; rfl, ?_⟩
      rw [List.flatten_singleton, hlast]

theorem sorted_setUids (first : Nat) {stop : Nat} (h : stop < 2 ^ 64) : (setUids bitmap first stop).Pairwise (· < ·) := by
  rw [setUids, List.pairwise_map]
  refine ((List.pairwise_lt_range' 1 (by decide)).filter _).imp_of_mem fun {i j} hi hj hij => ?_
  have hi := List.mem_range'_1.mp (List.mem_of_mem_filter hi)
  have hj := List.mem_range'_1.mp (List.mem_of_mem_filter hj)
  rw [UInt64.lt_iff_toNat_lt, UInt64.toNat_ofNat', UInt64.toNat_ofNat', Nat.mod_eq_of_lt (by omega),
    Nat.mod_eq_of_lt (by omega)]
  exact hij

theorem mem_setUids {first : Nat} {stop : UInt64} {uid : UInt64} (hle : first ≤ stop.toNat) :
    uid ∈ setUids bitmap first stop.toNat ↔
      first ≤ uid.toNat ∧ uid.toNat / 8 ≤ stop.toNat / 8 ∧ testBit bitmap uid.toNat := by
  have hstop := stop.toNat_lt
  have hlt := uid.toNat_lt
  simp only [setUids, List.mem_map, List.mem_filter, List.mem_range'_1]
  constructor
  · rintro ⟨i, ⟨hi, hbit⟩, rfl⟩
    rw [UInt64.toNat_ofNat', Nat.mod_eq_of_lt (by omega)]
    exact ⟨hi.1, by omega, hbit⟩
  · rintro ⟨hfirst, hbyte, hbit⟩
    exact ⟨uid.toNat, ⟨⟨hfirst, by omega⟩, hbit⟩, UInt64.ofNat_toNat⟩

/-- The loop over a push ends, and the uids of its chunks, one chunk after the other, are the uids of the push as a
    single request: those from its first uid to the end of its last byte whose bit is set. -/
theorem split_uids (memory : Nat → Byte) (htmp : w.redis tmpUserInfoKey = some ⟨bitmap, expiry⟩)
    (hin : r.endUid.toNat / 8 < bitmap.length) (hstart : r.startUid.toNat % 8 = 0) (hle : r.startUid ≤ r.endUid)
    (hb : r.Bounded) :
    (∃ chunks last, Iterations r r.startUid chunks last ∧ r.endUid < last) ∧
      ∀ chunks last, Iterations r r.startUid chunks last → r.endUid < last →
        ∃ lists : List (List UInt64), chunks.map (computedUids memory w) = lists.map some ∧
          computedUids memory w r = some lists.flatten ∧ lists.flatten.Pairwise (· < ·) ∧
          ∀ uid, uid ∈ lists.flatten ↔
            r.startUid ≤ uid ∧ uid.toNat / 8 ≤ r.endUid.toNat / 8 ∧ testBit bitmap uid.toNat := by
  refine ⟨exists_iterations (ProduceMsgRequest.Bounded.noWrap hb), fun chunks last hs hend => ?_⟩
  obtain ⟨lists, hmap, hflat⟩ := hs.uids memory hend hb htmp hin hstart hle
  refine ⟨lists, hmap, ?_, ?_, fun uid => ?_⟩
  · rw [computedUids_eq_setUids _ htmp hle hin hstart, hflat]
  · rw [hflat]
    exact sorted_setUids _ r.endUid.toNat_lt
  · rw [hflat]
    exact mem_setUids (UInt64.le_iff_toNat_le.mp hle)

end Split

theorem split_uids_two_chunks : ∃ lists : List (List UInt64),
    [chunkAt ⟨1, 0, 4103⟩ 0, chunkAt ⟨1, 0, 4103⟩ 4096].map
        (computedUids (fun _ => 0) (storesWith (List.replicate 513 0x80))) = lists.map some ∧
      computedUids (fun _ => 0) (storesWith (List.replicate 513 0x80)) ⟨1, 0, 4103⟩ = some lists.flatten ∧
      lists.flatten.Pairwise (· < ·) ∧ ∀ uid, uid ∈ lists.flatten ↔
        (0 : UInt64) ≤ uid ∧ uid.toNat / 8 ≤ 512 ∧ testBit (List.replicate 513 0x80) uid.toNat :=
  (@split_uids _ _ _ ⟨1, 0, 4103⟩ _ (redis_storesWith _) (by rw [List.length_replicate]; decide) (by decide)
    (by decide) (by decide)).2 _ 8192 (.next (by decide) (.next (by decide) .nil)) (by decide)

end PushSystem
