import Mathlib.Data.List.Nodup
import PushSystem.Producer

/-! The uids that `ProduceMsg` sends to: the bits of the range that are set, counted from `startUid` on. -/

namespace PushSystem
open Bitmap

theorem div_eight_toNat (uid : UInt64) : (uid / 8).toNat = uid.toNat / 8 := UInt64.toNat_div _ _

/-- The number of bytes that are copied. -/
theorem byteCount_toNat {startUid endUid : UInt64} (h : startUid ≤ endUid) :
    (endUid / 8 - startUid / 8 + 1).toNat = endUid.toNat / 8 + 1 - startUid.toNat / 8 := by
  rw [UInt64.le_iff_toNat_le] at h
  have := endUid.toNat_lt
  have hdiv : startUid / 8 ≤ endUid / 8 := by
    rw [UInt64.le_iff_toNat_le, div_eight_toNat, div_eight_toNat]
    omega
  rw [UInt64.toNat_add, UInt64.toNat_sub_of_le _ _ hdiv, div_eight_toNat, div_eight_toNat]
  simp only [UInt64.reduceToNat]
  omega

/-- Two nested loops over blocks of eight are one loop. -/
theorem flatMap_range_eight {α : Type} (f : Nat → Option α) (n : Nat) :
    ((List.range n).flatMap fun i => (List.range 8).filterMap fun j => f (8 * i + j)) =
      (List.range (8 * n)).filterMap f := by
  induction n with
  | zero => rfl
  | succ n ih =>
    rw [List.range_succ (n := n), List.flatMap_append, ih, Nat.mul_succ, List.range_add, List.filterMap_append,
      List.filterMap_map]
    simp only [List.flatMap_cons, List.flatMap_nil, List.append_nil]
    rfl

/-- The bits that are set, in order. -/
theorem uidsToSend_eq (startUid : UInt64) (bytes : List Byte) :
    uidsToSend startUid bytes =
      ((List.range (8 * bytes.length)).filter (testBit bytes)).map fun k => startUid + UInt64.ofNat k := by
  have hbit : ∀ i, ∀ j ∈ List.range 8, (if bytes.getD i 0 &&& mask j ≠ 0 then
      some (startUid + UInt64.ofNat (8 * i + j)) else none) =
      if testBit bytes (8 * i + j) then some (startUid + UInt64.ofNat (8 * i + j)) else none := by
    intro i j hj
    rw [List.mem_range] at hj
    simp only [and_mask_ne_zero_iff hj, testBit_byte hj]
  have hblocks : uidsToSend startUid bytes = (List.range bytes.length).flatMap fun i =>
      (List.range 8).filterMap fun j =>
        if testBit bytes (8 * i + j) then some (startUid + UInt64.ofNat (8 * i + j)) else none :=
    List.flatMap_congr fun i _ => List.filterMap_congr (hbit i)
  rw [hblocks, flatMap_range_eight fun k => if testBit bytes k then some (startUid + UInt64.ofNat k) else none]
  induction List.range (8 * bytes.length) with
  | nil => rfl
  | cons k l ih =>
    by_cases hk : testBit bytes k <;> simp [hk, ih]

theorem length_uidsToSend (startUid : UInt64) (bytes : List Byte) :
    (uidsToSend startUid bytes).length = bitCount bytes := by
  rw [uidsToSend_eq, List.length_map, bitCount, List.countP_eq_length_filter]

/-- While `startUid` and the range do not overflow, the uids increase and are those whose bit is set. -/
theorem uidsToSend_of_fits {startUid : UInt64} {bytes : List Byte} (h : startUid.toNat + 8 * bytes.length ≤ 2 ^ 64) :
    (uidsToSend startUid bytes).Pairwise (· < ·) ∧
      ∀ uid, uid ∈ uidsToSend startUid bytes ↔ startUid ≤ uid ∧ testBit bytes (uid.toNat - startUid.toNat) := by
  have hnat : ∀ k < 8 * bytes.length, (startUid + UInt64.ofNat k).toNat = startUid.toNat + k := by
    intro k hk
    rw [UInt64.toNat_add, UInt64.toNat_ofNat']
    omega
  rw [uidsToSend_eq]
  constructor
  · rw [List.pairwise_map]
    refine (List.pairwise_lt_range.filter _).imp_of_mem fun {k l} hk hl hkl => ?_
    rw [List.mem_filter, List.mem_range] at hk hl
    rw [UInt64.lt_iff_toNat_lt, hnat k hk.1, hnat l hl.1]
    omega
  · intro uid
    simp only [List.mem_map, List.mem_filter, List.mem_range]
    constructor
    · rintro ⟨k, ⟨hk, hbit⟩, rfl⟩
      rw [UInt64.le_iff_toNat_le, hnat k hk, Nat.add_sub_cancel_left]
      exact ⟨Nat.le_add_right _ _, hbit⟩
    · rintro ⟨hle, hbit⟩
      rw [UInt64.le_iff_toNat_le] at hle
      have hlt : uid.toNat - startUid.toNat < 8 * bytes.length := by
        by_contra hge
        rw [testBit_eq_false (Nat.le_of_not_lt hge)] at hbit
        cases hbit
      refine ⟨_, ⟨hlt, hbit⟩, ?_⟩
      rw [← UInt64.toNat_inj, hnat _ hlt]
      omega

/-- A range of a few bytes has no uid twice. -/
theorem nodup_uidsToSend (startUid : UInt64) {bytes : List Byte} (h : 8 * bytes.length ≤ 2 ^ 64) :
    (uidsToSend startUid bytes).Nodup := by
  rw [uidsToSend_eq]
  refine List.Nodup.map_on (fun k hk l hl heq => ?_) (List.nodup_range.filter _)
  rw [List.mem_filter, List.mem_range] at hk hl
  have hkl := congrArg UInt64.toNat ((UInt64.add_right_inj _).mp heq)
  rw [UInt64.toNat_ofNat', UInt64.toNat_ofNat'] at hkl
  omega

end PushSystem
