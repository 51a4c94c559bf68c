import Mathlib.Data.Bool.Basic
import Mathlib.Data.List.Perm.Subperm

/-! Byte strings read as bitmaps. Bit `i` is bit `i % 8` of byte `i / 8`, counted from the most
    significant one, and bits past the end are clear. -/

namespace Bitmap

abbrev Byte := BitVec 8

/-- The mask of the bit `i` of a byte, counted from the most significant one. -/
def mask (i : Nat) : Byte := 1 <<< (7 - i)

def testBit (bytes : List Byte) (i : Nat) : Bool := (bytes.getD (i / 8) 0).getMsbD (i % 8)

/-- Sets a bit of a byte that exists. -/
def setBit (bytes : List Byte) (i : Nat) : List Byte := bytes.modify (i / 8) (· ||| mask (i % 8))

/-- Overwrites the bytes from `offset`, after zeros up to there. -/
def setRange (bytes : List Byte) (offset : Nat) (value : List Byte) : List Byte :=
  (bytes ++ List.replicate (offset - bytes.length) 0).take offset ++ value ++ bytes.drop (offset + value.length)

/-- The bytes from `first` to `last` that exist. -/
def getRange (bytes : List Byte) (first last : Nat) : List Byte := (bytes.drop first).take (last + 1 - first)

/-- Combines two strings byte by byte, the shorter one filled up with zeros. -/
def combine (f : Byte → Byte → Byte) (a b : List Byte) : List Byte :=
  (List.range (max a.length b.length)).map fun i => f (a.getD i 0) (b.getD i 0)

/-- The number of bits that are set. -/
def bitCount (bytes : List Byte) : Nat := (List.range (8 * bytes.length)).countP (testBit bytes)

section Lemmas
variable {a b bytes value : List Byte} {i j : Nat}

theorem getMsbD_mask (hi : i < 8) (hj : j < 8) : (mask i).getMsbD j = decide (i = j) := by
  have h : ∀ i < 8, ∀ j < 8, (mask i).getMsbD j = decide (i = j) := by decide
  exact h i hi j hj

theorem and_mask_ne_zero_iff {x : Byte} (hi : i < 8) : x &&& mask i ≠ 0 ↔ x.getMsbD i := by
  constructor
  · intro hne
    by_contra hbit
    refine hne (BitVec.eq_of_getMsbD_eq fun j hj => ?_)
    rw [BitVec.getMsbD_and, getMsbD_mask hi hj]
    by_cases hij : i = j
    · subst hij
      simpa using hbit
    · simp [hij]
  · intro hbit hzero
    have := congrArg (·.getMsbD i) hzero
    simp [BitVec.getMsbD_and, getMsbD_mask hi hi, hbit] at this

/-! ### Bits by byte -/

theorem testBit_byte {k : Nat} (hj : j < 8) : testBit bytes (8 * k + j) = (bytes.getD k 0).getMsbD j := by
  have hdiv : (8 * k + j) / 8 = k := by omega
  have hmod : (8 * k + j) % 8 = j := by omega
  rw [testBit, hdiv, hmod]

theorem testBit_eq_false (h : 8 * bytes.length ≤ i) : testBit bytes i = false := by
  have hk : bytes.length ≤ i / 8 := by omega
  simp [testBit, List.getElem?_eq_none hk]

@[simp] theorem testBit_nil : testBit [] i = false := by simp [testBit]

@[simp] theorem testBit_replicate_zero {n : Nat} : testBit (List.replicate n 0) i = false := by
  simp only [testBit, List.getD_eq_getElem?_getD, List.getElem?_replicate]
  split <;> simp

/-! ### Writing one bit -/

@[simp] theorem length_setBit : (setBit bytes i).length = bytes.length := by simp [setBit]

theorem testBit_setBit (hi : i < 8 * bytes.length) :
    testBit (setBit bytes i) j = (decide (i = j) || testBit bytes j) := by
  have hk : i / 8 < bytes.length := by omega
  unfold testBit setBit
  rw [List.getD_eq_getElem?_getD, List.getD_eq_getElem?_getD, List.getElem?_modify]
  by_cases hkj : i / 8 = j / 8
  · simp only [if_pos hkj]
    rw [← hkj, List.getElem?_eq_getElem hk]
    simp only [Option.map_eq_map, Option.map_some, Option.getD_some, BitVec.getMsbD_or]
    rw [getMsbD_mask (Nat.mod_lt _ (by decide)) (Nat.mod_lt _ (by decide)), Bool.or_comm]
    have hij : i % 8 = j % 8 ↔ i = j := by omega
    simp only [hij]
  · have hij : i ≠ j := by
      rintro rfl
      exact hkj rfl
    simp [hkj, hij]

/-- Setting a bit for each item of a list. -/
theorem testBit_setBits {ι : Type} (bytes : List Byte) (f : ι → Nat) {l : List ι} (h : ∀ x ∈ l, f x < 8 * bytes.length) :
    (l.foldl (fun bytes x => setBit bytes (f x)) bytes).length = bytes.length ∧
      ∀ j, testBit (l.foldl (fun bytes x => setBit bytes (f x)) bytes) j ↔ (∃ x ∈ l, f x = j) ∨ testBit bytes j := by
  induction l generalizing bytes with
  | nil => simp
  | cons x l ih =>
    have hx := h x List.mem_cons_self
    obtain ⟨hlen, hbits⟩ := ih (setBit bytes (f x)) fun y hy => by
      rw [length_setBit]
      exact h y (List.mem_cons_of_mem _ hy)
    refine ⟨hlen.trans length_setBit, fun j => ?_⟩
    rw [List.foldl_cons, hbits j, testBit_setBit hx]
    simp only [Bool.or_eq_true, decide_eq_true_eq, List.mem_cons, exists_eq_or_imp, ← or_assoc]
    exact or_congr or_comm Iff.rfl

/-! ### Ranges -/

theorem length_setRange {offset : Nat} :
    (setRange bytes offset value).length = max bytes.length (offset + value.length) := by
  simp only [setRange, List.length_append, List.length_take, List.length_replicate, List.length_drop]
  omega

theorem getD_setRange {offset k : Nat} :
    (setRange bytes offset value).getD k 0 =
      if offset ≤ k ∧ k < offset + value.length then value.getD (k - offset) 0 else bytes.getD k 0 := by
  have hfill : ((bytes ++ List.replicate (offset - bytes.length) 0).take offset).length = offset := by
    simp only [List.length_take, List.length_append, List.length_replicate]
    omega
  simp only [List.getD_eq_getElem?_getD]
  rw [setRange, List.append_assoc]
  rcases Nat.lt_or_ge k offset with hk | hk
  · rw [List.getElem?_append_left (by omega), List.getElem?_take_of_lt hk, if_neg (by omega), List.getElem?_append]
    split
    next => rfl
    next hlen =>
      rw [List.getElem?_eq_none (Nat.le_of_not_lt hlen), List.getElem?_replicate]
      split <;> rfl
  · rw [List.getElem?_append_right (by omega), hfill, List.getElem?_append]
    split
    next hlt => rw [if_pos (by omega)]
    next hge =>
      rw [if_neg (by omega), List.getElem?_drop]
      congr 2
      omega

/-- Writing the same bytes a second time changes nothing. -/
theorem setRange_setRange {offset : Nat} :
    setRange (setRange bytes offset value) offset value = setRange bytes offset value := by
  refine List.ext_getElem (by simp only [length_setRange]; omega) fun k hk hk' => ?_
  have hget : (setRange (setRange bytes offset value) offset value).getD k 0 =
      (setRange bytes offset value).getD k 0 := by
    rw [getD_setRange, getD_setRange]
    split <;> rfl
  rwa [List.getElem_eq_getD 0, List.getElem_eq_getD 0]

theorem testBit_setRange {offset : Nat} :
    testBit (setRange bytes offset value) j =
      if 8 * offset ≤ j ∧ j < 8 * (offset + value.length) then testBit value (j - 8 * offset)
      else testBit bytes j := by
  have hdiv : (j - 8 * offset) / 8 = j / 8 - offset := by omega
  unfold testBit
  rw [getD_setRange, hdiv]
  by_cases hj : 8 * offset ≤ j ∧ j < 8 * (offset + value.length)
  · have hmod : (j - 8 * offset) % 8 = j % 8 := by omega
    rw [if_pos hj, if_pos (by omega), hmod]
  · rw [if_neg hj, if_neg (by omega)]

theorem testBit_getRange {first last : Nat} :
    testBit (getRange bytes first last) j =
      (decide (j < 8 * (last + 1 - first)) && testBit bytes (8 * first + j)) := by
  have hdiv : (8 * first + j) / 8 = first + j / 8 := by omega
  have hmod : (8 * first + j) % 8 = j % 8 := by omega
  have hiff : j / 8 < last + 1 - first ↔ j < 8 * (last + 1 - first) := by omega
  unfold testBit getRange
  rw [hdiv, hmod, List.getD_eq_getElem?_getD, List.getD_eq_getElem?_getD, List.getElem?_take, List.getElem?_drop]
  by_cases hj : j < 8 * (last + 1 - first)
  · simp [hiff, hj]
  · simp [hiff, hj]

theorem length_getRange {first last : Nat} :
    (getRange bytes first last).length = min (last + 1 - first) (bytes.length - first) := by
  simp [getRange]

/-! ### Combining -/

theorem length_combine (f : Byte → Byte → Byte) : (combine f a b).length = max a.length b.length := by
  simp [combine]

theorem getD_combine {f : Byte → Byte → Byte} (hf : f 0 0 = 0) {k : Nat} :
    (combine f a b).getD k 0 = f (a.getD k 0) (b.getD k 0) := by
  unfold combine
  by_cases hk : k < max a.length b.length
  · simp [hk]
  · have ha : a.length ≤ k := by omega
    have hb : b.length ≤ k := by omega
    simp only [List.getD_eq_getElem?_getD, List.getElem?_eq_none ha, List.getElem?_eq_none hb, Option.getD_none, hf]
    simp [hk]

theorem testBit_combine_and : testBit (combine (· &&& ·) a b) j = (testBit a j && testBit b j) := by
  unfold testBit
  rw [getD_combine (by decide), BitVec.getMsbD_and]

theorem testBit_combine_xor : testBit (combine (· ^^^ ·) a b) j = (testBit a j ^^ testBit b j) := by
  unfold testBit
  rw [getD_combine (by decide), BitVec.getMsbD_xor]

/-! ### Counting -/

/-- The bits that tell two strings apart are as many as their combination by `^^^` has. -/
theorem exists_differing (a b : List Byte) : ∃ l : List Nat, l.Nodup ∧
    l.length = bitCount (combine (· ^^^ ·) a b) ∧ ∀ i, i ∈ l ↔ testBit a i ≠ testBit b i := by
  refine ⟨(List.range (8 * (combine (· ^^^ ·) a b).length)).filter (testBit (combine (· ^^^ ·) a b)),
    List.nodup_range.filter _, List.countP_eq_length_filter.symm, fun i => ?_⟩
  have hbit : testBit (combine (· ^^^ ·) a b) i ↔ testBit a i ≠ testBit b i := by
    rw [testBit_combine_xor, Bool.xor_iff_ne]
  rw [List.mem_filter, List.mem_range, hbit, and_iff_right_iff_imp]
  intro hne
  by_contra hlen
  rw [← hbit, testBit_eq_false (Nat.le_of_not_lt hlen)] at hne
  cases hne

theorem bitCount_le (bytes : List Byte) : bitCount bytes ≤ 8 * bytes.length :=
  Nat.le_trans List.countP_le_length (Nat.le_of_eq List.length_range)

/-- A string has no more bits than there are positions for them. -/
theorem bitCount_le_of {n : Nat} (h : ∀ i, testBit bytes i → i < n) : bitCount bytes ≤ n := by
  have hsub : (List.range (8 * bytes.length)).filter (testBit bytes) ⊆ List.range n := fun i hi =>
    List.mem_range.mpr (h i (List.mem_filter.mp hi).2)
  have hle := (List.subperm_of_subset (List.nodup_range.filter _) hsub).length_le
  rwa [← List.countP_eq_length_filter, List.length_range] at hle

end Lemmas

end Bitmap
