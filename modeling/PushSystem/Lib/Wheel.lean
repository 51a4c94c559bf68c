import PushSystem.Lib.OrdMap
import Mathlib.Algebra.Order.Group.Defs
import Mathlib.Algebra.BigOperators.Group.List.Basic
import Mathlib.Order.Nat

/-! Roulette wheels: positive weights laid end to end from zero. A point of the wheel lies in the slot of
    one weight, and looking the point up in the ordered table of the slots' ends finds that slot. -/

/-- Slots of positive weight. -/
structure Wheel (ι M : Type) [Zero M] [LT M] where
  slots : List (ι × M)
  pos : ∀ x ∈ slots, 0 < x.2

namespace Wheel

/-! ### Running sums -/

section Marks
variable {ι M : Type} [AddCommGroup M] {l : List (ι × M)} {x : ι × M} {n : Nat}

/-- The end of each slot, laid from `base`, with its name. -/
def marks (base : M) : List (ι × M) → List (M × ι)
  | [] => []
  | (i, w) :: l => (base + w, i) :: marks (base + w) l

/-- Where slot `n` starts: the weight of the slots before it. -/
def startOf (l : List (ι × M)) (n : Nat) : M := ((l.take n).map (·.2)).sum

@[simp] theorem startOf_zero : startOf l 0 = 0 := by simp [startOf]

@[simp] theorem startOf_cons_succ : startOf (x :: l) (n + 1) = x.2 + startOf l n := by simp [startOf]

theorem startOf_succ (h : l[n]? = some x) : startOf l (n + 1) = startOf l n + x.2 := by
  simp [startOf, List.take_add_one, h]

theorem getElem?_marks (base : M) (l : List (ι × M)) (n : Nat) :
    (marks base l)[n]? = l[n]?.map fun x => (base + startOf l (n + 1), x.1) := by
  induction l generalizing base n with
  | nil => simp [marks]
  | cons x l ih =>
    obtain ⟨i, w⟩ := x
    cases n with
    | zero => simp [marks]
    | succ n => simp [marks, ih, add_assoc]

@[simp] theorem length_marks (base : M) (l : List (ι × M)) : (marks base l).length = l.length := by
  induction l generalizing base with
  | nil => rfl
  | cons x l ih => simp [marks, ih]

/-- The ends are the running sums. -/
theorem mem_marks {base : M} {y : M × ι} :
    y ∈ marks base l ↔ ∃ n x, l[n]? = some x ∧ y = (base + startOf l (n + 1), x.1) := by
  simp only [List.mem_iff_getElem?, getElem?_marks, Option.map_eq_some_iff]
  constructor
  · rintro ⟨n, x, hx, rfl⟩
    exact ⟨n, x, hx, rfl⟩
  · rintro ⟨n, x, hx, rfl⟩
    exact ⟨n, x, hx, rfl⟩

end Marks

/-! ### Points and slots -/

section Slots
variable {ι M : Type} [AddCommGroup M] [LinearOrder M] (w : Wheel ι M) {i j : Nat} {r : M}

/-- Where slot `n` starts. -/
def start (n : Nat) : M := startOf w.slots n

/-- The weight of all slots. -/
def total : M := w.start w.slots.length

/-- The point `r` lies in slot `i`: the slots are open at their start, but the first one has zero. -/
def Owns (i : Nat) (r : M) : Prop := i < w.slots.length ∧ (w.start i < r ∨ i = 0 ∧ r = 0) ∧ r ≤ w.start (i + 1)

@[simp] theorem start_zero : w.start 0 = 0 := startOf_zero

theorem start_succ {x : ι × M} (h : w.slots[i]? = some x) : w.start (i + 1) = w.start i + x.2 := startOf_succ h

variable [IsOrderedAddMonoid M]

theorem start_lt_succ (h : i < w.slots.length) : w.start i < w.start (i + 1) := by
  rw [w.start_succ (List.getElem?_eq_getElem h)]
  exact lt_add_of_pos_right _ (w.pos _ (List.getElem_mem h))

theorem start_lt (hij : i < j) (hj : j ≤ w.slots.length) : w.start i < w.start j := by
  induction j with
  | zero => omega
  | succ j ih =>
    have hlast := w.start_lt_succ (i := j) (by omega)
    rcases Nat.lt_succ_iff_lt_or_eq.mp hij with hlt | rfl
    · exact (ih hlt (by omega)).trans hlast
    · exact hlast

theorem start_le (hij : i ≤ j) (hj : j ≤ w.slots.length) : w.start i ≤ w.start j := by
  rcases hij.lt_or_eq with hlt | rfl
  · exact (w.start_lt hlt hj).le
  · exact le_rfl

theorem start_nonneg (h : i ≤ w.slots.length) : 0 ≤ w.start i := by
  have := w.start_le (Nat.zero_le i) h
  rwa [start_zero] at this

/-- Every point up to the total lies in a slot. -/
theorem exists_owns (hne : w.slots ≠ []) (h0 : 0 ≤ r) (hr : r ≤ w.total) : ∃ i, w.Owns i r := by
  have hlen : 0 < w.slots.length := List.length_pos_iff.mpr hne
  rcases h0.lt_or_eq with hpos | rfl
  · -- The slot ends at the first of the starts that is not before `r`.
    have hex : ∃ n, r ≤ w.start n := ⟨_, hr⟩
    obtain ⟨i, hi⟩ : ∃ i, Nat.find hex = i + 1 := by
      refine Nat.exists_eq_succ_of_ne_zero fun h => ?_
      have := Nat.find_spec hex
      rw [h, start_zero] at this
      exact absurd this (not_le.mpr hpos)
    have hbefore : ¬r ≤ w.start i := Nat.find_min hex (by omega)
    have hle : Nat.find hex ≤ w.slots.length := Nat.find_min' hex hr
    exact ⟨i, by omega, Or.inl (not_le.mp hbefore), hi ▸ Nat.find_spec hex⟩
  · exact ⟨0, hlen, Or.inr ⟨rfl, rfl⟩, w.start_nonneg hlen⟩

theorem not_owns_of_lt (hi : w.Owns i r) (hij : i < j) : ¬w.Owns j r := by
  rintro ⟨hj, hstart, -⟩
  rcases hstart with hlt | ⟨rfl, -⟩
  · exact absurd (hi.2.2.trans (w.start_le hij hj.le)) (not_le.mpr hlt)
  · omega

theorem owns_unique (hi : w.Owns i r) (hj : w.Owns j r) : i = j := by
  rcases lt_trichotomy i j with h | h | h
  · exact absurd hj (w.not_owns_of_lt hi h)
  · exact h
  · exact absurd hi (w.not_owns_of_lt hj h)

/-- The end of a slot lies in it. -/
theorem owns_end (h : i < w.slots.length) : w.Owns i (w.start (i + 1)) := ⟨h, Or.inl (w.start_lt_succ h), le_rfl⟩

/-! ### The table of ends -/

theorem pairwise_marks : (marks 0 w.slots).Pairwise fun x y => x.1 < y.1 := by
  rw [List.pairwise_iff_getElem]
  intro i j hi hj hij
  have hget : ∀ n (hn : n < (marks 0 w.slots).length), (marks 0 w.slots)[n].1 = w.start (n + 1) := by
    intro n hn
    have := getElem?_marks 0 w.slots n
    rw [List.getElem?_eq_getElem hn, List.getElem?_eq_getElem (length_marks 0 w.slots ▸ hn), Option.map_some,
      Option.some.injEq] at this
    rw [this, zero_add, start]
  rw [hget i hi, hget j hj]
  exact w.start_lt (by omega) (length_marks 0 w.slots ▸ hj)

/-- The ends of the slots, in order. -/
def table : OrdMap M ι := ⟨marks 0 w.slots, w.pairwise_marks⟩

theorem getElem?_table (i : Nat) : w.table.entries[i]? = w.slots[i]?.map fun x => (w.start (i + 1), x.1) := by
  rw [table, getElem?_marks]
  simp [start]

/-- Looking a point up finds its slot. -/
theorem lowerBound_table {x : ι × M} (hx : w.slots[i]? = some x) (h : w.Owns i r) :
    w.table.lowerBound r = some (w.start (i + 1), x.1) := by
  obtain ⟨hi, hstart, hend⟩ := h
  have hentry : ∀ n y, w.table.entries[n]? = some y → y.1 = w.start (n + 1) ∧ n < w.slots.length := by
    intro n y hy
    rw [getElem?_table, Option.map_eq_some_iff] at hy
    obtain ⟨z, hz, rfl⟩ := hy
    exact ⟨rfl, (List.getElem?_eq_some_iff.mp hz).1⟩
  have hget : w.table.entries[i]? = some (w.start (i + 1), x.1) := by rw [getElem?_table, hx, Option.map_some]
  obtain ⟨hlt, heq⟩ := List.getElem?_eq_some_iff.mp hget
  rw [OrdMap.lowerBound, List.find?_eq_some_iff_getElem]
  refine ⟨by simpa using hend, i, hlt, heq, fun j hj => ?_⟩
  obtain ⟨hkey, hjlen⟩ := hentry j _ (List.getElem?_eq_getElem (hj.trans hlt))
  rw [hkey]
  rcases hstart with hlt | ⟨rfl, -⟩
  · simpa using (w.start_le hj hi.le).trans_lt hlt
  · omega

theorem last?_table {x : ι × M} (hx : w.slots.getLast? = some x) : w.table.last? = some (w.total, x.1) := by
  rw [OrdMap.last?, List.getLast?_eq_getElem?, getElem?_table]
  have hlen : w.table.entries.length = w.slots.length := length_marks 0 w.slots
  have hne : w.slots.length ≠ 0 := by
    intro h
    rw [List.length_eq_zero_iff.mp h] at hx
    cases hx
  rw [List.getLast?_eq_getElem?] at hx
  rw [hlen, hx, Option.map_some, total, Nat.sub_add_cancel (Nat.pos_of_ne_zero hne)]

end Slots

end Wheel
