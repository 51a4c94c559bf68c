import Mathlib.Algebra.Ring.Nat
import Mathlib.Data.List.Basic
import Mathlib.Data.List.Count

/-! Counting the elements of a list that one element replaces or joins. -/

namespace Count
variable {α : Type} {p : α → Bool} {l : List α} {i : Nat} {a b : α}

/-- Replacing `a` by `b` takes `a` out of the count and `b` in. -/
theorem countP_set (h : l[i]? = some a) :
    (l.set i b).countP p + (if p a then 1 else 0) = l.countP p + (if p b then 1 else 0) := by
  obtain ⟨hi, ha⟩ := List.getElem?_eq_some_iff.mp h
  rw [List.countP_set hi, ha]
  have hpos : (if p a then 1 else 0) ≤ l.countP p := by
    split
    next hp => exact List.countP_pos_iff.mpr ⟨a, ha ▸ List.getElem_mem hi, hp⟩
    next => exact Nat.zero_le _
  omega

/-- Counting the positions of a list, and of `n` more behind its end. -/
theorem countP_getElem? (l : List α) (n : Nat) (q : Option α → Bool) :
    (List.range (l.length + n)).countP (fun k => q l[k]?) = l.countP (fun x => q (some x)) + if q none then n else 0 := by
  induction l with
  | nil => cases hq : q none <;> simp [hq]
  | cons a l ih =>
    have hlen : (a :: l).length + n = l.length + n + 1 := by
      rw [List.length_cons]
      omega
    rw [hlen, List.range_succ_eq_map, List.countP_cons, List.countP_map, List.countP_cons]
    simp only [Function.comp_def, List.getElem?_cons_succ, List.getElem?_cons_zero, ih]
    omega

theorem countP_snoc : (l ++ [a]).countP p = l.countP p + (if p a then 1 else 0) := by
  simp [List.countP_append, List.countP_cons]

/-- Replacing `a` by `b` takes the value of `a` out of the sum and that of `b` in. -/
theorem sum_map_set (f : α → Nat) (h : l[i]? = some a) :
    ((l.set i b).map f).sum + f a = (l.map f).sum + f b := by
  induction l generalizing i with
  | nil => simp at h
  | cons x xs ih =>
    cases i with
    | zero =>
      obtain rfl := Option.some.inj h
      simp only [List.set_cons_zero, List.map_cons, List.sum_cons]
      omega
    | succ i =>
      have := ih h
      simp only [List.set_cons_succ, List.map_cons, List.sum_cons]
      omega

theorem sum_map_add_ite (f : α → Nat) (p : α → Bool) (l : List α) :
    (l.map fun x => f x + if p x then 1 else 0).sum = (l.map f).sum + l.countP p := by
  induction l with
  | nil => rfl
  | cons x xs ih =>
    simp only [List.map_cons, List.sum_cons, List.countP_cons, ih]
    omega

/-- Two positions of a list that counts at most one are one. -/
theorem eq_of_countP_le_one {j : Nat} (h : l.countP p ≤ 1) (hi : l[i]? = some a) (hj : l[j]? = some b) (ha : p a)
    (hb : p b) : i = j := by
  have hnone : ∀ {x : α} {xs : List α} {k : Nat} {c : α}, (x :: xs).countP p ≤ 1 → p x → xs[k]? = some c → ¬p c := by
    intro x xs k c hle hx hk hc
    have hpos : 0 < xs.countP p := List.countP_pos_iff.mpr ⟨c, List.mem_of_getElem? hk, hc⟩
    rw [List.countP_cons_of_pos hx] at hle
    omega
  induction l generalizing i j with
  | nil => cases hi
  | cons x xs ih =>
    cases i with
    | zero =>
      obtain rfl := Option.some.inj hi
      cases j with
      | zero => rfl
      | succ j => exact absurd hb (hnone h ha hj)
    | succ i =>
      cases j with
      | zero =>
        obtain rfl := Option.some.inj hj
        exact absurd ha (hnone h hb hi)
      | succ j => rw [ih (Nat.le_trans (List.sublist_cons_self x xs).countP_le h) hi hj]

/-- An element of a list splits it, and the lists that replace the element or leave it out. -/
theorem exists_append_of_getElem? (h : l[i]? = some a) :
    ∃ l₁ l₂, l = l₁ ++ a :: l₂ ∧ (∀ b, l.set i b = l₁ ++ b :: l₂) ∧ l.eraseIdx i = l₁ ++ l₂ := by
  obtain ⟨hi, rfl⟩ := List.getElem?_eq_some_iff.mp h
  refine ⟨l.take i, l.drop (i + 1), ?_, fun b => ?_, List.eraseIdx_eq_take_drop_succ l i⟩
  · rw [← List.drop_eq_getElem_cons hi, List.take_append_drop]
  · rw [List.set_eq_take_append_cons_drop, if_pos hi]

/-- What `l.set i b` holds is `b` or an element of `l`. -/
theorem mem_set {x : α} (h : x ∈ l.set i b) : x = b ∨ x ∈ l := (List.mem_or_eq_of_mem_set h).symm

theorem getElem?_snoc_of_some (h : l[i]? = some a) : (l ++ [b])[i]? = some a := by
  rw [List.getElem?_append_left (List.getElem?_eq_some_iff.mp h).1, h]

theorem of_getElem?_snoc {x : α} (h : (l ++ [b])[i]? = some x) : l[i]? = some x ∨ i = l.length ∧ x = b := by
  rcases Nat.lt_trichotomy i l.length with hi | rfl | hi
  · exact Or.inl (List.getElem?_append_left hi ▸ h)
  · exact Or.inr ⟨rfl, by simpa [eq_comm] using h⟩
  · rw [List.getElem?_eq_none (by simpa using Nat.succ_le_of_lt hi)] at h
    cases h

theorem of_getElem?_set {j : Nat} {x : α} (h : (l.set i b)[j]? = some x) : i = j ∧ x = b ∨ i ≠ j ∧ l[j]? = some x := by
  rw [List.getElem?_set] at h
  split at h
  next hij =>
    split at h
    next => exact Or.inl ⟨hij, (Option.some.inj h).symm⟩
    next => cases h
  next hij => exact Or.inr ⟨hij, h⟩

end Count
