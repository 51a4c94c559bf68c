import Mathlib.Order.Basic
import Mathlib.Data.List.Basic
import Mathlib.Data.List.Pairwise
import Mathlib.Data.Finset.Card

/-! Ordered finite maps, the meaning of a balanced search tree: a list of entries whose keys strictly
    increase. An ordered set is a map to `Unit`. The order of the keys is carried by the structure, so
    every operation below builds it again and nothing that uses a map has to. -/

namespace OrdMap

/-- The order of the machine words, as the comparison of the values they hold. -/
instance instLinearOrderUInt64 : LinearOrder UInt64 where
  le_refl a := UInt64.le_refl a
  le_trans _ _ _ := UInt64.le_trans
  le_antisymm _ _ := UInt64.le_antisymm
  le_total := UInt64.le_total
  lt_iff_le_not_ge a b := by
    simp only [UInt64.lt_iff_toNat_lt, UInt64.le_iff_toNat_le]
    omega
  toDecidableLE := inferInstance
  toDecidableEq := inferInstance
  toDecidableLT := inferInstance
  min_def _ _ := rfl
  max_def _ _ := rfl

end OrdMap

/-- A finite map with its entries in the order of their keys. -/
structure OrdMap (κ α : Type) [LinearOrder κ] where
  entries : List (κ × α)
  sorted : entries.Pairwise fun x y => x.1 < y.1

/-- A finite set in the order of its elements. -/
abbrev OrdSet (κ : Type) [LinearOrder κ] := OrdMap κ Unit

namespace OrdMap
variable {κ α β : Type} [LinearOrder κ]

/-! ### Entries -/

/-- Stores `v` under `k` in a list of entries in order. -/
def setEntry (k : κ) (v : α) : List (κ × α) → List (κ × α)
  | [] => [(k, v)]
  | x :: l => if k < x.1 then (k, v) :: x :: l else if k = x.1 then (k, v) :: l else x :: setEntry k v l

theorem mem_setEntry {k : κ} {v : α} {y : κ × α} :
    ∀ {l : List (κ × α)}, l.Pairwise (fun x y => x.1 < y.1) →
      (y ∈ setEntry k v l ↔ y = (k, v) ∨ y ∈ l ∧ y.1 ≠ k)
  | [], _ => by simp [setEntry]
  | x :: l, hl => by
    have ih := mem_setEntry (k := k) (v := v) (y := y) (List.Pairwise.of_cons hl)
    have hx : ∀ z ∈ l, x.1 < z.1 := fun z hz => List.rel_of_pairwise_cons hl hz
    unfold setEntry
    split
    next hlt =>
      have hne : ∀ z ∈ x :: l, z.1 ≠ k := by
        intro z hz
        rcases List.mem_cons.mp hz with rfl | hz
        · exact hlt.ne'
        · exact (hlt.trans (hx z hz)).ne'
      simp only [List.mem_cons]
      constructor
      · rintro (h | h)
        · exact Or.inl h
        · exact Or.inr ⟨h, hne y (List.mem_cons.mpr h)⟩
      · rintro (h | h)
        · exact Or.inl h
        · exact Or.inr h.1
    next hlt =>
      split
      next heq =>
        have hne : ∀ z ∈ l, z.1 ≠ k := fun z hz => heq ▸ (hx z hz).ne'
        simp only [List.mem_cons]
        constructor
        · rintro (h | h)
          · exact Or.inl h
          · exact Or.inr ⟨Or.inr h, hne y h⟩
        · rintro (h | ⟨rfl | h, hk⟩)
          · exact Or.inl h
          · exact absurd heq.symm hk
          · exact Or.inr h
      next heq =>
        rw [List.mem_cons, ih, List.mem_cons]
        constructor
        · rintro (rfl | h | ⟨h, hk⟩)
          · exact Or.inr ⟨Or.inl rfl, Ne.symm heq⟩
          · exact Or.inl h
          · exact Or.inr ⟨Or.inr h, hk⟩
        · rintro (h | ⟨rfl | h, hk⟩)
          · exact Or.inr (Or.inl h)
          · exact Or.inl rfl
          · exact Or.inr (Or.inr ⟨h, hk⟩)

theorem pairwise_setEntry (k : κ) (v : α) :
    ∀ {l : List (κ × α)}, l.Pairwise (fun x y => x.1 < y.1) →
      (setEntry k v l).Pairwise fun x y => x.1 < y.1
  | [], _ => by simp [setEntry]
  | x :: l, hl => by
    have hl' := List.Pairwise.of_cons hl
    have hx : ∀ z ∈ l, x.1 < z.1 := fun z hz => List.rel_of_pairwise_cons hl hz
    unfold setEntry
    split
    next hlt =>
      refine List.pairwise_cons.mpr ⟨fun z hz => ?_, hl⟩
      rcases List.mem_cons.mp hz with rfl | hz
      · exact hlt
      · exact hlt.trans (hx z hz)
    next hlt =>
      split
      next heq => exact List.pairwise_cons.mpr ⟨fun z hz => heq ▸ hx z hz, hl'⟩
      next heq =>
        refine List.pairwise_cons.mpr ⟨fun z hz => ?_, pairwise_setEntry k v hl'⟩
        rcases (mem_setEntry hl').mp hz with rfl | ⟨hz, -⟩
        · exact lt_of_le_of_ne (not_lt.mp hlt) (Ne.symm heq)
        · exact hx z hz

/-! ### Operations -/

/-- The map without entries. -/
def empty : OrdMap κ α := ⟨[], List.Pairwise.nil⟩

instance : EmptyCollection (OrdMap κ α) := ⟨empty⟩

/-- The value stored under `k`. -/
def find? (m : OrdMap κ α) (k : κ) : Option α := (m.entries.find? fun x => x.1 = k).map (·.2)

/-- Stores `v` under `k`, over an older value. -/
def set (m : OrdMap κ α) (k : κ) (v : α) : OrdMap κ α := ⟨setEntry k v m.entries, pairwise_setEntry k v m.sorted⟩

/-- Stores `v` under `k` unless a value is there already. -/
def insertNew (m : OrdMap κ α) (k : κ) (v : α) : OrdMap κ α := if (m.find? k).isSome then m else m.set k v

/-- Removes the entry of `k`. -/
def erase (m : OrdMap κ α) (k : κ) : OrdMap κ α :=
  ⟨m.entries.filter fun x => x.1 ≠ k, m.sorted.filter _⟩

/-- Applies `f` to every value. -/
def mapValues (m : OrdMap κ α) (f : α → β) : OrdMap κ β :=
  ⟨m.entries.map fun x => (x.1, f x.2), by
    rw [List.pairwise_map]
    exact m.sorted⟩

/-- The number of entries. -/
def size (m : OrdMap κ α) : Nat := m.entries.length

/-- The entry with the least key. -/
def first? (m : OrdMap κ α) : Option (κ × α) := m.entries.head?

/-- The entry with the greatest key. -/
def last? (m : OrdMap κ α) : Option (κ × α) := m.entries.getLast?

/-- The first entry whose key is not less than `k`. -/
def lowerBound (m : OrdMap κ α) (k : κ) : Option (κ × α) := m.entries.find? fun x => k ≤ x.1

instance : Membership κ (OrdMap κ α) := ⟨fun m k => (m.find? k).isSome = true⟩

instance (k : κ) (m : OrdMap κ α) : Decidable (k ∈ m) := inferInstanceAs (Decidable ((m.find? k).isSome = true))

instance [DecidableEq α] : DecidableEq (OrdMap κ α) := fun a b =>
  decidable_of_iff (a.entries = b.entries) (by cases a; cases b; simp)

/-! ### What an entry is -/

theorem mem_iff {m : OrdMap κ α} {k : κ} : k ∈ m ↔ ∃ v, m.find? k = some v := Option.isSome_iff_exists

theorem not_mem_iff {m : OrdMap κ α} {k : κ} : k ∉ m ↔ m.find? k = none := by
  rw [mem_iff]
  cases m.find? k <;> simp

theorem eq_of_mem_entries {m : OrdMap κ α} {k : κ} {v w : α} (hv : (k, v) ∈ m.entries) (hw : (k, w) ∈ m.entries) :
    v = w := by
  obtain ⟨l, hl⟩ := m
  simp only at hv hw
  induction l with
  | nil => cases hv
  | cons x l ih =>
    have hx : ∀ z ∈ l, x.1 < z.1 := fun z hz => List.rel_of_pairwise_cons hl hz
    rcases List.mem_cons.mp hv with h1 | h1 <;> rcases List.mem_cons.mp hw with h2 | h2
    · exact congrArg (·.2) (h1.trans h2.symm)
    · exact absurd (hx _ h2) (by simp [← h1])
    · exact absurd (hx _ h1) (by simp [← h2])
    · exact ih (List.Pairwise.of_cons hl) h1 h2

theorem find?_eq_some_iff {m : OrdMap κ α} {k : κ} {v : α} : m.find? k = some v ↔ (k, v) ∈ m.entries := by
  constructor
  · intro h
    obtain ⟨⟨k', v'⟩, hf, rfl⟩ := Option.map_eq_some_iff.mp h
    obtain rfl : k' = k := by simpa using List.find?_some hf
    exact List.mem_of_find?_eq_some hf
  · intro h
    cases hf : m.find? k with
    | none =>
      have := List.find?_eq_none.mp (Option.map_eq_none_iff.mp hf) (k, v) h
      simp at this
    | some w =>
      obtain ⟨⟨k', v'⟩, hf', rfl⟩ := Option.map_eq_some_iff.mp hf
      obtain rfl : k' = k := by simpa using List.find?_some hf'
      rw [eq_of_mem_entries (List.mem_of_find?_eq_some hf') h]

theorem mem_of_entry {m : OrdMap κ α} {k : κ} {v : α} (h : (k, v) ∈ m.entries) : k ∈ m :=
  mem_iff.mpr ⟨v, find?_eq_some_iff.mpr h⟩

theorem mem_iff_entry {m : OrdMap κ α} {k : κ} : k ∈ m ↔ ∃ v, (k, v) ∈ m.entries := by
  simp only [mem_iff, find?_eq_some_iff]

/-! ### Lookups after an operation -/

section Lookups
variable (m : OrdMap κ α) (k k' : κ) (v : α)

@[simp] theorem find?_empty : (∅ : OrdMap κ α).find? k = none := rfl

@[simp] theorem not_mem_empty : k ∉ (∅ : OrdMap κ α) := by simp [not_mem_iff]

theorem find?_set : (m.set k v).find? k' = if k = k' then some v else m.find? k' := by
  ext w
  rw [find?_eq_some_iff]
  show (k', w) ∈ setEntry k v m.entries ↔ _
  rw [mem_setEntry m.sorted]
  split
  next h => simp [h, eq_comm]
  next h => simp [Ne.symm h, find?_eq_some_iff]

/-- What is found after an update: the new value at its key, or what was there at another. -/
theorem find?_set_eq_some_iff {m : OrdMap κ α} {k k' : κ} {v w : α} :
    (m.set k v).find? k' = some w ↔ (k' = k ∧ w = v) ∨ (k' ≠ k ∧ m.find? k' = some w) := by
  rw [find?_set]
  split
  next h => simp [h, eq_comm]
  next h => simp [Ne.symm h]

@[simp] theorem find?_set_self : (m.set k v).find? k = some v := by simp [find?_set]

theorem find?_insertNew : (m.insertNew k v).find? k' = if k = k' ∧ k ∉ m then some v else m.find? k' := by
  unfold insertNew
  by_cases hk : k ∈ m
  · have : (m.find? k).isSome = true := hk
    simp [this, hk]
  · have : (m.find? k).isSome = false := by simpa using not_mem_iff.mp hk
    simp [this, hk, find?_set]

theorem insertNew_of_mem {m : OrdMap κ α} {k : κ} {v : α} (h : k ∈ m) : m.insertNew k v = m := by
  have : (m.find? k).isSome = true := h
  simp [insertNew, this]

theorem find?_erase : (m.erase k).find? k' = if k = k' then none else m.find? k' := by
  ext w
  rw [find?_eq_some_iff]
  simp only [erase, List.mem_filter, decide_eq_true_eq]
  split
  next h => simp [h]
  next h => simp [Ne.symm h, find?_eq_some_iff]

theorem find?_erase_eq_some_iff {m : OrdMap κ α} {k k' : κ} {w : α} :
    (m.erase k).find? k' = some w ↔ k' ≠ k ∧ m.find? k' = some w := by
  rw [find?_erase]
  split
  next h => simp [h]
  next h => simp [Ne.symm h]

@[simp] theorem find?_erase_self : (m.erase k).find? k = none := by simp [find?_erase]

@[simp] theorem find?_mapValues (f : α → β) : (m.mapValues f).find? k = (m.find? k).map f := by
  simp only [find?, mapValues, List.find?_map, Option.map_map]
  rfl

theorem mem_set : k' ∈ m.set k v ↔ k' = k ∨ k' ∈ m := by
  simp only [mem_iff, find?_set]
  by_cases h : k = k'
  · simp [h]
  · simp [h, Ne.symm h]

theorem mem_insertNew : k' ∈ m.insertNew k v ↔ k' = k ∨ k' ∈ m := by
  by_cases hk : k ∈ m
  · have heq : ∀ k', (m.insertNew k v).find? k' = m.find? k' := fun k' => by simp [find?_insertNew, hk]
    have : k' ∈ m.insertNew k v ↔ k' ∈ m := by simp only [mem_iff, heq]
    rw [this]
    exact ⟨Or.inr, fun h => h.elim (fun h => h ▸ hk) id⟩
  · simp only [mem_iff, find?_insertNew, hk, not_false_eq_true, and_true]
    by_cases h : k = k'
    · simp [h]
    · simp [h, Ne.symm h]

theorem mem_erase : k' ∈ m.erase k ↔ k' ≠ k ∧ k' ∈ m := by
  simp only [mem_iff, find?_erase]
  by_cases h : k = k'
  · simp [h]
  · simp [h, Ne.symm h]

@[simp] theorem mem_mapValues (f : α → β) : k ∈ m.mapValues f ↔ k ∈ m := by
  simp [mem_iff]

end Lookups

/-! ### First, last and lower bound -/

theorem mem_of_first? {m : OrdMap κ α} {x : κ × α} (h : m.first? = some x) : x ∈ m.entries :=
  List.mem_of_head? h

theorem mem_of_lowerBound {m : OrdMap κ α} {k : κ} {x : κ × α} (h : m.lowerBound k = some x) : x ∈ m.entries :=
  List.mem_of_find?_eq_some h

theorem mem_of_last? {m : OrdMap κ α} {x : κ × α} (h : m.last? = some x) : x ∈ m.entries :=
  List.mem_of_getLast? h

theorem first?_eq_none_iff {m : OrdMap κ α} : m.first? = none ↔ ∀ k, k ∉ m := by
  simp only [first?, List.head?_eq_none_iff, mem_iff_entry, not_exists]
  constructor
  · intro h k v
    simp [h]
  · intro h
    cases hl : m.entries with
    | nil => rfl
    | cons x l => exact absurd (hl ▸ List.mem_cons_self) (h x.1 x.2)

theorem last?_eq_none_iff {m : OrdMap κ α} : m.last? = none ↔ ∀ k, k ∉ m := by
  rw [← first?_eq_none_iff, last?, first?, List.getLast?_eq_none_iff, List.head?_eq_none_iff]

theorem size_eq_zero_iff {m : OrdMap κ α} : m.size = 0 ↔ ∀ k, k ∉ m := by
  rw [← first?_eq_none_iff, size, first?, List.length_eq_zero_iff, List.head?_eq_none_iff]

/-- The last entry's key is the greatest. -/
theorem le_last? {m : OrdMap κ α} {x y : κ × α} (h : m.last? = some x) (hy : y ∈ m.entries) : y.1 ≤ x.1 := by
  obtain ⟨l, hl⟩ := List.getLast?_eq_some_iff.mp h
  have hp := m.sorted
  rw [hl, List.pairwise_append] at hp
  rw [hl, List.mem_append, List.mem_singleton] at hy
  rcases hy with hy | rfl
  · exact (hp.2.2 y hy x List.mem_cons_self).le
  · exact le_rfl

/-- The first entry's key is the least. -/
theorem first?_le {m : OrdMap κ α} {x y : κ × α} (h : m.first? = some x) (hy : y ∈ m.entries) : x.1 ≤ y.1 := by
  obtain ⟨l, hl⟩ := List.head?_eq_some_iff.mp h
  have hp := m.sorted
  rw [hl] at hp hy
  rcases List.mem_cons.mp hy with rfl | hy
  · exact le_rfl
  · exact (List.rel_of_pairwise_cons hp hy).le

/-- A lower bound exists unless the key exceeds the greatest key of the map. -/
theorem lowerBound_isSome_iff {m : OrdMap κ α} {k : κ} :
    (m.lowerBound k).isSome = true ↔ ∃ x, m.last? = some x ∧ k ≤ x.1 := by
  simp only [lowerBound, List.find?_isSome, decide_eq_true_eq]
  constructor
  · rintro ⟨y, hy, hk⟩
    cases hl : m.last? with
    | none => rw [last?, List.getLast?_eq_none_iff] at hl; simp [hl] at hy
    | some x => exact ⟨x, rfl, hk.trans (le_last? hl hy)⟩
  · rintro ⟨x, hx, hk⟩
    exact ⟨x, mem_of_last? hx, hk⟩

/-! ### Sizes -/

/-- The keys of the entries. -/
def keys (m : OrdMap κ α) : Finset κ := (m.entries.map (·.1)).toFinset

@[simp] theorem mem_keys {m : OrdMap κ α} {k : κ} : k ∈ m.keys ↔ k ∈ m := by
  simp only [keys, List.mem_toFinset, List.mem_map, mem_iff_entry]
  constructor
  · rintro ⟨x, hx, rfl⟩
    exact ⟨x.2, hx⟩
  · rintro ⟨v, hv⟩
    exact ⟨(k, v), hv, rfl⟩

theorem size_eq_card (m : OrdMap κ α) : m.size = m.keys.card := by
  have hnodup : (m.entries.map (·.1)).Nodup := List.pairwise_map.mpr (m.sorted.imp fun h => h.ne)
  rw [keys, List.toFinset_card_of_nodup hnodup, List.length_map, size]

theorem size_eq_card_of_mem {m : OrdMap κ α} {l : Finset κ} (h : ∀ k, k ∈ m ↔ k ∈ l) : m.size = l.card := by
  rw [size_eq_card, Finset.ext fun k => mem_keys.trans (h k)]

theorem size_le_of_mem {m : OrdMap κ α} {m' : OrdMap κ β} (h : ∀ k, k ∈ m → k ∈ m') : m.size ≤ m'.size := by
  rw [size_eq_card, size_eq_card]
  exact Finset.card_le_card fun k hk => mem_keys.mpr (h k (mem_keys.mp hk))

theorem keys_set (m : OrdMap κ α) (k : κ) (v : α) : (m.set k v).keys = insert k m.keys := by
  ext k'
  simp [mem_set]

theorem size_set_of_not_mem {m : OrdMap κ α} {k : κ} (v : α) (h : k ∉ m) : (m.set k v).size = m.size + 1 := by
  rw [size_eq_card, keys_set, Finset.card_insert_of_notMem (mt mem_keys.mp h), ← size_eq_card]

theorem size_set_le (m : OrdMap κ α) (k : κ) (v : α) : (m.set k v).size ≤ m.size + 1 := by
  rw [size_eq_card, keys_set, size_eq_card]
  exact Finset.card_insert_le _ _

theorem size_erase {m : OrdMap κ α} {k : κ} (h : k ∈ m) : (m.erase k).size + 1 = m.size := by
  have hkeys : (m.erase k).keys = m.keys.erase k := by
    ext k'
    simp [mem_erase]
  rw [size_eq_card, hkeys, Finset.card_erase_add_one (mem_keys.mpr h), ← size_eq_card]

/-! ### Storing a list of entries -/

/-- Stores the entries of `l` one after the other. -/
def setAll (m : OrdMap κ α) (l : List (κ × α)) : OrdMap κ α := l.foldl (fun m x => m.set x.1 x.2) m

theorem mem_setAll {m : OrdMap κ α} {l : List (κ × α)} {k : κ} : k ∈ m.setAll l ↔ k ∈ m ∨ ∃ v, (k, v) ∈ l := by
  induction l generalizing m with
  | nil => simp [setAll]
  | cons x l ih =>
    have hcons : m.setAll (x :: l) = (m.set x.1 x.2).setAll l := rfl
    rw [hcons, ih, mem_set]
    constructor
    · rintro ((rfl | hk) | ⟨v, hv⟩)
      · exact Or.inr ⟨x.2, List.mem_cons_self⟩
      · exact Or.inl hk
      · exact Or.inr ⟨v, List.mem_cons_of_mem _ hv⟩
    · rintro (hk | ⟨v, hv⟩)
      · exact Or.inl (Or.inr hk)
      · rcases List.mem_cons.mp hv with rfl | hv
        · exact Or.inl (Or.inl rfl)
        · exact Or.inr ⟨v, hv⟩

theorem setEntry_of_lt {l : List (κ × α)} {k : κ} {v : α} (h : ∀ x ∈ l, x.1 < k) : setEntry k v l = l ++ [(k, v)] := by
  induction l with
  | nil => rfl
  | cons x l ih =>
    have hx := h x List.mem_cons_self
    rw [setEntry, if_neg hx.asymm, if_neg hx.ne', ih fun y hy => h y (List.mem_cons_of_mem _ hy), List.cons_append]

theorem entries_setAll {m : OrdMap κ α} {l : List (κ × α)} (h : (m.entries ++ l).Pairwise fun x y => x.1 < y.1) :
    (m.setAll l).entries = m.entries ++ l := by
  induction l generalizing m with
  | nil => simp [setAll]
  | cons x l ih =>
    have hset : (m.set x.1 x.2).entries = m.entries ++ [x] :=
      setEntry_of_lt fun y hy => (List.pairwise_append.mp h).2.2 y hy x List.mem_cons_self
    have hcons : m.setAll (x :: l) = (m.set x.1 x.2).setAll l := rfl
    rw [hcons, ih, hset, List.append_assoc, List.singleton_append]
    rwa [hset, List.append_assoc, List.singleton_append]

/-- Entries in order are kept as they are. -/
theorem setAll_empty {m : OrdMap κ α} : (∅ : OrdMap κ α).setAll m.entries = m := by
  obtain ⟨l, hl⟩ := m
  have := entries_setAll (m := (∅ : OrdMap κ α)) (l := l) hl
  generalize hs : (∅ : OrdMap κ α).setAll l = t at this ⊢
  obtain ⟨l', hl'⟩ := t
  congr

end OrdMap
