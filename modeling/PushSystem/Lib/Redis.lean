import Mathlib.Logic.Function.Basic
import PushSystem.Lib.Bitmap

/-! A Redis server whose values are strings: its keys, the commands on bitmaps with their documented
    meaning, and what they do to a key. -/

namespace Redis
open Bitmap

/-- A value, and the seconds it was last given to live if it expires. -/
structure Entry where
  bytes : List Byte
  expiry : Option Nat := none
  deriving DecidableEq

abbrev Store (κ : Type) := κ → Option Entry

inductive BitOperation where
  | and
  | xor
  deriving DecidableEq

inductive Command (κ : Type) where
  | del (key : κ)
  | existsKey (key : κ)
  | setrange (key : κ) (offset : Nat) (value : List Byte)
  | rename (key newKey : κ)
  | bitop (op : BitOperation) (dest : κ) (first : κ) (rest : List κ)
  | bitcount (key : κ)
  | expire (key : κ) (seconds : Nat)
  | getrange (key : κ) (first last : Nat)
  deriving DecidableEq

inductive Reply where
  | integer (n : Nat)
  | str (bytes : List Byte)
  | status
  | nil
  | error
  deriving DecidableEq

namespace Reply

/-- The field `integer` of a reply, which is zero unless it is set. -/
def toInteger : Reply → Nat
  | integer n => n
  | _ => 0

/-- The field `str` of a reply, which is a null pointer unless it is set. -/
def toStr : Reply → Option (List Byte)
  | str bytes => some bytes
  | status => some [0x4F, 0x4B]
  | _ => none

end Reply

def BitOperation.apply : BitOperation → Byte → Byte → Byte
  | .and => (· &&& ·)
  | .xor => (· ^^^ ·)

namespace Store
variable {κ : Type} [DecidableEq κ]

/-- A key that does not exist counts as the empty string. -/
def value (s : Store κ) (key : κ) : List Byte := ((s key).map (·.bytes)).getD []

def set (s : Store κ) (key : κ) (bytes : List Byte) (expiry : Option Nat) : Store κ :=
  Function.update s key (some ⟨bytes, expiry⟩)

def remove (s : Store κ) (key : κ) : Store κ := Function.update s key none

/-- The result of `BITOP`. -/
def bitop (s : Store κ) (op : BitOperation) (first : κ) (rest : List κ) : List Byte :=
  rest.foldl (fun bytes key => combine op.apply bytes (s.value key)) (s.value first)

/-- Executes a command: the reply and the store afterwards. -/
def exec (s : Store κ) : Command κ → Reply × Store κ
  | .del key => (.integer (if (s key).isSome then 1 else 0), s.remove key)
  | .existsKey key => (.integer (if (s key).isSome then 1 else 0), s)
  | .setrange key offset value =>
    if value.isEmpty then (.integer (s.value key).length, s)
    else
      let bytes := setRange (s.value key) offset value
      (.integer bytes.length, s.set key bytes ((s key).bind (·.expiry)))
  | .rename key newKey =>
    match s key with
    | some entry => (.status, Function.update (s.remove key) newKey (some entry))
    | none => (.error, s)
  | .bitop op dest first rest =>
    let bytes := s.bitop op first rest
    (.integer bytes.length, if bytes.isEmpty then s.remove dest else s.set dest bytes none)
  | .bitcount key => (.integer (bitCount (s.value key)), s)
  | .expire key seconds =>
    match s key with
    | some entry => (.integer 1, s.set key entry.bytes (some seconds))
    | none => (.integer 0, s)
  | .getrange key first last => (.str (getRange (s.value key) first last), s)

end Store

/-- The keys that a command can change. -/
def Command.writes {κ : Type} : Command κ → List κ
  | .del key => [key]
  | .setrange key _ _ => [key]
  | .rename key newKey => [key, newKey]
  | .bitop _ dest _ _ => [dest]
  | .expire key _ => [key]
  | .existsKey _ | .bitcount _ | .getrange _ _ _ => []

/-- A second execution in a row changes nothing and gets an answer. -/
def Command.Repeatable {κ : Type} : Command κ → Prop
  | .rename _ _ => False
  | .bitop _ dest first rest => dest ∉ first :: rest
  | _ => True

namespace Store
variable {κ : Type} {s t : Store κ} {key : κ}

theorem value_of_eq (h : t key = s key) : t.value key = s.value key := by simp [value, h]

theorem value_of_none (h : s key = none) : s.value key = [] := by simp [value, h]

theorem exists_of_value (h : s.value key ≠ []) : ∃ entry, s key = some entry := by
  cases hk : s key with
  | none => exact absurd (value_of_none hk) h
  | some entry => exact ⟨entry, rfl⟩

/-- The result depends on the values of the operands. -/
theorem bitop_congr {op : BitOperation} {first : κ} {rest : List κ} (h : ∀ k ∈ first :: rest, t.value k = s.value k) :
    t.bitop op first rest = s.bitop op first rest := by
  have hfold : ∀ (l : List κ) (bytes : List Byte), (∀ k ∈ l, t.value k = s.value k) →
      l.foldl (fun bytes k => combine op.apply bytes (t.value k)) bytes =
        l.foldl (fun bytes k => combine op.apply bytes (s.value k)) bytes := by
    intro l
    induction l with
    | nil => exact fun _ _ => rfl
    | cons k l ih =>
      intro bytes hl
      rw [List.foldl_cons, List.foldl_cons, hl k List.mem_cons_self]
      exact ih _ fun k' hk' => hl k' (List.mem_cons_of_mem _ hk')
  rw [bitop, bitop, h first List.mem_cons_self]
  exact hfold rest _ fun k hk => h k (List.mem_cons_of_mem _ hk)

/-- `BITOP AND` keeps the bits that all its operands have. -/
theorem testBit_bitop_and {first : κ} {rest : List κ} {i : Nat} :
    testBit (s.bitop .and first rest) i ↔ ∀ k ∈ first :: rest, testBit (s.value k) i := by
  have hfold : ∀ (l : List κ) (bytes : List Byte),
      testBit (l.foldl (fun bytes k => combine BitOperation.and.apply bytes (s.value k)) bytes) i ↔
        testBit bytes i ∧ ∀ k ∈ l, testBit (s.value k) i := by
    intro l
    induction l with
    | nil => simp
    | cons k l ih =>
      intro bytes
      rw [List.foldl_cons, ih, BitOperation.apply, testBit_combine_and, Bool.and_eq_true, and_assoc, List.forall_mem_cons]
  rw [List.forall_mem_cons]
  exact hfold rest _

/-- `BITOP XOR` sets no bit that none of its operands has. -/
theorem testBit_bitop_xor {first : κ} {rest : List κ} {i : Nat} (h : testBit (s.bitop .xor first rest) i) :
    ∃ k ∈ first :: rest, testBit (s.value k) i := by
  have hfold : ∀ (l : List κ) (bytes : List Byte),
      testBit (l.foldl (fun bytes k => combine BitOperation.xor.apply bytes (s.value k)) bytes) i →
        testBit bytes i ∨ ∃ k ∈ l, testBit (s.value k) i := by
    intro l
    induction l with
    | nil => exact fun bytes h => Or.inl h
    | cons k l ih =>
      intro bytes h
      rcases ih _ h with h | ⟨k', hk', h⟩
      · rw [BitOperation.apply, testBit_combine_xor] at h
        by_cases hb : testBit bytes i
        · exact Or.inl hb
        · exact Or.inr ⟨k, List.mem_cons_self, by simpa [hb] using h⟩
      · exact Or.inr ⟨k', List.mem_cons_of_mem _ hk', h⟩
  rcases hfold rest _ h with h | ⟨k, hk, h⟩
  · exact ⟨first, List.mem_cons_self, h⟩
  · exact ⟨k, List.mem_cons_of_mem _ hk, h⟩

variable [DecidableEq κ]

theorem set_self (bytes : List Byte) (expiry : Option Nat) : s.set key bytes expiry key = some ⟨bytes, expiry⟩ := by
  simp [set]

theorem remove_self : s.remove key key = none := by simp [remove]

@[simp] theorem value_set_self (bytes : List Byte) (expiry : Option Nat) : (s.set key bytes expiry).value key = bytes := by
  simp [value, set]

@[simp] theorem value_remove_self : (s.remove key).value key = [] := by simp [value, remove]

theorem value_bitop (s : Store κ) (op : BitOperation) (dest first : κ) (rest : List κ) :
    (s.exec (.bitop op dest first rest)).2.value dest = s.bitop op first rest := by
  simp only [exec]
  split
  next hempty => rw [value_remove_self, List.isEmpty_iff.mp hempty]
  next => exact value_set_self _ _

theorem exec_setrange_ne_error (s : Store κ) (key : κ) (offset : Nat) (value : List Byte) :
    (s.exec (.setrange key offset value)).1 ≠ .error := by
  simp only [exec]
  split <;> simp

/-- A command changes no key but those it writes. -/
theorem exec_of_not_mem {cmd : Command κ} (h : key ∉ cmd.writes) : (s.exec cmd).2 key = s key := by
  cases cmd with
  | del k => exact Function.update_of_ne (by simpa [Command.writes] using h) _ _
  | existsKey k | bitcount k | getrange k a b => rfl
  | setrange k offset value =>
    have hk : key ≠ k := by simpa [Command.writes] using h
    simp only [exec]
    split
    · rfl
    · exact Function.update_of_ne hk _ _
  | rename k k' =>
    simp only [Command.writes, List.mem_cons, List.not_mem_nil, or_false, not_or] at h
    simp only [exec]
    split
    · exact (Function.update_of_ne h.2 _ _).trans (Function.update_of_ne h.1 _ _)
    · rfl
  | bitop op k first rest =>
    have hk : key ≠ k := by simpa [Command.writes] using h
    simp only [exec]
    split
    · exact Function.update_of_ne hk _ _
    · exact Function.update_of_ne hk _ _
  | expire k seconds =>
    have hk : key ≠ k := by simpa [Command.writes] using h
    simp only [exec]
    split
    · exact Function.update_of_ne hk _ _
    · rfl

theorem value_exec_of_not_mem {cmd : Command κ} (h : key ∉ cmd.writes) : (s.exec cmd).2.value key = s.value key :=
  value_of_eq (exec_of_not_mem h)

theorem exec_ne_error {cmd : Command κ} (h : cmd.Repeatable) (s : Store κ) : (s.exec cmd).1 ≠ .error := by
  cases cmd with
  | rename => exact h.elim
  | setrange => exact exec_setrange_ne_error _ _ _ _
  | expire =>
    simp only [exec]
    split <;> simp
  | del | existsKey | bitop | bitcount | getrange => simp [exec]

theorem exec_exec {cmd : Command κ} (h : cmd.Repeatable) (s : Store κ) :
    ((s.exec cmd).2.exec cmd).2 = (s.exec cmd).2 := by
  cases cmd with
  | rename => exact h.elim
  | existsKey | bitcount | getrange => rfl
  | del key => exact Function.update_idem _ _ _
  | setrange key offset value =>
    simp only [exec]
    split
    next => rfl
    next => simp [set, Store.value, setRange_setRange]
  | expire key seconds =>
    cases hkey : s key with
    | none => simp [exec, hkey]
    | some entry => simp [exec, hkey, set]
  | bitop op dest first rest =>
    have hsame : (s.exec (.bitop op dest first rest)).2.bitop op first rest = s.bitop op first rest :=
      bitop_congr fun k hk => value_of_eq (exec_of_not_mem fun hmem => h (List.mem_singleton.mp hmem ▸ hk))
    simp only [exec] at hsame ⊢
    simp only [hsame]
    split
    · exact Function.update_idem _ _ _
    · exact Function.update_idem _ _ _

end Store

/-! ### Where bits may be set

`P key i` says that the key may have the bit `i`. A command that moves bits only to keys that may have them keeps every
bit where it may be. -/

section Bounded
variable {κ : Type}

/-- Every bit that is set is one that its key may have. -/
def Store.Bounded (P : κ → Nat → Prop) (s : Store κ) : Prop := ∀ key i, testBit (s.value key) i → P key i

def Command.Bounded (P : κ → Nat → Prop) : Command κ → Prop
  | .setrange key offset value => ∀ i, testBit value i → P key (8 * offset + i)
  | .rename key newKey => ∀ i, P key i → P newKey i
  | .bitop .and dest first rest => ∀ i, (∀ key ∈ first :: rest, P key i) → P dest i
  | .bitop .xor dest first rest => ∀ i, (∃ key ∈ first :: rest, P key i) → P dest i
  | .del _ | .existsKey _ | .bitcount _ | .expire _ _ | .getrange _ _ _ => True

variable [DecidableEq κ] {P : κ → Nat → Prop} {s : Store κ} {cmd : Command κ}

/-- A command that writes one key at most. -/
theorem Store.Bounded.of_write (h : s.Bounded P) {key : κ} (hw : cmd.writes ⊆ [key])
    (hkey : ∀ i, testBit ((s.exec cmd).2.value key) i → P key i) : (s.exec cmd).2.Bounded P := by
  intro key' i hbit
  by_cases hk : key' = key
  · subst hk
    exact hkey i hbit
  · rw [Store.value_exec_of_not_mem fun hmem => hk (List.mem_singleton.mp (hw hmem))] at hbit
    exact h key' i hbit

theorem Store.Bounded.remove (h : s.Bounded P) (key : κ) : (s.remove key).Bounded P := by
  have hexec : (s.exec (.del key)).2.Bounded P := h.of_write (List.Subset.refl _) fun i hbit => by
    have hvalue : (s.exec (.del key)).2.value key = [] := Store.value_remove_self
    rw [hvalue, testBit_nil] at hbit
    cases hbit
  exact hexec

theorem Store.Bounded.exec (h : s.Bounded P) (hcmd : cmd.Bounded P) : (s.exec cmd).2.Bounded P := by
  cases cmd with
  | existsKey key | bitcount key | getrange key first last => exact h
  | del key => exact h.remove key
  | setrange key offset value =>
    refine h.of_write (List.Subset.refl _) fun i hbit => ?_
    simp only [Store.exec] at hbit
    split at hbit
    next => exact h key i hbit
    next =>
      rw [Store.value_set_self, testBit_setRange] at hbit
      split at hbit
      next hi =>
        have hsum : 8 * offset + (i - 8 * offset) = i := by omega
        exact hsum ▸ hcmd _ hbit
      next => exact h key i hbit
  | expire key seconds =>
    refine h.of_write (List.Subset.refl _) fun i hbit => ?_
    cases hkey : s key with
    | none =>
      simp only [Store.exec, hkey] at hbit
      exact h key i hbit
    | some entry =>
      simp only [Store.exec, hkey, Store.value_set_self] at hbit
      exact h key i (by simpa [Store.value, hkey] using hbit)
  | bitop op dest first rest =>
    refine h.of_write (List.Subset.refl _) fun i hbit => ?_
    rw [Store.value_bitop] at hbit
    cases op with
    | and => exact hcmd i fun k hk => h k i (Store.testBit_bitop_and.mp hbit k hk)
    | xor =>
      obtain ⟨k, hk, hbit⟩ := Store.testBit_bitop_xor hbit
      exact hcmd i ⟨k, hk, h k i hbit⟩
  | rename key newKey =>
    cases hkey : s key with
    | none =>
      simp only [Store.exec, hkey]
      exact h
    | some entry =>
      intro key' i hbit
      simp only [Store.exec, hkey] at hbit
      by_cases hk : key' = newKey
      · subst hk
        refine hcmd i (h key i ?_)
        simpa [Store.value, hkey] using hbit
      · have hvalue : Store.value (Function.update (s.remove key) newKey (some entry)) key' = (s.remove key).value key' :=
          Store.value_of_eq (Function.update_of_ne hk _ _)
        rw [hvalue] at hbit
        exact h.remove key key' i hbit

end Bounded

end Redis
