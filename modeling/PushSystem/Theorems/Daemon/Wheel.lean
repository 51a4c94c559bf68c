import PushSystem.Lib.Wheel
import PushSystem.Producer
import PushSystem.Theorems.Daemon.Tables
import Mathlib.Tactic.Linarith

/-! `Rebalance` builds a roulette wheel: with positive scores, the ranking is the table of the ends of the
    slots, one slot a server, as long as its score. -/

namespace PushSystem

/-! ### The scores in use -/

theorem calLoadBalanceScore_pos {avgTime : ℚ} (h : 0 ≤ avgTime) : 0 < calLoadBalanceScore avgTime := by
  unfold calLoadBalanceScore
  exact div_pos (by norm_num) (by linarith)

/-- What a producer reports is positive. -/
theorem loadBalanceScore_pos {avgTime : ℚ} (taskCount : Int32) (h : 0 ≤ avgTime) :
    0 < loadBalanceScore avgTime taskCount := by
  unfold loadBalanceScore
  split
  next => norm_num
  next => exact calLoadBalanceScore_pos h

namespace Daemon
variable {d : Daemon}

/-! ### The ranking as a table of running sums -/

/-- The servers with their scores, in the order of the ids. -/
def scores (d : Daemon) : List (UInt64 × ℚ) := d.gSvrId2SvrInfo.entries.map fun x => (x.1, x.2.score)

/-- The sum of the scores of the first `n` servers. -/
def prefixScore (d : Daemon) (n : Nat) : ℚ := ((d.gSvrId2SvrInfo.entries.take n).map (·.2.score)).sum

theorem length_scores (d : Daemon) : d.scores.length = d.gSvrId2SvrInfo.size := List.length_map _

theorem startOf_scores (d : Daemon) (n : Nat) : Wheel.startOf d.scores n = d.prefixScore n := by
  simp [Wheel.startOf, scores, prefixScore, ← List.map_take, Function.comp_def]

theorem rank_rebalanceLoop (l : List (UInt64 × ServerInfo)) (rank : ℚ) (d : Daemon) :
    (rebalanceLoop l rank d).gRank2SvrId =
      d.gRank2SvrId.setAll (Wheel.marks rank (l.map fun x => (x.1, x.2.score))) := by
  induction l generalizing rank d with
  | nil => rfl
  | cons x l ih => exact ih _ _

theorem rank_rebalance (d : Daemon) : d.rebalance.gRank2SvrId = OrdMap.setAll ∅ (Wheel.marks 0 d.scores) :=
  rank_rebalanceLoop _ _ _

/-- The keys of the ranking are the running sums. -/
theorem mem_rank_rebalance_iff {k : ℚ} :
    k ∈ d.rebalance.gRank2SvrId ↔ ∃ n < d.gSvrId2SvrInfo.size, k = d.prefixScore (n + 1) := by
  rw [rank_rebalance, OrdMap.mem_setAll]
  simp only [OrdMap.not_mem_empty, false_or, Wheel.mem_marks, zero_add, startOf_scores, Prod.mk.injEq]
  constructor
  · rintro ⟨v, n, x, hx, rfl, -⟩
    obtain ⟨hn, -⟩ := List.getElem?_eq_some_iff.mp hx
    exact ⟨n, length_scores d ▸ hn, rfl⟩
  · rintro ⟨n, hn, rfl⟩
    exact ⟨_, n, _, List.getElem?_eq_getElem ((length_scores d).symm ▸ hn), rfl, rfl⟩

/-! ### Positive scores -/

/-- The wheel of a registry whose scores are positive. -/
def wheel (d : Daemon) (h : ∀ id info, d.gSvrId2SvrInfo.find? id = some info → 0 < info.score) : Wheel UInt64 ℚ where
  slots := d.scores
  pos := by
    intro x hx
    obtain ⟨y, hy, rfl⟩ := List.mem_map.mp hx
    exact h y.1 y.2 (OrdMap.find?_eq_some_iff.mpr hy)

section Positive
variable (h : ∀ id info, d.gSvrId2SvrInfo.find? id = some info → 0 < info.score)

theorem rank_rebalance_wheel : d.rebalance.gRank2SvrId = (d.wheel h).table :=
  (rank_rebalance d).trans (OrdMap.setAll_empty (m := (d.wheel h).table))

theorem start_wheel (n : Nat) : (d.wheel h).start n = d.prefixScore n := startOf_scores d n

theorem getElem?_slots (i : Nat) :
    (d.wheel h).slots[i]? = d.gSvrId2SvrInfo.entries[i]?.map fun x => (x.1, x.2.score) :=
  List.getElem?_map

end Positive

/-- The server at position `i` of the registry owns the point `r`. -/
def Owns (d : Daemon) (i : Nat) (r : ℚ) : Prop :=
  i < d.gSvrId2SvrInfo.size ∧ (d.prefixScore i < r ∨ i = 0 ∧ r = 0) ∧ r ≤ d.prefixScore (i + 1)

theorem owns_wheel {h : ∀ id info, d.gSvrId2SvrInfo.find? id = some info → 0 < info.score} {i : Nat} {r : ℚ} :
    (d.wheel h).Owns i r ↔ d.Owns i r := by
  have hlen : (d.wheel h).slots.length = d.gSvrId2SvrInfo.size := length_scores d
  simp only [Wheel.Owns, Owns, start_wheel, hlen]

/-- After `Rebalance` over positive scores the ranking has one entry a server, its keys are the running sums
    in the order of the ids, and looking up a point up to the total finds the one server that owns it, each
    server owning an interval as long as its score. -/
theorem rebalance_roulette (hne : ∃ id, id ∈ d.gSvrId2SvrInfo)
    (hpos : ∀ id info, d.gSvrId2SvrInfo.find? id = some info → 0 < info.score) :
    d.rebalance.gRank2SvrId.size = d.gSvrId2SvrInfo.size ∧
    (∀ i : Nat, d.rebalance.gRank2SvrId.entries[i]? =
      d.gSvrId2SvrInfo.entries[i]?.map fun x => (d.prefixScore (i + 1), x.1)) ∧
    (∃ x, d.rebalance.gRank2SvrId.last? = some x ∧ x.1 = d.prefixScore d.gSvrId2SvrInfo.size) ∧
    (∀ r, 0 ≤ r → r ≤ d.prefixScore d.gSvrId2SvrInfo.size →
      ∃ i x, d.gSvrId2SvrInfo.entries[i]? = some x ∧ d.Owns i r ∧ (∀ j, d.Owns j r → j = i) ∧
        d.rebalance.gRank2SvrId.lowerBound r = some (d.prefixScore (i + 1), x.1)) ∧
    ∀ i x, d.gSvrId2SvrInfo.entries[i]? = some x →
      d.prefixScore (i + 1) - d.prefixScore i = x.2.score ∧ d.Owns i (d.prefixScore (i + 1)) := by
  have hlen : (d.wheel hpos).slots.length = d.gSvrId2SvrInfo.size := length_scores d
  have hslot : ∀ (i : Nat) (x : UInt64 × ServerInfo), d.gSvrId2SvrInfo.entries[i]? = some x →
      (d.wheel hpos).slots[i]? = some (x.1, x.2.score) := by
    intro i x hx
    rw [getElem?_slots, hx, Option.map_some]
  have hslots : (d.wheel hpos).slots ≠ [] := by
    obtain ⟨id, hid⟩ := hne
    obtain ⟨info, hinfo⟩ := OrdMap.mem_iff_entry.mp hid
    exact List.ne_nil_of_mem (List.mem_map.mpr ⟨_, hinfo, rfl⟩)
  have htotal : (d.wheel hpos).total = d.prefixScore d.gSvrId2SvrInfo.size := by
    rw [Wheel.total, hlen, start_wheel]
  rw [rank_rebalance_wheel hpos]
  refine ⟨?_, fun i => ?_, ?_, fun r h0 hr => ?_, fun i x hx => ⟨?_, ?_⟩⟩
  · exact (Wheel.length_marks 0 _).trans hlen
  · rw [Wheel.getElem?_table, getElem?_slots, Option.map_map, start_wheel]
    rfl
  · have hlast := (d.wheel hpos).last?_table (List.getLast?_eq_some_getLast hslots)
    exact ⟨_, hlast, htotal⟩
  · obtain ⟨i, hi⟩ := (d.wheel hpos).exists_owns hslots h0 (htotal ▸ hr)
    obtain ⟨x, hx⟩ : ∃ x, d.gSvrId2SvrInfo.entries[i]? = some x :=
      ⟨_, List.getElem?_eq_getElem (hi.1.trans_eq hlen)⟩
    refine ⟨i, x, hx, owns_wheel.mp hi, fun j hj => ?_, ?_⟩
    · exact (d.wheel hpos).owns_unique (owns_wheel.mpr hj) hi
    · rw [(d.wheel hpos).lowerBound_table (hslot i x hx) hi, start_wheel]
  · rw [← start_wheel hpos, ← start_wheel hpos, (d.wheel hpos).start_succ (hslot i x hx), add_sub_cancel_left]
  · have hi : i < (d.wheel hpos).slots.length := (List.getElem?_eq_some_iff.mp (hslot i x hx)).1
    rw [← start_wheel hpos]
    exact owns_wheel.mp ((d.wheel hpos).owns_end hi)

/-- A registry of two producers, one of which is busy. -/
def twoProducers : Daemon where
  gSvrId2SvrInfo :=
    (OrdMap.set ∅ 3 ⟨"a:1", producerName, 0, 0, 10⟩ : OrdMap UInt64 ServerInfo).set 5
      ⟨"b:1", producerName, 0, 0, 1 / 10000⟩

theorem rebalance_roulette_two :
    twoProducers.rebalance.gRank2SvrId.lowerBound 10 = some (10, 3) ∧
    twoProducers.rebalance.gRank2SvrId.size = twoProducers.gSvrId2SvrInfo.size :=
  ⟨by decide +kernel, (rebalance_roulette (d := twoProducers) ⟨3, by decide⟩ fun id info h => by
    have hall : ∀ x ∈ twoProducers.gSvrId2SvrInfo.entries, 0 < x.2.score := by decide +kernel
    exact hall _ (OrdMap.find?_eq_some_iff.mp h)).1⟩

end Daemon

end PushSystem
