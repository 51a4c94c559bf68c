import Mathlib.Algebra.Ring.Nat
import Mathlib.Data.List.Induction
import Mathlib.Logic.Relation

/-! Runs of a labelled transition system: reachable states, invariants, runs whose steps all meet a
    condition, and runs of an executable step function. -/

namespace Runs
variable {σ ε : Type}

/-- A transition relation: a state, the event that happens, the next state. -/
abbrev Trans (σ ε : Type) := σ → ε → σ → Prop

/-- The transitions of a step function that is defined where the event can happen. -/
def ofFun (step : σ → ε → Option σ) : Trans σ ε := fun s e t => step s e = some t

/-- The transitions of `R` that meet the condition `ok` on the state before and the event. -/
def under (R : Trans σ ε) (ok : σ → ε → Prop) : Trans σ ε := fun s e t => ok s e ∧ R s e t

/-- `t` is reached from `s₀` by transitions of `R`. -/
def Reaches (R : Trans σ ε) : σ → σ → Prop := Relation.ReflTransGen fun s t => ∃ e, R s e t

namespace Reaches
variable {R : Trans σ ε} {s₀ s t : σ}

theorem refl : Reaches R s s := Relation.ReflTransGen.refl

theorem step {e : ε} (h : Reaches R s₀ s) (hs : R s e t) : Reaches R s₀ t := Relation.ReflTransGen.tail h ⟨e, hs⟩

/-- What holds first and is kept by every transition holds in every reachable state. -/
theorem invariant {Inv : σ → Prop} (h : Reaches R s₀ t) (init : Inv s₀)
    (keep : ∀ s e t, Inv s → R s e t → Inv t) : Inv t := by
  induction h with
  | refl => exact init
  | tail _ hs ih =>
    obtain ⟨e, hs⟩ := hs
    exact keep _ e _ ih hs

theorem mono {S : Trans σ ε} (h : Reaches R s t) (hR : ∀ s e t, R s e t → S s e t) : Reaches S s t :=
  h.invariant refl fun s e t hs ht => hs.step (hR s e t ht)

end Reaches

/-- A condition on what an option holds is decided by looking into it, also where its type is finite. -/
instance decidableForallMem {α : Type} {P : α → Prop} [DecidablePred P] (o : Option α) : Decidable (∀ a ∈ o, P a) :=
  o.decidableForallMem

/-- Runs a list of events, checking the condition before each. -/
def exec (step : σ → ε → Option σ) (ok : σ → ε → Prop) [∀ s e, Decidable (ok s e)] : List ε → σ → Option σ
  | [], s => some s
  | e :: es, s => if ok s e then (step s e).bind (exec step ok es) else none

/-- An executed list of events is a run. -/
theorem reaches_of_exec {step : σ → ε → Option σ} {ok : σ → ε → Prop} [∀ s e, Decidable (ok s e)] :
    ∀ {es : List ε} {s t : σ}, exec step ok es s = some t → Reaches (under (ofFun step) ok) s t
  | [], s, t, h => by
    obtain rfl : s = t := by simpa [exec] using h
    exact Reaches.refl
  | e :: es, s, t, h => by
    unfold exec at h
    split at h
    next hok =>
      obtain ⟨u, hu, ht⟩ := Option.bind_eq_some_iff.mp h
      exact Relation.ReflTransGen.head ⟨e, hok, hu⟩ (reaches_of_exec ht)
    next => cases h

theorem exec_append {step : σ → ε → Option σ} {ok : σ → ε → Prop} [∀ s e, Decidable (ok s e)] (es fs : List ε) (s : σ) :
    exec step ok (es ++ fs) s = (exec step ok es s).bind (exec step ok fs) := by
  induction es generalizing s with
  | nil => rfl
  | cons e es ih =>
    rw [List.cons_append, exec, exec]
    split
    · rw [Option.bind_assoc]
      exact Option.bind_congr fun t _ => ih t
    · rfl

theorem exec_snoc {step : σ → ε → Option σ} {ok : σ → ε → Prop} [∀ s e, Decidable (ok s e)] (es : List ε) (e : ε) (s : σ) :
    exec step ok (es ++ [e]) s = (exec step ok es s).bind fun t => if ok t e then step t e else none := by
  rw [exec_append]
  exact Option.bind_congr fun t _ => by simp [exec]

/-- What relates the events of a run to its state is kept by every step. -/
theorem exec_induct {step : σ → ε → Option σ} {ok : σ → ε → Prop} [∀ s e, Decidable (ok s e)] {Inv : List ε → σ → Prop}
    {s t : σ} {es : List ε} (h : exec step ok es s = some t) (init : Inv [] s)
    (keep : ∀ es t e u, Inv es t → ok t e → step t e = some u → Inv (es ++ [e]) u) : Inv es t := by
  induction es using List.reverseRecOn generalizing t with
  | nil => exact Option.some.inj h ▸ init
  | append_singleton es e ih =>
    rw [exec_snoc] at h
    obtain ⟨u, hu, h⟩ := Option.bind_eq_some_iff.mp h
    split at h
    next hok => exact keep es u e t (ih hu) hok h
    next => cases h

/-- What the steps of a run add to a potential and take from it adds up. -/
theorem exec_sum {step : σ → ε → Option σ} {ok : σ → ε → Prop} [∀ s e, Decidable (ok s e)] {Inv : σ → Prop}
    (potential : σ → Nat) (gain loss : ε → Nat) {s t : σ} {es : List ε} (h : exec step ok es s = some t) (init : Inv s)
    (keep : ∀ s e t, Inv s → ok s e → step s e = some t → Inv t ∧ potential t + loss e = potential s + gain e) :
    Inv t ∧ potential t + (es.map loss).sum = potential s + (es.map gain).sum := by
  refine @exec_induct _ _ step ok _ (fun es t => Inv t ∧ potential t + (es.map loss).sum = potential s + (es.map gain).sum)
    s t es h ⟨init, rfl⟩ fun es t e u hi hok hs => ?_
  obtain ⟨hu, heq⟩ := keep t e u hi.1 hok hs
  refine ⟨hu, ?_⟩
  have := hi.2
  simp only [List.map_append, List.map_singleton, List.sum_append, List.sum_singleton]
  omega

/-- A state with a decidable property is reached by running the events to it. -/
theorem exists_of_exec {step : σ → ε → Option σ} {ok : σ → ε → Prop} [∀ s e, Decidable (ok s e)] {P : σ → Prop}
    [DecidablePred P] {s : σ} (es : List ε) (h : (exec step ok es s).any (fun t => decide (P t)) = true) :
    ∃ t, Reaches (under (ofFun step) ok) s t ∧ P t := by
  cases ht : exec step ok es s with
  | none => simp [ht] at h
  | some t => exact ⟨t, reaches_of_exec ht, by simpa [ht] using h⟩

end Runs
