/-! Calls that are tried several times. A try may go wrong in a way that leaves nothing to say about what
    follows (`Except.error`), return, or leave its state to the next one. -/

namespace Retry
variable {ε σ τ κ ρ : Type}

/-- The computation does not go wrong. -/
def Defined {α : Type} (e : Except ε α) : Prop := ∃ a, e = .ok a

@[simp] theorem defined_ok {α : Type} (a : α) : Defined (.ok a : Except ε α) := ⟨a, rfl⟩

@[simp] theorem not_defined_error {α : Type} (e : ε) : ¬Defined (.error e : Except ε α) := fun ⟨_, h⟩ => nomatch h

/-! ### The tries of one call -/

section Loop
variable (attempt : τ → σ → Except ε (Option ρ × σ)) (giveUp : ρ)

/-- Tries until one returns. -/
def loop : List τ → σ → Except ε (ρ × σ)
  | [], s => .ok (giveUp, s)
  | t :: ts, s =>
    match attempt t s with
    | .error e => .error e
    | .ok (some r, s) => .ok (r, s)
    | .ok (none, s) => loop ts s

variable {attempt giveUp} {t : τ} {ts : List τ} {s s' : σ} {r : ρ} {e : ε}

theorem loop_of_ret (h : attempt t s = .ok (some r, s')) : loop attempt giveUp (t :: ts) s = .ok (r, s') := by
  rw [loop, h]

theorem loop_of_next (h : attempt t s = .ok (none, s')) :
    loop attempt giveUp (t :: ts) s = loop attempt giveUp ts s' := by
  rw [loop, h]

theorem loop_of_error (h : attempt t s = .error e) : loop attempt giveUp (t :: ts) s = .error e := by
  rw [loop, h]

end Loop

/-! ### Sequences of calls -/

section Session
variable (call : κ → σ → Except ε (ρ × σ))

/-- The state after a sequence of calls. -/
def after : List κ → σ → Except ε σ
  | [], s => .ok s
  | c :: cs, s =>
    match call c s with
    | .error e => .error e
    | .ok (_, s) => after cs s

variable {call} {c : κ} {cs : List κ} {s s' : σ}

/-- A property of every call of a sequence, with the state that the calls before it have left. -/
def Each (call : κ → σ → Except ε (ρ × σ)) (φ : κ → σ → Prop) (cs : List κ) (s : σ) : Prop :=
  ∀ (k : Nat) (c : κ) (t : σ), cs[k]? = some c → after call (cs.take k) s = .ok t → φ c t

theorem each_cons {φ : κ → σ → Prop} :
    Each call φ (c :: cs) s ↔ φ c s ∧ ∀ r s', call c s = .ok (r, s') → Each call φ cs s' := by
  constructor
  · intro h
    refine ⟨h 0 c s rfl rfl, fun r s' hc k x t hx ht => h (k + 1) x t hx ?_⟩
    rw [List.take_succ_cons, after, hc]
    exact ht
  · rintro ⟨hφ, hcs⟩ k x t hx ht
    cases k with
    | zero =>
      obtain rfl := Option.some.inj hx
      obtain rfl := Except.ok.inj ht
      exact hφ
    | succ k =>
      rw [List.take_succ_cons, after] at ht
      cases hc : call c s with
      | error e =>
        rw [hc] at ht
        cases ht
      | ok a =>
        rw [hc] at ht
        exact hcs a.1 a.2 hc k x t hx ht

theorem each_congr {φ ψ : κ → σ → Prop} (h : ∀ c s, φ c s ↔ ψ c s) : Each call φ cs s ↔ Each call ψ cs s :=
  ⟨fun hφ k c t hc ht => (h c t).mp (hφ k c t hc ht), fun hψ k c t hc ht => (h c t).mpr (hψ k c t hc ht)⟩

end Session

end Retry
