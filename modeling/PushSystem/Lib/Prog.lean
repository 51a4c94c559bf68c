import Mathlib.Logic.Relation

/-! Programs that make calls. A call is tried until it returns, and other threads may change the state
    between two tries. `wp` is the weakest precondition of a program under such interference, with an
    invariant that holds all along. -/

/-- A program over the calls `Op`; a call `o` is answered by a `Ret o`. -/
inductive Prog (Op : Type) (Ret : Op → Type) (α : Type) where
  | pure (a : α)
  | call (o : Op) (k : Ret o → Prog Op Ret α)

namespace Prog
variable {Op : Type} {Ret : Op → Type} {α β σ : Type}

protected def bind : Prog Op Ret α → (α → Prog Op Ret β) → Prog Op Ret β
  | .pure a, f => f a
  | .call o k, f => .call o fun r => (k r).bind f

instance : Monad (Prog Op Ret) where
  pure := .pure
  bind := Prog.bind

/-- A single call. -/
def perform (o : Op) : Prog Op Ret (Ret o) := .call o .pure

@[simp] theorem pure_bind' (a : α) (f : α → Prog Op Ret β) : (Prog.pure a : Prog Op Ret α) >>= f = f a := rfl

@[simp] theorem call_bind (o : Op) (k : Ret o → Prog Op Ret α) (f : α → Prog Op Ret β) :
    Prog.call o k >>= f = .call o fun r => k r >>= f := rfl

@[simp] theorem perform_bind (o : Op) (f : Ret o → Prog Op Ret β) : perform o >>= f = .call o f := rfl

theorem bind_bind {γ : Type} (p : Prog Op Ret α) (f : α → Prog Op Ret β) (g : β → Prog Op Ret γ) :
    p >>= f >>= g = p >>= fun a => f a >>= g := by
  induction p with
  | pure a => rfl
  | call o k ih => exact congrArg (Prog.call o) (funext ih)

theorem pure_def (a : α) : (Pure.pure a : Prog Op Ret α) = .pure a := rfl

/-- Makes each call by running a program. -/
def interp {Op' : Type} {Ret' : Op' → Type} (f : (o : Op) → Prog Op' Ret' (Ret o)) : Prog Op Ret α → Prog Op' Ret' α
  | .pure a => .pure a
  | .call o k => f o >>= fun r => (k r).interp f

/-- `φ` holds of every call that the program can come to. -/
def Everywhere (φ : (o : Op) → (Ret o → Prog Op Ret α) → Prop) : Prog Op Ret α → Prop
  | .pure _ => True
  | .call o k => φ o k ∧ ∀ r, (k r).Everywhere φ

theorem Everywhere.mono {φ ψ : Op → Prop} {p : Prog Op Ret α} (h : p.Everywhere fun o _ => φ o) (hψ : ∀ o, φ o → ψ o) :
    p.Everywhere fun o _ => ψ o := by
  induction p with
  | pure a => trivial
  | call o k ih => exact ⟨hψ o h.1, fun r => ih r (h.2 r)⟩

theorem everywhere_bind {φ : Op → Prop} {p : Prog Op Ret α} {f : α → Prog Op Ret β}
    (hp : p.Everywhere fun o _ => φ o) (hf : ∀ a, (f a).Everywhere fun o _ => φ o) :
    (p >>= f).Everywhere fun o _ => φ o := by
  induction p with
  | pure a => exact hf a
  | call o k ih => exact ⟨hp.1, fun r => ih r (hp.2 r)⟩

/-- The first part cannot break `φ`, whatever follows a call of it. -/
theorem everywhere_bind_of {ψ : Op → Prop} {φ : (o : Op) → (Ret o → Prog Op Ret β) → Prop} {p : Prog Op Ret α}
    {f : α → Prog Op Ret β} (hp : p.Everywhere fun o _ => ψ o) (hφ : ∀ o k, ψ o → φ o k)
    (hf : ∀ a, (f a).Everywhere φ) : (p >>= f).Everywhere φ := by
  induction p with
  | pure a => exact hf a
  | call o k ih => exact ⟨hφ o _ hp.1, fun r => ih r (hp.2 r)⟩

/-- The program can come to a call `o`. -/
inductive Makes (o : Op) : Prog Op Ret α → Prop where
  | here {k} : Makes o (.call o k)
  | later {o' k} (r : Ret o') (h : Makes o (k r)) : Makes o (.call o' k)

theorem Everywhere.of_makes {φ : Op → Prop} {p : Prog Op Ret α} {o : Op} (h : p.Everywhere fun o _ => φ o)
    (ho : p.Makes o) : φ o := by
  induction ho with
  | here => exact h.1
  | later r _ ih => exact ih (h.2 r)

/-- The program can return `a`. -/
inductive Ends (a : α) : Prog Op Ret α → Prop where
  | pure : Ends a (.pure a)
  | call {o k} (r : Ret o) (h : Ends a (k r)) : Ends a (.call o k)

theorem Makes.bind {p : Prog Op Ret α} {a : α} {f : α → Prog Op Ret β} {o : Op} (hp : p.Ends a) (hf : (f a).Makes o) :
    (p >>= f).Makes o := by
  induction hp with
  | pure => exact hf
  | call r _ ih => exact .later r ih

/-- However the calls are answered within `A`, the result is in `φ`. -/
def Yields (A : (o : Op) → Ret o → Prop) (φ : α → Prop) : Prog Op Ret α → Prop
  | .pure a => φ a
  | .call o k => ∀ r, A o r → (k r).Yields A φ

theorem yields_bind {A : (o : Op) → Ret o → Prop} {φ : β → Prop} {p : Prog Op Ret α} {f : α → Prog Op Ret β}
    (h : p.Yields A fun a => (f a).Yields A φ) : (p >>= f).Yields A φ := by
  induction p with
  | pure a => exact h
  | call o k ih => exact fun r hr => ih r (h r hr)

theorem Yields.mono {A : (o : Op) → Ret o → Prop} {φ ψ : α → Prop} {p : Prog Op Ret α} (h : p.Yields A φ)
    (hψ : ∀ a, φ a → ψ a) : p.Yields A ψ := by
  induction p with
  | pure a => exact hψ a h
  | call o k ih => exact fun r hr => ih r (h r hr)

theorem yields_of_forall {A : (o : Op) → Ret o → Prop} {φ : α → Prop} {p : Prog Op Ret α} (h : ∀ a, φ a) :
    p.Yields A φ := by
  induction p with
  | pure a => exact h a
  | call o k ih => exact fun r _ => ih r

/-! ### Threads -/

/-- How calls act on the state: `M o n s r t` if a call `o` that has been tried `n` times is tried in `s`
    and the state becomes `t`; it returns `r`, or is still to be tried if `r` is `none`. -/
abbrev Machine (Op : Type) (Ret : Op → Type) (σ : Type) := (o : Op) → Nat → σ → Option (Ret o) → σ → Prop

/-- The tries of `M` that meet a condition. -/
def Machine.under (M ok : Machine Op Ret σ) : Machine Op Ret σ := fun o n s r t => M o n s r t ∧ ok o n s r t

/-- A thread: what it has still to run, and how often its next call has been tried. -/
structure Thread (Op : Type) (Ret : Op → Type) (α : Type) where
  prog : Prog Op Ret α
  tries : Nat := 0

/-- One try of the next call of a thread. -/
inductive Thread.Step (M : Machine Op Ret σ) : Thread Op Ret α × σ → Thread Op Ret α × σ → Prop where
  | retry {o k n s t} (h : M o n s none t) : Step M (⟨.call o k, n⟩, s) (⟨.call o k, n + 1⟩, t)
  | ret {o k n s r t} (h : M o n s (some r) t) : Step M (⟨.call o k, n⟩, s) (⟨k r, 0⟩, t)

/-- A step of the thread, or of the others. -/
inductive Thread.StepWith (M : Machine Op Ret σ) (E : σ → σ → Prop) :
    Thread Op Ret α × σ → Thread Op Ret α × σ → Prop where
  | own {c d} (h : Step M c d) : StepWith M E c d
  | env {th s t} (h : E s t) : StepWith M E (th, s) (th, t)

/-- A run of `p` from `s` has come to the thread `th` and the state `t`. -/
def Reaches (M : Machine Op Ret σ) (E : σ → σ → Prop) (p : Prog Op Ret α) (s : σ) (th : Thread Op Ret α) (t : σ) :
    Prop := Relation.ReflTransGen (Thread.StepWith M E) (⟨p, 0⟩, s) (th, t)

/-- A run of `p` from `s` has returned `a` and come to the state `t`. -/
def Returns (M : Machine Op Ret σ) (E : σ → σ → Prop) (p : Prog Op Ret α) (s : σ) (a : α) (t : σ) : Prop :=
  Reaches M E p s ⟨.pure a, 0⟩ t

section Runs
variable {M : Machine Op Ret σ} {E : σ → σ → Prop} {s t u : σ}

/-- A call that returns at its first try. -/
theorem Reaches.ret {o : Op} {k : Ret o → Prog Op Ret α} {r : Ret o} {th : Thread Op Ret α}
    (h : M o 0 s (some r) t) (hr : Reaches M E (k r) t th u) : Reaches M E (.call o k) s th u :=
  Relation.ReflTransGen.head (.own (.ret h)) hr

theorem Returns.bind {p : Prog Op Ret α} {f : α → Prog Op Ret β} {a : α} {th : Thread Op Ret β}
    (h : Returns M E p s a t) (hr : Reaches M E (f a) t th u) : Reaches M E (p >>= f) s th u := by
  have hlift : ∀ c d : Thread Op Ret α × σ, Relation.ReflTransGen (Thread.StepWith M E) c d →
      Relation.ReflTransGen (Thread.StepWith M E) (⟨c.1.prog >>= f, c.1.tries⟩, c.2) (⟨d.1.prog >>= f, d.1.tries⟩, d.2) := by
    intro c d hrun
    induction hrun with
    | refl => exact Relation.ReflTransGen.refl
    | tail _ hs ih =>
      refine ih.tail ?_
      cases hs with
      | env he => exact .env he
      | own hs =>
        cases hs with
        | retry hm => exact .own (.retry hm)
        | ret hm => exact .own (.ret hm)
  exact (hlift _ _ h).trans hr

end Runs

/-! ### Weakest preconditions -/

section Wp
variable (M : Machine Op Ret σ) (E : σ → σ → Prop) (J : σ → Prop)

/-- `I` carries a call `o` over its tries and the steps of the others, and gives `K` once it returns. -/
structure Carries (o : Op) (K : Ret o → σ → Prop) (I : σ → Prop) : Prop where
  inv : ∀ s, I s → J s
  env : ∀ s t, I s → E s t → I t
  retry : ∀ n s t, I s → M o n s none t → I t
  ret : ∀ n s r t, I s → M o n s (some r) t → K r t

/-- Every run from the state keeps `J`, and ends in `Q` if it ends. -/
def wp : Prog Op Ret α → (α → σ → Prop) → σ → Prop
  | .pure a, Q => fun s => J s ∧ Q a s
  | .call o k, Q => fun s => ∃ I, Carries M E J o (fun r => wp (k r) Q) I ∧ I s

variable {M E J} {p : Prog Op Ret α} {Q R : α → σ → Prop} {s t : σ}

theorem wp.inv (h : wp M E J p Q s) : J s := by
  cases p with
  | pure a => exact h.1
  | call o k =>
    obtain ⟨I, hI, hs⟩ := h
    exact hI.inv s hs

theorem wp.mono (h : wp M E J p Q s) (hQ : ∀ a s, J s → Q a s → R a s) : wp M E J p R s := by
  induction p generalizing s with
  | pure a => exact ⟨h.1, hQ a s h.1 h.2⟩
  | call o k ih =>
    obtain ⟨I, hI, hs⟩ := h
    exact ⟨I, ⟨hI.inv, hI.env, hI.retry, fun n s r t hi hm => ih r (hI.ret n s r t hi hm)⟩, hs⟩

theorem wp_bind {f : α → Prog Op Ret β} {Q : β → σ → Prop} (h : wp M E J p (fun a => wp M E J (f a) Q) s) :
    wp M E J (p >>= f) Q s := by
  induction p generalizing s with
  | pure a => exact h.2
  | call o k ih =>
    obtain ⟨I, hI, hs⟩ := h
    exact ⟨I, ⟨hI.inv, hI.env, hI.retry, fun n s r t hi hm => ih r (hI.ret n s r t hi hm)⟩, hs⟩

/-- A call that nothing disturbs and whose tries leave the state alone until one returns. -/
theorem wp_call {o : Op} {k : Ret o → Prog Op Ret α} (hJ : J s) (henv : ∀ t, ¬E s t)
    (hretry : ∀ n t, M o n s none t → t = s) (hret : ∀ n r t, M o n s (some r) t → wp M E J (k r) Q t) :
    wp M E J (.call o k) Q s := by
  refine ⟨fun t => t = s, ⟨?_, ?_, ?_, ?_⟩, rfl⟩
  · rintro _ rfl
    exact hJ
  · rintro _ t rfl he
    exact absurd he (henv t)
  · rintro n _ t rfl hm
    exact hretry n t hm
  · rintro n _ r t rfl hm
    exact hret n r t hm

/-- The programs that make the calls have to do what the calls do. -/
theorem wp_interp {Op' : Type} {Ret' : Op' → Type} {M' : Machine Op' Ret' σ} {f : (o : Op) → Prog Op' Ret' (Ret o)}
    (hf : ∀ o (K : Ret o → σ → Prop) I s, (∀ r s, K r s → J s) → Carries M E J o K I → I s → wp M' E J (f o) K s)
    (h : wp M E J p Q s) : wp M' E J (p.interp f) Q s := by
  induction p generalizing s with
  | pure a => exact h
  | call o k ih =>
    obtain ⟨I, hI, hs⟩ := h
    exact wp_bind ((hf o _ I s (fun r t ht => ht.inv) hI hs).mono fun r t _ ht => ih r ht)

/-- A weaker invariant. -/
theorem wp.weaken {J' : σ → Prop} (h : wp M E J p Q s) (hJ : ∀ s, J s → J' s) : wp M E J' p Q s := by
  induction p generalizing s with
  | pure a => exact ⟨hJ s h.1, h.2⟩
  | call o k ih =>
    obtain ⟨I, hI, hs⟩ := h
    exact ⟨I, ⟨fun s hi => hJ s (hI.inv s hi), hI.env, hI.retry, fun n s r t hi hm => ih r (hI.ret n s r t hi hm)⟩, hs⟩

/-- Two invariants are carried together. -/
theorem wp_and {J' : σ → Prop} {Q' : α → σ → Prop} (h : wp M E J p Q s) (h' : wp M E J' p Q' s) :
    wp M E (fun s => J s ∧ J' s) p (fun a s => Q a s ∧ Q' a s) s := by
  induction p generalizing s with
  | pure a => exact ⟨⟨h.1, h'.1⟩, h.2, h'.2⟩
  | call o k ih =>
    obtain ⟨I, hI, hs⟩ := h
    obtain ⟨I', hI', hs'⟩ := h'
    exact ⟨fun s => I s ∧ I' s, ⟨fun s hi => ⟨hI.inv s hi.1, hI'.inv s hi.2⟩,
      fun s t hi he => ⟨hI.env s t hi.1 he, hI'.env s t hi.2 he⟩,
      fun n s t hi hm => ⟨hI.retry n s t hi.1 hm, hI'.retry n s t hi.2 hm⟩,
      fun n s r t hi hm => ih r (hI.ret n s r t hi.1 hm) (hI'.ret n s r t hi.2 hm)⟩, hs, hs'⟩

/-- Once the program has returned, the others keep the invariant and the postcondition. -/
structure Keeps (E : σ → σ → Prop) (J : σ → Prop) (Q : α → σ → Prop) : Prop where
  inv : ∀ a s t, J s → Q a s → E s t → J t
  post : ∀ a s t, J s → Q a s → E s t → Q a t

theorem wp.env (h : wp M E J p Q s) (hk : Keeps E J Q) (he : E s t) : wp M E J p Q t := by
  cases p with
  | pure a => exact ⟨hk.inv a s t h.1 h.2 he, hk.post a s t h.1 h.2 he⟩
  | call o k =>
    obtain ⟨I, hI, hs⟩ := h
    exact ⟨I, hI, hI.env s t hs he⟩

/-- A program none of whose calls can break the invariant returns what the answers yield. -/
theorem wp_of_yields (hE : ∀ s t, J s → E s t → J t)
    {ψ : Op → Prop} (hψ : ∀ o n s r t, ψ o → J s → M o n s r t → J t) (h : p.Everywhere fun o _ => ψ o)
    {A : (o : Op) → Ret o → Prop} (hA : ∀ o n s r t, J s → M o n s (some r) t → A o r) {φ : α → Prop}
    (hy : p.Yields A φ) (hs : J s) : wp M E J p (fun a _ => φ a) s := by
  induction p generalizing s with
  | pure a => exact ⟨hs, hy⟩
  | call o k ih =>
    exact ⟨J, ⟨fun _ hj => hj, hE, fun n s t hj hm => hψ o n s none t h.1 hj hm,
      fun n s r t hj hm => ih r (h.2 r) (hy r (hA o n s r t hj hm)) (hψ o n s (some r) t h.1 hj hm)⟩, hs⟩

/-- A program none of whose calls can break the invariant. -/
theorem wp_of_everywhere (hE : ∀ s t, J s → E s t → J t)
    {φ : Op → Prop} (hφ : ∀ o n s r t, φ o → J s → M o n s r t → J t) (h : p.Everywhere fun o _ => φ o) (hs : J s) :
    wp M E J p (fun _ _ => True) s :=
  wp_of_yields hE hφ h (A := fun _ _ => True) (fun _ _ _ _ _ _ _ => trivial) (yields_of_forall fun _ => trivial) hs

end Wp

/-! ### Soundness -/

section Sound
variable {M : Machine Op Ret σ} {E : σ → σ → Prop} {J : σ → Prop} {Q : α → σ → Prop}

/-- The weakest precondition of what a thread has still to run. -/
def Thread.Holds (M : Machine Op Ret σ) (E : σ → σ → Prop) (J : σ → Prop) (Q : α → σ → Prop) (th : Thread Op Ret α)
    (s : σ) : Prop := wp M E J th.prog Q s

theorem Thread.Holds.step {c d : Thread Op Ret α × σ} (h : c.1.Holds M E J Q c.2) (hs : Thread.Step M c d) :
    d.1.Holds M E J Q d.2 := by
  cases hs with
  | retry hm =>
    obtain ⟨I, hI, hs⟩ := h
    exact ⟨I, hI, hI.retry _ _ _ hs hm⟩
  | ret hm =>
    obtain ⟨I, hI, hs⟩ := h
    exact hI.ret _ _ _ _ hs hm

theorem Thread.Holds.env {th : Thread Op Ret α} {s t : σ} (h : th.Holds M E J Q s) (hk : Keeps E J Q)
    (he : E s t) : th.Holds M E J Q t := wp.env h hk he

/-- A thread goes on as its weakest precondition says, if the others keep the invariant and the
    postcondition. -/
theorem Reaches.holds {p : Prog Op Ret α} {s t : σ} {th : Thread Op Ret α} (hr : Reaches M E p s th t)
    (h : wp M E J p Q s) (hk : Keeps E J Q) : th.Holds M E J Q t := by
  have hinv : ∀ c d : Thread Op Ret α × σ, Relation.ReflTransGen (Thread.StepWith M E) c d →
      c.1.Holds M E J Q c.2 → d.1.Holds M E J Q d.2 := by
    intro c d hrun hc
    induction hrun with
    | refl => exact hc
    | tail _ hs ih =>
      cases hs with
      | own hs => exact ih.step hs
      | env he => exact ih.env hk he
  exact hinv _ _ hr h

end Sound

/-! ### Threads that share an invariant -/

/-- What the other threads may do to one: they keep the invariant, and leave what the thread sees in `view` alone. -/
def Rely {τ : Type} (J : σ → Prop) (view : σ → τ) (s t : σ) : Prop := J t ∧ view t = view s

theorem keeps_rely {τ : Type} {J : σ → Prop} {view : σ → τ} : Keeps (Rely J view) J fun (_ : α) _ => True :=
  ⟨fun _ _ _ _ _ he => he.1, fun _ _ _ _ _ _ => trivial⟩

/-! ### Calls that are answered by a function -/

section Eval
variable (h : (o : Op) → σ → Ret o × σ)

/-- Runs a program whose calls are answered at the first try. -/
def eval : Prog Op Ret α → σ → α × σ
  | .pure a, s => (a, s)
  | .call o k, s => (k (h o s).1).eval (h o s).2

/-- The calls that the run makes. -/
def calls : Prog Op Ret α → σ → List Op
  | .pure _, _ => []
  | .call o k, s => o :: (k (h o s).1).calls (h o s).2

/-- The tries of `h`, all of which succeed. -/
def ofHandler : Machine Op Ret σ := fun o n s r t => n = 0 ∧ r = some (h o s).1 ∧ t = (h o s).2

@[simp] theorem eval_pure (a : α) (s : σ) : (Prog.pure a : Prog Op Ret α).eval h s = (a, s) := rfl

@[simp] theorem eval_call (o : Op) (k : Ret o → Prog Op Ret α) (s : σ) :
    (Prog.call o k).eval h s = (k (h o s).1).eval h (h o s).2 := rfl

@[simp] theorem calls_pure (a : α) (s : σ) : (Prog.pure a : Prog Op Ret α).calls h s = [] := rfl

@[simp] theorem calls_call (o : Op) (k : Ret o → Prog Op Ret α) (s : σ) :
    (Prog.call o k).calls h s = o :: (k (h o s).1).calls h (h o s).2 := rfl

@[simp] theorem calls_perform (o : Op) (s : σ) : (perform o : Prog Op Ret (Ret o)).calls h s = [o] := rfl

variable {h}

/-- Each call is answered as `h` says, after any number of tries. -/
theorem returns_eval_of_reaches {M : Machine Op Ret σ} {E : σ → σ → Prop}
    (hM : ∀ (o : Op) (k : Ret o → Prog Op Ret α) (s : σ), Reaches M E (.call o k) s ⟨k (h o s).1, 0⟩ (h o s).2)
    (p : Prog Op Ret α) (s : σ) : Returns M E p s (p.eval h s).1 (p.eval h s).2 := by
  induction p generalizing s with
  | pure a => exact Relation.ReflTransGen.refl
  | call o k ih => exact (hM o k s).trans (ih _ _)

theorem returns_eval {M : Machine Op Ret σ} {E : σ → σ → Prop} (hM : ∀ o s, M o 0 s (some (h o s).1) (h o s).2)
    (p : Prog Op Ret α) (s : σ) : Returns M E p s (p.eval h s).1 (p.eval h s).2 :=
  returns_eval_of_reaches (fun o _ s => Reaches.ret (hM o s) Relation.ReflTransGen.refl) p s

/-- A procedure returns nothing. -/
theorem returns_eval_unit {M : Machine Op Ret σ} {E : σ → σ → Prop}
    (hM : ∀ o s, M o 0 s (some (h o s).1) (h o s).2) (p : Prog Op Ret Unit) (s : σ) :
    Returns M E p s () (p.eval h s).2 := returns_eval hM p s

theorem eval_post {E : σ → σ → Prop} {J : σ → Prop} {p : Prog Op Ret α} {Q : α → σ → Prop} {s : σ}
    (hw : wp (ofHandler h) E J p Q s) : J (p.eval h s).2 ∧ Q (p.eval h s).1 (p.eval h s).2 := by
  induction p generalizing s with
  | pure a => exact hw
  | call o k ih =>
    obtain ⟨I, hI, hs⟩ := hw
    exact ih _ (hI.ret 0 s _ _ hs ⟨rfl, rfl, rfl⟩)

theorem eval_bind (p : Prog Op Ret α) (f : α → Prog Op Ret β) (s : σ) :
    (p >>= f).eval h s = (f (p.eval h s).1).eval h (p.eval h s).2 := by
  induction p generalizing s with
  | pure a => rfl
  | call o k ih => exact ih _ _

end Eval

end Prog
