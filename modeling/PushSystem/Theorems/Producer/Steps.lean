import PushSystem.Lib.Count
import PushSystem.Lib.Runs
import PushSystem.Producer

/-! What a step of a producer can do, and what that means for one request: its thread tries its next call, or
    the broker calls back. -/

namespace PushSystem
open Redis Bitmap Prog

/-! ### The broker -/

/-- The broker's steps, by what they do to a request. -/
inductive Broker (c : ProduceMsgCallData) : ProduceMsgCallData → Prop where
  | acked {k send} (hk : c.sends[k]? = some send) (hst : send.stage ≠ .acked) :
    Broker c (c.setStage k send .acked).notifyOne
  | moved {k send stage} (hk : c.sends[k]? = some send) (hst : send.stage ≠ .acked) (hnew : stage ≠ .acked) :
    Broker c (c.setStage k send stage)
  | thrown : Broker c c

theorem Broker.of_event {c d : ProduceMsgCallData} {e : BrokerEvent} (h : c.broker e = some d) : Broker c d := by
  cases e with
  | onSuccess k =>
    obtain ⟨send, hk, h⟩ := Option.bind_eq_some_iff.mp h
    split at h
    next hst =>
      obtain rfl := Option.some.inj h
      exact .acked hk (by simp [hst])
    next => cases h
  | onException k =>
    obtain ⟨send, hk, h⟩ := Option.bind_eq_some_iff.mp h
    split at h
    next hst =>
      obtain rfl := Option.some.inj h
      exact .moved hk (by simp [hst]) (by simp)
    next => cases h
  | retrySending k thrown =>
    obtain ⟨send, hk, h⟩ := Option.bind_eq_some_iff.mp h
    split at h
    next hst =>
      obtain rfl := Option.some.inj h
      split
      · exact .thrown
      · exact .moved hk (by simp [hst]) (by simp)
    next => cases h

/-! ### The process -/

/-- The steps of a process, by what they do. -/
inductive Process.Steps (p : Process) : ProcessEvent → Process → Prop where
  | receive {request} : Steps p (.receive request)
    { p with
      taskCount := p.taskCount + 1
      handlers := p.handlers ++ [⟨{ request := request }, ⟨produceMsg request, 0⟩⟩] }
  | call {i outcome h h' redisMtx} (hi : p.handlers[i]? = some h) (hc : h.call outcome = some h') :
    Steps p (.call i outcome) { p with redisMtx := redisMtx, handlers := p.handlers.set i h' }
  | throws {i h str len} (hi : p.handlers[i]? = some h) (hn : h.next = some (.copy str len)) :
    Steps p (.throws i) { p with down := true }
  | broker {i e h data} (hi : p.handlers[i]? = some h) (hb : h.data.broker e = some data) : Steps p (.broker i e)
    { p with
      taskCount := if h.data.finished.length < data.finished.length then p.taskCount - 1 else p.taskCount
      handlers := p.handlers.set i { h with data := data } }

theorem Process.steps_of_step {p q : Process} {e : ProcessEvent} (h : p.step e = some q) :
    p.down = false ∧ p.Steps e q := by
  unfold Process.step at h
  split at h
  next => cases h
  next hdown =>
    refine ⟨by simpa using hdown, ?_⟩
    cases e with
    | receive request =>
      obtain rfl := Option.some.inj h
      exact .receive
    | call i outcome =>
      obtain ⟨x, hi, h⟩ := Option.bind_eq_some_iff.mp h
      obtain ⟨o, -, h⟩ := Option.bind_eq_some_iff.mp h
      obtain ⟨redisMtx, -, h⟩ := Option.bind_eq_some_iff.mp h
      obtain ⟨x', hc, h⟩ := Option.bind_eq_some_iff.mp h
      obtain rfl := Option.some.inj h
      exact .call hi hc
    | throws i =>
      obtain ⟨x, hi, h⟩ := Option.bind_eq_some_iff.mp h
      split at h
      next str len hn =>
        obtain rfl := Option.some.inj h
        exact .throws hi hn
      next => cases h
    | broker i e =>
      obtain ⟨x, hi, h⟩ := Option.bind_eq_some_iff.mp h
      obtain ⟨data, hb, h⟩ := Option.bind_eq_some_iff.mp h
      obtain rfl := Option.some.inj h
      exact .broker hi hb

/-- A call that the step tries fares as `φ` says. -/
def Handler.allows (φ : (o : ProduceMsgOp) → Option o.Ret → Bool) (h : Handler) (outcome : Outcome) : Bool :=
  match h.thread with
  | ⟨.pure _, _⟩ => true
  | ⟨.call o _, n⟩ => (o.attempt n h.data outcome).all fun x => φ o x.1

def Process.allows (φ : (o : ProduceMsgOp) → Option o.Ret → Bool) (p : Process) : ProcessEvent → Bool
  | .call i outcome => p.handlers[i]?.all fun h => h.allows φ outcome
  | _ => true

theorem Handler.step_of_call {φ : (o : ProduceMsgOp) → Option o.Ret → Bool} {h h' : Handler} {outcome : Outcome}
    (hc : h.call outcome = some h') (ha : h.allows φ outcome) :
    Thread.Step (produceMsgTry.under fun o _ _ r _ => φ o r) (h.thread, h.data) (h'.thread, h'.data) := by
  obtain ⟨data, ⟨prog, n⟩⟩ := h
  cases prog with
  | pure a => cases hc
  | call o k =>
    simp only [Handler.call] at hc
    simp only [Handler.allows] at ha
    split at hc
    next => cases hc
    next d hd =>
      obtain rfl := Option.some.inj hc
      rw [hd] at ha
      exact .retry ⟨⟨outcome, hd⟩, ha⟩
    next r d hd =>
      obtain rfl := Option.some.inj hc
      rw [hd] at ha
      exact .ret ⟨⟨outcome, hd⟩, ha⟩

/-- A step of the thread: its call returns, or is to be tried again. -/
theorem Handler.call_cases {h h' : Handler} {outcome : Outcome} (hc : h.call outcome = some h') :
    ∃ o k n, h.thread.prog = .call o k ∧
      ((o.attempt n h.data outcome = some (none, h'.data) ∧ h'.thread.prog = .call o k) ∨
        ∃ r, o.attempt n h.data outcome = some (some r, h'.data) ∧ h'.thread.prog = k r) := by
  obtain ⟨data, ⟨prog, n⟩⟩ := h
  cases prog with
  | pure a => cases hc
  | call o k =>
    refine ⟨o, k, n, rfl, ?_⟩
    simp only [Handler.call] at hc
    split at hc
    next => cases hc
    next d hd =>
      obtain rfl := Option.some.inj hc
      exact Or.inl ⟨hd, rfl⟩
    next r d hd =>
      obtain rfl := Option.some.inj hc
      exact Or.inr ⟨r, hd, rfl⟩

/-- A handler after a step of its process: it is as it was, it is new, its thread has made a call, or the broker
    has called back. -/
theorem Process.step_handlers {p q : Process} {e : ProcessEvent} {i : Nat} {h' : Handler} (hs : p.step e = some q)
    (hi : q.handlers[i]? = some h') :
    p.handlers[i]? = some h' ∨
    (i = p.handlers.length ∧ ∃ request, h' = ⟨{ request := request }, ⟨produceMsg request, 0⟩⟩) ∨
    (∃ h outcome, e = .call i outcome ∧ p.handlers[i]? = some h ∧ h.call outcome = some h') ∨
    ∃ h b data, e = .broker i b ∧ p.handlers[i]? = some h ∧ h.data.broker b = some data ∧ h' = { h with data } := by
  cases (Process.steps_of_step hs).2 with
  | receive =>
    rcases Count.of_getElem?_snoc hi with hi | ⟨hlen, rfl⟩
    · exact Or.inl hi
    · exact Or.inr (Or.inl ⟨hlen, _, rfl⟩)
  | call hj hc =>
    rcases Count.of_getElem?_set hi with ⟨rfl, rfl⟩ | ⟨-, hi⟩
    · exact Or.inr (Or.inr (Or.inl ⟨_, _, rfl, hj, hc⟩))
    · exact Or.inl hi
  | throws => exact Or.inl hi
  | broker hj hb =>
    rcases Count.of_getElem?_set hi with ⟨rfl, rfl⟩ | ⟨-, hi⟩
    · exact Or.inr (Or.inr (Or.inr ⟨_, _, _, rfl, hj, hb, rfl⟩))
    · exact Or.inl hi

/-- A run of a producer whose steps meet the condition. -/
def ProcessReaches (ok : Process → ProcessEvent → Prop) (p : Process) : Prop :=
  Runs.Reaches (Runs.under (Runs.ofFun Process.step) ok) {} p

theorem ProcessReaches.invariant {ok : Process → ProcessEvent → Prop} {I : Process → Prop} {p : Process}
    (h : ProcessReaches ok p) (init : I {}) (keep : ∀ p e q, I p → ok p e → p.step e = some q → I q) : I p :=
  Runs.Reaches.invariant h init fun p e q hp hs => keep p e q hp hs.1 hs.2

/-- A run that is given by its events. -/
theorem ProcessReaches.of_events (ok : Process → ProcessEvent → Prop) [∀ p e, Decidable (ok p e)] (P : Process → Prop)
    [DecidablePred P] (es : List ProcessEvent) (h : (Runs.exec Process.step ok es {}).any (fun p => decide (P p)) = true) :
    ∃ p, ProcessReaches ok p ∧ P p :=
  Runs.exists_of_exec es h

/-! ### One request -/

/-- What each thread has still to do keeps `J` and ends in `Q`. -/
def Process.Holds (φ : (o : ProduceMsgOp) → Option o.Ret → Bool) (J : ProduceMsgCallData → Prop)
    (Q : ErrCode → ProduceMsgCallData → Prop) (p : Process) : Prop :=
  ∀ h ∈ p.handlers, h.thread.Holds (produceMsgTry.under fun o _ _ r _ => φ o r) Broker J Q h.data

/-- What holds of every request when it is received holds of every request in every state. -/
theorem Process.Holds.step {φ : (o : ProduceMsgOp) → Option o.Ret → Bool} {J : ProduceMsgCallData → Prop}
    {Q : ErrCode → ProduceMsgCallData → Prop} {p q : Process} {e : ProcessEvent} (hp : p.Holds φ J Q)
    (hs : p.step e = some q) (ha : p.allows φ e) (hk : Keeps Broker J Q)
    (hnew : ∀ request, wp (produceMsgTry.under fun o _ _ r _ => φ o r) Broker J (produceMsg request) Q
      { request := request }) : q.Holds φ J Q := by
  intro x hx
  cases (Process.steps_of_step hs).2 with
  | receive =>
    rcases List.mem_append.mp hx with hx | hx
    · exact hp x hx
    · obtain rfl := List.mem_singleton.mp hx
      exact hnew _
  | call hi hc =>
    rcases Count.mem_set hx with rfl | hx
    · simp only [Process.allows, hi, Option.all_some] at ha
      exact (hp _ (List.mem_of_getElem? hi)).step (Handler.step_of_call hc ha)
    · exact hp x hx
  | throws => exact hp x hx
  | broker hi hb =>
    rcases Count.mem_set hx with rfl | hx
    · exact (hp _ (List.mem_of_getElem? hi)).env hk (Broker.of_event hb)
    · exact hp x hx

end PushSystem
