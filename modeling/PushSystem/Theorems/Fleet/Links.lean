import PushSystem.Theorems.Daemon.Calls
import PushSystem.Theorems.Fleet.Steps

/-! Calls and the requests they become. A call becomes at most one request, each request is that of one call, and a
    call is answered only by what its request gave to `responder_.Finish`. -/

namespace PushSystem
open Redis Bitmap Prog

/-! ### What a process keeps -/

section Kept
variable {p q : Process} {e : ProcessEvent} {i : Nat} {h h' : Handler}

/-- A step takes no answer of a request back. -/
theorem Handler.finished_of_call {outcome : Outcome} (hc : h.call outcome = some h') :
    h.data.finished <+: h'.data.finished := by
  obtain ⟨o, k, n, -, ⟨hm, -⟩ | ⟨r, hm, -⟩⟩ := Handler.call_cases hc
  · rw [eq_of_retry hm]
  · cases o with
    | setWaitForSendCount | send =>
      cases outcome <;> simp [ProduceMsgOp.attempt] at hm
      rw [← hm]
    | finish =>
      cases outcome <;> simp [ProduceMsgOp.attempt] at hm
      rw [← hm]
      exact List.prefix_append _ _
    | lock | unlock | redis | freeReply | copy => rw [eq_of_quiet (by trivial) ⟨_, hm⟩]

theorem ProduceMsgCallData.finished_of_broker {c d : ProduceMsgCallData} {b : BrokerEvent} (hb : c.broker b = some d) :
    c.finished <+: d.finished := by
  cases Broker.of_event hb with
  | thrown | moved => exact List.prefix_refl _
  | acked =>
    unfold ProduceMsgCallData.notifyOne
    split
    · exact List.prefix_append _ _
    · exact List.prefix_refl _

/-- A request keeps its place, what it asks for and its answers, and its thread returns once. -/
structure Handler.Kept (h h' : Handler) : Prop where
  request : h'.data.request = h.data.request
  finished : h.data.finished <+: h'.data.finished
  returned : ∀ code, h.thread.prog = .pure code → h'.thread.prog = .pure code

theorem Handler.Kept.refl : h.Kept h := ⟨rfl, List.prefix_refl _, fun _ h => h⟩

theorem Handler.kept_call {outcome : Outcome} (hc : h.call outcome = some h') : h.Kept h' where
  request := Handler.request_of_call hc
  finished := Handler.finished_of_call hc
  returned code hcode := by
    obtain ⟨o, k, n, hprog, -⟩ := Handler.call_cases hc
    cases hcode.symm.trans hprog

theorem Process.handler_kept (hs : p.step e = some q) (hi : p.handlers[i]? = some h) :
    ∃ h', q.handlers[i]? = some h' ∧ h.Kept h' := by
  have hset : ∀ {j : Nat} {x x' : Handler}, p.handlers[j]? = some x → x.Kept x' →
      ∃ h', (p.handlers.set j x')[i]? = some h' ∧ h.Kept h' := by
    intro j x x' hj hk
    by_cases hij : j = i
    · subst hij
      obtain rfl := Option.some.inj (hi.symm.trans hj)
      exact ⟨x', by rw [List.getElem?_set_self (List.getElem?_eq_some_iff.mp hi).1], hk⟩
    · exact ⟨h, by rw [List.getElem?_set_ne hij, hi], .refl⟩
  cases (Process.steps_of_step hs).2 with
  | receive => exact ⟨h, Count.getElem?_snoc_of_some hi, .refl⟩
  | throws => exact ⟨h, hi, .refl⟩
  | call hj hc => exact hset hj (Handler.kept_call hc)
  | broker hj hb =>
    obtain ⟨-, -, -, -, -, -, hrequest, -⟩ := ProduceMsgCallData.broker_sends hb
    exact hset hj ⟨hrequest, ProduceMsgCallData.finished_of_broker hb, fun _ h => h⟩

end Kept

/-! ### What the fleet keeps -/

/-- The request `i` of the process `pid`. -/
def Fleet.request? (f : Fleet) (pid i : Nat) : Option Handler := f.audience.processes[pid]?.bind fun p => p.handlers[i]?

section Fleet
variable {f g : Fleet} {e : FleetEvent} {pid i call : Nat} {h h' : Handler} {p : Process}

theorem Fleet.request?_eq_some : f.request? pid i = some h ↔
    ∃ p, f.audience.processes[pid]? = some p ∧ p.handlers[i]? = some h := Option.bind_eq_some_iff

theorem Fleet.request?_of (hp : f.audience.processes[pid]? = some p) (hi : p.handlers[i]? = some h) :
    f.request? pid i = some h := Fleet.request?_eq_some.mpr ⟨p, hp, hi⟩

theorem Fleet.Steps.request_kept (hs : f.Steps e g) (hr : f.request? pid i = some h) :
    ∃ h', g.request? pid i = some h' ∧ h.Kept h' := by
  obtain ⟨p, hp, hi⟩ := Fleet.request?_eq_some.mp hr
  have hset : ∀ {pid' : Nat} {p' q : Process} {e : ProcessEvent}, f.audience.processes[pid']? = some p' →
      p'.step e = some q → ∃ h', ((f.audience.processes.set pid' q)[pid]?.bind fun p => p.handlers[i]?) = some h' ∧
        h.Kept h' := by
    intro pid' p' q e hp' hq
    by_cases hpid : pid' = pid
    · subst hpid
      obtain rfl := Option.some.inj (hp.symm.trans hp')
      obtain ⟨h', hi', hk⟩ := Process.handler_kept hq hi
      exact ⟨h', by rw [List.getElem?_set_self (List.getElem?_eq_some_iff.mp hp).1]; exact hi', hk⟩
    · exact ⟨h, by rw [List.getElem?_set_ne hpid, hp]; exact hi, .refl⟩
  cases hs with
  | start => exact ⟨h, Fleet.request?_of (Count.getElem?_snoc_of_some hp) hi, .refl⟩
  | daemon | reply => exact ⟨h, Fleet.request?_of hp hi, .refl⟩
  | stores heq => exact ⟨h, Fleet.request?_of (heq ▸ hp) hi, .refl⟩
  | process _ _ hp' hq => exact hset hp' hq
  | redis hp' _ _ hq => exact hset hp' hq
  | receive _ _ _ hp' _ hq => exact hset hp' hq

/-- A step of the daemon that the step of the fleet makes, if it makes one. -/
theorem Fleet.Steps.daemon_cases (hs : f.Steps e g) :
    g.daemon = f.daemon ∨ (∃ e', e = .daemon e' ∧ e'.isReply = false ∧ f.daemon.Steps e' g.daemon) ∨
      ∃ call pid i h reply, e = .reply call ∧ f.received call = some (pid, i) ∧ f.request? pid i = some h ∧
        h.data.finished.head? = some reply ∧ f.daemon.Steps (.completion call (.reply reply.err)) g.daemon := by
  cases hs with
  | daemon he hs => exact Or.inr (Or.inl ⟨_, rfl, he, State.steps_of_step hs⟩)
  | reply hr hp hi hreply hs =>
    exact Or.inr (Or.inr ⟨_, _, _, _, _, rfl, hr, Fleet.request?_of hp hi, hreply, State.steps_of_step hs⟩)
  | start | stores | process | redis | receive => exact Or.inl rfl

theorem Fleet.Steps.call_kept (hs : f.Steps e g) {c : Call} (hc : f.daemon.calls[call]? = some c) :
    ∃ c', g.daemon.calls[call]? = some c' ∧ c'.request = c.request ∧ c'.push = c.push := by
  rcases hs.daemon_cases with heq | ⟨e', -, -, hd⟩ | ⟨call', pid, i, h, reply, -, -, -, -, hd⟩
  · exact ⟨c, by rw [heq, hc], rfl, rfl⟩
  · exact hd.call_kept hc
  · exact hd.call_kept hc

theorem Fleet.Steps.received_kept (hs : f.Steps e g) {x : Nat × Nat} (hr : f.received call = some x) :
    g.received call = some x := by
  cases hs with
  | receive _ _ _ _ hnone _ =>
    refine (Function.update_of_ne ?_ _ _).trans hr
    rintro rfl
    rw [hnone] at hr
    cases hr
  | start | daemon | stores | process | redis | reply => exact hr

end Fleet

/-! ### The links -/

/-- A call and the request it has become. -/
structure Fleet.Link (f : Fleet) (call pid i : Nat) (c : Call) (h : Handler) : Prop where
  sent : f.daemon.calls[call]? = some c
  received : f.received call = some (pid, i)
  request : f.request? pid i = some h
  same : h.data.request = c.request

structure Fleet.Linked (f : Fleet) : Prop where
  link : ∀ call pid i, f.received call = some (pid, i) → ∃ c h, f.Link call pid i c h
  origin : ∀ pid i h, f.request? pid i = some h → ∃ call, f.received call = some (pid, i)
  injective : ∀ call call' x, f.received call = some x → f.received call' = some x → call = call'

section Linked
variable {f g : Fleet} {e : FleetEvent}

theorem Fleet.Link.step {call pid i : Nat} {c : Call} {h : Handler} (hl : f.Link call pid i c h) (hs : f.Steps e g) :
    ∃ c' h', g.Link call pid i c' h' ∧ c'.push = c.push ∧ h.Kept h' := by
  obtain ⟨c', hc, hrequest, hpush⟩ := hs.call_kept hl.sent
  obtain ⟨h', hi, hk⟩ := hs.request_kept hl.request
  exact ⟨c', h', ⟨hc, hs.received_kept hl.received, hi, hk.request.trans (hl.same.trans hrequest.symm)⟩, hpush, hk⟩

theorem Fleet.Linked.step (hf : f.Linked) (hs : f.Steps e g) : g.Linked := by
  have hreceive : g.received = f.received ∨ ∃ call pid p c, e = .receive call pid ∧ f.received call = none ∧
      f.daemon.calls[call]? = some c ∧ f.audience.processes[pid]? = some p ∧
      g.received = Function.update f.received call (some (pid, p.handlers.length)) ∧
      ∃ h, g.Link call pid p.handlers.length c h := by
    cases hs with
    | @receive call pid c _ p q hc _ _ hp hnone hq =>
      refine Or.inr ⟨call, pid, p, c, rfl, hnone, hc, hp, rfl, ⟨{ request := c.request }, ⟨produceMsg c.request, 0⟩⟩,
        hc, Function.update_self _ _ _, ?_, rfl⟩
      obtain rfl := Option.some.inj ((if_neg (by simp [(Process.steps_of_step hq).1])).symm.trans hq)
      refine Fleet.request?_of (List.getElem?_set_self (List.getElem?_eq_some_iff.mp hp).1) ?_
      exact List.getElem?_concat_length
    | start | daemon | stores | process | redis | reply => exact Or.inl rfl
  refine ⟨fun call pid i hr => ?_, fun pid i h' hi => ?_, fun call call' x hr hr' => ?_⟩
  · have hold : f.received call = some (pid, i) → ∃ c h, g.Link call pid i c h := fun hr => by
      obtain ⟨c, h, hl⟩ := hf.link call pid i hr
      obtain ⟨c', h', hl', -⟩ := hl.step hs
      exact ⟨c', h', hl'⟩
    rcases hreceive with heq | ⟨call', pid', p, c, -, -, -, -, heq, h, hl⟩
    · exact hold (heq ▸ hr)
    · by_cases hcall : call = call'
      · subst hcall
        obtain ⟨rfl, rfl⟩ := Prod.mk.inj (Option.some.inj (hl.received.symm.trans hr))
        exact ⟨c, h, hl⟩
      · rw [heq, Function.update_of_ne hcall] at hr
        exact hold hr
  · obtain ⟨q, hq, hi⟩ := Fleet.request?_eq_some.mp hi
    have hold : ∀ {p : Process} {h : Handler}, f.audience.processes[pid]? = some p → p.handlers[i]? = some h →
        ∃ call, g.received call = some (pid, i) := fun hp hi => by
      obtain ⟨call, hr⟩ := hf.origin pid i _ (Fleet.request?_of hp hi)
      exact ⟨call, hs.received_kept hr⟩
    cases hs.moves hq hi with
    | same hp hi => exact hold hp hi
    | called hp hi => exact hold hp hi
    | broker hp hi => exact hold hp hi
    | @received call _ _ _ hr => exact ⟨call, by rw [hr, Function.update_self]⟩
  · rcases hreceive with heq | ⟨new, pid, p, c, -, hnone, -, hp, heq, -⟩
    · exact hf.injective call call' x (heq ▸ hr) (heq ▸ hr')
    · -- the place of a new request belongs to no call yet
      have hfree : ∀ call', f.received call' ≠ some (pid, p.handlers.length) := by
        intro call' hr
        obtain ⟨c', h', hl⟩ := hf.link _ _ _ hr
        obtain ⟨p', hp', hi⟩ := Fleet.request?_eq_some.mp hl.request
        obtain rfl := Option.some.inj (hp.symm.trans hp')
        exact absurd (List.getElem?_eq_some_iff.mp hi).1 (Nat.lt_irrefl _)
      rw [heq] at hr hr'
      by_cases hcall : call = new <;> by_cases hcall' : call' = new
      · rw [hcall, hcall']
      · subst hcall
        rw [Function.update_self] at hr
        rw [Function.update_of_ne hcall', ← hr] at hr'
        exact absurd hr' (hfree call')
      · subst hcall'
        rw [Function.update_self] at hr'
        rw [Function.update_of_ne hcall, ← hr'] at hr
        exact absurd hr (hfree call)
      · rw [Function.update_of_ne hcall] at hr
        rw [Function.update_of_ne hcall'] at hr'
        exact hf.injective call call' x hr hr'

end Linked

end PushSystem
