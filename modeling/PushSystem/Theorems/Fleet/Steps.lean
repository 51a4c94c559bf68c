import PushSystem.Fleet
import PushSystem.Theorems.Daemon.Chunks
import PushSystem.Theorems.Producer.Decodes

/-! What a step of the fleet can do, and that its runs are runs of the daemon and of each producer. -/

namespace PushSystem
open Redis Bitmap Prog

/-- The steps of the fleet, by what they do. -/
inductive Fleet.Steps (f : Fleet) : FleetEvent → Fleet → Prop where
  | start {address} : Steps f (.start address)
    { f with
      audience := { f.audience with processes := f.audience.processes ++ [{}] }
      addresses := f.addresses ++ [address] }
  | daemon {e daemon} (he : e.isReply = false) (hs : f.daemon.step e = some daemon) :
    Steps f (.daemon e) { f with daemon }
  | stores {e audience} (h : audience.processes = f.audience.processes) : Steps f (.audience e) { f with audience }
  | process {pid p q e} (he : e.isRedis = false) (hnew : ∀ request, e ≠ .receive request)
    (hp : f.audience.processes[pid]? = some p) (hq : p.step e = some q) : Steps f (.audience (.process pid e))
    { f with audience := { f.audience with processes := f.audience.processes.set pid q } }
  | redis {pid i a p h cmd q sources} (hp : f.audience.processes[pid]? = some p) (hi : p.handlers[i]? = some h)
    (hn : h.next = some (.redis cmd))
    (hq : p.step (.call i (.redisCommand (f.audience.stores.redisCommand cmd a).1)) = some q) :
    Steps f (.audience (.redis pid i a))
    { f with
      audience := { f.audience with
        stores := (f.audience.stores.redisCommand cmd a).2
        processes := f.audience.processes.set pid q
        sources }
      bitmaps := f.note (.redis pid i a) }
  | receive {call pid c stub p q} (hc : f.daemon.calls[call]? = some c) (hstub : c.stub = some stub)
    (haddress : f.addresses[pid]? = some stub.address) (hp : f.audience.processes[pid]? = some p)
    (hnone : f.received call = none) (hq : p.step (.receive c.request) = some q) : Steps f (.receive call pid)
    { f with
      audience := { f.audience with processes := f.audience.processes.set pid q }
      received := Function.update f.received call (some (pid, p.handlers.length)) }
  | reply {call pid i p h reply daemon} (hr : f.received call = some (pid, i))
    (hp : f.audience.processes[pid]? = some p) (hi : p.handlers[i]? = some h)
    (hreply : h.data.finished.head? = some reply)
    (hs : f.daemon.step (.completion call (.reply reply.err)) = some daemon) : Steps f (.reply call) { f with daemon }

namespace Fleet
variable {f g : Fleet}

/-- The producers, the updates and Redis. -/
theorem steps_audience {e : AudienceEvent} (h : f.step (.audience e) = some g) : f.Steps (.audience e) g := by
  change (if _ then _ else _) = _ at h
  split at h
  next => cases h
  next harrival =>
    obtain ⟨audience, ha, h⟩ := Option.bind_eq_some_iff.mp h
    obtain rfl := Option.some.inj h
    cases e with
    | start => exact absurd rfl harrival
    | update tag =>
      obtain rfl := Option.some.inj ha
      exact .stores rfl
    | process pid pe =>
      obtain ⟨p, hp, ha⟩ := Option.bind_eq_some_iff.mp ha
      split at ha
      next => cases ha
      next he =>
        obtain ⟨q, hq, ha⟩ := Option.bind_eq_some_iff.mp ha
        obtain rfl := Option.some.inj ha
        refine .process (Bool.eq_false_iff.mpr he) (fun request hnew => harrival ?_) hp hq
        rw [hnew]
        rfl
    | redis pid i a =>
      obtain ⟨p, hp, ha⟩ := Option.bind_eq_some_iff.mp ha
      obtain ⟨x, hi, ha⟩ := Option.bind_eq_some_iff.mp ha
      split at ha
      next cmd hn =>
        obtain ⟨q, hq, ha⟩ := Option.bind_eq_some_iff.mp ha
        obtain rfl := Option.some.inj ha
        exact .redis hp hi hn hq
      next => cases ha
    | updater j => cases ha
    | expire =>
      obtain ⟨entry, -, ha⟩ := Option.bind_eq_some_iff.mp ha
      split at ha
      next => cases ha
      next =>
        obtain rfl := Option.some.inj ha
        exact .stores rfl

theorem steps_receive {call pid : Nat} (h : f.step (.receive call pid) = some g) : f.Steps (.receive call pid) g := by
  obtain ⟨c, hc, h⟩ := Option.bind_eq_some_iff.mp h
  obtain ⟨stub, hstub, h⟩ := Option.bind_eq_some_iff.mp h
  obtain ⟨address, haddress, h⟩ := Option.bind_eq_some_iff.mp h
  obtain ⟨p, hp, h⟩ := Option.bind_eq_some_iff.mp h
  split at h
  next hok =>
    obtain ⟨audience, ha, h⟩ := Option.bind_eq_some_iff.mp h
    obtain ⟨p', hp', ha⟩ := Option.bind_eq_some_iff.mp ha
    obtain rfl := Option.some.inj (hp.symm.trans hp')
    obtain ⟨q, hq, ha⟩ := Option.bind_eq_some_iff.mp ha
    obtain rfl := Option.some.inj ha
    obtain rfl := Option.some.inj h
    exact .receive hc hstub (hok.2 ▸ haddress) hp hok.1 hq
  next => cases h

theorem steps_of_trans {e : FleetEvent} (h : f.Trans e g) : f.Steps e g := by
  cases h with
  | updater h =>
    cases h with
    | step h => cases h
    | updater hu hstep => exact .stores rfl
  | step h =>
    cases e with
    | start address =>
      obtain rfl := Option.some.inj h
      exact .start
    | daemon e =>
      change (if _ then _ else _) = _ at h
      split at h
      next => cases h
      next he =>
        obtain ⟨daemon, hs, h⟩ := Option.bind_eq_some_iff.mp h
        obtain rfl := Option.some.inj h
        exact .daemon (Bool.eq_false_iff.mpr he) hs
    | audience e => exact steps_audience h
    | receive call pid => exact steps_receive h
    | reply call =>
      obtain ⟨⟨pid, i⟩, hr, h⟩ := Option.bind_eq_some_iff.mp h
      obtain ⟨p, hp, h⟩ := Option.bind_eq_some_iff.mp h
      obtain ⟨x, hi, h⟩ := Option.bind_eq_some_iff.mp h
      obtain ⟨reply, hreply, h⟩ := Option.bind_eq_some_iff.mp h
      obtain ⟨daemon, hs, h⟩ := Option.bind_eq_some_iff.mp h
      obtain rfl := Option.some.inj h
      exact .reply hr hp hi hreply hs

end Fleet

/-- An invariant of the fleet holds from the start and survives each way of stepping. -/
theorem FleetReaches.induct {ok : Fleet → FleetEvent → Prop} {Inv : Fleet → Prop} {f : Fleet} (h : FleetReaches ok f)
    (init : ∀ w, Inv { audience := { stores := w } }) (keep : ∀ f e g, Inv f → ok f e → f.Steps e g → Inv g) : Inv f := by
  obtain ⟨w, hrun⟩ := h
  exact hrun.invariant (init w) fun f e g hf hs => keep f e g hf hs.1 (Fleet.steps_of_trans hs.2)

/-! ### The daemon -/

section Daemon
variable {ok : Fleet → FleetEvent → Prop} {f : Fleet}

/-- The daemon of a run of the fleet runs as it would alone: to it a reply is a completion like any other. -/
theorem FleetReaches.daemon {ok' : State → Event → Prop} (h : FleetReaches ok f)
    (hok : ∀ f e, ok f (.daemon e) → ok' f.daemon e)
    (hreply : ∀ f call reply, ok f (.reply call) → ok' f.daemon (.completion call (.reply reply))) :
    DaemonReaches ok' f.daemon := by
  refine @FleetReaches.induct ok (fun f => DaemonReaches ok' f.daemon) f h (fun _ => Runs.Reaches.refl)
    fun f e g hf he hs => ?_
  cases hs with
  | daemon _ hs => exact hf.step ⟨hok _ _ he, hs⟩
  | reply _ _ _ _ hs => exact hf.step ⟨hreply _ _ _ he, hs⟩
  | start | stores | process | redis | receive => exact hf

end Daemon

/-! ### The producers -/

/-- A request after a step of the fleet: it is as it was, a call has become it, its thread has made a call, or the
    broker has called back. -/
inductive Fleet.Moves (f g : Fleet) (pid i : Nat) (h' : Handler) : Prop where
  | same {p} (hp : f.audience.processes[pid]? = some p) (hi : p.handlers[i]? = some h')
    (hbitmap : g.bitmaps pid i = f.bitmaps pid i)
  | received {call c} (hc : f.daemon.calls[call]? = some c) (hnone : f.received call = none)
    (hr : g.received = Function.update f.received call (some (pid, i)))
    (hh : h' = ⟨{ request := c.request }, ⟨produceMsg c.request, 0⟩⟩)
  | called {p h outcome} (hp : f.audience.processes[pid]? = some p) (hi : p.handlers[i]? = some h)
    (hc : h.call outcome = some h')
    (hkeep : (∀ cmd, h.next ≠ some (.redis cmd)) → g.bitmaps pid i = f.bitmaps pid i)
    (hread : ∀ o k n r, h.thread.prog = .call o k → o.attempt n h.data outcome = some (some r, h'.data) →
      AnswersRead o r → ∃ bytes, g.bitmaps pid i = some bytes ∧ AnsweredFrom bytes o r)
  | broker {p h b data} (hp : f.audience.processes[pid]? = some p) (hi : p.handlers[i]? = some h)
    (hb : h.data.broker b = some data) (hh : h' = { h with data }) (hbitmap : g.bitmaps pid i = f.bitmaps pid i)

section Moves
variable {f g : Fleet} {e : FleetEvent} {pid i : Nat} {p q : Process} {h h' : Handler}

/-- Only the value that a `GETRANGE` reads is noted. -/
theorem Fleet.note_cases (f : Fleet) (e : AudienceEvent) :
    f.note e = f.bitmaps ∨ ∃ pid i p h key first last, e = .redis pid i .heard ∧ f.audience.processes[pid]? = some p ∧
      p.handlers[i]? = some h ∧ h.next = some (.redis (.getrange key first last)) ∧ f.note e =
        Function.update f.bitmaps pid
          (Function.update (f.bitmaps pid) i (some (f.audience.stores.redis.value key))) := by
  cases e with
  | redis pid i a =>
    cases a with
    | lost | unheard => exact Or.inl rfl
    | heard =>
      simp only [Fleet.note]
      split
      next key first last hn =>
        obtain ⟨h, hh, hn⟩ := Option.bind_eq_some_iff.mp hn
        obtain ⟨p, hp, hi⟩ := Option.bind_eq_some_iff.mp hh
        exact Or.inr ⟨pid, i, p, h, key, first, last, rfl, hp, hi, hn, rfl⟩
      next => exact Or.inl rfl
  | start | update | process | updater | expire => exact Or.inl rfl

/-- A command is noted for the request that makes it only. -/
theorem Fleet.note_of_ne {pid' i' : Nat} {a : Attempt} (hne : (pid', i') ≠ (pid, i)) :
    f.note (.redis pid i a) pid' i' = f.bitmaps pid' i' := by
  rcases f.note_cases (.redis pid i a) with heq | ⟨_, _, p, h, key, first, last, he, -, -, -, heq⟩
  · rw [heq]
  · obtain ⟨rfl, rfl, -⟩ := AudienceEvent.redis.inj he
    rw [heq]
    by_cases hpid : pid' = pid
    · subst hpid
      rw [Function.update_self, Function.update_of_ne fun hi => hne (by rw [hi])]
    · rw [Function.update_of_ne hpid]

/-- Only an answered `GETRANGE` is noted. -/
theorem Fleet.note_self {cmd : RedisCommand} {k : Option Reply → ProduceMsgProg ErrCode} {n : Nat}
    {c d : ProduceMsgCallData} {r : Option Reply} {a : Attempt} (hp : f.audience.processes[pid]? = some p)
    (hi : p.handlers[i]? = some h) (hprog : h.thread.prog = .call (.redis cmd) k)
    (hm : ProduceMsgOp.attempt (.redis cmd) n c (.redisCommand (f.audience.stores.redisCommand cmd a).1) =
      some (some r, d)) (hr : AnswersRead (.redis cmd) r) :
    ∃ bytes, f.note (.redis pid i a) pid i = some bytes ∧ AnsweredFrom bytes (.redis cmd) r := by
  cases cmd with
  | getrange key first last =>
    cases r with
    | none => exact hr.elim
    | some reply =>
      obtain ⟨rfl, hreply⟩ := heard_of_attempt hm
      obtain rfl := Option.some.inj hreply
      refine ⟨f.audience.stores.redis.value key, ?_, rfl⟩
      simp [Fleet.note, hp, hi, Handler.next, hprog]
  | del | existsKey | setrange | rename | bitop | bitcount | expire => exact hr.elim

/-- A process that steps without receiving a call or hearing from Redis. -/
theorem Fleet.moves_process {e : ProcessEvent} (hp : f.audience.processes[pid]? = some p) (hq : p.step e = some q)
    (he : e.isRedis = false) (hnew : ∀ request, e ≠ .receive request) (hbitmap : g.bitmaps = f.bitmaps)
    (hi : q.handlers[i]? = some h') : f.Moves g pid i h' := by
  cases (Process.steps_of_step hq).2 with
  | receive => exact absurd rfl (hnew _)
  | throws => exact .same hp hi (by rw [hbitmap])
  | @call j outcome h _ _ hj hc =>
    rcases Count.of_getElem?_set hi with ⟨rfl, rfl⟩ | ⟨-, hi⟩
    · refine .called hp hj hc (fun _ => by rw [hbitmap]) fun o k n r _ hm hr => ?_
      cases o with
      | redis cmd =>
        cases outcome <;> simp [ProduceMsgOp.attempt, ProcessEvent.isRedis] at hm he
        rw [← hm.2.1] at hr
        cases cmd <;> exact hr.elim
      | lock | unlock | freeReply | copy | setWaitForSendCount | send | finish => exact hr.elim
    · exact .same hp hi (by rw [hbitmap])
  | broker hj hb =>
    rcases Count.of_getElem?_set hi with ⟨rfl, rfl⟩ | ⟨-, hi⟩
    · exact .broker hp hj hb rfl (by rw [hbitmap])
    · exact .same hp hi (by rw [hbitmap])

theorem Fleet.Steps.moves (hs : f.Steps e g) (hq : g.audience.processes[pid]? = some q) (hi : q.handlers[i]? = some h') :
    f.Moves g pid i h' := by
  cases hs with
  | start =>
    rcases Count.of_getElem?_snoc hq with hq | ⟨-, rfl⟩
    · exact .same hq hi rfl
    · cases hi
  | daemon | reply => exact .same hq hi rfl
  | stores heq => exact .same (heq ▸ hq) hi rfl
  | process he hnew hp hstep =>
    rcases Count.of_getElem?_set hq with ⟨rfl, rfl⟩ | ⟨-, hq⟩
    · exact Fleet.moves_process hp hstep he hnew rfl hi
    · exact .same hq hi rfl
  | @receive call _ c _ p _ hc _ _ hp hnone hstep =>
    rcases Count.of_getElem?_set hq with ⟨rfl, rfl⟩ | ⟨-, hq⟩
    · obtain rfl := Option.some.inj ((if_neg (by simp [(Process.steps_of_step hstep).1])).symm.trans hstep)
      rcases Count.of_getElem?_snoc hi with hi | ⟨rfl, rfl⟩
      · exact .same hp hi rfl
      · exact .received hc hnone rfl rfl
    · exact .same hq hi rfl
  | @redis pid' i' a p h cmd q' _ hp hj hn hstep =>
    rcases Count.of_getElem?_set hq with ⟨rfl, rfl⟩ | ⟨hpid, hq⟩
    · cases (Process.steps_of_step hstep).2 with
      | call hj' hc =>
        obtain rfl := Option.some.inj (hj.symm.trans hj')
        rcases Count.of_getElem?_set hi with ⟨rfl, rfl⟩ | ⟨hne, hi⟩
        · obtain ⟨k, hprog⟩ := Handler.prog_of_next hn
          refine .called hp hj hc (fun hno => absurd hn (hno cmd)) fun o k' n r hprog' hm hr => ?_
          obtain ⟨rfl, -⟩ := Prog.call.inj (hprog.symm.trans hprog')
          exact Fleet.note_self hp hj hprog hm hr
        · exact .same hp hi (Fleet.note_of_ne fun heq => hne (Prod.mk.inj heq).2.symm)
    · exact .same hq hi (Fleet.note_of_ne fun heq => hpid (Prod.mk.inj heq).1.symm)

end Moves

end PushSystem
