import PushSystem.Theorems.Fleet.Links

/-! Delivery. Whatever fails and in whatever order things happen, once the loop of a push is past its end and none of
    its calls is under way, each user of the push is covered by a call that was answered `SUCCESS`, and the broker has
    accepted the messages of its request. No message is sent that is not one of a push. -/

namespace PushSystem
open Redis Bitmap Prog

/-- The producer answered `SUCCESS`. -/
def Call.Answered (c : Call) : Prop := c.stage = .gotReply .success ∨ c.stage = .succeeded

instance (c : Call) : Decidable c.Answered :=
  inferInstanceAs (Decidable (c.stage = .gotReply .success ∨ c.stage = .succeeded))

/-- The call is over: it was answered, or its chunk has been sent again. -/
def Call.Settled (c : Call) : Prop := c.Answered ∨ ∃ curUid, c.stage = .resending curUid ∧ c.request.endUid < curUid

instance (c : Call) : Decidable c.Settled :=
  match hst : c.stage with
  | .resending curUid => decidable_of_iff (c.request.endUid < curUid) (by simp [Call.Settled, Call.Answered, hst])
  | .succeeded | .gotReply .success => isTrue (Or.inl (by simp [Call.Answered, hst]))
  | .inFlight | .gotReply .err | .rpcFailed | .failCounted =>
    isFalse fun h => by simp [Call.Settled, Call.Answered, hst] at h

/-- What the daemon knows about its calls is what their requests did. -/
structure FleetInv (f : Fleet) : Prop where
  linked : f.Linked
  runs : ∀ (pid : Nat) (p : Process), f.audience.processes[pid]? = some p → ∃ es, p.Run es
  decodes : ∀ (pid i : Nat) (h : Handler), f.request? pid i = some h → h.Decodes (f.bitmaps pid i)
  success : ∀ (pid i : Nat) (h : Handler), f.request? pid i = some h → h.data.OnlySuccess
  /-- No producer answers with an error. -/
  noError : ∀ c ∈ f.daemon.calls, c.stage ≠ .gotReply .err
  answered : ∀ (call : Nat) (c : Call), f.daemon.calls[call]? = some c → c.Answered →
    ∃ pid i h, f.Link call pid i c h ∧ h.data.finished ≠ []

section Inv
variable {f g : Fleet} {e : FleetEvent}

/-- The processes of the fleet run as they would alone. -/
theorem FleetInv.runs_step (hf : FleetInv f) (hs : f.Steps e g) (pid : Nat) (q : Process)
    (hq : g.audience.processes[pid]? = some q) : ∃ es, q.Run es := by
  have hset : ∀ {pid' : Nat} {p q' : Process} {e : ProcessEvent}, f.audience.processes[pid']? = some p →
      p.step e = some q' → (f.audience.processes.set pid' q')[pid]? = some q → ∃ es, q.Run es := by
    intro pid' p q' e hp hq' hq
    rcases Count.of_getElem?_set hq with ⟨-, rfl⟩ | ⟨-, hq⟩
    · obtain ⟨es, hrun⟩ := hf.runs pid' p hp
      exact ⟨_, Process.run_snoc hrun hq'⟩
    · exact hf.runs pid q hq
  cases hs with
  | start =>
    rcases Count.of_getElem?_snoc hq with hq | ⟨-, rfl⟩
    · exact hf.runs pid q hq
    · exact ⟨[], rfl⟩
  | daemon | reply => exact hf.runs pid q hq
  | stores heq => exact hf.runs pid q (heq ▸ hq)
  | process _ _ hp hstep => exact hset hp hstep hq
  | redis hp _ _ hstep => exact hset hp hstep hq
  | receive _ _ _ hp _ hstep => exact hset hp hstep hq

theorem FleetInv.requests_step (hf : FleetInv f) (hs : f.Steps e g) {pid i : Nat} {h' : Handler}
    (hi : g.request? pid i = some h') : h'.Decodes (g.bitmaps pid i) ∧ h'.data.OnlySuccess := by
  obtain ⟨q, hq, hi⟩ := Fleet.request?_eq_some.mp hi
  cases hs.moves hq hi with
  | same hp hi hbitmap =>
    rw [hbitmap]
    exact ⟨hf.decodes pid i h' (Fleet.request?_of hp hi), hf.success pid i h' (Fleet.request?_of hp hi)⟩
  | received _ _ _ hh =>
    subst hh
    exact ⟨Handler.decodes_new _, fun _ hr => by cases hr⟩
  | @called p h outcome hp hi hc hkeep hread =>
    exact ⟨(hf.decodes pid i h (Fleet.request?_of hp hi)).call hc hkeep hread,
      (hf.success pid i h (Fleet.request?_of hp hi)).call hc⟩
  | @broker p h b data hp hj hb hh hbitmap =>
    subst hh
    rw [hbitmap]
    exact ⟨(hf.decodes pid i h (Fleet.request?_of hp hj)).broker hb,
      (hf.success pid i h (Fleet.request?_of hp hj)).broker hb⟩

/-- The answered request of a call stays one. -/
theorem FleetInv.answered_kept (hs : f.Steps e g) {call : Nat} {c c' : Call} (hc' : g.daemon.calls[call]? = some c')
    (h : ∃ pid i h, f.Link call pid i c h ∧ h.data.finished ≠ []) :
    ∃ pid i h, g.Link call pid i c' h ∧ h.data.finished ≠ [] := by
  obtain ⟨pid, i, h, hl, hfin⟩ := h
  obtain ⟨c'', h', hl', -, hk⟩ := hl.step hs
  obtain rfl := Option.some.inj (hc'.symm.trans hl'.sent)
  refine ⟨pid, i, _, hl', fun hnil => hfin ?_⟩
  exact List.prefix_nil.mp (hnil ▸ hk.finished)

/-- A call after a step of the fleet is answered only if it was, or by its request. -/
theorem FleetInv.calls_step (hf : FleetInv f) (hs : f.Steps e g) {call : Nat} {c' : Call}
    (hc' : g.daemon.calls[call]? = some c') :
    c'.stage ≠ .gotReply .err ∧ (c'.Answered → ∃ pid i h, g.Link call pid i c' h ∧ h.data.finished ≠ []) := by
  have hold : ∀ c, f.daemon.calls[call]? = some c → c.Answered →
      ∃ pid i h, g.Link call pid i c' h ∧ h.data.finished ≠ [] := fun c hc ha =>
    FleetInv.answered_kept hs hc' (hf.answered call c hc ha)
  have hcalls : ∀ {e' : Event}, f.daemon.Steps e' g.daemon → (∀ call' code, e' = .completion call' (.reply code) →
      code = .success ∧ ∃ pid i h c, f.Link call' pid i c h ∧ h.data.finished ≠ []) →
      c'.stage ≠ .gotReply .err ∧ (c'.Answered → ∃ pid i h, g.Link call pid i c' h ∧ h.data.finished ≠ []) := by
    intro e' hd hreply
    cases hd.calls hc' with
    | same hc => exact ⟨hf.noError c' (List.mem_of_getElem? hc), hold c' hc⟩
    | pushed _ _ _ heq =>
      subst heq
      exact ⟨by simp, fun ha => by rcases ha with ha | ha <;> cases ha⟩
    | resent _ _ _ _ heq =>
      subst heq
      exact ⟨by simp, fun ha => by rcases ha with ha | ha <;> cases ha⟩
    | @moved c stage hc hm heq =>
      subst heq
      cases hm with
      | reply =>
        obtain ⟨rfl, pid, i, h, c₀, hl, hfin⟩ := hreply _ _ rfl
        exact ⟨by simp, fun _ => FleetInv.answered_kept hs hc' ⟨pid, i, h, hl, hfin⟩⟩
      | succeed hst => exact ⟨by simp, fun _ => hold c hc (Or.inl hst)⟩
      | rpcFail | resend | countFailure | resent => exact ⟨by simp, fun ha => by rcases ha with ha | ha <;> cases ha⟩
  rcases hs.daemon_cases with heq | ⟨e', -, he', hd⟩ | ⟨call', pid, i, h, reply, -, hr, hi, hreply, hd⟩
  · rw [heq] at hc'
    exact ⟨hf.noError c' (List.mem_of_getElem? hc'), hold c' hc'⟩
  · exact hcalls hd fun call' code heq => by
      subst heq
      cases he'
  · refine hcalls hd fun call'' code heq => ?_
    obtain ⟨rfl, hcode⟩ := Event.completion.inj heq
    obtain rfl := Completion.reply.inj hcode
    obtain ⟨c, h', hl⟩ := hf.linked.link _ _ _ hr
    obtain rfl := Option.some.inj (hi.symm.trans hl.request)
    have hmem := List.mem_of_head? hreply
    refine ⟨?_, pid, i, h, c, hl, List.ne_nil_of_mem hmem⟩
    rw [hf.success pid i h hi reply hmem]

theorem FleetInv.step (hf : FleetInv f) (hs : f.Steps e g) : FleetInv g where
  linked := hf.linked.step hs
  runs := hf.runs_step hs
  decodes _ _ _ hi := (hf.requests_step hs hi).1
  success _ _ _ hi := (hf.requests_step hs hi).2
  noError c hc := by
    obtain ⟨call, hc⟩ := List.mem_iff_getElem?.mp hc
    exact (hf.calls_step hs hc).1
  answered _ _ hc := (hf.calls_step hs hc).2

theorem FleetInv.init (w : Stores) : FleetInv { audience := { stores := w } } where
  linked := by
    refine ⟨fun _ _ _ hr => ?_, fun _ _ _ hi => ?_, fun _ _ _ hr => ?_⟩
    · cases hr
    · cases hi
    · cases hr
  runs _ _ hp := by cases hp
  decodes _ _ _ hi := by cases hi
  success _ _ _ hi := by cases hi
  noError _ hc := by cases hc
  answered _ _ hc := by cases hc

theorem fleetInv_of_reaches {ok : Fleet → FleetEvent → Prop} (h : FleetReaches ok f) : FleetInv f :=
  h.induct .init fun _ _ _ hf _ hs => hf.step hs

end Inv

/-! ### Runs with bounded pushes -/

/-- The pushes that begin are `Bounded`. -/
def FleetBounded (f : Fleet) : FleetEvent → Prop
  | .daemon e => PushesBounded f.daemon e
  | _ => True

instance (f : Fleet) : (e : FleetEvent) → Decidable (FleetBounded f e)
  | .daemon e => inferInstanceAs (Decidable (PushesBounded f.daemon e))
  | .start _ | .audience _ | .receive _ _ | .reply _ => isTrue trivial

/-- `BeginPush` has been answered, and none of the calls of the push is under way. -/
structure Fleet.PushOver (f : Fleet) (p : Nat) (x : Push) : Prop where
  push : f.daemon.pushes[p]? = some x
  dispatched : x.request.endUid < x.curUid
  settled : ∀ c ∈ f.daemon.calls, c.push = p → c.Settled

section Bounded
variable {ok : Fleet → FleetEvent → Prop} {f : Fleet} {p : Nat} {x : Push} {uid : UInt64}

theorem FleetReaches.grid (h : FleetReaches ok f) (hok : ∀ f e, ok f e → FleetBounded f e) : GridInv f.daemon :=
  gridInv_of_reaches (h.daemon (fun f e he => hok f (.daemon e) he) fun _ _ _ _ => trivial)

/-- What a call asks its producer for is a chunk of its push. -/
theorem GridInv.dispatched {s : State} (h : GridInv s) {c : Call} (hc : c ∈ s.calls) : c.request.Dispatched := by
  obtain ⟨x, -, hfits⟩ := h.chunks.fits c hc
  have hsmall := hfits.small
  exact ⟨hfits.nonempty, by omega⟩

/-- A chunk starts at a byte of the bitmap if its push does. -/
theorem Call.OnGrid.aligned {c : Call} (h : c.OnGrid x) (hstart : x.request.startUid.toNat % 8 = 0) :
    c.request.startUid.toNat % 8 = 0 := by
  obtain ⟨k, hk⟩ := h.start
  omega

/-- What the request of an answered call has sent. -/
theorem FleetInv.served (hf : FleetInv f) (hg : GridInv f.daemon) {call : Nat} {c : Call}
    (hc : f.daemon.calls[call]? = some c) (ha : c.Answered) :
    ∃ pid i h bitmap, f.Link call pid i c h ∧ f.bitmaps pid i = some bitmap ∧ h.Served bitmap := by
  obtain ⟨pid, i, h, hl, hfin⟩ := hf.answered call c hc ha
  obtain ⟨p, hp, hi⟩ := Fleet.request?_eq_some.mp hl.request
  obtain ⟨es, hrun⟩ := hf.runs pid p hp
  have hr : h.data.request.Dispatched := hl.same ▸ hg.dispatched (List.mem_of_getElem? hc)
  obtain ⟨bitmap, hbitmap, hserved⟩ :=
    (hf.decodes pid i h hl.request).served ((sendsInv_of_run hrun).phase i h hi) hr hfin
  exact ⟨pid, i, h, bitmap, hl, hbitmap, hserved⟩

/-- No two messages of a request are the same. -/
theorem FleetInv.nodup_bodies (hf : FleetInv f) (hg : GridInv f.daemon) {call pid i : Nat} {c : Call} {h : Handler}
    (hl : f.Link call pid i c h) : (h.data.sends.map (·.body)).Nodup := by
  obtain ⟨p, hp, hi⟩ := Fleet.request?_eq_some.mp hl.request
  obtain ⟨es, hrun⟩ := hf.runs pid p hp
  by_cases hnil : h.messages = []
  · rw [(List.append_eq_nil_iff.mp hnil).1]
    exact List.nodup_nil
  · have hdispatched : h.data.request.Dispatched := hl.same ▸ hg.dispatched (List.mem_of_getElem? hl.sent)
    exact (List.nodup_append.mp (((sendsInv_of_run hrun).phase i h hi).exact hnil hdispatched).distinct).1

/-- What a request sends carries the message of its push. -/
theorem FleetInv.msgId (hf : FleetInv f) {call pid i : Nat} {c : Call} {h : Handler} (hl : f.Link call pid i c h)
    {send : Send} (hsend : send ∈ h.data.sends) : send.body.msgId = c.request.msgId := by
  obtain ⟨bitmap, userInfoStr, -, -, hbody⟩ := (hf.decodes pid i h hl.request).mem_sends hsend
  obtain ⟨uid, -, hbody⟩ := List.mem_map.mp hbody
  rw [← hbody, hl.same]

/-- A settled call that still holds a user was answered. -/
theorem Call.Settled.answered {c : Call} (hs : c.Settled) (hh : c.Holds p uid) : c.Answered := by
  rcases hs with ha | ⟨curUid, hst, hpast⟩
  · exact ha
  · exact absurd (UInt64.le_trans (hh.2.2 curUid hst) hh.2.1.2) (UInt64.not_le.mpr hpast)

theorem Call.Answered.holder {c : Call} {call : Nat} (h : c.Answered) : c.holder call = .answered call := by
  rcases h with h | h <;> simp [Call.holder, h]

/-- Once a push is over, each of its users is held by an answered call, and the broker has accepted what the request
    of the call has decoded. -/
theorem FleetInv.delivered (hf : FleetInv f) (hg : GridInv f.daemon) (ho : f.PushOver p x)
    (hstart : x.request.startUid.toNat % 8 = 0) (hu : x.request.Covers uid) :
    ∃ call pid i c r bitmap, f.daemon.holders p uid = [.answered call] ∧ f.Link call pid i c r ∧
      c.request.endUid ≤ x.request.endUid ∧ f.bitmaps pid i = some bitmap ∧
      (∀ send ∈ r.data.sends, send.stage = .acked) ∧ (c.request.endUid.toNat / 8 < bitmap.length →
        (⟨uid, x.request.msgId⟩ ∈ r.data.sends.map (·.body) ↔ testBit bitmap uid.toNat)) := by
  obtain ⟨call, c, hc, hholds, hholders⟩ := hg.chunks.holder ho.push hu ho.dispatched
  have hmem := List.mem_of_getElem? hc
  have ha := (ho.settled c hmem hholds.1).answered hholds
  obtain ⟨pid, i, r, bitmap, hl, hbitmap, hserved⟩ := hf.served hg hc ha
  obtain ⟨y, hy, hgrid⟩ := hg.calls c hmem
  obtain ⟨z, hz, hfits⟩ := hg.chunks.fits c hmem
  rw [hholds.1, ho.push] at hy hz
  obtain rfl := Option.some.inj hy
  obtain rfl := Option.some.inj hz
  refine ⟨call, pid, i, c, r, bitmap, by rw [hholders, ha.holder], hl, hfits.stop, hbitmap, hserved.accepted,
    fun hin => ?_⟩
  obtain ⟨userInfoStr, hcopied, hbodies⟩ := hserved.sent
  rw [hl.same] at hcopied hbodies
  obtain ⟨-, huids⟩ := hcopied.uids hfits.nonempty (hgrid.aligned hstart) hin
  have hcovers := hholds.2.1
  have hbyte : uid.toNat / 8 ≤ c.request.endUid.toNat / 8 :=
    Nat.div_le_div_right (UInt64.le_iff_toNat_le.mp hcovers.2)
  rw [hbodies, ← hfits.msgId]
  simp only [ProduceMsgRequest.messagesTo, List.mem_map, ProducerMsg.mk.injEq, and_true, exists_eq_right, huids]
  exact ⟨fun hbit => hbit.2.2, fun hbit => ⟨hcovers.1, hbyte, hbit⟩⟩

end Bounded

/-- Once a push is over, each of its users is held by one answered call. The broker has accepted all messages of the
    request of that call, and one of them is to the user exactly if the bit of the user is set in the bitmap that the
    request has read. -/
theorem push_delivered {f : Fleet} (h : FleetReaches FleetBounded f) {p : Nat} {x : Push} (ho : f.PushOver p x)
    (hstart : x.request.startUid.toNat % 8 = 0) {uid : UInt64} (hu : x.request.Covers uid) :
    ∃ call pid i c r bitmap, f.daemon.holders p uid = [.answered call] ∧ f.Link call pid i c r ∧
      f.bitmaps pid i = some bitmap ∧ (∀ send ∈ r.data.sends, send.stage = .acked) ∧
      (c.request.endUid.toNat / 8 < bitmap.length →
        (⟨uid, x.request.msgId⟩ ∈ r.data.sends.map (·.body) ↔ testBit bitmap uid.toNat)) := by
  obtain ⟨call, pid, i, c, r, bitmap, hholders, hl, -, hbitmap, haccepted, hsent⟩ :=
    (fleetInv_of_reaches h).delivered (h.grid fun _ _ he => he) ho hstart hu
  exact ⟨call, pid, i, c, r, bitmap, hholders, hl, hbitmap, haccepted, hsent⟩

/-- A run of the fleet that is given by its events. -/
theorem FleetReaches.of_events (ok : Fleet → FleetEvent → Prop) [∀ f e, Decidable (ok f e)] (P : Fleet → Prop)
    [DecidablePred P] (w : Stores) (es : List FleetEvent)
    (h : (Runs.exec Fleet.step ok es { audience := { stores := w } }).any (fun f => decide (P f)) = true) :
    ∃ f, FleetReaches ok f ∧ P f := by
  obtain ⟨f, hrun, hf⟩ := Runs.exists_of_exec es h
  exact ⟨f, ⟨w, hrun.mono fun _ _ _ hs => ⟨hs.1, .step hs.2⟩⟩, hf⟩

/-- A producer registers, and the only chunk of a push is sent to it. -/
def onePush : List FleetEvent :=
  [.start "10.0.0.1:50053", .daemon (.clientRegister ⟨"50053", producerName, 601⟩ "ipv4:10.0.0.1:4000" 5 0),
    .daemon (.beginPush ⟨1, 0, 7⟩), .daemon (.pushLoop 0 0), .receive 0 0]

/-- The request `i` of the only producer computes the audience, reads it and sends its only message. -/
def computesAndSends (i : Nat) : List FleetEvent :=
  [.audience (.process 0 (.call i .done)), .audience (.redis 0 i .heard), .audience (.process 0 (.call i .done)),
    .audience (.redis 0 i .heard), .audience (.process 0 (.call i .done)), .audience (.redis 0 i .heard),
    .audience (.process 0 (.call i .done)), .audience (.redis 0 i .heard),
    .audience (.process 0 (.call i (.copied fun _ => 0))), .audience (.process 0 (.call i .done)),
    .audience (.process 0 (.call i .done)), .audience (.process 0 (.call i .done)),
    .audience (.process 0 (.call i .done))]

/-- The audience exists when the request `i` reads it and sends its only message. -/
def readsAndSends (i : Nat) : List FleetEvent :=
  [.audience (.process 0 (.call i .done)), .audience (.redis 0 i .heard), .audience (.process 0 (.call i .done)),
    .audience (.redis 0 i .heard), .audience (.process 0 (.call i (.copied fun _ => 0))),
    .audience (.process 0 (.call i .done)), .audience (.process 0 (.call i .done)),
    .audience (.process 0 (.call i .done)), .audience (.process 0 (.call i .done))]

/-- The call fails after its message was sent, and the chunk is sent again. -/
def sentAgain : List FleetEvent :=
  onePush ++ computesAndSends 0 ++
    [.daemon (.completion 0 .rpcFail), .daemon (.handleCompletion 0), .daemon (.handleCompletion 0),
      .daemon (.resendLoop 0 0), .receive 1 0] ++ readsAndSends 1 ++
    [.audience (.process 0 (.broker 1 (.onSuccess 0))), .reply 1, .daemon (.handleCompletion 1)]

theorem push_delivered_sentAgain : ∃ f : Fleet, FleetReaches FleetBounded f ∧
    f.daemon.calls.map (·.stage) = [.resending 4096, .succeeded] ∧ ∀ uid : UInt64, uid ≤ 7 →
    ∃ call pid i c r bitmap, f.daemon.holders 0 uid = [.answered call] ∧ f.Link call pid i c r ∧
      f.bitmaps pid i = some bitmap ∧ (∀ send ∈ r.data.sends, send.stage = .acked) ∧
      (c.request.endUid.toNat / 8 < bitmap.length →
        (⟨uid, 1⟩ ∈ r.data.sends.map (·.body) ↔ testBit bitmap uid.toNat)) := by
  obtain ⟨f, hf, hst, hsettled, x, hx, hrequest, hend⟩ := FleetReaches.of_events FleetBounded
    (fun f => f.daemon.calls.map (·.stage) = [.resending 4096, .succeeded] ∧
      (∀ c ∈ f.daemon.calls, c.push = 0 → c.Settled) ∧
      ∃ x ∈ f.daemon.pushes[0]?, x.request = ⟨1, 0, 7⟩ ∧ x.request.endUid < x.curUid)
    (publishedStores [0, 1, 2]) sentAgain (by decide +kernel)
  refine ⟨f, hf, hst, fun uid huid => ?_⟩
  have hdelivered := @push_delivered f hf 0 x ⟨hx, hend, hsettled⟩ (by rw [hrequest]; decide) uid
    (by rw [hrequest]; exact ⟨UInt64.zero_le, huid⟩)
  rwa [hrequest] at hdelivered

/-! ### What is sent -/

/-- A message of a producer is one of a push: it was sent for a chunk of the push, no other message of its request is
    the same, and its user is one of the bytes of the chunk whose bit is set in the bitmap that the request has
    read. -/
theorem messages_sound {f : Fleet} (h : FleetReaches FleetBounded f) {pid i : Nat} {r : Handler} {send : Send}
    (hr : f.request? pid i = some r) (hsend : send ∈ r.data.sends) :
    ∃ call c x bitmap, f.Link call pid i c r ∧ f.daemon.pushes[c.push]? = some x ∧ send.body.msgId = x.request.msgId ∧
      f.bitmaps pid i = some bitmap ∧ (r.data.sends.map (·.body)).Nodup ∧
      (x.request.startUid.toNat % 8 = 0 → c.request.endUid.toNat / 8 < bitmap.length →
        x.request.startUid ≤ send.body.toUid ∧ send.body.toUid.toNat / 8 ≤ x.request.endUid.toNat / 8 ∧
          testBit bitmap send.body.toUid.toNat) := by
  have hg := h.grid fun _ _ he => he
  have hf := fleetInv_of_reaches h
  obtain ⟨call, hcall⟩ := hf.linked.origin pid i r hr
  obtain ⟨c, r', hl⟩ := hf.linked.link call pid i hcall
  obtain rfl := Option.some.inj (hr.symm.trans hl.request)
  have hmem := List.mem_of_getElem? hl.sent
  obtain ⟨x, hx, hfits⟩ := hg.chunks.fits c hmem
  obtain ⟨y, hy, hgrid⟩ := hg.calls c hmem
  obtain rfl := Option.some.inj (hx.symm.trans hy)
  obtain ⟨bitmap, userInfoStr, hbitmap, hcopied, hbody⟩ := (hf.decodes pid i r hr).mem_sends hsend
  obtain ⟨uid, huid, hbody⟩ := List.mem_map.mp hbody
  rw [hl.same] at hcopied huid hbody
  refine ⟨call, c, x, bitmap, hl, hx, (hf.msgId hl hsend).trans hfits.msgId, hbitmap, hf.nodup_bodies hg hl,
    fun hstart hin => ?_⟩
  obtain ⟨-, huids⟩ := hcopied.uids hfits.nonempty (hgrid.aligned hstart) hin
  obtain ⟨hge, hle, hbit⟩ := (huids uid).mp huid
  rw [← hbody]
  exact ⟨UInt64.le_trans hfits.start hge,
    hle.trans (Nat.div_le_div_right (UInt64.le_iff_toNat_le.mp hfits.stop)), hbit⟩

/-- The call failed, and both requests have sent the same message. -/
theorem messages_sound_sentAgain : ∃ f : Fleet, FleetReaches FleetBounded f ∧ ∀ i ∈ List.range 2, ∃ r : Handler,
    f.request? 0 i = some r ∧ r.data.sends.map (·.body) = [⟨0, 1⟩] ∧ ∀ send ∈ r.data.sends,
      ∃ call c x bitmap, f.Link call 0 i c r ∧ f.daemon.pushes[c.push]? = some x ∧
        send.body.msgId = x.request.msgId ∧ f.bitmaps 0 i = some bitmap ∧ (r.data.sends.map (·.body)).Nodup ∧
        (x.request.startUid.toNat % 8 = 0 → c.request.endUid.toNat / 8 < bitmap.length →
          x.request.startUid ≤ send.body.toUid ∧ send.body.toUid.toNat / 8 ≤ x.request.endUid.toNat / 8 ∧
            testBit bitmap send.body.toUid.toNat) := by
  obtain ⟨f, hf, hsent⟩ := FleetReaches.of_events FleetBounded
    (fun f => ∀ i ∈ List.range 2, (f.request? 0 i).map (fun r => r.data.sends.map (·.body)) = some [⟨0, 1⟩])
    (publishedStores [0, 1, 2]) sentAgain (by decide +kernel)
  refine ⟨f, hf, fun i hi => ?_⟩
  obtain ⟨r, hr, hbodies⟩ := Option.map_eq_some_iff.mp (hsent i hi)
  exact ⟨r, hr, hbodies, fun send hsend => messages_sound hf hr hsend⟩

end PushSystem
