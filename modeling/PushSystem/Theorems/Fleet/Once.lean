import PushSystem.Theorems.Fleet.Delivery

/-! Runs in which no RPC fails. A producer answers with no error, so that nothing is sent again: a user gets no message
    of a push twice. An error of `ProduceMsg` is not answered either, and its chunk stays in flight. -/

namespace PushSystem
open Redis Bitmap Prog

/-- The pushes that begin are `Bounded`, and gRPC fails no call. -/
def NoRpcFail (f : Fleet) : FleetEvent → Prop
  | .daemon (.completion _ .rpcFail) => False
  | e => FleetBounded f e

instance (f : Fleet) : (e : FleetEvent) → Decidable (NoRpcFail f e)
  | .daemon (.completion _ .rpcFail) => isFalse id
  | .daemon (.completion _ (.reply _)) | .start _ | .audience _ | .receive _ _ | .reply _ => isTrue trivial
  | .daemon (.clientRegister ..) | .daemon (.heartBeat ..) | .daemon (.loadBalance ..) | .daemon (.pushLoop ..) |
    .daemon (.resendLoop ..) | .daemon (.handleCompletion _) | .daemon (.checkProcAlive _) |
    .daemon .reBalanceTimer => isTrue trivial
  | .daemon (.beginPush req) =>
    inferInstanceAs (Decidable (ProduceMsgRequest.Bounded ⟨req.msgId, req.startUid, req.endUid⟩))

theorem NoRpcFail.bounded {f : Fleet} {e : FleetEvent} (h : NoRpcFail f e) : FleetBounded f e := by
  cases e with
  | daemon e =>
    cases e with
    | beginPush => exact h
    | clientRegister | heartBeat | loadBalance | pushLoop | resendLoop | completion | handleCompletion | checkProcAlive |
      reBalanceTimer => trivial
  | start | audience | receive | reply => trivial

/-- Each call is in flight or was answered `SUCCESS`. -/
def Fleet.Faultless (f : Fleet) : Prop := ∀ c ∈ f.daemon.calls, c.stage = .inFlight ∨ c.Answered

theorem Fleet.Faultless.step {f g : Fleet} {e : FleetEvent} (h : f.Faultless) (hf : FleetInv g) (hok : NoRpcFail f e)
    (hs : f.Steps e g) : g.Faultless := by
  intro c' hc'
  have hnoError := hf.noError c' hc'
  obtain ⟨call, hc'⟩ := List.mem_iff_getElem?.mp hc'
  have hcalls : ∀ {e' : Event}, f.daemon.Steps e' g.daemon → (∀ call, e' ≠ .completion call .rpcFail) →
      c'.stage = .inFlight ∨ c'.Answered := by
    intro e' hd hne
    cases hd.calls hc' with
    | same hc => exact h c' (List.mem_of_getElem? hc)
    | pushed _ _ _ heq =>
      subst heq
      exact Or.inl rfl
    | resent _ hc hst =>
      rcases h _ (List.mem_of_getElem? hc) with ha | ha | ha <;> rw [hst] at ha <;> cases ha
    | @moved c stage hc hm heq =>
      subst heq
      have hstage := h c (List.mem_of_getElem? hc)
      cases hm with
      | @reply code =>
        cases code with
        | success => exact Or.inr (Or.inl rfl)
        | err => exact absurd rfl hnoError
      | rpcFail => exact absurd rfl (hne _)
      | succeed => exact Or.inr (Or.inr rfl)
      | resend hst => rcases hstage with ha | ha | ha <;> rcases hst with hst | hst <;> rw [hst] at ha <;> cases ha
      | countFailure hst => rcases hstage with ha | ha | ha <;> rw [hst] at ha <;> cases ha
      | resent hst => rcases hstage with ha | ha | ha <;> rw [hst] at ha <;> cases ha
  rcases hs.daemon_cases with heq | ⟨e', rfl, -, hd⟩ | ⟨_, _, _, _, _, rfl, -, -, -, hd⟩
  · exact h c' (List.mem_of_getElem? (heq ▸ hc'))
  · exact hcalls hd fun call heq => by
      subst heq
      exact hok
  · exact hcalls hd fun call heq => by cases heq

theorem faultless_of_reaches {f : Fleet} (h : FleetReaches NoRpcFail f) : f.Faultless :=
  (@FleetReaches.induct NoRpcFail (fun f => FleetInv f ∧ f.Faultless) f h (fun w => ⟨.init w, fun _ hc => by cases hc⟩)
    fun _ _ _ hf hok hs => ⟨hf.1.step hs, hf.2.step (hf.1.step hs) hok hs⟩).2

/-! ### At most once -/

/-- The message number `k` of the request of `call`, which is one of the push `p`, is to the user. -/
def Fleet.Sends (f : Fleet) (p : Nat) (uid : UInt64) (call k : Nat) : Prop :=
  ∃ pid i c r send, f.Link call pid i c r ∧ c.push = p ∧ r.data.sends[k]? = some send ∧ send.body.toUid = uid

section Once
variable {f : Fleet} {p : Nat} {x : Push} {uid : UInt64} {call call' k k' : Nat}

/-- A chunk that starts at a byte shares none with the rest of its push. -/
theorem Fleet.Sends.holds (h : FleetReaches NoRpcFail f) (hx : f.daemon.pushes[p]? = some x)
    (hstart : x.request.startUid.toNat % 8 = 0) (hu : x.request.Covers uid) (hs : f.Sends p uid call k) :
    ∃ c, f.daemon.calls[call]? = some c ∧ c.Holds p uid := by
  obtain ⟨pid, i, c, r, send, hl, rfl, hk, rfl⟩ := hs
  have hg := h.grid fun _ _ he => he.bounded
  have hmem := List.mem_of_getElem? hl.sent
  obtain ⟨y, hy, hfits⟩ := hg.chunks.fits c hmem
  obtain ⟨z, hz, hgrid⟩ := hg.calls c hmem
  obtain rfl := Option.some.inj (hx.symm.trans hy)
  obtain rfl := Option.some.inj (hx.symm.trans hz)
  obtain ⟨bitmap, userInfoStr, -, hcopied, hbody⟩ :=
    ((fleetInv_of_reaches h).decodes pid i r hl.request).mem_sends (List.mem_of_getElem? hk)
  obtain ⟨uid, huid, hbody⟩ := List.mem_map.mp hbody
  rw [hl.same] at hcopied huid
  have haligned := hgrid.aligned hstart
  obtain ⟨hge, hbyte⟩ := hcopied.range hfits.nonempty haligned huid
  refine ⟨c, hl.sent, rfl, ?_, fun curUid hst => ?_⟩
  · rw [← hbody] at hu ⊢
    have hstop := hgrid.stop
    have hle := UInt64.le_iff_toNat_le.mp hu.2
    refine ⟨hge, UInt64.le_iff_toNat_le.mpr ?_⟩
    show uid.toNat ≤ _
    change uid.toNat ≤ _ at hle
    omega
  · rcases faultless_of_reaches h c hmem with ha | ha | ha <;> rw [hst] at ha <;> cases ha

/-- While no RPC fails, a push sends at most one message to each of its users. -/
theorem push_sent_once (h : FleetReaches NoRpcFail f) (hx : f.daemon.pushes[p]? = some x)
    (hstart : x.request.startUid.toNat % 8 = 0) (hu : x.request.Covers uid) (hs : f.Sends p uid call k)
    (hs' : f.Sends p uid call' k') : call = call' ∧ k = k' := by
  have hg := h.grid fun _ _ he => he.bounded
  obtain ⟨c, hc, hholds⟩ := hs.holds h hx hstart hu
  obtain ⟨c', hc', hholds'⟩ := hs'.holds h hx hstart hu
  have honce := hg.chunks.once p x hx uid hu
  obtain rfl : call = call' := Count.eq_of_countP_le_one (p := fun c => decide (c.Holds p uid)) (by omega) hc hc'
    (decide_eq_true hholds) (decide_eq_true hholds')
  refine ⟨rfl, ?_⟩
  obtain ⟨pid, i, c₁, r, send, hl, -, hk, huid⟩ := hs
  obtain ⟨pid', i', c₂, r', send', hl', -, hk', huid'⟩ := hs'
  obtain ⟨rfl, rfl⟩ := Prod.mk.inj (Option.some.inj (hl.received.symm.trans hl'.received))
  obtain rfl := Option.some.inj (hl.request.symm.trans hl'.request)
  have hf := fleetInv_of_reaches h
  obtain rfl := Option.some.inj (hl.sent.symm.trans hl'.sent)
  have hmsg := (hf.msgId hl (List.mem_of_getElem? hk)).trans (hf.msgId hl (List.mem_of_getElem? hk')).symm
  have hbody : send.body = send'.body := congrArg₂ ProducerMsg.mk (huid.trans huid'.symm) hmsg
  have hlt : k < (r.data.sends.map (·.body)).length := by
    rw [List.length_map]
    exact (List.getElem?_eq_some_iff.mp hk).1
  refine (List.getElem?_inj hlt (hf.nodup_bodies hg hl)).mp ?_
  rw [List.getElem?_map, List.getElem?_map, hk, hk', Option.map_some, Option.map_some, hbody]

end Once

/-- The only message of a push is handed to the broker. -/
theorem push_sent_once_sent : ∃ f : Fleet, FleetReaches NoRpcFail f ∧ f.Sends 0 0 0 0 ∧
    ∀ call k call' k', f.Sends 0 0 call k → f.Sends 0 0 call' k' → call = call' ∧ k = k' := by
  obtain ⟨f, hf, ⟨x, hx, hrequest⟩, ⟨c, hc, hpush⟩, hreceived, hsent⟩ := FleetReaches.of_events NoRpcFail
    (fun f => (∃ x ∈ f.daemon.pushes[0]?, x.request = ⟨1, 0, 7⟩) ∧ (∃ c ∈ f.daemon.calls[0]?, c.push = 0) ∧
      f.received 0 = some (0, 0) ∧ (f.request? 0 0).map (fun r => r.data.sends.map (·.body)) = some [⟨0, 1⟩])
    (publishedStores [0, 1, 2]) (onePush ++ computesAndSends 0) (by decide +kernel)
  obtain ⟨r, hr, hbodies⟩ := Option.map_eq_some_iff.mp hsent
  obtain ⟨send, hsends, hbody⟩ := List.map_eq_singleton_iff.mp hbodies
  refine ⟨f, hf, ?_, fun call k call' k' hs hs' => ?_⟩
  · obtain ⟨d, r', hl⟩ := (fleetInv_of_reaches hf).linked.link 0 0 0 hreceived
    obtain rfl := Option.some.inj (hr.symm.trans hl.request)
    obtain rfl := Option.some.inj (Option.mem_def.mp hc |>.symm.trans hl.sent)
    exact ⟨0, 0, c, r, send, hl, hpush, by rw [hsends]; rfl, by rw [hbody]⟩
  · exact push_sent_once hf hx (by rw [hrequest]; decide) (by rw [hrequest]; decide) hs hs'

/-! ### Errors -/

/-- `ProduceMsg` has returned an error. -/
def Handler.refused (h : Handler) : Bool :=
  match h.thread.prog with
  | .pure .err => true
  | _ => false

theorem Handler.refused_iff {h : Handler} : h.refused ↔ h.thread.prog = .pure .err := by
  unfold Handler.refused
  split
  next heq => simp [heq]
  next hne => simpa using hne

/-- The call of a request that has returned an error, and the request. -/
def Fleet.Refused (call pid i push : Nat) (f : Fleet) : Prop :=
  ∃ c r, f.Link call pid i c r ∧ c.push = push ∧ r.refused

theorem Fleet.Refused.step {f g : Fleet} {e : FleetEvent} {call pid i push : Nat} (h : Fleet.Refused call pid i push f)
    (hs : f.Steps e g) : Fleet.Refused call pid i push g := by
  obtain ⟨c, r, hl, hpush, herr⟩ := h
  obtain ⟨c', r', hl', hpush', hk⟩ := hl.step hs
  exact ⟨c', r', hl', hpush'.trans hpush, Handler.refused_iff.mpr (hk.returned _ (Handler.refused_iff.mp herr))⟩

/-- An error of `ProduceMsg` is not answered: as long as no RPC fails, its call stays in flight, and its push is never
    over. -/
theorem error_unseen {f g : Fleet} (h : FleetReaches NoRpcFail f) {call pid i push : Nat}
    (herr : f.Refused call pid i push) (hg : Runs.Reaches (Runs.under Fleet.Trans NoRpcFail) f g) :
    ∃ c, g.daemon.calls[call]? = some c ∧ c.push = push ∧ c.stage = .inFlight ∧ ∀ x, ¬g.PushOver push x := by
  have hreached : FleetReaches NoRpcFail g := by
    obtain ⟨w, hrun⟩ := h
    exact ⟨w, hrun.trans hg⟩
  have hf := fleetInv_of_reaches hreached
  have hrefused : Fleet.Refused call pid i push g :=
    hg.invariant herr fun _ _ _ hr ht => hr.step (Fleet.steps_of_trans ht.2)
  obtain ⟨c, r, hl, hpush, herr⟩ := hrefused
  have hfresh := (hf.decodes pid i r hl.request).fresh (Handler.refused_iff.mp herr)
  have hmem := List.mem_of_getElem? hl.sent
  have hstage : c.stage = .inFlight := by
    refine (faultless_of_reaches hreached c hmem).resolve_right fun ha => ?_
    obtain ⟨pid', i', r', hl', hfin⟩ := hf.answered call c hl.sent ha
    obtain ⟨rfl, rfl⟩ := Prod.mk.inj (Option.some.inj (hl.received.symm.trans hl'.received))
    obtain rfl := Option.some.inj (hl.request.symm.trans hl'.request)
    exact hfin hfresh.finished
  refine ⟨c, hl.sent, hpush, hstage, fun x ho => ?_⟩
  rcases ho.settled c hmem hpush with (ha | ha) | ⟨curUid, ha, -⟩ <;> rw [hstage] at ha <;> cases ha

/-- `EXISTS` is given up, and nothing is left to happen to the push. -/
theorem error_unseen_exists : ∃ f : Fleet, FleetReaches NoRpcFail f ∧ Fleet.Refused 0 0 0 0 f ∧
    ∃ c, f.daemon.calls[0]? = some c ∧ c.push = 0 ∧ c.stage = .inFlight ∧ ∀ x, ¬f.PushOver 0 x := by
  obtain ⟨f, hf, ⟨c, hc, hpush⟩, hreceived, hrefused⟩ := FleetReaches.of_events NoRpcFail
    (fun f => (∃ c ∈ f.daemon.calls[0]?, c.push = 0) ∧ f.received 0 = some (0, 0) ∧
      (f.request? 0 0).map Handler.refused = some true)
    (publishedStores [0, 1, 2])
    (onePush ++ [.audience (.process 0 (.call 0 .done)), .audience (.redis 0 0 .lost), .audience (.redis 0 0 .lost),
      .audience (.redis 0 0 .lost), .audience (.process 0 (.call 0 .done))]) (by decide +kernel)
  obtain ⟨r, hr, herr⟩ := Option.map_eq_some_iff.mp hrefused
  obtain ⟨d, r', hl⟩ := (fleetInv_of_reaches hf).linked.link 0 0 0 hreceived
  obtain rfl := Option.some.inj (hr.symm.trans hl.request)
  obtain rfl := Option.some.inj (Option.mem_def.mp hc |>.symm.trans hl.sent)
  have hcall : Fleet.Refused 0 0 0 0 f := ⟨c, r, hl, hpush, herr⟩
  exact ⟨f, hf, hcall, error_unseen hf hcall .refl⟩

end PushSystem
