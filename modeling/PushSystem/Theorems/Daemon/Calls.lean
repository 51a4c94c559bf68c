import PushSystem.Theorems.Daemon.Chunks

/-! What a step of the daemon does to one call: it sends it or moves it to another stage. What a call carries is
    fixed when it is sent. -/

namespace PushSystem

/-- The stages that a step can move the call at `i` to. -/
inductive Call.Moves (c : Call) (i : Nat) : Event → Stage → Prop where
  | reply {code} (hst : c.stage = .inFlight) : Moves c i (.completion i (.reply code)) (.gotReply code)
  | rpcFail (hst : c.stage = .inFlight) : Moves c i (.completion i .rpcFail) .rpcFailed
  | succeed (hst : c.stage = .gotReply .success) : Moves c i (.handleCompletion i) .succeeded
  | resend (hst : c.stage = .gotReply .err ∨ c.stage = .failCounted) :
    Moves c i (.handleCompletion i) (.resending c.request.startUid)
  | countFailure (hst : c.stage = .rpcFailed) : Moves c i (.handleCompletion i) .failCounted
  | resent {curUid draw} (hst : c.stage = .resending curUid) (hcur : curUid ≤ c.request.endUid) :
    Moves c i (.resendLoop i draw) (.resending (curUid + uidCountPerTime))

/-- A call after a step of the daemon, by where it comes from. -/
inductive State.CallSteps (s : State) (i : Nat) (c' : Call) (e : Event) : Prop where
  | same (hc : s.calls[i]? = some c')
  | pushed {p : Nat} {x : Push} {svrId : UInt64} (hi : i = s.calls.length) (hx : s.pushes[p]? = some x) (hcur : x.curUid ≤ x.request.endUid)
    (hc' : c' = ⟨svrId, s.daemon.stubOf svrId, chunkAt x.request x.curUid, p, .inFlight⟩)
  | resent {j : Nat} {c : Call} {curUid svrId : UInt64} (hi : i = s.calls.length) (hc : s.calls[j]? = some c)
    (hst : c.stage = .resending curUid) (hcur : curUid ≤ c.request.endUid)
    (hc' : c' = ⟨svrId, s.daemon.stubOf svrId, chunkAt c.request curUid, c.push, .inFlight⟩)
  | moved {c : Call} {stage : Stage} (hc : s.calls[i]? = some c) (hm : c.Moves i e stage) (hc' : c' = { c with stage })

namespace State
variable {s t : State} {e : Event} {i : Nat} {c c' : Call}

/-- Replacing a call moves that one. -/
theorem callSteps_setCall {s' : State} {j : Nat} {stage : Stage} (hcalls : s'.calls = s.calls) (hc : s.calls[j]? = some c)
    (hm : c.Moves j e stage) (hi : (s'.setCall j { c with stage }).calls[i]? = some c') : s.CallSteps i c' e := by
  rw [setCall, hcalls] at hi
  rcases Count.of_getElem?_set hi with ⟨rfl, rfl⟩ | ⟨-, hi⟩
  · exact .moved hc hm rfl
  · exact .same hi

theorem Steps.calls (hs : s.Steps e t) (hi : t.calls[i]? = some c') : s.CallSteps i c' e := by
  cases hs with
  | clientRegister | heartBeat | loadBalance | beginPush | checkProcAlive | reBalanceTimer => exact .same hi
  | pushWait | pushPastEnd | resendWait | resendPastEnd => exact .same hi
  | pushSend hx hcur _ =>
    rcases Count.of_getElem?_snoc hi with hi | ⟨hlen, rfl⟩
    · exact .same hi
    · exact .pushed hlen hx hcur rfl
  | resendSend hc hst hcur _ =>
    rcases Count.of_getElem?_set hi with ⟨rfl, rfl⟩ | ⟨-, hi⟩
    · exact .moved hc (.resent hst hcur) rfl
    · rcases Count.of_getElem?_snoc hi with hi | ⟨hlen, rfl⟩
      · exact .same hi
      · exact .resent hlen hc hst hcur rfl
  | reply hc hst => exact callSteps_setCall rfl hc (.reply hst) hi
  | rpcFail hc hst => exact callSteps_setCall rfl hc (.rpcFail hst) hi
  | succeed hc hst => exact callSteps_setCall rfl hc (.succeed hst) hi
  | resend hc hst => exact callSteps_setCall rfl hc (.resend hst) hi
  | countFailure hc hst => exact callSteps_setCall rfl hc (.countFailure hst) hi

/-- What a call carries is kept. -/
theorem Steps.call_kept (hs : s.Steps e t) (hi : s.calls[i]? = some c) :
    ∃ c', t.calls[i]? = some c' ∧ c'.request = c.request ∧ c'.push = c.push := by
  have hset : ∀ (calls : List Call) (j : Nat) (x : Call) (stage : Stage), calls[i]? = some c → calls[j]? = some x →
      ∃ c', (calls.set j { x with stage })[i]? = some c' ∧ c'.request = c.request ∧ c'.push = c.push := by
    intro calls j x stage hi hj
    by_cases hij : j = i
    · subst hij
      obtain rfl := Option.some.inj (hi.symm.trans hj)
      exact ⟨{ c with stage }, by rw [List.getElem?_set_self (List.getElem?_eq_some_iff.mp hi).1], rfl, rfl⟩
    · exact ⟨c, by rw [List.getElem?_set_ne hij, hi], rfl, rfl⟩
  cases hs with
  | clientRegister | heartBeat | loadBalance | beginPush | checkProcAlive | reBalanceTimer => exact ⟨c, hi, rfl, rfl⟩
  | pushWait | pushPastEnd | resendWait | resendPastEnd => exact ⟨c, hi, rfl, rfl⟩
  | pushSend => exact ⟨c, Count.getElem?_snoc_of_some hi, rfl, rfl⟩
  | resendSend hc => exact hset _ _ _ _ (Count.getElem?_snoc_of_some hi) (Count.getElem?_snoc_of_some hc)
  | reply hc | rpcFail hc | succeed hc | resend hc | countFailure hc => exact hset _ _ _ _ hi hc

end State

/-! ### The chunks of a push -/

/-- The chunks of a push have the same size, but for the last one, whatever is sent again. -/
structure Call.OnGrid (c : Call) (x : Push) : Prop where
  start : ∃ k, c.request.startUid.toNat = x.request.startUid.toNat + 4096 * k
  stop : c.request.endUid.toNat = min (c.request.startUid.toNat + 4095) x.request.endUid.toNat

theorem chunkAt_startUid (r : ProduceMsgRequest) (curUid : UInt64) : (chunkAt r curUid).startUid = curUid := rfl

structure GridInv (s : State) : Prop where
  chunks : ChunkInv s
  pushes : ∀ x ∈ s.pushes, ∃ k, x.curUid.toNat = x.request.startUid.toNat + 4096 * k
  calls : ∀ c ∈ s.calls, ∃ x, s.pushes[c.push]? = some x ∧ c.OnGrid x

namespace State
variable {s t : State} {e : Event} {p : Nat} {x : Push}

/-- What a push asks for is kept. -/
theorem Steps.push_kept (hs : s.Steps e t) (hx : s.pushes[p]? = some x) :
    ∃ x', t.pushes[p]? = some x' ∧ x'.request = x.request := by
  cases hs with
  | beginPush => exact ⟨x, Count.getElem?_snoc_of_some hx, rfl⟩
  | @pushSend q _ y svrId _ hy =>
    by_cases hq : q = p
    · subst hq
      obtain rfl := Option.some.inj (hx.symm.trans hy)
      exact ⟨{ x with curUid := x.curUid + uidCountPerTime },
        List.getElem?_set_self (List.getElem?_eq_some_iff.mp hx).1, rfl⟩
    · exact ⟨x, (List.getElem?_set_ne hq).trans hx, rfl⟩
  | clientRegister | heartBeat | loadBalance | checkProcAlive | reBalanceTimer | pushWait | pushPastEnd | resendWait |
    resendPastEnd | resendSend | reply | rpcFail | succeed | resend | countFailure => exact ⟨x, hx, rfl⟩

/-- A push after a step of the daemon: as it was, begun, or a chunk further. -/
theorem Steps.push_cases (hs : s.Steps e t) (hx : t.pushes[p]? = some x) :
    s.pushes[p]? = some x ∨ x.curUid = x.request.startUid ∨
      ∃ y, s.pushes[p]? = some y ∧ y.curUid ≤ y.request.endUid ∧ x = { y with curUid := y.curUid + uidCountPerTime } := by
  cases hs with
  | beginPush =>
    rcases Count.of_getElem?_snoc hx with hx | ⟨-, rfl⟩
    · exact Or.inl hx
    · exact Or.inr (Or.inl rfl)
  | pushSend hy hcur =>
    rcases Count.of_getElem?_set hx with ⟨rfl, rfl⟩ | ⟨-, hx⟩
    · exact Or.inr (Or.inr ⟨_, hy, hcur, rfl⟩)
    · exact Or.inl hx
  | clientRegister | heartBeat | loadBalance | checkProcAlive | reBalanceTimer | pushWait | pushPastEnd | resendWait |
    resendPastEnd | resendSend | reply | rpcFail | succeed | resend | countFailure => exact Or.inl hx

end State

theorem GridInv.step {s t : State} {e : Event} (h : GridInv s) (hok : PushesBounded s e) (hs : s.Steps e t) :
    GridInv t where
  chunks := h.chunks.keep hs hok
  pushes x hx := by
    obtain ⟨p, hx⟩ := List.mem_iff_getElem?.mp hx
    rcases hs.push_cases hx with hx | hcur | ⟨y, hy, hcur, rfl⟩
    · exact h.pushes x (List.mem_of_getElem? hx)
    · exact ⟨0, by rw [hcur, Nat.mul_zero, Nat.add_zero]⟩
    · have hmem := List.mem_of_getElem? hy
      obtain ⟨k, hk⟩ := h.pushes y hmem
      refine ⟨k + 1, ?_⟩
      rw [add_uidCount_toNat (h.chunks.bounded y hmem).1 hcur, hk, Nat.mul_succ, Nat.add_assoc]
  calls c' hc' := by
    have hkept : ∀ {q : Nat} {x : Push}, s.pushes[q]? = some x → c'.push = q → c'.OnGrid x →
        ∃ x', t.pushes[c'.push]? = some x' ∧ c'.OnGrid x' := by
      rintro q x hx rfl hgrid
      obtain ⟨x', hx', hrequest⟩ := hs.push_kept hx
      exact ⟨x', hx', hrequest ▸ hgrid.start, hrequest ▸ hgrid.stop⟩
    obtain ⟨i, hc'⟩ := List.mem_iff_getElem?.mp hc'
    cases hs.calls hc' with
    | same hc =>
      obtain ⟨x, hx, hgrid⟩ := h.calls c' (List.mem_of_getElem? hc)
      exact hkept hx rfl hgrid
    | @pushed p x _ _ hx hcur heq =>
      subst heq
      have hmem := List.mem_of_getElem? hx
      exact hkept hx rfl ⟨h.pushes x hmem, chunkAt_endUid_toNat (h.chunks.bounded x hmem).1 hcur⟩
    | @resent j c curUid _ _ hc hst hcur heq =>
      subst heq
      have hmem := List.mem_of_getElem? hc
      obtain ⟨x, hx, hgrid⟩ := h.calls c hmem
      obtain ⟨y, hy, hfits⟩ := h.chunks.fits c hmem
      obtain rfl := Option.some.inj (hx.symm.trans hy)
      -- a chunk is sent again from its start
      obtain rfl : curUid = c.request.startUid := by
        rcases hfits.resending curUid hst with heq | hpast
        · exact heq
        · exact absurd hcur (UInt64.not_le.mpr hpast)
      have hb : c.request.Bounded := by
        have hstop := UInt64.le_iff_toNat_le.mp hfits.stop
        have hbx := (h.chunks.bounded x (List.mem_of_getElem? hx)).1
        simp only [ProduceMsgRequest.Bounded] at hbx ⊢
        omega
      have hend := chunkAt_endUid_toNat hb hcur
      have hgrid' := hgrid.stop
      refine hkept hx rfl ⟨?_, ?_⟩
      · simpa only [chunkAt_startUid] using hgrid.start
      · simp only [chunkAt_startUid]
        omega
    | @moved c stage hc _ heq =>
      subst heq
      obtain ⟨x, hx, hgrid⟩ := h.calls c (List.mem_of_getElem? hc)
      exact hkept hx rfl ⟨hgrid.start, hgrid.stop⟩

theorem gridInv_of_reaches {s : State} (h : DaemonReaches PushesBounded s) : GridInv s :=
  h.induct ⟨⟨by simp, by simp, by simp⟩, by simp, by simp⟩ fun _ _ _ hi hok hs => hi.step hok hs

/-- Once a push is dispatched, one call holds each of its users. -/
theorem ChunkInv.holder {s : State} (h : ChunkInv s) {p : Nat} {x : Push} {uid : UInt64} (hx : s.pushes[p]? = some x)
    (hu : x.request.Covers uid) (hend : x.request.endUid < x.curUid) :
    ∃ (call : Nat) (c : Call), s.calls[call]? = some c ∧ c.Holds p uid ∧ s.holders p uid = [c.holder call] := by
  have hpast : ¬x.curUid ≤ uid := fun hle => UInt64.not_lt.mpr (UInt64.le_trans hle hu.2) hend
  have hnone : ¬s.ToDispatch p uid := by
    rintro ⟨y, hy, hle, -⟩
    obtain rfl := Option.some.inj (hx.symm.trans hy)
    exact hpast hle
  have hlen : (s.holders p uid).length = 1 := by
    rw [s.length_holders, if_neg hnone]
    have := h.once p x hx uid hu
    rwa [if_neg hpast] at this
  unfold State.holders at hlen ⊢
  rw [if_neg hnone, List.nil_append] at hlen ⊢
  rw [List.length_map] at hlen
  obtain ⟨⟨c, call⟩, hone⟩ := List.length_eq_one_iff.mp hlen
  have hmem : (c, call) ∈ s.calls.zipIdx.filter fun y => y.1.Holds p uid := hone ▸ List.mem_singleton_self _
  obtain ⟨hzip, hholds⟩ := List.mem_filter.mp hmem
  exact ⟨call, c, List.mem_zipIdx_iff_getElem?.mp hzip, of_decide_eq_true hholds, by rw [hone]; rfl⟩

end PushSystem
