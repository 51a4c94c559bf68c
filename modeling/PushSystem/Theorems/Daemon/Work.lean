import PushSystem.Theorems.Daemon.Chunks

/-! What is left to do. The daemon makes one call for each chunk of a push and one more for each call that fails, and
    each call takes two steps to complete. -/

namespace PushSystem

/-! ### Chunks that are left -/

/-- The chunks from `curUid` to `endUid`. -/
def chunksLeft (curUid endUid : UInt64) : Nat :=
  if curUid ≤ endUid then (endUid.toNat - curUid.toNat) / 4096 + 1 else 0

section Chunks
variable {cur last : UInt64}

theorem chunksLeft_eq_zero : chunksLeft cur last = 0 ↔ last < cur := by
  unfold chunksLeft
  rw [← UInt64.not_le]
  split <;> simp [*]

/-- A chunk is sent. -/
theorem chunksLeft_next (hlt : cur.toNat + 4096 < 2 ^ 64) (hcur : cur ≤ last) :
    chunksLeft cur last = chunksLeft (cur + uidCountPerTime) last + 1 := by
  have hadd := add_uidCount_toNat_of_lt hlt
  unfold chunksLeft
  rw [if_pos hcur]
  simp only [UInt64.le_iff_toNat_le, hadd] at hcur ⊢
  split <;> omega

/-- The chunk of a call is one. -/
theorem Call.Fits.chunksLeft {c : Call} {x : Push} (h : c.Fits x) :
    chunksLeft c.request.startUid c.request.endUid = 1 := by
  have hsmall := h.small
  have hne := UInt64.le_iff_toNat_le.mp h.nonempty
  rw [PushSystem.chunksLeft, if_pos h.nonempty]
  omega

end Chunks

def Push.toSend (x : Push) : Nat := chunksLeft x.curUid x.request.endUid

/-- The chunk of a failed call is sent again. -/
def Call.toSend (c : Call) : Nat :=
  match c.stage with
  | .gotReply .err | .rpcFailed | .failCounted => chunksLeft c.request.startUid c.request.endUid
  | .resending curUid => chunksLeft curUid c.request.endUid
  | .inFlight | .gotReply .success | .succeeded => 0

/-- The steps until the handler of the completion is done, or sends again. -/
def Call.toHandle (c : Call) : Nat :=
  match c.stage with
  | .inFlight | .rpcFailed => 2
  | .gotReply _ | .failCounted => 1
  | .resending _ | .succeeded => 0

/-- The calls that are still to be made. -/
def State.toSend (s : State) : Nat := (s.pushes.map Push.toSend).sum + (s.calls.map Call.toSend).sum

def State.toHandle (s : State) : Nat := (s.calls.map Call.toHandle).sum

/-- The steps that are left if no call fails: one to make each call, two to complete it. -/
def State.work (s : State) : Nat := 3 * s.toSend + s.toHandle

/-! ### What an event adds -/

/-- The chunks of a push that begins. -/
def Event.chunks : Event → Nat
  | .beginPush req => chunksLeft req.startUid req.endUid
  | _ => 0

/-- A call fails. -/
def Event.fails : Event → Bool
  | .completion _ (.reply .err) | .completion _ .rpcFail => true
  | _ => false

/-- A step of a completion. -/
def Event.completes : Event → Bool
  | .completion _ _ | .handleCompletion _ => true
  | _ => false

/-- The failed call is made again, and a failure of gRPC is counted first. -/
def Event.cost : Event → Nat
  | .beginPush req => 3 * chunksLeft req.startUid req.endUid
  | .completion _ (.reply .err) => 3
  | .completion _ .rpcFail => 4
  | _ => 0

namespace State
variable {s t : State} {e : Event} {i p : Nat} {c c' : Call} {x x' : Push}

theorem toSend_setCall (c' : Call) (hc : s.calls[i]? = some c) :
    (s.setCall i c').toSend + c.toSend = s.toSend + c'.toSend := by
  have hset := Count.sum_map_set Call.toSend (b := c') hc
  simp only [toSend, setCall]
  omega

theorem toHandle_setCall (c' : Call) (hc : s.calls[i]? = some c) :
    (s.setCall i c').toHandle + c.toHandle = s.toHandle + c'.toHandle :=
  Count.sum_map_set Call.toHandle hc

theorem toSend_setPush (x' : Push) (hx : s.pushes[p]? = some x) :
    (s.setPush p x').toSend + x.toSend = s.toSend + x'.toSend := by
  have hset := Count.sum_map_set Push.toSend (b := x') hx
  simp only [toSend, setPush]
  omega

section Sent
variable (s : State) (d : Daemon) (svrId : UInt64) (request : ProduceMsgRequest) (push : Nat) (curUid : UInt64)

theorem toSend_sent : (s.sent d svrId request push curUid).toSend = s.toSend := by
  simp [toSend, sent, Call.toSend]

theorem toHandle_sent : (s.sent d svrId request push curUid).toHandle = s.toHandle + 2 := by
  simp [toHandle, sent, Call.toHandle]

theorem length_calls_sent : (s.sent d svrId request push curUid).calls.length = s.calls.length + 1 := by
  simp [sent]

end Sent

/-- What a step does to the calls that are made, those that are still to be made, and the completions. -/
structure Accounts (s : State) (e : Event) (t : State) : Prop where
  calls : t.toSend + t.calls.length = s.toSend + s.calls.length + (e.chunks + if e.fails then 1 else 0)
  work : t.work + t.calls.length + (if e.completes then 1 else 0) = s.work + s.calls.length + e.cost

/-- A step that makes no call and completes none. -/
theorem Accounts.of_eq (hpushes : t.pushes = s.pushes) (hcalls : t.calls = s.calls) (hchunks : e.chunks = 0)
    (hfails : e.fails = false) (hcompletes : e.completes = false) (hcost : e.cost = 0) : Accounts s e t := by
  have hsend : t.toSend = s.toSend := by rw [toSend, toSend, hpushes, hcalls]
  have hhandle : t.toHandle = s.toHandle := by rw [toHandle, toHandle, hcalls]
  constructor <;> simp [State.work, hsend, hhandle, hcalls, hchunks, hfails, hcompletes, hcost]

/-- A step of the completion of one call. -/
theorem Accounts.setCall (d : Daemon) (hc : s.calls[i]? = some c) (hchunks : e.chunks = 0)
    (hsend : c'.toSend = c.toSend + if e.fails then 1 else 0)
    (hhandle : 3 * c'.toSend + c'.toHandle + (if e.completes then 1 else 0) = 3 * c.toSend + c.toHandle + e.cost) :
    Accounts s e ({ s with daemon := d }.setCall i c') := by
  have hsends : ({ s with daemon := d }.setCall i c').toSend + c.toSend = s.toSend + c'.toSend := toSend_setCall c' hc
  have hhandles : ({ s with daemon := d }.setCall i c').toHandle + c.toHandle = s.toHandle + c'.toHandle :=
    toHandle_setCall c' hc
  have hlen : ({ s with daemon := d }.setCall i c').calls.length = s.calls.length := List.length_set
  constructor
  · omega
  · simp only [State.work]
    omega

/-- A loop makes one of the calls that are to be made. -/
theorem Accounts.send (hsend : t.toSend + 1 = s.toSend) (hhandle : t.toHandle = s.toHandle + 2)
    (hlen : t.calls.length = s.calls.length + 1) (hchunks : e.chunks = 0) (hfails : e.fails = false)
    (hcompletes : e.completes = false) (hcost : e.cost = 0) : Accounts s e t := by
  constructor
  · simp only [hfails, Bool.false_eq_true, if_false]
    omega
  · simp only [State.work, hcompletes, Bool.false_eq_true, if_false]
    omega

theorem Steps.accounts (hs : s.Steps e t) (h : ChunkInv s) : Accounts s e t := by
  cases hs with
  | clientRegister | heartBeat | loadBalance | checkProcAlive | reBalanceTimer => exact .of_eq rfl rfl rfl rfl rfl rfl
  | pushWait | pushPastEnd | resendWait | resendPastEnd => exact .of_eq rfl rfl rfl rfl rfl rfl
  | @beginPush req =>
    have hsend : ({ s with pushes := s.pushes ++ [⟨⟨req.msgId, req.startUid, req.endUid⟩, req.startUid⟩] } : State).toSend =
        s.toSend + chunksLeft req.startUid req.endUid := by
      simp only [toSend, List.map_append, List.sum_append, List.map_cons, List.map_nil, List.sum_cons, List.sum_nil,
        Push.toSend]
      omega
    constructor
    · simp only [hsend, Event.chunks, Event.fails, Bool.false_eq_true, if_false]
      omega
    · simp only [State.work, hsend, toHandle, Event.completes, Event.cost, Bool.false_eq_true, if_false]
      omega
  | @pushSend p draw x svrId d hx hcur hd =>
    have hnext : x.toSend = ({ x with curUid := x.curUid + uidCountPerTime } : Push).toSend + 1 :=
      chunksLeft_next ((h.bounded x (List.mem_of_getElem? hx)).1.lt hcur) hcur
    have hset := toSend_setPush (s := s.sent d svrId x.request p x.curUid)
      { x with curUid := x.curUid + uidCountPerTime } hx
    rw [toSend_sent] at hset
    exact .send (by omega) (s.toHandle_sent d ..) (s.length_calls_sent d ..) rfl rfl rfl rfl
  | @resendSend i draw c curUid svrId d hc hst hcur hd =>
    obtain ⟨x, hx, hfits⟩ := h.fits c (List.mem_of_getElem? hc)
    have hlt : curUid.toNat + 4096 < 2 ^ 64 :=
      (h.bounded x (List.mem_of_getElem? hx)).1.lt (UInt64.le_trans hcur hfits.stop)
    have hnext : c.toSend = ({ c with stage := .resending (curUid + uidCountPerTime) } : Call).toSend + 1 := by
      simp only [Call.toSend, hst]
      exact chunksLeft_next hlt hcur
    have hsame : c.toHandle = ({ c with stage := .resending (curUid + uidCountPerTime) } : Call).toHandle := by
      simp only [Call.toHandle, hst]
    have hc' : (s.sent d svrId c.request c.push curUid).calls[i]? = some c := Count.getElem?_snoc_of_some hc
    have hset := toSend_setCall { c with stage := .resending (curUid + uidCountPerTime) } hc'
    have hhandle := toHandle_setCall { c with stage := .resending (curUid + uidCountPerTime) } hc'
    rw [toSend_sent] at hset
    rw [toHandle_sent] at hhandle
    exact .send (by omega) (by omega) (List.length_set.trans (s.length_calls_sent d ..)) rfl rfl rfl rfl
  | @reply i c code hc hst =>
    obtain ⟨x, hx, hfits⟩ := h.fits c (List.mem_of_getElem? hc)
    refine .setCall s.daemon hc rfl ?_ ?_ <;> cases code <;>
      simp [Call.toSend, Call.toHandle, hst, Event.fails, Event.completes, Event.cost, hfits.chunksLeft]
  | @rpcFail i c hc hst =>
    obtain ⟨x, hx, hfits⟩ := h.fits c (List.mem_of_getElem? hc)
    refine .setCall s.daemon hc rfl ?_ ?_ <;>
      simp [Call.toSend, Call.toHandle, hst, Event.fails, Event.completes, Event.cost, hfits.chunksLeft]
  | succeed hc hst | countFailure hc hst =>
    refine .setCall _ hc rfl ?_ ?_ <;>
      simp [Call.toSend, Call.toHandle, hst, Event.fails, Event.completes, Event.cost]
  | resend hc hst =>
    refine .setCall _ hc rfl ?_ ?_ <;> rcases hst with hst | hst <;>
      simp [Call.toSend, Call.toHandle, hst, Event.fails, Event.completes, Event.cost]

end State

/-! ### Runs -/

/-- No loop has a chunk left, and no failed call has yet to start its loop. -/
structure State.Dispatched (s : State) : Prop where
  pushes : ∀ x ∈ s.pushes, x.request.endUid < x.curUid
  calls : ∀ c ∈ s.calls, c.stage ≠ .gotReply .err ∧ c.stage ≠ .rpcFailed ∧ c.stage ≠ .failCounted ∧
    ∀ curUid, c.stage = .resending curUid → c.request.endUid < curUid

theorem Call.Fits.toSend_eq_zero {c : Call} {x : Push} (h : c.Fits x) :
    c.toSend = 0 ↔ c.stage ≠ .gotReply .err ∧ c.stage ≠ .rpcFailed ∧ c.stage ≠ .failCounted ∧
      ∀ curUid, c.stage = .resending curUid → c.request.endUid < curUid := by
  unfold Call.toSend
  split <;> simp_all [h.chunksLeft, chunksLeft_eq_zero]

theorem ChunkInv.toSend_eq_zero {s : State} (h : ChunkInv s) : s.toSend = 0 ↔ s.Dispatched := by
  unfold State.toSend
  rw [Nat.add_eq_zero_iff, List.sum_eq_zero_iff_forall_eq_nat, List.sum_eq_zero_iff_forall_eq_nat]
  constructor
  · rintro ⟨hp, hc⟩
    refine ⟨fun x hx => chunksLeft_eq_zero.mp (hp _ (List.mem_map_of_mem hx)), fun c hc' => ?_⟩
    obtain ⟨x, -, hfits⟩ := h.fits c hc'
    exact hfits.toSend_eq_zero.mp (hc _ (List.mem_map_of_mem hc'))
  · rintro ⟨hp, hc⟩
    refine ⟨fun n hn => ?_, fun n hn => ?_⟩
    · obtain ⟨x, hx, rfl⟩ := List.mem_map.mp hn
      exact chunksLeft_eq_zero.mpr (hp x hx)
    · obtain ⟨c, hc', rfl⟩ := List.mem_map.mp hn
      obtain ⟨x, -, hfits⟩ := h.fits c hc'
      exact hfits.toSend_eq_zero.mpr (hc c hc')

/-- The accounts of a run. -/
theorem ChunkInv.exec {ok : State → Event → Prop} [∀ s e, Decidable (ok s e)] {s t : State} {es : List Event}
    (hi : ChunkInv s) (h : Runs.exec State.step ok es s = some t) (hok : ∀ s e, ok s e → PushesBounded s e) :
    ChunkInv t ∧
      t.toSend + t.calls.length = s.toSend + s.calls.length + ((es.map Event.chunks).sum + es.countP Event.fails) ∧
      t.work + t.calls.length + es.countP Event.completes = s.work + s.calls.length + (es.map Event.cost).sum := by
  have hcalls := Runs.exec_sum (fun s => s.toSend + s.calls.length) (fun e => e.chunks + if e.fails then 1 else 0)
    (fun _ => 0) h hi fun s e t hs hb hst =>
      ⟨hs.keep (State.steps_of_step hst) (hok s e hb), ((State.steps_of_step hst).accounts hs).calls⟩
  have hwork := Runs.exec_sum (fun s => s.work + s.calls.length) Event.cost (fun e => 0 + if e.completes then 1 else 0)
    h hi fun s e t hs hb hst => ⟨hs.keep (State.steps_of_step hst) (hok s e hb), by
      rw [Nat.zero_add]
      exact ((State.steps_of_step hst).accounts hs).work⟩
  rw [Count.sum_map_add_ite, List.map_const', List.sum_replicate_nat, Nat.mul_zero, Nat.add_zero] at hcalls
  rw [Count.sum_map_add_ite, List.map_const', List.sum_replicate_nat, Nat.mul_zero, Nat.zero_add] at hwork
  exact ⟨hcalls.1, hcalls.2, hwork.2⟩

/-- In every run the daemon has made one call for each chunk of its pushes and one for each call that failed, or has
    it still to make; none is to be made exactly when all loops have ended. -/
theorem calls_counted {es : List Event} {s : State} (h : Runs.exec State.step PushesBounded es {} = some s) :
    s.calls.length + s.toSend = (es.map Event.chunks).sum + es.countP Event.fails ∧ (s.toSend = 0 ↔ s.Dispatched) := by
  obtain ⟨hi, hcalls, -⟩ := ChunkInv.exec (chunkInv_of_reaches .refl) h fun _ _ hok => hok
  have hzero : ({} : State).toSend + ({} : State).calls.length = 0 := rfl
  exact ⟨by omega, hi.toSend_eq_zero⟩

/-- A push of two chunks, the first of which fails and is sent again. -/
theorem calls_counted_two_chunks : ∃ es s, Runs.exec State.step PushesBounded es {} = some s ∧
    (es.map Event.chunks).sum = 2 ∧ es.countP Event.fails = 1 ∧ s.calls.length = 3 ∧ s.Dispatched := by
  let es : List Event := [.clientRegister ⟨"50053", producerName, 601⟩ "ipv4:10.0.0.1:4000" 5 0,
    .beginPush ⟨1, 0, 8191⟩, .pushLoop 0 0,
    .pushLoop 0 0, .completion 0 (.reply .err), .handleCompletion 0, .resendLoop 0 0]
  obtain ⟨s, hs, hsend⟩ : ∃ s, Runs.exec State.step PushesBounded es {} = some s ∧ decide (s.toSend = 0) = true :=
    (Option.any_eq_true _ _).mp (by decide +kernel)
  obtain ⟨hlen, hdone⟩ := calls_counted hs
  have hzero := of_decide_eq_true hsend
  have hchunks : (es.map Event.chunks).sum = 2 := by decide +kernel
  have hfails : es.countP Event.fails = 1 := by decide
  exact ⟨es, s, hs, hchunks, hfails, by omega, hdone.mp hzero⟩

end PushSystem
