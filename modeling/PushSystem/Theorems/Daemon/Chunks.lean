import PushSystem.Lib.Count
import PushSystem.Theorems.Daemon.Steps

/-! No chunk of a push is lost or duplicated. Each user of a push has one holder at any time: the loop
    that has still to dispatch it, or one call. A failed call holds its chunk until it is sent again. -/

namespace PushSystem

/-! ### One chunk -/

/-- The pushes whose loop variable cannot wrap. -/
def ProduceMsgRequest.Bounded (r : ProduceMsgRequest) : Prop := r.endUid.toNat ≤ 2 ^ 64 - 4097

instance (r : ProduceMsgRequest) : Decidable r.Bounded := inferInstanceAs (Decidable (r.endUid.toNat ≤ 2 ^ 64 - 4097))

section Chunk
variable {r : ProduceMsgRequest} {cur uid : UInt64}

theorem ProduceMsgRequest.Bounded.lt (hb : r.Bounded) (hcur : cur ≤ r.endUid) : cur.toNat + 4096 < 2 ^ 64 := by
  simp only [ProduceMsgRequest.Bounded, UInt64.le_iff_toNat_le] at hb hcur
  omega

theorem add_uidCount_toNat_of_lt (hlt : cur.toNat + 4096 < 2 ^ 64) :
    (cur + uidCountPerTime).toNat = cur.toNat + 4096 := by
  simp only [UInt64.toNat_add, uidCountPerTime, UInt64.reduceToNat]
  omega

theorem chunkAt_endUid_toNat_of_lt (hlt : cur.toNat + 4096 < 2 ^ 64) :
    (chunkAt r cur).endUid.toNat = min (cur.toNat + 4095) r.endUid.toNat := by
  have hadd := add_uidCount_toNat_of_lt hlt
  have hlast : (cur + uidCountPerTime - 1).toNat = cur.toNat + 4095 := by
    have := (cur + uidCountPerTime).toNat_lt
    rw [UInt64.toNat_sub, hadd]
    simp only [UInt64.reduceToNat]
    omega
  simp only [chunkAt, gt_iff_lt, UInt64.lt_iff_toNat_lt, hlast]
  split <;> omega

theorem add_uidCount_toNat (hb : r.Bounded) (hcur : cur ≤ r.endUid) :
    (cur + uidCountPerTime).toNat = cur.toNat + 4096 := add_uidCount_toNat_of_lt (hb.lt hcur)

theorem chunkAt_endUid_toNat (hb : r.Bounded) (hcur : cur ≤ r.endUid) :
    (chunkAt r cur).endUid.toNat = min (cur.toNat + 4095) r.endUid.toNat := chunkAt_endUid_toNat_of_lt (hb.lt hcur)

/-- Dispatching at `cur` splits what is left of the request into the chunk and what is left then. -/
theorem covers_chunkAt (hb : r.Bounded) (hcur : cur ≤ r.endUid) (huid : uid ≤ r.endUid) :
    (if cur ≤ uid then 1 else 0) =
      (if (chunkAt r cur).Covers uid then 1 else 0) + (if cur + uidCountPerTime ≤ uid then 1 else 0) := by
  have hadd := add_uidCount_toNat hb hcur
  have hend := chunkAt_endUid_toNat hb hcur
  have hstart : (chunkAt r cur).startUid = cur := rfl
  simp only [ProduceMsgRequest.Covers, UInt64.le_iff_toNat_le, hstart, hadd, hend] at *
  split_ifs <;> omega

end Chunk

/-- The pushes that begin are `Bounded`. -/
def PushesBounded (_ : State) : Event → Prop
  | .beginPush req => ProduceMsgRequest.Bounded ⟨req.msgId, req.startUid, req.endUid⟩
  | _ => True

instance (s : State) : (e : Event) → Decidable (PushesBounded s e)
  | .beginPush req => inferInstanceAs (Decidable (ProduceMsgRequest.Bounded ⟨req.msgId, req.startUid, req.endUid⟩))
  | .clientRegister .. | .heartBeat .. | .loadBalance .. | .pushLoop .. | .resendLoop .. | .completion .. |
    .handleCompletion _ | .checkProcAlive _ | .reBalanceTimer => isTrue trivial

/-! ### Holders -/

/-- `c` holds the user `uid` of the push `p`: a call its whole chunk, a handler that sends the chunk
    again what its loop has left. -/
def Call.Holds (p : Nat) (uid : UInt64) (c : Call) : Prop :=
  c.push = p ∧ c.request.Covers uid ∧ ∀ curUid, c.stage = .resending curUid → curUid ≤ uid

instance (p : Nat) (uid : UInt64) (c : Call) : Decidable (c.Holds p uid) :=
  match hst : c.stage with
  | .resending curUid =>
    decidable_of_iff (c.push = p ∧ c.request.Covers uid ∧ curUid ≤ uid) (by simp [Call.Holds, hst])
  | .inFlight | .gotReply _ | .rpcFailed | .failCounted | .succeeded =>
    decidable_of_iff (c.push = p ∧ c.request.Covers uid) (by simp [Call.Holds, hst])

/-- Who holds a user of a push; a call is named by its position. -/
inductive Holder where
  /-- The push's own loop, which has still to dispatch the user. -/
  | loop
  /-- A call that is in flight. -/
  | inFlight (call : Nat)
  /-- A failed call whose completion is being handled. -/
  | failed (call : Nat)
  /-- A call that was answered `SUCCESS`. -/
  | answered (call : Nat)
  deriving DecidableEq, Repr

def Call.holder (i : Nat) (c : Call) : Holder :=
  match c.stage with
  | .inFlight => .inFlight i
  | .gotReply .success | .succeeded => .answered i
  | .gotReply .err | .rpcFailed | .failCounted | .resending _ => .failed i

/-- The loop of the push `p` has still to dispatch `uid`. -/
def State.ToDispatch (s : State) (p : Nat) (uid : UInt64) : Prop :=
  ∃ x ∈ s.pushes[p]?, x.curUid ≤ uid ∧ uid ≤ x.request.endUid

instance (s : State) (p : Nat) (uid : UInt64) : Decidable (s.ToDispatch p uid) :=
  inferInstanceAs (Decidable (∃ x ∈ s.pushes[p]?, x.curUid ≤ uid ∧ uid ≤ x.request.endUid))

/-- All holders of the user `uid` of the push `p`. -/
def State.holders (s : State) (p : Nat) (uid : UInt64) : List Holder :=
  (if s.ToDispatch p uid then [.loop] else []) ++
    (s.calls.zipIdx.filter fun x => x.1.Holds p uid).map fun x => x.1.holder x.2

theorem State.length_holders (s : State) (p : Nat) (uid : UInt64) :
    (s.holders p uid).length = (if s.ToDispatch p uid then 1 else 0) + s.calls.countP (·.Holds p uid) := by
  have hzip : ∀ (l : List Call) (n : Nat),
      ((l.zipIdx n).filter fun x => x.1.Holds p uid).length = l.countP (·.Holds p uid) := by
    intro l n
    conv_rhs => rw [← List.zipIdx_map_fst n l]
    rw [List.countP_map, List.countP_eq_length_filter]
    rfl
  unfold State.holders
  rw [List.length_append, List.length_map, hzip]
  split <;> rfl

/-! ### The invariant -/

/-- What a call keeps of the push it belongs to. -/
structure Call.Fits (c : Call) (x : Push) : Prop where
  msgId : c.request.msgId = x.request.msgId
  start : x.request.startUid ≤ c.request.startUid
  stop : c.request.endUid ≤ x.request.endUid
  nonempty : c.request.startUid ≤ c.request.endUid
  /-- A chunk is sent again as one chunk. -/
  small : c.request.endUid.toNat ≤ c.request.startUid.toNat + 4095
  resending : ∀ curUid, c.stage = .resending curUid → curUid = c.request.startUid ∨ c.request.endUid < curUid

structure ChunkInv (s : State) : Prop where
  bounded : ∀ x ∈ s.pushes, x.request.Bounded ∧ x.request.startUid ≤ x.curUid
  fits : ∀ c ∈ s.calls, ∃ x, s.pushes[c.push]? = some x ∧ c.Fits x
  once : ∀ p x, s.pushes[p]? = some x → ∀ uid, x.request.Covers uid →
    (if x.curUid ≤ uid then 1 else 0) + s.calls.countP (·.Holds p uid) = 1

namespace ChunkInv
variable {s t : State}

theorem of_eq (h : ChunkInv s) (hp : t.pushes = s.pushes) (hc : t.calls = s.calls) : ChunkInv t where
  bounded := hp ▸ h.bounded
  fits := by
    rw [hc, hp]
    exact h.fits
  once := by
    rw [hc, hp]
    exact h.once

/-- A call that moves on to another stage without giving up or taking a user. -/
theorem setStage (h : ChunkInv s) (d : Daemon) (st : Stage) {i : Nat} {c : Call} (hc : s.calls[i]? = some c)
    (hst₀ : ∀ curUid, c.stage ≠ .resending curUid)
    (hst : ∀ curUid, st = .resending curUid → curUid = c.request.startUid) :
    ChunkInv ({ s with daemon := d }.setCall i { c with stage := st }) where
  bounded := h.bounded
  fits := by
    intro y hy
    rcases Count.mem_set hy with rfl | hy
    · obtain ⟨x, hx, hf⟩ := h.fits c (List.mem_of_getElem? hc)
      exact ⟨x, hx, hf.msgId, hf.start, hf.stop, hf.nonempty, hf.small, fun curUid hcur => Or.inl (hst curUid hcur)⟩
    · exact h.fits y hy
  once := by
    intro p x hx uid hu
    have hset := Count.countP_set (p := fun c => decide (c.Holds p uid)) (b := { c with stage := st }) hc
    have hsame : ({ c with stage := st } : Call).Holds p uid ↔ c.Holds p uid := by
      simp only [Call.Holds, hst₀, false_imp_iff, implies_true, and_true]
      constructor
      · exact fun hh => ⟨hh.1, hh.2.1⟩
      · exact fun hh => ⟨hh.1, hh.2, fun curUid hcur => hst curUid hcur ▸ hh.2.1⟩
    simp only [hsame] at hset
    have := h.once p x hx uid hu
    simp only [State.setCall] at *
    omega

theorem beginPush (h : ChunkInv s) {req : ProduceMsgRequest} (hb : req.Bounded) :
    ChunkInv { s with pushes := s.pushes ++ [⟨req, req.startUid⟩] } where
  bounded := by
    intro x hx
    rcases List.mem_append.mp hx with hx | hx
    · exact h.bounded x hx
    · obtain rfl := List.mem_singleton.mp hx
      exact ⟨hb, UInt64.le_refl _⟩
  fits := by
    intro c hc
    obtain ⟨x, hx, hf⟩ := h.fits c hc
    exact ⟨x, Count.getElem?_snoc_of_some hx, hf⟩
  once := by
    intro p x hx uid hu
    rcases Count.of_getElem?_snoc hx with hx | ⟨rfl, rfl⟩
    · exact h.once p x hx uid hu
    · -- The new push has no call yet: every call belongs to an older one.
      have hnone : s.calls.countP (·.Holds s.pushes.length uid) = 0 := by
        rw [List.countP_eq_zero]
        intro c hc hh
        obtain ⟨y, hy, -⟩ := h.fits c hc
        have hpush : c.push = s.pushes.length := (of_decide_eq_true hh).1
        exact absurd (List.getElem?_eq_some_iff.mp hy).1 (Nat.not_lt.mpr (Nat.le_of_eq hpush.symm))
      have hstart : req.startUid ≤ uid := hu.1
      simp [hnone, hstart]

/-- The chunk that a loop sends next belongs to the push of the loop. -/
theorem fits_chunkAt {x : Push} {r : ProduceMsgRequest} {cur : UInt64} {svrId : UInt64} {stub : Option Stub} {p : Nat}
    (hb : r.Bounded) (hcur : cur ≤ r.endUid) (hmsg : r.msgId = x.request.msgId)
    (hstart : x.request.startUid ≤ cur) (hstop : r.endUid ≤ x.request.endUid) :
    Call.Fits ⟨svrId, stub, chunkAt r cur, p, .inFlight⟩ x := by
  have hend := chunkAt_endUid_toNat hb hcur
  simp only [UInt64.le_iff_toNat_le] at *
  have hs : (chunkAt r cur).startUid = cur := rfl
  refine ⟨hmsg, ?_, ?_, ?_, ?_, fun _ h => by cases h⟩ <;>
    simp only [UInt64.le_iff_toNat_le, hs, hend] <;> omega

theorem pushSend (h : ChunkInv s) {p : Nat} {x : Push} {d : Daemon} {svrId : UInt64}
    (hx : s.pushes[p]? = some x) (hcur : x.curUid ≤ x.request.endUid) :
    ChunkInv ((s.sent d svrId x.request p x.curUid).setPush p
      { x with curUid := x.curUid + uidCountPerTime }) := by
  have hmem := List.mem_of_getElem? hx
  have hb := (h.bounded x hmem).1
  have hstart := (h.bounded x hmem).2
  have hadd := add_uidCount_toNat hb hcur
  have hget : ∀ (q : Nat) (y : Push), s.pushes[q]? = some y →
      ∃ y' : Push, (s.pushes.set p { x with curUid := x.curUid + uidCountPerTime })[q]? = some y' ∧
        y'.request = y.request := by
    intro q y hy
    rw [List.getElem?_set]
    have hlt := (List.getElem?_eq_some_iff.mp hx).1
    by_cases hq : p = q
    · subst hq
      obtain rfl : x = y := Option.some.inj (hx.symm.trans hy)
      exact ⟨{ x with curUid := x.curUid + uidCountPerTime }, by simp [hlt], rfl⟩
    · exact ⟨y, by simp [hq, hy], rfl⟩
  refine ⟨?_, ?_, ?_⟩
  · intro y hy
    rcases Count.mem_set hy with rfl | hy
    · refine ⟨hb, ?_⟩
      simp only [UInt64.le_iff_toNat_le] at hstart ⊢
      omega
    · exact h.bounded y hy
  · intro c hc
    rcases List.mem_append.mp hc with hc | hc
    · obtain ⟨y, hy, hf⟩ := h.fits c hc
      obtain ⟨y', hy', hreq⟩ := hget _ _ hy
      exact ⟨y', hy', hreq ▸ hf.msgId, hreq ▸ hf.start, hreq ▸ hf.stop, hf.nonempty, hf.small, hf.resending⟩
    · obtain rfl := List.mem_singleton.mp hc
      obtain ⟨y', hy', hreq⟩ := hget _ _ hx
      exact ⟨y', hy', fits_chunkAt hb hcur (by rw [hreq]) (hreq ▸ hstart) (hreq ▸ UInt64.le_refl _)⟩
  · intro q y hy uid hu
    have hcount : ((s.sent d svrId x.request p x.curUid).calls).countP (·.Holds q uid) =
        s.calls.countP (·.Holds q uid) +
          (if p = q ∧ (chunkAt x.request x.curUid).Covers uid then 1 else 0) := by
      rw [State.sent, Count.countP_snoc]
      simp [Call.Holds]
    show _ + ((s.sent d svrId x.request p x.curUid).calls).countP (·.Holds q uid) = 1
    rw [hcount]
    rcases Count.of_getElem?_set hy with ⟨rfl, rfl⟩ | ⟨hq, hy⟩
    · have honce := h.once p x hx uid hu
      have hsplit := covers_chunkAt hb hcur hu.2
      simp only [true_and]
      omega
    · simp only [hq, false_and, if_false]
      exact h.once q y hy uid hu

theorem resendSend (h : ChunkInv s) {i : Nat} {c : Call} {cur : UInt64} {d : Daemon} {svrId : UInt64}
    (hc : s.calls[i]? = some c) (hst : c.stage = .resending cur) (hcur : cur ≤ c.request.endUid) :
    ChunkInv ((s.sent d svrId c.request c.push cur).setCall i
      { c with stage := .resending (cur + uidCountPerTime) }) := by
  obtain ⟨x, hx, hf⟩ := h.fits c (List.mem_of_getElem? hc)
  have hbx := (h.bounded x (List.mem_of_getElem? hx)).1
  have hb : c.request.Bounded := by
    have := hf.stop
    simp only [ProduceMsgRequest.Bounded, UInt64.le_iff_toNat_le] at *
    omega
  -- The chunk is sent from its start, so all of it is sent at once.
  have hcs : cur = c.request.startUid := by
    rcases hf.resending cur hst with h' | h'
    · exact h'
    · exact absurd hcur (UInt64.not_le.mpr h')
  have hadd := add_uidCount_toNat hb hcur
  have hpast : c.request.endUid < cur + uidCountPerTime := by
    have := hf.small
    rw [UInt64.lt_iff_toNat_lt, hadd, hcs]
    omega
  have hchunk : ∀ uid, (chunkAt c.request cur).Covers uid ↔ c.request.Covers uid := by
    intro uid
    have hend := chunkAt_endUid_toNat hb hcur
    have hsmall := hf.small
    have hs : (chunkAt c.request cur).startUid = cur := rfl
    subst hcs
    simp only [ProduceMsgRequest.Covers, UInt64.le_iff_toNat_le, hs, hend]
    omega
  refine ⟨h.bounded, ?_, ?_⟩
  · intro y hy
    rcases Count.mem_set hy with rfl | hy
    · exact ⟨x, hx, hf.msgId, hf.start, hf.stop, hf.nonempty, hf.small, fun cur' h' =>
        Stage.resending.inj h' ▸ Or.inr hpast⟩
    · rcases List.mem_append.mp hy with hy | hy
      · exact h.fits y hy
      · obtain rfl := List.mem_singleton.mp hy
        exact ⟨x, hx, fits_chunkAt hb hcur hf.msgId (hcs ▸ hf.start) hf.stop⟩
  · intro q y hy uid hu
    have hc' : (s.sent d svrId c.request c.push cur).calls[i]? = some c := Count.getElem?_snoc_of_some hc
    have hset := Count.countP_set (p := fun c => decide (c.Holds q uid))
      (b := { c with stage := .resending (cur + uidCountPerTime) }) hc'
    have hsnoc : (s.sent d svrId c.request c.push cur).calls.countP (·.Holds q uid) =
        s.calls.countP (·.Holds q uid) + (if c.push = q ∧ c.request.Covers uid then 1 else 0) := by
      rw [State.sent, Count.countP_snoc]
      simp [Call.Holds, hchunk]
    have hbefore : c.Holds q uid ↔ c.push = q ∧ c.request.Covers uid := by
      simp only [Call.Holds, hst, Stage.resending.injEq, forall_eq', hcs]
      exact ⟨fun h => ⟨h.1, h.2.1⟩, fun h => ⟨h.1, h.2, h.2.1⟩⟩
    have hafter : ¬({ c with stage := .resending (cur + uidCountPerTime) } : Call).Holds q uid := by
      simp only [Call.Holds, Stage.resending.injEq, forall_eq']
      exact fun h => UInt64.not_lt.mpr h.2.2 (UInt64.lt_of_le_of_lt h.2.1.2 hpast)
    have honce := h.once q y hy uid hu
    simp only [hsnoc, hbefore, hafter, decide_false, Bool.false_eq_true, if_false] at hset
    simp only [decide_eq_true_eq] at hset
    simp only [State.setCall]
    omega

theorem keep (h : ChunkInv s) {e : Event} (hs : State.Steps s e t)
    (hok : PushesBounded s e) : ChunkInv t := by
  cases hs with
  | clientRegister | heartBeat | loadBalance | checkProcAlive | reBalanceTimer => exact h.of_eq rfl rfl
  | pushWait | resendWait => exact h
  | pushPastEnd | resendPastEnd => exact h.of_eq rfl rfl
  | beginPush => exact h.beginPush hok
  | pushSend hx hcur => exact h.pushSend hx hcur
  | resendSend hc hst hcur => exact h.resendSend hc hst hcur
  | reply hc hst => exact h.setStage s.daemon _ hc (by simp [hst]) (by simp)
  | rpcFail hc hst => exact h.setStage s.daemon _ hc (by simp [hst]) (by simp)
  | succeed hc hst => exact h.setStage _ _ hc (by simp [hst]) (by simp)
  | resend hc hst =>
    refine h.setStage _ _ hc (fun curUid => ?_) fun _ h' => (Stage.resending.inj h').symm
    rcases hst with hst | hst <;> simp [hst]
  | countFailure hc hst => exact h.setStage _ _ hc (by simp [hst]) (by simp)

end ChunkInv

theorem chunkInv_of_reaches {s : State} (h : DaemonReaches PushesBounded s) : ChunkInv s :=
  h.induct ⟨by simp, by simp, by simp⟩ fun _ _ _ hi hok hs => hi.keep hs hok

/-- Each user of each push has exactly one holder in every reachable state, and every chunk that was
    dispatched carries the message of its push and no user outside it. -/
theorem chunks_exact {s : State} (h : DaemonReaches PushesBounded s) :
    (∀ p x, s.pushes[p]? = some x → ∀ uid, x.request.Covers uid → ∃ holder, s.holders p uid = [holder]) ∧
    ∀ c ∈ s.calls, ∃ x, s.pushes[c.push]? = some x ∧ c.request.msgId = x.request.msgId ∧
      ∀ uid, c.request.Covers uid → x.request.Covers uid := by
  have hi := chunkInv_of_reaches h
  refine ⟨fun p x hx uid hu => ?_, fun c hc => ?_⟩
  · have hd : s.ToDispatch p uid ↔ x.curUid ≤ uid := by simp [State.ToDispatch, hx, hu.2]
    have hlen : (s.holders p uid).length = 1 := by
      simp only [s.length_holders, hd]
      exact hi.once p x hx uid hu
    exact List.length_eq_one_iff.mp hlen
  · obtain ⟨x, hx, hf⟩ := hi.fits c hc
    exact ⟨x, hx, hf.msgId, fun uid hu =>
      ⟨UInt64.le_trans hf.start hu.1, UInt64.le_trans hu.2 hf.stop⟩⟩

/-- A push of two chunks, the first of which failed and is about to be sent again. -/
theorem chunks_exact_two_chunks : ∃ s, DaemonReaches PushesBounded s ∧
    s.calls.map (·.stage) = [.resending 0, .gotReply .success] ∧
    ∀ uid : UInt64, uid ≤ 8191 → ∃ holder, s.holders 0 uid = [holder] := by
  obtain ⟨s, hs, hst, x, hx, hreq⟩ := DaemonReaches.of_events PushesBounded
    (fun s => s.calls.map (·.stage) = [.resending 0, .gotReply .success] ∧
      ∃ x ∈ s.pushes[0]?, x.request = ⟨1, 0, 8191⟩)
    [.clientRegister ⟨"50053", producerName, 601⟩ "ipv4:10.0.0.1:4000" 5 0, .beginPush ⟨1, 0, 8191⟩, .pushLoop 0 0,
      .pushLoop 0 0, .completion 0 .rpcFail, .handleCompletion 0, .handleCompletion 0,
      .completion 1 (.reply .success)]
    (by decide +kernel)
  refine ⟨s, hs, hst, fun uid huid => (chunks_exact hs).1 0 x hx uid ?_⟩
  rw [hreq]
  exact ⟨UInt64.zero_le, huid⟩

end PushSystem
