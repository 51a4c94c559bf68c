import PushSystem.Theorems.Daemon.Tasks

/-! A removed producer stays away: once `CheckProcAlive` or the circuit breaker has taken its id out of the
    tables, no step but a registration that is given the id brings it back into one of them. -/

namespace PushSystem

namespace Daemon

/-- The id is in none of the three tables that `Rebalance` goes by. -/
structure Gone (d : Daemon) (id : UInt64) : Prop where
  infos : id ∉ d.gSvrId2SvrInfo
  producers : id ∉ d.gSvrId2ProducerState
  idle : id ∉ d.gSetIdleProducer

/-- The id is in none of the four tables. -/
structure Absent (d : Daemon) (id : UInt64) : Prop extends Gone d id where
  rank : ∀ x ∈ d.gRank2SvrId.entries, x.2 ≠ id

section Keep
variable {d d' : Daemon} {id k : UInt64}

/-- `Rebalance` inserts and ranks known servers only. -/
theorem Gone.rebalance (h : Gone d id) : Absent d.rebalance id where
  infos := by
    rw [rebalance_infos]
    exact h.infos
  producers hmem := by
    rcases mem_producers_rebalance.mp hmem with hmem | hmem
    · exact h.producers hmem
    · exact h.infos hmem
  idle := by
    rw [rebalance_idle]
    exact h.idle
  rank _ hx hid := h.infos (hid ▸ mem_rank_rebalance hx)

theorem Absent.setInfo (h : Absent d id) {info : ServerInfo} (info' : ServerInfo)
    (hk : d.gSvrId2SvrInfo.find? k = some info) :
    Absent { d with gSvrId2SvrInfo := d.gSvrId2SvrInfo.set k info' } id := by
  refine ⟨⟨fun hmem => ?_, h.producers, h.idle⟩, h.rank⟩
  rcases (OrdMap.mem_set _ _ _ _).mp hmem with rfl | hmem
  · exact h.infos (OrdMap.mem_iff.mpr ⟨info, hk⟩)
  · exact h.infos hmem

theorem Absent.heartBeat (h : Absent d id) (req : HeartBeatRequest) (now : Int) : Absent (d.heartBeat req now).2 id := by
  unfold Daemon.heartBeat
  cases hf : d.gSvrId2SvrInfo.find? req.serverId with
  | none => exact h
  | some info => exact h.setInfo _ hf

theorem Absent.loadBalance (h : Absent d id) (req : LoadBalanceRequest) (score : ℚ) :
    Absent (d.loadBalance req score).2 id := by
  unfold Daemon.loadBalance
  cases hf : d.gSvrId2SvrInfo.find? req.serverId with
  | none => exact h
  | some info => exact h.setInfo _ hf

theorem Gone.addProducer (h : Gone d id) (addr : String) (hk : k ≠ id) : Gone (d.addProducer k addr) id := by
  refine ⟨?_, fun hmem => ?_, fun hmem => ?_⟩
  · rw [OrdMap.not_mem_iff, find?_addProducer_infos, if_neg hk]
    exact OrdMap.not_mem_iff.mp h.infos
  · rcases (OrdMap.mem_set _ _ _ _).mp hmem with rfl | hmem
    · exact hk rfl
    · exact h.producers hmem
  · rcases (OrdMap.mem_set _ _ _ _).mp hmem with rfl | hmem
    · exact hk rfl
    · exact h.idle hmem

theorem Absent.clientRegister (h : Absent d id) (req : ClientRegisterRequest) (peer : String) {draw : Fin (2 ^ 31)}
    (now : Int) (hne : d.newServerId draw ≠ id) : Absent (d.clientRegister req peer draw now).2 id := by
  have hadded : ∀ info, Absent { d with gSvrId2SvrInfo := d.gSvrId2SvrInfo.insertNew (d.newServerId draw) info } id := by
    refine fun info => ⟨⟨fun hmem => ?_, h.producers, h.idle⟩, h.rank⟩
    rcases (OrdMap.mem_insertNew _ _ _ _).mp hmem with hid | hmem
    · exact hne hid.symm
    · exact h.infos hmem
  rcases eq_or_ne producerName req.procName with hn | hn
  · rw [clientRegister_of_eq _ _ _ _ hn]
    exact ((hadded _).toGone.addProducer _ hne).rebalance
  · rw [clientRegister_of_ne hn]
    exact hadded _

/-- No call is sent to an absent producer. -/
theorem Sends.ne {draw : Fin 10001} (hs : d.Sends draw k d') (h : Absent d id) : k ≠ id := by
  rintro rfl
  cases hs with
  | idle hsel => exact h.idle (select_idle hsel)
  | ranked hsel =>
    obtain ⟨-, x, hx, hid⟩ := select_ranked hsel
    exact h.rank x hx hid

theorem Absent.countSend (h : Absent d id) (hk : k ≠ id) : Absent (d.countSend k) id := by
  refine ⟨⟨h.infos, fun hmem => ?_, h.idle⟩, h.rank⟩
  rcases (OrdMap.mem_set _ _ _ _).mp hmem with rfl | hmem
  · exact hk rfl
  · exact h.producers hmem

theorem Absent.sends {draw : Fin 10001} (h : Absent d id) (hs : d.Sends draw k d') : Absent d' id := by
  have hk := hs.ne h
  cases hs with
  | idle =>
    have herase : Absent { d with gSetIdleProducer := d.gSetIdleProducer.erase k } id :=
      ⟨⟨h.infos, h.producers, fun hmem => h.idle ((OrdMap.mem_erase _ _ _).mp hmem).2⟩, h.rank⟩
    exact herase.countSend hk
  | ranked => exact h.countSend hk

/-- A late completion finds nothing to update. -/
theorem Absent.decreaseProducerTask (h : Absent d id) (k : UInt64) : Absent (d.decreaseProducerTask k) id := by
  cases hp : d.gSvrId2ProducerState.find? k with
  | none =>
    rw [decreaseProducerTask_of_none hp]
    exact ⟨⟨h.infos, h.producers, h.idle⟩, h.rank⟩
  | some p =>
    have hk : id ≠ k := by
      rintro rfl
      exact h.producers (OrdMap.mem_iff.mpr ⟨p, hp⟩)
    rw [decreaseProducerTask_of_some hp]
    refine ⟨⟨h.infos, fun hmem => ?_, fun hmem => ?_⟩, h.rank⟩
    · exact h.producers (((OrdMap.mem_set _ _ _ _).mp hmem).resolve_left hk)
    · simp only at hmem
      split at hmem
      · exact h.idle (((OrdMap.mem_set _ _ _ _).mp hmem).resolve_left hk)
      · exact h.idle hmem

/-! ### Removal -/

/-- Taking a producer out of three tables and rebalancing takes it out of all four. -/
theorem absent_eraseProducer (d : Daemon) (id : UInt64) :
    Absent (Daemon.rebalance
      { d with
        gSvrId2SvrInfo := d.gSvrId2SvrInfo.erase id
        gSvrId2ProducerState := d.gSvrId2ProducerState.erase id
        gSetIdleProducer := d.gSetIdleProducer.erase id }) id := by
  have herased : ∀ {α : Type} (m : OrdMap UInt64 α), id ∉ m.erase id := fun m hmem =>
    ((OrdMap.mem_erase _ _ _).mp hmem).1 rfl
  exact Gone.rebalance ⟨herased _, herased _, herased _⟩

theorem Gone.eraseProducer (h : Gone d id) (k : UInt64) :
    Gone { d with
      gSvrId2SvrInfo := d.gSvrId2SvrInfo.erase k
      gSvrId2ProducerState := d.gSvrId2ProducerState.erase k
      gSetIdleProducer := d.gSetIdleProducer.erase k } id where
  infos hmem := h.infos ((OrdMap.mem_erase _ _ _).mp hmem).2
  producers hmem := h.producers ((OrdMap.mem_erase _ _ _).mp hmem).2
  idle hmem := h.idle ((OrdMap.mem_erase _ _ _).mp hmem).2

theorem Absent.countFailure (h : Absent d id) (k : UInt64) : Absent (d.countFailure k) id := by
  unfold Daemon.countFailure
  cases hp : d.gSvrId2ProducerState.find? k with
  | none => exact h
  | some p =>
    simp only
    split
    · exact (h.toGone.eraseProducer k).rebalance
    · refine ⟨⟨h.infos, fun hmem => ?_, h.idle⟩, h.rank⟩
      rcases (OrdMap.mem_set _ _ _ _).mp hmem with rfl | hmem
      · exact h.producers (OrdMap.mem_iff.mpr ⟨p, hp⟩)
      · exact h.producers hmem

/-- The circuit breaker removes the producer it has counted too many failures of. -/
theorem absent_countFailure (hid : id ∈ d.gSvrId2SvrInfo) (hgone : id ∉ (d.countFailure k).gSvrId2SvrInfo) :
    Absent (d.countFailure k) id := by
  unfold Daemon.countFailure at hgone ⊢
  cases hp : d.gSvrId2ProducerState.find? k with
  | none =>
    simp only [hp] at hgone
    exact absurd hid hgone
  | some p =>
    simp only [hp] at hgone ⊢
    split at hgone
    next hf =>
      rw [rebalance_infos, OrdMap.mem_erase, not_and] at hgone
      obtain rfl : id = k := by
        by_contra hne
        exact hgone hne hid
      rw [if_pos hf]
      exact absent_eraseProducer d id
    next => exact absurd hid hgone

theorem Absent.removeServer (h : Absent d id) (k : UInt64) (procName : String) : Absent (d.removeServer k procName) id := by
  unfold Daemon.removeServer
  simp only
  split
  · exact (h.toGone.eraseProducer k).rebalance
  · exact ⟨⟨fun hmem => h.infos ((OrdMap.mem_erase _ _ _).mp hmem).2, h.producers, h.idle⟩, h.rank⟩

theorem Absent.sweepLoop (h : Absent d id) (now : Int) (l : List (UInt64 × ServerInfo)) :
    Absent (Daemon.sweepLoop now l d) id := by
  induction l generalizing d with
  | nil => exact h
  | cons x l ih =>
    unfold Daemon.sweepLoop
    split
    · exact ih (h.removeServer _ _)
    · exact ih h

/-- A producer that the sweep removes is absent from then on, whatever else the sweep removes. -/
theorem absent_sweepLoop {now : Int} {l : List (UInt64 × ServerInfo)} (hid : id ∈ d.gSvrId2SvrInfo)
    (hl : ∀ x ∈ l, x.1 = id → x.2.procName = producerName) (hgone : id ∉ (Daemon.sweepLoop now l d).gSvrId2SvrInfo) :
    Absent (Daemon.sweepLoop now l d) id := by
  induction l generalizing d with
  | nil => exact absurd hid hgone
  | cons x l ih =>
    have hl' : ∀ y ∈ l, y.1 = id → y.2.procName = producerName := fun y hy => hl y (List.mem_cons_of_mem _ hy)
    unfold Daemon.sweepLoop at hgone ⊢
    split at hgone
    next hexp =>
      rw [if_pos hexp]
      rcases eq_or_ne x.1 id with hx | hx
      · have hrem : Absent (d.removeServer x.1 x.2.procName) id := by
          rw [hl x List.mem_cons_self hx, hx, Daemon.removeServer, if_pos rfl]
          exact absent_eraseProducer d id
        exact hrem.sweepLoop now l
      · refine ih ?_ hl' hgone
        rw [removeServer_infos, OrdMap.mem_erase]
        exact ⟨hx.symm, hid⟩
    next hexp =>
      rw [if_neg hexp]
      exact ih hid hl' hgone

theorem Absent.resetFailCounts (h : Absent d id) : Absent d.resetFailCounts id :=
  ⟨⟨h.infos, fun hmem => h.producers ((OrdMap.mem_mapValues _ _ _).mp hmem), h.idle⟩, h.rank⟩

theorem absent_checkProcAlive {now : Int} {info : ServerInfo} (hinfo : d.gSvrId2SvrInfo.find? id = some info)
    (hn : info.procName = producerName) (hgone : id ∉ (d.checkProcAlive now).gSvrId2SvrInfo) :
    Absent (d.checkProcAlive now) id := by
  refine Absent.resetFailCounts (absent_sweepLoop (OrdMap.mem_iff.mpr ⟨info, hinfo⟩) (fun x hx hid => ?_) hgone)
  have hx' := OrdMap.find?_eq_some_iff.mpr hx
  rw [hid, hinfo] at hx'
  exact Option.some.inj hx' ▸ hn

end Keep

end Daemon

/-! ### Runs after the removal -/

/-- The steps that do not give the id to a registration. -/
def NotAssigned (id : UInt64) (s : State) : Event → Prop
  | .clientRegister _ _ draw _ => s.daemon.newServerId draw ≠ id
  | _ => True

instance (id : UInt64) (s : State) : (e : Event) → Decidable (NotAssigned id s e)
  | .clientRegister _ _ draw _ => inferInstanceAs (Decidable (s.daemon.newServerId draw ≠ id))
  | .heartBeat .. | .loadBalance .. | .beginPush _ | .pushLoop .. | .resendLoop .. | .completion .. |
    .handleCompletion _ | .checkProcAlive _ | .reBalanceTimer => isTrue trivial

/-- The id is absent, and no call after the first `n` was sent to it. -/
structure RemovedInv (id : UInt64) (n : Nat) (s : State) : Prop where
  absent : s.daemon.Absent id
  length : n ≤ s.calls.length
  calls : ∀ i c, n ≤ i → s.calls[i]? = some c → c.svrId ≠ id

namespace RemovedInv
variable {s t : State} {id : UInt64} {n : Nat}

theorem setStage (h : RemovedInv id n s) {d : Daemon} (hd : d.Absent id) (st : Stage) {i : Nat} {c : Call}
    (hc : s.calls[i]? = some c) : RemovedInv id n ({ s with daemon := d }.setCall i { c with stage := st }) where
  absent := hd
  length := by
    rw [State.setCall, List.length_set]
    exact h.length
  calls j y hj hy := by
    rcases Count.of_getElem?_set hy with ⟨rfl, rfl⟩ | ⟨-, hy⟩
    · exact h.calls i c hj hc
    · exact h.calls j y hj hy

theorem sent (h : RemovedInv id n s) {d : Daemon} {draw : Fin 10001} {svrId : UInt64} (hs : s.daemon.Sends draw svrId d)
    (request : ProduceMsgRequest) (push : Nat) (curUid : UInt64) :
    RemovedInv id n (s.sent d svrId request push curUid) where
  absent := h.absent.sends hs
  length := by
    simp only [State.sent, List.length_append]
    exact Nat.le_add_right_of_le h.length
  calls j y hj hy := by
    rcases Count.of_getElem?_snoc hy with hy | ⟨-, rfl⟩
    · exact h.calls j y hj hy
    · exact hs.ne h.absent

theorem keep (h : RemovedInv id n s) {e : Event} (hok : NotAssigned id s e) (hs : State.Steps s e t) :
    RemovedInv id n t := by
  cases hs with
  | clientRegister => exact ⟨h.absent.clientRegister _ _ _ hok, h.length, h.calls⟩
  | heartBeat => exact ⟨h.absent.heartBeat _ _, h.length, h.calls⟩
  | loadBalance => exact ⟨h.absent.loadBalance _ _, h.length, h.calls⟩
  | beginPush | pushPastEnd | resendPastEnd => exact ⟨h.absent, h.length, h.calls⟩
  | pushWait | resendWait => exact h
  | @pushSend p _ x _ _ _ _ hd =>
    have hsent := h.sent hd x.request p x.curUid
    exact ⟨hsent.absent, hsent.length, hsent.calls⟩
  | resendSend hc _ _ hd => exact (h.sent hd _ _ _).setStage (h.absent.sends hd) _ (Count.getElem?_snoc_of_some hc)
  | reply hc | rpcFail hc => exact h.setStage (d := s.daemon) h.absent _ hc
  | succeed hc | resend hc => exact h.setStage (h.absent.decreaseProducerTask _) _ hc
  | countFailure hc => exact h.setStage (h.absent.countFailure _) _ hc
  | checkProcAlive => exact ⟨(h.absent.sweepLoop _ _).resetFailCounts, h.length, h.calls⟩
  | reBalanceTimer => exact ⟨h.absent.toGone.rebalance, h.length, h.calls⟩

end RemovedInv

/-- The steps of `CheckProcAlive` and of the handlers of completions. -/
def Event.Removes : Event → Prop
  | .checkProcAlive _ | .handleCompletion _ => True
  | _ => False

theorem State.absent_of_removed {s t : State} {e : Event} {id : UInt64} {info : ServerInfo} (hs : State.Steps s e t)
    (he : e.Removes) (hinfo : s.daemon.gSvrId2SvrInfo.find? id = some info) (hn : info.procName = producerName)
    (hgone : id ∉ t.daemon.gSvrId2SvrInfo) : t.daemon.Absent id := by
  have hid : id ∈ s.daemon.gSvrId2SvrInfo := OrdMap.mem_iff.mpr ⟨info, hinfo⟩
  have hdecrease : ∀ k, id ∈ (s.daemon.decreaseProducerTask k).gSvrId2SvrInfo := by
    intro k
    cases hp : s.daemon.gSvrId2ProducerState.find? k with
    | none =>
      rw [Daemon.decreaseProducerTask_of_none hp]
      exact hid
    | some p =>
      rw [Daemon.decreaseProducerTask_of_some hp]
      exact hid
  cases hs with
  | checkProcAlive => exact Daemon.absent_checkProcAlive hinfo hn hgone
  | countFailure => exact Daemon.absent_countFailure hid hgone
  | succeed | resend => exact absurd (hdecrease _) hgone
  | _ => exact he.elim

/-- Once `CheckProcAlive` or the circuit breaker has removed a producer, its id stays absent from all four tables
    and no call is sent to it, in every run in which no registration is given the id. -/
theorem removed_absent {s t u : State} {e : Event} {id : UInt64} {info : ServerInfo} (hs : s.step e = some t)
    (he : e.Removes) (hinfo : s.daemon.gSvrId2SvrInfo.find? id = some info) (hn : info.procName = producerName)
    (hgone : id ∉ t.daemon.gSvrId2SvrInfo)
    (hu : Runs.Reaches (Runs.under (Runs.ofFun State.step) (NotAssigned id)) t u) :
    u.daemon.Absent id ∧ ∀ i c, t.calls.length ≤ i → u.calls[i]? = some c → c.svrId ≠ id := by
  have hinit : RemovedInv id t.calls.length t :=
    ⟨State.absent_of_removed (State.steps_of_step hs) he hinfo hn hgone, Nat.le_refl _, fun i c hi hc =>
      absurd (List.getElem?_eq_some_iff.mp hc).1 (Nat.not_lt.mpr hi)⟩
  have hi : RemovedInv id t.calls.length u :=
    hu.invariant hinit fun _ _ _ hi hs => hi.keep hs.1 (State.steps_of_step hs.2)
  exact ⟨hi.absent, hi.calls⟩

/-- The producer 5 is swept with a call in flight; the call fails and its chunk goes to the producer 6. -/
theorem removed_absent_five : ∃ s t u : State, DaemonReaches AnyEvent s ∧ s.step (.checkProcAlive 20) = some t ∧
    u.calls.map (·.svrId) = [5, 6] ∧ u.daemon.Absent 5 ∧
      ∀ i c, t.calls.length ≤ i → u.calls[i]? = some c → c.svrId ≠ 5 := by
  obtain ⟨s, hs, info, hinfo, hn, t, ht, hgone, u, hu, hids⟩ := DaemonReaches.of_events AnyEvent
    (fun s => ∃ info ∈ s.daemon.gSvrId2SvrInfo.find? 5, info.procName = producerName ∧
      ∃ t ∈ s.step (.checkProcAlive 20), 5 ∉ t.daemon.gSvrId2SvrInfo ∧
        ∃ u ∈ Runs.exec State.step (NotAssigned 5)
          [.completion 0 .rpcFail, .handleCompletion 0, .handleCompletion 0, .resendLoop 0 0] t,
          u.calls.map (·.svrId) = [5, 6])
    [registerAs producerName, registerAs producerName, .beginPush ⟨1, 0, 4095⟩, .pushLoop 0 0, .heartBeat ⟨6⟩ 20]
    (by decide +kernel)
  exact ⟨s, t, u, hs, ht, hids, removed_absent ht trivial hinfo hn hgone (Runs.reaches_of_exec hu)⟩

end PushSystem
