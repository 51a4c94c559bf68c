import PushSystem.Lib.Count
import PushSystem.Theorems.Daemon.Steps
import PushSystem.Theorems.Daemon.Tables

/-! The tables of the running daemon stay consistent and every dispatch goes to a producer that has a stub,
    as long as `Rebalance` only ever runs while all known servers are producers and no draw exceeds the
    greatest rank. -/

namespace PushSystem

namespace Daemon
variable {d : Daemon} {reg : OrdMap UInt64 Stub} {draw : Fin 10001} {svrId : UInt64}

/-- `SelectProducerAndSend` is in its second branch: no producer is idle and there is room for a call. -/
def RankedBranch (d : Daemon) : Prop :=
  d.gSetIdleProducer.first? = none ∧ d.sendingCount ≤ 3 * UInt32.ofNat d.gSvrId2ProducerState.size ∧
    UInt32.ofNat d.gSvrId2ProducerState.size ≠ 0

instance (d : Daemon) : Decidable d.RankedBranch :=
  inferInstanceAs (Decidable (d.gSetIdleProducer.first? = none ∧
    d.sendingCount ≤ 3 * UInt32.ofNat d.gSvrId2ProducerState.size ∧ UInt32.ofNat d.gSvrId2ProducerState.size ≠ 0))

/-- Where the second branch is taken, the drawn part of the greatest rank is not above it: that rank is
    not negative or the draw takes all of it. -/
def DrawsInRange (d : Daemon) (draw : Fin 10001) : Prop :=
  d.RankedBranch → ∀ top ∈ d.gRank2SvrId.last?, (draw.val : ℚ) / 10000 * top.1 ≤ top.1

instance (d : Daemon) (draw : Fin 10001) : Decidable (d.DrawsInRange draw) :=
  inferInstanceAs (Decidable (d.RankedBranch → ∀ top ∈ d.gRank2SvrId.last?, (draw.val : ℚ) / 10000 * top.1 ≤ top.1))

/-- Each branch of `SelectProducerAndSend` with the condition it is taken on. -/
theorem select_cases (d : Daemon) (draw : Fin 10001) :
    (∃ x, d.gSetIdleProducer.first? = some x ∧ d.select draw = .idle x.1) ∨
    (d.RankedBranch ∧ d.select draw = d.selectRanked draw) ∨ d.select draw = .wait := by
  unfold select RankedBranch
  cases hfirst : d.gSetIdleProducer.first? with
  | some x => exact Or.inl ⟨x, rfl, rfl⟩
  | none =>
    by_cases hgate : d.sendingCount ≤ 3 * UInt32.ofNat d.gSvrId2ProducerState.size ∧
        UInt32.ofNat d.gSvrId2ProducerState.size ≠ 0
    · exact Or.inr (Or.inl ⟨⟨rfl, hgate⟩, if_pos hgate⟩)
    · exact Or.inr (Or.inr (if_neg hgate))

theorem selectRanked_cases (d : Daemon) (draw : Fin 10001) :
    (∃ x ∈ d.gRank2SvrId.entries, d.selectRanked draw = .ranked x.2) ∨
    (d.selectRanked draw = .pastEnd ∧
      ∀ top, d.gRank2SvrId.last? = some top → ¬(draw.val : ℚ) / 10000 * top.1 ≤ top.1) := by
  unfold selectRanked
  cases htop : d.gRank2SvrId.last? with
  | none => exact Or.inr ⟨rfl, fun _ h => nomatch h⟩
  | some top =>
    cases hlow : d.gRank2SvrId.lowerBound ((draw.val : ℚ) / 10000 * top.1) with
    | some x => exact Or.inl ⟨x, OrdMap.mem_of_lowerBound hlow, by simp [hlow]⟩
    | none =>
      refine Or.inr ⟨by simp [hlow], fun top' h hle => ?_⟩
      obtain rfl := Option.some.inj h
      have := OrdMap.lowerBound_isSome_iff.mpr ⟨top, htop, hle⟩
      simp [hlow] at this

theorem select_idle (h : d.select draw = .idle svrId) : svrId ∈ d.gSetIdleProducer := by
  rcases d.select_cases draw with ⟨x, hx, hsel⟩ | ⟨-, hsel⟩ | hsel <;> rw [hsel] at h
  · exact Selection.idle.inj h ▸ OrdMap.mem_of_entry (OrdMap.mem_of_first? hx)
  · rcases d.selectRanked_cases draw with ⟨x, -, hr⟩ | ⟨hr, -⟩ <;> rw [hr] at h <;> cases h
  · cases h

theorem select_ranked (h : d.select draw = .ranked svrId) :
    d.RankedBranch ∧ ∃ x ∈ d.gRank2SvrId.entries, x.2 = svrId := by
  rcases d.select_cases draw with ⟨x, hx, hsel⟩ | ⟨hbranch, hsel⟩ | hsel <;> rw [hsel] at h
  · cases h
  · rcases d.selectRanked_cases draw with ⟨x, hx, hr⟩ | ⟨hr, -⟩ <;> rw [hr] at h
    · exact ⟨hbranch, x, hx, Selection.ranked.inj h⟩
    · cases h
  · cases h

theorem select_pastEnd (h : d.select draw = .pastEnd) :
    d.RankedBranch ∧ ∀ top, d.gRank2SvrId.last? = some top → ¬(draw.val : ℚ) / 10000 * top.1 ≤ top.1 := by
  rcases d.select_cases draw with ⟨x, hx, hsel⟩ | ⟨hbranch, hsel⟩ | hsel <;> rw [hsel] at h
  · cases h
  · rcases d.selectRanked_cases draw with ⟨x, hx, hr⟩ | ⟨-, hr⟩
    · rw [hr] at h
      cases h
    · exact ⟨hbranch, hr⟩
  · cases h

/-- Consistent tables name a producer for every draw in range. -/
theorem Consistent.select_ne_pastEnd (h : Consistent d reg) (hd : d.DrawsInRange draw) :
    d.select draw ≠ .pastEnd := by
  intro hsel
  obtain ⟨hbranch, hno⟩ := select_pastEnd hsel
  cases htop : d.gRank2SvrId.last? with
  | none =>
    have hempty : d.gSvrId2ProducerState.entries = [] := by
      by_contra hne
      obtain ⟨x, hx⟩ := List.exists_mem_of_ne_nil _ hne
      exact h.filled x.1 (OrdMap.mem_of_entry hx) htop
    exact hbranch.2.2 (by simp [OrdMap.size, hempty])
  | some top => exact hno top htop (hd hbranch top htop)

theorem Sends.mem (hs : d.Sends draw svrId d') (h : Consistent d reg) : svrId ∈ d.gSvrId2ProducerState := by
  cases hs with
  | idle hsel => exact h.idle _ (select_idle hsel)
  | ranked hsel =>
    obtain ⟨-, x, hx, rfl⟩ := select_ranked hsel
    exact h.rank x hx

theorem Sends.consistent (hs : d.Sends draw svrId d') (h : Consistent d reg) : Consistent d' reg := by
  have hmem := hs.mem h
  cases hs with
  | idle => exact h.sendIdle hmem
  | ranked => exact h.countSend hmem

theorem Consistent.stubOf_ne_none (h : Consistent d reg) (hid : svrId ∈ d.gSvrId2ProducerState) :
    d.stubOf svrId ≠ none := by
  obtain ⟨p, hp⟩ := OrdMap.mem_iff.mp hid
  obtain ⟨stub, hstub, -⟩ := h.stubs svrId p hp
  simp [stubOf, hp, hstub]

theorem Consistent.clientRegister (h : Consistent d reg) {req : ClientRegisterRequest}
    (ho : producerName = req.procName → OnlyProducers d) (peer : String) (draw : Fin (2 ^ 31)) (now : Int) :
    Consistent (d.clientRegister req peer draw now).2
      (if producerName = req.procName then
        reg.set (d.newServerId draw) ⟨d.stubs, parseAndGetIp peer ++ ":" ++ req.listeningPort⟩ else reg) := by
  by_cases hn : producerName = req.procName
  · rw [clientRegister_of_eq _ _ _ _ hn, if_pos hn]
    exact (h.toAligned.addProducer _ _ (ho hn) hn.symm).rebalance ((ho hn).addProducer _ _ hn.symm)
  · rw [clientRegister_of_ne hn, if_neg hn]
    exact h.registerOther (Ne.symm hn)

end Daemon

/-- The steps that keep the tables consistent: `Rebalance` runs on a registry of producers only, and no draw
    is above the greatest rank. -/
def TablesKept (s : State) : Event → Prop
  | .clientRegister req _ _ _ => producerName = req.procName → s.daemon.OnlyProducers
  | .checkProcAlive now => s.daemon.SweepsProducers now
  | .reBalanceTimer => s.daemon.OnlyProducers
  | .handleCompletion i => ∀ c ∈ s.calls[i]?, c.stage = .rpcFailed →
      ∀ p ∈ s.daemon.gSvrId2ProducerState.find? c.svrId, p.failCount + 1 > failCountLimit → s.daemon.OnlyProducers
  | .pushLoop _ draw | .resendLoop _ draw => s.daemon.DrawsInRange draw
  | .heartBeat .. | .loadBalance .. | .beginPush _ | .completion .. => True

instance (s : State) : (e : Event) → Decidable (TablesKept s e)
  | .clientRegister req _ _ _ => inferInstanceAs (Decidable (producerName = req.procName → s.daemon.OnlyProducers))
  | .checkProcAlive now => inferInstanceAs (Decidable (s.daemon.SweepsProducers now))
  | .reBalanceTimer => inferInstanceAs (Decidable s.daemon.OnlyProducers)
  | .handleCompletion i => inferInstanceAs (Decidable (∀ c ∈ s.calls[i]?, c.stage = .rpcFailed →
      ∀ p ∈ s.daemon.gSvrId2ProducerState.find? c.svrId, p.failCount + 1 > failCountLimit → s.daemon.OnlyProducers))
  | .pushLoop _ draw | .resendLoop _ draw => inferInstanceAs (Decidable (s.daemon.DrawsInRange draw))
  | .heartBeat .. | .loadBalance .. | .beginPush _ | .completion .. => isTrue trivial

/-- The four tables agree, each producer has the stub of its registration, and what `SelectProducerAndSend`
    selects and has selected has a stub. -/
structure State.Live (s : State) : Prop where
  keys : ∀ id, id ∈ s.daemon.gSvrId2ProducerState ↔
    ∃ info, s.daemon.gSvrId2SvrInfo.find? id = some info ∧ info.procName = producerName
  stubs : ∀ id p, s.daemon.gSvrId2ProducerState.find? id = some p →
    ∃ stub, p.producerCaller = some stub ∧ s.registered.find? id = some stub
  idle : ∀ id ∈ s.daemon.gSetIdleProducer, id ∈ s.daemon.gSvrId2ProducerState
  rank : ∀ x ∈ s.daemon.gRank2SvrId.entries, x.2 ∈ s.daemon.gSvrId2ProducerState
  selected : ∀ draw svrId d, s.daemon.Sends draw svrId d → s.daemon.stubOf svrId ≠ none
  calls : ∀ c ∈ s.calls, c.stub ≠ none
  defined : s.undefined = false

/-- The invariant behind `State.Live`. -/
structure TablesInv (s : State) : Prop where
  tables : s.daemon.Consistent s.registered
  calls : ∀ c ∈ s.calls, c.stub ≠ none
  defined : s.undefined = false

namespace TablesInv
variable {s t : State} {e : Event}

theorem live (h : TablesInv s) : s.Live where
  keys := h.tables.keys
  stubs := h.tables.stubs
  idle := h.tables.idle
  rank := h.tables.rank
  selected _ _ _ hs := h.tables.stubOf_ne_none (hs.mem h.tables)
  calls := h.calls
  defined := h.defined

theorem setStage (h : TablesInv s) {d : Daemon} (hd : d.Consistent s.registered) (st : Stage) {i : Nat} {c : Call}
    (hc : s.calls[i]? = some c) : TablesInv ({ s with daemon := d }.setCall i { c with stage := st }) where
  tables := hd
  calls := by
    intro y hy
    rcases List.mem_or_eq_of_mem_set hy with hy | rfl
    · exact h.calls y hy
    · exact h.calls c (List.mem_of_getElem? hc)
  defined := h.defined

theorem sent (h : TablesInv s) {d : Daemon} {draw : Fin 10001} {svrId : UInt64} (hs : s.daemon.Sends draw svrId d)
    (request : ProduceMsgRequest) (push : Nat) (curUid : UInt64) :
    TablesInv (s.sent d svrId request push curUid) where
  tables := hs.consistent h.tables
  calls := by
    intro y hy
    rcases List.mem_append.mp hy with hy | hy
    · exact h.calls y hy
    · obtain rfl := List.mem_singleton.mp hy
      exact h.tables.stubOf_ne_none (hs.mem h.tables)
  defined := h.defined

theorem keep (h : TablesInv s) (hok : TablesKept s e) (hs : State.Steps s e t) : TablesInv t := by
  cases hs with
  | clientRegister => exact ⟨h.tables.clientRegister hok _ _ _, h.calls, h.defined⟩
  | heartBeat => exact ⟨h.tables.heartBeat _ _, h.calls, h.defined⟩
  | loadBalance => exact ⟨h.tables.loadBalance _ _, h.calls, h.defined⟩
  | beginPush => exact ⟨h.tables, h.calls, h.defined⟩
  | pushWait | resendWait => exact h
  | pushPastEnd hsel | resendPastEnd hsel => exact absurd hsel (h.tables.select_ne_pastEnd hok)
  | @pushSend p _ x _ _ _ _ hd =>
    have hsent := h.sent hd x.request p x.curUid
    exact ⟨hsent.tables, hsent.calls, hsent.defined⟩
  | resendSend hc _ _ hd => exact (h.sent hd _ _ _).setStage (h.sent hd _ _ _).tables _ (Count.getElem?_snoc_of_some hc)
  | reply hc | rpcFail hc => exact h.setStage (d := s.daemon) h.tables _ hc
  | succeed hc | resend hc => exact h.setStage (h.tables.decreaseProducerTask _) _ hc
  | countFailure hc hst => exact h.setStage (h.tables.countFailure _ fun p hp => hok _ hc hst p hp) _ hc
  | checkProcAlive => exact ⟨h.tables.checkProcAlive hok, h.calls, h.defined⟩
  | reBalanceTimer => exact ⟨h.tables.toAligned.rebalance hok, h.calls, h.defined⟩

end TablesInv

theorem tablesInv_of_reaches {s : State} (h : DaemonReaches TablesKept s) : TablesInv s := by
  refine h.induct ⟨⟨⟨fun id => ?_, ?_, ?_⟩, ?_, ?_⟩, by simp, rfl⟩ fun _ _ _ hi hok hs => hi.keep hok hs
  · simp
  · intro id p hp
    cases hp
  · exact fun id hid => absurd hid (OrdMap.not_mem_empty id)
  · intro x hx
    cases hx
  · exact fun id hid => absurd hid (OrdMap.not_mem_empty id)

/-- In every run whose steps meet `TablesKept` the tables are consistent and every dispatch goes to a live
    producer. -/
theorem tables_live {s : State} (h : DaemonReaches TablesKept s) : s.Live := (tablesInv_of_reaches h).live

/-- A registration of the process `procName`, which draws the id 5 if it is the first. -/
def registerAs (procName : String) : Event := .clientRegister ⟨"50053", procName, 601⟩ "ipv4:10.0.0.1:4000" 5 0

theorem tables_live_two_producers : ∃ s, DaemonReaches TablesKept s ∧ s.calls.length = 3 ∧ s.Live := by
  obtain ⟨s, hs, hlen⟩ := DaemonReaches.of_events TablesKept (fun s => s.calls.length = 3)
    [registerAs producerName, registerAs producerName, .beginPush ⟨1, 0, 12287⟩, .pushLoop 0 0, .pushLoop 0 0,
      .reBalanceTimer, .pushLoop 0 7000] (by decide +kernel)
  exact ⟨s, hs, hlen, tables_live hs⟩

/-- A server of another kind is in the registry when a producer registers: `Rebalance` makes a producer
    without a stub of it and ranks it, and a draw of 0 sends it a chunk. -/
theorem tables_not_live : ∃ s, DaemonReaches AnyEvent s ∧
    (∃ info ∈ s.daemon.gSvrId2SvrInfo.find? 5, info.procName = "consumer") ∧ 5 ∈ s.daemon.gSvrId2ProducerState ∧
    (∃ c ∈ s.calls, c.svrId = 5 ∧ c.stub = none) ∧ ¬s.Live := by
  obtain ⟨s, hs, hinfo, hmem, c, hc, hid, hstub⟩ := DaemonReaches.of_events AnyEvent
    (fun s => (∃ info ∈ s.daemon.gSvrId2SvrInfo.find? 5, info.procName = "consumer") ∧
      5 ∈ s.daemon.gSvrId2ProducerState ∧ ∃ c ∈ s.calls, c.svrId = 5 ∧ c.stub = none)
    [registerAs "consumer", registerAs producerName, .beginPush ⟨1, 0, 8191⟩, .pushLoop 0 0, .pushLoop 0 0]
    (by decide +kernel)
  exact ⟨s, hs, hinfo, hmem, ⟨c, hc, hid, hstub⟩, fun hlive => hlive.calls c hc hstub⟩

end PushSystem
