import PushSystem.Theorems.Daemon.Live
import PushSystem.Theorems.Daemon.Wheel
import Mathlib.Algebra.Order.Field.Basic

/-! When the weighted choice finds a producer. The second branch of `SelectProducerAndSend` is guarded by the
    size of `gSvrId2ProducerState` and searches `gRank2SvrId`, which `Rebalance` fills from the scores of
    `gSvrId2SvrInfo`. The choice never fails as long as each `Rebalance` leaves a rank that is not negative. -/

namespace PushSystem

namespace Daemon
variable {d : Daemon}

/-- The search of the second branch is inside `gRank2SvrId`: there is a greatest rank, and a rank not less
    than the drawn part of it. -/
def FindsRank (d : Daemon) (draw : Fin 10001) : Prop :=
  ∃ top ∈ d.gRank2SvrId.last?, ∃ x ∈ d.gRank2SvrId.lowerBound ((draw.val : ℚ) / 10000 * top.1),
    (draw.val : ℚ) / 10000 * top.1 ≤ x.1

instance decidableFindsRank (d : Daemon) (draw : Fin 10001) : Decidable (d.FindsRank draw) :=
  inferInstanceAs (Decidable (∃ top ∈ d.gRank2SvrId.last?,
    ∃ x ∈ d.gRank2SvrId.lowerBound ((draw.val : ℚ) / 10000 * top.1), (draw.val : ℚ) / 10000 * top.1 ≤ x.1))

/-- `Rebalance` finds a running sum of the scores that is not negative, or it has nothing to rank and there
    is no producer. -/
def Ranks (d : Daemon) : Prop :=
  (∃ n < d.gSvrId2SvrInfo.size, 0 ≤ d.prefixScore (n + 1)) ∨
    d.gSvrId2SvrInfo.size = 0 ∧ d.gSvrId2ProducerState.size = 0

instance decidableRanks (d : Daemon) : Decidable d.Ranks :=
  inferInstanceAs (Decidable ((∃ n < d.gSvrId2SvrInfo.size, 0 ≤ d.prefixScore (n + 1)) ∨
    d.gSvrId2SvrInfo.size = 0 ∧ d.gSvrId2ProducerState.size = 0))

/-- A producer leaves the registry, the producers and the idle set. -/
def eraseProducer (d : Daemon) (svrId : UInt64) : Daemon :=
  { d with
    gSvrId2SvrInfo := d.gSvrId2SvrInfo.erase svrId
    gSvrId2ProducerState := d.gSvrId2ProducerState.erase svrId
    gSetIdleProducer := d.gSetIdleProducer.erase svrId }

/-- The tables that the sweep reads in its last `Rebalance`, if there is one. -/
def sweepRebalances (now : Int) : List (UInt64 × ServerInfo) → Daemon → Option Daemon
  | [], _ => none
  | (svrId, info) :: rest, d =>
    (sweepRebalances now rest (if expired now info then d.removeServer svrId info.procName else d)).or
      (if expired now info ∧ producerName = info.procName then some (d.eraseProducer svrId) else none)

/-! ### What a rebalance leaves -/

/-- There is a rank that is not negative if there is a producer. -/
def Filled (d : Daemon) : Prop := (∃ id, id ∈ d.gSvrId2ProducerState) → ∃ k ∈ d.gRank2SvrId, 0 ≤ k

/-- `Rebalance` leaves a rank that is not negative exactly when it reads one. -/
theorem filled_rebalance_iff : d.rebalance.Filled ↔ d.Ranks := by
  constructor
  · intro h
    by_cases hex : ∃ id, id ∈ d.rebalance.gSvrId2ProducerState
    · obtain ⟨k, hk, h0⟩ := h hex
      obtain ⟨n, hn, rfl⟩ := mem_rank_rebalance_iff.mp hk
      exact Or.inl ⟨n, hn, h0⟩
    · simp only [mem_producers_rebalance, not_exists, not_or] at hex
      exact Or.inr ⟨OrdMap.size_eq_zero_iff.mpr fun id => (hex id).2, OrdMap.size_eq_zero_iff.mpr fun id => (hex id).1⟩
  · rintro (⟨n, hn, h0⟩ | ⟨hinfos, hproducers⟩) ⟨id, hid⟩
    · exact ⟨_, mem_rank_rebalance_iff.mpr ⟨n, hn, rfl⟩, h0⟩
    · rcases mem_producers_rebalance.mp hid with hid | hid
      · exact absurd hid (OrdMap.size_eq_zero_iff.mp hproducers id)
      · exact absurd hid (OrdMap.size_eq_zero_iff.mp hinfos id)

theorem Filled.findsRank (h : d.Filled) (hbranch : d.RankedBranch) (draw : Fin 10001) : d.FindsRank draw := by
  have hproducer : ∃ id, id ∈ d.gSvrId2ProducerState := by
    by_contra hno
    simp only [not_exists] at hno
    exact hbranch.2.2 (by simp [OrdMap.size_eq_zero_iff.mpr hno])
  obtain ⟨k, hk, h0⟩ := h hproducer
  obtain ⟨id, hid⟩ := OrdMap.mem_iff_entry.mp hk
  cases htop : d.gRank2SvrId.last? with
  | none => exact absurd hk (OrdMap.last?_eq_none_iff.mp htop k)
  | some top =>
    have htop0 : 0 ≤ top.1 := h0.trans (OrdMap.le_last? htop hid)
    have hfraction : (draw.val : ℚ) / 10000 ≤ 1 := by
      rw [div_le_one (by norm_num)]
      exact_mod_cast Nat.lt_succ_iff.mp draw.isLt
    have hle : (draw.val : ℚ) / 10000 * top.1 ≤ top.1 := mul_le_of_le_one_left htop0 hfraction
    obtain ⟨x, hx⟩ := Option.isSome_iff_exists.mp (OrdMap.lowerBound_isSome_iff.mpr ⟨top, htop, hle⟩)
    exact ⟨top, htop, x, hx, by simpa using List.find?_some hx⟩

/-! ### Each critical section -/

/-- Idle producers are producers, and there is a rank for them. -/
structure Ranked (d : Daemon) : Prop where
  idle : ∀ id ∈ d.gSetIdleProducer, id ∈ d.gSvrId2ProducerState
  filled : d.Filled

namespace Ranked
variable {d' : Daemon} {svrId : UInt64}

/-- The tables but for the producers are kept, and no producer appears where there was none. -/
theorem of_producers (h : Ranked d) (hidle : ∀ id ∈ d'.gSetIdleProducer, id ∈ d'.gSvrId2ProducerState)
    (hrank : d'.gRank2SvrId = d.gRank2SvrId)
    (hp : (∃ id, id ∈ d'.gSvrId2ProducerState) → ∃ id, id ∈ d.gSvrId2ProducerState) : Ranked d' where
  idle := hidle
  filled hex := by
    rw [hrank]
    exact h.filled (hp hex)

theorem of_rebalance (hidle : ∀ id ∈ d.gSetIdleProducer, id ∈ d.gSvrId2ProducerState) (h : d.Ranks) :
    Ranked d.rebalance where
  idle id hid := mem_producers_rebalance.mpr (Or.inl (hidle id (rebalance_idle (d := d) ▸ hid)))
  filled := filled_rebalance_iff.mpr h

theorem heartBeat (h : Ranked d) (req : HeartBeatRequest) (now : Int) : Ranked (d.heartBeat req now).2 := by
  unfold Daemon.heartBeat
  split
  · exact h
  · exact ⟨h.idle, h.filled⟩

theorem loadBalance (h : Ranked d) (req : LoadBalanceRequest) (score : ℚ) : Ranked (d.loadBalance req score).2 := by
  unfold Daemon.loadBalance
  split
  · exact h
  · exact ⟨h.idle, h.filled⟩

theorem idle_addProducer (h : ∀ id ∈ d.gSetIdleProducer, id ∈ d.gSvrId2ProducerState) (addr : String) :
    ∀ id ∈ (d.addProducer svrId addr).gSetIdleProducer, id ∈ (d.addProducer svrId addr).gSvrId2ProducerState := by
  intro id hid
  have hid' : id ∈ d.gSetIdleProducer.set svrId () := hid
  show id ∈ d.gSvrId2ProducerState.set svrId _
  rw [OrdMap.mem_set] at hid' ⊢
  exact hid'.imp_right (h id)

theorem idle_eraseProducer (h : ∀ id ∈ d.gSetIdleProducer, id ∈ d.gSvrId2ProducerState) :
    ∀ id ∈ (d.eraseProducer svrId).gSetIdleProducer, id ∈ (d.eraseProducer svrId).gSvrId2ProducerState := by
  intro id hid
  obtain ⟨hne, hid⟩ := (OrdMap.mem_erase _ _ _).mp hid
  exact (OrdMap.mem_erase _ _ _).mpr ⟨hne, h id hid⟩

theorem countSend (h : Ranked d) (hex : ∃ id, id ∈ d.gSvrId2ProducerState) : Ranked (d.countSend svrId) := by
  refine h.of_producers (fun id hid => ?_) rfl fun _ => hex
  show id ∈ d.gSvrId2ProducerState.set svrId _
  exact (OrdMap.mem_set _ _ _ _).mpr (Or.inr (h.idle id hid))

theorem sends (h : Ranked d) {draw : Fin 10001} (hs : d.Sends draw svrId d') : Ranked d' := by
  cases hs with
  | idle hsel =>
    have hidle : Ranked { d with gSetIdleProducer := d.gSetIdleProducer.erase svrId } :=
      ⟨fun id hid => h.idle id ((OrdMap.mem_erase _ _ _).mp hid).2, h.filled⟩
    exact hidle.countSend ⟨svrId, h.idle svrId (select_idle hsel)⟩
  | ranked hsel =>
    refine h.countSend ?_
    by_contra hno
    simp only [not_exists] at hno
    exact (select_ranked hsel).1.2.2 (by simp [OrdMap.size_eq_zero_iff.mpr hno])

theorem decreaseProducerTask (h : Ranked d) (svrId : UInt64) : Ranked (d.decreaseProducerTask svrId) := by
  cases hp : d.gSvrId2ProducerState.find? svrId with
  | none =>
    rw [decreaseProducerTask_of_none hp]
    exact ⟨h.idle, h.filled⟩
  | some p =>
    rw [decreaseProducerTask_of_some hp]
    refine h.of_producers (fun id hid => (OrdMap.mem_set _ _ _ _).mpr ?_) rfl fun _ => ⟨svrId, OrdMap.mem_iff.mpr ⟨p, hp⟩⟩
    simp only at hid
    split at hid
    next => exact ((OrdMap.mem_set _ _ _ _).mp hid).imp_right (h.idle id)
    next => exact Or.inr (h.idle id hid)

theorem countFailure (h : Ranked d)
    (hok : ∀ p ∈ d.gSvrId2ProducerState.find? svrId, p.failCount + 1 > failCountLimit → (d.eraseProducer svrId).Ranks) :
    Ranked (d.countFailure svrId) := by
  unfold Daemon.countFailure
  cases hp : d.gSvrId2ProducerState.find? svrId with
  | none => exact h
  | some p =>
    simp only
    split
    next hlimit => exact of_rebalance (d := d.eraseProducer svrId) (idle_eraseProducer h.idle) (hok p hp hlimit)
    next =>
      refine h.of_producers (fun id hid => ?_) rfl fun _ => ⟨svrId, OrdMap.mem_iff.mpr ⟨p, hp⟩⟩
      exact (OrdMap.mem_set _ _ _ _).mpr (Or.inr (h.idle id hid))

/-! ### The sweep -/

theorem idle_removeServer (h : ∀ id ∈ d.gSetIdleProducer, id ∈ d.gSvrId2ProducerState) (procName : String) :
    ∀ id ∈ (d.removeServer svrId procName).gSetIdleProducer,
      id ∈ (d.removeServer svrId procName).gSvrId2ProducerState := by
  unfold Daemon.removeServer
  split
  · intro id hid
    rw [rebalance_idle] at hid
    exact mem_producers_rebalance.mpr (Or.inl (idle_eraseProducer h id hid))
  · exact h

theorem idle_sweepLoop {now : Int} {l : List (UInt64 × ServerInfo)}
    (h : ∀ id ∈ d.gSetIdleProducer, id ∈ d.gSvrId2ProducerState) :
    ∀ id ∈ (sweepLoop now l d).gSetIdleProducer, id ∈ (sweepLoop now l d).gSvrId2ProducerState := by
  induction l generalizing d with
  | nil => exact h
  | cons x l ih =>
    rw [sweepLoop]
    split
    · exact ih (idle_removeServer h _)
    · exact ih h

/-- Only the last `Rebalance` of the sweep matters: what is removed after it leaves the ranking and the
    producers alone. -/
theorem filled_sweepLoop {now : Int} {l : List (UInt64 × ServerInfo)} (h : sweepRebalances now l d = none → d.Filled)
    (hok : ∀ x ∈ sweepRebalances now l d, x.Ranks) : (sweepLoop now l d).Filled := by
  induction l generalizing d with
  | nil => exact h rfl
  | cons x l ih =>
    obtain ⟨id, info⟩ := x
    rw [sweepLoop]
    rw [sweepRebalances] at h hok
    refine ih (fun hnone => ?_) fun x hx => ?_
    · rw [hnone, Option.none_or] at h hok
      by_cases hexp : expired now info = true
      · rw [if_pos hexp]
        by_cases hn : producerName = info.procName
        · rw [if_pos ⟨hexp, hn⟩] at hok
          rw [removeServer, if_pos hn]
          exact filled_rebalance_iff.mpr (hok _ rfl)
        · rw [if_neg fun h => hn h.2] at h
          rw [removeServer, if_neg hn]
          exact h rfl
      · rw [if_neg hexp]
        rw [if_neg fun h => hexp h.1] at h
        exact h rfl
    · exact hok x (by rw [Option.mem_def.mp hx]; rfl)

theorem checkProcAlive (h : Ranked d) {now : Int} (hok : ∀ x ∈ sweepRebalances now d.gSvrId2SvrInfo.entries d, x.Ranks) :
    Ranked (d.checkProcAlive now) where
  idle id hid := (OrdMap.mem_mapValues _ _ _).mpr (idle_sweepLoop h.idle id hid)
  filled := by
    rintro ⟨id, hid⟩
    exact filled_sweepLoop (fun _ => h.filled) hok ⟨id, (OrdMap.mem_mapValues _ _ _).mp hid⟩

end Ranked

end Daemon

namespace State

/-- The tables that the step reads in its last `Rebalance`, if it runs one. -/
def rebalances (s : State) : Event → Option Daemon
  | .clientRegister req peer draw now =>
    let serverId := s.daemon.newServerId draw
    let addr := parseAndGetIp peer ++ ":" ++ req.listeningPort
    if producerName = req.procName then
      some (Daemon.addProducer
        { s.daemon with
          gSvrId2SvrInfo := s.daemon.gSvrId2SvrInfo.insertNew serverId (.make addr req.procName req.groupId now) }
        serverId addr)
    else none
  | .handleCompletion i =>
    match s.calls[i]? with
    | some c =>
      match c.stage, s.daemon.gSvrId2ProducerState.find? c.svrId with
      | .rpcFailed, some p => if p.failCount + 1 > failCountLimit then some (s.daemon.eraseProducer c.svrId) else none
      | _, _ => none
    | none => none
  | .checkProcAlive now => s.daemon.sweepRebalances now s.daemon.gSvrId2SvrInfo.entries
  | .reBalanceTimer => some s.daemon
  | _ => none

end State

/-- A `Rebalance` of the step finds a rank that is not negative, or nothing to rank and no producer. -/
def RanksKept (s : State) (e : Event) : Prop := ∀ d ∈ s.rebalances e, d.Ranks

instance decidableRanksKept (s : State) (e : Event) : Decidable (RanksKept s e) :=
  inferInstanceAs (Decidable (∀ d ∈ s.rebalances e, d.Ranks))

/-- The invariant behind the weighted choice. -/
structure RankedInv (s : State) : Prop where
  tables : s.daemon.Ranked
  defined : s.undefined = false

namespace RankedInv
variable {s t : State} {e : Event}

theorem clientRegister (h : s.daemon.Ranked) {req : ClientRegisterRequest} {peer : String} {draw : Fin (2 ^ 31)}
    {now : Int} (hok : RanksKept s (.clientRegister req peer draw now)) :
    (s.daemon.clientRegister req peer draw now).2.Ranked := by
  by_cases hn : producerName = req.procName
  · rw [Daemon.clientRegister_of_eq _ _ _ _ hn]
    refine Daemon.Ranked.of_rebalance (Daemon.Ranked.idle_addProducer h.idle _) (hok _ ?_)
    rw [State.rebalances, if_pos hn]
    rfl
  · rw [Daemon.clientRegister_of_ne hn]
    exact ⟨h.idle, h.filled⟩

theorem countFailure (h : s.daemon.Ranked) {i : Nat} {c : Call} (hc : s.calls[i]? = some c) (hst : c.stage = .rpcFailed)
    (hok : RanksKept s (.handleCompletion i)) : (s.daemon.countFailure c.svrId).Ranked := by
  refine h.countFailure fun p hp hlimit => hok _ ?_
  rw [Option.mem_def] at hp
  simp [State.rebalances, hc, hst, hp, hlimit]

theorem keep (h : RankedInv s) (hok : RanksKept s e) (hs : State.Steps s e t) : RankedInv t := by
  have hdefined : ∀ {draw}, s.daemon.select draw ≠ .pastEnd := by
    intro draw hsel
    obtain ⟨hbranch, hno⟩ := Daemon.select_pastEnd hsel
    obtain ⟨top, htop, x, hx, -⟩ := h.tables.filled.findsRank hbranch draw
    obtain ⟨top', htop', hle⟩ := OrdMap.lowerBound_isSome_iff.mp (Option.isSome_of_mem hx)
    exact hno top' htop' (Option.some.inj (htop.symm.trans htop') ▸ hle)
  cases hs with
  | clientRegister => exact ⟨clientRegister h.tables hok, h.defined⟩
  | heartBeat => exact ⟨h.tables.heartBeat _ _, h.defined⟩
  | loadBalance => exact ⟨h.tables.loadBalance _ _, h.defined⟩
  | beginPush => exact ⟨h.tables, h.defined⟩
  | pushWait | resendWait => exact h
  | pushPastEnd hsel | resendPastEnd hsel => exact absurd hsel hdefined
  | pushSend _ _ hd => exact ⟨h.tables.sends hd, h.defined⟩
  | resendSend _ _ _ hd => exact ⟨h.tables.sends hd, h.defined⟩
  | reply | rpcFail => exact ⟨h.tables, h.defined⟩
  | succeed | resend => exact ⟨h.tables.decreaseProducerTask _, h.defined⟩
  | countFailure hc hst => exact ⟨countFailure h.tables hc hst hok, h.defined⟩
  | checkProcAlive => exact ⟨h.tables.checkProcAlive hok, h.defined⟩
  | reBalanceTimer => exact ⟨.of_rebalance h.tables.idle (hok _ rfl), h.defined⟩

end RankedInv

theorem rankedInv_of_reaches {s : State} (h : DaemonReaches RanksKept s) : RankedInv s := by
  refine h.induct ⟨⟨fun id hid => absurd hid (OrdMap.not_mem_empty id), ?_⟩, rfl⟩ fun _ _ _ hi hok hs => hi.keep hok hs
  rintro ⟨id, hid⟩
  exact absurd hid (OrdMap.not_mem_empty id)

/-- In every run whose rebalances leave a rank that is not negative, the second branch always finds a
    producer, whatever it draws, and no thread has read past the end of the ranking. -/
theorem weightedChoice_found {s : State} (h : DaemonReaches RanksKept s) :
    (∀ draw, s.daemon.RankedBranch → s.daemon.FindsRank draw) ∧ s.undefined = false :=
  ⟨fun draw hbranch => (rankedInv_of_reaches h).tables.filled.findsRank hbranch draw, (rankedInv_of_reaches h).defined⟩

theorem weightedChoice_found_busy : ∃ s, DaemonReaches RanksKept s ∧ s.daemon.RankedBranch ∧
    s.daemon.gRank2SvrId.last? = some (3 / 2, 5) ∧ s.daemon.FindsRank 10000 := by
  obtain ⟨s, hs, hbranch, htop⟩ := DaemonReaches.of_events RanksKept
    (fun s => s.daemon.RankedBranch ∧ s.daemon.gRank2SvrId.last? = some (3 / 2, 5))
    [registerAs producerName, registerAs producerName, .beginPush ⟨1, 0, 12287⟩, .pushLoop 0 0, .pushLoop 0 0,
      .loadBalance ⟨5, "1.5"⟩ 0, .loadBalance ⟨6, "-2"⟩ 0, .reBalanceTimer] (by decide +kernel)
  exact ⟨s, hs, hbranch, htop, (weightedChoice_found hs).1 10000 hbranch⟩

/-- A busy producer reports a negative score: a draw of 0 asks for the rank 0, above the greatest one. -/
theorem weightedChoice_lost :
    ¬∀ s, DaemonReaches AnyEvent s → ∀ draw, s.daemon.RankedBranch → s.daemon.FindsRank draw := by
  intro hall
  obtain ⟨s, hs, hbranch, hno⟩ := DaemonReaches.of_events AnyEvent
    (fun s => s.daemon.RankedBranch ∧ ¬s.daemon.FindsRank 0)
    [registerAs producerName, .beginPush ⟨1, 0, 8191⟩, .pushLoop 0 0, .loadBalance ⟨5, "-5"⟩ 0, .reBalanceTimer]
    (by decide +kernel)
  exact hno (hall s hs 0 hbranch)

/-- A server of another kind that was ranked once stays in `gSvrId2ProducerState` after it is swept, and the
    next `Rebalance` leaves no rank at all. -/
example : ∃ s, DaemonReaches AnyEvent s ∧ s.daemon.RankedBranch ∧ s.daemon.gRank2SvrId.last? = none :=
  DaemonReaches.of_events AnyEvent (fun s => s.daemon.RankedBranch ∧ s.daemon.gRank2SvrId.last? = none)
    [registerAs "consumer", .reBalanceTimer, .checkProcAlive 11, .reBalanceTimer] (by decide +kernel)

end PushSystem
