import PushSystem.Theorems.Daemon.Ranked
import PushSystem.Theorems.Daemon.Sweep
import PushSystem.Theorems.Daemon.Tasks
import PushSystem.Theorems.LoadBalance.Text
import PushSystem.Theorems.TpsReport.Counted

/-! The daemon and the producers of this repository: only producers register, and each reports what
    `SendLoadBalanceInfo` computes. Then the scores are positive in every run, and the choice of a producer cannot
    fail. -/

namespace PushSystem

/-! ### What is reported -/

namespace TpsReportService
variable {es : List TpsEvent} {s : TpsReportService}

/-- The speed is that of a number of messages. -/
theorem Run.speed (h : Run es s) (hlt : increments es < 2 ^ 63) : ∃ n : Nat, s.getAvgSpeed = avgSpeedOf n := by
  have hinv : Run es s ∧ (increments es < 2 ^ 63 → ∃ n : Nat, s.avgSpeed = avgSpeedOf n) := by
    refine @Runs.exec_induct _ _ step _ _
      (fun es s => Run es s ∧ (increments es < 2 ^ 63 → ∃ n : Nat, s.avgSpeed = avgSpeedOf n))
      _ _ _ h ⟨rfl, fun _ => ⟨0, rfl⟩⟩ fun es s e t hi _ hs => ⟨hi.1.snoc hs, fun hlt => ?_⟩
    obtain ⟨x, hx⟩ := hi.1.tallied
    have hle : increments es ≤ increments (es ++ [e]) := by simp [increments, List.count_append]
    obtain ⟨n, hn⟩ := hi.2 (lt_of_le_of_lt hle hlt)
    cases steps_of_step hs with
    | storeAvgSpeed hst =>
      obtain ⟨-, rfl⟩ := hx.holds.at hst
      have htaken : x.taken ≤ increments es := by
        rw [hx.all, Tally.recent]
        omega
      refine ⟨x.taken, ?_⟩
      show avgSpeedOf (Int64.ofNat x.taken).toInt = _
      rw [Int64.toInt_ofNat_of_lt (by omega)]
    | increment | quit | loadQuitFlag | loadTpsCount | loadTotalCount | storeTotalCount | logTotalCount | storeTpsCount =>
      exact ⟨n, hn⟩
  exact hinv.2 hlt

theorem avgSpeedOf_nonneg (n : Nat) : 0 ≤ avgSpeedOf n := by
  rw [avgSpeedOf_eq]
  exact mul_nonneg (by norm_num [tpsInterval]) (inv_nonneg.mpr (by exact_mod_cast Nat.zero_le n))

end TpsReportService

open TpsReportService

/-- A producer sends the request, and its reporter has counted less than its range. -/
def LoadBalanceRequest.Reported (req : LoadBalanceRequest) : Prop :=
  ∃ client es tps taskCount, Run es tps ∧ increments es < 2 ^ 63 ∧ sendLoadBalanceInfo client tps taskCount = some req

/-- The daemon reads a positive score from what is reported. -/
theorem LoadBalanceRequest.Reported.score_pos {req : LoadBalanceRequest} (h : req.Reported) (left : ℚ) :
    0 < extractScore req.score left := by
  obtain ⟨client, es, tps, taskCount, hrun, hlt, hsent⟩ := h
  unfold sendLoadBalanceInfo at hsent
  split at hsent
  next => cases hsent
  next serverId _ =>
    obtain rfl := Option.some.inj hsent
    obtain ⟨n, hn⟩ := hrun.speed hlt
    rw [extractScore_insertScore, hn]
    exact sixDigits_pos (loadBalanceScore_pos taskCount (avgSpeedOf_nonneg n))

/-! ### The tables -/

namespace Daemon
variable {d d' : Daemon} {svrId : UInt64}

/-- All servers are producers with a positive score, and so are all ranks. -/
structure Scored (d : Daemon) : Prop where
  infos : ∀ id info, d.gSvrId2SvrInfo.find? id = some info → info.procName = producerName ∧ 0 < info.score
  rank : ∀ k ∈ d.gRank2SvrId, 0 < k

theorem Scored.only (h : Scored d) : OnlyProducers d := onlyProducers_iff.mpr fun id info hi => (h.infos id info hi).1

/-- No server appears and none changes its score or kind. -/
theorem Scored.of_infos (h : Scored d) (hrank : d'.gRank2SvrId = d.gRank2SvrId)
    (hinfos : ∀ id info', d'.gSvrId2SvrInfo.find? id = some info' →
      ∃ info, d.gSvrId2SvrInfo.find? id = some info ∧ info'.procName = info.procName ∧ info'.score = info.score) :
    Scored d' where
  infos id info' hi := by
    obtain ⟨info, hinfo, hname, hscore⟩ := hinfos id info' hi
    rw [hname, hscore]
    exact h.infos id info hinfo
  rank := hrank ▸ h.rank

theorem Scored.of_eq (h : Scored d) (hrank : d'.gRank2SvrId = d.gRank2SvrId)
    (hinfos : d'.gSvrId2SvrInfo = d.gSvrId2SvrInfo) : Scored d' :=
  h.of_infos hrank fun _ info hi => ⟨info, hinfos ▸ hi, rfl, rfl⟩

/-- The ranks are sums of positive scores. -/
theorem scored_rebalance
    (h : ∀ id info, d.gSvrId2SvrInfo.find? id = some info → info.procName = producerName ∧ 0 < info.score) :
    Scored d.rebalance where
  infos := by
    rw [rebalance_infos]
    exact h
  rank k hk := by
    obtain ⟨n, hn, rfl⟩ := mem_rank_rebalance_iff.mp hk
    refine List.sum_pos _ (fun x hx => ?_) ?_
    · obtain ⟨y, hy, rfl⟩ := List.mem_map.mp hx
      exact (h y.1 y.2 (OrdMap.find?_eq_some_iff.mpr (List.mem_of_mem_take hy))).2
    · intro hnil
      have hlen := congrArg List.length hnil
      have hsize : d.gSvrId2SvrInfo.entries.length = d.gSvrId2SvrInfo.size := rfl
      simp only [List.length_map, List.length_take, List.length_nil] at hlen
      omega

theorem Scored.eraseAndRebalance (h : Scored d) (svrId : UInt64) : Scored (d.eraseProducer svrId).rebalance :=
  scored_rebalance fun id info hi => h.infos id info (OrdMap.find?_erase_eq_some_iff.mp hi).2

theorem Scored.clientRegister (h : Scored d) {req : ClientRegisterRequest} (hn : req.procName = producerName)
    (peer : String) (draw : Fin (2 ^ 31)) (now : Int) : Scored (d.clientRegister req peer draw now).2 := by
  rw [clientRegister_of_eq _ _ _ _ hn.symm]
  refine scored_rebalance fun id info hi => ?_
  rw [find?_addProducer_infos] at hi
  split at hi
  next =>
    obtain ⟨x, hx, rfl⟩ := Option.map_eq_some_iff.mp hi
    refine ⟨?_, calLoadBalanceScore_pos le_rfl⟩
    rw [OrdMap.find?_insertNew] at hx
    split at hx
    next => exact Option.some.inj hx ▸ hn
    next => exact (h.infos id x hx).1
  next hne =>
    rw [OrdMap.find?_insertNew, if_neg fun hid => hne hid.1] at hi
    exact h.infos id info hi

theorem Scored.heartBeat (h : Scored d) (req : HeartBeatRequest) (now : Int) : Scored (d.heartBeat req now).2 := by
  unfold Daemon.heartBeat
  cases hf : d.gSvrId2SvrInfo.find? req.serverId with
  | none => exact h
  | some info =>
    refine h.of_infos rfl fun id info' hi => ?_
    rcases OrdMap.find?_set_eq_some_iff.mp hi with ⟨rfl, rfl⟩ | ⟨-, hi⟩
    · exact ⟨info, hf, rfl, rfl⟩
    · exact ⟨info', hi, rfl, rfl⟩

theorem Scored.loadBalance (h : Scored d) {req : LoadBalanceRequest} {left : ℚ} (hreq : 0 < extractScore req.score left) :
    Scored (d.loadBalance req left).2 := by
  unfold Daemon.loadBalance
  cases hf : d.gSvrId2SvrInfo.find? req.serverId with
  | none => exact h
  | some info =>
    refine ⟨fun id info' hi => ?_, h.rank⟩
    rcases OrdMap.find?_set_eq_some_iff.mp hi with ⟨rfl, rfl⟩ | ⟨-, hi⟩
    · exact ⟨(h.infos _ info hf).1, hreq⟩
    · exact h.infos id info' hi

theorem Scored.sends (h : Scored d) {draw : Fin 10001} (hs : d.Sends draw svrId d') : Scored d' := by
  cases hs <;> exact h.of_eq rfl rfl

theorem Scored.decreaseProducerTask (h : Scored d) (svrId : UInt64) : Scored (d.decreaseProducerTask svrId) := by
  cases hp : d.gSvrId2ProducerState.find? svrId with
  | none =>
    rw [decreaseProducerTask_of_none hp]
    exact h.of_eq rfl rfl
  | some p =>
    rw [decreaseProducerTask_of_some hp]
    exact h.of_eq rfl rfl

theorem Scored.countFailure (h : Scored d) (svrId : UInt64) : Scored (d.countFailure svrId) := by
  unfold Daemon.countFailure
  split
  next => exact h
  next =>
    split
    next => exact h.eraseAndRebalance svrId
    next => exact h.of_eq rfl rfl

theorem Scored.sweepLoop (h : Scored d) {now : Int} {l : List (UInt64 × ServerInfo)}
    (hl : ∀ x ∈ l, x.2.procName = producerName) : Scored (Daemon.sweepLoop now l d) := by
  induction l generalizing d with
  | nil => exact h
  | cons x l ih =>
    have hl' : ∀ y ∈ l, y.2.procName = producerName := fun y hy => hl y (List.mem_cons_of_mem _ hy)
    rw [Daemon.sweepLoop]
    split
    next =>
      rw [removeServer, if_pos (hl x List.mem_cons_self).symm]
      exact ih (h.eraseAndRebalance x.1) hl'
    next => exact ih h hl'

theorem Scored.checkProcAlive (h : Scored d) (now : Int) : Scored (d.checkProcAlive now) :=
  (h.sweepLoop h.only).of_eq rfl rfl

/-- With positive ranks no draw is above the greatest. -/
theorem Scored.drawsInRange (h : Scored d) (draw : Fin 10001) : d.DrawsInRange draw := by
  intro _ top htop
  have hpos : 0 < top.1 := h.rank _ (OrdMap.mem_of_entry (OrdMap.mem_of_last? htop))
  have hfraction : (draw.val : ℚ) / 10000 ≤ 1 := by
    rw [div_le_one (by norm_num)]
    exact_mod_cast Nat.lt_succ_iff.mp draw.isLt
  exact mul_le_of_le_one_left hpos.le hfraction

/-- With positive ranks and tables that agree, the second branch finds a producer. -/
theorem Scored.findsRank (h : Scored d) {reg : OrdMap UInt64 Stub} (hc : Consistent d reg) (draw : Fin 10001)
    (hbranch : d.RankedBranch) : d.FindsRank draw := by
  have hproducer : ∃ id, id ∈ d.gSvrId2ProducerState := by
    by_contra hno
    simp only [not_exists] at hno
    exact hbranch.2.2 (by simp [OrdMap.size_eq_zero_iff.mpr hno])
  refine Filled.findsRank (fun ⟨id, hid⟩ => ?_) hbranch draw
  obtain ⟨top, htop⟩ := Option.ne_none_iff_exists'.mp (hc.filled id hid)
  have hmem := OrdMap.mem_of_entry (OrdMap.mem_of_last? htop)
  exact ⟨top.1, hmem, (h.rank _ hmem).le⟩

end Daemon

/-! ### Runs -/

/-- Only producers register, and what they report is what `SendLoadBalanceInfo` sends. -/
def Reporting (_ : State) : Event → Prop
  | .clientRegister req _ _ _ => req.procName = producerName
  | .loadBalance req _ => req.Reported
  | _ => True

structure ReportingInv (s : State) : Prop where
  tables : TablesInv s
  scored : s.daemon.Scored

namespace ReportingInv
variable {s t : State} {e : Event}

theorem tablesKept (h : ReportingInv s) (e : Event) : TablesKept s e := by
  have honly := h.scored.only
  cases e with
  | clientRegister => exact fun _ => honly
  | checkProcAlive now => exact honly.sweepsProducers now
  | reBalanceTimer => exact honly
  | handleCompletion => exact fun _ _ _ _ _ _ => honly
  | pushLoop _ draw | resendLoop _ draw => exact h.scored.drawsInRange draw
  | heartBeat | loadBalance | beginPush | completion => trivial

theorem keep (h : ReportingInv s) (hok : Reporting s e) (hs : State.Steps s e t) : ReportingInv t := by
  refine ⟨h.tables.keep (h.tablesKept e) hs, ?_⟩
  cases hs with
  | clientRegister => exact h.scored.clientRegister hok _ _ _
  | heartBeat => exact h.scored.heartBeat _ _
  | loadBalance => exact h.scored.loadBalance (hok.score_pos _)
  | beginPush | pushWait | pushPastEnd | resendWait | resendPastEnd | reply | rpcFail => exact h.scored
  | pushSend _ _ hd => exact h.scored.sends hd
  | resendSend _ _ _ hd => exact h.scored.sends hd
  | succeed | resend => exact h.scored.decreaseProducerTask _
  | countFailure => exact h.scored.countFailure _
  | checkProcAlive => exact h.scored.checkProcAlive _
  | reBalanceTimer => exact Daemon.scored_rebalance h.scored.infos

end ReportingInv

theorem reportingInv_of_reaches {s : State} (h : DaemonReaches Reporting s) : ReportingInv s := by
  refine h.induct ⟨tablesInv_of_reaches .refl, fun _ _ hi => ?_, fun k hk => ?_⟩ fun _ _ _ hi hok hs => hi.keep hok hs
  · cases hi
  · exact absurd hk (OrdMap.not_mem_empty k)

/-- With the producers of this repository the tables are consistent in every run, all scores are positive, each draw
    of the weighted choice finds a producer, and every dispatch goes to one that is registered. -/
theorem reported_live {s : State} (h : DaemonReaches Reporting s) :
    s.Live ∧ (∀ id info, s.daemon.gSvrId2SvrInfo.find? id = some info →
      info.procName = producerName ∧ 0 < info.score) ∧ ∀ draw, s.daemon.RankedBranch → s.daemon.FindsRank draw :=
  have hi := reportingInv_of_reaches h
  ⟨hi.tables.live, hi.scored.infos, hi.scored.findsRank hi.tables.tables⟩

/-- A registered producer that has work and counts no message reports the least score. -/
theorem reported_idle : (⟨5, "0.0001"⟩ : LoadBalanceRequest).Reported :=
  ⟨{ listeningPort := "50053", procName := producerName, groupId := 601, serverId := 5, clientStatus := .registered },
    [], {}, 1, rfl, by decide, by decide +kernel⟩

/-- Only producers register, and all report the least score. -/
def Event.reportsLeast : Event → Bool
  | .clientRegister req _ _ _ => req.procName = producerName
  | .loadBalance req _ => req = ⟨5, "0.0001"⟩
  | _ => true

theorem Event.reporting_of_least {s : State} {e : Event} (h : e.reportsLeast) : Reporting s e := by
  cases e with
  | clientRegister req =>
    have hname : req.procName = producerName := of_decide_eq_true h
    exact hname
  | loadBalance req =>
    have hreq : req = ⟨5, "0.0001"⟩ := of_decide_eq_true h
    exact hreq ▸ reported_idle
  | heartBeat | beginPush | pushLoop | resendLoop | completion | handleCompletion | checkProcAlive | reBalanceTimer =>
    trivial

/-- The only producer has a call and reports the least score, and takes the next chunk. -/
theorem reported_live_busy : ∃ s, DaemonReaches Reporting s ∧ s.calls.length = 2 ∧
    s.daemon.gRank2SvrId.last? = some (1 / 10000, 5) ∧ s.Live ∧ s.daemon.FindsRank 10000 := by
  obtain ⟨s, hs, hlen, htop, hbranch⟩ := DaemonReaches.of_events (fun _ e => e.reportsLeast)
    (fun s => s.calls.length = 2 ∧ s.daemon.gRank2SvrId.last? = some (1 / 10000, 5) ∧ s.daemon.RankedBranch)
    [registerAs producerName, .beginPush ⟨1, 0, 8191⟩, .pushLoop 0 0, .loadBalance ⟨5, "0.0001"⟩ 0, .reBalanceTimer,
      .pushLoop 0 0] (by decide +kernel)
  have hreporting : DaemonReaches Reporting s := hs.mono fun _ _ _ hstep => ⟨Event.reporting_of_least hstep.1, hstep.2⟩
  obtain ⟨hlive, -, hfinds⟩ := reported_live hreporting
  exact ⟨s, hreporting, hlen, htop, hlive, hfinds 10000 hbranch⟩

end PushSystem
