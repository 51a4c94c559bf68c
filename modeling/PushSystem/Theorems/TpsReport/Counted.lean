import PushSystem.TpsReport
import Mathlib.Data.List.DropRight

/-! What the reporter counts. An iteration loads the count and clears it later: an `Increment` between the two is in
    no count, and all others are in exactly one. -/

namespace PushSystem

/-- The calls of `Increment`. -/
def increments (es : List TpsEvent) : Nat := es.count .increment

/-- The calls of `Increment` since an iteration last ended. -/
def incrementsSinceReport (es : List TpsEvent) : Nat := increments (es.rtakeWhile (· ≠ .storeTpsCount))

/-- `TpsReport` has loaded the count and not yet cleared it. -/
def TpsStage.Taken : TpsStage → Prop
  | .loadTotalCount _ | .storeTotalCount _ _ | .logTotalCount _ | .storeAvgSpeed _ | .storeTpsCount => True
  | .loadQuitFlag | .loadTpsCount | .returned => False

namespace TpsReportService

/-- The operations lead to the state. -/
def Run (es : List TpsEvent) (s : TpsReportService) : Prop := Runs.exec step (fun _ _ => True) es {} = some s

/-- At the end of an iteration after `es` every `Increment` is counted, and the speed is that of all those since the
    end of the iteration before. -/
structure Counts (es : List TpsEvent) (s : TpsReportService) : Prop where
  total : (s.totalCount.toNat : Int) + s.tpsCount.toInt = increments es
  speed : s.getAvgSpeed = avgSpeedOf (incrementsSinceReport es)

/-- No `Increment` of the run comes between the load of a count and its clearing. -/
def Untorn (es : List TpsEvent) : Prop :=
  ∀ xs s, xs ++ [.increment] <+: es → Run xs s → ¬s.stage.Taken

/-! ### Steps -/

/-- The steps of a reporter, by what they do. -/
inductive Steps (s : TpsReportService) : TpsEvent → TpsReportService → Prop where
  | increment : Steps s .increment s.increment
  | quit : Steps s .quit { s with quitFlag := true }
  | loadQuitFlag (h : s.stage = .loadQuitFlag) :
    Steps s .loadQuitFlag { s with stage := if s.quitFlag then .returned else .loadTpsCount }
  | loadTpsCount (h : s.stage = .loadTpsCount) : Steps s .loadTpsCount { s with stage := .loadTotalCount s.tpsCount }
  | loadTotalCount {tpsCount} (h : s.stage = .loadTotalCount tpsCount) :
    Steps s .loadTotalCount { s with stage := .storeTotalCount tpsCount s.totalCount }
  | storeTotalCount {tpsCount totalCount} (h : s.stage = .storeTotalCount tpsCount totalCount) :
    Steps s .storeTotalCount
      { s with totalCount := totalCount + tpsCount.toUInt64, stage := .logTotalCount tpsCount }
  | logTotalCount {tpsCount} (h : s.stage = .logTotalCount tpsCount) :
    Steps s .logTotalCount { s with stage := .storeAvgSpeed tpsCount }
  | storeAvgSpeed {tpsCount} (h : s.stage = .storeAvgSpeed tpsCount) :
    Steps s .storeAvgSpeed { s with avgSpeed := avgSpeedOf tpsCount.toInt, stage := .storeTpsCount }
  | storeTpsCount (h : s.stage = .storeTpsCount) :
    Steps s .storeTpsCount { s with tpsCount := 0, stage := .loadQuitFlag }

theorem steps_of_tpsReport {s t : TpsReportService} {e : TpsEvent} (h : s.tpsReport = some (e, t)) : Steps s e t := by
  unfold tpsReport at h
  split at h <;> cases h
  next hst => exact .loadQuitFlag hst
  next hst => exact .loadTpsCount hst
  next hst => exact .loadTotalCount hst
  next hst => exact .storeTotalCount hst
  next hst => exact .logTotalCount hst
  next hst => exact .storeAvgSpeed hst
  next hst => exact .storeTpsCount hst

theorem steps_of_step {s t : TpsReportService} {e : TpsEvent} (h : s.step e = some t) : Steps s e t := by
  unfold step at h
  split at h
  next => exact Option.some.inj h ▸ .increment
  next => exact Option.some.inj h ▸ .quit
  next =>
    obtain ⟨x, hx, hs⟩ := Option.bind_eq_some_iff.mp h
    obtain ⟨rfl, ht⟩ := Option.ite_none_right_eq_some.mp hs
    exact steps_of_tpsReport (hx.trans (congrArg (fun t => some (x.1, t)) (Option.some.inj ht)))

theorem run_snoc_iff {es : List TpsEvent} {e : TpsEvent} {t : TpsReportService} :
    Run (es ++ [e]) t ↔ ∃ s, Run es s ∧ s.step e = some t := by
  simp only [Run, Runs.exec_snoc, Option.bind_eq_some_iff, if_true]

theorem Run.snoc {es : List TpsEvent} {e : TpsEvent} {s t : TpsReportService} (h : Run es s) (hs : s.step e = some t) :
    Run (es ++ [e]) t := run_snoc_iff.mpr ⟨s, h, hs⟩

/-! ### Increments -/

section Increments
variable {es : List TpsEvent} {e : TpsEvent}

theorem increments_snoc : increments (es ++ [.increment]) = increments es + 1 := by simp [increments]

theorem increments_snoc_of_ne (h : e ≠ .increment) : increments (es ++ [e]) = increments es := by
  simp [increments, h]

theorem sinceReport_snoc : incrementsSinceReport (es ++ [.increment]) = incrementsSinceReport es + 1 := by
  rw [incrementsSinceReport, List.rtakeWhile_concat_pos _ _ _ (by decide), increments_snoc]
  rfl

theorem sinceReport_snoc_of_ne (h : e ≠ .increment) (hend : e ≠ .storeTpsCount) :
    incrementsSinceReport (es ++ [e]) = incrementsSinceReport es := by
  rw [incrementsSinceReport, List.rtakeWhile_concat_pos _ _ _ (by simpa using hend), increments_snoc_of_ne h]
  rfl

theorem sinceReport_snoc_end : incrementsSinceReport (es ++ [.storeTpsCount]) = 0 := by
  rw [incrementsSinceReport, List.rtakeWhile_concat_neg _ _ _ (by decide)]
  rfl

theorem Untorn.nil : Untorn [] := fun xs _ h => absurd (List.prefix_nil.mp h) (by simp)

theorem untorn_snoc_of_ne (h : e ≠ .increment) : Untorn (es ++ [e]) ↔ Untorn es := by
  refine forall₂_congr fun xs s => ?_
  have hne : xs ++ [.increment] ≠ es ++ [e] := fun heq =>
    h (List.singleton_injective (List.append_inj_right' heq rfl)).symm
  rw [List.prefix_concat_iff, or_iff_right hne]

theorem untorn_snoc {s : TpsReportService} (hs : Run es s) :
    Untorn (es ++ [.increment]) ↔ Untorn es ∧ ¬s.stage.Taken := by
  constructor
  · intro h
    exact ⟨fun xs t hxs => h xs t (hxs.trans (List.prefix_append _ _)), h es s List.prefix_rfl hs⟩
  · rintro ⟨h, hst⟩ xs t hxs ht
    rcases List.prefix_concat_iff.mp hxs with heq | hxs
    · obtain rfl := List.append_cancel_right heq
      obtain rfl : s = t := Option.some.inj (hs.symm.trans ht)
      exact hst
    · exact h xs t hxs ht

end Increments

/-! ### The tally -/

/-- The calls of `Increment` in a run: those that ended iterations have counted and those that they have lost, and
    those since the last end, before and after the count is loaded. -/
structure Tally where
  counted : Nat := 0
  lost : Nat := 0
  taken : Nat := 0
  torn : Nat := 0

namespace Tally
variable (x : Tally)

/-- Those since the last end. -/
def recent : Nat := x.taken + x.torn

/-- An `Increment` before the count is loaded. -/
def take : Tally := { x with taken := x.taken + 1 }

/-- An `Increment` after it. -/
def tear : Tally := { x with torn := x.torn + 1 }

/-- The end of an iteration. -/
def clear : Tally := { counted := x.counted + x.taken, lost := x.lost + x.torn }

theorem recent_take : x.take.recent = x.recent + 1 := Nat.add_right_comm _ _ _

theorem recent_tear : x.tear.recent = x.recent + 1 := rfl

end Tally

/-- What a reporter holds of a tally, by where it is in its loop. -/
def Holds (s : TpsReportService) (x : Tally) : Prop :=
  match s.stage with
  | .loadQuitFlag | .loadTpsCount | .returned => s.totalCount = UInt64.ofNat x.counted ∧ x.torn = 0
  | .loadTotalCount tpsCount => s.totalCount = UInt64.ofNat x.counted ∧ tpsCount = Int64.ofNat x.taken
  | .storeTotalCount tpsCount totalCount => totalCount = UInt64.ofNat x.counted ∧ tpsCount = Int64.ofNat x.taken
  | .logTotalCount tpsCount | .storeAvgSpeed tpsCount =>
    s.totalCount = UInt64.ofNat (x.counted + x.taken) ∧ tpsCount = Int64.ofNat x.taken
  | .storeTpsCount =>
    s.totalCount = UInt64.ofNat (x.counted + x.taken) ∧ s.avgSpeed = avgSpeedOf (Int64.ofNat x.taken).toInt

/-- The tally of a run. -/
structure Tallies (es : List TpsEvent) (s : TpsReportService) (x : Tally) : Prop where
  run : Run es s
  all : increments es = x.counted + x.lost + x.recent
  since : incrementsSinceReport es = x.recent
  tpsCount : s.tpsCount = Int64.ofNat x.recent
  holds : s.Holds x
  untorn : Untorn es ↔ x.lost = 0 ∧ x.torn = 0

/-- A run has a tally. -/
def Tallied (es : List TpsEvent) (s : TpsReportService) : Prop := ∃ x, Tallies es s x

section Tally
variable {es : List TpsEvent} {e : TpsEvent} {s t : TpsReportService} {x y : Tally}

theorem Holds.at {stage : TpsStage} (h : s.Holds x) (hst : s.stage = stage) :
    ({ s with stage } : TpsReportService).Holds x := by
  subst hst
  exact h

theorem Holds.of_not_taken (h : s.Holds x) (hst : ¬s.stage.Taken) :
    s.totalCount = UInt64.ofNat x.counted ∧ x.torn = 0 := by
  cases hs : s.stage with
  | loadQuitFlag | loadTpsCount | returned => exact h.at hs
  | _ =>
    rw [hs] at hst
    exact (hst trivial).elim

theorem Holds.take (h : s.Holds x) (hst : ¬s.stage.Taken) : s.increment.Holds x.take := by
  show Holds { s.increment with stage := s.stage } x.take
  cases hs : s.stage with
  | loadQuitFlag | loadTpsCount | returned => exact h.at hs
  | _ =>
    rw [hs] at hst
    exact (hst trivial).elim

theorem Holds.tear (h : s.Holds x) (hst : s.stage.Taken) : s.increment.Holds x.tear := by
  show Holds { s.increment with stage := s.stage } x.tear
  cases hs : s.stage with
  | loadQuitFlag | loadTpsCount | returned =>
    rw [hs] at hst
    exact hst.elim
  | loadTotalCount | storeTotalCount | logTotalCount | storeAvgSpeed | storeTpsCount => exact h.at hs

namespace Tallies

theorem init : Tallies [] {} {} where
  run := rfl
  all := rfl
  since := rfl
  tpsCount := rfl
  holds := ⟨rfl, rfl⟩
  untorn := iff_of_true Untorn.nil ⟨rfl, rfl⟩

theorem increment (h : Tallies es s x) (hy : y.counted = x.counted ∧ y.lost = x.lost ∧ y.recent = x.recent + 1)
    (hholds : s.increment.Holds y) (huntorn : Untorn es ∧ ¬s.stage.Taken ↔ y.lost = 0 ∧ y.torn = 0) :
    Tallies (es ++ [.increment]) s.increment y where
  run := h.run.snoc rfl
  all := by rw [increments_snoc, h.all, hy.1, hy.2.1, hy.2.2, Nat.add_assoc]
  since := by rw [sinceReport_snoc, h.since, hy.2.2]
  tpsCount := by
    show s.tpsCount + 1 = _
    rw [h.tpsCount, hy.2.2, Int64.ofNat_add]
    rfl
  holds := hholds
  untorn := (untorn_snoc h.run).trans huntorn

theorem take (h : Tallies es s x) (hst : ¬s.stage.Taken) : Tallies (es ++ [.increment]) s.increment x.take := by
  refine h.increment ⟨rfl, rfl, x.recent_take⟩ (h.holds.take hst) ?_
  rw [and_iff_left hst]
  exact h.untorn

theorem tear (h : Tallies es s x) (hst : s.stage.Taken) : Tallies (es ++ [.increment]) s.increment x.tear :=
  h.increment ⟨rfl, rfl, x.recent_tear⟩ (h.holds.tear hst) (iff_of_false (fun hu => hu.2 hst) fun hu => nomatch hu.2)

/-- A step that neither counts nor clears. -/
theorem move (h : Tallies es s x) (hs : s.step e = some t) (hne : e ≠ .increment) (hend : e ≠ .storeTpsCount)
    (htps : t.tpsCount = s.tpsCount) (hholds : t.Holds x) : Tallies (es ++ [e]) t x where
  run := h.run.snoc hs
  all := (increments_snoc_of_ne hne).trans h.all
  since := (sinceReport_snoc_of_ne hne hend).trans h.since
  tpsCount := htps.trans h.tpsCount
  holds := hholds
  untorn := (untorn_snoc_of_ne hne).trans h.untorn

/-- The end of an iteration: what came before the load is in the total, and the rest is lost. -/
theorem clear (h : Tallies es s x) (hst : s.stage = .storeTpsCount) :
    Tallies (es ++ [.storeTpsCount]) { s with tpsCount := 0, stage := .loadQuitFlag } x.clear where
  run := h.run.snoc (by simp only [step, tpsReport, hst, Option.bind_some, if_true])
  all := (increments_snoc_of_ne (by decide)).trans (h.all.trans (Nat.add_add_add_comm _ _ _ _))
  since := sinceReport_snoc_end
  tpsCount := rfl
  holds := ⟨(h.holds.at hst).1, rfl⟩
  untorn := by
    rw [untorn_snoc_of_ne (by decide), h.untorn]
    simp [Tally.clear, Nat.add_eq_zero_iff]

theorem keep (h : Tallies es s x) (hs : s.step e = some t) : Tallied (es ++ [e]) t := by
  cases steps_of_step hs with
  | increment =>
    by_cases hst : s.stage.Taken
    · exact ⟨x.tear, h.tear hst⟩
    · exact ⟨x.take, h.take hst⟩
  | quit => exact ⟨x, h.move hs (by decide) (by decide) rfl h.holds⟩
  | loadQuitFlag hst =>
    obtain ⟨htotal, htorn⟩ := h.holds.at hst
    refine ⟨x, h.move hs (by decide) (by decide) rfl ?_⟩
    split <;> exact ⟨htotal, htorn⟩
  | loadTpsCount hst =>
    obtain ⟨htotal, htorn⟩ := h.holds.at hst
    have htps : s.tpsCount = Int64.ofNat x.taken := by rw [h.tpsCount, Tally.recent, htorn, Nat.add_zero]
    exact ⟨x, h.move hs (by decide) (by decide) rfl ⟨htotal, htps⟩⟩
  | loadTotalCount hst =>
    obtain ⟨htotal, rfl⟩ := h.holds.at hst
    exact ⟨x, h.move hs (by decide) (by decide) rfl ⟨htotal, rfl⟩⟩
  | storeTotalCount hst =>
    obtain ⟨rfl, rfl⟩ := h.holds.at hst
    refine ⟨x, h.move hs (by decide) (by decide) rfl ⟨?_, rfl⟩⟩
    rw [UInt64.ofNat_add, Int64.toUInt64_ofNat']
  | logTotalCount hst =>
    obtain ⟨htotal, rfl⟩ := h.holds.at hst
    exact ⟨x, h.move hs (by decide) (by decide) rfl ⟨htotal, rfl⟩⟩
  | storeAvgSpeed hst =>
    obtain ⟨htotal, rfl⟩ := h.holds.at hst
    exact ⟨x, h.move hs (by decide) (by decide) rfl ⟨htotal, rfl⟩⟩
  | storeTpsCount hst => exact ⟨x.clear, h.clear hst⟩

end Tallies

theorem Run.tallied (h : Run es s) : Tallied es s :=
  Runs.exec_induct h ⟨{}, Tallies.init⟩ fun _ _ _ _ ⟨_, hx⟩ _ hs => hx.keep hs

/-- Between two iterations the two counters are right all the time if nothing has been lost. -/
theorem total_add_tpsCount (h : Run es s) (hst : ¬s.stage.Taken) (huntorn : Untorn es)
    (hlt : increments es < 2 ^ 63) : (s.totalCount.toNat : Int) + s.tpsCount.toInt = increments es := by
  obtain ⟨x, hx⟩ := h.tallied
  have hall : increments es = x.counted + x.recent := by rw [hx.all, (hx.untorn.mp huntorn).1, Nat.add_zero]
  have htotal : s.totalCount.toNat = x.counted := by
    rw [(hx.holds.of_not_taken hst).1, UInt64.toNat_ofNat_of_lt']
    exact lt_of_le_of_lt (Nat.le_add_right _ _) (hall ▸ hlt.trans (by decide))
  have htps : s.tpsCount.toInt = x.recent := by
    rw [hx.tpsCount, Int64.toInt_ofNat_of_lt (lt_of_le_of_lt (Nat.le_add_left _ _) (hall ▸ hlt))]
  rw [htotal, htps, hall, Int.natCast_add]

end Tally

/-! ### The end of an iteration -/

theorem avgSpeedOf_eq (n : Int) : avgSpeedOf n = 1000 * tpsInterval * (n : ℚ)⁻¹ := by
  unfold avgSpeedOf
  split
  next hn => rw [hn, Int.cast_zero, inv_zero, mul_zero]
  next => exact div_eq_mul_inv _ _

theorem avgSpeedOf_injective : Function.Injective avgSpeedOf := by
  intro m n h
  rw [avgSpeedOf_eq, avgSpeedOf_eq] at h
  have hne : (1000 * tpsInterval : ℚ) ≠ 0 := by decide +kernel
  exact Rat.intCast_inj.mp (inv_injective (mul_left_cancel₀ hne h))

theorem toInt_ofNat_eq_iff {n : Nat} : (Int64.ofNat n).toInt = n ↔ n < 2 ^ 63 := by
  refine ⟨fun h => ?_, Int64.toInt_ofNat_of_lt⟩
  have hlt := (Int64.ofNat n).toInt_lt
  omega

end TpsReportService

open TpsReportService

/-- At the end of each iteration every `Increment` is counted exactly if none has come between the load of a count and
    its clearing, and the numbers are in the range of the counters. -/
theorem messages_counted_iff {es : List TpsEvent} {s : TpsReportService} (h : Run (es ++ [.storeTpsCount]) s) :
    s.Counts es ↔ Untorn es ∧ increments es < 2 ^ 64 ∧ incrementsSinceReport es < 2 ^ 63 := by
  obtain ⟨r, hr, hs⟩ := run_snoc_iff.mp h
  obtain ⟨x, hx⟩ := hr.tallied
  cases steps_of_step hs with
  | storeTpsCount hst =>
    obtain ⟨htotal, hspeed⟩ := hx.holds.at hst
    have htotal_iff : (r.totalCount.toNat : Int) + (0 : Int64).toInt = increments es ↔
        (x.lost = 0 ∧ x.torn = 0) ∧ increments es < 2 ^ 64 := by
      have hnat : r.totalCount.toNat = (x.counted + x.taken) % 2 ^ 64 := by rw [htotal, UInt64.toNat_ofNat']
      have hall : increments es = x.counted + x.lost + (x.taken + x.torn) := hx.all
      rw [Int64.toInt_zero]
      omega
    have hspeed_iff : r.avgSpeed = avgSpeedOf (incrementsSinceReport es) ↔
        (Int64.ofNat x.taken).toInt = x.recent := by rw [hspeed, hx.since, avgSpeedOf_injective.eq_iff]
    rw [hx.untorn, hx.since]
    constructor
    · intro hc
      obtain ⟨huntorn, hlt⟩ := htotal_iff.mp hc.total
      have hrecent : x.recent = x.taken := congrArg (x.taken + ·) huntorn.2
      have htaken := hspeed_iff.mp hc.speed
      rw [hrecent, toInt_ofNat_eq_iff] at htaken
      exact ⟨huntorn, hlt, hrecent ▸ htaken⟩
    · rintro ⟨huntorn, hlt, hlt'⟩
      have hrecent : x.recent = x.taken := congrArg (x.taken + ·) huntorn.2
      refine ⟨htotal_iff.mpr ⟨huntorn, hlt⟩, hspeed_iff.mpr ?_⟩
      rw [hrecent] at hlt' ⊢
      exact toInt_ofNat_eq_iff.mpr hlt'

/-- An iteration counts two messages, and the next one a third that comes while it sleeps. -/
def twoReports : List TpsEvent :=
  [.increment, .increment, .loadQuitFlag, .loadTpsCount, .loadTotalCount, .storeTotalCount, .logTotalCount,
    .storeAvgSpeed, .storeTpsCount, .loadQuitFlag, .increment, .loadTpsCount, .loadTotalCount, .storeTotalCount,
    .logTotalCount, .storeAvgSpeed]

theorem messages_counted_iff_two_reports : ∃ s, Run (twoReports ++ [.storeTpsCount]) s ∧ s.totalCount = 3 ∧
    (s.Counts twoReports ↔
      Untorn twoReports ∧ increments twoReports < 2 ^ 64 ∧ incrementsSinceReport twoReports < 2 ^ 63) := by
  have hrun : Run (twoReports ++ [.storeTpsCount]) { totalCount := 3, avgSpeed := avgSpeedOf 1 } := rfl
  exact ⟨_, hrun, rfl, messages_counted_iff hrun⟩

/-- A message is acknowledged after the count has been loaded, and the clearing takes it away. -/
theorem messages_uncounted :
    ¬∀ (es : List TpsEvent) (s : TpsReportService), Run (es ++ [.storeTpsCount]) s → s.Counts es := by
  intro hall
  have hrun : Run ([.loadQuitFlag, .loadTpsCount, .increment, .loadTotalCount, .storeTotalCount, .logTotalCount,
      .storeAvgSpeed] ++ [.storeTpsCount]) {} := rfl
  have htotal := (hall _ _ hrun).total
  exact absurd htotal (by decide +kernel)

end PushSystem
