import PushSystem.Lib.Runs
import Mathlib.Algebra.Field.Rat

/-! The throughput reporter (`rocketmq.h`). The broker's callbacks count messages while the thread of `TpsReport`
    takes the count every ten seconds; each operation on a shared variable is atomic, and they interleave. -/

namespace PushSystem

/-- `TPS_INTERVAL` -/
def tpsInterval : Nat := 10

/-- Where `TpsReport` is: the atomic operation that is next, and the locals that are still read. -/
inductive TpsStage where
  /-- The condition of the loop. -/
  | loadQuitFlag
  /-- After the sleep. -/
  | loadTpsCount
  | loadTotalCount (tpsCount : Int64)
  | storeTotalCount (tpsCount : Int64) (totalCount : UInt64)
  /-- `total_count_.load()` for the log line. -/
  | logTotalCount (tpsCount : Int64)
  | storeAvgSpeed (tpsCount : Int64)
  /-- `tps_count_.store(0)` -/
  | storeTpsCount
  | returned
  deriving DecidableEq

/-- The atomic operations on a reporter. -/
inductive TpsEvent where
  /-- `Increment` -/
  | increment
  /-- The destructor stores `quit_flag_`. -/
  | quit
  | loadQuitFlag
  | loadTpsCount
  | loadTotalCount
  | storeTotalCount
  | logTotalCount
  | storeAvgSpeed
  | storeTpsCount
  deriving DecidableEq

/-- The speed that is stored for a count: milliseconds for a message, doubles being exact rationals. -/
def avgSpeedOf (tpsCount : Int) : ℚ := if tpsCount = 0 then 0 else 1000 * tpsInterval / tpsCount

structure TpsReportService where
  quitFlag : Bool := false
  tpsCount : Int64 := 0
  totalCount : UInt64 := 0
  avgSpeed : ℚ := 0
  stage : TpsStage := .loadQuitFlag
  deriving DecidableEq

namespace TpsReportService

/-- `Increment` -/
def increment (s : TpsReportService) : TpsReportService := { s with tpsCount := s.tpsCount + 1 }

/-- `GetAvgSpeed`, from which `SendLoadBalanceInfo` computes its score. -/
def getAvgSpeed (s : TpsReportService) : ℚ := s.avgSpeed

/-- The next operation of `TpsReport`, and what it does. -/
def tpsReport (s : TpsReportService) : Option (TpsEvent × TpsReportService) :=
  match s.stage with
  | .loadQuitFlag => some (.loadQuitFlag, { s with stage := if s.quitFlag then .returned else .loadTpsCount })
  | .loadTpsCount => some (.loadTpsCount, { s with stage := .loadTotalCount s.tpsCount })
  | .loadTotalCount tpsCount => some (.loadTotalCount, { s with stage := .storeTotalCount tpsCount s.totalCount })
  | .storeTotalCount tpsCount totalCount =>
    some (.storeTotalCount, { s with totalCount := totalCount + tpsCount.toUInt64, stage := .logTotalCount tpsCount })
  | .logTotalCount tpsCount => some (.logTotalCount, { s with stage := .storeAvgSpeed tpsCount })
  | .storeAvgSpeed tpsCount =>
    some (.storeAvgSpeed, { s with avgSpeed := avgSpeedOf tpsCount.toInt, stage := .storeTpsCount })
  -- the iteration ends
  | .storeTpsCount => some (.storeTpsCount, { s with tpsCount := 0, stage := .loadQuitFlag })
  | .returned => none

/-- An operation, where it can happen. -/
def step (s : TpsReportService) : TpsEvent → Option TpsReportService
  | .increment => some s.increment
  | .quit => some { s with quitFlag := true }
  | e => s.tpsReport.bind fun x => if x.1 = e then some x.2 else none

end TpsReportService

end PushSystem
