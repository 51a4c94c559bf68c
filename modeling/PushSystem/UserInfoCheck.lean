import PushSystem.Lib.Calendar
import PushSystem.UserInfoUpdate

/-! The loop of the updater (`main.cpp`) and its decision whether a table is due (`CheckAndUpdateUserInfo`). -/

namespace PushSystem
open Calendar

/-! ### Local time -/

/-- 1970-01-01 -/
def unixEpochDay : Int := 719162

def secondsPerDay : Int := 86400

/-- The day at a clock that is `offset` seconds ahead of UTC; the bits of the timestamp are read as a `time_t`. -/
def localDay (offset : Int) (timestamp : UInt64) : Int :=
  unixEpochDay + (timestamp.toInt64.toInt + offset) / secondsPerDay

/-- `localtime`, of which the date is read. -/
def localtime (offset : Int) (timestamp : UInt64) : Date := Date.ofDayNumber (localDay offset timestamp)

/-! ### `CheckAndUpdateUserInfo` -/

/-- The calls of `CheckAndUpdateUserInfo`. -/
inductive CheckOp where
  /-- `SELECT last_update_time FROM user_info_update_record WHERE type = tag` -/
  | selectTime (tag : Tag)
  /-- `mysql_fetch_row`: the number in the row, if it is not a null pointer. -/
  | fetchRow
  | time
  | freeResult
  | updateUserInfo (tag : Tag)
  deriving DecidableEq

abbrev CheckOp.Ret : CheckOp → Type
  | .selectTime _ => Bool
  | .fetchRow => Option UInt64
  | .time => UInt64
  | .freeResult | .updateUserInfo _ => Unit

abbrev CheckProg := Prog CheckOp CheckOp.Ret

namespace CheckProg

abbrev selectTime (tag : Tag) : CheckProg Bool := Prog.perform (CheckOp.selectTime tag)

abbrev fetchRow : CheckProg (Option UInt64) := Prog.perform CheckOp.fetchRow

abbrev time : CheckProg UInt64 := Prog.perform CheckOp.time

abbrev freeResult : CheckProg Unit := Prog.perform CheckOp.freeResult

abbrev updateUserInfo (tag : Tag) : CheckProg Unit := Prog.perform (CheckOp.updateUserInfo tag)

end CheckProg

/-- `CheckAndUpdateUserInfo` -/
def checkAndUpdateUserInfo (offset : Int) (tag : Tag) : CheckProg Unit := do
  let ok ← CheckProg.selectTime tag
  if !ok then
    return
  else
    match ← CheckProg.fetchRow with
    | none =>
      CheckProg.freeResult
      CheckProg.updateUserInfo tag
    | some timestamp =>
      let now ← CheckProg.time
      let tstm := localtime offset timestamp
      let nowtm := localtime offset now
      if tstm.mday = nowtm.mday ∧ tstm.mon = nowtm.mon then
        CheckProg.freeResult
        return
      else
        CheckProg.freeResult
        CheckProg.updateUserInfo tag

/-! ### The loop -/

/-- The `last_update_time` that is stored for a table. -/
def Stores.recorded (w : Stores) (tag : Tag) : Option UInt64 := (w.records.find? fun x => x.1 = tag).map (·.2)

/-- How a call of `CheckAndUpdateUserInfo` fares: the clock, whether the `SELECT` is answered, and whether the row
    is fetched if there is one. -/
structure Check where
  tag : Tag
  now : UInt64
  selected : Bool := true
  fetched : Bool := true

namespace Check

/-- What a call of `CheckAndUpdateUserInfo` is answered. -/
def answer (c : Check) (recorded : Option UInt64) : (o : CheckOp) → Unit → o.Ret × Unit
  | .selectTime _, s => (c.selected, s)
  | .fetchRow, s => (if c.fetched then recorded else none, s)
  | .time, s => (c.now, s)
  | .freeResult, s | .updateUserInfo _, s => ((), s)

/-- It calls `UpdateUserInfo`. -/
def Updates (c : Check) (offset : Int) (recorded : Option UInt64) : Prop :=
  .updateUserInfo c.tag ∈ (checkAndUpdateUserInfo offset c.tag).calls (c.answer recorded) ()

instance decidableUpdates (c : Check) (offset : Int) (recorded : Option UInt64) : Decidable (c.Updates offset recorded) :=
  inferInstanceAs (Decidable (.updateUserInfo c.tag ∈ (checkAndUpdateUserInfo offset c.tag).calls (c.answer recorded) ()))

end Check

/-- A check that has been made: the `last_update_time` before it, and whether it called `UpdateUserInfo`. -/
structure Checked where
  recorded : Option UInt64
  check : Check
  updated : Bool

/-- The tag that `main` checks after `n` checks. -/
def mainTag (n : Nat) : Tag := Fin.ofNat 3 n

/-- The runs of `main` from `s₀`, beside others that change the stores: the checks that have been made, and the
    state they have left. -/
inductive MainRuns (offset : Int) (others : UpdaterState → UpdaterState → Prop) (s₀ : UpdaterState) :
    List Checked → UpdaterState → Prop where
  | start : MainRuns offset others s₀ [] s₀
  | others {cs s t} (h : MainRuns offset others s₀ cs s) (ht : others s t) : MainRuns offset others s₀ cs t
  | skip {cs s c} (h : MainRuns offset others s₀ cs s) (htag : c.tag = mainTag cs.length)
    (hc : ¬c.Updates offset (s.stores.recorded c.tag)) :
    MainRuns offset others s₀ (cs ++ [⟨s.stores.recorded c.tag, c, false⟩]) s
  | update {cs s c t} (h : MainRuns offset others s₀ cs s) (htag : c.tag = mainTag cs.length)
    (hc : c.Updates offset (s.stores.recorded c.tag))
    (ht : Prog.Returns updaterTry others (updateUserInfo c.tag) s () t) :
    MainRuns offset others s₀ (cs ++ [⟨s.stores.recorded c.tag, c, true⟩]) t

end PushSystem
