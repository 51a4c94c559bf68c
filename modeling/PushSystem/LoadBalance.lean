import PushSystem.DaemonClient
import PushSystem.Lib.Decimal
import PushSystem.Producer
import PushSystem.TpsReport
import Mathlib.Data.Rat.Floor

/-! What a producer reports about its load (`producer.cpp`): `SendLoadBalanceInfo` makes a score of the speed of the
    throughput reporter and sends it as text. -/

namespace PushSystem
open Decimal

/-! ### The text of a score -/

def digitChars (ds : List Nat) : List Char := ds.map Nat.digitChar

/-- Digits with a point. The zeros at the end are left out, and so is a point that nothing follows. -/
def pointChars (whole fraction : List Nat) : List Char :=
  digitChars whole ++
    match fraction.rdropWhile fun d => d = 0 with
    | [] => []
    | d :: ds => '.' :: digitChars (d :: ds)

/-- An exponent has two digits at least. -/
def exponentChars (e : ℤ) : List Char :=
  'e' :: (if e < 0 then '-' else '+') ::
    digitChars (if e.natAbs < 10 then lastDigits 2 e.natAbs else digits e.natAbs)

/-- A positive number with six significant digits, with an exponent if it is less than `0.0001` or has more than six
    digits before the point. -/
def positiveChars (x : ℚ) : List Char :=
  let (m, e) := significant 5 x
  if -4 ≤ e ∧ e < 6 then
    pointChars (digits (m / 10 ^ (5 - e).toNat)) (lastDigits (5 - e).toNat m)
  else pointChars (digits (m / 10 ^ 5)) (lastDigits 5 m) ++ exponentChars e

/-- `ssScore << score` -/
def insertScore (score : ℚ) : String :=
  String.ofList (if score = 0 then ['0'] else if score < 0 then '-' :: positiveChars (-score) else positiveChars score)

/-! ### `SendLoadBalanceInfo` -/

/-- A round of the loop, which sends nothing while the producer is not registered. -/
def sendLoadBalanceInfo (client : DaemonClientImpl) (tps : TpsReportService) (taskCount : Int32) :
    Option LoadBalanceRequest :=
  match client.getServerId with
  | none => none
  | some serverId => some ⟨serverId, insertScore (loadBalanceScore tps.getAvgSpeed taskCount)⟩

end PushSystem
