import Mathlib.Algebra.GroupWithZero.Nat
import Mathlib.Data.Rat.Defs
import Mathlib.Algebra.Order.Ring.Rat

/-! What the processes share: the messages of the two services, the error codes, the keys of the
    bitmaps in Redis and the balance score (`daemonServer.proto`, `producer.proto`, `errCode.h`,
    `common.cpp`). -/

namespace PushSystem

inductive ErrCode where
  | success
  | err
  deriving DecidableEq, Repr

structure ClientRegisterRequest where
  listeningPort : String
  procName : String
  groupId : UInt32
  deriving DecidableEq

structure ClientRegisterReply where
  err : ErrCode
  serverId : UInt64
  deriving DecidableEq

structure HeartBeatRequest where
  serverId : UInt64
  deriving DecidableEq

structure HeartBeatReply where
  err : ErrCode
  deriving DecidableEq

structure BeginPushRequest where
  msgId : UInt32
  startUid : UInt64
  endUid : UInt64
  deriving DecidableEq

structure LoadBalanceRequest where
  serverId : UInt64
  score : String
  deriving DecidableEq

structure LoadBalanceReply where
  err : ErrCode
  deriving DecidableEq

structure ProduceMsgRequest where
  msgId : UInt32
  startUid : UInt64
  endUid : UInt64
  deriving DecidableEq

structure ProduceMsgReply where
  err : ErrCode
  deriving DecidableEq

/-- The users a request asks for. -/
def ProduceMsgRequest.Covers (r : ProduceMsgRequest) (uid : UInt64) : Prop := r.startUid ≤ uid ∧ uid ≤ r.endUid

instance (r : ProduceMsgRequest) (uid : UInt64) : Decidable (r.Covers uid) :=
  inferInstanceAs (Decidable (r.startUid ≤ uid ∧ uid ≤ r.endUid))

/-! ### `common.cpp` -/

/-- The three user tables: official fans, users active this month, users who opened the push switch. -/
abbrev Tag := Fin 3

/-- Tags are written as numerals. -/
instance neZero_three : NeZero 3 := ⟨by decide⟩

def userInfoKey : Tag → String
  | 0 => "OFFICIAL_FANS_"
  | 1 => "MONTH_ACTIVE_USER_"
  | 2 => "PUSH_SWITCH_OPENED_"

def tmpUserInfoKey : String := "TMP_USER_INFO_KEY"

def secondsPerMinute : Nat := 60

def genReleaseKey (c : String) : String := c ++ "RELEASE"

def genTempKey (c : String) : String := c ++ "TEMP"

def genDiffKey (c : String) : String := c ++ "DIFF"

/-- The score of a server whose sends take `avgTime` on average; doubles are exact rationals. -/
def calLoadBalanceScore (avgTime : ℚ) : ℚ := 10 * 7 / (avgTime + 7)

end PushSystem
