import Mathlib.Algebra.Order.Ring.Int
import Mathlib.Tactic.Common

/-!
# Events

`events.rs`: the records each handler writes to the transaction log after its last change.
-/

namespace SafeNudge

structure MemberSettled (K : Type) where
  group : K
  member : K
  deposited : UInt64
  /-- `deposited`, plus, for the last member, any tokens sent to the vault from outside. -/
  payout : UInt64
  deriving DecidableEq

inductive Event (K : Type) where
  | groupCreated (group creator rentPayer mint : K) (depositAmount : UInt64)
      (totalPeriods maxMembers : UInt8)
  | memberJoined (group member rentPayer : K) (amount : UInt64) (currentMembers : UInt8)
      (joins : UInt32)
  | memberLeft (group member : K) (refund : UInt64) (currentMembers : UInt8)
  | cycleStarted (group : K) (members : UInt8) (cycleStart cycleEnd : Int64)
  | depositMade (group member : K) (period : UInt8) (amount : UInt64) (depositsMade : UInt8)
  | memberSettled (e : MemberSettled K)
  | groupSettled (group : K) (members : UInt8) (totalPaid : UInt64)
  | groupCancelled (group creator : K) (members : UInt8) (refundedTotal burned : UInt64)
  | joinAuthoritySet (group creator authority : K)
  | groupClosed (group rentPayer : K) (lamports joinGateLamports : Nat)
  deriving DecidableEq

end SafeNudge
