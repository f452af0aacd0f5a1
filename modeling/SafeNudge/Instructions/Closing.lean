import SafeNudge.Model.Anchor
import SafeNudge.Model.Events
import SafeNudge.Model.GroupConfig

/-!
# After settlement

`refund_vault_rent`, `close_member_record`, `close_group` and `close_join_tally`. All four are
permissionless.
-/

namespace SafeNudge

open Lib

variable {K : Type} [DecidableEq K] (E : Env K) (ctx : Ctx K)

/-- `status == STATUS_COMPLETED || status == STATUS_CANCELLED`. -/
def GroupConfig.isSettled (g : GroupConfig K) : Prop :=
  g.status = STATUS_COMPLETED ∨ g.status = STATUS_CANCELLED

instance (g : GroupConfig K) : Decidable g.isSettled :=
  inferInstanceAs (Decidable (_ ∨ _))

structure RefundVaultRent (K : Type) where
  groupConfig : K
  rentPayer : K

/-- Zero when the account holds its rent-exempt minimum or less. -/
def lamportsAboveRentFloor (s : State K) (k : K) (dataLen : Nat) : Nat :=
  s.lamports k - ctx.rent.minimumBalance dataLen

def refundVaultRent (a : RefundVaultRent K) (s : State K) : Result (State K × List (Event K)) := do
  let g ← loadGroupConfig E s a.groupConfig
  requireSeeds E (.group g.groupCode) g.bump a.groupConfig
  require g.isSettled (.safeNudge .invalidGroupStatus)
  require (a.rentPayer = g.rentPayer) (.safeNudge .invalidRentPayer)
  -- handler
  let surplus := lamportsAboveRentFloor ctx s a.groupConfig GROUP_CONFIG_SPACE
  return (s.transferLamports a.groupConfig a.rentPayer surplus, [])

structure CloseMemberRecord (K : Type) where
  groupConfig : K
  memberRecord : K
  rentPayer : K

def closeMemberRecord (a : CloseMemberRecord K) (s : State K) :
    Result (State K × List (Event K)) := do
  let g ← loadGroupConfig E s a.groupConfig
  let r ← loadMemberRecord E s a.memberRecord
  requireSeeds E (.group g.groupCode) g.bump a.groupConfig
  require g.isSettled (.safeNudge .invalidGroupStatus)
  let retentionEnd ← recordRetentionEnd E g.settledAt
  require (retentionEnd ≤ ctx.unixTimestamp) (.safeNudge .recordRetentionNotElapsed)
  requireSeeds E (.member a.groupConfig r.member) r.bump a.memberRecord
  require (a.rentPayer = r.rentPayer) (.safeNudge .invalidRentPayer)
  requireClose a.memberRecord a.rentPayer
  -- handler
  let currentMembers ← orThrow (checkedSub8 g.currentMembers 1) (.safeNudge .arithmeticOverflow)
  let s := s.set a.groupConfig (.groupConfig { g with currentMembers })
  return (s.close a.memberRecord a.rentPayer, [])

structure CloseGroup (K : Type) where
  groupConfig : K
  rentPayer : K
  joinGate : K

/-- The gate part of the handler: closes a gate this program owns, gives its lamports. -/
def closeJoinGate (joinGate rentPayer : K) (s : State K) : Result (Nat × State K) :=
  if (s.account joinGate).owner E = E.programId then do
    let _ ← loadJoinGate E s joinGate
    return (s.lamports joinGate, s.close joinGate rentPayer)
  else .ok (0, s)

def closeGroup (a : CloseGroup K) (s : State K) : Result (State K × List (Event K)) := do
  let g ← loadGroupConfig E s a.groupConfig
  requireSeeds E (.group g.groupCode) g.bump a.groupConfig
  require g.isSettled (.safeNudge .invalidGroupStatus)
  require (g.currentMembers = 0) (.safeNudge .groupHasOpenRecords)
  require (a.rentPayer = g.rentPayer) (.safeNudge .invalidRentPayer)
  requireClose a.groupConfig a.rentPayer
  let _ ← requireCanonical E (.join a.groupConfig) a.joinGate
  -- handler
  let gate ← closeJoinGate E a.joinGate a.rentPayer s
  let s := gate.2
  return (s.close a.groupConfig a.rentPayer,
    [.groupClosed a.groupConfig a.rentPayer (s.lamports a.groupConfig) gate.1])

structure CloseJoinTally (K : Type) where
  groupConfig : K
  joinTally : K
  rentPayer : K

def closeJoinTally (a : CloseJoinTally K) (member : K) (s : State K) :
    Result (State K × List (Event K)) := do
  let t ← loadJoinTally E s a.joinTally
  require ((s.account a.groupConfig).owner E ≠ E.programId) (.safeNudge .groupNotClosed)
  let _ ← requireCanonical E (.tally a.groupConfig member) a.joinTally
  require (a.rentPayer = t.rentPayer) (.safeNudge .invalidRentPayer)
  requireClose a.joinTally a.rentPayer
  return (s.close a.joinTally a.rentPayer, [])

end SafeNudge
