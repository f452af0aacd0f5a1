import Mathlib.Algebra.Order.Ring.Int
import Mathlib.Tactic.Common

/-!
# Errors

`SafeNudgeError` is the program's own error enum. An instruction can also fail in the account
checks Anchor generates, in the System Program or in a token program; those errors are named
after the check that fails.
-/

namespace SafeNudge

inductive SafeNudgeError where
  | invalidGroupStatus
  | groupFull
  | unauthorizedCreator
  | insufficientMembers
  | cycleNotEnded
  | alreadyDeposited
  | cycleEnded
  | invalidGroupCode
  | invalidFrequency
  | invalidGroupSize
  | invalidPeriodCount
  | invalidDepositAmount
  | arithmeticOverflow
  | invalidMint
  | memberCountMismatch
  | invalidAccountOwner
  | invalidMemberRecord
  | invalidTokenAccountOwner
  | duplicateMemberRecord
  | invalidRentPayer
  | recordRetentionNotElapsed
  | unsupportedMint
  | mintNotWritable
  | groupHasOpenRecords
  | groupHasMembers
  | invalidJoinAuthority
  | joinNotApproved
  | durableNonceNotAllowed
  | groupNotClosed
  | joinCountMismatch
  | expectedJoinsRequired
  | termsMismatch
  | vaultShortfall
  deriving DecidableEq, Repr

/-- Failures of the checks Anchor runs around a handler. -/
inductive AnchorError where
  | accountNotInitialized
  | accountOwnedByWrongProgram
  | accountDidNotDeserialize
  | accountNotSigner
  | invalidProgramId
  | constraintSeeds
  | constraintRaw
  | constraintTokenMint
  | constraintTokenOwner
  | constraintTokenTokenProgram
  | constraintAssociated
  | constraintAddress
  | constraintClose
  | constraintRentExempt
  | tryingToInitPayerAsProgramAccount
  deriving DecidableEq, Repr

inductive Error where
  | safeNudge (e : SafeNudgeError)
  | anchor (e : AnchorError)
  /-- System Program: the address is in use, or the payer cannot pay. -/
  | accountInUse
  | insufficientLamports
  /-- Token program: a wrong account, a short balance, a balance over `u64`, a non-empty account
  at its close, or a call that is turned down for another reason. -/
  | tokenInvalidAccount
  | tokenInsufficientFunds
  | tokenOverflow
  | tokenNonEmptyClose
  | tokenRefused
  /-- An index past the end of a slice. -/
  | indexOutOfBounds
  deriving DecidableEq, Repr

abbrev Result (α : Type) := Except Error α

end SafeNudge
