import SafeNudge.Model.Anchor
import SafeNudge.Model.Events
import SafeNudge.Model.GroupConfig
import SafeNudge.Model.Token

/-!
# Joining, leaving and depositing

`join_group`, `leave_group` and `deposit`.
-/

namespace SafeNudge

open Lib

variable {K : Type} [DecidableEq K] (E : Env K) (ctx : Ctx K)

/-! ## `join_group` -/

structure JoinGroup (K : Type) where
  member : K
  rentPayer : K
  groupConfig : K
  memberRecord : K
  memberTokenAccount : K
  vault : K
  mint : K
  tokenProgram : K
  joinGate : K
  joinAuthority : K
  instructionsSysvar : K
  joinTally : K

/-- Instruction data of `system_instruction::advance_nonce_account`. -/
def ADVANCE_NONCE_ACCOUNT : List UInt8 := [4, 0, 0, 0]

/-- Whether the transaction's first instruction is AdvanceNonceAccount. -/
def usesDurableNonce : Bool :=
  ctx.firstInstruction.programId == E.systemProgram &&
    ADVANCE_NONCE_ACCOUNT.isPrefixOf ctx.firstInstruction.data

/-- The gate part of the handler: a `JoinGate` needs its authority's signature, no durable nonce
and an expected join count. An address this program does not own is no gate. -/
def checkJoinGate (joinGate : K) (joinAuthority : Option K) (expectedJoins : Option UInt32)
    (s : State K) : Result Unit :=
  if (s.account joinGate).owner E = E.programId then do
    let gate ← loadJoinGate E s joinGate
    require (joinAuthority = some gate.authority) (.safeNudge .joinNotApproved)
    require (usesDurableNonce E ctx = false) (.safeNudge .durableNonceNotAllowed)
    require (expectedJoins.isSome = true) (.safeNudge .expectedJoinsRequired)
  else .ok ()

/-- `init_if_needed` of the tally. A new tally is zeroed: no joins, the default rent payer. -/
def initTallyIfNeeded (payer key : K) (s : State K) : Result (JoinTally K × State K) :=
  if (s.account key).owner E = E.systemProgram then do
    let s ← initAccount ctx payer key JOIN_TALLY_SPACE (.other E.programId) s
    return ({ rentPayer := E.systemProgram, joins := 0 }, s)
  else do
    let t ← loadJoinTally E s key
    require (ctx.rent.minimumBalance JOIN_TALLY_SPACE ≤ s.lamports key) (.anchor .constraintRentExempt)
    return (t, s)

/-- `expected_joins`, when given, is the count before this join. -/
def checkExpectedJoins (expectedJoins : Option UInt32) (joins : UInt32) : Result Unit :=
  match expectedJoins with
  | some expected => require (joins = expected) (.safeNudge .joinCountMismatch)
  | none => .ok ()

def joinGroup (a : JoinGroup K) (expectedTerms : GroupTerms K) (expectedJoins : Option UInt32)
    (s : State K) : Result (State K × List (Event K)) := do
  requireSigner E ctx a.member
  requireSigner E ctx a.rentPayer
  let g ← loadGroupConfig E s a.groupConfig
  let mta ← loadTokenAccount E s a.memberTokenAccount
  let _ ← loadTokenAccount E s a.vault
  let m ← loadMint E s a.mint
  let p ← loadTokenProgram E a.tokenProgram
  let joinAuthority ← optionalSigner E ctx a.joinAuthority
  -- init member_record, init_if_needed join_tally
  let recordBump ← requireCanonical E (.member a.groupConfig a.member) a.memberRecord
  let s ← initAccount ctx a.rentPayer a.memberRecord MEMBER_RECORD_SPACE (.other E.programId) s
  let _ ← requireCanonical E (.tally a.groupConfig a.member) a.joinTally
  let init ← initTallyIfNeeded E ctx a.rentPayer a.joinTally s
  let tally := init.1
  let s := init.2
  requireSeeds E (.group g.groupCode) g.bump a.groupConfig
  require (g.status = STATUS_OPEN) (.safeNudge .invalidGroupStatus)
  require (g.currentMembers < g.maxMembers) (.safeNudge .groupFull)
  require (mta.2.owner = a.member) (.anchor .constraintTokenOwner)
  require (a.memberTokenAccount = E.associatedTokenAddress a.member (E.tokenKey p) a.mint)
    (.anchor .constraintAssociated)
  require (mta.1 = p) (.anchor .constraintTokenTokenProgram)
  requireSeeds E (.vault a.groupConfig) g.vaultBump a.vault
  require (a.mint = g.mint) (.safeNudge .invalidMint)
  let _ ← requireCanonical E (.join a.groupConfig) a.joinGate
  require (a.instructionsSysvar = E.instructionsSysvar) (.anchor .constraintAddress)
  -- handler
  require (g.terms = expectedTerms) (.safeNudge .termsMismatch)
  checkJoinGate E ctx a.joinGate joinAuthority expectedJoins s
  checkExpectedJoins expectedJoins tally.joins
  let record : MemberRecord K :=
    { group := a.groupConfig
      member := a.member
      rentPayer := a.rentPayer
      totalDeposited := g.depositAmount
      depositsMade := 1
      periodsDeposited := (Vector.replicate 52 false).set 0 true
      bump := recordBump
      reserved := .replicate 32 0 }
  let currentMembers ← orThrow (checkedAdd8 g.currentMembers 1) (.safeNudge .arithmeticOverflow)
  let tallyPayer := if tally.joins = 0 then a.rentPayer else tally.rentPayer
  let joins ← orThrow (checkedAdd32 tally.joins 1) (.safeNudge .arithmeticOverflow)
  let s ← transferChecked E ctx p a.memberTokenAccount a.mint a.vault a.member g.depositAmount
    m.2.decimals s
  let s := s.set a.groupConfig (.groupConfig { g with currentMembers })
  let s := s.set a.memberRecord (.memberRecord record)
  let s := s.set a.joinTally (.joinTally { rentPayer := tallyPayer, joins })
  return (s, [.memberJoined a.groupConfig a.member a.rentPayer g.depositAmount currentMembers joins])

/-! ## `leave_group` -/

structure LeaveGroup (K : Type) where
  member : K
  groupConfig : K
  memberRecord : K
  rentPayer : K
  memberTokenAccount : K
  vault : K
  mint : K
  tokenProgram : K

def leaveGroup (a : LeaveGroup K) (s : State K) : Result (State K × List (Event K)) := do
  requireSigner E ctx a.member
  let g ← loadGroupConfig E s a.groupConfig
  let r ← loadMemberRecord E s a.memberRecord
  let mta ← loadTokenAccount E s a.memberTokenAccount
  let _ ← loadTokenAccount E s a.vault
  let m ← loadMint E s a.mint
  let p ← loadTokenProgram E a.tokenProgram
  requireSeeds E (.group g.groupCode) g.bump a.groupConfig
  require (g.status = STATUS_OPEN) (.safeNudge .invalidGroupStatus)
  requireSeeds E (.member a.groupConfig a.member) r.bump a.memberRecord
  require (a.rentPayer = r.rentPayer) (.safeNudge .invalidRentPayer)
  requireClose a.memberRecord a.rentPayer
  require (mta.2.owner = a.member) (.anchor .constraintTokenOwner)
  require (mta.2.mint = a.mint) (.anchor .constraintTokenMint)
  require (mta.1 = p) (.anchor .constraintTokenTokenProgram)
  requireSeeds E (.vault a.groupConfig) g.vaultBump a.vault
  require (a.mint = g.mint) (.safeNudge .invalidMint)
  -- handler
  let refund := r.totalDeposited
  let currentMembers ← orThrow (checkedSub8 g.currentMembers 1) (.safeNudge .arithmeticOverflow)
  let s ← transferChecked E ctx p a.vault a.mint a.memberTokenAccount a.vault refund m.2.decimals s
  let s := s.set a.groupConfig (.groupConfig { g with currentMembers })
  return (s.close a.memberRecord a.rentPayer,
    [.memberLeft a.groupConfig a.member refund currentMembers])

/-! ## `deposit` -/

structure Deposit (K : Type) where
  member : K
  groupConfig : K
  memberRecord : K
  memberTokenAccount : K
  vault : K
  mint : K
  tokenProgram : K

/-- The period a timestamp falls in, clamped to the last one. -/
def GroupConfig.currentPeriod (g : GroupConfig K) (unixTimestamp periodDuration : Int64) :
    Result UInt8 := do
  let elapsed ← orThrow (checkedSubI64 unixTimestamp g.cycleStart) (.safeNudge .arithmeticOverflow)
  let maxPeriod ← orThrow (checkedSub8 g.totalPeriods 1) (.safeNudge .arithmeticOverflow)
  let elapsedPeriod ← orThrow (checkedDivI64 elapsed periodDuration) (.safeNudge .arithmeticOverflow)
  let elapsedPeriod ← orThrow (toU8 elapsedPeriod) (.safeNudge .arithmeticOverflow)
  return min elapsedPeriod maxPeriod

/-- The effects of a deposit on the record: the period is marked, both counters go up. -/
def MemberRecord.mark (r : MemberRecord K) (period : UInt8) (depositAmount : UInt64) :
    Result (MemberRecord K) := do
  let marked ← orThrow r.periodsDeposited[period.toNat]? .indexOutOfBounds
  require (marked = false) (.safeNudge .alreadyDeposited)
  let depositsMade ← orThrow (checkedAdd8 r.depositsMade 1) (.safeNudge .arithmeticOverflow)
  let totalDeposited ←
    orThrow (checkedAdd64 r.totalDeposited depositAmount) (.safeNudge .arithmeticOverflow)
  return { r with
    periodsDeposited := r.periodsDeposited.setIfInBounds period.toNat true
    depositsMade
    totalDeposited }

def deposit (a : Deposit K) (s : State K) : Result (State K × List (Event K)) := do
  requireSigner E ctx a.member
  let g ← loadGroupConfig E s a.groupConfig
  let r ← loadMemberRecord E s a.memberRecord
  let mta ← loadTokenAccount E s a.memberTokenAccount
  let _ ← loadTokenAccount E s a.vault
  let m ← loadMint E s a.mint
  let p ← loadTokenProgram E a.tokenProgram
  requireSeeds E (.group g.groupCode) g.bump a.groupConfig
  require (g.status = STATUS_ACTIVE) (.safeNudge .invalidGroupStatus)
  requireSeeds E (.member a.groupConfig a.member) r.bump a.memberRecord
  require (r.group = a.groupConfig) (.anchor .constraintRaw)
  require (r.member = a.member) (.anchor .constraintRaw)
  require (mta.2.mint = g.mint) (.safeNudge .invalidMint)
  require (mta.2.owner = a.member) (.anchor .constraintRaw)
  requireSeeds E (.vault a.groupConfig) g.vaultBump a.vault
  require (a.mint = g.mint) (.safeNudge .invalidMint)
  -- handler
  let periodDuration ← periodDurationSecs E g.frequency
  let cycleEnd ← g.cycleEnd E
  require (ctx.unixTimestamp < cycleEnd) (.safeNudge .cycleEnded)
  let currentPeriod ← g.currentPeriod ctx.unixTimestamp periodDuration
  let r' ← r.mark currentPeriod g.depositAmount
  let s ← transferChecked E ctx p a.memberTokenAccount a.mint a.vault a.member g.depositAmount
    m.2.decimals s
  return (s.set a.memberRecord (.memberRecord r'),
    [.depositMade a.groupConfig a.member currentPeriod g.depositAmount r'.depositsMade])

end SafeNudge
