import SafeNudge.Model.Anchor
import SafeNudge.Model.Events
import SafeNudge.Model.GroupConfig
import SafeNudge.Model.Token

/-!
# Creating, gating and starting a group

`create_group`, `set_join_authority` and `start_cycle`. Each definition runs the account checks
of the `#[derive(Accounts)]` struct (accounts that exist are read first, then `init` creates the
new ones, then the remaining constraints run), the handler, and the writes Anchor makes on exit.
-/

namespace SafeNudge

open Lib

variable {K : Type} [DecidableEq K] (E : Env K) (ctx : Ctx K)

structure CreateGroup (K : Type) where
  creator : K
  rentPayer : K
  groupConfig : K
  vault : K
  mint : K
  tokenProgram : K

/-- `group_code.chars().all(|c| c.is_ascii_alphanumeric() || c == '-')`. -/
def groupCodeChars (groupCode : String) : Bool :=
  groupCode.toList.all fun c => c.isAlphanum || c == '-'

def createGroup (a : CreateGroup K) (groupCode : String) (depositAmount : UInt64)
    (frequency totalPeriods maxMembers : UInt8) (s : State K) :
    Result (State K × List (Event K)) := do
  requireSigner E ctx a.creator
  requireSigner E ctx a.rentPayer
  let m ← loadMint E s a.mint
  let p ← loadTokenProgram E a.tokenProgram
  -- init group_config, then the vault and its `InitializeAccount3`
  let bump ← requireCanonical E (.group groupCode) a.groupConfig
  let s ← initAccount ctx a.rentPayer a.groupConfig GROUP_CONFIG_SPACE (.other E.programId) s
  let vaultBump ← requireCanonical E (.vault a.groupConfig) a.vault
  let s ← initAccount ctx a.rentPayer a.vault TOKEN_ACCOUNT_SPACE (.other (E.tokenKey p)) s
  let s ← initializeAccount E ctx p a.vault a.mint a.vault s
  -- handler
  requireSupportedMint E a.mint m.1 m.2
  require (groupCode.utf8ByteSize ≠ 0 ∧ groupCode.utf8ByteSize ≤ 32) (.safeNudge .invalidGroupCode)
  require (groupCodeChars groupCode = true) (.safeNudge .invalidGroupCode)
  require (0 < depositAmount) (.safeNudge .invalidDepositAmount)
  require (frequency ≤ MAX_FREQUENCY E) (.safeNudge .invalidFrequency)
  require (1 ≤ totalPeriods ∧ totalPeriods ≤ 52) (.safeNudge .invalidPeriodCount)
  require (2 ≤ maxMembers ∧ maxMembers ≤ 10) (.safeNudge .invalidGroupSize)
  let group : GroupConfig K :=
    { creator := a.creator
      rentPayer := a.rentPayer
      mint := a.mint
      depositAmount
      cycleStart := 0
      settledAt := 0
      frequency
      totalPeriods
      maxMembers
      currentMembers := 0
      status := STATUS_OPEN
      bump
      vaultBump
      reserved := .replicate 73 0
      groupCode }
  return (s.set a.groupConfig (.groupConfig group),
    [.groupCreated a.groupConfig a.creator a.rentPayer a.mint depositAmount totalPeriods maxMembers])

structure SetJoinAuthority (K : Type) where
  creator : K
  rentPayer : K
  groupConfig : K
  joinGate : K

def setJoinAuthority (a : SetJoinAuthority K) (authority : K) (s : State K) :
    Result (State K × List (Event K)) := do
  requireSigner E ctx a.creator
  requireSigner E ctx a.rentPayer
  let g ← loadGroupConfig E s a.groupConfig
  let _ ← requireCanonical E (.join a.groupConfig) a.joinGate
  let s ← initAccount ctx a.rentPayer a.joinGate JOIN_GATE_SPACE (.other E.programId) s
  requireSeeds E (.group g.groupCode) g.bump a.groupConfig
  require (g.status = STATUS_OPEN) (.safeNudge .invalidGroupStatus)
  require (g.currentMembers = 0) (.safeNudge .groupHasMembers)
  require (a.creator = g.creator) (.safeNudge .unauthorizedCreator)
  require (a.rentPayer = g.rentPayer) (.safeNudge .invalidRentPayer)
  -- handler; the System Program id is `Pubkey::default()`
  require (authority ≠ E.systemProgram ∧ authority ≠ E.programId) (.safeNudge .invalidJoinAuthority)
  return (s.set a.joinGate (.joinGate { authority }),
    [.joinAuthoritySet a.groupConfig a.creator authority])

structure StartCycle (K : Type) where
  creator : K
  groupConfig : K

def startCycle (a : StartCycle K) (s : State K) : Result (State K × List (Event K)) := do
  requireSigner E ctx a.creator
  let g ← loadGroupConfig E s a.groupConfig
  requireSeeds E (.group g.groupCode) g.bump a.groupConfig
  require (g.creator = a.creator) (.safeNudge .unauthorizedCreator)
  require (g.status = STATUS_OPEN) (.safeNudge .invalidGroupStatus)
  require (2 ≤ g.currentMembers) (.safeNudge .insufficientMembers)
  -- handler
  let g' := { g with status := STATUS_ACTIVE, cycleStart := ctx.unixTimestamp }
  let cycleEnd ← g'.cycleEnd E
  return (s.set a.groupConfig (.groupConfig g'),
    [.cycleStarted a.groupConfig g'.currentMembers g'.cycleStart cycleEnd])

end SafeNudge
