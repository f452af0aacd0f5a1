import SafeNudge.Model.Anchor
import SafeNudge.Model.Events
import SafeNudge.Model.GroupConfig
import SafeNudge.Model.Token

/-!
# Settlement

`validate_member_pair`, `distribute` and `emergency_cancel`. The two handlers are kept as they are
written: `distribute` walks the pairs (`chunks_exact(2)`) and changes the payout of the last one in
place; `emergency_cancel` counts member indices, computes the positions of a pair from the index,
and burns what no member is owed.
-/

namespace SafeNudge

open Lib

variable {K : Type} [DecidableEq K] (E : Env K) (ctx : Ctx K)

/-- Validates a `[member_record, member_token_account]` pair of a caller's remaining accounts.
Gives the record and the records seen so far. -/
def validateMemberPair (s : State K) (recordKey tokenKey groupKey mintKey : K)
    (seenRecords : List K) : Result (MemberRecord K × List K) := do
  require ((s.account recordKey).owner E = E.programId) (.safeNudge .invalidAccountOwner)
  let record ← orThrow (s.record recordKey) (.safeNudge .invalidMemberRecord)
  require (record.group = groupKey) (.safeNudge .invalidMemberRecord)
  require (E.createProgramAddress (.member groupKey record.member) record.bump = some recordKey)
    (.safeNudge .invalidMemberRecord)
  require (recordKey ∉ seenRecords) (.safeNudge .duplicateMemberRecord)
  let seenRecords := seenRecords ++ [recordKey]
  let token ← loadTokenAccount E s tokenKey
  require (token.2.owner = record.member) (.safeNudge .invalidTokenAccountOwner)
  require (token.2.mint = mintKey) (.safeNudge .invalidMint)
  return (record, seenRecords)

/-- `remaining_accounts.chunks_exact(2)`. -/
def chunksExact2 {α : Type} : List α → List (α × α)
  | x :: y :: rest => (x, y) :: chunksExact2 rest
  | _ => []

/-- The length check both handlers make on their remaining accounts. -/
def checkRemaining (memberCount : Nat) (remaining : List K) : Result Unit := do
  let expectedRemaining ← orThrow (checkedMulUsize memberCount 2) (.safeNudge .arithmeticOverflow)
  require (remaining.length = expectedRemaining) (.safeNudge .memberCountMismatch)

/-! ## `distribute` -/

structure Distribute (K : Type) where
  payer : K
  groupConfig : K
  vault : K
  mint : K
  tokenProgram : K

/-- First pass: validates each pair, adds up the deposits, prepares the payouts. -/
def distributeValidate (s : State K) (groupKey mintKey : K) :
    List (K × K) → List K → UInt64 → List (MemberSettled K) →
      Result (UInt64 × List (MemberSettled K))
  | [], _, totalDeposited, settled => .ok (totalDeposited, settled)
  | pair :: pairs, seenRecords, totalDeposited, settled => do
    let v ← validateMemberPair E s pair.1 pair.2 groupKey mintKey seenRecords
    let totalDeposited ← orThrow (checkedAdd64 totalDeposited v.1.totalDeposited)
      (.safeNudge .arithmeticOverflow)
    distributeValidate s groupKey mintKey pairs v.2 totalDeposited
      (settled ++ [{ group := groupKey, member := v.1.member, deposited := v.1.totalDeposited,
                     payout := v.1.totalDeposited }])

/-- Second pass from index `i` on: the last member's payout becomes the vault balance, and every
payout above zero is transferred. -/
def distributePay (p : TokenProgram) (vault mint : K) (decimals : UInt8) (last : Nat) :
    Nat → List (K × K) → List (MemberSettled K) → State K →
      Result (List (MemberSettled K) × State K)
  | _, [], settled, s => .ok (settled, s)
  | i, pair :: pairs, settled, s => do
    let settled ←
      if i = last then do
        let v ← loadTokenAccount E s vault
        .ok (settled.modify i fun e => { e with payout := v.2.amount })
      else .ok settled
    let e ← orThrow settled[i]? .indexOutOfBounds
    let s ←
      if 0 < e.payout then transferChecked E ctx p vault mint pair.2 vault e.payout decimals s
      else .ok s
    distributePay p vault mint decimals last (i + 1) pairs settled s

/-- Sum of the payouts. -/
def totalPaid : List (MemberSettled K) → UInt64 → Result UInt64
  | [], total => .ok total
  | e :: settled, total => do
    let total ← orThrow (checkedAdd64 total e.payout) (.safeNudge .arithmeticOverflow)
    totalPaid settled total

def distribute (a : Distribute K) (remaining : List K) (s : State K) :
    Result (State K × List (Event K)) := do
  requireSigner E ctx a.payer
  let g ← loadGroupConfig E s a.groupConfig
  let v ← loadTokenAccount E s a.vault
  let m ← loadMint E s a.mint
  let p ← loadTokenProgram E a.tokenProgram
  requireSeeds E (.group g.groupCode) g.bump a.groupConfig
  require (g.status = STATUS_ACTIVE) (.safeNudge .invalidGroupStatus)
  requireSeeds E (.vault a.groupConfig) g.vaultBump a.vault
  require (a.mint = g.mint) (.safeNudge .invalidMint)
  -- handler
  let cycleEnd ← g.cycleEnd E
  require (cycleEnd ≤ ctx.unixTimestamp) (.safeNudge .cycleNotEnded)
  let memberCount := g.currentMembers.toNat
  checkRemaining memberCount remaining
  let pairs := chunksExact2 remaining
  let checked ← distributeValidate E s a.groupConfig a.mint pairs [] 0 []
  require (checked.1 ≤ v.2.amount) (.safeNudge .vaultShortfall)
  let paid ← distributePay E ctx p a.vault a.mint m.2.decimals (memberCount - 1) 0 pairs checked.2 s
  let s ← closeAccount E ctx p a.vault a.groupConfig a.vault paid.2
  let total ← totalPaid paid.1 0
  let g' := { g with status := STATUS_COMPLETED, settledAt := ctx.unixTimestamp }
  return (s.set a.groupConfig (.groupConfig g'),
    paid.1.map .memberSettled ++ [.groupSettled a.groupConfig g.currentMembers total])

/-! ## `emergency_cancel` -/

structure EmergencyCancel (K : Type) where
  creator : K
  groupConfig : K
  vault : K
  mint : K
  tokenProgram : K
  /-- Whether the transaction passes `mint` as writable. -/
  mintIsWritable : Bool

/-- The vault tokens that no member deposited: the whole balance when the group has no members. -/
def unowedVaultBalance (memberCount : Nat) (vaultBalance : UInt64) : UInt64 :=
  if memberCount = 0 then vaultBalance else 0

/-- First pass, `n` more members from index `i` on. -/
def cancelValidate (s : State K) (groupKey mintKey : K) (remaining : List K) :
    Nat → Nat → List K → UInt64 → List UInt64 → Result (UInt64 × List UInt64)
  | 0, _, _, totalDeposited, refundAmounts => .ok (totalDeposited, refundAmounts)
  | n + 1, i, seenRecords, totalDeposited, refundAmounts => do
    let recordIdx ← orThrow (checkedMulUsize i 2) (.safeNudge .arithmeticOverflow)
    let tokenIdx ← orThrow (checkedAddUsize recordIdx 1) (.safeNudge .arithmeticOverflow)
    let recordInfo ← orThrow remaining[recordIdx]? .indexOutOfBounds
    let tokenInfo ← orThrow remaining[tokenIdx]? .indexOutOfBounds
    let v ← validateMemberPair E s recordInfo tokenInfo groupKey mintKey seenRecords
    let totalDeposited ← orThrow (checkedAdd64 totalDeposited v.1.totalDeposited)
      (.safeNudge .arithmeticOverflow)
    cancelValidate s groupKey mintKey remaining n (i + 1) v.2 totalDeposited
      (refundAmounts ++ [v.1.totalDeposited])

/-- Second pass, `n` more members from index `i` on: the last member gets the vault balance. -/
def cancelPay (p : TokenProgram) (vault mint : K) (decimals : UInt8) (memberCount : Nat)
    (remaining : List K) (refundAmounts : List UInt64) :
    Nat → Nat → UInt64 → State K → Result (UInt64 × State K)
  | 0, _, refundedTotal, s => .ok (refundedTotal, s)
  | n + 1, i, refundedTotal, s => do
    let recordIdx ← orThrow (checkedMulUsize i 2) (.safeNudge .arithmeticOverflow)
    let tokenIdx ← orThrow (checkedAddUsize recordIdx 1) (.safeNudge .arithmeticOverflow)
    let memberTokenInfo ← orThrow remaining[tokenIdx]? .indexOutOfBounds
    let last ← orThrow (checkedSubUsize memberCount 1) (.safeNudge .arithmeticOverflow)
    let amount ←
      if i = last then do
        let v ← loadTokenAccount E s vault
        .ok v.2.amount
      else orThrow refundAmounts[i]? .indexOutOfBounds
    let refundedTotal ← orThrow (checkedAdd64 refundedTotal amount) (.safeNudge .arithmeticOverflow)
    let s ←
      if 0 < amount then transferChecked E ctx p vault mint memberTokenInfo vault amount decimals s
      else .ok s
    cancelPay p vault mint decimals memberCount remaining refundAmounts n (i + 1) refundedTotal s

def emergencyCancel (a : EmergencyCancel K) (remaining : List K) (s : State K) :
    Result (State K × List (Event K)) := do
  requireSigner E ctx a.creator
  let g ← loadGroupConfig E s a.groupConfig
  let v ← loadTokenAccount E s a.vault
  let m ← loadMint E s a.mint
  let p ← loadTokenProgram E a.tokenProgram
  requireSeeds E (.group g.groupCode) g.bump a.groupConfig
  require (g.creator = a.creator) (.safeNudge .unauthorizedCreator)
  require (g.status = STATUS_OPEN ∨ g.status = STATUS_ACTIVE) (.safeNudge .invalidGroupStatus)
  requireSeeds E (.vault a.groupConfig) g.vaultBump a.vault
  require (a.mint = g.mint) (.safeNudge .invalidMint)
  -- handler
  let memberCount := g.currentMembers.toNat
  checkRemaining memberCount remaining
  let checked ← cancelValidate E s a.groupConfig a.mint remaining memberCount 0 [] 0 []
  require (checked.1 ≤ v.2.amount) (.safeNudge .vaultShortfall)
  let unowedBalance := unowedVaultBalance memberCount v.2.amount
  require (0 < unowedBalance → a.mintIsWritable = true) (.safeNudge .mintNotWritable)
  let paid ← cancelPay E ctx p a.vault a.mint m.2.decimals memberCount remaining checked.2
    memberCount 0 0 s
  let s ←
    if 0 < unowedBalance then burnChecked E ctx p a.vault a.mint a.vault unowedBalance m.2.decimals paid.2
    else .ok paid.2
  let s ← closeAccount E ctx p a.vault a.groupConfig a.vault s
  let g' := { g with status := STATUS_CANCELLED, settledAt := ctx.unixTimestamp }
  return (s.set a.groupConfig (.groupConfig g'),
    [.groupCancelled a.groupConfig a.creator g.currentMembers paid.1 unowedBalance])

end SafeNudge
