import SafeNudge.Lib.Guard
import SafeNudge.Model.Errors
import SafeNudge.Model.State

/-!
# Token-program calls

What the program relies on from SPL Token and Token-2022 for the mints `create_group` accepts: a
transfer moves exactly its amount or fails, a burn takes exactly its amount, and a close needs an
empty account and pays out its lamports. `Ctx.refuses` covers every other reason to fail.
-/

namespace SafeNudge

open Lib

variable {K : Type}

/-- The token account of program `p` at `k`. -/
def State.tokenOf (s : State K) (p : TokenProgram) (k : K) : Option (TokenAccount K) :=
  match s.account k with
  | .token q t => if q = p then some t else none
  | _ => none

theorem State.tokenOf_eq_some {s : State K} {p : TokenProgram} {k : K} {t : TokenAccount K} :
    s.tokenOf p k = some t ↔ s.account k = .token p t := by
  unfold tokenOf
  split
  · rename_i q t' h
    by_cases hq : q = p <;> simp [h, hq]
  · simp_all

variable [DecidableEq K] (E : Env K) (ctx : Ctx K)

/-- `InitializeAccount3`. The account was just created with the token program as its owner. -/
def initializeAccount (p : TokenProgram) (account mint owner : K) (s : State K) :
    Result (State K) := do
  let m ← orThrow (s.account mint).mint? .tokenInvalidAccount
  require (m.1 = p) .tokenInvalidAccount
  require (ctx.refuses (.initializeAccount (E.tokenKey p) account mint owner) = false) .tokenRefused
  return s.set account (.token p { mint, owner, amount := 0 })

def transferChecked (p : TokenProgram) (src mint dst authority : K) (amount : UInt64)
    (decimals : UInt8) (s : State K) : Result (State K) := do
  let t ← orThrow (s.tokenOf p src) .tokenInvalidAccount
  let t' ← orThrow (s.tokenOf p dst) .tokenInvalidAccount
  let m ← orThrow (s.account mint).mint? .tokenInvalidAccount
  require (t.mint = mint ∧ t'.mint = mint ∧ m.2.decimals = decimals) .tokenInvalidAccount
  require (t.owner = authority) .tokenInvalidAccount
  require (ctx.refuses (.transferChecked (E.tokenKey p) src mint dst authority amount) = false)
    .tokenRefused
  require (amount ≤ t.amount) .tokenInsufficientFunds
  require (src = dst ∨ t'.amount.toNat + amount.toNat < 2 ^ 64) .tokenOverflow
  return s.moveTokens src dst amount

def burnChecked (p : TokenProgram) (account mint authority : K) (amount : UInt64)
    (decimals : UInt8) (s : State K) : Result (State K) := do
  let t ← orThrow (s.tokenOf p account) .tokenInvalidAccount
  let m ← orThrow (s.account mint).mint? .tokenInvalidAccount
  require (t.mint = mint ∧ m.2.decimals = decimals) .tokenInvalidAccount
  require (t.owner = authority) .tokenInvalidAccount
  require (ctx.refuses (.burnChecked (E.tokenKey p) account mint authority amount) = false)
    .tokenRefused
  require (amount ≤ t.amount ∧ amount ≤ m.2.supply) .tokenInsufficientFunds
  return (s.subTokens account amount).set mint
    (.mint m.1 { m.2 with supply := m.2.supply - amount })

def closeAccount (p : TokenProgram) (account destination authority : K) (s : State K) :
    Result (State K) := do
  let t ← orThrow (s.tokenOf p account) .tokenInvalidAccount
  require (account ≠ destination) .tokenInvalidAccount
  require (t.owner = authority) .tokenInvalidAccount
  require (ctx.refuses (.closeAccount (E.tokenKey p) account destination authority) = false)
    .tokenRefused
  require (t.amount = 0) .tokenNonEmptyClose
  return s.close account destination

end SafeNudge
