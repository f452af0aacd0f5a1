import SafeNudge.Instructions.Closing
import SafeNudge.Instructions.Lifecycle
import SafeNudge.Instructions.Membership
import SafeNudge.Instructions.Settlement
import SafeNudge.Lib.History

/-!
# Runs

A run interleaves successful instructions (any of the twelve, with any signers, accounts and
arguments; a failed one changes nothing) with steps of everything outside this program. An outside
step may do anything the runtime lets other programs do: wallets, token accounts and mints change
freely, lamports and tokens may be sent to any address. `Outside` states what it cannot do.
-/

namespace SafeNudge

open Lib

variable {K : Type}

/-- An instruction with its accounts and arguments. -/
inductive Call (K : Type) where
  | createGroup (a : CreateGroup K) (groupCode : String) (depositAmount : UInt64)
      (frequency totalPeriods maxMembers : UInt8)
  | joinGroup (a : JoinGroup K) (expectedTerms : GroupTerms K) (expectedJoins : Option UInt32)
  | leaveGroup (a : LeaveGroup K)
  | startCycle (a : StartCycle K)
  | deposit (a : Deposit K)
  | distribute (a : Distribute K) (remaining : List K)
  | emergencyCancel (a : EmergencyCancel K) (remaining : List K)
  | refundVaultRent (a : RefundVaultRent K)
  | closeMemberRecord (a : CloseMemberRecord K)
  | closeGroup (a : CloseGroup K)
  | closeJoinTally (a : CloseJoinTally K) (member : K)
  | setJoinAuthority (a : SetJoinAuthority K) (authority : K)

/-- `lib.rs`: the entry points. -/
def execute [DecidableEq K] (E : Env K) (ctx : Ctx K) :
    Call K → State K → Result (State K × List (Event K))
  | .createGroup a groupCode depositAmount frequency totalPeriods maxMembers =>
    createGroup E ctx a groupCode depositAmount frequency totalPeriods maxMembers
  | .joinGroup a expectedTerms expectedJoins => joinGroup E ctx a expectedTerms expectedJoins
  | .leaveGroup a => leaveGroup E ctx a
  | .startCycle a => startCycle E ctx a
  | .deposit a => deposit E ctx a
  | .distribute a remaining => distribute E ctx a remaining
  | .emergencyCancel a remaining => emergencyCancel E ctx a remaining
  | .refundVaultRent a => refundVaultRent E ctx a
  | .closeMemberRecord a => closeMemberRecord E ctx a
  | .closeGroup a => closeGroup E a
  | .closeJoinTally a member => closeJoinTally E a member
  | .setJoinAuthority a authority => setJoinAuthority E ctx a authority

/-- The group address an instruction names. -/
def Call.groupKey : Call K → K
  | .createGroup a .. => a.groupConfig
  | .joinGroup a .. => a.groupConfig
  | .leaveGroup a => a.groupConfig
  | .startCycle a => a.groupConfig
  | .deposit a => a.groupConfig
  | .distribute a _ => a.groupConfig
  | .emergencyCancel a _ => a.groupConfig
  | .refundVaultRent a => a.groupConfig
  | .closeMemberRecord a => a.groupConfig
  | .closeGroup a => a.groupConfig
  | .closeJoinTally a _ => a.groupConfig
  | .setJoinAuthority a _ => a.groupConfig

/-- Content only this program writes. -/
def Account.IsProgram : Account K → Prop
  | .groupConfig _ | .memberRecord _ | .joinGate _ | .joinTally _ => True
  | _ => False

/-- A mint `create_group` accepts. -/
def Account.IsSupportedMint [DecidableEq K] (E : Env K) (key : K) : Account K → Prop
  | .mint p m => requireSupportedMint E key p m = .ok ()
  | _ => False

/-- A step of everything outside this program, from `s` to `s'`. -/
structure Outside [DecidableEq K] (E : Env K) (s s' : State K) : Prop where
  /-- Accounts of this program keep their content, and lamports do not leave them. -/
  owned : ∀ k, (s.account k).owner E = E.programId →
    s'.account k = s.account k ∧ s.lamports k ≤ s'.lamports k
  /-- Nobody else writes content that reads as an account of this program. -/
  written : ∀ k, (s'.account k).IsProgram → s'.account k = s.account k
  /-- Nobody signs for an address derived from this program: an unused one stays unused, a token
  account there keeps its mint and its owner and tokens do not leave it, nor do lamports. -/
  derived : ∀ {seeds : Seeds K} {b : UInt8} {k : K}, E.createProgramAddress seeds b = some k →
    s.lamports k ≤ s'.lamports k ∧ (s.account k = .system → s'.account k = .system) ∧
      ∀ p t, s.account k = .token p t →
        ∃ n, t.amount ≤ n ∧ s'.account k = .token p { t with amount := n }
  /-- A supported mint has no close authority. -/
  mint : ∀ k, (s.account k).IsSupportedMint E k → (s'.account k).IsSupportedMint E k

inductive Action (K : Type) where
  | call (ctx : Ctx K) (c : Call K) (events : List (Event K))
  | outside

inductive Step [DecidableEq K] (E : Env K) : State K → Action K → State K → Prop where
  | call {ctx : Ctx K} {c : Call K} {s s' : State K} {events : List (Event K)} :
      execute E ctx c s = .ok (s', events) → Step E s (.call ctx c events) s'
  | outside {s s' : State K} : Outside E s s' → Step E s .outside s'

/-- Before the first instruction: no account of this program, and nothing at its addresses. -/
structure Genesis (E : Env K) (s : State K) : Prop where
  program : ∀ k, ¬(s.account k).IsProgram
  derived : ∀ {seeds : Seeds K} {b : UInt8} {k : K}, E.createProgramAddress seeds b = some k →
    s.account k = .system

abbrev StepEntry (K : Type) := Entry (State K) (Action K)

/-- `Reached E h s`: `s` is reached from a genesis state by the steps of `h`, newest first. -/
abbrev Reached [DecidableEq K] (E : Env K) (h : List (StepEntry K)) (s : State K) : Prop :=
  Run (Genesis E) (Step E) h s

end SafeNudge
