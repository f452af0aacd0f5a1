import SafeNudge.Model.Env
import Mathlib.Logic.Function.Basic

/-!
# Accounts

The account types of the program with the fields of their Rust structs, the token-program
accounts it reads, and the chain state: the lamports and the content of every address. An
`Account` carries its type, so content that no instruction could read as one of the program's
types (another owner, another discriminator, another layout) is `Account.other`.
-/

namespace SafeNudge

/-! ## `state/` -/

/-- Status constants. -/
def STATUS_OPEN : UInt8 := 0
def STATUS_ACTIVE : UInt8 := 1
def STATUS_COMPLETED : UInt8 := 2
def STATUS_CANCELLED : UInt8 := 3

structure GroupConfig (K : Type) where
  creator : K
  rentPayer : K
  mint : K
  depositAmount : UInt64
  cycleStart : Int64
  settledAt : Int64
  frequency : UInt8
  totalPeriods : UInt8
  maxMembers : UInt8
  currentMembers : UInt8
  status : UInt8
  bump : UInt8
  vaultBump : UInt8
  reserved : Vector UInt8 73
  groupCode : String
  deriving DecidableEq

structure GroupTerms (K : Type) where
  creator : K
  depositAmount : UInt64
  frequency : UInt8
  totalPeriods : UInt8
  deriving DecidableEq

structure MemberRecord (K : Type) where
  group : K
  member : K
  rentPayer : K
  totalDeposited : UInt64
  depositsMade : UInt8
  periodsDeposited : Vector Bool 52
  bump : UInt8
  reserved : Vector UInt8 32
  deriving DecidableEq

structure JoinGate (K : Type) where
  authority : K
  deriving DecidableEq

structure JoinTally (K : Type) where
  rentPayer : K
  joins : UInt32
  deriving DecidableEq

/-- `8 + INIT_SPACE` of the account types, and the length of a token account. -/
def GROUP_CONFIG_SPACE : Nat := 244
def MEMBER_RECORD_SPACE : Nat := 198
def JOIN_GATE_SPACE : Nat := 40
def JOIN_TALLY_SPACE : Nat := 44
def TOKEN_ACCOUNT_SPACE : Nat := 165

/-! ## Token programs -/

inductive TokenProgram where
  | token
  | token2022
  deriving DecidableEq, Repr

/-- The Token-2022 extension types. -/
inductive ExtensionType where
  | uninitialized
  | transferFeeConfig
  | transferFeeAmount
  | mintCloseAuthority
  | confidentialTransferMint
  | confidentialTransferAccount
  | defaultAccountState
  | immutableOwner
  | memoTransfer
  | nonTransferable
  | interestBearingConfig
  | cpiGuard
  | permanentDelegate
  | nonTransferableAccount
  | transferHook
  | transferHookAccount
  | confidentialTransferFeeConfig
  | confidentialTransferFeeAmount
  | metadataPointer
  | tokenMetadata
  | groupPointer
  | tokenGroup
  | groupMemberPointer
  | tokenGroupMember
  | confidentialMintBurn
  | scaledUiAmount
  | pausable
  | pausableAccount
  deriving DecidableEq, Repr

structure TokenAccount (K : Type) where
  mint : K
  owner : K
  amount : UInt64
  deriving DecidableEq

/-- `extensions` is `none` when the data holds an extension type the build does not know. -/
structure Mint where
  decimals : UInt8
  supply : UInt64
  extensions : Option (List ExtensionType)
  deriving DecidableEq

/-! ## Chain state -/

inductive Account (K : Type) where
  /-- System-owned without data: a wallet, or an address nothing was created at. -/
  | system
  | groupConfig (g : GroupConfig K)
  | memberRecord (r : MemberRecord K)
  | joinGate (j : JoinGate K)
  | joinTally (t : JoinTally K)
  | token (program : TokenProgram) (t : TokenAccount K)
  | mint (program : TokenProgram) (m : Mint)
  | other (owner : K)
  deriving DecidableEq

structure State (K : Type) where
  lamports : K → Nat
  account : K → Account K

section
variable {K : Type}

def Env.tokenKey (E : Env K) : TokenProgram → K
  | .token => E.tokenProgram
  | .token2022 => E.token2022Program

/-- The owner field of an account. -/
def Account.owner (E : Env K) : Account K → K
  | .system => E.systemProgram
  | .groupConfig _ | .memberRecord _ | .joinGate _ | .joinTally _ => E.programId
  | .token p _ | .mint p _ => E.tokenKey p
  | .other o => o

def Account.groupConfig? : Account K → Option (GroupConfig K)
  | .groupConfig g => some g
  | _ => none

def Account.memberRecord? : Account K → Option (MemberRecord K)
  | .memberRecord r => some r
  | _ => none

def Account.joinGate? : Account K → Option (JoinGate K)
  | .joinGate j => some j
  | _ => none

def Account.joinTally? : Account K → Option (JoinTally K)
  | .joinTally t => some t
  | _ => none

def Account.token? : Account K → Option (TokenProgram × TokenAccount K)
  | .token p t => some (p, t)
  | _ => none

def Account.mint? : Account K → Option (TokenProgram × Mint)
  | .mint p m => some (p, m)
  | _ => none

/-- Raw token amount at an address; 0 where there is no token account. -/
def Account.amount : Account K → Nat
  | .token _ t => t.amount.toNat
  | _ => 0

namespace State

variable (s : State K)

/-! The accounts of each type, by address. -/

def group (k : K) : Option (GroupConfig K) := (s.account k).groupConfig?
def record (k : K) : Option (MemberRecord K) := (s.account k).memberRecord?
def gate (k : K) : Option (JoinGate K) := (s.account k).joinGate?
def tally (k : K) : Option (JoinTally K) := (s.account k).joinTally?
def token (k : K) : Option (TokenProgram × TokenAccount K) := (s.account k).token?
def amount (k : K) : Nat := (s.account k).amount

variable {s}

theorem group_eq_some {k : K} {g : GroupConfig K} :
    s.group k = some g ↔ s.account k = .groupConfig g := by
  unfold group Account.groupConfig?
  split <;> simp_all

theorem record_eq_some {k : K} {r : MemberRecord K} :
    s.record k = some r ↔ s.account k = .memberRecord r := by
  unfold record Account.memberRecord?
  split <;> simp_all

theorem gate_eq_some {k : K} {j : JoinGate K} : s.gate k = some j ↔ s.account k = .joinGate j := by
  unfold gate Account.joinGate?
  split <;> simp_all

theorem tally_eq_some {k : K} {t : JoinTally K} :
    s.tally k = some t ↔ s.account k = .joinTally t := by
  unfold tally Account.joinTally?
  split <;> simp_all

theorem token_eq_some {k : K} {p : TokenProgram} {t : TokenAccount K} :
    s.token k = some (p, t) ↔ s.account k = .token p t := by
  unfold token Account.token?
  split <;> simp_all

end State

/-! ## Elementary changes of state -/

namespace State

variable [DecidableEq K] (s : State K)

/-- Replaces the content of one account. -/
def set (k : K) (a : Account K) : State K := { s with account := Function.update s.account k a }

/-- Moves lamports. The caller has checked that `src` holds `n`. -/
def transferLamports (src dst : K) (n : Nat) : State K :=
  let l := Function.update s.lamports src (s.lamports src - n)
  { s with lamports := Function.update l dst (l dst + n) }

/-- Empties an account into `dst`: all lamports leave and the System Program owns it again. -/
def close (k dst : K) : State K := (s.transferLamports k dst (s.lamports k)).set k .system

/-- Adds to, or takes from, the balance of a token account. -/
def addTokens (k : K) (n : UInt64) : State K :=
  match s.account k with
  | .token p t => s.set k (.token p { t with amount := t.amount + n })
  | _ => s

def subTokens (k : K) (n : UInt64) : State K :=
  match s.account k with
  | .token p t => s.set k (.token p { t with amount := t.amount - n })
  | _ => s

/-- Moves tokens between two token accounts; to the same account nothing changes. -/
def moveTokens (src dst : K) (n : UInt64) : State K :=
  if src = dst then s else (s.subTokens src n).addTokens dst n

end State

end

end SafeNudge
