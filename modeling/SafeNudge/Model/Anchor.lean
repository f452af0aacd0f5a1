import SafeNudge.Lib.Guard
import SafeNudge.Model.Errors
import SafeNudge.Model.State

/-!
# Account checks

The checks Anchor runs on the accounts an instruction names, before its handler: signers, typed
accounts, seeds, and the creation and the closing of accounts. Each loader has one lemma that says
when it succeeds.
-/

namespace SafeNudge

open Lib

variable {K : Type} [DecidableEq K] (E : Env K) (ctx : Ctx K)

/-- `Signer`. -/
def requireSigner (k : K) : Result Unit :=
  require (k ∈ ctx.signers ∧ E.canSign k = true) (.anchor .accountNotSigner)

/-- `Option<Signer>`: a slot that holds this program's id is `None`. -/
def optionalSigner (slot : K) : Result (Option K) :=
  if slot = E.programId then .ok none
  else do
    requireSigner E ctx slot
    return some slot

/-- `Interface<TokenInterface>`: one of the two token programs. -/
def loadTokenProgram (k : K) : Result TokenProgram :=
  if k = E.tokenProgram then .ok .token
  else if k = E.token2022Program then .ok .token2022
  else .error (.anchor .invalidProgramId)

/-- A typed account, read with `read`: `owned` says which owners its type accepts. -/
def loadAs {α : Type} (owned : K → Bool) (read : Account K → Option α) (s : State K) (k : K) :
    Result α :=
  match read (s.account k) with
  | some a => .ok a
  | none =>
    let owner := (s.account k).owner E
    if owner = E.systemProgram ∧ s.lamports k = 0 then .error (.anchor .accountNotInitialized)
    else if owned owner then .error (.anchor .accountDidNotDeserialize)
    else .error (.anchor .accountOwnedByWrongProgram)

/-- `Account<GroupConfig>`, `Account<MemberRecord>`, `Account<JoinGate>`, `Account<JoinTally>`. -/
def loadGroupConfig : State K → K → Result (GroupConfig K) :=
  loadAs E (· == E.programId) Account.groupConfig?
def loadMemberRecord : State K → K → Result (MemberRecord K) :=
  loadAs E (· == E.programId) Account.memberRecord?
def loadJoinGate : State K → K → Result (JoinGate K) :=
  loadAs E (· == E.programId) Account.joinGate?
def loadJoinTally : State K → K → Result (JoinTally K) :=
  loadAs E (· == E.programId) Account.joinTally?

/-- `InterfaceAccount<TokenAccount>` and `InterfaceAccount<Mint>`. -/
def loadTokenAccount : State K → K → Result (TokenProgram × TokenAccount K) :=
  loadAs E (fun o => o == E.tokenProgram || o == E.token2022Program) Account.token?
def loadMint : State K → K → Result (TokenProgram × Mint) :=
  loadAs E (fun o => o == E.tokenProgram || o == E.token2022Program) Account.mint?

/-- `seeds = .., bump = bump`: the address of the seeds with a stored bump. -/
def requireSeeds (seeds : Seeds K) (bump : UInt8) (key : K) : Result Unit :=
  require (E.createProgramAddress seeds bump = some key) (.anchor .constraintSeeds)

/-- `seeds = .., bump`: the canonical address of the seeds. Gives its bump. -/
def requireCanonical (seeds : Seeds K) (key : K) : Result UInt8 :=
  match E.findProgramAddress seeds with
  | some (k, b) => if k = key then .ok b else .error (.anchor .constraintSeeds)
  | none => .error (.anchor .constraintSeeds)

/-- What `init` transfers to an address that holds `held` lamports. -/
def topUp (minimum held : Nat) : Nat := if held = 0 then minimum else max minimum 1 - held

/-- The account creation of `init`: `key` must be unused. An address that already holds lamports
is topped up to the rent-exempt minimum, then allocated and assigned. -/
def initAccount (payer key : K) (space : Nat) (a : Account K) (s : State K) :
    Result (State K) := do
  require (payer ≠ key) (.anchor .tryingToInitPayerAsProgramAccount)
  require (s.account key = .system) .accountInUse
  let required := topUp (ctx.rent.minimumBalance space) (s.lamports key)
  -- a transfer of nothing is not made, so the payer is not looked at
  require (required = 0 ∨ s.account payer = .system) .insufficientLamports
  require (required ≤ s.lamports payer) .insufficientLamports
  return (s.transferLamports payer key required).set key a

/-- `close = destination`. -/
def requireClose (key destination : K) : Result Unit :=
  require (key ≠ destination) (.anchor .constraintClose)

/-! ## When the checks pass -/

variable {E ctx}

@[simp] theorem requireSigner_eq_ok {k : K} {u : Unit} :
    requireSigner E ctx k = .ok u ↔ k ∈ ctx.signers ∧ E.canSign k = true := require_eq_ok

theorem loadAs_eq_ok {α : Type} {owned : K → Bool} {read : Account K → Option α} {s : State K}
    {k : K} {a : α} : loadAs E owned read s k = .ok a ↔ read (s.account k) = some a := by
  unfold loadAs
  split
  · simp_all
  · simp only [*, reduceCtorEq, iff_false]
    split <;> [skip; split] <;> simp

@[simp] theorem loadGroupConfig_eq_ok {s : State K} {k : K} {g : GroupConfig K} :
    loadGroupConfig E s k = .ok g ↔ s.group k = some g := loadAs_eq_ok

@[simp] theorem loadMemberRecord_eq_ok {s : State K} {k : K} {r : MemberRecord K} :
    loadMemberRecord E s k = .ok r ↔ s.record k = some r := loadAs_eq_ok

@[simp] theorem loadJoinGate_eq_ok {s : State K} {k : K} {j : JoinGate K} :
    loadJoinGate E s k = .ok j ↔ s.gate k = some j := loadAs_eq_ok

@[simp] theorem loadJoinTally_eq_ok {s : State K} {k : K} {t : JoinTally K} :
    loadJoinTally E s k = .ok t ↔ s.tally k = some t := loadAs_eq_ok

@[simp] theorem loadTokenAccount_eq_ok {s : State K} {k : K} {t : TokenProgram × TokenAccount K} :
    loadTokenAccount E s k = .ok t ↔ s.token k = some t := loadAs_eq_ok

@[simp] theorem loadMint_eq_ok {s : State K} {k : K} {m : TokenProgram × Mint} :
    loadMint E s k = .ok m ↔ (s.account k).mint? = some m := loadAs_eq_ok

@[simp] theorem requireSeeds_eq_ok {seeds : Seeds K} {bump : UInt8} {key : K} {u : Unit} :
    requireSeeds E seeds bump key = .ok u ↔ E.createProgramAddress seeds bump = some key :=
  require_eq_ok

@[simp] theorem requireCanonical_eq_ok {seeds : Seeds K} {key : K} {b : UInt8} :
    requireCanonical E seeds key = .ok b ↔ E.findProgramAddress seeds = some (key, b) := by
  unfold requireCanonical
  cases E.findProgramAddress seeds with
  | none => simp
  | some p =>
    obtain ⟨k, b'⟩ := p
    by_cases h : k = key <;> simp [h]

@[simp] theorem requireClose_eq_ok {key destination : K} {u : Unit} :
    requireClose key destination = .ok u ↔ key ≠ destination := require_eq_ok

theorem initAccount_eq_ok {payer key : K} {space : Nat} {a : Account K} {s s' : State K} :
    initAccount ctx payer key space a s = .ok s' ↔
      ∃ n, n = topUp (ctx.rent.minimumBalance space) (s.lamports key) ∧ payer ≠ key ∧
        s.account key = .system ∧ (n = 0 ∨ s.account payer = .system) ∧ n ≤ s.lamports payer ∧
        (s.transferLamports payer key n).set key a = s' := by
  simp only [initAccount, bind_eq_ok, require_eq_ok, pure_eq_ok, exists_const, exists_eq_left, ne_eq]

theorem loadTokenProgram_eq_ok {k : K} {p : TokenProgram} :
    loadTokenProgram E k = .ok p ↔ k = E.tokenKey p := by
  have hne : E.tokenProgram ≠ E.token2022Program := by
    have := E.programs_nodup
    simp_all
  unfold loadTokenProgram
  cases p with
  | token =>
    by_cases h : k = E.tokenProgram
    · simp [h, Env.tokenKey]
    · by_cases h' : k = E.token2022Program <;> simp [h, h', Env.tokenKey, hne.symm]
  | token2022 =>
    by_cases h : k = E.tokenProgram
    · simp [h, Env.tokenKey, hne]
    · by_cases h' : k = E.token2022Program <;> simp [h, h', Env.tokenKey]
      exact hne.symm

end SafeNudge
