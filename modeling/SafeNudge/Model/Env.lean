import Mathlib.Algebra.Order.Ring.Int
import Mathlib.Tactic.Common

/-!
# The runtime the program is deployed to

Keys are an abstract type `K`. `Env K` collects what the program takes from its environment: the
program ids, the `devnet` build feature, and the derivation of program addresses. Two facts of the
runtime are laws of the structure: a derivation has no collisions (`createProgramAddress_inj`; the
hash is collision free and the seed bytes of the five families never coincide), and nobody signs
for an address derived from this program's id (`createProgramAddress_canSign`; the program itself
never signs for one towards its own instructions).
-/

namespace SafeNudge

/-- The seeds this program derives addresses from: `["group", code]`, `["vault", group]`,
`["member", group, member]`, `["join", group]` and `["tally", group, member]`. -/
inductive Seeds (K : Type) where
  | group (code : String)
  | vault (group : K)
  | member (group member : K)
  | join (group : K)
  | tally (group member : K)
  deriving DecidableEq, Repr

/-- The group an account at `k` with these seeds belongs to. -/
def Seeds.groupAt {K : Type} (k : K) : Seeds K → K
  | .group _ => k
  | .vault G => G
  | .member G _ => G
  | .join G => G
  | .tally G _ => G

structure Env (K : Type) where
  /-- `crate::ID`. -/
  programId : K
  /-- The System Program; its id is `Pubkey::default()`. -/
  systemProgram : K
  tokenProgram : K
  token2022Program : K
  /-- Native mints of the two token programs. -/
  nativeMint : K
  nativeMint2022 : K
  instructionsSysvar : K
  /-- The cargo feature `devnet`. -/
  devnet : Bool
  /-- Associated token address of a wallet for a token program and a mint. -/
  associatedTokenAddress : K → K → K → K
  /-- `Pubkey::create_program_address` for this program: `none` for a point on the curve. -/
  createProgramAddress : Seeds K → UInt8 → Option K
  /-- Keys whose signature a transaction can carry. -/
  canSign : K → Bool
  programs_nodup : [programId, systemProgram, tokenProgram, token2022Program].Nodup
  createProgramAddress_inj : ∀ {s s' : Seeds K} {b b' : UInt8} {k : K},
    createProgramAddress s b = some k → createProgramAddress s' b' = some k → s = s' ∧ b = b'
  createProgramAddress_canSign : ∀ {s : Seeds K} {b : UInt8} {k : K},
    createProgramAddress s b = some k → canSign k = false

namespace Env

variable {K : Type} (E : Env K)

/-- `Pubkey::find_program_address`: the first bump from 255 down to 1 that gives an address. -/
def findProgramAddress (s : Seeds K) : Option (K × UInt8) :=
  (List.range 255).findSome? fun i =>
    (E.createProgramAddress s (UInt8.ofNat (255 - i))).map (·, UInt8.ofNat (255 - i))

variable {E}

theorem findProgramAddress_create {s : Seeds K} {k : K} {b : UInt8}
    (h : E.findProgramAddress s = some (k, b)) : E.createProgramAddress s b = some k := by
  obtain ⟨i, -, hi⟩ := List.exists_of_findSome?_eq_some h
  simp only [Option.map_eq_some_iff, Prod.mk.injEq] at hi
  obtain ⟨k', hk, rfl, rfl⟩ := hi
  exact hk

/-- A canonical address determines its seeds. -/
theorem findProgramAddress_inj {s s' : Seeds K} {k : K} {b b' : UInt8}
    (h : E.findProgramAddress s = some (k, b)) (h' : E.findProgramAddress s' = some (k, b')) :
    s = s' :=
  (E.createProgramAddress_inj (findProgramAddress_create h) (findProgramAddress_create h')).1

theorem findProgramAddress_canSign {s : Seeds K} {k : K} {b : UInt8}
    (h : E.findProgramAddress s = some (k, b)) : E.canSign k = false :=
  E.createProgramAddress_canSign (findProgramAddress_create h)

/-- Distinct seeds have distinct addresses. -/
theorem address_ne {s s' : Seeds K} {k k' : K} {b b' : UInt8}
    (h : E.createProgramAddress s b = some k) (h' : E.createProgramAddress s' b' = some k')
    (hne : s ≠ s') : k ≠ k' := by
  rintro rfl
  exact hne (E.createProgramAddress_inj h h').1

/-- An address derived from this program is not a key that signs. -/
theorem ne_of_canSign {s : Seeds K} {b : UInt8} {k k' : K}
    (h : E.createProgramAddress s b = some k) (h' : E.canSign k' = true) : k' ≠ k := by
  rintro rfl
  rw [E.createProgramAddress_canSign h] at h'
  cases h'

theorem programId_ne_system : E.programId ≠ E.systemProgram := by
  have := E.programs_nodup
  simp_all

end Env

/-! ## Transactions -/

/-- The rent rate: lamports for each byte an account keeps, header included. -/
structure Rent where
  lamportsPerByte : Nat
  pos : 0 < lamportsPerByte

/-- `Rent::minimum_balance`: the rent-exempt minimum of an account of `len` data bytes. -/
def Rent.minimumBalance (r : Rent) (len : Nat) : Nat := (128 + len) * r.lamportsPerByte

theorem Rent.minimumBalance_pos (r : Rent) (len : Nat) : 0 < r.minimumBalance len :=
  Nat.mul_pos (by omega) r.pos

/-- The first instruction of a transaction, as the instructions sysvar shows it. -/
structure FirstInstruction (K : Type) where
  programId : K
  data : List UInt8

/-- A call this program makes to a token program. -/
inductive TokenCall (K : Type) where
  | initializeAccount (program account mint owner : K)
  | transferChecked (program src mint dst authority : K) (amount : UInt64)
  | burnChecked (program account mint authority : K) (amount : UInt64)
  | closeAccount (program account destination authority : K)
  deriving DecidableEq

/-- What an instruction reads besides the accounts: who signed, the clock and rent sysvars, the
first instruction of the transaction, and the token-program calls that are turned down for a
reason outside the model (a frozen account, a required memo, an account passed read-only). -/
structure Ctx (K : Type) where
  signers : List K
  unixTimestamp : Int64
  rent : Rent
  firstInstruction : FirstInstruction K
  refuses : TokenCall K → Bool

end SafeNudge
