import SafeNudge.Instructions.Membership
import SafeNudge.Instructions.Settlement

/-!
# Errors that are not the program's own

The account checks, the System Program and the token programs never fail with a `SafeNudgeError`.
With these lemmas a statement that an instruction does not fail with a given `SafeNudgeError` is
one about the few `require!`s that name it.
-/

namespace SafeNudge

open Lib

variable {K : Type} [DecidableEq K] {E : Env K} {ctx : Ctx K} {s : State K} {e : SafeNudgeError}

@[simp] theorem requireSigner_ne {k : K} :
    requireSigner E ctx k = .error (.safeNudge e) ↔ False := by
  simp [requireSigner]

@[simp] theorem optionalSigner_ne {k : K} :
    optionalSigner E ctx k = .error (.safeNudge e) ↔ False := by
  unfold optionalSigner
  split <;> simp

@[simp] theorem loadAs_ne {α : Type} {owned : K → Bool} {read : Account K → Option α} {k : K} :
    loadAs E owned read s k = .error (.safeNudge e) ↔ False := by
  unfold loadAs
  split
  · simp
  · dsimp only
    split <;> [skip; split] <;> simp

@[simp] theorem loadGroupConfig_ne {k : K} :
    loadGroupConfig E s k = .error (.safeNudge e) ↔ False := loadAs_ne

@[simp] theorem loadMemberRecord_ne {k : K} :
    loadMemberRecord E s k = .error (.safeNudge e) ↔ False := loadAs_ne

@[simp] theorem loadJoinGate_ne {k : K} :
    loadJoinGate E s k = .error (.safeNudge e) ↔ False := loadAs_ne

@[simp] theorem loadJoinTally_ne {k : K} :
    loadJoinTally E s k = .error (.safeNudge e) ↔ False := loadAs_ne

@[simp] theorem loadTokenAccount_ne {k : K} :
    loadTokenAccount E s k = .error (.safeNudge e) ↔ False := loadAs_ne

@[simp] theorem loadMint_ne {k : K} : loadMint E s k = .error (.safeNudge e) ↔ False := loadAs_ne

@[simp] theorem loadTokenProgram_ne {k : K} :
    loadTokenProgram E k = .error (.safeNudge e) ↔ False := by
  unfold loadTokenProgram
  split <;> [skip; split] <;> simp

@[simp] theorem requireSeeds_ne {seeds : Seeds K} {bump : UInt8} {k : K} :
    requireSeeds E seeds bump k = .error (.safeNudge e) ↔ False := by
  simp [requireSeeds]

@[simp] theorem requireCanonical_ne {seeds : Seeds K} {k : K} :
    requireCanonical E seeds k = .error (.safeNudge e) ↔ False := by
  unfold requireCanonical
  split <;> [split; skip] <;> simp

@[simp] theorem initAccount_ne {payer k : K} {space : Nat} {a : Account K} :
    initAccount ctx payer k space a s = .error (.safeNudge e) ↔ False := by
  simp [initAccount, bind_eq_error]

@[simp] theorem initTallyIfNeeded_ne {payer k : K} :
    initTallyIfNeeded E ctx payer k s = .error (.safeNudge e) ↔ False := by
  unfold initTallyIfNeeded
  split <;> simp [bind_eq_error]

@[simp] theorem transferChecked_ne {p : TokenProgram} {src mint dst authority : K} {n : UInt64}
    {d : UInt8} : transferChecked E ctx p src mint dst authority n d s = .error (.safeNudge e) ↔
      False := by
  simp [transferChecked, bind_eq_error]

@[simp] theorem burnChecked_ne {p : TokenProgram} {account mint authority : K} {n : UInt64}
    {d : UInt8} : burnChecked E ctx p account mint authority n d s = .error (.safeNudge e) ↔
      False := by
  simp [burnChecked, bind_eq_error]

@[simp] theorem closeAccount_ne {p : TokenProgram} {account destination authority : K} :
    closeAccount E ctx p account destination authority s = .error (.safeNudge e) ↔ False := by
  simp [closeAccount, bind_eq_error]

end SafeNudge
