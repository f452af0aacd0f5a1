import SafeNudge.Lib.Guard
import SafeNudge.Lib.Checked
import SafeNudge.Model.Errors
import SafeNudge.Model.State

/-!
# Group terms, cycle timing and supported mints

`state/group_config.rs` and `state/supported_mint.rs`.
-/

namespace SafeNudge

open Lib

variable {K : Type}

def GroupConfig.terms (g : GroupConfig K) : GroupTerms K where
  creator := g.creator
  depositAmount := g.depositAmount
  frequency := g.frequency
  totalPeriods := g.totalPeriods

/-- Highest accepted `frequency` code. -/
def MAX_FREQUENCY (E : Env K) : UInt8 := if E.devnet then 3 else 2

def DAY : Int64 := 86400

/-- Seconds in one deposit period, by `frequency` code. Code 3 exists only in devnet builds. -/
def periodDurationSecs (E : Env K) (frequency : UInt8) : Result Int64 :=
  if frequency = 0 then orThrow (checkedMulI64 7 DAY) (.safeNudge .arithmeticOverflow)
  else if frequency = 1 then orThrow (checkedMulI64 14 DAY) (.safeNudge .arithmeticOverflow)
  else if frequency = 2 then orThrow (checkedMulI64 30 DAY) (.safeNudge .arithmeticOverflow)
  else if frequency = 3 ∧ E.devnet then .ok 300
  else .error (.safeNudge .invalidFrequency)

/-- First unix timestamp after the last deposit period of the cycle. -/
def GroupConfig.cycleEnd (E : Env K) (g : GroupConfig K) : Result Int64 := do
  let period ← periodDurationSecs E g.frequency
  let cycleDuration ←
    orThrow (checkedMulI64 (.ofInt g.totalPeriods.toNat) period) (.safeNudge .arithmeticOverflow)
  orThrow (checkedAddI64 g.cycleStart cycleDuration) (.safeNudge .arithmeticOverflow)

theorem periodDurationSecs_eq_ok {E : Env K} {frequency : UInt8} {d : Int64} :
    periodDurationSecs E frequency = .ok d ↔ (frequency = 0 ∧ d = 604800) ∨
      (frequency = 1 ∧ d = 1209600) ∨ (frequency = 2 ∧ d = 2592000) ∨
      (frequency = 3 ∧ E.devnet = true ∧ d = 300) := by
  have h7 : checkedMulI64 7 DAY = some 604800 := by decide
  have h14 : checkedMulI64 14 DAY = some 1209600 := by decide
  have h30 : checkedMulI64 30 DAY = some 2592000 := by decide
  unfold periodDurationSecs
  rw [h7, h14, h30]
  constructor
  · intro h
    split at h
    · exact .inl ⟨‹_›, (Except.ok.inj h).symm⟩
    split at h
    · exact .inr (.inl ⟨‹_›, (Except.ok.inj h).symm⟩)
    split at h
    · exact .inr (.inr (.inl ⟨‹_›, (Except.ok.inj h).symm⟩))
    split at h
    · rename_i h3
      exact .inr (.inr (.inr ⟨h3.1, h3.2, (Except.ok.inj h).symm⟩))
    · cases h
  · rintro (⟨rfl, rfl⟩ | ⟨rfl, rfl⟩ | ⟨rfl, rfl⟩ | ⟨rfl, hdev, rfl⟩)
    · rw [if_pos rfl, orThrow_some]
    · rw [if_neg (by decide), if_pos rfl, orThrow_some]
    · rw [if_neg (by decide), if_neg (by decide), if_pos rfl, orThrow_some]
    · rw [if_neg (by decide), if_neg (by decide), if_neg (by decide), if_pos ⟨rfl, hdev⟩]

/-- A period is between five minutes and 30 days long. -/
theorem periodDurationSecs_range {E : Env K} {frequency : UInt8} {d : Int64}
    (h : periodDurationSecs E frequency = .ok d) : 300 ≤ d.toInt ∧ d.toInt ≤ 2592000 := by
  rcases periodDurationSecs_eq_ok.1 h with ⟨-, rfl⟩ | ⟨-, rfl⟩ | ⟨-, rfl⟩ | ⟨-, -, rfl⟩ <;> decide

/-- The end of a cycle is its exact end. -/
theorem GroupConfig.cycleEnd_eq_ok {E : Env K} {g : GroupConfig K} {c : Int64} :
    g.cycleEnd E = .ok c ↔ ∃ d, periodDurationSecs E g.frequency = .ok d ∧
      c.toInt = g.cycleStart.toInt + g.totalPeriods.toNat * d.toInt := by
  have hn := g.totalPeriods.toNat_lt
  have hof : (Int64.ofInt g.totalPeriods.toNat).toInt = g.totalPeriods.toNat :=
    Int64.toInt_ofInt_of_le (by omega) (by omega)
  simp only [cycleEnd, bind_eq_ok, orThrow_eq_ok, checkedAddI64, checkedMulI64, toI64_eq_some_iff,
    hof]
  refine exists_congr fun d => and_congr_right fun hd => ⟨?_, fun hc => ?_⟩
  · rintro ⟨m, hm, hc⟩
    rw [hc, hm]
  · have hrange := periodDurationSecs_range hd
    have hlo : 0 ≤ (g.totalPeriods.toNat : Int) * d.toInt := Int.mul_nonneg (by omega) (by omega)
    have hhi : (g.totalPeriods.toNat : Int) * d.toInt ≤ 256 * 2592000 :=
      Int.mul_le_mul (by omega) hrange.2 (by omega) (by omega)
    obtain ⟨m, -, hm⟩ := toI64_of (n := g.totalPeriods.toNat * d.toInt) (by omega) (by omega)
    exact ⟨m, hm, by rw [hc, hm]⟩

/-- Seconds a member record stays open after its group settles. -/
def RECORD_RETENTION_SECS (E : Env K) : Int64 := if E.devnet then 300 else 2592000

/-- First unix timestamp at which the records of a group settled at `settledAt` can close. -/
def recordRetentionEnd (E : Env K) (settledAt : Int64) : Result Int64 :=
  orThrow (checkedAddI64 settledAt (RECORD_RETENTION_SECS E)) (.safeNudge .arithmeticOverflow)

/-! ## Mints -/

/-- True when every extension is on the allowlist. -/
def extensionsSupported (extensions : List ExtensionType) : Bool :=
  extensions.all fun e =>
    e == .metadataPointer || e == .tokenMetadata || e == .interestBearingConfig

/-- The extension types of a Token-2022 mint, or `none` when the data holds a type this build
does not know. -/
def token2022MintExtensions (m : Mint) : Option (List ExtensionType) := m.extensions

/-- Fails with `UnsupportedMint` for a native mint and for a Token-2022 mint outside the
extension allowlist. -/
def requireSupportedMint [DecidableEq K] (E : Env K) (key : K) (program : TokenProgram)
    (m : Mint) : Result Unit := do
  require (key ≠ E.nativeMint ∧ key ≠ E.nativeMint2022) (.safeNudge .unsupportedMint)
  match program with
  | .token => return ()
  | .token2022 =>
    let extensions ← orThrow (token2022MintExtensions m) (.safeNudge .unsupportedMint)
    require (extensionsSupported extensions = true) (.safeNudge .unsupportedMint)

end SafeNudge
