import SafeNudge.Lib.Radix
import SafeNudge.Watchdog.Evaluate
import SafeNudge.Watchdog.Redact
import SafeNudge.Watchdog.Step

/-!
# The checks of a run

`CHECKS` of `ops/watchdog/watchdog.ts` with `evaluateAuthority` of `ops/watchdog/core.ts`, and the
loop of `main` that turns their findings and exceptions into results. What the checks use of
`@solana/web3.js` is a parameter; the answers of the RPC node are an input. A check also gives the
lines it prints.
-/

namespace SafeNudge.Watchdog

open Lib

variable {K : Type}

/-! ## What is not part of this repository -/

/-- `PublicKey`. -/
structure Web3 (K : Type) where
  /-- `new PublicKey(buffer)`. -/
  ofBytes : List UInt8 → K
  toBase58 : K → String

/-- Base 58 spells keys one to one in letters and digits. -/
structure Web3.Lawful (W : Web3 K) : Prop where
  toBase58_inj : ∀ {k k'}, W.toBase58 k = W.toBase58 k' → k = k'
  isAlphanum : ∀ {k c}, c ∈ (W.toBase58 k).toList → c.isAlphanum

/-- Keys as their bytes. A shorter buffer is padded in front, as the number it stands for. -/
def base58 : Web3 (Vector UInt8 32) where
  ofBytes bytes := .ofFn fun i => (.replicate (32 - bytes.length) 0 ++ bytes).getD i 0
  toBase58 k := Base58.encode k.toList

theorem base58_lawful : base58.Lawful where
  toBase58_inj h := Vector.toList_inj.1 (Base58.encode_inj h)
  isAlphanum h := Base58.isAlphanum_of_mem_encode h

structure AccountInfo (K : Type) where
  owner : K
  data : List UInt8

/-- The RPC node, and how it fails. -/
structure Connection (K : Type) where
  getAccountInfo : K → Except String (Option (AccountInfo K))
  getProgramAccounts : K → List Memcmp → Except String (List (K × List UInt8))
  /-- The message of a `RangeError`, which the runtime words. -/
  rangeError : String

/-! ## The checks -/

def Failure.message (rangeError : String) : Failure → String
  | .notGroupConfig address => address ++ " is not a GroupConfig"
  | .rangeError => rangeError
  | .notProgram => "program account is not an upgradeable Program"
  | .notProgramData => "account is not ProgramData"

/-- An exception of the watchdog's own code, as its message. -/
def thrown {α : Type} (conn : Connection K) (x : Except Failure α) : Except String α :=
  x.mapError (Failure.message conn.rangeError)

theorem thrown_eq_ok {α : Type} {conn : Connection K} {x : Except Failure α} {a : α} :
    thrown conn x = .ok a ↔ x = .ok a := by
  cases x <;> simp [thrown, Except.mapError]

def UPGRADEABLE_LOADER : String := "BPFLoaderUpgradeab1e11111111111111111111111"

/-- `show`. -/
def present : Option String → String
  | none => "none (immutable)"
  | some a => "<code>" ++ a ++ "</code>"

/-- Finding when the actual authority differs from the expected one (none = immutable). -/
def evaluateAuthority (expected actual : Option String) : List Finding :=
  if expected = actual then []
  else
    [{ key := "upgrade-authority"
       severity := .critical
       text := "Upgrade authority is " ++ present actual ++ ", expected " ++ present expected ++ "." }]

/-- The part of `upgrade-authority` that can throw: the upgrade authority of the program. -/
def upgradeAuthority (W : Web3 K) (conn : Connection K) (programId : K) :
    Except String (Option String) := do
  let program ← conn.getAccountInfo programId
  let program ← orThrow program "program account not found"
  require (W.toBase58 program.owner = UPGRADEABLE_LOADER)
    ("program is owned by " ++ W.toBase58 program.owner ++ ", not the upgradeable loader")
  let programData ← thrown conn (parseProgramAccount program.data)
  let dataAccount ← conn.getAccountInfo (W.ofBytes programData)
  let dataAccount ← orThrow dataAccount "ProgramData account not found"
  let authority ← thrown conn (parseProgramDataAuthority dataAccount.data)
  return authority.map fun bytes => W.toBase58 (W.ofBytes bytes)

/-- The groups that `unsettled-groups` looks at. -/
def activeGroups (W : Web3 K) (conn : Connection K) (programId : K) :
    Except String (List Group) := do
  let accounts ← conn.getProgramAccounts programId unsettledGroupsFilters
  thrown conn (accounts.mapM fun (pubkey, data) => decodeGroup (W.toBase58 pubkey) data)

/-- What the checks use of the configuration. -/
structure CheckConfig (K : Type) where
  programId : K
  expectedAuthority : Option String
  cluster : Cluster
  graceSecs : Int

/-- A check: the lines it prints, and its findings or what it throws. -/
abbrev Check (K : Type) := Connection K → CheckConfig K → Int → List String × Except String (List Finding)

def checkUpgradeAuthority (W : Web3 K) : Check K := fun conn config _ =>
  match upgradeAuthority W conn config.programId with
  | .error e => ([], .error e)
  | .ok actual =>
    (["upgrade-authority: " ++
        (if actual = config.expectedAuthority then "matches" else "DIFFERS from") ++ " expected"],
      .ok (evaluateAuthority config.expectedAuthority actual))

def checkUnsettledGroups (W : Web3 K) : Check K := fun conn config nowSecs =>
  match activeGroups W conn config.programId with
  | .error e => ([], .error e)
  | .ok groups =>
    (["unsettled-groups: " ++ toString groups.length ++ " Active group(s) checked"],
      thrown conn (evaluateGroups groups nowSecs config.graceSecs config.cluster))

section
variable {W : Web3 K} {conn : Connection K} {config : CheckConfig K} {nowSecs : Int}
  {findings : List Finding}

theorem checkUpgradeAuthority_eq_ok : (checkUpgradeAuthority W conn config nowSecs).2 = .ok findings ↔
    ∃ actual, upgradeAuthority W conn config.programId = .ok actual ∧
      findings = evaluateAuthority config.expectedAuthority actual := by
  unfold checkUpgradeAuthority
  rcases upgradeAuthority W conn config.programId with e | actual
  · simp
  · simp [eq_comm]

theorem checkUnsettledGroups_eq_ok : (checkUnsettledGroups W conn config nowSecs).2 = .ok findings ↔
    ∃ groups, activeGroups W conn config.programId = .ok groups ∧
      evaluateGroups groups nowSecs config.graceSecs config.cluster = .ok findings := by
  unfold checkUnsettledGroups
  rcases activeGroups W conn config.programId with e | groups
  · simp
  · simp [thrown_eq_ok]

end

def CHECKS (W : Web3 K) : List (String × Check K) :=
  [("upgrade-authority", checkUpgradeAuthority W), ("unsettled-groups", checkUnsettledGroups W)]

/-! ## The loop over the checks -/

/-- The UTF-16 code units of a text. -/
def utf16 (s : String) : Text := s.toList.flatMap fun c =>
  if c.toNat < 0x10000 then [.ofNat c.toNat]
  else [.ofNat (0xD800 + (c.toNat - 0x10000) / 0x400), .ofNat (0xDC00 + (c.toNat - 0x10000) % 0x400)]

/-- The text of UTF-16 code units; half of a surrogate pair is shown as U+FFFD. -/
def ofUtf16 : Text → List Char
  | [] => []
  | [u] => [if 0xD800 ≤ u ∧ u < 0xE000 then '\uFFFD' else .ofNat u.toNat]
  | u :: v :: text =>
    if 0xD800 ≤ u ∧ u < 0xDC00 ∧ 0xDC00 ≤ v ∧ v < 0xE000 then
      .ofNat (0x10000 + (u.toNat - 0xD800) * 0x400 + (v.toNat - 0xDC00)) :: ofUtf16 text
    else (if 0xD800 ≤ u ∧ u < 0xE000 then '\uFFFD' else .ofNat u.toNat) :: ofUtf16 (v :: text)

/-- `redact` on a text of whole characters. -/
def redacted (text : String) (secrets : List String) : String :=
  .ofList (ofUtf16 (redact (utf16 text) (secrets.map utf16)))

/-- A round of the loop: the lines printed and the result. -/
def runCheck (conn : Connection K) (config : CheckConfig K) (nowSecs : Int) (secrets : List String) :
    String × Check K → List String × CheckResult
  | (check, run) =>
    match run conn config nowSecs with
    | (lines, .ok findings) => (lines, .findings check findings)
    | (lines, .error e) =>
      let error := redacted e secrets
      (lines ++ [check ++ ": " ++ error], .error check error)

theorem runCheck_cases (conn : Connection K) (config : CheckConfig K) (nowSecs : Int)
    (secrets : List String) (check : String) (run : Check K) :
    (∃ findings, (run conn config nowSecs).2 = .ok findings ∧
      (runCheck conn config nowSecs secrets (check, run)).2 = .findings check findings) ∨
    ∃ e, (run conn config nowSecs).2 = .error e ∧
      (runCheck conn config nowSecs secrets (check, run)).2 =
        .error check (redacted e secrets) := by
  rcases hrun : run conn config nowSecs with ⟨lines, e | findings⟩
  · exact .inr ⟨e, rfl, by simp only [runCheck, hrun]⟩
  · exact .inl ⟨findings, rfl, by simp only [runCheck, hrun]⟩

/-- The loop: everything printed, and the results. -/
def runChecks (W : Web3 K) (conn : Connection K) (config : CheckConfig K) (nowSecs : Int)
    (secrets : List String) : List String × List CheckResult :=
  let rounds := (CHECKS W).map (runCheck conn config nowSecs secrets)
  (rounds.flatMap Prod.fst, rounds.map Prod.snd)

end SafeNudge.Watchdog
