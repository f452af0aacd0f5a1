import SafeNudge.Lib.Calendar
import SafeNudge.Watchdog.Decode

/-!
# The unsettled-groups check

`ops/watchdog/core.ts`: the period table, `cycleEnd` and `evaluateGroups`, and the check of
`ops/watchdog/watchdog.ts` on the accounts its filters gave. A `bigint` is an `Int`, and its
division truncates.
-/

namespace SafeNudge.Watchdog

open Lib

inductive Severity where
  | critical
  | error
  deriving DecidableEq, Repr

structure Finding where
  key : String
  severity : Severity
  text : String
  deriving DecidableEq

inductive Cluster where
  | devnet
  | mainnet
  deriving DecidableEq, Repr

def Cluster.name : Cluster → String
  | .devnet => "devnet"
  | .mainnet => "mainnet"

def DAY : Int := 86400

/-- Period lengths by `frequency` code. -/
def PERIOD_SECS : Cluster → List (Nat × Int)
  | .mainnet => [(0, 7 * DAY), (1, 14 * DAY), (2, 30 * DAY)]
  | .devnet => [(0, 7 * DAY), (1, 14 * DAY), (2, 30 * DAY), (3, 300)]

/-- `GroupConfig::cycle_end()`; none when the frequency is unknown for the cluster. -/
def cycleEnd (group : Group) (cluster : Cluster) : Option Int := do
  let period ← (PERIOD_SECS cluster).lookup group.frequency
  return group.cycleStart + group.totalPeriods * period

/-! ## Texts -/

/-- `s.replace(/c/g, by)`. -/
def replaceAll (s : String) (c : Char) (by_ : String) : String :=
  String.ofList (s.toList.flatMap fun d => if d = c then by_.toList else [d])

def escapeHtml (s : String) : String :=
  replaceAll (replaceAll (replaceAll s '&' "&amp;") '<' "&lt;") '>' "&gt;"

/-- `Number(secs) * 1000` is exact in the range of a `Date`, and beyond it stays beyond. -/
def isoFromSecs (secs : Int) : Except Failure String := do
  let date ← orThrow (Date.ofSecs? secs) .rangeError
  return date.toISOString

/-! ## Findings -/

def unsettledKey (address : String) : String := "unsettled:" ++ address

theorem unsettledKey_inj {address address' : String}
    (h : unsettledKey address = unsettledKey address') : address = address' :=
  (String.append_right_inj _).1 h

/-- The finding about one group, if there is one. -/
def evaluateGroup (group : Group) (nowSecs graceSecs : Int) (cluster : Cluster) :
    Except Failure (Option Finding) := do
  if group.status ≠ STATUS_ACTIVE then return none
  let key := unsettledKey group.address
  let label := "Group <code>" ++ escapeHtml group.code ++ "</code> (" ++ group.address ++ ")"
  match cycleEnd group cluster with
  | none =>
    return some
      { key
        severity := .error
        text := label ++ " has frequency " ++ toString group.frequency ++ ", unknown on " ++
          cluster.name ++ "; cannot compute its cycle end." }
  | some cycleEnd =>
    let overdue := nowSecs - cycleEnd
    if overdue ≤ graceSecs then return none
    let ended ← isoFromSecs cycleEnd
    return some
      { key
        severity := .error
        text := label ++ " is Active " ++ toString (overdue.tdiv 3600) ++
          " h after its cycle ended (" ++ ended ++ "). Nobody ran distribute." }

/-- Findings for Active groups whose cycle ended more than `graceSecs` before `nowSecs`. -/
def evaluateGroups : List Group → Int → Int → Cluster → Except Failure (List Finding)
  | [], _, _, _ => return []
  | group :: groups, nowSecs, graceSecs, cluster => do
    let finding ← evaluateGroup group nowSecs graceSecs cluster
    let findings ← evaluateGroups groups nowSecs graceSecs cluster
    return finding.toList ++ findings

/-- `unsettled-groups`, on the addresses and the data of the accounts found. -/
def unsettledGroups (accounts : List (String × List UInt8)) (nowSecs graceSecs : Int)
    (cluster : Cluster) : Except Failure (List Finding) := do
  let groups ← accounts.mapM fun (pubkey, data) => decodeGroup pubkey data
  evaluateGroups groups nowSecs graceSecs cluster

end SafeNudge.Watchdog
