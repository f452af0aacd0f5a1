import SafeNudge.Lib.Record
import SafeNudge.Watchdog.Evaluate

/-!
# The watchdog's state and its step

`ops/watchdog/core.ts`: the state between two runs, and `step`, which takes the results of the
checks of a run to the messages to send and the next state. A message is kept apart from its text,
so that it can be told which key it is about.
-/

namespace SafeNudge.Watchdog

open Lib

inductive CheckResult where
  | findings (check : String) (findings : List Finding)
  | error (check : String) (error : String)
  deriving DecidableEq

def CheckResult.check : CheckResult → String
  | .findings check _ => check
  | .error check _ => check

structure OpenFinding extends Finding where
  check : String
  since : String
  deriving DecidableEq

structure State where
  /-- `open`, by key. -/
  openFindings : Record OpenFinding
  lastHeartbeatDay : Option String
  /-- Consecutive failed runs per check; a check with no entry passed its last run. -/
  failures : Record Nat

def EMPTY_STATE : State where
  openFindings := .empty
  lastHeartbeatDay := none
  failures := .empty

/-- Result that opens `state-reset` for the run that replaced an unreadable state file. -/
def STATE_RESET_RESULT : CheckResult :=
  .findings "state"
    [{ key := "state-reset"
       severity := .error
       text := "The state file was unreadable and was reset. Open findings and failure counts from earlier runs are lost." }]

/-! ## Messages -/

inductive Message where
  | opened (key : String) (severity : Severity) (text : String)
  | resolved (key : String)
  | heartbeat (today : String) (keys : List String)
  deriving DecidableEq

def Severity.name : Severity → String
  | .critical => "critical"
  | .error => "error"

def ICON : Severity → String
  | .critical => "🚨"
  | .error => "🔴"

/-- What is sent. -/
def Message.text : Message → String
  | .opened key severity text =>
    ICON severity ++ " <b>" ++ key ++ "</b> · " ++ severity.name ++ "\n" ++ text
  | .resolved key => "✓ resolved: <b>" ++ key ++ "</b>"
  | .heartbeat today [] => "💚 SafeNudge watchdog " ++ today ++ ": all checks passed."
  | .heartbeat today keys =>
    "🟠 SafeNudge watchdog " ++ today ++ ": " ++ toString keys.length ++ " open finding(s):\n" ++
      "\n".intercalate (keys.map fun k => "• " ++ k)

/-! ## One run -/

def rpcKey (check : String) : String := "rpc:" ++ check

/-- A finding of this run. One that was open keeps its `since`. -/
def asOpen (prev : State) (nowIso check : String) (f : Finding) : OpenFinding :=
  { f with check, since := ((prev.openFindings.get? f.key).map OpenFinding.since).getD nowIso }

/-- Opens the findings of a check. -/
def openAll (prev : State) (nowIso check : String) (findings : List Finding)
    (opened : Record OpenFinding) : Record OpenFinding :=
  findings.foldl (fun o f => o.set f.key (asOpen prev nowIso check f)) opened

/-- Keeps the open findings of a check whose result is unknown. -/
def keepOpen (prev : State) (check : String) (opened : Record OpenFinding) : Record OpenFinding :=
  prev.openFindings.entries.foldl (fun o e => if e.2.check = check then o.set e.1 e.2 else o) opened

/-- The finding of a check that failed `failed` runs in a row. -/
def rpcFindings (check error : String) (failed failuresBeforeAlert : Nat) : List Finding :=
  if failed < failuresBeforeAlert then []
  else
    [{ key := rpcKey check
       severity := .error
       text := "Check " ++ check ++ " failed: " ++ escapeHtml error }]

/-- One round of the loop over the results, on the new `open` and `failures`. -/
def applyResult (prev : State) (nowIso : String) (failuresBeforeAlert : Nat)
    (acc : Record OpenFinding × Record Nat) : CheckResult → Record OpenFinding × Record Nat
  | .error check error =>
    let failed := (prev.failures.get? check).getD 0 + 1
    (openAll prev nowIso check (rpcFindings check error failed failuresBeforeAlert)
      (keepOpen prev check acc.1), acc.2.set check failed)
  | .findings check findings => (openAll prev nowIso check findings acc.1, acc.2)

/-- The messages about findings that appeared and that cleared. -/
def transitions (prev opened : Record OpenFinding) : List Message :=
  (opened.entries.filter fun e => !prev.has e.1).map
      (fun e => .opened e.1 e.2.severity e.2.text) ++
    (prev.keys.filter fun key => !opened.has key).map .resolved

/-- Next state and the messages to send for one run. A check that errored keeps its previous
findings open, because its result is unknown, and opens an `rpc:<check>` finding once it failed
`failuresBeforeAlert` runs in a row. -/
def step (prev : State) (results : List CheckResult) (now : Date) (failuresBeforeAlert : Nat) :
    List Message × State :=
  let nowIso := now.toISOString
  let today := String.ofList (nowIso.toList.take 10)
  let acc := results.foldl (applyResult prev nowIso failuresBeforeAlert) (.empty, .empty)
  let messages := transitions prev.openFindings acc.1
  let heartbeat := if prev.lastHeartbeatDay ≠ some today then [.heartbeat today acc.1.keys] else []
  (messages ++ heartbeat,
    { openFindings := acc.1, lastHeartbeatDay := some today, failures := acc.2 })

end SafeNudge.Watchdog
