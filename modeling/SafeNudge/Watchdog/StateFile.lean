import SafeNudge.Lib.Json
import SafeNudge.Watchdog.Main

/-!
# The state file

`parseState` of `ops/watchdog/core.ts` and `writeStateAtomically` of `ops/watchdog/watchdog.ts`.
`JSON.parse` and `JSON.stringify` are parameters.
-/

namespace SafeNudge.Watchdog

open Lib

/-! ## Reading -/

def Severity.ofJson? : Json → Option Severity
  | .string "critical" => some .critical
  | .string "error" => some .error
  | _ => none

def isOpenFinding (v : Json) : Bool :=
  match v.record? with
  | none => false
  | some v =>
    ((v.get? "severity").bind Severity.ofJson?).isSome &&
      ["key", "text", "check", "since"].all fun k => ((v.get? k).bind Json.string?).isSome

/-- `v as OpenFinding`, where it is one. -/
def asOpenFinding (v : Json) : Option OpenFinding := do
  let v ← v.record?
  let key ← (v.get? "key").bind Json.string?
  let severity ← (v.get? "severity").bind Severity.ofJson?
  let text ← (v.get? "text").bind Json.string?
  let check ← (v.get? "check").bind Json.string?
  let since ← (v.get? "since").bind Json.string?
  return { key, severity, text, check, since }

/-- `Number.isInteger(v) && v > 0`. -/
def isPositiveInteger : Json → Bool
  | .number n => n.den = 1 && 0 < n
  | _ => false

/-- `v as number`, where it is a positive integer. -/
def asPositiveInteger (v : Json) : Option Nat :=
  match v with
  | .number n => if isPositiveInteger v then some n.num.toNat else none
  | _ => none

/-- `raw.open`, if every value of it is an open finding. -/
def openOf? (v : Option Json) : Option (Record OpenFinding) :=
  match v.bind Json.record? with
  | none => none
  | some opened =>
    if opened.entries.all fun e => isOpenFinding e.2 then some (opened.filterMap asOpenFinding)
    else none

/-- `raw.lastHeartbeatDay`, if it is `null` or a text. -/
def dayOf? : Option Json → Option (Option String)
  | some .null => some none
  | some (.string day) => some (some day)
  | _ => none

/-- `raw.failures ?? {}`, if every value of it is a positive integer. -/
def failuresOf? (v : Option Json) : Option (Record Nat) :=
  let failures :=
    match v with
    | none => some Record.empty
    | some .null => some Record.empty
    | some failures => failures.record?
  match failures with
  | none => none
  | some failures =>
    if failures.entries.all fun e => isPositiveInteger e.2 then
      some (failures.filterMap asPositiveInteger)
    else none

/-- The state a value is, or none for a wrongly shaped one. -/
def stateOf? (raw : Json) : Option State := do
  let raw ← raw.record?
  let openFindings ← openOf? (raw.get? "open")
  let lastHeartbeatDay ← dayOf? (raw.get? "lastHeartbeatDay")
  let failures ← failuresOf? (raw.get? "failures")
  return { openFindings, lastHeartbeatDay, failures }

/-- Parses the state file; an unreadable or wrongly shaped file gives an empty state and `reset`. -/
def parseState (parse : String → Option Json) (text : String) : State × Bool :=
  match parse text with
  | none => (EMPTY_STATE, true)
  | some raw =>
    match stateOf? raw with
    | none => (EMPTY_STATE, true)
    | some state => (state, false)

/-- What the file of this text holds; there is none before the first run. -/
def StateFile.ofText (parse : String → Option Json) : Option String → StateFile
  | none => .missing
  | some text =>
    match parseState parse text with
    | (_, true) => .unreadable
    | (s, false) => .state s

/-! ## Writing -/

def OpenFinding.toJson (f : OpenFinding) : Json :=
  .object [("key", .string f.key), ("severity", .string f.severity.name), ("text", .string f.text),
    ("check", .string f.check), ("since", .string f.since)]

def State.toJson (s : State) : Json :=
  .object [("open", .object (s.openFindings.entries.map fun e => (e.1, e.2.toJson))),
    ("lastHeartbeatDay", Json.ofString? s.lastHeartbeatDay),
    ("failures", .object (s.failures.entries.map fun e => (e.1, .number e.2)))]

/-- The text `writeStateAtomically` stores. -/
def stateText (stringify : Json → String) (s : State) : String := stringify s.toJson ++ "\n"

end SafeNudge.Watchdog
