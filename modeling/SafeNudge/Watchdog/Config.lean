import SafeNudge.Watchdog.Main

/-!
# A run with an invalid configuration

`ops/watchdog/config.ts`: `configAlert`, and `reportInvalidConfig` of `ops/watchdog/watchdog.ts`,
which sends the alert and keeps a marker of the last one in a file beside the state file. The errors
of the configuration, and what Telegram and the file system answer, are inputs of the run.
-/

namespace SafeNudge.Watchdog

open Lib

/-- The Telegram text for an invalid config. -/
def configText (errors : List String) : String :=
  "🔴 watchdog config invalid: " ++ escapeHtml ("; ".intercalate errors)

/-- The marker to store after sending a text. -/
def configMarker (text : String) (now : Date) : String :=
  String.ofList (now.toISOString.toList.take 10) ++ " " ++ text

/-- Telegram text for an invalid config and the marker to store after sending it, or none when
`lastMarker` shows the same text already went out on this UTC day. -/
def configAlert (errors : List String) (lastMarker : Option String) (now : Date) :
    Option (String × String) :=
  let text := configText errors
  let marker := configMarker text now
  if some marker = lastMarker then none else some (text, marker)

/-- The inputs of a run. -/
structure ConfigRun where
  errors : List String
  now : Date
  /-- `TELEGRAM_BOT_TOKEN` and `TELEGRAM_CHAT_ID` are set. -/
  telegram : Bool
  dryRun : Bool
  send : Sent
  /-- The marker file was written. -/
  write : Bool

/-- The text a run delivers, and the content of the marker file after it; the exit code is 2. -/
def reportInvalidConfig (marker : Option String) (r : ConfigRun) : Option String × Option String :=
  if !r.telegram || r.dryRun then (none, marker)
  else
    match configAlert r.errors marker r.now with
    | none => (none, marker)
    | some (text, newMarker) =>
      match r.send with
      | .ok => (some text, if r.write then some newMarker else marker)
      | .failed delivered => (if delivered then some text else none, marker)

end SafeNudge.Watchdog
