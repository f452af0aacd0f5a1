import SafeNudge.Watchdog.Step

/-!
# A run of the watchdog outside dry-run mode

`ops/watchdog/watchdog.ts` from the results of the checks on: reading the state file, `step`,
sending the messages in chunks and replacing the file. What Telegram and the file system answer is
an input of the run (`Answers`). A message that left the host may have arrived although the answer
was an error.
-/

namespace SafeNudge.Watchdog

open Lib

/-- What the state file holds for `readState`. -/
inductive StateFile where
  | missing
  /-- `parseState` resets it. -/
  | unreadable
  | state (s : State)

/-- The state before the run, and whether it was reset. -/
def readState : StateFile → State × Bool
  | .missing => (EMPTY_STATE, false)
  | .unreadable => (EMPTY_STATE, true)
  | .state s => (s, false)

/-! ## Chunks -/

def TELEGRAM_MAX_CHARS : Nat := 4000

/-- `s.length`, in UTF-16 code units. -/
def utf16Length (s : String) : Nat := (s.toList.map fun c => if c.toNat < 0x10000 then 1 else 2).sum

/-- The loop of `chunk`, with the chunk it is building. -/
def chunkLoop (current : String) : List String → List String
  | [] => if current ≠ "" then [current] else []
  | m :: messages =>
    if current ≠ "" ∧ TELEGRAM_MAX_CHARS < utf16Length current + 2 + utf16Length m then
      current :: chunkLoop m messages
    else chunkLoop (if current ≠ "" then current ++ "\n\n" ++ m else m) messages

/-- Joins messages into Telegram-sized chunks. -/
def chunk (messages : List String) : List String := chunkLoop "" messages

/-- The text of some messages in one chunk. -/
def joined (messages : List Message) : String := "\n\n".intercalate (messages.map Message.text)

/-- `chunkLoop`, with the messages of a chunk kept apart. -/
def groupLoop (current : List Message) : List Message → List (List Message)
  | [] => if current ≠ [] then [current] else []
  | m :: messages =>
    if current ≠ [] ∧ TELEGRAM_MAX_CHARS < utf16Length (joined current) + 2 + utf16Length m.text then
      current :: groupLoop [m] messages
    else groupLoop (current ++ [m]) messages

/-- The messages of each chunk. -/
def chunkMessages (messages : List Message) : List (List Message) := groupLoop [] messages

/-! ## Sending -/

/-- The answer to one `sendTelegram`. -/
inductive Sent where
  | ok
  | failed (delivered : Bool)
  deriving DecidableEq

structure Answers where
  /-- To the request for the chunk at this position. -/
  send : Nat → Sent
  /-- The state file was replaced. -/
  write : Bool

/-- Sends chunks until one fails: what was delivered, and whether all requests succeeded. -/
def sendAll (send : Nat → Sent) : Nat → List (List Message) → List Message × Bool
  | _, [] => ([], true)
  | i, c :: chunks =>
    match send i with
    | .ok =>
      let (delivered, ok) := sendAll send (i + 1) chunks
      (c ++ delivered, ok)
    | .failed delivered => (if delivered then c else [], false)

/-! ## `main` -/

/-- The inputs of a run. -/
structure MainRun where
  results : List CheckResult
  now : Date
  failuresBeforeAlert : Nat
  answers : Answers

structure MainResult where
  delivered : List Message
  file : StateFile
  exitCode : Nat

/-- The messages of a run and the state it is to store. -/
def MainRun.step (r : MainRun) (file : StateFile) : List Message × State :=
  let (prev, reset) := readState file
  let results := if reset then r.results ++ [STATE_RESET_RESULT] else r.results
  Watchdog.step prev results r.now r.failuresBeforeAlert

def CheckResult.isError : CheckResult → Bool
  | .error _ _ => true
  | .findings _ _ => false

def main (file : StateFile) (r : MainRun) : MainResult :=
  let failed := r.results.any CheckResult.isError
  let (messages, next) := r.step file
  let (delivered, ok) := sendAll r.answers.send 0 (chunkMessages messages)
  if ok ∧ r.answers.write then
    { delivered, file := .state next, exitCode := if failed then 1 else 0 }
  else { delivered, file, exitCode := 2 }

end SafeNudge.Watchdog
