import SafeNudge.Lib.Guard
import SafeNudge.Lib.Checked
import SafeNudge.Lib.Codec
import SafeNudge.Model.Env
import SafeNudge.Model.Seeds
import SafeNudge.Model.Errors
import SafeNudge.Model.State
import SafeNudge.Model.Symbolic
import SafeNudge.Model.GroupConfig
import SafeNudge.Model.Anchor
import SafeNudge.Model.Token
import SafeNudge.Model.Events
import SafeNudge.Instructions.Lifecycle
import SafeNudge.Instructions.Membership
import SafeNudge.Instructions.Settlement
import SafeNudge.Instructions.Closing
import SafeNudge.Lib.History
import SafeNudge.Lib.Json
import SafeNudge.Lib.Lockstep
import SafeNudge.Lib.Markup
import SafeNudge.Lib.Radix
import SafeNudge.Lib.Custody
import SafeNudge.Lib.Balance
import SafeNudge.Lib.Bytes
import SafeNudge.Lib.Calendar
import SafeNudge.Lib.Flags
import SafeNudge.Lib.Record
import SafeNudge.Lib.Simulation
import SafeNudge.Lib.Split
import SafeNudge.Lib.Stretch
import SafeNudge.Lib.Utf8
import SafeNudge.Model.Serialize
import SafeNudge.Model.Deserialize
import SafeNudge.Model.Ledger
import SafeNudge.Model.Run
import SafeNudge.Model.Storage
import SafeNudge.Effect.Token
import SafeNudge.Effect.Lifecycle
import SafeNudge.Effect.Membership
import SafeNudge.Effect.Closing
import SafeNudge.Effect.Payout
import SafeNudge.Effect.Refusal
import SafeNudge.Effect.Settlement
import SafeNudge.Invariant.Layout
import SafeNudge.Invariant.Custody
import SafeNudge.Invariant.Open
import SafeNudge.Invariant.Run
import SafeNudge.Invariant.Settled
import SafeNudge.Invariant.Trace
import SafeNudge.Invariant.Flow
import SafeNudge.Invariant.Rent
import SafeNudge.Invariant.Others
import SafeNudge.Twin.State
import SafeNudge.Twin.Instructions
import SafeNudge.Watchdog.Decode
import SafeNudge.Watchdog.Evaluate
import SafeNudge.Watchdog.Step
import SafeNudge.Watchdog.Rounds
import SafeNudge.Watchdog.Main
import SafeNudge.Watchdog.Checks
import SafeNudge.Watchdog.Config
import SafeNudge.Watchdog.Redact
import SafeNudge.Watchdog.StateFile
import SafeNudge.Property.AccountData
import SafeNudge.Property.Addresses
import SafeNudge.Property.Admission
import SafeNudge.Property.Alerts
import SafeNudge.Property.ChainAlarms
import SafeNudge.Property.Chunks
import SafeNudge.Property.ConfigAlerts
import SafeNudge.Property.Decoding
import SafeNudge.Property.Delivery
import SafeNudge.Property.Display
import SafeNudge.Property.EventLog
import SafeNudge.Property.Gate
import SafeNudge.Property.Isolation
import SafeNudge.Property.Lifecycle
import SafeNudge.Property.Listing
import SafeNudge.Property.Liveness
import SafeNudge.Property.MemberLedger
import SafeNudge.Property.Period
import SafeNudge.Property.Redaction
import SafeNudge.Property.Rent
import SafeNudge.Property.RentExempt
import SafeNudge.Property.Replica
import SafeNudge.Property.Retention
import SafeNudge.Property.Reuse
import SafeNudge.Property.Settlement
import SafeNudge.Property.Principal
import SafeNudge.Property.Solvency
import SafeNudge.Property.StateFile
import SafeNudge.Property.Storage
import SafeNudge.Property.Tally
import SafeNudge.Property.Terms
import SafeNudge.Property.Tokens
import SafeNudge.Property.Truncation
import SafeNudge.Property.Unsettled
import SafeNudge.Property.Watch
import SafeNudge.Property.WindUp
