import SafeNudge.Lib.Bytes
import SafeNudge.Lib.Guard
import SafeNudge.Lib.Utf8

/-!
# The watchdog's view of an account

`ops/watchdog/core.ts`: `decodeGroup`, `parseProgramAccount`, `parseProgramDataAuthority` and the
constants of the account filters of `ops/watchdog/watchdog.ts`. A buffer is the list of its bytes; a
read beyond its end throws.
-/

namespace SafeNudge.Watchdog

open Lib

/-- What the watchdog throws. -/
inductive Failure where
  /-- `${address} is not a GroupConfig`. -/
  | notGroupConfig (address : String)
  /-- A read beyond the end of a buffer, or a time no `Date` holds. -/
  | rangeError
  /-- `program account is not an upgradeable Program`. -/
  | notProgram
  /-- `account is not ProgramData`. -/
  | notProgramData
  deriving DecidableEq, Repr

def GROUP_DISCRIMINATOR : List UInt8 := Utf8.encode "snGroup5"
def STATUS_OFFSET : Nat := 132
def STATUS_ACTIVE : Nat := 1

structure Group where
  address : String
  cycleStart : Int
  frequency : Nat
  totalPeriods : Nat
  status : Nat
  code : String
  deriving DecidableEq

/-! ## `Buffer` -/

def readUInt32LE (data : List UInt8) (offset : Nat) : Except Failure Nat :=
  orThrow (uintLE? data offset 4) .rangeError

def readUInt8 (data : List UInt8) (offset : Nat) : Except Failure Nat :=
  orThrow (uintLE? data offset 1) .rangeError

/-- Two's complement. -/
def readBigInt64LE (data : List UInt8) (offset : Nat) : Except Failure Int := do
  let n ← orThrow (uintLE? data offset 8) .rangeError
  return if n < 2 ^ 63 then n else (n : Int) - 2 ^ 64

/-- `subarray`, which stops at the end of the buffer. -/
def subarray (data : List UInt8) (start stop : Nat) : List UInt8 :=
  (data.drop start).take (stop - start)

section
variable {data : List UInt8} {offset n : Nat}

theorem readUInt32LE_of (h : uintLE? data offset 4 = some n) : readUInt32LE data offset = .ok n := by
  rw [readUInt32LE, h, orThrow_some]

theorem readUInt8_of (h : uintLE? data offset 1 = some n) : readUInt8 data offset = .ok n := by
  rw [readUInt8, h, orThrow_some]

theorem readBigInt64LE_of (h : uintLE? data offset 8 = some n) :
    readBigInt64LE data offset = .ok (if n < 2 ^ 63 then n else (n : Int) - 2 ^ 64) := by
  rw [readBigInt64LE, h, orThrow_some, ok_bind]
  rfl

theorem subarray_of {bs : List UInt8} (h : bytesAt? data offset n = some bs) :
    subarray data offset (offset + n) = bs := by
  unfold bytesAt? at h
  split at h
  · rw [subarray, Nat.add_sub_cancel_left]
    exact Option.some.inj h
  · cases h

end

/-- Decodes the fixed-offset `GroupConfig` fields the watchdog reads. -/
def decodeGroup (address : String) (data : List UInt8) : Except Failure Group := do
  require (subarray data 0 8 = GROUP_DISCRIMINATOR) (.notGroupConfig address)
  let codeLen ← readUInt32LE data 208
  let cycleStart ← readBigInt64LE data 112
  let frequency ← readUInt8 data 128
  let totalPeriods ← readUInt8 data 129
  let status ← readUInt8 data STATUS_OFFSET
  return { address, cycleStart, frequency, totalPeriods, status
           code := Utf8.decode (subarray data 212 (212 + codeLen)) }

theorem decodeGroup_address {address : String} {data : List UInt8} {group : Group}
    (h : decodeGroup address data = .ok group) : group.address = address := by
  simp only [decodeGroup, bind_eq_ok, pure_eq_ok] at h
  obtain ⟨-, -, -, -, -, -, -, -, -, -, -, -, rfl⟩ := h
  rfl

/-! ## The upgrade authority -/

def PROGRAM_TAG : Nat := 2
def PROGRAM_DATA_TAG : Nat := 3

/-- ProgramData address stored in an upgradeable program account. -/
def parseProgramAccount (data : List UInt8) : Except Failure (List UInt8) := do
  require (36 ≤ data.length) .notProgram
  let tag ← readUInt32LE data 0
  require (tag = PROGRAM_TAG) .notProgram
  return subarray data 4 36

/-- Upgrade authority stored in a ProgramData account; none when the program is immutable. -/
def parseProgramDataAuthority (data : List UInt8) : Except Failure (Option (List UInt8)) := do
  require (13 ≤ data.length) .notProgramData
  let tag ← readUInt32LE data 0
  require (tag = PROGRAM_DATA_TAG) .notProgramData
  let isSome ← readUInt8 data 12
  if isSome = 0 then return none
  return some (subarray data 13 45)

/-! ## Account filters -/

/-- `{ memcmp: { offset, bytes } }`: the account holds these bytes at the offset. -/
structure Memcmp where
  offset : Nat
  bytes : List UInt8

def Memcmp.matches (f : Memcmp) (data : List UInt8) : Bool :=
  bytesAt? data f.offset f.bytes.length = some f.bytes

/-- The filters of the unsettled-groups check. -/
def unsettledGroupsFilters : List Memcmp :=
  [⟨0, GROUP_DISCRIMINATOR⟩, ⟨STATUS_OFFSET, [.ofNat STATUS_ACTIVE]⟩]

/-- `getProgramAccounts` gives an account that passes every filter. -/
def selects (filters : List Memcmp) (data : List UInt8) : Bool :=
  filters.all fun f => f.matches data

end SafeNudge.Watchdog
