import SafeNudge.Lib.Bytes
import SafeNudge.Lib.Utf8
import SafeNudge.Model.State

/-!
# Account data

The bytes Anchor stores for an account: the discriminator, then the fields in Borsh. An integer is
little-endian, a string is its length as `u32` and its UTF-8 bytes, an array its elements. Each
account type is the list of its fields, so that an offset is the length of the fields before it.
-/

namespace SafeNudge

open Lib

variable {K : Type} (keyBytes : K → Vector UInt8 32)

/-- `#[account(discriminator = ..)]` of the four account types. -/
def GROUP_CONFIG_DISCRIMINATOR : List UInt8 := Utf8.encode "snGroup5"
def MEMBER_RECORD_DISCRIMINATOR : List UInt8 := Utf8.encode "snMembr3"
def JOIN_GATE_DISCRIMINATOR : List UInt8 := Utf8.encode "snJoinG1"
def JOIN_TALLY_DISCRIMINATOR : List UInt8 := Utf8.encode "snTally1"

def borshU64 (n : UInt64) : List UInt8 := toLE 8 n.toNat

def borshI64 (n : Int64) : List UInt8 := toLE 8 n.toUInt64.toNat

def borshU32 (n : UInt32) : List UInt8 := toLE 4 n.toNat

def borshBool (b : Bool) : UInt8 := if b then 1 else 0

def GroupConfig.fields (g : GroupConfig K) : List (List UInt8) :=
  [GROUP_CONFIG_DISCRIMINATOR, (keyBytes g.creator).toList, (keyBytes g.rentPayer).toList,
    (keyBytes g.mint).toList, borshU64 g.depositAmount, borshI64 g.cycleStart,
    borshI64 g.settledAt, [g.frequency], [g.totalPeriods], [g.maxMembers], [g.currentMembers],
    [g.status], [g.bump], [g.vaultBump], g.reserved.toList,
    toLE 4 (Utf8.encode g.groupCode).length, Utf8.encode g.groupCode]

def MemberRecord.fields (r : MemberRecord K) : List (List UInt8) :=
  [MEMBER_RECORD_DISCRIMINATOR, (keyBytes r.group).toList, (keyBytes r.member).toList,
    (keyBytes r.rentPayer).toList, borshU64 r.totalDeposited, [r.depositsMade],
    r.periodsDeposited.toList.map borshBool, [r.bump], r.reserved.toList]

def JoinGate.fields (j : JoinGate K) : List (List UInt8) :=
  [JOIN_GATE_DISCRIMINATOR, (keyBytes j.authority).toList]

def JoinTally.fields (t : JoinTally K) : List (List UInt8) :=
  [JOIN_TALLY_DISCRIMINATOR, (keyBytes t.rentPayer).toList, borshU32 t.joins]

/-- The fields of an account of the program. -/
def Account.fields : Account K → List (List UInt8)
  | .groupConfig g => g.fields keyBytes
  | .memberRecord r => r.fields keyBytes
  | .joinGate j => j.fields keyBytes
  | .joinTally t => t.fields keyBytes
  | _ => []

/-- `try_serialize`. -/
def Account.serialize (a : Account K) : List UInt8 := (a.fields keyBytes).flatten

/-! ## Offsets and lengths -/

@[simp] theorem length_discriminators : GROUP_CONFIG_DISCRIMINATOR.length = 8 ∧
    MEMBER_RECORD_DISCRIMINATOR.length = 8 ∧ JOIN_GATE_DISCRIMINATOR.length = 8 ∧
    JOIN_TALLY_DISCRIMINATOR.length = 8 := by
  have hascii : ∀ s ∈ ["snGroup5", "snMembr3", "snJoinG1", "snTally1"],
      Utf8.IsAscii s ∧ s.length = 8 := by decide
  simp only [List.mem_cons, List.not_mem_nil, or_false, forall_eq_or_imp, forall_eq] at hascii
  obtain ⟨⟨h₁, l₁⟩, ⟨h₂, l₂⟩, ⟨h₃, l₃⟩, h₄, l₄⟩ := hascii
  exact ⟨(Utf8.length_encode h₁).trans l₁, (Utf8.length_encode h₂).trans l₂,
    (Utf8.length_encode h₃).trans l₃, (Utf8.length_encode h₄).trans l₄⟩

end SafeNudge
