import SafeNudge.Lib.Codec
import SafeNudge.Lib.Guard
import SafeNudge.Model.Serialize

/-!
# Reading account data

`try_deserialize` of the four account types: the discriminator first, then the fields in Borsh in
the order of the struct. What follows the fields is not looked at, so the padding of an account
does not matter.
-/

namespace SafeNudge

open Lib

variable {K : Type}

/-- The 32 bytes of a key. -/
structure KeyBytes (K : Type) where
  toBytes : K → Vector UInt8 32
  ofBytes? : Vector UInt8 32 → Option K
  ofBytes?_eq_some : ∀ {v : Vector UInt8 32} {k : K}, ofBytes? v = some k ↔ toBytes k = v

/-- Every 32 bytes are a key. -/
def KeyBytes.id : KeyBytes (Vector UInt8 32) where
  toBytes v := v
  ofBytes? := some
  ofBytes?_eq_some := by
    rintro v k
    rw [Option.some_inj, eq_comm]

inductive ReadError where
  | accountDiscriminatorNotFound
  | accountDiscriminatorMismatch
  | accountDidNotDeserialize
  deriving DecidableEq, Repr

/-- Anchor's `try_deserialize` of a type with this discriminator and these fields. -/
def tryDeserialize {α : Type} (discriminator : List UInt8) (fields : Codec α) (data : List UInt8) :
    Except ReadError α := do
  require (discriminator.length ≤ data.length) .accountDiscriminatorNotFound
  require (data.take discriminator.length = discriminator) .accountDiscriminatorMismatch
  let (a, _) ← orThrow (fields.decode (data.drop discriminator.length)) .accountDidNotDeserialize
  return a

section
variable (keys : KeyBytes K)

def borshPubkey : Codec K :=
  (Codec.u8.array 32).narrow keys.ofBytes? keys.toBytes keys.ofBytes?_eq_some

def GroupConfig.codec : Codec (GroupConfig K) :=
  ((borshPubkey keys).pair <| (borshPubkey keys).pair <| (borshPubkey keys).pair <| Codec.u64.pair <|
    Codec.i64.pair <| Codec.i64.pair <| Codec.u8.pair <| Codec.u8.pair <| Codec.u8.pair <|
    Codec.u8.pair <| Codec.u8.pair <| Codec.u8.pair <| Codec.u8.pair <|
    (Codec.u8.array 73).pair Codec.string).iso
    (fun (creator, rentPayer, mint, depositAmount, cycleStart, settledAt, frequency, totalPeriods,
        maxMembers, currentMembers, status, bump, vaultBump, reserved, groupCode) =>
      { creator, rentPayer, mint, depositAmount, cycleStart, settledAt, frequency, totalPeriods,
        maxMembers, currentMembers, status, bump, vaultBump, reserved, groupCode })
    (fun g => (g.creator, g.rentPayer, g.mint, g.depositAmount, g.cycleStart, g.settledAt,
      g.frequency, g.totalPeriods, g.maxMembers, g.currentMembers, g.status, g.bump, g.vaultBump,
      g.reserved, g.groupCode))
    (fun _ => rfl) fun _ => rfl

def MemberRecord.codec : Codec (MemberRecord K) :=
  ((borshPubkey keys).pair <| (borshPubkey keys).pair <| (borshPubkey keys).pair <| Codec.u64.pair <|
    Codec.u8.pair <| (Codec.bool.array 52).pair <| Codec.u8.pair (Codec.u8.array 32)).iso
    (fun (group, member, rentPayer, totalDeposited, depositsMade, periodsDeposited, bump,
        reserved) =>
      { group, member, rentPayer, totalDeposited, depositsMade, periodsDeposited, bump, reserved })
    (fun r => (r.group, r.member, r.rentPayer, r.totalDeposited, r.depositsMade,
      r.periodsDeposited, r.bump, r.reserved))
    (fun _ => rfl) fun _ => rfl

def JoinGate.codec : Codec (JoinGate K) :=
  (borshPubkey keys).iso (fun authority => { authority }) (fun j => j.authority)
    (fun _ => rfl) fun _ => rfl

def JoinTally.codec : Codec (JoinTally K) :=
  ((borshPubkey keys).pair Codec.u32).iso (fun (rentPayer, joins) => { rentPayer, joins })
    (fun t => (t.rentPayer, t.joins)) (fun _ => rfl) fun _ => rfl

def GroupConfig.tryDeserialize : List UInt8 → Except ReadError (GroupConfig K) :=
  SafeNudge.tryDeserialize GROUP_CONFIG_DISCRIMINATOR (GroupConfig.codec keys)
def MemberRecord.tryDeserialize : List UInt8 → Except ReadError (MemberRecord K) :=
  SafeNudge.tryDeserialize MEMBER_RECORD_DISCRIMINATOR (MemberRecord.codec keys)
def JoinGate.tryDeserialize : List UInt8 → Except ReadError (JoinGate K) :=
  SafeNudge.tryDeserialize JOIN_GATE_DISCRIMINATOR (JoinGate.codec keys)
def JoinTally.tryDeserialize : List UInt8 → Except ReadError (JoinTally K) :=
  SafeNudge.tryDeserialize JOIN_TALLY_DISCRIMINATOR (JoinTally.codec keys)

/-- The account of the program that these bytes hold, whatever its type. -/
def Account.ofData? (data : List UInt8) : Option (Account K) :=
  ((GroupConfig.tryDeserialize keys data).toOption.map .groupConfig).or <|
  ((MemberRecord.tryDeserialize keys data).toOption.map .memberRecord).or <|
  ((JoinGate.tryDeserialize keys data).toOption.map .joinGate).or <|
  (JoinTally.tryDeserialize keys data).toOption.map .joinTally

end

/-! ## What is written is what is read -/

theorem tryDeserialize_eq_ok {α : Type} {discriminator data : List UInt8} {fields : Codec α}
    {a : α} : tryDeserialize discriminator fields data = .ok a ↔
      fields.Valid a ∧ ∃ rest, data = discriminator ++ fields.encode a ++ rest := by
  simp only [tryDeserialize, bind_eq_ok, require_eq_ok, orThrow_eq_ok, pure_eq_ok, exists_const,
    Prod.exists, fields.decode_eq_some, List.append_assoc]
  constructor
  · rintro ⟨-, hd, a, rest, ⟨ha, hdata⟩, rfl⟩
    refine ⟨ha, rest, ?_⟩
    rw [← hdata]
    exact ((congrArg (· ++ _) hd).symm.trans (List.take_append_drop ..)).symm
  · rintro ⟨ha, rest, rfl⟩
    exact ⟨by rw [List.length_append]; omega, List.take_left, a, rest,
      ⟨ha, List.drop_left⟩, rfl⟩

end SafeNudge
