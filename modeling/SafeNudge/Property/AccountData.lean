import SafeNudge.Model.Deserialize
import SafeNudge.Property.Decoding

/-!
# What an account's bytes say

The readers of the four account types accept exactly what the writers write, in front of any
padding (`ofData?_eq_some`), and no bytes are two accounts. The watchdog's reader of groups agrees
with the program's on all data the program accepts.
-/

namespace SafeNudge

open Lib Watchdog

variable {K : Type} {keys : KeyBytes K} {data rest rest' : List UInt8} {a a' : Account K}

/-- An account of the program whose text fits its length prefix. -/
def Account.Storable : Account K → Prop
  | .groupConfig g => (Utf8.encode g.groupCode).length < 2 ^ 32
  | .memberRecord _ | .joinGate _ | .joinTally _ => True
  | _ => False

theorem Account.Storable.isProgram (h : a.Storable) : a.IsProgram := by
  cases a with
  | groupConfig | memberRecord | joinGate | joinTally => trivial
  | system | token | mint | other => exact h.elim

/-! ## The fields one by one -/

theorem encode_bytes {n : Nat} {v : Vector UInt8 n} : (Codec.u8.array n).encode v = v.toList :=
  List.flatMap_singleton' _

theorem encode_bools {n : Nat} {v : Vector Bool n} :
    (Codec.bool.array n).encode v = v.toList.map borshBool :=
  List.map_eq_flatMap.symm

theorem encode_pubkey {k : K} : (borshPubkey keys).encode k = (keys.toBytes k).toList := encode_bytes

theorem serialize_group (keys : KeyBytes K) (g : GroupConfig K) :
    (Account.groupConfig g).serialize keys.toBytes =
      GROUP_CONFIG_DISCRIMINATOR ++ (GroupConfig.codec keys).encode g := by
  show (g.fields keys.toBytes).flatten = _
  simp only [GroupConfig.fields, List.flatten_cons, List.flatten_nil, List.append_nil,
    ← @encode_pubkey _ keys, ← encode_bytes]
  rfl

theorem serialize_record (keys : KeyBytes K) (r : MemberRecord K) :
    (Account.memberRecord r).serialize keys.toBytes =
      MEMBER_RECORD_DISCRIMINATOR ++ (MemberRecord.codec keys).encode r := by
  show (r.fields keys.toBytes).flatten = _
  simp only [MemberRecord.fields, List.flatten_cons, List.flatten_nil, List.append_nil,
    ← @encode_pubkey _ keys, ← encode_bools, ← encode_bytes]
  rfl

theorem serialize_gate (keys : KeyBytes K) (j : JoinGate K) :
    (Account.joinGate j).serialize keys.toBytes =
      JOIN_GATE_DISCRIMINATOR ++ (JoinGate.codec keys).encode j := by
  show (j.fields keys.toBytes).flatten = _
  simp only [JoinGate.fields, List.flatten_cons, List.flatten_nil, List.append_nil,
    ← @encode_pubkey _ keys]
  rfl

theorem serialize_tally (keys : KeyBytes K) (t : JoinTally K) :
    (Account.joinTally t).serialize keys.toBytes =
      JOIN_TALLY_DISCRIMINATOR ++ (JoinTally.codec keys).encode t := by
  show (t.fields keys.toBytes).flatten = _
  simp only [JoinTally.fields, List.flatten_cons, List.flatten_nil, List.append_nil,
    ← @encode_pubkey _ keys]
  rfl

/-! ## Every field can be written -/

theorem valid_pubkey {k : K} : (borshPubkey keys).Valid k := fun _ _ => trivial

theorem valid_u64 {n : UInt64} : Codec.u64.Valid n := n.toNat_lt

theorem GroupConfig.codec_valid {g : GroupConfig K} :
    (GroupConfig.codec keys).Valid g ↔ (Utf8.encode g.groupCode).length < 2 ^ 32 := by
  constructor
  · intro h
    obtain ⟨-, -, -, -, -, -, -, -, -, -, -, -, -, -, h⟩ := h
    exact h
  · intro h
    exact ⟨valid_pubkey, valid_pubkey, valid_pubkey, valid_u64, valid_u64, valid_u64, trivial,
      trivial, trivial, trivial, trivial, trivial, trivial, fun _ _ => trivial, h⟩

theorem MemberRecord.codec_valid {r : MemberRecord K} : (MemberRecord.codec keys).Valid r :=
  ⟨valid_pubkey, valid_pubkey, valid_pubkey, valid_u64, trivial, fun _ _ => trivial, trivial,
    fun _ _ => trivial⟩

theorem JoinTally.codec_valid {t : JoinTally K} : (JoinTally.codec keys).Valid t :=
  ⟨valid_pubkey, t.joins.toNat_lt⟩

/-! ## The four readers -/

theorem tryDeserialize_group {g : GroupConfig K} :
    GroupConfig.tryDeserialize keys data = .ok g ↔
      (Account.groupConfig g).Storable ∧
        ∃ rest, data = (Account.groupConfig g).serialize keys.toBytes ++ rest := by
  rw [serialize_group]
  exact tryDeserialize_eq_ok.trans (and_congr_left' GroupConfig.codec_valid)

theorem tryDeserialize_record {r : MemberRecord K} :
    MemberRecord.tryDeserialize keys data = .ok r ↔
      ∃ rest, data = (Account.memberRecord r).serialize keys.toBytes ++ rest := by
  rw [serialize_record]
  exact tryDeserialize_eq_ok.trans (and_iff_right MemberRecord.codec_valid)

theorem tryDeserialize_gate {j : JoinGate K} :
    JoinGate.tryDeserialize keys data = .ok j ↔
      ∃ rest, data = (Account.joinGate j).serialize keys.toBytes ++ rest := by
  rw [serialize_gate]
  exact tryDeserialize_eq_ok.trans (and_iff_right valid_pubkey)

theorem tryDeserialize_tally {t : JoinTally K} :
    JoinTally.tryDeserialize keys data = .ok t ↔
      ∃ rest, data = (Account.joinTally t).serialize keys.toBytes ++ rest := by
  rw [serialize_tally]
  exact tryDeserialize_eq_ok.trans (and_iff_right JoinTally.codec_valid)

/-! ## All types at once -/

/-- `#[account(discriminator = ..)]` of the account's type. -/
def Account.discriminator : Account K → List UInt8
  | .groupConfig _ => GROUP_CONFIG_DISCRIMINATOR
  | .memberRecord _ => MEMBER_RECORD_DISCRIMINATOR
  | .joinGate _ => JOIN_GATE_DISCRIMINATOR
  | .joinTally _ => JOIN_TALLY_DISCRIMINATOR
  | _ => []

theorem Account.Storable.take_serialize (h : a.Storable) :
    (a.serialize keys.toBytes ++ rest).take 8 = a.discriminator := by
  obtain ⟨lg, lr, lj, lt⟩ := length_discriminators
  cases a with
  | groupConfig g => rw [serialize_group, List.append_assoc]; exact List.take_left' lg
  | memberRecord r => rw [serialize_record, List.append_assoc]; exact List.take_left' lr
  | joinGate j => rw [serialize_gate, List.append_assoc]; exact List.take_left' lj
  | joinTally t => rw [serialize_tally, List.append_assoc]; exact List.take_left' lt
  | system | token | mint | other => exact h.elim

/-- No bytes begin with two accounts. -/
theorem serialize_inj (h : a.Storable) (h' : a'.Storable)
    (he : a.serialize keys.toBytes ++ rest = a'.serialize keys.toBytes ++ rest') :
    a = a' ∧ rest = rest' := by
  have hd : a.discriminator = a'.discriminator :=
    (h.take_serialize.symm.trans (congrArg (List.take 8) he)).trans h'.take_serialize
  have hne : ∀ {d d' : String}, Utf8.encode d = Utf8.encode d' → d ≠ d' → False :=
    fun hde hdd => hdd (Utf8.encode_inj hde)
  cases a with
  | groupConfig g =>
    cases a' with
    | groupConfig g' =>
      rw [serialize_group, serialize_group, List.append_assoc, List.append_assoc] at he
      obtain ⟨rfl, hr⟩ := Codec.encode_inj (GroupConfig.codec_valid.2 h)
        (GroupConfig.codec_valid.2 h') (List.append_cancel_left he)
      exact ⟨rfl, hr⟩
    | memberRecord | joinGate | joinTally => exact (hne hd (by decide)).elim
    | system | token | mint | other => exact h'.elim
  | memberRecord r =>
    cases a' with
    | memberRecord r' =>
      rw [serialize_record, serialize_record, List.append_assoc, List.append_assoc] at he
      obtain ⟨rfl, hr⟩ := Codec.encode_inj MemberRecord.codec_valid MemberRecord.codec_valid
        (List.append_cancel_left he)
      exact ⟨rfl, hr⟩
    | groupConfig | joinGate | joinTally => exact (hne hd (by decide)).elim
    | system | token | mint | other => exact h'.elim
  | joinGate j =>
    cases a' with
    | joinGate j' =>
      rw [serialize_gate, serialize_gate, List.append_assoc, List.append_assoc] at he
      obtain ⟨rfl, hr⟩ := Codec.encode_inj (c := JoinGate.codec keys) valid_pubkey valid_pubkey
        (List.append_cancel_left he)
      exact ⟨rfl, hr⟩
    | groupConfig | memberRecord | joinTally => exact (hne hd (by decide)).elim
    | system | token | mint | other => exact h'.elim
  | joinTally t =>
    cases a' with
    | joinTally t' =>
      rw [serialize_tally, serialize_tally, List.append_assoc, List.append_assoc] at he
      obtain ⟨rfl, hr⟩ := Codec.encode_inj JoinTally.codec_valid JoinTally.codec_valid
        (List.append_cancel_left he)
      exact ⟨rfl, hr⟩
    | groupConfig | memberRecord | joinGate => exact (hne hd (by decide)).elim
    | system | token | mint | other => exact h'.elim
  | system | token | mint | other => exact h.elim

theorem toOption_eq_some {ε α : Type} {x : Except ε α} {v : α} : x.toOption = some v ↔ x = .ok v := by
  cases x <;> simp [Except.toOption]

theorem ofData?_eq_some : Account.ofData? keys data = some a ↔
    a.Storable ∧ ∃ rest, data = a.serialize keys.toBytes ++ rest := by
  have sound : ∀ {a}, Account.ofData? keys data = some a →
      a.Storable ∧ ∃ rest, data = a.serialize keys.toBytes ++ rest := by
    intro a h
    simp only [Account.ofData?, Option.or_eq_some_iff, Option.map_eq_some_iff, toOption_eq_some,
      tryDeserialize_group, tryDeserialize_record, tryDeserialize_gate, tryDeserialize_tally] at h
    rcases h with ⟨g, h, rfl⟩ | ⟨-, ⟨r, h, rfl⟩ | ⟨-, ⟨j, h, rfl⟩ | ⟨-, t, h, rfl⟩⟩⟩
    · exact h
    · exact ⟨trivial, h⟩
    · exact ⟨trivial, h⟩
    · exact ⟨trivial, h⟩
  refine ⟨sound, ?_⟩
  rintro ⟨ha, rest, hdata⟩
  -- some reader accepts, and whatever it read is `a`
  have hsome : (Account.ofData? keys data).isSome := by
    simp only [Account.ofData?, Option.isSome_or, Option.isSome_map, Bool.or_eq_true,
      Option.isSome_iff_exists, toOption_eq_some, tryDeserialize_group, tryDeserialize_record,
      tryDeserialize_gate, tryDeserialize_tally]
    cases a with
    | groupConfig g => exact .inl ⟨g, ha, rest, hdata⟩
    | memberRecord r => exact .inr (.inl ⟨r, rest, hdata⟩)
    | joinGate j => exact .inr (.inr (.inl ⟨j, rest, hdata⟩))
    | joinTally t => exact .inr (.inr (.inr ⟨t, rest, hdata⟩))
    | system | token | mint | other => exact ha.elim
  obtain ⟨a', ha'⟩ := Option.isSome_iff_exists.1 hsome
  obtain ⟨hs', rest', hdata'⟩ := sound ha'
  rw [ha', (serialize_inj ha hs' (hdata.symm.trans hdata')).1]

/-! ## The readers of the program and of the watchdog -/

/-- Each reader accepts exactly what the program writes of its type, with anything after it. Bytes
begin with one account at most. From all data the program reads as a group, the watchdog reads the
same group. -/
theorem readers_accept_exactly (keys : KeyBytes K) (data : List UInt8) :
    (∀ g, GroupConfig.tryDeserialize keys data = .ok g ↔ (Utf8.encode g.groupCode).length < 2 ^ 32 ∧
      ∃ rest, data = (Account.groupConfig g).serialize keys.toBytes ++ rest) ∧
    (∀ r, MemberRecord.tryDeserialize keys data = .ok r ↔
      ∃ rest, data = (Account.memberRecord r).serialize keys.toBytes ++ rest) ∧
    (∀ j, JoinGate.tryDeserialize keys data = .ok j ↔
      ∃ rest, data = (Account.joinGate j).serialize keys.toBytes ++ rest) ∧
    (∀ t, JoinTally.tryDeserialize keys data = .ok t ↔
      ∃ rest, data = (Account.joinTally t).serialize keys.toBytes ++ rest) ∧
    (∀ (a a' : Account K) rest rest', a.Storable → a'.Storable →
      data = a.serialize keys.toBytes ++ rest → data = a'.serialize keys.toBytes ++ rest' →
      a = a' ∧ rest = rest') ∧
    ∀ g address, GroupConfig.tryDeserialize keys data = .ok g →
      decodeGroup address data = .ok (g.view address g.groupCode) := by
  refine ⟨fun _ => tryDeserialize_group, fun _ => tryDeserialize_record,
    fun _ => tryDeserialize_gate, fun _ => tryDeserialize_tally, ?_, ?_⟩
  · intro a a' rest rest' h h' he he'
    exact serialize_inj h h' (he.symm.trans he')
  · intro g address h
    obtain ⟨hcode, rest, rfl⟩ := tryDeserialize_group.1 h
    exact decodeGroup_serialize hcode address

/-- A group of all-zero keys. -/
def Demo.zeroGroup : GroupConfig (Vector UInt8 32) where
  creator := .replicate 32 0
  rentPayer := .replicate 32 0
  mint := .replicate 32 0
  depositAmount := 5
  cycleStart := -1
  settledAt := 0
  frequency := 0
  totalPeriods := 2
  maxMembers := 3
  currentMembers := 2
  status := STATUS_ACTIVE
  bump := 255
  vaultBump := 255
  reserved := .replicate 73 0
  groupCode := "olá"

theorem readers_accept_zeroGroup :
    GroupConfig.tryDeserialize .id ((Account.groupConfig Demo.zeroGroup).serialize id ++ [7]) =
      .ok Demo.zeroGroup ∧
    decodeGroup "G" ((Account.groupConfig Demo.zeroGroup).serialize id ++ [7]) =
      .ok ⟨"G", -1, 0, 2, 1, "olá"⟩ :=
  have h := readers_accept_exactly .id
    ((Account.groupConfig Demo.zeroGroup).serialize id ++ [7])
  have hcode : (Utf8.encode Demo.zeroGroup.groupCode).length < 2 ^ 32 := by decide +kernel
  have hread := (h.1 Demo.zeroGroup).2 ⟨hcode, [7], rfl⟩
  ⟨hread, h.2.2.2.2.2 Demo.zeroGroup "G" hread⟩

end SafeNudge
