import SafeNudge.Model.Serialize
import SafeNudge.Model.Symbolic
import SafeNudge.Watchdog.Decode

/-!
# The watchdog reads what the program writes

The decoder has its offsets written out; the encoder has a list of fields. `decodeGroup_serialize`
shows that they agree for every group, and `selects_iff` that the account filters pick the active
groups among the accounts of the program.
-/

namespace SafeNudge

open Lib Watchdog

variable {K : Type} {keyBytes : K → Vector UInt8 32} {g : GroupConfig K} {rest : List UInt8}

/-- The discriminators tell the account types apart. -/
theorem discriminators_ne : MEMBER_RECORD_DISCRIMINATOR ≠ GROUP_CONFIG_DISCRIMINATOR ∧
    JOIN_GATE_DISCRIMINATOR ≠ GROUP_CONFIG_DISCRIMINATOR ∧
    JOIN_TALLY_DISCRIMINATOR ≠ GROUP_CONFIG_DISCRIMINATOR := by
  exact ⟨fun h => absurd (Utf8.encode_inj h) (by decide),
    fun h => absurd (Utf8.encode_inj h) (by decide), fun h => absurd (Utf8.encode_inj h) (by decide)⟩

theorem GroupConfig.length_fields (g : GroupConfig K) :
    (g.fields keyBytes).flatten.length = 212 + (Utf8.encode g.groupCode).length := by
  simp only [GroupConfig.fields, List.flatten_cons, List.flatten_nil, List.length_append,
    Vector.length_toList, length_toLE, borshU64, borshI64, length_discriminators, List.length_cons,
    List.length_nil]
  omega

/-- The number behind an `i64`. -/
theorem toInt_eq_of_toNat (n : Int64) : n.toInt =
    if n.toUInt64.toNat < 2 ^ 63 then (n.toUInt64.toNat : Int) else n.toUInt64.toNat - 2 ^ 64 := by
  have h := BitVec.toInt_eq_toNat_cond n.toBitVec
  have h' : n.toUInt64.toNat = n.toBitVec.toNat := rfl
  rw [h', Int64.toInt, h]
  split <;> split <;> omega

/-- Where the fields the watchdog reads begin. -/
theorem GroupConfig.offsets (g : GroupConfig K) :
    ∀ p ∈ [(0, 0), (5, 112), (7, 128), (8, 129), (11, STATUS_OFFSET), (15, 208), (16, 212)],
      ((g.fields keyBytes).take p.1).flatten.length = p.2 := by
  simp only [List.mem_cons, List.not_mem_nil, or_false, forall_eq_or_imp, forall_eq,
    GroupConfig.fields, List.take_succ_cons, List.take_zero, List.flatten_cons, List.flatten_nil,
    List.length_append, Vector.length_toList, length_toLE, borshU64, borshI64,
    length_discriminators, List.length_cons, List.length_nil, STATUS_OFFSET, and_self]

/-- What the watchdog knows of a group. -/
def GroupConfig.view (g : GroupConfig K) (address code : String) : Group where
  address
  cycleStart := g.cycleStart.toInt
  frequency := g.frequency.toNat
  totalPeriods := g.totalPeriods.toNat
  status := g.status.toNat
  code

/-- The watchdog reads back every field it uses, whatever follows the serialized group; the code
as far as the length stored with it goes. -/
theorem decodeGroup_view (g : GroupConfig K) (rest : List UInt8) (address : String) :
    decodeGroup address ((Account.groupConfig g).serialize keyBytes ++ rest) =
      .ok (g.view address (Utf8.decode (subarray ((Account.groupConfig g).serialize keyBytes ++ rest)
        212 (212 + ofLE (toLE 4 (Utf8.encode g.groupCode).length))))) := by
  obtain ⟨o₀, o₅, o₇, o₈, o₁₁, o₁₅, -⟩ : _ ∧ _ ∧ _ ∧ _ ∧ _ ∧ _ ∧ _ := by
    simpa only [List.mem_cons, List.not_mem_nil, or_false, forall_eq_or_imp, forall_eq] using
      @GroupConfig.offsets K keyBytes g
  have hdisc : subarray ((g.fields keyBytes).flatten ++ rest) 0 8 = GROUP_DISCRIMINATOR := by
    have h := @bytesAt?_flatten GROUP_CONFIG_DISCRIMINATOR rest 0 (g.fields keyBytes) 0 rfl o₀
    rw [length_discriminators.1] at h
    exact subarray_of h
  have hlen := @uintLE?_flatten_bytes rest _ 4 (Utf8.encode g.groupCode).length
    (g.fields keyBytes) 15 rfl o₁₅
  have hstart := @uintLE?_flatten rest _ 8 _ (g.fields keyBytes) 5 rfl o₅
    g.cycleStart.toUInt64.toNat_lt
  have hfreq := @uintLE?_flatten rest _ 1 g.frequency.toNat (g.fields keyBytes) 7
    (by rw [toLE_one]; rfl) o₇ g.frequency.toNat_lt
  have hperiods := @uintLE?_flatten rest _ 1 g.totalPeriods.toNat (g.fields keyBytes) 8
    (by rw [toLE_one]; rfl) o₈ g.totalPeriods.toNat_lt
  have hstatus := @uintLE?_flatten rest _ 1 g.status.toNat (g.fields keyBytes) 11
    (by rw [toLE_one]; rfl) o₁₁ g.status.toNat_lt
  change decodeGroup address ((g.fields keyBytes).flatten ++ rest) = .ok (g.view address
    (Utf8.decode (subarray ((g.fields keyBytes).flatten ++ rest) 212 _)))
  rw [decodeGroup, require_ok hdisc, ok_bind, readUInt32LE_of hlen, ok_bind,
    readBigInt64LE_of hstart, ok_bind, readUInt8_of hfreq, ok_bind, readUInt8_of hperiods, ok_bind,
    readUInt8_of hstatus, ok_bind, ← toInt_eq_of_toNat]
  rfl

/-- A code of any length a `u32` holds is read back. -/
theorem decodeGroup_serialize (hcode : (Utf8.encode g.groupCode).length < 2 ^ 32)
    (address : String) :
    decodeGroup address ((Account.groupConfig g).serialize keyBytes ++ rest) =
      .ok (g.view address g.groupCode) := by
  have ho : ((g.fields keyBytes).take 16).flatten.length = 212 := g.offsets (16, 212) (by simp)
  have h := subarray_of (@bytesAt?_flatten (Utf8.encode g.groupCode) rest _ (g.fields keyBytes) 16
    rfl ho)
  rw [decodeGroup_view, ofLE_toLE hcode]
  change Except.ok (g.view address (Utf8.decode (subarray ((g.fields keyBytes).flatten ++ rest)
    212 _))) = _
  rw [h, Utf8.decode_encode]

/-! ## The account filters -/

/-- The discriminator of an account type comes first. -/
theorem Account.discriminator_matches {a : Account K} (ha : a.IsProgram) :
    Memcmp.matches ⟨0, GROUP_DISCRIMINATOR⟩ (a.serialize keyBytes ++ rest) = true ↔
      ∃ g, a = .groupConfig g := by
  have hmatch : ∀ {d : List UInt8} {fields : List (List UInt8)}, fields[0]? = some d →
      d.length = 8 → (Memcmp.matches ⟨0, GROUP_DISCRIMINATOR⟩ (fields.flatten ++ rest) = true ↔
        d = GROUP_CONFIG_DISCRIMINATOR) := by
    intro d fields hd hlen
    have h := @bytesAt?_flatten d rest 0 fields 0 hd rfl
    rw [hlen] at h
    have hlen' : GROUP_DISCRIMINATOR.length = 8 := length_discriminators.1
    unfold Memcmp.matches
    rw [decide_eq_true_iff, hlen', h]
    exact Option.some_inj
  obtain ⟨hr, hj, ht⟩ := discriminators_ne
  obtain ⟨lg, lr, lj, lt⟩ := length_discriminators
  cases a with
  | groupConfig g => exact (hmatch rfl lg).trans ⟨fun _ => ⟨g, rfl⟩, fun _ => rfl⟩
  | memberRecord r => exact (hmatch rfl lr).trans ⟨fun h => absurd h hr, fun ⟨_, h⟩ => nomatch h⟩
  | joinGate j => exact (hmatch rfl lj).trans ⟨fun h => absurd h hj, fun ⟨_, h⟩ => nomatch h⟩
  | joinTally t => exact (hmatch rfl lt).trans ⟨fun h => absurd h ht, fun ⟨_, h⟩ => nomatch h⟩
  | system | token | mint | other => exact ha.elim

/-- The filters pick the active groups, and nothing else the program stores. -/
theorem selects_iff {a : Account K} (ha : a.IsProgram) :
    selects unsettledGroupsFilters (a.serialize keyBytes ++ rest) = true ↔
      ∃ g, a = .groupConfig g ∧ g.status = STATUS_ACTIVE := by
  have hstatus : ∀ g : GroupConfig K,
      Memcmp.matches ⟨STATUS_OFFSET, [.ofNat Watchdog.STATUS_ACTIVE]⟩
        ((Account.groupConfig g).serialize keyBytes ++ rest) = true ↔ g.status = STATUS_ACTIVE := by
    intro g
    have ho : ((g.fields keyBytes).take 11).flatten.length = STATUS_OFFSET :=
      g.offsets (11, STATUS_OFFSET) (by simp)
    have h := @bytesAt?_flatten [g.status] rest _ (g.fields keyBytes) 11 rfl ho
    unfold Memcmp.matches
    rw [decide_eq_true_iff]
    change bytesAt? ((g.fields keyBytes).flatten ++ rest) STATUS_OFFSET [g.status].length = _ ↔ _
    rw [h, Option.some_inj, List.singleton_inj]
    rfl
  unfold selects unsettledGroupsFilters
  rw [List.all_cons, List.all_cons, List.all_nil, Bool.and_true, Bool.and_eq_true,
    a.discriminator_matches ha]
  constructor
  · rintro ⟨⟨g, rfl⟩, h⟩
    exact ⟨g, rfl, (hstatus g).1 h⟩
  · rintro ⟨g, rfl, h⟩
    exact ⟨⟨g, rfl⟩, (hstatus g).2 h⟩

/-! ## What the watchdog reads -/

/-- A group with an ASCII code of at most 32 bytes takes at most 244, `decodeGroup` gives back its
fields under any padding, and the filters of the unsettled-groups check pick exactly the active
groups among all accounts of the program. -/
theorem watchdog_reads (keyBytes : K → Vector UInt8 32) :
    (∀ (g : GroupConfig K) (address : String) (padding : List UInt8),
      Utf8.IsAscii g.groupCode → (Utf8.encode g.groupCode).length ≤ 32 →
        ((Account.groupConfig g).serialize keyBytes).length = 212 + g.groupCode.length ∧
        212 + g.groupCode.length ≤ GROUP_CONFIG_SPACE ∧
        decodeGroup address ((Account.groupConfig g).serialize keyBytes ++ padding) =
          .ok { address, cycleStart := g.cycleStart.toInt, frequency := g.frequency.toNat
                totalPeriods := g.totalPeriods.toNat, status := g.status.toNat
                code := g.groupCode }) ∧
    ∀ (a : Account K) (padding : List UInt8), a.IsProgram →
      (selects unsettledGroupsFilters (a.serialize keyBytes ++ padding) = true ↔
        ∃ g, a = .groupConfig g ∧ g.status = STATUS_ACTIVE) := by
  refine ⟨fun g address padding hascii hlen => ?_, fun a padding ha => selects_iff ha⟩
  have hcode := Utf8.length_encode hascii
  refine ⟨?_, ?_, decodeGroup_serialize (by omega) address⟩
  · rw [← hcode]
    exact g.length_fields
  · unfold GROUP_CONFIG_SPACE
    omega

/-- A group as the program stores it: weekly, two periods, active, from before 1970. -/
def Demo.stored : GroupConfig SymbolicKey where
  creator := .wallet 0
  rentPayer := .wallet 0
  mint := .mint 0
  depositAmount := 5
  cycleStart := -1
  settledAt := 0
  frequency := 0
  totalPeriods := 2
  maxMembers := 3
  currentMembers := 2
  status := STATUS_ACTIVE
  bump := 255
  vaultBump := 255
  reserved := .replicate 73 0
  groupCode := "amigos"

theorem watchdog_reads_stored :
    decodeGroup "GroupA" ((Account.groupConfig Demo.stored).serialize (fun _ => .replicate 32 0) ++
        .replicate 26 0) =
      .ok ⟨"GroupA", -1, 0, 2, 1, "amigos"⟩ ∧
    selects unsettledGroupsFilters
      ((Account.groupConfig Demo.stored).serialize (fun _ => .replicate 32 0) ++ .replicate 26 0) :=
  have hascii : Utf8.IsAscii Demo.stored.groupCode := by decide
  have hlen : (Utf8.encode Demo.stored.groupCode).length ≤ 32 := by
    rw [Utf8.length_encode hascii]
    decide
  have h := watchdog_reads (K := SymbolicKey) fun _ => .replicate 32 0
  ⟨(h.1 Demo.stored "GroupA" (.replicate 26 0) hascii hlen).2.2,
    (h.2 (.groupConfig Demo.stored) (.replicate 26 0) trivial).2 ⟨Demo.stored, rfl, rfl⟩⟩

end SafeNudge
