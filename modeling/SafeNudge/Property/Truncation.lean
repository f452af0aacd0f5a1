import SafeNudge.Watchdog.Decode

/-!
# Truncated accounts

`Buffer.subarray` stops at the end of the data and the reads throw there, so that what a decoder
does with an account that is too short depends on its length guard. `decoders_whole` says which
accounts each of the three decoders accepts although bytes of what it returns are missing.
-/

namespace SafeNudge.Watchdog

open Lib

variable {data bs : List UInt8} {address : String} {g : Group} {start stop offset n : Nat}

/-! ## Reads -/

theorem readUInt32LE_eq_ok : readUInt32LE data offset = .ok n ↔
    offset + 4 ≤ data.length ∧ ofLE (subarray data offset (offset + 4)) = n := by
  rw [readUInt32LE, orThrow_eq_ok, uintLE?_eq_some, subarray, Nat.add_sub_cancel_left]

theorem readUInt8_eq_ok : readUInt8 data offset = .ok n ↔
    offset + 1 ≤ data.length ∧ ofLE (subarray data offset (offset + 1)) = n := by
  rw [readUInt8, orThrow_eq_ok, uintLE?_eq_some, subarray, Nat.add_sub_cancel_left]

theorem le_of_readBigInt64LE {n : Int} (h : readBigInt64LE data offset = .ok n) :
    offset + 8 ≤ data.length := by
  rw [readBigInt64LE, bind_eq_ok] at h
  obtain ⟨m, hm, -⟩ := h
  exact (uintLE?_eq_some.1 (orThrow_eq_ok.1 hm)).1

theorem exists_readBigInt64LE (h : offset + 8 ≤ data.length) :
    ∃ n, readBigInt64LE data offset = .ok n := by
  unfold readBigInt64LE
  rw [uintLE?_eq_some.2 ⟨h, rfl⟩]
  exact ⟨_, rfl⟩

/-- A part of the data is there in full if the data goes on to its end. -/
theorem bytesAt?_subarray (hle : start ≤ stop) : bytesAt? data start (stop - start) =
    some (subarray data start stop) ↔ stop ≤ data.length := by
  rw [bytesAt?_eq_some, Nat.add_sub_cancel' hle]
  exact and_iff_left rfl

/-! ## What the decoders return -/

theorem decodeGroup_eq_ok : decodeGroup address data = .ok g ↔
    subarray data 0 8 = GROUP_DISCRIMINATOR ∧
      ∃ codeLen, readUInt32LE data 208 = .ok codeLen ∧
      ∃ cycleStart, readBigInt64LE data 112 = .ok cycleStart ∧
      ∃ frequency, readUInt8 data 128 = .ok frequency ∧
      ∃ totalPeriods, readUInt8 data 129 = .ok totalPeriods ∧
      ∃ status, readUInt8 data STATUS_OFFSET = .ok status ∧
        { address, cycleStart, frequency, totalPeriods, status
          code := Utf8.decode (subarray data 212 (212 + codeLen)) } = g := by
  simp only [decodeGroup, bind_eq_ok, require_eq_ok, pure_eq_ok, exists_const]

theorem exists_eq_ok_and_eq {x : Except Failure Nat} {tag : Nat} {p : Prop} :
    (∃ n, x = .ok n ∧ n = tag ∧ p) ↔ x = .ok tag ∧ p := by
  constructor
  · rintro ⟨n, hn, rfl, hp⟩
    exact ⟨hn, hp⟩
  · rintro ⟨hn, hp⟩
    exact ⟨tag, hn, rfl, hp⟩

theorem parseProgramAccount_eq_ok : parseProgramAccount data = .ok bs ↔
    36 ≤ data.length ∧ readUInt32LE data 0 = .ok PROGRAM_TAG ∧ subarray data 4 36 = bs := by
  simp only [parseProgramAccount, bind_eq_ok, require_eq_ok, pure_eq_ok, exists_const]
  exact and_congr_right fun _ => exists_eq_ok_and_eq

theorem parseProgramDataAuthority_eq_ok {authority : Option (List UInt8)} :
    parseProgramDataAuthority data = .ok authority ↔
      13 ≤ data.length ∧ readUInt32LE data 0 = .ok PROGRAM_DATA_TAG ∧
        ∃ isSome, readUInt8 data 12 = .ok isSome ∧
          (if isSome = 0 then none else some (subarray data 13 45)) = authority := by
  have hite : ∀ n : Nat, ((if n = 0 then return none else return some (subarray data 13 45) :
      Except Failure (Option (List UInt8))) = .ok authority ↔
        (if n = 0 then none else some (subarray data 13 45)) = authority) := by
    intro n
    split <;> exact pure_eq_ok
  simp only [parseProgramDataAuthority, bind_eq_ok, require_eq_ok, exists_const, hite]
  exact and_congr_right fun _ => exists_eq_ok_and_eq

/-! ## Nothing is missing -/

/-- The fields of a group are read from data that holds all their bytes; the code from as many as
its length prefix states. -/
structure Group.WholeIn (g : Group) (data : List UInt8) : Prop where
  code : ∃ codeLen bytes, readUInt32LE data 208 = .ok codeLen ∧
    bytesAt? data 212 codeLen = some bytes ∧ bytes.length = codeLen ∧ g.code = Utf8.decode bytes
  cycleStart : 112 + 8 ≤ data.length ∧ readBigInt64LE data 112 = .ok g.cycleStart
  frequency : 128 + 1 ≤ data.length ∧ readUInt8 data 128 = .ok g.frequency
  totalPeriods : 129 + 1 ≤ data.length ∧ readUInt8 data 129 = .ok g.totalPeriods
  status : STATUS_OFFSET + 1 ≤ data.length ∧ readUInt8 data STATUS_OFFSET = .ok g.status

/-- A group account that ends before the code does. -/
def TruncatedCode (data : List UInt8) : Prop :=
  subarray data 0 8 = GROUP_DISCRIMINATOR ∧ 212 ≤ data.length ∧
    data.length < 212 + ofLE (subarray data 208 212)

/-- A ProgramData account that has an upgrade authority and ends before it does. -/
def TruncatedAuthority (data : List UInt8) : Prop :=
  13 ≤ data.length ∧ data.length < 45 ∧ ofLE (subarray data 0 4) = PROGRAM_DATA_TAG ∧
    ofLE (subarray data 12 13) ≠ 0

theorem decodeGroup_whole : (∀ g, decodeGroup address data = .ok g → g.WholeIn data) ↔
    ¬TruncatedCode data := by
  constructor
  · intro h ⟨hdisc, hle, hlt⟩
    have hread : ∀ {offset : Nat}, offset + 1 ≤ 212 →
        readUInt8 data offset = .ok (ofLE (subarray data offset (offset + 1))) :=
      fun h => readUInt8_eq_ok.2 ⟨by omega, rfl⟩
    obtain ⟨cycleStart, hstart⟩ := @exists_readBigInt64LE data 112 (by omega)
    have hlen : readUInt32LE data 208 = .ok (ofLE (subarray data 208 212)) :=
      readUInt32LE_eq_ok.2 ⟨hle, rfl⟩
    obtain ⟨codeLen, bytes, hlen', hbytes, -⟩ := (h _ (decodeGroup_eq_ok.2 ⟨hdisc, _, hlen, _,
      hstart, _, hread (by decide), _, hread (by decide), _, hread (by decide), rfl⟩)).code
    rw [hlen] at hlen'
    cases hlen'
    have := (bytesAt?_eq_some.1 hbytes).1
    omega
  · intro h g hg
    obtain ⟨hdisc, codeLen, hlen, cycleStart, hstart, frequency, hfreq, totalPeriods, hperiods,
      status, hstatus, rfl⟩ := decodeGroup_eq_ok.1 hg
    obtain ⟨hle, hcode⟩ := readUInt32LE_eq_ok.1 hlen
    have hwhole : 212 + codeLen ≤ data.length := by
      by_contra hlt
      exact h ⟨hdisc, hle, by rw [hcode]; omega⟩
    have hbytes := (bytesAt?_subarray (Nat.le_add_right 212 codeLen)).2 hwhole
    rw [Nat.add_sub_cancel_left] at hbytes
    exact ⟨⟨codeLen, _, hlen, hbytes, length_of_bytesAt? hbytes, rfl⟩,
      ⟨le_of_readBigInt64LE hstart, hstart⟩, ⟨(readUInt8_eq_ok.1 hfreq).1, hfreq⟩,
      ⟨(readUInt8_eq_ok.1 hperiods).1, hperiods⟩, ⟨(readUInt8_eq_ok.1 hstatus).1, hstatus⟩⟩

theorem parseProgramAccount_whole (h : parseProgramAccount data = .ok bs) :
    bytesAt? data 4 32 = some bs ∧ bs.length = 32 := by
  obtain ⟨hle, -, rfl⟩ := parseProgramAccount_eq_ok.1 h
  have hbytes := (@bytesAt?_subarray data 4 36 (by decide)).2 hle
  exact ⟨hbytes, length_of_bytesAt? hbytes⟩

theorem parseProgramDataAuthority_whole :
    (∀ bs, parseProgramDataAuthority data = .ok (some bs) →
      bytesAt? data 13 32 = some bs ∧ bs.length = 32) ↔ ¬TruncatedAuthority data := by
  constructor
  · intro h ⟨hle, hlt, htag, hsome⟩
    have hok : parseProgramDataAuthority data = .ok (some (subarray data 13 45)) :=
      parseProgramDataAuthority_eq_ok.2 ⟨hle, readUInt32LE_eq_ok.2 ⟨by omega, htag⟩, _,
        readUInt8_eq_ok.2 ⟨by omega, rfl⟩, if_neg hsome⟩
    have := (bytesAt?_eq_some.1 (h _ hok).1).1
    omega
  · intro h bs hbs
    obtain ⟨hle, htag, isSome, hsome, hauthority⟩ := parseProgramDataAuthority_eq_ok.1 hbs
    split at hauthority
    · cases hauthority
    · cases hauthority
      have hwhole : 45 ≤ data.length := by
        by_contra hlt
        refine h ⟨hle, by omega, (readUInt32LE_eq_ok.1 htag).2, ?_⟩
        rw [(readUInt8_eq_ok.1 hsome).2]
        assumption
      have hbytes := (@bytesAt?_subarray data 13 45 (by decide)).2 hwhole
      exact ⟨hbytes, length_of_bytesAt? hbytes⟩

/-- `decodeGroup` and `parseProgramDataAuthority` return only what is in the data exactly if the
account does not end before the code, or before the upgrade authority it says it has;
`parseProgramAccount` always does. -/
theorem decoders_whole (address : String) (data : List UInt8) :
    ((∀ g, decodeGroup address data = .ok g → g.WholeIn data) ↔ ¬TruncatedCode data) ∧
    (∀ bs, parseProgramAccount data = .ok bs → bytesAt? data 4 32 = some bs ∧ bs.length = 32) ∧
    ((∀ bs, parseProgramDataAuthority data = .ok (some bs) →
      bytesAt? data 13 32 = some bs ∧ bs.length = 32) ↔ ¬TruncatedAuthority data) :=
  ⟨decodeGroup_whole, fun _ => parseProgramAccount_whole, parseProgramDataAuthority_whole⟩

namespace Demo

/-- ProgramData of 44 bytes: an upgrade authority without its last byte. -/
def shortProgramData : List UInt8 := [3, 0, 0, 0] ++ .replicate 8 0 ++ [1] ++ .replicate 31 7

/-- An active group whose data ends behind the length of its code, which is 6. -/
def shortGroup : List UInt8 :=
  GROUP_DISCRIMINATOR ++ .replicate 124 0 ++ [1] ++ .replicate 75 0 ++ [6, 0, 0, 0]

end Demo

/-- The decoders accept both: the group without its code, and an authority of 31 bytes. -/
theorem decoders_accept_truncated :
    (decodeGroup "GroupA" Demo.shortGroup = .ok ⟨"GroupA", 0, 0, 0, 1, ""⟩ ∧
      readUInt32LE Demo.shortGroup 208 = .ok 6 ∧ bytesAt? Demo.shortGroup 212 6 = none) ∧
    parseProgramDataAuthority Demo.shortProgramData = .ok (some (.replicate 31 7)) ∧
      bytesAt? Demo.shortProgramData 13 32 = none := by
  decide +kernel

end SafeNudge.Watchdog
