import SafeNudge.Lib.Bytes
import SafeNudge.Lib.Utf8

/-!
# Codecs

A `Codec` is a writer and a reader of values in front of other bytes, with one law: the reader
accepts what the writer wrote of a valid value, gives back that value and what follows it, and
accepts nothing else. The law says both that values round-trip and that there is one encoding of
each. Bytes, integers, booleans, text, fixed arrays and products are codecs; a format is built from
them and inherits the law.
-/

namespace Lib

structure Codec (α : Type) where
  encode : α → List UInt8
  decode : List UInt8 → Option (α × List UInt8)
  /-- What the format can hold. -/
  Valid : α → Prop
  decode_eq_some : ∀ {data rest : List UInt8} {a : α},
    decode data = some (a, rest) ↔ Valid a ∧ data = encode a ++ rest

namespace Codec

variable {α β : Type}

theorem bind_eq_some {x : Option α} {f : α → Option β} {b : β} :
    (x >>= f) = some b ↔ ∃ a, x = some a ∧ f a = some b := Option.bind_eq_some_iff

section
variable {c : Codec α} {a a' : α} {rest rest' : List UInt8}

theorem decode_encode (h : c.Valid a) : c.decode (c.encode a ++ rest) = some (a, rest) :=
  c.decode_eq_some.2 ⟨h, rfl⟩

/-- No encoding continues another one. -/
theorem encode_inj (h : c.Valid a) (h' : c.Valid a')
    (he : c.encode a ++ rest = c.encode a' ++ rest') : a = a' ∧ rest = rest' := by
  have hd := @decode_encode _ c a rest h
  rw [he, decode_encode h'] at hd
  simpa only [Option.some.injEq, Prod.mk.injEq, eq_comm] using hd

end

/-! ## Combinators -/

/-- One value after the other. -/
def pair (c : Codec α) (d : Codec β) : Codec (α × β) where
  encode p := c.encode p.1 ++ d.encode p.2
  decode data := do
    let (a, data) ← c.decode data
    let (b, data) ← d.decode data
    some ((a, b), data)
  Valid p := c.Valid p.1 ∧ d.Valid p.2
  decode_eq_some := by
    rintro data rest ⟨a, b⟩
    simp only [bind_eq_some, Prod.exists, c.decode_eq_some,
      d.decode_eq_some, Option.some.injEq, Prod.mk.injEq, List.append_assoc]
    constructor
    · rintro ⟨a, _, ⟨ha, rfl⟩, b, rest, ⟨hb, rfl⟩, ⟨rfl, rfl⟩, rfl⟩
      exact ⟨⟨ha, hb⟩, rfl⟩
    · rintro ⟨⟨ha, hb⟩, rfl⟩
      exact ⟨a, _, ⟨ha, rfl⟩, b, rest, ⟨hb, rfl⟩, ⟨rfl, rfl⟩, rfl⟩

/-- Another type for the same bytes. `get` may refuse a value that `c` reads. -/
def narrow (c : Codec α) (get : α → Option β) (put : β → α)
    (law : ∀ {a b}, get a = some b ↔ put b = a) : Codec β where
  encode b := c.encode (put b)
  decode data := do
    let (a, data) ← c.decode data
    let b ← get a
    some (b, data)
  Valid b := c.Valid (put b)
  decode_eq_some := by
    rintro data rest b
    simp only [bind_eq_some, Prod.exists, c.decode_eq_some, law,
      Option.some.injEq, Prod.mk.injEq]
    constructor
    · rintro ⟨a, _, ⟨ha, rfl⟩, b, rfl, rfl, rfl⟩
      exact ⟨ha, rfl⟩
    · rintro ⟨ha, rfl⟩
      exact ⟨put b, rest, ⟨ha, rfl⟩, b, rfl, rfl, rfl⟩

/-- A structure with the components of a product. -/
def iso (c : Codec α) (get : α → β) (put : β → α) (law : ∀ a, put (get a) = a)
    (law' : ∀ b, get (put b) = b) : Codec β :=
  c.narrow (fun a => some (get a)) put fun {a b} => by
    rw [Option.some_inj]
    exact ⟨fun h => h ▸ law a, fun h => h ▸ law' b⟩

/-- `n` values. -/
def decodeList (c : Codec α) : Nat → List UInt8 → Option (List α × List UInt8)
  | 0, data => some ([], data)
  | n + 1, data => do
    let (a, data) ← c.decode data
    let (as, data) ← decodeList c n data
    some (a :: as, data)

theorem decodeList_eq_some {c : Codec α} {n : Nat} {data rest : List UInt8} {as : List α} :
    c.decodeList n data = some (as, rest) ↔
      as.length = n ∧ (∀ a ∈ as, c.Valid a) ∧ data = as.flatMap c.encode ++ rest := by
  induction n generalizing data rest as with
  | zero =>
    rw [decodeList, Option.some_inj, Prod.mk.injEq, List.length_eq_zero_iff]
    constructor
    · rintro ⟨rfl, rfl⟩
      exact ⟨rfl, by simp⟩
    · rintro ⟨rfl, -, rfl⟩
      exact ⟨rfl, rfl⟩
  | succ n ih =>
    simp only [decodeList, bind_eq_some, Prod.exists,
      c.decode_eq_some, ih, Option.some.injEq, Prod.mk.injEq]
    constructor
    · rintro ⟨a, _, ⟨ha, rfl⟩, as, rest, ⟨rfl, has, rfl⟩, rfl, rfl⟩
      refine ⟨rfl, ?_, by rw [List.flatMap_cons, List.append_assoc]⟩
      intro b hb
      rcases List.mem_cons.1 hb with rfl | hb
      · exact ha
      · exact has b hb
    · rintro ⟨hn, has, rfl⟩
      obtain ⟨a, as, rfl⟩ := List.exists_cons_of_length_eq_add_one hn
      exact ⟨a, _, ⟨has a List.mem_cons_self, by rw [List.flatMap_cons, List.append_assoc]⟩, as, rest,
        ⟨Nat.succ.inj hn, fun b hb => has b (List.mem_cons_of_mem _ hb), rfl⟩, rfl, rfl⟩

/-- The array of `n` values. -/
def ofList? {n : Nat} (as : List α) : Option (Vector α n) :=
  if h : as.toArray.size = n then some ⟨as.toArray, h⟩ else none

theorem ofList?_eq_some {n : Nat} {as : List α} {v : Vector α n} :
    ofList? as = some v ↔ v.toList = as := by
  unfold ofList?
  split
  · rw [Option.some_inj]
    constructor
    · rintro rfl
      rfl
    · rintro rfl
      rfl
  · rename_i hn
    refine ⟨fun h => absurd h (by simp), ?_⟩
    rintro rfl
    exact absurd (by simp) hn

/-- A fixed number of values. -/
def array (c : Codec α) (n : Nat) : Codec (Vector α n) where
  encode v := v.toList.flatMap c.encode
  decode data := do
    let (as, data) ← c.decodeList n data
    let v ← ofList? as
    some (v, data)
  Valid v := ∀ a ∈ v.toList, c.Valid a
  decode_eq_some := by
    rintro data rest v
    simp only [bind_eq_some, Prod.exists, decodeList_eq_some,
      ofList?_eq_some, Option.some.injEq, Prod.mk.injEq]
    constructor
    · rintro ⟨as, _, ⟨-, has, rfl⟩, v, rfl, rfl, rfl⟩
      exact ⟨has, rfl⟩
    · rintro ⟨has, rfl⟩
      exact ⟨v.toList, rest, ⟨Vector.length_toList, has, rfl⟩, v, rfl, rfl, rfl⟩

end Codec

/-! ## Bytes and integers -/

theorem ofLE_lt {bs : List UInt8} : ofLE bs < 256 ^ bs.length := by
  induction bs with
  | nil => decide
  | cons b bs ih =>
    have hb := b.toNat_lt
    rw [ofLE, List.length_cons, Nat.pow_succ]
    omega

theorem toLE_ofLE {bs : List UInt8} : toLE bs.length (ofLE bs) = bs := by
  induction bs with
  | nil => rfl
  | cons b bs ih =>
    have hb := b.toNat_lt
    rw [List.length_cons, toLE, ofLE, show (b.toNat + 256 * ofLE bs) / 256 = ofLE bs by omega, ih]
    congr 1
    rw [← UInt8.toNat_inj, UInt8.toNat_ofNat']
    omega

namespace Codec

/-- One byte. -/
def u8 : Codec UInt8 where
  encode b := [b]
  decode
    | [] => none
    | b :: data => some (b, data)
  Valid _ := True
  decode_eq_some := by
    rintro (_ | ⟨b, data⟩) rest a
    · simp
    · simp

/-- A number of `w` little-endian bytes. -/
def uint (w : Nat) : Codec Nat where
  encode n := toLE w n
  decode data := if w ≤ data.length then some (ofLE (data.take w), data.drop w) else none
  Valid n := n < 256 ^ w
  decode_eq_some := by
    rintro data rest n
    split
    · rename_i hw
      have hlen : (data.take w).length = w := by rw [List.length_take]; omega
      rw [Option.some_inj, Prod.mk.injEq]
      constructor
      · rintro ⟨rfl, rfl⟩
        have hlt := @ofLE_lt (data.take w)
        have hrt := @toLE_ofLE (data.take w)
        rw [hlen] at hlt hrt
        exact ⟨hlt, by rw [hrt, List.take_append_drop]⟩
      · rintro ⟨hn, rfl⟩
        rw [List.take_left' length_toLE, List.drop_left' length_toLE]
        exact ⟨ofLE_toLE hn, rfl⟩
    · rename_i hw
      refine ⟨fun h => absurd h (by simp), ?_⟩
      rintro ⟨-, rfl⟩
      rw [List.length_append, length_toLE] at hw
      omega

/-- The machine integer with this number. -/
def ofNat? (ofNat : Nat → α) (toNat : α → Nat) (n : Nat) : Option α :=
  if toNat (ofNat n) = n then some (ofNat n) else none

theorem ofNat?_eq_some {ofNat : Nat → α} {toNat : α → Nat} (h : ∀ a, ofNat (toNat a) = a)
    {n : Nat} {a : α} : ofNat? ofNat toNat n = some a ↔ toNat a = n := by
  unfold ofNat?
  split
  · rename_i hn
    rw [Option.some_inj]
    exact ⟨fun he => he ▸ hn, fun he => he ▸ h a⟩
  · rename_i hn
    refine ⟨fun he => absurd he (by simp), ?_⟩
    rintro rfl
    exact absurd (by rw [h]) hn

def u32 : Codec UInt32 := (uint 4).narrow (ofNat? .ofNat UInt32.toNat) UInt32.toNat
  (ofNat?_eq_some fun _ => UInt32.ofNat_toNat)

def u64 : Codec UInt64 := (uint 8).narrow (ofNat? .ofNat UInt64.toNat) UInt64.toNat
  (ofNat?_eq_some fun _ => UInt64.ofNat_toNat)

/-- Two's complement. -/
def i64 : Codec Int64 := u64.iso UInt64.toInt64 Int64.toUInt64 (fun _ => rfl) fun _ => rfl

/-- One byte, 0 or 1. -/
def bool : Codec Bool :=
  u8.narrow (fun b => if b = 0 then some false else if b = 1 then some true else none)
    (fun b => if b then 1 else 0) fun {a b} => by
      constructor
      · intro h
        split at h
        · cases h
          exact Eq.symm ‹_›
        split at h
        · cases h
          exact Eq.symm ‹_›
        · cases h
      · rintro rfl
        cases b <;> rfl

/-! ## Text -/

/-- Bytes as text, when they are the UTF-8 encoding of one. -/
def ofUtf8? (bs : List UInt8) : Option String :=
  if Utf8.encode (Utf8.decode bs) = bs then some (Utf8.decode bs) else none

theorem ofUtf8?_eq_some {bs : List UInt8} {s : String} :
    ofUtf8? bs = some s ↔ Utf8.encode s = bs := by
  unfold ofUtf8?
  split
  · rename_i hs
    rw [Option.some_inj]
    constructor
    · rintro rfl
      exact hs
    · rintro rfl
      exact Utf8.decode_encode
  · rename_i hs
    refine ⟨fun h => absurd h (by simp), ?_⟩
    rintro rfl
    exact absurd (by rw [Utf8.decode_encode]) hs

/-- The number of bytes as `u32`, and UTF-8. -/
def string : Codec String where
  encode s := toLE 4 (Utf8.encode s).length ++ Utf8.encode s
  decode data := do
    let (n, data) ← (uint 4).decode data
    let (bs, data) ← u8.decodeList n data
    let s ← ofUtf8? bs
    some (s, data)
  Valid s := (Utf8.encode s).length < 2 ^ 32
  decode_eq_some := by
    rintro data rest s
    have hbytes : ∀ bs : List UInt8, bs.flatMap u8.encode = bs := fun bs => List.flatMap_singleton' bs
    simp only [bind_eq_some, Prod.exists, (uint 4).decode_eq_some,
      decodeList_eq_some, ofUtf8?_eq_some, hbytes, Option.some.injEq, Prod.mk.injEq,
      List.append_assoc]
    constructor
    · rintro ⟨n, _, ⟨hn, rfl⟩, bs, _, ⟨rfl, -, rfl⟩, s, rfl, rfl, rfl⟩
      exact ⟨hn, rfl⟩
    · rintro ⟨hs, rfl⟩
      exact ⟨_, _, ⟨hs, rfl⟩, Utf8.encode s, rest, ⟨rfl, fun _ _ => trivial, rfl⟩, s, rfl, rfl, rfl⟩

end Codec

end Lib
