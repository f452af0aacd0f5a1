import SafeNudge.Invariant.Others
import SafeNudge.Model.Storage
import SafeNudge.Model.Symbolic
import SafeNudge.Property.AccountData

/-!
# The bytes carry the state

`Chain` runs on stored bytes and `State` on typed accounts; here each is shown to be the other. A
buffer of this program holds an account and then zeros, for as long as the account lives
(`Slot.Sound`). Two facts keep it so: an address never changes its account type or its group code,
so a new value is as long as the one it overwrites, and accounts of no known type are not touched.
-/

namespace SafeNudge

open Lib

variable {K : Type} {keys : KeyBytes K}

/-! ## Lengths -/

/-- The length of what is stored at an address with these seeds. -/
def Seeds.dataLen : Seeds K → Nat
  | .group code => 212 + code.utf8ByteSize
  | .vault _ => 0
  | .member _ _ => MEMBER_RECORD_SPACE
  | .join _ => JOIN_GATE_SPACE
  | .tally _ _ => JOIN_TALLY_SPACE

def Seeds.space : Seeds K → Nat
  | .group _ => GROUP_CONFIG_SPACE
  | .vault _ => 0
  | .member _ _ => MEMBER_RECORD_SPACE
  | .join _ => JOIN_GATE_SPACE
  | .tally _ _ => JOIN_TALLY_SPACE

theorem length_serialize_group (g : GroupConfig K) :
    ((Account.groupConfig g).serialize keys.toBytes).length = 212 + g.groupCode.utf8ByteSize := by
  rw [← Utf8.length_encode_eq]
  exact g.length_fields

theorem length_serialize_record (r : MemberRecord K) :
    ((Account.memberRecord r).serialize keys.toBytes).length = MEMBER_RECORD_SPACE := by
  show (r.fields keys.toBytes).flatten.length = _
  simp only [MemberRecord.fields, List.flatten_cons, List.flatten_nil, List.length_append,
    List.length_map, Vector.length_toList, length_toLE, borshU64, length_discriminators,
    List.length_cons, List.length_nil, MEMBER_RECORD_SPACE]

theorem length_serialize_gate (j : JoinGate K) :
    ((Account.joinGate j).serialize keys.toBytes).length = JOIN_GATE_SPACE := by
  show (j.fields keys.toBytes).flatten.length = _
  simp only [JoinGate.fields, List.flatten_cons, List.flatten_nil, List.length_append,
    Vector.length_toList, length_discriminators, List.length_nil, JOIN_GATE_SPACE]

theorem length_serialize_tally (t : JoinTally K) :
    ((Account.joinTally t).serialize keys.toBytes).length = JOIN_TALLY_SPACE := by
  show (t.fields keys.toBytes).flatten.length = _
  simp only [JoinTally.fields, List.flatten_cons, List.flatten_nil, List.length_append,
    Vector.length_toList, length_toLE, borshU32, length_discriminators, List.length_nil,
    JOIN_TALLY_SPACE]

/-! ## One buffer -/

/-- An account of the program, and zeros to the end of its buffer. -/
def Account.image (keys : KeyBytes K) (a : Account K) : List UInt8 :=
  a.serialize keys.toBytes ++ .replicate (a.space - (a.serialize keys.toBytes).length) 0

theorem overwrite_zeros {n : Nat} {bytes : List UInt8} (h : bytes.length ≤ n) :
    overwrite (.replicate n 0) bytes = some (bytes ++ .replicate (n - bytes.length) 0) := by
  rw [overwrite, if_pos (by rwa [List.length_replicate]), List.drop_replicate]

/-- Over an account of the same length and space. -/
theorem overwrite_image {a a' : Account K} (hs : a.space = a'.space)
    (hl : (a.serialize keys.toBytes).length = (a'.serialize keys.toBytes).length) :
    overwrite (a.image keys) (a'.serialize keys.toBytes) = some (a'.image keys) := by
  unfold Account.image
  rw [overwrite, if_pos (by rw [List.length_append]; omega), ← hl, List.drop_left, ← hs]

theorem ofData?_image {a : Account K} (h : a.Storable) : Account.ofData? keys (a.image keys) = some a :=
  ofData?_eq_some.2 ⟨h, _, rfl⟩

/-- Zeros are no account. -/
theorem ofData?_zeros {data : List UInt8} (h : ∀ b ∈ data, b = 0) :
    Account.ofData? keys data = none := by
  cases hd : Account.ofData? keys data with
  | none => rfl
  | some a =>
    obtain ⟨ha, rest, rfl⟩ := ofData?_eq_some.1 hd
    have htake : (a.serialize keys.toBytes ++ rest).take 8 = a.discriminator := ha.take_serialize
    have hzero : ∀ b ∈ a.discriminator, b = 0 := by
      rw [← htake]
      exact fun b hb => h b (List.mem_of_mem_take hb)
    have hne : ∀ d ∈ [GROUP_CONFIG_DISCRIMINATOR, MEMBER_RECORD_DISCRIMINATOR,
        JOIN_GATE_DISCRIMINATOR, JOIN_TALLY_DISCRIMINATOR], ∃ b ∈ d, b ≠ 0 := by
      decide +kernel
    have hmem : a.discriminator ∈ [GROUP_CONFIG_DISCRIMINATOR, MEMBER_RECORD_DISCRIMINATOR,
        JOIN_GATE_DISCRIMINATOR, JOIN_TALLY_DISCRIMINATOR] := by
      cases a with
      | groupConfig | memberRecord | joinGate | joinTally => simp [Account.discriminator]
      | system | token | mint | other => exact ha.elim
    obtain ⟨b, hb, hb0⟩ := hne _ hmem
    exact absurd (hzero b hb) hb0

/-! ## One address -/

/-- What is at an address of a chain. -/
inductive Slot.Sound (E : Env K) (keys : KeyBytes K) : Slot K → Prop where
  | zeros {bytes : List UInt8} : (∀ b ∈ bytes, b = 0) → Slot.Sound E keys (.data bytes)
  | image {a : Account K} : a.Storable → (a.serialize keys.toBytes).length ≤ a.space →
      Slot.Sound E keys (.data (a.image keys))
  | foreign {a : Account K} : a.owner E ≠ E.programId → Slot.Sound E keys (.foreign a)

/-- What an instruction may turn an account into: a value that fits its space, of the length of the
value it replaces, and no account of another type. -/
structure Follows (E : Env K) (keys : KeyBytes K) (a a' : Account K) : Prop where
  fits : a'.IsProgram → a'.Storable ∧ (a'.serialize keys.toBytes).length ≤ a'.space
  same : a'.IsProgram → a.owner E = E.programId → a.space = a'.space ∧
    (a.serialize keys.toBytes).length = (a'.serialize keys.toBytes).length ∧ a.IsProgram
  other : a'.other? = a.other?

variable {E : Env K} {slot : Slot K} {a a' : Account K}

theorem account_zeros {bytes : List UInt8} (h : ∀ b ∈ bytes, b = 0) :
    (Slot.data bytes).account E keys = .other E.programId := by
  rw [Slot.account, ofData?_zeros h, Option.getD_none]

theorem account_image (h : a.Storable) : (Slot.data (a.image keys)).account E keys = a := by
  rw [Slot.account, ofData?_image h, Option.getD_some]

theorem Account.IsProgram.owner (h : a.IsProgram) : a.owner E = E.programId := by
  cases a with
  | groupConfig | memberRecord | joinGate | joinTally => rfl
  | system | token | mint | other => exact h.elim

/-- Bytes of this program never read as somebody else's account. -/
theorem Slot.owner_data (bytes : List UInt8) :
    ((Slot.data bytes).account E keys).owner E = E.programId := by
  rw [Slot.account]
  cases hd : Account.ofData? keys bytes with
  | none => rfl
  | some a => exact (ofData?_eq_some.1 hd).1.isProgram.owner

/-- An account of the two other known owners. -/
theorem Env.owner_ne (E : Env K) : (Account.system : Account K).owner E ≠ E.programId ∧
    ∀ p : TokenProgram, E.tokenKey p ≠ E.programId := by
  have hnd := E.programs_nodup
  simp only [List.nodup_cons, List.mem_cons, List.not_mem_nil, not_or] at hnd
  obtain ⟨⟨hs, ht, ht', -⟩, -⟩ := hnd
  refine ⟨Ne.symm hs, fun p => ?_⟩
  cases p with
  | token => exact Ne.symm ht
  | token2022 => exact Ne.symm ht'

/-- Everything that is not of this program. -/
theorem Account.owner_ne (h : ¬a.IsProgram) (hne : a ≠ .other E.programId) :
    a.owner E ≠ E.programId := by
  cases a with
  | groupConfig | memberRecord | joinGate | joinTally => exact absurd trivial h
  | system => exact E.owner_ne.1
  | token p t => exact E.owner_ne.2 p
  | mint p m => exact E.owner_ne.2 p
  | other o => exact fun ho => hne (congrArg Account.other ho)

section
variable [DecidableEq K]

theorem Slot.write_program (h : a.IsProgram) :
    slot.write E keys a = (overwrite (slot.buffer a.space) (a.serialize keys.toBytes)).map .data := by
  cases a with
  | groupConfig | memberRecord | joinGate | joinTally => rfl
  | system | token | mint | other => exact h.elim

/-- The write goes through, and reads back. -/
theorem Slot.Sound.write (h : slot.Sound E keys) (hf : Follows E keys (slot.account E keys) a') :
    ∃ slot', slot.write E keys a' = some slot' ∧ slot'.account E keys = a' ∧ slot'.Sound E keys := by
  have hprog : a'.IsProgram → ∃ slot', slot.write E keys a' = some slot' ∧
      slot'.account E keys = a' ∧ slot'.Sound E keys := by
    intro ha'
    obtain ⟨hs', hle'⟩ := hf.fits ha'
    rw [Slot.write_program ha']
    refine ⟨.data (a'.image keys), ?_, account_image hs', .image hs' hle'⟩
    cases h with
    | zeros hz =>
      have := (hf.same ha' (Slot.owner_data _)).2.2
      rw [account_zeros hz] at this
      exact this.elim
    | image hs hle =>
      obtain ⟨hsp, hlen, -⟩ := hf.same ha' (Slot.owner_data _)
      rw [account_image hs] at hsp hlen
      rw [Slot.buffer, overwrite_image hsp hlen, Option.map_some]
    | foreign ho =>
      rw [Slot.buffer, overwrite_zeros hle', Option.map_some, Account.image]
  cases a' with
  | groupConfig g => exact hprog trivial
  | memberRecord r => exact hprog trivial
  | joinGate j => exact hprog trivial
  | joinTally t => exact hprog trivial
  | system => exact ⟨_, rfl, rfl, .foreign E.owner_ne.1⟩
  | token p t => exact ⟨_, rfl, rfl, .foreign (E.owner_ne.2 p)⟩
  | mint p m => exact ⟨_, rfl, rfl, .foreign (E.owner_ne.2 p)⟩
  | other o =>
    have ho : slot.account E keys = .other o := Account.other?_eq_some.1 hf.other.symm
    by_cases hp : o = E.programId
    · exact ⟨slot, by rw [Slot.write, if_pos hp], ho, h⟩
    · exact ⟨.foreign (.other o), by rw [Slot.write, if_neg hp], rfl, .foreign hp⟩

/-! ## One instruction -/

section
variable {s s' : State K} {k : K}

/-- The seeds of an address fix the length and the space of what the program keeps there. -/
theorem Layout.length_at (keys : KeyBytes K) (hL : Layout E s.ledger) (ha : (s.account k).IsProgram) :
    ∃ seeds b, E.findProgramAddress seeds = some (k, b) ∧
      ((s.account k).serialize keys.toBytes).length = seeds.dataLen ∧
      (s.account k).space = seeds.space := by
  cases h : s.account k with
  | groupConfig g =>
    exact ⟨.group g.groupCode, _, (hL.group (State.group_eq_some.2 h)).address,
      length_serialize_group g, rfl⟩
  | memberRecord r =>
    exact ⟨_, _, (hL.placed (State.record_eq_some.2 h)).address, length_serialize_record r, rfl⟩
  | joinGate j =>
    obtain ⟨-, G, g, b, -, hb⟩ := hL.gate (State.gate_eq_some.2 h)
    exact ⟨_, b, hb, length_serialize_gate j, rfl⟩
  | joinTally t =>
    obtain ⟨-, -, G, M, b, hb⟩ := hL.tally (State.tally_eq_some.2 h)
    exact ⟨_, b, hb, length_serialize_tally t, rfl⟩
  | system | token | mint | other =>
    rw [h] at ha
    exact ha.elim

/-- Every account a reached state holds fits the space it was created with. -/
theorem Reached.fits {h : List (StepEntry K)} (keys : KeyBytes K) (hr : Reached E h s) (ha : (s.account k).IsProgram) :
    (s.account k).Storable ∧
      ((s.account k).serialize keys.toBytes).length ≤ (s.account k).space := by
  cases hk : s.account k with
  | groupConfig g =>
    have hcode := (hr.code (State.group_eq_some.2 hk)).1.2
    refine ⟨?_, ?_⟩
    · show (Utf8.encode g.groupCode).length < 2 ^ 32
      rw [Utf8.length_encode_eq]
      omega
    · rw [length_serialize_group]
      show _ ≤ GROUP_CONFIG_SPACE
      unfold GROUP_CONFIG_SPACE
      omega
  | memberRecord r => exact ⟨trivial, Nat.le_of_eq (length_serialize_record r)⟩
  | joinGate j => exact ⟨trivial, Nat.le_of_eq (length_serialize_gate j)⟩
  | joinTally t => exact ⟨trivial, Nat.le_of_eq (length_serialize_tally t)⟩
  | system | token | mint | other =>
    rw [hk] at ha
    exact ha.elim

theorem execute_follows {h : List (StepEntry K)} {ctx : Ctx K} {c : Call K}
    {events : List (Event K)} (hr : Reached E h s) (hx : execute E ctx c s = .ok (s', events))
    (k : K) : Follows E keys (s.account k) (s'.account k) := by
  have hL := (Reached.inv hr).toLayout
  have hr' : Reached E _ s' := .snoc hr (.call hx)
  have hother : (s'.account k).other? = (s.account k).other? := congrFun (execute_others hL hx) k
  refine ⟨fun ha' => Reached.fits keys hr' ha', fun ha' ho => ?_, hother⟩
  -- owned by the program and not of an unknown type: one of its accounts
  have ha : (s.account k).IsProgram := by
    cases hk : s.account k with
    | groupConfig | memberRecord | joinGate | joinTally => trivial
    | system => exact absurd (by rw [← hk, ho]) E.owner_ne.1
    | token p t => exact absurd (by rw [← ho, hk]; rfl) (E.owner_ne.2 p)
    | mint p m => exact absurd (by rw [← ho, hk]; rfl) (E.owner_ne.2 p)
    | other o =>
      rw [hk] at hother
      rw [Account.other?_eq_some.1 hother] at ha'
      exact ha'.elim
  obtain ⟨seeds, b, hb, hlen, hsp⟩ := Layout.length_at keys hL ha
  obtain ⟨seeds', b', hb', hlen', hsp'⟩ :=
    Layout.length_at keys (Reached.inv hr').toLayout ha'
  obtain rfl := Env.findProgramAddress_inj hb hb'
  exact ⟨hsp.trans hsp'.symm, hlen.trans hlen'.symm, ha⟩

end

end

/-! ## The two systems -/

variable {c c' : Chain K}

/-- Every address of a chain is sound. -/
def Chain.Sound (E : Env K) (keys : KeyBytes K) (c : Chain K) : Prop :=
  ∀ k, (c.slot k).Sound E keys

theorem Chain.Sound.owner_foreign (hc : c.Sound E keys) {k : K}
    (hk : c.slot k = .foreign a) : a.owner E ≠ E.programId := by
  have h := hc k
  rw [hk] at h
  cases h with
  | foreign h => exact h

theorem account_foreign {k : K} (hk : c.slot k = .foreign a) : (c.state E keys).account k = a := by
  show (c.slot k).account E keys = a
  rw [hk]
  rfl

/-- An account of another owner is not stored as bytes of this program. -/
theorem slot_of_account {k : K} (hk : (c.state E keys).account k = a)
    (ha : a.owner E ≠ E.programId) : c.slot k = .foreign a := by
  change (c.slot k).account E keys = a at hk
  cases h : c.slot k with
  | data bytes =>
    rw [h] at hk
    exact absurd (hk ▸ Slot.owner_data bytes) ha
  | foreign a' =>
    rw [h] at hk
    exact congrArg Slot.foreign hk

/-- An account of the program is stored as its fields and zeros. -/
theorem Chain.Sound.slot_eq (hc : c.Sound E keys) {k : K} (hk : (c.state E keys).account k = a)
    (ha : a.IsProgram) : c.slot k = .data (a.image keys) ∧ a.Storable := by
  have hs := hc k
  change (c.slot k).account E keys = a at hk
  generalize c.slot k = slot at hk hs
  cases hs with
  | zeros hz =>
    rw [account_zeros hz] at hk
    rw [← hk] at ha
    exact ha.elim
  | image hst =>
    rw [account_image hst] at hk
    rw [hk] at hst
    exact ⟨by rw [hk], hst⟩
  | foreign ho =>
    rw [show a = _ from hk.symm] at ha
    exact absurd ha.owner ho

variable [DecidableEq K]

/-- The write of all accounts on exit. -/
theorem Chain.Sound.write {s' : State K} (hc : c.Sound E keys)
    (hf : ∀ k, Follows E keys ((c.state E keys).account k) (s'.account k)) :
    ∃ c' : Chain K, (∀ k, (c.slot k).write E keys (s'.account k) = some (c'.slot k)) ∧
      c'.lamports = s'.lamports ∧ c'.state E keys = s' ∧ c'.Sound E keys := by
  choose slot hw hr hs using fun k => (hc k).write (hf k)
  refine ⟨⟨s'.lamports, slot⟩, hw, rfl, ?_, hs⟩
  show State.mk _ _ = _
  rw [show (fun k => (slot k).account E keys) = s'.account from funext hr]

/-- What other programs can do to the bytes is what they can do to the accounts. -/
theorem outside_of_chain (hc : c.Sound E keys) (h : c.Outside E c') :
    Outside E (c.state E keys) (c'.state E keys) ∧ c'.Sound E keys := by
  have hsound : c'.Sound E keys := by
    intro k
    cases hk : c'.slot k with
    | foreign a => exact .foreign (h.foreign k a hk)
    | data bytes =>
      rcases h.assigned k bytes hk with hk' | hz
      · exact hk' ▸ hc k
      · exact .zeros hz
  have hdata : ∀ {k bytes}, c.slot k = .data bytes →
      (c'.state E keys).account k = (c.state E keys).account k := by
    intro k bytes hk
    show (c'.slot k).account E keys = (c.slot k).account E keys
    rw [hk, (h.owned k bytes hk).1]
  refine ⟨⟨fun k hk => ?_, fun k hk => ?_, fun {seeds b k} hd => ?_, fun k hm => ?_⟩, hsound⟩
  · cases hs : c.slot k with
    | data bytes => exact ⟨hdata hs, (h.owned k bytes hs).2⟩
    | foreign a => exact absurd (account_foreign hs ▸ hk) (hc.owner_foreign hs)
  · cases hs : c'.slot k with
    | data bytes =>
      rcases h.assigned k bytes hs with hs' | hz
      · exact hdata hs'
      · change ((c'.slot k).account E keys).IsProgram at hk
        rw [hs, account_zeros hz] at hk
        exact hk.elim
    | foreign a => exact absurd (account_foreign hs ▸ hk.owner) (hsound.owner_foreign hs)
  · obtain ⟨hl, hsys, htok⟩ := h.derived hd
    refine ⟨hl, fun hk => ?_, fun p t hk => ?_⟩
    · exact account_foreign (hsys (slot_of_account hk E.owner_ne.1))
    · obtain ⟨n, hn, hs⟩ := htok p t (slot_of_account hk (E.owner_ne.2 p))
      exact ⟨n, hn, account_foreign hs⟩
  · cases hk : (c.state E keys).account k with
    | mint p m =>
      rw [hk] at hm
      obtain ⟨a', ha', hm'⟩ := h.mint k _ (slot_of_account hk (E.owner_ne.2 p)) hm
      exact account_foreign ha' ▸ hm'
    | system | groupConfig | memberRecord | joinGate | joinTally | token | other =>
      rw [hk] at hm
      exact hm.elim

/-- The bytes after a step of other programs that leaves the account `a'`: data stays, an account
assigned to this program is empty, everything else is as it is. -/
def Slot.follow (E : Env K) (a' : Account K) : Slot K → Slot K
  | .data bytes => .data bytes
  | .foreign _ => if a' = .other E.programId then .data [] else .foreign a'

theorem Slot.follow_foreign {a a' : Account K} (h : a' ≠ .other E.programId) :
    (Slot.foreign a).follow E a' = .foreign a' := if_neg h

/-- What comes from elsewhere does not read as an account of this program. -/
theorem Outside.owner_ne {s s' : State K} (h : Outside E s s') {k : K}
    (hk : (s.account k).owner E ≠ E.programId) (hk' : s'.account k ≠ .other E.programId) :
    (s'.account k).owner E ≠ E.programId := by
  refine Account.owner_ne (fun hp => ?_) hk'
  exact hk (h.written k hp ▸ hp.owner)

/-- Every step of other programs on the accounts can be made on the bytes. -/
theorem outside_to_chain {s' : State K} (hc : c.Sound E keys) (h : Outside E (c.state E keys) s') :
    ∃ c', c.Outside E c' ∧ c'.state E keys = s' ∧ c'.Sound E keys := by
  have hdata : ∀ {k bytes}, c.slot k = .data bytes →
      s'.account k = (c.state E keys).account k ∧ c.lamports k ≤ s'.lamports k := by
    intro k bytes hk
    refine h.owned k ?_
    show ((c.slot k).account E keys).owner E = _
    rw [hk]
    exact Slot.owner_data bytes
  have howner : ∀ {k a}, c.slot k = .foreign a → s'.account k ≠ .other E.programId →
      (s'.account k).owner E ≠ E.programId := by
    intro k a hk
    have ha : (c.state E keys).account k = a := account_foreign hk
    exact h.owner_ne (ha ▸ hc.owner_foreign hk)
  have hfollow : ∀ k, ((c.slot k).follow E (s'.account k)).account E keys = s'.account k ∧
      ((c.slot k).follow E (s'.account k)).Sound E keys := by
    intro k
    cases hk : c.slot k with
    | data bytes =>
      refine ⟨?_, ?_⟩
      · rw [(hdata hk).1]
        show _ = (c.slot k).account E keys
        rw [hk]
        rfl
      · have hs := hc k
        rw [hk] at hs
        exact hs
    | foreign a =>
      by_cases ho : s'.account k = .other E.programId
      · rw [Slot.follow, if_pos ho, ho]
        exact ⟨account_zeros (by simp), .zeros (by simp)⟩
      · rw [Slot.follow_foreign ho]
        exact ⟨rfl, .foreign (howner hk ho)⟩
  refine ⟨⟨s'.lamports, fun k => (c.slot k).follow E (s'.account k)⟩, ⟨fun k bytes hk => ?_,
    fun k bytes hk => ?_, fun k a hk => ?_, fun {seeds b k} hd => ?_, fun k a hk hm => ?_⟩,
    congrArg (State.mk s'.lamports) (funext fun k => (hfollow k).1), fun k => (hfollow k).2⟩
  · dsimp only
    rw [hk]
    exact ⟨rfl, (hdata hk).2⟩
  · dsimp only at hk
    cases hs : c.slot k with
    | data bytes' => exact .inl (by rw [hs] at hk; exact hk)
    | foreign a =>
      rw [hs, Slot.follow] at hk
      split at hk
      · cases hk
        exact .inr (by simp)
      · cases hk
  · have hsound := (hfollow k).2
    dsimp only at hk
    rw [hk] at hsound
    cases hsound with
    | foreign ho => exact ho
  · obtain ⟨hl, hsys, htok⟩ := h.derived hd
    refine ⟨hl, fun hk => ?_, fun p t hk => ?_⟩
    · have hk' := hsys (account_foreign hk)
      dsimp only
      rw [hk, hk']
      exact Slot.follow_foreign (by simp)
    · obtain ⟨n, hn, hk'⟩ := htok p t (account_foreign hk)
      refine ⟨n, hn, ?_⟩
      dsimp only
      rw [hk, hk']
      exact Slot.follow_foreign (by simp)
  · have hm' := h.mint k (account_foreign hk ▸ hm)
    have hne : s'.account k ≠ .other E.programId := by
      rintro ho
      rw [ho] at hm'
      exact hm'
    refine ⟨s'.account k, ?_, hm'⟩
    dsimp only
    rw [hk]
    exact Slot.follow_foreign hne

/-! ## Runs -/

omit [DecidableEq K] in
theorem genesis_of_chain (h : c.Genesis E) : Genesis E (c.state E keys) ∧ c.Sound E keys := by
  have hsound : c.Sound E keys := by
    intro k
    cases hk : c.slot k with
    | data bytes => exact .zeros (h.data k bytes hk)
    | foreign a => exact .foreign (h.foreign k a hk)
  refine ⟨⟨fun k => ?_, fun {seeds b k} hd => account_foreign (h.derived hd)⟩, hsound⟩
  show ¬((c.slot k).account E keys).IsProgram
  cases hk : c.slot k with
  | data bytes =>
    rw [account_zeros (h.data k bytes hk)]
    exact id
  | foreign a => exact fun hp => hsound.owner_foreign hk hp.owner

theorem genesis_to_chain {s : State K} (h : Genesis E s) :
    ∃ c : Chain K, c.Genesis E ∧ c.state E keys = s ∧ c.Sound E keys := by
  let c : Chain K := ⟨s.lamports, fun k => (Slot.foreign .system).follow E (s.account k)⟩
  have hgen : c.Genesis E := by
    refine ⟨fun k bytes hk => ?_, fun k a hk ho => ?_, fun {seeds b k} hd => ?_⟩
    · change (Slot.foreign .system).follow E (s.account k) = _ at hk
      rw [Slot.follow] at hk
      split at hk
      · cases hk
        simp
      · cases hk
    · change (Slot.foreign .system).follow E (s.account k) = _ at hk
      rw [Slot.follow] at hk
      split at hk
      · cases hk
      · rename_i hne
        cases hk
        exact Account.owner_ne (h.program k) hne ho
    · show (Slot.foreign .system).follow E (s.account k) = _
      rw [h.derived hd]
      exact Slot.follow_foreign (by simp)
  refine ⟨c, hgen, congrArg (State.mk s.lamports) (funext fun k => ?_),
    (genesis_of_chain hgen).2⟩
  show ((Slot.foreign .system).follow E (s.account k)).account E keys = _
  by_cases hk : s.account k = .other E.programId
  · rw [Slot.follow, if_pos hk, hk]
    exact account_zeros (by simp)
  · rw [Slot.follow_foreign hk]
    rfl

theorem step_of_chain {h : List (StepEntry K)} {act : Action K}
    (hr : Reached E h (c.state E keys)) (hc : c.Sound E keys) (hst : Chain.Step E keys c act c') :
    Step E (c.state E keys) act (c'.state E keys) ∧ c'.Sound E keys := by
  cases hst with
  | @call ctx call _ _ s' events hx hl hw =>
    obtain ⟨c₁, hw₁, hl₁, rfl, hs₁⟩ := hc.write (execute_follows hr hx)
    -- the write leaves one chain only
    obtain rfl : c₁ = c' := by
      obtain ⟨l₁, slot₁⟩ := c₁
      obtain ⟨l', slot'⟩ := c'
      obtain rfl : slot₁ = slot' := funext fun k => Option.some.inj ((hw₁ k).symm.trans (hw k))
      obtain rfl : l₁ = l' := hl₁.trans hl.symm
      rfl
    exact ⟨.call hx, hs₁⟩
  | outside ho =>
    obtain ⟨ho', hs'⟩ := outside_of_chain hc ho
    exact ⟨.outside ho', hs'⟩

theorem step_to_chain {h : List (StepEntry K)} {act : Action K} {s' : State K}
    (hr : Reached E h (c.state E keys)) (hc : c.Sound E keys) (hst : Step E (c.state E keys) act s') :
    ∃ c', Chain.Step E keys c act c' ∧ c'.state E keys = s' ∧ c'.Sound E keys := by
  cases hst with
  | call hx =>
    obtain ⟨c', hw, hl, rfl, hs⟩ := hc.write (execute_follows hr hx)
    exact ⟨c', .call hx hl hw, rfl, hs⟩
  | outside ho =>
    obtain ⟨c', ho', rfl, hs⟩ := outside_to_chain hc ho
    exact ⟨c', .outside ho', rfl, hs⟩

/-- A run on bytes. -/
abbrev Chain.Reached (E : Env K) (keys : KeyBytes K) (h : List (Entry (Chain K) (Action K)))
    (c : Chain K) : Prop :=
  Run (Chain.Genesis E) (Chain.Step E keys) h c

/-- A run on bytes is read as one on typed accounts. -/
theorem Chain.Reached.view {h : List (Entry (Chain K) (Action K))}
    (hr : Chain.Reached E keys h c) :
    SafeNudge.Reached E (h.map (Entry.map (Chain.state E keys))) (c.state E keys) ∧ c.Sound E keys :=
  Run.abstract (fun _ => genesis_of_chain) (fun _ _ _ _ hr hc hst => step_of_chain hr hc hst) hr

/-- A run on typed accounts is stored as one on bytes. -/
theorem Reached.stored {h : List (StepEntry K)} {s : State K} (hr : Reached E h s)
    (keys : KeyBytes K) : ∃ h' c, Chain.Reached E keys h' c ∧
      h'.map (Entry.map (Chain.state E keys)) = h ∧ c.state E keys = s := by
  obtain ⟨h', c, hrun, hh, hs, -⟩ := Run.implement (I := Chain.Sound E keys)
    (fun s => genesis_to_chain) (fun h c a s' hr hc hst => step_to_chain hr hc hst) hr
  exact ⟨h', c, hrun, hh, hs⟩

/-- The runs on stored bytes are the runs on typed accounts: each is read as one, with the same
calls and events, every account of the program in its space and zeros behind it; each of those is
stored so; and no successful instruction fails for the space its accounts were created with. -/
theorem storage_refines (E : Env K) (keys : KeyBytes K) :
    (∀ h (c : Chain K), Chain.Reached E keys h c →
      Reached E (h.map (Entry.map (Chain.state E keys))) (c.state E keys) ∧ c.Sound E keys) ∧
    (∀ h s, Reached E h s → ∃ h' c, Chain.Reached E keys h' c ∧
      h'.map (Entry.map (Chain.state E keys)) = h ∧ c.state E keys = s) ∧
    ∀ h c ctx call s' events, Chain.Reached E keys h c →
      execute E ctx call (c.state E keys) = .ok (s', events) →
        ∃ c', Chain.Step E keys c (.call ctx call events) c' ∧ c'.state E keys = s' := by
  refine ⟨fun h c hr => hr.view, fun h s hr => hr.stored keys, fun h c ctx call s' events hr hx => ?_⟩
  obtain ⟨hr', hc⟩ := hr.view
  obtain ⟨c', hst, hs, -⟩ := step_to_chain hr' hc (.call hx)
  exact ⟨c', hst, hs⟩

/-! ## A runtime of short keys -/

namespace Demo

/-- The addresses of the group with code "a", of its vault and its gate, and of the records and the
tallies of wallets 11 and 12. -/
def shortTable : List (Seeds UInt8 × UInt8) :=
  [(.group "a", 30), (.vault 30, 31), (.join 30, 32), (.member 30 11, 33), (.tally 30 11, 34),
    (.member 30 12, 35), (.tally 30 12, 36)]

/-- Keys are bytes, the listed addresses are the only ones, and keys 10 to 19 sign. -/
def short : Env UInt8 where
  programId := 0
  systemProgram := 1
  tokenProgram := 2
  token2022Program := 3
  nativeMint := 4
  nativeMint2022 := 5
  instructionsSysvar := 6
  devnet := false
  associatedTokenAddress owner _ _ := owner + 40
  createProgramAddress s b :=
    if b = 255 then (shortTable.find? (·.1 = s)).map Prod.snd else none
  canSign k := 10 ≤ k ∧ k < 20
  programs_nodup := by decide
  createProgramAddress_inj := by
    intro s s' b b' k h h'
    have hinj : ∀ p ∈ shortTable, ∀ q ∈ shortTable, p.2 = q.2 → p.1 = q.1 := by decide
    obtain ⟨rfl, h⟩ := Option.ite_none_right_eq_some.1 h
    obtain ⟨rfl, h'⟩ := Option.ite_none_right_eq_some.1 h'
    obtain ⟨p, hp, rfl⟩ := Option.map_eq_some_iff.1 h
    obtain ⟨q, hq, he⟩ := Option.map_eq_some_iff.1 h'
    have hps : p.1 = s := by simpa using List.find?_some hp
    have hqs : q.1 = s' := by simpa using List.find?_some hq
    have hpq := hinj p (List.mem_of_find?_eq_some hp) q (List.mem_of_find?_eq_some hq) he.symm
    exact ⟨by rw [← hps, ← hqs, hpq], rfl⟩
  createProgramAddress_canSign := by
    intro s b k h
    obtain ⟨-, h⟩ := Option.ite_none_right_eq_some.1 h
    obtain ⟨p, hp, rfl⟩ := Option.map_eq_some_iff.1 h
    have hsign : ∀ p ∈ shortTable, decide (10 ≤ p.2 ∧ p.2 < 20) = false := by decide
    exact hsign p (List.mem_of_find?_eq_some hp)

/-- A key is its first byte, and zeros. -/
def shortKeys : KeyBytes UInt8 where
  toBytes k := (Vector.replicate 32 (0 : UInt8)).set 0 k
  ofBytes? v := if (Vector.replicate 32 (0 : UInt8)).set 0 v[0] = v then some v[0] else none
  ofBytes?_eq_some := by
    intro v k
    constructor
    · intro h
      obtain ⟨hv, hk⟩ := Option.ite_none_right_eq_some.1 h
      rw [← Option.some.inj hk]
      exact hv
    · rintro rfl
      rw [Vector.getElem_set_self, if_pos rfl]

/-- Wallets 10 to 12 with lamports, a mint, and the token accounts of wallets 11 and 12. -/
def shortWorld : State UInt8 where
  lamports k := if 10 ≤ k ∧ k ≤ 12 then 10000 else 0
  account k :=
    if k = 20 then .mint .token { decimals := 6, supply := 200, extensions := some [] }
    else if k = 51 ∨ k = 52 then .token .token { mint := 20, owner := k - 40, amount := 100 }
    else .system

theorem shortWorld_genesis : Genesis short shortWorld := by
  refine ⟨fun k => ?_, fun {seeds b k} h => ?_⟩
  · show ¬(if k = 20 then _ else if k = 51 ∨ k = 52 then _ else Account.system).IsProgram
    split
    · exact id
    split <;> exact id
  · obtain ⟨-, h⟩ := Option.ite_none_right_eq_some.1 h
    obtain ⟨p, hp, rfl⟩ := Option.map_eq_some_iff.1 h
    have hvac : ∀ p ∈ shortTable, shortWorld.account p.2 = .system := by decide
    exact hvac p (List.mem_of_find?_eq_some hp)

def shortTx (signer : UInt8) : Ctx UInt8 where
  signers := [signer]
  unixTimestamp := 0
  rent := ⟨1, Nat.one_pos⟩
  firstInstruction := ⟨0, []⟩
  refuses _ := false

/-- Wallet 10 creates the group, wallet 11 joins. -/
def shortJoined : List (Ctx UInt8 × Call UInt8) :=
  [(shortTx 10, .createGroup ⟨10, 10, 30, 31, 20, 2⟩ "a" 5 0 2 3),
    (shortTx 11, .joinGroup ⟨11, 11, 30, 33, 51, 31, 20, 2, 32, 0, 6, 34⟩ ⟨10, 5, 0, 2⟩ none)]

/-- Wallet 12 joins, and the cycle starts. -/
def shortStarted : List (Ctx UInt8 × Call UInt8) := shortJoined ++
  [(shortTx 12, .joinGroup ⟨12, 12, 30, 35, 52, 31, 20, 2, 32, 0, 6, 36⟩ ⟨10, 5, 0, 2⟩ none),
    (shortTx 10, .startCycle ⟨10, 30⟩)]

end Demo

open Demo in
/-- A chain on which a member has joined: the group's bytes read as a group with one member. -/
theorem storage_refines_short : ∃ h c, Chain.Reached short shortKeys h c ∧
    ∃ g bytes, c.slot 30 = .data bytes ∧ GroupConfig.tryDeserialize shortKeys bytes = .ok g ∧
      g.currentMembers = 1 := by
  obtain ⟨h, s, hr, hp⟩ := replay_exists shortJoined shortWorld_genesis
    (fun _ s => (s.group 30).any fun g => g.currentMembers = 1) (by decide +kernel)
  obtain ⟨g, hg, hm⟩ := (Option.any_eq_true _ _).1 hp
  obtain ⟨h', c, hrun, -, rfl⟩ := (storage_refines short shortKeys).2.1 h s hr
  have hc := ((storage_refines short shortKeys).1 h' c hrun).2
  obtain ⟨hslot, hst⟩ := hc.slot_eq (State.group_eq_some.1 hg) trivial
  exact ⟨h', c, hrun, g, _, hslot, tryDeserialize_group.2 ⟨hst, _, rfl⟩, by simpa using hm⟩

end SafeNudge
