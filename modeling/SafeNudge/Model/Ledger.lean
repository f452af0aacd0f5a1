import SafeNudge.Model.State

/-!
# The ledger view of a state

`Ledger` is what the accounts of a state amount to, one map for each account type. Elementary
changes of state act on it map by map, so an instruction's effect is one equation between ledgers
in which accounts of different types no longer interfere.
-/

namespace SafeNudge

variable {K : Type}

@[ext]
structure Ledger (K : Type) where
  group : K → Option (GroupConfig K)
  record : K → Option (MemberRecord K)
  gate : K → Option (JoinGate K)
  tally : K → Option (JoinTally K)
  token : K → Option (TokenProgram × TokenAccount K)
  mint : K → Option (TokenProgram × Mint)
  /-- System-owned without data. -/
  vacant : K → Prop
  lamports : K → Nat

namespace State

def mintAt (s : State K) (k : K) : Option (TokenProgram × Mint) := (s.account k).mint?

def vacant (s : State K) (k : K) : Prop := s.account k = .system

@[simps -fullyApplied]
def ledger (s : State K) : Ledger K where
  group := s.group
  record := s.record
  gate := s.gate
  tally := s.tally
  token := s.token
  mint := s.mintAt
  vacant := s.vacant
  lamports := s.lamports

theorem mintAt_eq_some {s : State K} {k : K} {p : TokenProgram} {m : Mint} :
    s.mintAt k = some (p, m) ↔ s.account k = .mint p m := by
  unfold mintAt Account.mint?
  split <;> simp_all

/-! ## An account has one type -/

section
variable {s : State K} {k : K}

theorem views_of_group {g : GroupConfig K} (h : s.group k = some g) :
    s.record k = none ∧ s.gate k = none ∧ s.tally k = none ∧ s.token k = none ∧
      s.mintAt k = none ∧ s.vacant k = False := by
  simp [record, gate, tally, token, mintAt, vacant, group_eq_some.1 h, Account.memberRecord?,
    Account.joinGate?, Account.joinTally?, Account.token?, Account.mint?]

theorem views_of_record {r : MemberRecord K} (h : s.record k = some r) :
    s.group k = none ∧ s.gate k = none ∧ s.tally k = none ∧ s.token k = none ∧
      s.mintAt k = none ∧ s.vacant k = False := by
  simp [group, gate, tally, token, mintAt, vacant, record_eq_some.1 h, Account.groupConfig?,
    Account.joinGate?, Account.joinTally?, Account.token?, Account.mint?]

theorem views_of_gate {j : JoinGate K} (h : s.gate k = some j) :
    s.group k = none ∧ s.record k = none ∧ s.tally k = none ∧ s.token k = none ∧
      s.mintAt k = none ∧ s.vacant k = False := by
  simp [group, record, tally, token, mintAt, vacant, gate_eq_some.1 h, Account.groupConfig?,
    Account.memberRecord?, Account.joinTally?, Account.token?, Account.mint?]

theorem views_of_tally {t : JoinTally K} (h : s.tally k = some t) :
    s.group k = none ∧ s.record k = none ∧ s.gate k = none ∧ s.token k = none ∧
      s.mintAt k = none ∧ s.vacant k = False := by
  simp [group, record, gate, token, mintAt, vacant, tally_eq_some.1 h, Account.groupConfig?,
    Account.memberRecord?, Account.joinGate?, Account.token?, Account.mint?]

theorem views_of_token {t : TokenProgram × TokenAccount K} (h : s.token k = some t) :
    s.group k = none ∧ s.record k = none ∧ s.gate k = none ∧ s.tally k = none ∧
      s.mintAt k = none ∧ s.vacant k = False := by
  obtain ⟨p, t⟩ := t
  simp [group, record, gate, tally, mintAt, vacant, token_eq_some.1 h, Account.groupConfig?,
    Account.memberRecord?, Account.joinGate?, Account.joinTally?, Account.mint?]

theorem views_of_mint {m : TokenProgram × Mint} (h : s.mintAt k = some m) :
    s.group k = none ∧ s.record k = none ∧ s.gate k = none ∧ s.tally k = none ∧
      s.token k = none ∧ s.vacant k = False := by
  obtain ⟨p, m⟩ := m
  simp [group, record, gate, tally, token, vacant, mintAt_eq_some.1 h, Account.groupConfig?,
    Account.memberRecord?, Account.joinGate?, Account.joinTally?, Account.token?]

theorem views_of_vacant (h : s.account k = .system) :
    s.group k = none ∧ s.record k = none ∧ s.gate k = none ∧ s.tally k = none ∧
      s.token k = none ∧ s.mintAt k = none := by
  simp [group, record, gate, tally, token, mintAt, h, Account.groupConfig?,
    Account.memberRecord?, Account.joinGate?, Account.joinTally?, Account.token?, Account.mint?]

end

/-! ## How elementary changes act on the maps -/

section
variable [DecidableEq K] (s : State K) (k src dst : K) (a : Account K) (n : Nat)

/-- Writing the value that is already there. -/
theorem update_same {β : Type} {f : K → β} {k : K} {v : β} (h : f k = v) :
    Function.update f k v = f := by
  rw [← h, Function.update_eq_self]

/-- Reading a map built from the account at each address, after `set`. -/
theorem view_set {β : Type} (f : Account K → β) :
    (fun k' => f ((s.set k a).account k')) = Function.update (fun k' => f (s.account k')) k (f a) := by
  funext k'
  by_cases h : k' = k
  · subst h; simp [set]
  · simp [set, h]

@[simp] theorem account_set : (s.set k a).account = Function.update s.account k a := rfl

@[simp] theorem group_set : (s.set k a).group = Function.update s.group k a.groupConfig? :=
  view_set s k a _

@[simp] theorem record_set : (s.set k a).record = Function.update s.record k a.memberRecord? :=
  view_set s k a _

@[simp] theorem gate_set : (s.set k a).gate = Function.update s.gate k a.joinGate? :=
  view_set s k a _

@[simp] theorem tally_set : (s.set k a).tally = Function.update s.tally k a.joinTally? :=
  view_set s k a _

@[simp] theorem token_set : (s.set k a).token = Function.update s.token k a.token? :=
  view_set s k a _

@[simp] theorem mintAt_set : (s.set k a).mintAt = Function.update s.mintAt k a.mint? :=
  view_set s k a _

@[simp] theorem vacant_set : (s.set k a).vacant = Function.update s.vacant k (a = .system) :=
  view_set s k a (· = .system)

@[simp] theorem lamports_set : (s.set k a).lamports = s.lamports := rfl

@[simp] theorem account_transferLamports : (s.transferLamports src dst n).account = s.account := rfl

@[simp] theorem group_transferLamports : (s.transferLamports src dst n).group = s.group := rfl

@[simp] theorem record_transferLamports : (s.transferLamports src dst n).record = s.record := rfl

@[simp] theorem gate_transferLamports : (s.transferLamports src dst n).gate = s.gate := rfl

@[simp] theorem tally_transferLamports : (s.transferLamports src dst n).tally = s.tally := rfl

@[simp] theorem token_transferLamports : (s.transferLamports src dst n).token = s.token := rfl

@[simp] theorem mintAt_transferLamports : (s.transferLamports src dst n).mintAt = s.mintAt := rfl

@[simp] theorem vacant_transferLamports : (s.transferLamports src dst n).vacant = s.vacant := rfl

theorem close_eq :
    s.close k dst = (s.transferLamports k dst (s.lamports k)).set k .system := rfl

end

end State

/-- Lamports after moving `n` from `src` to `dst`. -/
def moveLamports [DecidableEq K] (l : K → Nat) (src dst : K) (n : Nat) : K → Nat :=
  let l' := Function.update l src (l src - n)
  Function.update l' dst (l' dst + n)

section
variable [DecidableEq K] (l : K → Nat) {src dst k : K} (n : Nat)

theorem moveLamports_src (h : src ≠ dst) : moveLamports l src dst n src = l src - n := by
  simp [moveLamports, h]

theorem moveLamports_dst (h : src ≠ dst) : moveLamports l src dst n dst = l dst + n := by
  simp [moveLamports, h.symm]

theorem moveLamports_of_ne (hs : k ≠ src) (hd : k ≠ dst) : moveLamports l src dst n k = l k := by
  simp [moveLamports, hs, hd]

theorem moveLamports_zero : moveLamports l src dst 0 = l := by
  simp [moveLamports]

end

@[simp] theorem State.lamports_transferLamports [DecidableEq K] (s : State K) (src dst : K)
    (n : Nat) : (s.transferLamports src dst n).lamports = moveLamports s.lamports src dst n := rfl

namespace State

variable [DecidableEq K] {s : State K} {k k' dst : K}

@[simp] theorem set_set (a b : Account K) : (s.set k a).set k b = s.set k b := by
  simp [set]

theorem set_comm (h : k ≠ k') (a b : Account K) :
    (s.set k a).set k' b = (s.set k' b).set k a := by
  simp [set, Function.update_comm h]

theorem transferLamports_set (a : Account K) (src : K) (n : Nat) :
    (s.set k a).transferLamports src dst n = (s.transferLamports src dst n).set k a := rfl

theorem transferLamports_zero (src : K) : s.transferLamports src dst 0 = s := by
  simp [transferLamports]

theorem ledger_transferLamports (src : K) (n : Nat) :
    (s.transferLamports src dst n).ledger =
      { s.ledger with lamports := moveLamports s.ledger.lamports src dst n } := rfl

/-! ### Creating an account at an unused address -/

theorem ledger_create_group (h : s.account k = .system) (g : GroupConfig K) :
    (s.set k (.groupConfig g)).ledger =
      { s.ledger with
        group := Function.update s.ledger.group k (some g)
        vacant := Function.update s.ledger.vacant k False } := by
  obtain ⟨-, hr, hj, ht, hk, hm⟩ := views_of_vacant h
  apply Ledger.ext <;> simp [Account.groupConfig?, Account.memberRecord?, Account.joinGate?,
    Account.joinTally?, Account.token?, Account.mint?, update_same, *]

theorem ledger_create_record (h : s.account k = .system) (r : MemberRecord K) :
    (s.set k (.memberRecord r)).ledger =
      { s.ledger with
        record := Function.update s.ledger.record k (some r)
        vacant := Function.update s.ledger.vacant k False } := by
  obtain ⟨hg, -, hj, ht, hk, hm⟩ := views_of_vacant h
  apply Ledger.ext <;> simp [Account.groupConfig?, Account.memberRecord?, Account.joinGate?,
    Account.joinTally?, Account.token?, Account.mint?, update_same, *]

theorem ledger_create_gate (h : s.account k = .system) (j : JoinGate K) :
    (s.set k (.joinGate j)).ledger =
      { s.ledger with
        gate := Function.update s.ledger.gate k (some j)
        vacant := Function.update s.ledger.vacant k False } := by
  obtain ⟨hg, hr, -, ht, hk, hm⟩ := views_of_vacant h
  apply Ledger.ext <;> simp [Account.groupConfig?, Account.memberRecord?, Account.joinGate?,
    Account.joinTally?, Account.token?, Account.mint?, update_same, *]

theorem ledger_create_tally (h : s.account k = .system) (t : JoinTally K) :
    (s.set k (.joinTally t)).ledger =
      { s.ledger with
        tally := Function.update s.ledger.tally k (some t)
        vacant := Function.update s.ledger.vacant k False } := by
  obtain ⟨hg, hr, hj, -, hk, hm⟩ := views_of_vacant h
  apply Ledger.ext <;> simp [Account.groupConfig?, Account.memberRecord?, Account.joinGate?,
    Account.joinTally?, Account.token?, Account.mint?, update_same, *]

theorem ledger_create_token (h : s.account k = .system) (p : TokenProgram) (t : TokenAccount K) :
    (s.set k (.token p t)).ledger =
      { s.ledger with
        token := Function.update s.ledger.token k (some (p, t))
        vacant := Function.update s.ledger.vacant k False } := by
  obtain ⟨hg, hr, hj, ht, -, hm⟩ := views_of_vacant h
  apply Ledger.ext <;> simp [Account.groupConfig?, Account.memberRecord?, Account.joinGate?,
    Account.joinTally?, Account.token?, Account.mint?, update_same, *]

/-! ### Writing an account of the same type -/

theorem ledger_write_group (h : (s.group k).isSome) (g' : GroupConfig K) :
    (s.set k (.groupConfig g')).ledger =
      { s.ledger with group := Function.update s.ledger.group k (some g') } := by
  obtain ⟨_, h⟩ := Option.isSome_iff_exists.1 h
  obtain ⟨hr, hj, ht, hk, hm, hv⟩ := views_of_group h
  apply Ledger.ext <;> simp [Account.groupConfig?, Account.memberRecord?, Account.joinGate?,
    Account.joinTally?, Account.token?, Account.mint?, update_same, *]

theorem ledger_write_record (h : (s.record k).isSome) (r' : MemberRecord K) :
    (s.set k (.memberRecord r')).ledger =
      { s.ledger with record := Function.update s.ledger.record k (some r') } := by
  obtain ⟨_, h⟩ := Option.isSome_iff_exists.1 h
  obtain ⟨hg, hj, ht, hk, hm, hv⟩ := views_of_record h
  apply Ledger.ext <;> simp [Account.groupConfig?, Account.memberRecord?, Account.joinGate?,
    Account.joinTally?, Account.token?, Account.mint?, update_same, *]

theorem ledger_write_tally (h : (s.tally k).isSome) (t' : JoinTally K) :
    (s.set k (.joinTally t')).ledger =
      { s.ledger with tally := Function.update s.ledger.tally k (some t') } := by
  obtain ⟨_, h⟩ := Option.isSome_iff_exists.1 h
  obtain ⟨hg, hr, hj, hk, hm, hv⟩ := views_of_tally h
  apply Ledger.ext <;> simp [Account.groupConfig?, Account.memberRecord?, Account.joinGate?,
    Account.joinTally?, Account.token?, Account.mint?, update_same, *]

theorem ledger_write_token (h : (s.token k).isSome)
    (p : TokenProgram) (t' : TokenAccount K) :
    (s.set k (.token p t')).ledger =
      { s.ledger with token := Function.update s.ledger.token k (some (p, t')) } := by
  obtain ⟨_, h⟩ := Option.isSome_iff_exists.1 h
  obtain ⟨hg, hr, hj, ht, hm, hv⟩ := views_of_token h
  apply Ledger.ext <;> simp [Account.groupConfig?, Account.memberRecord?, Account.joinGate?,
    Account.joinTally?, Account.token?, Account.mint?, update_same, *]

theorem ledger_write_mint (h : (s.mintAt k).isSome)
    (p : TokenProgram) (m' : Mint) :
    (s.set k (.mint p m')).ledger =
      { s.ledger with mint := Function.update s.ledger.mint k (some (p, m')) } := by
  obtain ⟨_, h⟩ := Option.isSome_iff_exists.1 h
  obtain ⟨hg, hr, hj, ht, hk, hv⟩ := views_of_mint h
  apply Ledger.ext <;> simp [Account.groupConfig?, Account.memberRecord?, Account.joinGate?,
    Account.joinTally?, Account.token?, Account.mint?, update_same, *]

/-! ### Closing an account -/

theorem ledger_close_group {g : GroupConfig K} (h : s.group k = some g) :
    (s.close k dst).ledger =
      { s.ledger with
        group := Function.update s.ledger.group k none
        vacant := Function.update s.ledger.vacant k True
        lamports := moveLamports s.ledger.lamports k dst (s.ledger.lamports k) } := by
  obtain ⟨hr, hj, ht, hk, hm, -⟩ := views_of_group h
  apply Ledger.ext <;> simp [close_eq, Account.groupConfig?, Account.memberRecord?, Account.joinGate?,
    Account.joinTally?, Account.token?, Account.mint?, update_same, *]

theorem ledger_close_record {r : MemberRecord K} (h : s.record k = some r) :
    (s.close k dst).ledger =
      { s.ledger with
        record := Function.update s.ledger.record k none
        vacant := Function.update s.ledger.vacant k True
        lamports := moveLamports s.ledger.lamports k dst (s.ledger.lamports k) } := by
  obtain ⟨hg, hj, ht, hk, hm, -⟩ := views_of_record h
  apply Ledger.ext <;> simp [close_eq, Account.groupConfig?, Account.memberRecord?, Account.joinGate?,
    Account.joinTally?, Account.token?, Account.mint?, update_same, *]

theorem ledger_close_gate {j : JoinGate K} (h : s.gate k = some j) :
    (s.close k dst).ledger =
      { s.ledger with
        gate := Function.update s.ledger.gate k none
        vacant := Function.update s.ledger.vacant k True
        lamports := moveLamports s.ledger.lamports k dst (s.ledger.lamports k) } := by
  obtain ⟨hg, hr, ht, hk, hm, -⟩ := views_of_gate h
  apply Ledger.ext <;> simp [close_eq, Account.groupConfig?, Account.memberRecord?, Account.joinGate?,
    Account.joinTally?, Account.token?, Account.mint?, update_same, *]

theorem ledger_close_tally {t : JoinTally K} (h : s.tally k = some t) :
    (s.close k dst).ledger =
      { s.ledger with
        tally := Function.update s.ledger.tally k none
        vacant := Function.update s.ledger.vacant k True
        lamports := moveLamports s.ledger.lamports k dst (s.ledger.lamports k) } := by
  obtain ⟨hg, hr, hj, hk, hm, -⟩ := views_of_tally h
  apply Ledger.ext <;> simp [close_eq, Account.groupConfig?, Account.memberRecord?, Account.joinGate?,
    Account.joinTally?, Account.token?, Account.mint?, update_same, *]

theorem ledger_close_token {t : TokenProgram × TokenAccount K} (h : s.token k = some t) :
    (s.close k dst).ledger =
      { s.ledger with
        token := Function.update s.ledger.token k none
        vacant := Function.update s.ledger.vacant k True
        lamports := moveLamports s.ledger.lamports k dst (s.ledger.lamports k) } := by
  obtain ⟨hg, hr, hj, ht, hm, -⟩ := views_of_token h
  apply Ledger.ext <;> simp [close_eq, Account.groupConfig?, Account.memberRecord?, Account.joinGate?,
    Account.joinTally?, Account.token?, Account.mint?, update_same, *]

end State

end SafeNudge
