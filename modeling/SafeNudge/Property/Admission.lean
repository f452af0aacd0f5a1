import SafeNudge.Property.RentExempt

/-!
# When creating and joining go through

In a reachable state `create_group` and `join_group` succeed exactly under the conditions their
callers can see beforehand (`CreateGroup.Admitted`, `JoinGroup.Admitted`), and the payer pays the
price (`createGroup_pays`, `joinGroup_pays`). Nothing that others do outside the program to the
addresses an instruction creates, such as sending lamports there, stands in its way, it only lowers
the price (`CreateGroup.Admitted.outside`, `JoinGroup.Admitted.outside`).
-/

namespace SafeNudge

open Lib Function

variable {K : Type} [DecidableEq K] {E : Env K} {ctx : Ctx K} {s s' : State K}

/-- What others do outside the program that takes nothing from a payer and leaves its account and
these as they are. -/
structure Sparing (E : Env K) (payer : K) (kept : List K) (s s' : State K) : Prop
    extends Outside E s s' where
  payer_account : s'.account payer = s.account payer
  payer_lamports : s.lamports payer ≤ s'.lamports payer
  kept_account : ∀ k ∈ kept, s'.account k = s.account k

/-- The more lamports are there, the fewer are to be paid. -/
theorem topUp_anti {minimum held held' : Nat} (h : held ≤ held') :
    topUp minimum held' ≤ topUp minimum held := by
  unfold topUp
  split <;> split <;> omega

/-! ## `create_group` -/

/-- What the two accounts of a new group cost. -/
def CreateGroup.price (ctx : Ctx K) (a : CreateGroup K) (s : State K) : Nat :=
  topUp (ctx.rent.minimumBalance GROUP_CONFIG_SPACE) (s.lamports a.groupConfig) +
    topUp (ctx.rent.minimumBalance TOKEN_ACCOUNT_SPACE) (s.lamports a.vault)

structure CreateGroup.Admitted (E : Env K) (ctx : Ctx K) (a : CreateGroup K) (groupCode : String)
    (depositAmount : UInt64) (frequency totalPeriods maxMembers : UInt8) (s : State K) : Prop where
  creator : Signed E ctx a.creator
  payer : Signed E ctx a.rentPayer
  args : CreateGroup.ArgsOk E groupCode depositAmount frequency totalPeriods maxMembers
  group : ∃ b, E.findProgramAddress (.group groupCode) = some (a.groupConfig, b)
  vault : ∃ b, E.findProgramAddress (.vault a.groupConfig) = some (a.vault, b)
  /-- No group is live under this code. -/
  free : s.group a.groupConfig = none
  mint : ∃ p m, s.account a.mint = .mint p m ∧ requireSupportedMint E a.mint p m = .ok () ∧
    a.tokenProgram = E.tokenKey p ∧
    ctx.refuses (.initializeAccount (E.tokenKey p) a.vault a.mint a.vault) = false
  funds : a.price ctx s ≤ s.lamports a.rentPayer ∧
    (a.price ctx s = 0 ∨ s.account a.rentPayer = .system)

section
variable {a : CreateGroup K} {groupCode : String} {depositAmount : UInt64}
  {frequency totalPeriods maxMembers : UInt8}

theorem CreateGroup.admitted_of_ok {r : State K × List (Event K)}
    (h : createGroup E ctx a groupCode depositAmount frequency totalPeriods maxMembers s = .ok r) :
    a.Admitted E ctx groupCode depositAmount frequency totalPeriods maxMembers s := by
  simp only [createGroup, bind_eq_ok, require_eq_ok, requireSigner_eq_ok, loadMint_eq_ok,
    loadTokenProgram_eq_ok, requireCanonical_eq_ok, initAccount_eq_ok, initializeAccount_eq_ok,
    pure_eq_ok, exists_const] at h
  obtain ⟨hc, hp, ⟨q, m⟩, hm, p, htp, bump, hG, s₁, ⟨n₁, hn₁, hpG, hvG, hsys₁, hle₁, rfl⟩, vb, hV,
    s₂, ⟨n₂, hn₂, hpV, hvV, hsys₂, hle₂, rfl⟩, s₃, ⟨m', hm', href, rfl⟩, ⟨⟩, hsup, hcode, hchars,
    hdep, hfreq, hper, hmax, -⟩ := h
  have hGV : a.groupConfig ≠ a.vault :=
    Env.address_ne (Env.findProgramAddress_create hG) (Env.findProgramAddress_create hV) (by simp)
  have hm := State.mintAt_eq_some.1 hm
  have hmG : a.mint ≠ a.groupConfig := by
    intro h
    simp [h, hvG] at hm
  have hmV : a.mint ≠ a.vault := by
    intro h
    rw [h] at hm
    simp [update_of_ne hGV.symm, hm] at hvV
  obtain ⟨rfl, rfl⟩ : q = p ∧ m = m' := by
    simpa [update_of_ne hmG, update_of_ne hmV, hm] using hm'
  simp only [State.lamports_set, State.lamports_transferLamports, moveLamports_src _ _ hpG,
    moveLamports_of_ne _ _ hpV.symm hGV.symm] at hle₂ hn₂
  have hsys₂ : n₂ = 0 ∨ s.account a.rentPayer = .system := by
    simpa [update_of_ne hpG] using hsys₂
  refine ⟨hc, hp, ⟨hcode, hchars, hdep, hfreq, hper, hmax⟩, ⟨bump, hG⟩, ⟨vb, hV⟩,
    (State.views_of_vacant hvG).1, ⟨q, m, hm, hsup, htp, href⟩, ?_⟩
  unfold CreateGroup.price
  rw [← hn₁, ← hn₂]
  refine ⟨by omega, ?_⟩
  rcases hsys₁ with h₁ | h₁
  · exact hsys₂.imp_left fun h₂ => by rw [h₁, h₂]
  · exact .inr h₁

theorem CreateGroup.Admitted.succeeds (hL : Layout E s.ledger)
    (h : a.Admitted E ctx groupCode depositAmount frequency totalPeriods maxMembers s) :
    ∃ r, createGroup E ctx a groupCode depositAmount frequency totalPeriods maxMembers s = .ok r := by
  obtain ⟨bump, hG⟩ := h.group
  obtain ⟨vb, hV⟩ := h.vault
  obtain ⟨p, m, hm, hsup, htp, href⟩ := h.mint
  obtain ⟨hfunds, hsys⟩ := h.funds
  have hG' := Env.findProgramAddress_create hG
  have hV' := Env.findProgramAddress_create hV
  have hGV : a.groupConfig ≠ a.vault := Env.address_ne hG' hV' (by simp)
  have hpG := Env.ne_of_canSign hG' h.payer.2
  have hpV := Env.ne_of_canSign hV' h.payer.2
  -- nobody else can have taken the two addresses
  have hvG := (hL.unused_or_tally h.free hG' rfl).resolve_right (by simp)
  have hvV := (hL.unused_or_tally h.free hV' rfl).resolve_right (by simp)
  have hmG : a.mint ≠ a.groupConfig := by
    intro he
    rw [he, hvG] at hm
    cases hm
  have hmV : a.mint ≠ a.vault := by
    intro he
    rw [he, hvV] at hm
    cases hm
  unfold CreateGroup.price at hfunds hsys
  have hsys₁ := hsys.imp_left Nat.add_eq_zero_iff.1
  simp only [createGroup, bind_eq_ok, require_eq_ok, requireSigner_eq_ok, loadMint_eq_ok,
    loadTokenProgram_eq_ok, requireCanonical_eq_ok, initAccount_eq_ok, initializeAccount_eq_ok,
    pure_eq_ok, exists_const]
  refine ⟨_, h.creator, h.payer, (p, m), by rw [hm]; rfl, p, htp, bump, hG, _,
    ⟨_, rfl, hpG, hvG, hsys₁.imp_left And.left, by omega, rfl⟩, vb, hV, _,
    ⟨_, rfl, hpV, ?_, ?_, ?_, rfl⟩, _, ⟨m, ?_, href, rfl⟩, (), hsup, h.args.code, h.args.chars,
    h.args.deposit, h.args.frequency, h.args.periods, h.args.members, rfl⟩
  · simpa [update_of_ne hGV.symm] using hvV
  · simpa [update_of_ne hpG, moveLamports_of_ne _ _ hpV.symm hGV.symm] using hsys₁.imp_left And.right
  · simp only [State.lamports_set, State.lamports_transferLamports, moveLamports_src _ _ hpG,
      moveLamports_of_ne _ _ hpV.symm hGV.symm]
    omega
  · simpa [update_of_ne hmG, update_of_ne hmV] using hm

/-- In a layout `create_group` succeeds exactly when it is admitted. -/
theorem createGroup_iff (hL : Layout E s.ledger) :
    (∃ r, createGroup E ctx a groupCode depositAmount frequency totalPeriods maxMembers s = .ok r) ↔
      a.Admitted E ctx groupCode depositAmount frequency totalPeriods maxMembers s :=
  ⟨fun h => h.elim fun _ hr => CreateGroup.admitted_of_ok hr, fun h => h.succeeds hL⟩

/-- The payer pays the price. -/
theorem createGroup_pays {events : List (Event K)}
    (h : createGroup E ctx a groupCode depositAmount frequency totalPeriods maxMembers s
      = .ok (s', events)) :
    s'.lamports a.rentPayer + a.price ctx s = s.lamports a.rentPayer := by
  have heff := createGroup_effect h
  obtain ⟨_, _, _, _, n₁, n₂, -, -, hG, hV, hn₁, hn₂, hle, hpost⟩ := heff.post
  have hpG := Env.ne_of_canSign (Env.findProgramAddress_create hG) heff.payer.2
  have hpV := Env.ne_of_canSign (Env.findProgramAddress_create hV) heff.payer.2
  have hprice : a.price ctx s = n₁ + n₂ := by
    rw [hn₁, hn₂]
    rfl
  have hl := congrFun (congrArg Ledger.lamports hpost) a.rentPayer
  dsimp only at hl
  rw [moveLamports_src _ _ hpV, moveLamports_src _ _ hpG] at hl
  simp only [State.ledger_lamports] at hl hle
  omega

/-- What others do that spares the payer and the mint keeps the group admitted, at the same price or
a lower one. -/
theorem CreateGroup.Admitted.outside (ho : Sparing E a.rentPayer [a.mint] s s')
    (h : a.Admitted E ctx groupCode depositAmount frequency totalPeriods maxMembers s) :
    a.price ctx s' ≤ a.price ctx s ∧
      a.Admitted E ctx groupCode depositAmount frequency totalPeriods maxMembers s' := by
  obtain ⟨bump, hG⟩ := h.group
  obtain ⟨vb, hV⟩ := h.vault
  have hlG := (ho.derived (Env.findProgramAddress_create hG)).1
  have hlV := (ho.derived (Env.findProgramAddress_create hV)).1
  have hprice : a.price ctx s' ≤ a.price ctx s := Nat.add_le_add (topUp_anti hlG) (topUp_anti hlV)
  obtain ⟨hfunds, hsys⟩ := h.funds
  have hle := ho.payer_lamports
  refine ⟨hprice, h.creator, h.payer, h.args, h.group, h.vault, ?_, ?_, by omega, ?_⟩
  · exact (congrFun ho.group _).trans h.free
  · rw [ho.kept_account _ List.mem_cons_self]
    exact h.mint
  · rw [ho.payer_account]
    exact hsys.imp_left fun h0 => by omega

end

/-! ## `join_group` -/

/-- What the record of a new member costs, and its tally when there is none. -/
def JoinGroup.price (ctx : Ctx K) (a : JoinGroup K) (s : State K) : Nat :=
  topUp (ctx.rent.minimumBalance MEMBER_RECORD_SPACE) (s.lamports a.memberRecord) +
    if (s.tally a.joinTally).isSome then 0
    else topUp (ctx.rent.minimumBalance JOIN_TALLY_SPACE) (s.lamports a.joinTally)

/-- The joins counted so far. -/
def JoinGroup.joins (a : JoinGroup K) (s : State K) : UInt32 :=
  (s.tally a.joinTally).elim 0 (·.joins)

/-- The token accounts of a join: the member's associated one holds the deposit, and the vault has
room for it. -/
structure JoinGroup.Payable (E : Env K) (ctx : Ctx K) (a : JoinGroup K) (g : GroupConfig K)
    (p : TokenProgram) (mt vt : TokenAccount K) (s : State K) : Prop where
  program : a.tokenProgram = E.tokenKey p
  account : s.token a.memberTokenAccount = some (p, mt)
  associated : a.memberTokenAccount = E.associatedTokenAddress a.member (E.tokenKey p) a.mint
  owner : mt.owner = a.member
  mint : mt.mint = g.mint
  held : g.depositAmount ≤ mt.amount
  vault : s.token a.vault = some (p, vt)
  room : vt.amount.toNat + g.depositAmount.toNat < 2 ^ 64
  accepted : ctx.refuses (.transferChecked (E.tokenKey p) a.memberTokenAccount a.mint a.vault a.member
    g.depositAmount) = false

structure JoinGroup.Admitted (E : Env K) (ctx : Ctx K) (a : JoinGroup K)
    (expectedTerms : GroupTerms K) (expectedJoins : Option UInt32) (s : State K)
    (g : GroupConfig K) : Prop where
  member : Signed E ctx a.member
  payer : Signed E ctx a.rentPayer
  group : s.group a.groupConfig = some g
  isOpen : g.status = STATUS_OPEN
  room : g.currentMembers < g.maxMembers
  terms : g.terms = expectedTerms
  mint : a.mint = g.mint
  vault : E.createProgramAddress (.vault a.groupConfig) g.vaultBump = some a.vault
  record : ∃ b, E.findProgramAddress (.member a.groupConfig a.member) = some (a.memberRecord, b)
  /-- The member has no open record in this group. -/
  absent : s.record a.memberRecord = none
  tally : ∃ b, E.findProgramAddress (.tally a.groupConfig a.member) = some (a.joinTally, b)
  gate : ∃ b, E.findProgramAddress (.join a.groupConfig) = some (a.joinGate, b)
  sysvar : a.instructionsSysvar = E.instructionsSysvar
  slot : a.joinAuthority = E.programId ∨ Signed E ctx a.joinAuthority
  approved : ∀ j, s.gate a.joinGate = some j → a.Approved E ctx expectedJoins j.authority
  expected : ∀ n, expectedJoins = some n → a.joins s = n
  count : (a.joins s).toNat + 1 < 2 ^ 32
  payable : ∃ p mt vt, a.Payable E ctx g p mt vt s
  funds : a.price ctx s ≤ s.lamports a.rentPayer ∧
    (a.price ctx s = 0 ∨ s.account a.rentPayer = .system)

section
variable {a : JoinGroup K} {expectedTerms : GroupTerms K} {expectedJoins : Option UInt32}

theorem optionalSigner_of {slot : K} (h : slot = E.programId ∨ Signed E ctx slot) :
    ∃ o, optionalSigner E ctx slot = .ok o ∧ (slot ≠ E.programId → o = some slot) := by
  unfold optionalSigner
  by_cases hslot : slot = E.programId
  · exact ⟨none, if_pos hslot, fun hne => absurd hslot hne⟩
  · rw [if_neg hslot]
    have hsig : requireSigner E ctx slot = .ok () := requireSigner_eq_ok.2 (h.resolve_left hslot)
    exact ⟨some slot, by rw [hsig]; rfl, fun _ => rfl⟩

theorem optionalSigner_slot {slot : K} {o : Option K} (h : optionalSigner E ctx slot = .ok o) :
    slot = E.programId ∨ Signed E ctx slot := by
  unfold optionalSigner at h
  split at h
  · exact .inl ‹_›
  · simp only [bind_eq_ok, requireSigner_eq_ok, pure_eq_ok, exists_const] at h
    exact .inr h.1

/-- The gate part of a join passes when the authority of a gate has approved. -/
theorem checkJoinGate_of {o : Option K} (hv : s.gate a.joinGate = none → s.account a.joinGate = .system)
    (hg : ∀ j, s.gate a.joinGate = some j → o = some j.authority ∧ usesDurableNonce E ctx = false ∧
      expectedJoins.isSome = true) : checkJoinGate E ctx a.joinGate o expectedJoins s = .ok () := by
  unfold checkJoinGate
  cases hj : s.gate a.joinGate with
  | none =>
    rw [if_neg]
    rw [hv hj]
    exact E.programId_ne_system.symm
  | some j =>
    obtain ⟨ho, hn, he⟩ := hg j hj
    rw [if_pos (by rw [State.gate_eq_some.1 hj]; rfl)]
    simp only [bind_eq_ok, loadJoinGate_eq_ok, require_eq_ok, exists_const]
    exact ⟨j, hj, ho, hn, he⟩

/-- Both accounts of a join can be created. -/
theorem join_inits_of (hRT : a.memberRecord ≠ a.joinTally) (hpR : a.rentPayer ≠ a.memberRecord)
    (hpT : a.rentPayer ≠ a.joinTally) (hvR : s.account a.memberRecord = .system)
    (hT : s.account a.joinTally = .system ∨ ∃ t, s.tally a.joinTally = some t ∧
      ctx.rent.minimumBalance JOIN_TALLY_SPACE ≤ s.lamports a.joinTally)
    (hfunds : a.price ctx s ≤ s.lamports a.rentPayer)
    (hsys : a.price ctx s = 0 ∨ s.account a.rentPayer = .system) :
    ∃ s₁ t s₂, initAccount ctx a.rentPayer a.memberRecord MEMBER_RECORD_SPACE (.other E.programId) s
        = .ok s₁ ∧ initTallyIfNeeded E ctx a.rentPayer a.joinTally s₁ = .ok (t, s₂) ∧
      t.joins = a.joins s ∧ ∀ k, k ≠ a.memberRecord → k ≠ a.joinTally → s₂.account k = s.account k := by
  unfold JoinGroup.price at hfunds hsys
  have hsys' := hsys.imp_left Nat.add_eq_zero_iff.1
  obtain ⟨s₁, hs₁, hacc, hlp, hlT⟩ : ∃ s₁, initAccount ctx a.rentPayer a.memberRecord
      MEMBER_RECORD_SPACE (.other E.programId) s = .ok s₁ ∧
      (∀ k, k ≠ a.memberRecord → s₁.account k = s.account k) ∧
      s₁.lamports a.rentPayer = s.lamports a.rentPayer -
        topUp (ctx.rent.minimumBalance MEMBER_RECORD_SPACE) (s.lamports a.memberRecord) ∧
      s₁.lamports a.joinTally = s.lamports a.joinTally :=
    ⟨_, initAccount_eq_ok.2 ⟨_, rfl, hpR, hvR, hsys'.imp_left And.left, by omega, rfl⟩,
      fun k hk => update_of_ne hk .., moveLamports_src _ _ hpR,
      moveLamports_of_ne _ _ hpT.symm hRT.symm⟩
  have hpay : s₁.account a.rentPayer = s.account a.rentPayer := hacc _ hpR
  have htally : s₁.tally a.joinTally = s.tally a.joinTally := by
    rw [State.tally, hacc _ hRT.symm]
    rfl
  rcases hT with hT | ⟨t, ht, hmin⟩
  · have hnone := (State.views_of_vacant hT).2.2.2.1
    rw [hnone] at hfunds hsys'
    simp only [Option.isSome_none, Bool.false_eq_true, if_false] at hfunds hsys'
    have hinit : ∃ s₂, initAccount ctx a.rentPayer a.joinTally JOIN_TALLY_SPACE (.other E.programId) s₁
        = .ok s₂ ∧ ∀ k, k ≠ a.joinTally → s₂.account k = s₁.account k := by
      refine ⟨_, initAccount_eq_ok.2 ⟨_, rfl, hpT, (hacc _ hRT.symm).trans hT, ?_, ?_, rfl⟩,
        fun k hk => update_of_ne hk ..⟩
      · rw [hlT, hpay]
        exact hsys'.imp_left And.right
      · rw [hlT, hlp]
        omega
    obtain ⟨s₂, hs₂, hacc₂⟩ := hinit
    refine ⟨s₁, newTally E, s₂, hs₁,
      initTallyIfNeeded_eq_ok.2 (.inl ⟨(hacc _ hRT.symm).trans hT, rfl, hs₂⟩), ?_,
      fun k hk hk' => (hacc₂ k hk').trans (hacc k hk)⟩
    rw [JoinGroup.joins, hnone]
    rfl
  · refine ⟨s₁, t, s₁, hs₁, initTallyIfNeeded_eq_ok.2 (.inr ⟨htally.trans ht, ?_, rfl⟩), ?_,
      fun k hk _ => hacc k hk⟩
    · rw [hlT]
      exact hmin
    · rw [JoinGroup.joins, ht]
      rfl

section
variable {g : GroupConfig K}

/-- The address of the record is unused. -/
theorem JoinGroup.Admitted.record_unused (hL : Layout E s.ledger)
    (h : a.Admitted E ctx expectedTerms expectedJoins s g) : s.account a.memberRecord = .system := by
  obtain ⟨_, hR⟩ := h.record
  rcases hL.vacant_or (Env.findProgramAddress_create hR) with hv | ⟨_, _, hs, _⟩ | ⟨_, _, _, _, hs, _⟩ |
    ⟨_, _, r, _, hr, _⟩ | ⟨_, _, _, hs, _⟩ | ⟨_, _, _, _, hs, _⟩
  · exact hv
  · cases hs
  · cases hs
  · rw [State.ledger_record, h.absent] at hr
    cases hr
  · cases hs
  · cases hs

/-- That of the tally is unused, or holds a tally with its rent. -/
theorem JoinGroup.Admitted.tally_or (hL : Layout E s.ledger) (hE : s.ledger.RentExempt E ctx.rent)
    (h : a.Admitted E ctx expectedTerms expectedJoins s g) :
    s.account a.joinTally = .system ∨ ∃ t, s.tally a.joinTally = some t ∧
      ctx.rent.minimumBalance JOIN_TALLY_SPACE ≤ s.lamports a.joinTally := by
  obtain ⟨_, hT⟩ := h.tally
  have hT' := Env.findProgramAddress_create hT
  rcases hL.vacant_or hT' with hv | ⟨_, _, hs, _⟩ | ⟨_, _, _, _, hs, _⟩ | ⟨_, _, _, hs, _⟩ |
    ⟨_, _, _, hs, _⟩ | ⟨_, _, t, _, _, ht, _⟩
  · exact .inl hv
  · cases hs
  · cases hs
  · cases hs
  · cases hs
  · refine .inr ⟨t, ht, hE _ _ _ hT' ?_⟩
    rw [State.ledger_vacant, (State.views_of_tally ht).2.2.2.2.2]
    exact id

/-- Both accounts are created, and the gate, the mint and the token accounts stay as they are. -/
theorem JoinGroup.Admitted.inits (hL : Layout E s.ledger) (hE : s.ledger.RentExempt E ctx.rent)
    (h : a.Admitted E ctx expectedTerms expectedJoins s g) :
    ∃ s₁ t s₂, initAccount ctx a.rentPayer a.memberRecord MEMBER_RECORD_SPACE (.other E.programId) s
        = .ok s₁ ∧ initTallyIfNeeded E ctx a.rentPayer a.joinTally s₁ = .ok (t, s₂) ∧
      t.joins = a.joins s ∧ s₂.account a.joinGate = s.account a.joinGate ∧
      ∀ k, s.account k ≠ .system → s.tally k = none → s₂.account k = s.account k := by
  obtain ⟨rb, hR⟩ := h.record
  obtain ⟨tb, hT⟩ := h.tally
  obtain ⟨jb, hJ⟩ := h.gate
  have hR' := Env.findProgramAddress_create hR
  have hT' := Env.findProgramAddress_create hT
  have hJ' := Env.findProgramAddress_create hJ
  have hvT := h.tally_or hL hE
  obtain ⟨s₁, t, s₂, hs₁, hs₂, hjoins, hacc⟩ := join_inits_of (E := E)
    (Env.address_ne hR' hT' (by simp)) (Env.ne_of_canSign hR' h.payer.2)
    (Env.ne_of_canSign hT' h.payer.2) (h.record_unused hL) hvT h.funds.1 h.funds.2
  refine ⟨s₁, t, s₂, hs₁, hs₂, hjoins,
    hacc _ (Env.address_ne hJ' hR' (by simp)) (Env.address_ne hJ' hT' (by simp)),
    fun k hk htally => hacc k ?_ ?_⟩
  · rintro rfl
    exact hk (h.record_unused hL)
  · rintro rfl
    rcases hvT with hv | ⟨t, ht, -⟩
    · exact hk hv
    · rw [htally] at ht
      cases ht

/-- The deposit is transferred, where the token accounts and the mint are as they were. -/
theorem JoinGroup.Payable.transfer {p : TokenProgram} {mt vt : TokenAccount K} {s₂ : State K}
    (hL : Layout E s.ledger) (h : a.Admitted E ctx expectedTerms expectedJoins s g)
    (hpay : a.Payable E ctx g p mt vt s)
    (hkept : ∀ k, s.account k ≠ .system → s.tally k = none → s₂.account k = s.account k) :
    ∃ q m s₃, s.account a.mint = .mint q m ∧ transferChecked E ctx p a.memberTokenAccount a.mint
      a.vault a.member g.depositAmount m.decimals s₂ = .ok s₃ := by
  obtain ⟨q, m, hm, -⟩ := hL.mint h.group
  have hm : s.account a.mint = .mint q m := by
    rw [h.mint]
    exact State.mintAt_eq_some.1 hm
  have hmt := State.token_eq_some.1 hpay.account
  have hvt := State.token_eq_some.1 hpay.vault
  have hplain : ∀ k x, s.account k = x → x ≠ .system → x.joinTally? = none → s₂.account k = x := by
    intro k x hk hx hxt
    subst hk
    exact hkept k hx hxt
  obtain ⟨V, hV, hheld⟩ := hL.vault h.group
  obtain rfl : a.vault = V := Option.some.inj (h.vault.symm.trans (Env.findProgramAddress_create hV))
  have hvm : vt.mint = g.mint := by
    obtain ⟨p', t', ht', hm'⟩ := hheld (not_settled_of_open h.isOpen)
    rw [State.ledger_token, hpay.vault] at ht'
    cases ht'
    exact hm'
  refine ⟨q, m, _, hm, transferChecked_eq_ok.2 ⟨mt, vt, q, m, hplain _ _ hmt (by simp) rfl,
    hplain _ _ hvt (by simp) rfl, hplain _ _ hm (by simp) rfl, hpay.mint.trans h.mint.symm,
    hvm.trans h.mint.symm, rfl, hpay.owner, hpay.accepted, hpay.held, .inr hpay.room, rfl⟩⟩

/-- The gate lets the join through. -/
theorem JoinGroup.Admitted.gate_passes {o : Option K} {s₂ : State K} (hL : Layout E s.ledger)
    (h : a.Admitted E ctx expectedTerms expectedJoins s g)
    (hslot : a.joinAuthority ≠ E.programId → o = some a.joinAuthority)
    (hkept : s₂.account a.joinGate = s.account a.joinGate) :
    checkJoinGate E ctx a.joinGate o expectedJoins s₂ = .ok () := by
  obtain ⟨_, hJ⟩ := h.gate
  refine checkJoinGate_of (fun hnone => ?_) fun j hj => ?_
  · rw [State.gate, hkept] at hnone
    rw [hkept]
    exact hL.gate_vacant hJ hnone
  · rw [State.gate, hkept] at hj
    have happ := h.approved j hj
    have hne : a.joinAuthority ≠ E.programId := happ.slot ▸ (hL.gate hj).1.2
    exact ⟨(hslot hne).trans (congrArg some happ.slot), happ.nonce, happ.expected⟩

theorem JoinGroup.Admitted.succeeds (hL : Layout E s.ledger) (hE : s.ledger.RentExempt E ctx.rent)
    (h : a.Admitted E ctx expectedTerms expectedJoins s g) :
    ∃ r, joinGroup E ctx a expectedTerms expectedJoins s = .ok r := by
  obtain ⟨rb, hR⟩ := h.record
  obtain ⟨tb, hT⟩ := h.tally
  obtain ⟨jb, hJ⟩ := h.gate
  obtain ⟨p, mt, vt, hpay⟩ := h.payable
  obtain ⟨o, ho, hslot⟩ := optionalSigner_of h.slot
  have hG' := Env.findProgramAddress_create (hL.group h.group).address
  obtain ⟨s₁, t, s₂, hs₁, hs₂, hjoins, hkeptJ, hkept⟩ := h.inits hL hE
  obtain ⟨q, m, s₃, hm, hs₃⟩ := hpay.transfer hL h hkept
  have hgate := h.gate_passes hL hslot hkeptJ
  have hcm : g.currentMembers.toNat + (1 : UInt8).toNat < 2 ^ 8 := by
    have hroom := UInt8.lt_iff_toNat_lt.1 h.room
    have hmax := g.maxMembers.toNat_lt
    have h1 : (1 : UInt8).toNat = 1 := rfl
    omega
  have hjoin : t.joins.toNat + (1 : UInt32).toNat < 2 ^ 32 := hjoins ▸ h.count
  simp only [joinGroup, bind_eq_ok, require_eq_ok, requireSigner_eq_ok, loadGroupConfig_eq_ok,
    loadTokenAccount_eq_ok, loadMint_eq_ok, requireCanonical_eq_ok, requireSeeds_eq_ok,
    orThrow_eq_ok, pure_eq_ok, exists_const, loadTokenProgram_eq_ok, checkExpectedJoins_eq_ok]
  exact ⟨_, h.member, h.payer, g, h.group, (p, mt), hpay.account, (p, vt), hpay.vault, (q, m),
    State.mintAt_eq_some.2 hm, p, hpay.program, o, ho, rb, hR, s₁, hs₁, tb, hT, (t, s₂), hs₂, hG',
    h.isOpen, h.room, hpay.owner, hpay.associated, rfl, h.vault, h.mint, jb, hJ, h.sysvar, h.terms,
    (), hgate, fun n hn => hjoins.trans (h.expected n hn), _, checkedAdd8_of hcm, _,
    checkedAdd32_of hjoin, s₃, hs₃, rfl⟩

/-- What others do that spares the payer and the two token accounts keeps the member admitted, at
the same price or a lower one. -/
theorem JoinGroup.Admitted.outside
    (ho : Sparing E a.rentPayer [a.memberTokenAccount, a.vault] s s')
    (h : a.Admitted E ctx expectedTerms expectedJoins s g) :
    a.price ctx s' ≤ a.price ctx s ∧ a.Admitted E ctx expectedTerms expectedJoins s' g := by
  obtain ⟨rb, hR⟩ := h.record
  obtain ⟨tb, hT⟩ := h.tally
  have hlR := (ho.derived (Env.findProgramAddress_create hR)).1
  have hlT := (ho.derived (Env.findProgramAddress_create hT)).1
  have htally : s'.tally a.joinTally = s.tally a.joinTally := congrFun ho.tally _
  have hjoins : a.joins s' = a.joins s := by
    unfold JoinGroup.joins
    rw [htally]
  have hprice : a.price ctx s' ≤ a.price ctx s := by
    unfold JoinGroup.price
    rw [htally]
    have hrecord := @topUp_anti (ctx.rent.minimumBalance MEMBER_RECORD_SPACE) _ _ hlR
    have htop := @topUp_anti (ctx.rent.minimumBalance JOIN_TALLY_SPACE) _ _ hlT
    split <;> omega
  obtain ⟨p, mt, vt, hpay⟩ := h.payable
  obtain ⟨hfunds, hsys⟩ := h.funds
  have hle := ho.payer_lamports
  obtain ⟨hmember, hvault⟩ := List.forall_mem_cons.1 ho.kept_account
  have hvault := hvault _ List.mem_cons_self
  refine ⟨hprice, h.member, h.payer, (congrFun ho.group _).trans h.group, h.isOpen, h.room, h.terms,
    h.mint, h.vault, h.record, (congrFun ho.record _).trans h.absent, h.tally, h.gate, h.sysvar,
    h.slot, fun j hj => h.approved j ((congrFun ho.gate _).symm.trans hj), ?_, ?_,
    ⟨p, mt, vt, hpay.program, ?_, hpay.associated, hpay.owner, hpay.mint, hpay.held, ?_, hpay.room,
      hpay.accepted⟩, by omega, ?_⟩
  · rw [hjoins]
    exact h.expected
  · rw [hjoins]
    exact h.count
  · rw [State.token, hmember]
    exact hpay.account
  · rw [State.token, hvault]
    exact hpay.vault
  · rw [ho.payer_account]
    exact hsys.imp_left fun h0 => by omega

end

/-- Who pays for the accounts of a join is a wallet, if there is anything to pay. -/
theorem join_inits_payer {s₁ s₂ : State K} {t : JoinTally K} (hRT : a.memberRecord ≠ a.joinTally)
    (hpR : a.rentPayer ≠ a.memberRecord) (hpT : a.rentPayer ≠ a.joinTally)
    (h₁ : initAccount ctx a.rentPayer a.memberRecord MEMBER_RECORD_SPACE (.other E.programId) s
      = .ok s₁)
    (h₂ : initTallyIfNeeded E ctx a.rentPayer a.joinTally s₁ = .ok (t, s₂)) :
    a.price ctx s = 0 ∨ s.account a.rentPayer = .system := by
  obtain ⟨n₁, hn₁, -, -, hsys₁, -, rfl⟩ := initAccount_eq_ok.1 h₁
  unfold JoinGroup.price
  rw [← hn₁]
  rcases hsys₁ with rfl | hsys₁
  · rcases initTallyIfNeeded_eq_ok.1 h₂ with ⟨hv, -, h₃⟩ | ⟨ht, -, -⟩
    · obtain ⟨n₂, hn₂, -, -, hsys₂, -, -⟩ := initAccount_eq_ok.1 h₃
      have hv : s.account a.joinTally = .system := by simpa [update_of_ne hRT.symm] using hv
      have hsys₂ : n₂ = 0 ∨ s.account a.rentPayer = .system := by
        simpa [update_of_ne hpR] using hsys₂
      simp only [State.lamports_set, State.lamports_transferLamports,
        moveLamports_of_ne _ _ hpT.symm hRT.symm] at hn₂
      rw [(State.views_of_vacant hv).2.2.2.1, ← hn₂]
      simpa using hsys₂
    · have ht : s.tally a.joinTally = some t := by
        simpa [update_of_ne hRT.symm, Account.joinTally?] using ht
      rw [ht]
      exact .inl rfl
  · exact .inr hsys₁

/-- The price is what the two creations transfer. -/
theorem JoinGroup.Effect.price {L' : Ledger K} {events : List (Event K)} {g : GroupConfig K}
    {t : JoinTally K} {n₁ n₂ : Nat}
    (h : a.Effect E ctx expectedTerms expectedJoins s.ledger L' events g t n₁ n₂) :
    a.joins s = t.joins ∧ a.price ctx s = n₁ + n₂ := by
  unfold JoinGroup.joins JoinGroup.price
  rw [h.rent₁]
  rcases h.tally with ⟨-, hnone, rfl, rfl⟩ | ⟨ht, -, rfl⟩
  · rw [State.ledger_tally] at hnone
    rw [hnone]
    exact ⟨rfl, rfl⟩
  · rw [State.ledger_tally] at ht
    rw [ht]
    exact ⟨rfl, rfl⟩

/-- The payer pays the price. -/
theorem joinGroup_pays {events : List (Event K)} (hL : Layout E s.ledger)
    (h : joinGroup E ctx a expectedTerms expectedJoins s = .ok (s', events)) :
    s'.lamports a.rentPayer + a.price ctx s = s.lamports a.rentPayer := by
  obtain ⟨g, t, n₁, n₂, heff⟩ := joinGroup_effect hL.selfOwned h
  obtain ⟨b, hT⟩ := heff.tallyAddress
  obtain ⟨_, _, _, _, _, _, -, -, -, -, -, -, -, -, hR, -, -, hpost, -⟩ := heff.post
  have hpR := Env.ne_of_canSign (Env.findProgramAddress_create hR) heff.payer.2
  have hpT := Env.ne_of_canSign (Env.findProgramAddress_create hT) heff.payer.2
  have hle := heff.rent
  have hl := congrFun (congrArg Ledger.lamports hpost) a.rentPayer
  dsimp only at hl
  rw [moveLamports_src _ _ hpT, moveLamports_src _ _ hpR] at hl
  simp only [State.ledger_lamports] at hl hle
  rw [heff.price.2]
  omega

theorem JoinGroup.admitted_of_ok {r : State K × List (Event K)} (hI : Inv E s.ledger)
    (h : joinGroup E ctx a expectedTerms expectedJoins s = .ok r) :
    ∃ g, a.Admitted E ctx expectedTerms expectedJoins s g := by
  have hL := hI.toLayout
  obtain ⟨s', events⟩ := r
  obtain ⟨g, t, n₁, n₂, heff⟩ := joinGroup_effect hL.selfOwned h
  simp only [joinGroup, bind_eq_ok, require_eq_ok, requireSigner_eq_ok, loadGroupConfig_eq_ok,
    loadTokenAccount_eq_ok, loadMint_eq_ok, requireCanonical_eq_ok, requireSeeds_eq_ok,
    orThrow_eq_ok, pure_eq_ok, exists_const, loadTokenProgram_eq_ok, checkExpectedJoins_eq_ok] at h
  obtain ⟨-, -, g', hg, ⟨p', mt⟩, hmt, ⟨p'', vt⟩, hvt, ⟨q, m⟩, -, p, hp, auth, hauth, h⟩ := h
  obtain ⟨rb, hR, s₁, hs₁, tb, hT, ⟨t', s₂⟩, hs₂, -, -, -, -, hata, hmp, -, -, h⟩ := h
  obtain ⟨jb, hJ, hsys, -, ⟨⟩, -, -, cm, -, joins, -, s₃, hs₃, -⟩ := h
  obtain ⟨t₁, t₂, q', m', -, -, -, -, -, -, -, href, -, -, -⟩ := transferChecked_eq_ok.1 hs₃
  obtain ⟨p₀, mt₀, vt₀, b, cm₀, joins₀, hmt₀, hvt₀, -, how, hmm, -, hheld, hroom, -, -, hjoins, -⟩ :=
    heff.post
  obtain rfl : g = g' := Option.some.inj (heff.group.symm.trans hg)
  rw [State.ledger_token, hmt] at hmt₀
  cases hmt₀
  obtain rfl : p' = p := hmp
  obtain ⟨hcount, hprice⟩ := heff.price
  have hR' := Env.findProgramAddress_create hR
  have hT' := Env.findProgramAddress_create hT
  have hsys := join_inits_payer (Env.address_ne hR' hT' (by simp))
    (Env.ne_of_canSign hR' heff.payer.2) (Env.ne_of_canSign hT' heff.payer.2) hs₁ hs₂
  refine ⟨g, heff.member, heff.payer, heff.group, heff.isOpen, heff.room, heff.terms, heff.mint,
    heff.vault, ⟨rb, hR⟩, heff.unused, heff.tallyAddress, heff.gateAddress, ‹_›,
    optionalSigner_slot hauth, heff.approved, fun n hn => hcount.trans (heff.expected n hn), ?_,
    ⟨p', mt, vt₀, ‹_›, hmt, hata, how, hmm, hheld, hvt₀, hroom, href⟩, ?_, hsys⟩
  · rw [hcount]
    have hj := checkedAdd32_eq_some hjoins
    have hlt := joins₀.toNat_lt
    have h1 : (1 : UInt32).toNat = 1 := rfl
    omega
  · rw [hprice]
    exact heff.rent

end

/-! ## Reachable states -/

/-- In every reachable state `create_group` and, if the rent rate did not change, `join_group` succeed
exactly when they are admitted, and the payer pays the price. What others do outside the program, to
the addresses that are created too, leaves them admitted and only lowers the price, as long as it
spares the payer and the mint, or the payer and the token accounts of the join. -/
theorem admitted_iff {h : List (StepEntry K)} (hr : Reached E h s) :
    (∀ ctx a groupCode depositAmount frequency totalPeriods maxMembers,
      ((∃ r, createGroup E ctx a groupCode depositAmount frequency totalPeriods maxMembers s = .ok r) ↔
        a.Admitted E ctx groupCode depositAmount frequency totalPeriods maxMembers s) ∧
      (∀ s' events, createGroup E ctx a groupCode depositAmount frequency totalPeriods maxMembers s =
          .ok (s', events) → s'.lamports a.rentPayer + a.price ctx s = s.lamports a.rentPayer) ∧
      ∀ s', Sparing E a.rentPayer [a.mint] s s' →
        a.Admitted E ctx groupCode depositAmount frequency totalPeriods maxMembers s →
          a.price ctx s' ≤ a.price ctx s ∧
            a.Admitted E ctx groupCode depositAmount frequency totalPeriods maxMembers s') ∧
    ∀ ctx a expectedTerms expectedJoins,
      (FixedRent ctx.rent h → ((∃ r, joinGroup E ctx a expectedTerms expectedJoins s = .ok r) ↔
        ∃ g, a.Admitted E ctx expectedTerms expectedJoins s g)) ∧
      (∀ s' events, joinGroup E ctx a expectedTerms expectedJoins s = .ok (s', events) →
        s'.lamports a.rentPayer + a.price ctx s = s.lamports a.rentPayer) ∧
      ∀ s' g, Sparing E a.rentPayer [a.memberTokenAccount, a.vault] s s' →
        a.Admitted E ctx expectedTerms expectedJoins s g →
          a.price ctx s' ≤ a.price ctx s ∧ a.Admitted E ctx expectedTerms expectedJoins s' g := by
  have hI := Reached.inv hr
  have hL := hI.toLayout
  refine ⟨fun _ _ _ _ _ _ _ => ⟨createGroup_iff hL, fun _ _ => createGroup_pays, ?_⟩,
    fun ctx a expectedTerms expectedJoins => ⟨fun hf => ⟨?_, ?_⟩, fun _ _ => joinGroup_pays hL, ?_⟩⟩
  · exact fun s' ho hadm => hadm.outside ho
  · intro hok
    obtain ⟨r, hok⟩ := hok
    exact JoinGroup.admitted_of_ok hI hok
  · intro hadm
    obtain ⟨g, hadm⟩ := hadm
    exact hadm.succeeds hL (Reached.rentExempt hr hf)
  · exact fun s' g ho hadm => hadm.outside ho

/-- Lamports may be sent to any address. -/
theorem Sparing.gift {payer k : K} {kept : List K} {n : Nat} :
    Sparing E payer kept s { s with lamports := update s.lamports k (s.lamports k + n) } := by
  have hle : ∀ k', s.lamports k' ≤ update s.lamports k (s.lamports k + n) k' := by
    intro k'
    by_cases hk : k' = k
    · subst hk
      simp
    · simp [update_of_ne hk]
  exact ⟨⟨fun k' _ => ⟨rfl, hle k'⟩, fun _ _ => rfl,
    fun _ => ⟨hle _, id, fun p t ht => ⟨t.amount, UInt64.le_refl _, ht⟩⟩, fun _ => id⟩, rfl, hle _,
    fun _ _ => rfl⟩

/-- A third member is admitted to a group of two, also after lamports were sent to the address of
its record, and the code of the group cannot be taken. -/
theorem admitted_iff_joined : ∃ h s, Reached symbolic h s ∧ FixedRent ⟨1, Nat.one_pos⟩ h ∧
    (∃ a terms g s', JoinGroup.Admitted symbolic (Demo.tx [3] 0) a terms none s g ∧
      a.member = .wallet 3 ∧ s'.lamports a.memberRecord = s.lamports a.memberRecord + 7 ∧
      JoinGroup.Admitted symbolic (Demo.tx [3] 0) a terms none s' g ∧
      a.price (Demo.tx [3] 0) s' ≤ a.price (Demo.tx [3] 0) s) ∧
    ¬CreateGroup.Admitted symbolic (Demo.tx [0] 0) ⟨.wallet 0, .wallet 0, Demo.G, Demo.V, .mint 0,
      .tokenProgram⟩ "a" 5 0 2 3 s := by
  have hrun : ((replay symbolic Demo.joined [] (world 10000 100)).any fun x =>
      (execute symbolic (Demo.tx [3] 0) (Demo.join 3) x.2).isOk &&
        !(execute symbolic (Demo.tx [0] 0) Demo.create x.2).isOk) = true := by
    decide +kernel
  obtain ⟨⟨h, s⟩, hrun, hs⟩ := (Option.any_eq_true _ _).1 hrun
  simp only [Bool.and_eq_true, Bool.not_eq_true'] at hs
  obtain ⟨hjoin, hcreate⟩ := hs
  have hr := replay_reached (.start (world_genesis 10000 100)) hrun
  have hf : FixedRent ⟨1, Nat.one_pos⟩ h := by
    intro e he ctx c events hact
    rcases replay_mem hrun he with he | ⟨x, hx, ev, hact'⟩
    · cases he
    · rw [hact'] at hact
      obtain ⟨rfl, -, -⟩ := Action.call.inj hact
      simp only [Demo.joined, List.mem_cons, List.not_mem_nil, or_false] at hx
      rcases hx with rfl | rfl | rfl <;> rfl
  obtain ⟨hcreates, hjoins⟩ := admitted_iff hr
  obtain ⟨r, hok⟩ := isOk_eq_true.1 hjoin
  obtain ⟨hiff, -, hkept⟩ := hjoins (Demo.tx [3] 0) _ _ _
  obtain ⟨g, hadm⟩ := (hiff hf).1 ⟨r, hok⟩
  obtain ⟨hprice, hadm'⟩ := hkept _ g (.gift (k := Demo.record 3) (n := 7)) hadm
  refine ⟨h, s, hr, hf, ⟨_, _, g, _, hadm, rfl, by simp, hadm', hprice⟩, fun hadm => ?_⟩
  obtain ⟨r, hok⟩ := (hcreates _ _ _ _ _ _ _).1.2 hadm
  have hok : execute symbolic (Demo.tx [0] 0) Demo.create s = .ok r := hok
  rw [hok] at hcreate
  cases hcreate

end SafeNudge
