import SafeNudge.Effect.Lifecycle
import SafeNudge.Instructions.Membership

/-!
# Effects of `join_group`, `leave_group` and `deposit`

`joinGroup_effect`, `leaveGroup_effect` and `deposit_effect`. They rest on one fact about the state
an instruction starts in: a vault is owned by its own address (`Ledger.SelfOwned`), so it is never
the token account of a signer.
-/

namespace SafeNudge

open Lib Function

variable {K : Type} [DecidableEq K] {E : Env K} {ctx : Ctx K} {s s' : State K}

/-! ## `join_group` -/

/-- The tally a first join starts from. -/
def newTally (E : Env K) : JoinTally K := { rentPayer := E.systemProgram, joins := 0 }

omit [DecidableEq K] in
theorem owner_eq_system {a : Account K} (h : a.owner E = E.systemProgram) :
    a = .system ∨ a = .other E.systemProgram := by
  have hn := E.programs_nodup
  cases a with
  | system => exact .inl rfl
  | other o => exact .inr (by rw [show o = _ from h])
  | token p t => cases p <;> simp_all [Account.owner, Env.tokenKey]
  | mint p t => cases p <;> simp_all [Account.owner, Env.tokenKey]
  | _ => simp_all [Account.owner]

theorem initTallyIfNeeded_eq_ok {payer key : K} {t : JoinTally K} :
    initTallyIfNeeded E ctx payer key s = .ok (t, s') ↔
      (s.account key = .system ∧ t = newTally E ∧
        initAccount ctx payer key JOIN_TALLY_SPACE (.other E.programId) s = .ok s') ∨
      (s.tally key = some t ∧ ctx.rent.minimumBalance JOIN_TALLY_SPACE ≤ s.lamports key ∧
        s' = s) := by
  unfold initTallyIfNeeded
  split
  · rename_i ho
    have hnt : s.tally key = none := by
      rcases owner_eq_system ho with h | h <;> simp [State.tally, h, Account.joinTally?]
    simp only [bind_eq_ok, pure_eq_ok, Prod.mk.injEq, hnt, reduceCtorEq, false_and, or_false]
    constructor
    · rintro ⟨s₁, hs, rfl, rfl⟩
      obtain ⟨-, -, -, hv, -⟩ := initAccount_eq_ok.1 hs
      exact ⟨hv, rfl, hs⟩
    · rintro ⟨-, rfl, hs⟩
      exact ⟨s', hs, rfl, rfl⟩
  · rename_i ho
    have hns : s.account key ≠ .system := fun h => ho (by rw [h]; rfl)
    simp only [bind_eq_ok, loadJoinTally_eq_ok, require_eq_ok, exists_const, pure_eq_ok,
      Prod.mk.injEq, hns, false_and, false_or]
    constructor
    · rintro ⟨t', ht, hl, rfl, rfl⟩
      exact ⟨ht, hl, rfl⟩
    · rintro ⟨ht, hl, rfl⟩
      exact ⟨t, ht, hl, rfl, rfl⟩

/-- The approval a gate with this authority asks for. -/
structure JoinGroup.Approved (E : Env K) (ctx : Ctx K) (a : JoinGroup K)
    (expectedJoins : Option UInt32) (authority : K) : Prop where
  slot : a.joinAuthority = authority
  signed : Signed E ctx authority
  nonce : usesDurableNonce E ctx = false
  expected : expectedJoins.isSome = true

theorem optionalSigner_eq_some {slot k : K} (h : optionalSigner E ctx slot = .ok (some k)) :
    slot = k ∧ Signed E ctx k := by
  unfold optionalSigner at h
  split at h
  · cases h
  · simp only [bind_eq_ok, requireSigner_eq_ok, pure_eq_ok, exists_const, Option.some.injEq] at h
    obtain ⟨hs, rfl⟩ := h
    exact ⟨rfl, hs⟩

theorem checkJoinGate_approved {a : JoinGroup K} {auth : Option K} {exp : Option UInt32} {u : Unit}
    (h : checkJoinGate E ctx a.joinGate auth exp s = .ok u)
    (ha : optionalSigner E ctx a.joinAuthority = .ok auth) {j : JoinGate K}
    (hj : s.gate a.joinGate = some j) : a.Approved E ctx exp j.authority := by
  have ho : (s.account a.joinGate).owner E = E.programId := by rw [State.gate_eq_some.1 hj]; rfl
  rw [checkJoinGate, if_pos ho] at h
  simp only [bind_eq_ok, loadJoinGate_eq_ok, require_eq_ok, exists_const] at h
  obtain ⟨j', hj', rfl, hn, he⟩ := h
  obtain rfl : j' = j := by simpa [hj'] using hj
  obtain ⟨hs, hsig⟩ := optionalSigner_eq_some ha
  exact ⟨hs, hsig, hn, he⟩

theorem checkExpectedJoins_eq_ok {exp : Option UInt32} {joins : UInt32} {u : Unit} :
    checkExpectedJoins exp joins = .ok u ↔ ∀ k, exp = some k → joins = k := by
  cases exp with
  | none => simp [checkExpectedJoins]
  | some k => simp [checkExpectedJoins]

theorem first_period_lt : 0 < 52 := by decide

/-- The record `join_group` writes. -/
def JoinGroup.newRecord (a : JoinGroup K) (depositAmount : UInt64) (bump : UInt8) :
    MemberRecord K where
  group := a.groupConfig
  member := a.member
  rentPayer := a.rentPayer
  totalDeposited := depositAmount
  depositsMade := 1
  periodsDeposited := (Vector.replicate 52 false).set 0 true first_period_lt
  bump
  reserved := .replicate 32 0

structure JoinGroup.Effect (E : Env K) (ctx : Ctx K) (a : JoinGroup K)
    (expectedTerms : GroupTerms K) (expectedJoins : Option UInt32) (L L' : Ledger K)
    (events : List (Event K)) (g : GroupConfig K) (t : JoinTally K) (n₁ n₂ : Nat) : Prop where
  member : Signed E ctx a.member
  payer : Signed E ctx a.rentPayer
  group : L.group a.groupConfig = some g
  isOpen : g.status = STATUS_OPEN
  room : g.currentMembers < g.maxMembers
  terms : g.terms = expectedTerms
  mint : a.mint = g.mint
  vault : E.createProgramAddress (.vault a.groupConfig) g.vaultBump = some a.vault
  fresh : L.vacant a.memberRecord
  unused : L.record a.memberRecord = none
  /-- The count before this join: that of the stored tally, or zero where there was none. -/
  tally : (L.vacant a.joinTally ∧ L.tally a.joinTally = none ∧ t = newTally E ∧
      n₂ = topUp (ctx.rent.minimumBalance JOIN_TALLY_SPACE) (L.lamports a.joinTally)) ∨
    (L.tally a.joinTally = some t ∧
      ctx.rent.minimumBalance JOIN_TALLY_SPACE ≤ L.lamports a.joinTally ∧ n₂ = 0)
  tallyAddress : ∃ b, E.findProgramAddress (.tally a.groupConfig a.member) = some (a.joinTally, b)
  gateAddress : ∃ b, E.findProgramAddress (.join a.groupConfig) = some (a.joinGate, b)
  approved : ∀ j, L.gate a.joinGate = some j → a.Approved E ctx expectedJoins j.authority
  expected : ∀ k, expectedJoins = some k → t.joins = k
  rent₁ : n₁ = topUp (ctx.rent.minimumBalance MEMBER_RECORD_SPACE) (L.lamports a.memberRecord)
  rent : n₁ + n₂ ≤ L.lamports a.rentPayer
  post : ∃ p mt vt bump currentMembers joins,
    L.token a.memberTokenAccount = some (p, mt) ∧ L.token a.vault = some (p, vt) ∧
    a.memberTokenAccount ≠ a.vault ∧ mt.owner = a.member ∧ mt.mint = g.mint ∧ vt.mint = g.mint ∧
    g.depositAmount ≤ mt.amount ∧ vt.amount.toNat + g.depositAmount.toNat < 2 ^ 64 ∧
    E.findProgramAddress (.member a.groupConfig a.member) = some (a.memberRecord, bump) ∧
    checkedAdd8 g.currentMembers 1 = some currentMembers ∧ checkedAdd32 t.joins 1 = some joins ∧
    L' = { L with
      group := update L.group a.groupConfig (some { g with currentMembers })
      record := update L.record a.memberRecord (some (a.newRecord g.depositAmount bump))
      tally := update L.tally a.joinTally (some
        { rentPayer := if t.joins = 0 then a.rentPayer else t.rentPayer, joins })
      token := movedTokens L.token p a.memberTokenAccount a.vault mt vt g.depositAmount
      vacant := update (update L.vacant a.joinTally False) a.memberRecord False
      lamports := moveLamports (moveLamports L.lamports a.rentPayer a.memberRecord n₁)
        a.rentPayer a.joinTally n₂ } ∧
    events = [.memberJoined a.groupConfig a.member a.rentPayer g.depositAmount currentMembers joins]

/-- The two account creations of `join_group`, with the contents written to them at its end. -/
theorem join_inits {payer record tally : K} {s₁ s₂ : State K} {t : JoinTally K} {n : Nat}
    (h₁ : initAccount ctx payer record n (.other E.programId) s = .ok s₁)
    (h₂ : initTallyIfNeeded E ctx payer tally s₁ = .ok (t, s₂)) (hne : record ≠ tally)
    (hp : E.canSign payer = true) (ht : E.canSign tally = false) :
    ∃ n₁ n₂, n₁ = topUp (ctx.rent.minimumBalance n) (s.lamports record) ∧
      n₁ + n₂ ≤ s.lamports payer ∧ s.account record = .system ∧
      ((s.account tally = .system ∧ t = newTally E ∧
          n₂ = topUp (ctx.rent.minimumBalance JOIN_TALLY_SPACE) (s.lamports tally)) ∨
        (s.tally tally = some t ∧
          ctx.rent.minimumBalance JOIN_TALLY_SPACE ≤ s.lamports tally ∧ n₂ = 0)) ∧
      (∀ k, k ≠ record → k ≠ tally → s₂.account k = s.account k) ∧
      ∀ r t', (s₂.set record r).set tally t' =
        (((s.transferLamports payer record n₁).transferLamports payer tally n₂).set tally t').set
          record r := by
  obtain ⟨n₁, hn₁, hpr, hvr, -, hle, rfl⟩ := initAccount_eq_ok.1 h₁
  have hpt : tally ≠ payer := by
    rintro rfl
    rw [hp] at ht
    cases ht
  rcases initTallyIfNeeded_eq_ok.1 h₂ with ⟨hvt, rfl, h₃⟩ | ⟨htal, hle₂, rfl⟩
  · obtain ⟨n₂, hn₂, -, -, -, hle₂, rfl⟩ := initAccount_eq_ok.1 h₃
    simp only [State.lamports_set, State.lamports_transferLamports, moveLamports_src _ _ hpr,
      moveLamports_of_ne _ _ hpt hne.symm] at hn₂ hle₂
    refine ⟨n₁, n₂, hn₁, by omega, hvr, .inl ⟨?_, rfl, hn₂⟩, fun k hk hk' => ?_, fun r t' => ?_⟩
    · simpa [update_of_ne hne.symm] using hvt
    · simp [update_of_ne hk, update_of_ne hk']
    · simp only [State.transferLamports_set, State.set_comm hne, State.set_set]
  · simp only [State.lamports_set, State.lamports_transferLamports,
      moveLamports_of_ne _ _ hpt hne.symm] at hle₂
    refine ⟨n₁, 0, hn₁, by omega, hvr, .inr ⟨?_, hle₂, rfl⟩, fun k hk _ => ?_, fun r t' => ?_⟩
    · simpa [update_of_ne hne.symm, Account.joinTally?] using htal
    · simp [update_of_ne hk]
    · simp only [State.transferLamports_zero, State.set_comm hne, State.set_set]

theorem ledger_write_joinTally {T : State K} {k : K} {t : JoinTally K}
    (h : T.account k = .system ∨ T.tally k = some t) (t' : JoinTally K) :
    (T.set k (.joinTally t')).ledger = { T.ledger with
      tally := update T.ledger.tally k (some t')
      vacant := update T.ledger.vacant k False } := by
  rcases h with h | h
  · exact State.ledger_create_tally h t'
  · have hv : T.ledger.vacant k = False := (State.views_of_tally h).2.2.2.2.2
    rw [State.ledger_write_tally (by simp [h]), State.update_same hv]

theorem joinGroup_effect {a : JoinGroup K} {expectedTerms : GroupTerms K}
    {expectedJoins : Option UInt32} {events : List (Event K)} (hown : s.ledger.SelfOwned E)
    (h : joinGroup E ctx a expectedTerms expectedJoins s = .ok (s', events)) :
    ∃ g t n₁ n₂, JoinGroup.Effect E ctx a expectedTerms expectedJoins s.ledger s'.ledger events
      g t n₁ n₂ := by
  simp only [joinGroup, bind_eq_ok, require_eq_ok, requireSigner_eq_ok, loadGroupConfig_eq_ok,
    loadTokenAccount_eq_ok, loadMint_eq_ok, requireCanonical_eq_ok, requireSeeds_eq_ok,
    orThrow_eq_ok, pure_eq_ok, exists_const, loadTokenProgram_eq_ok, checkExpectedJoins_eq_ok,
    Prod.mk.injEq] at h
  obtain ⟨hmem, hpay, g, hg, ⟨p', mt⟩, hmt, ⟨p'', vt⟩, hvt, ⟨q, m⟩, hm, p, hp, auth, hauth, h⟩ := h
  obtain ⟨rb, hR, s₁, hs₁, tb, hT, ⟨t, s₂⟩, hs₂, hseed, hst, hroom, hmo, hata, hmp, hV, hmint, h⟩ := h
  obtain ⟨jb, hJ, hsys, hterms, ⟨⟩, hgate, hexp, cm, hcm, joins, hjoins, s₃, hs₃, rfl, rfl⟩ := h
  dsimp only at *
  have hR' := Env.findProgramAddress_create hR
  have hT' := Env.findProgramAddress_create hT
  have hRT : a.memberRecord ≠ a.joinTally := Env.address_ne hR' hT' (by simp)
  obtain ⟨n₁, n₂, hn₁, hle, hvR, htal, hacc, hset⟩ :=
    join_inits hs₁ hs₂ hRT hpay.2 (Env.findProgramAddress_canSign hT)
  have hJR : a.joinGate ≠ a.memberRecord :=
    Env.address_ne (Env.findProgramAddress_create hJ) hR' (by simp)
  have hJT : a.joinGate ≠ a.joinTally :=
    Env.address_ne (Env.findProgramAddress_create hJ) hT' (by simp)
  have hGR : a.groupConfig ≠ a.memberRecord := Env.address_ne hseed hR' (by simp)
  have hGT : a.groupConfig ≠ a.joinTally := Env.address_ne hseed hT' (by simp)
  have hVR : a.vault ≠ a.memberRecord := Env.address_ne hV hR' (by simp)
  have hVT : a.vault ≠ a.joinTally := Env.address_ne hV hT' (by simp)
  have hmt₀ := hmt
  have hmt := State.token_eq_some.1 hmt
  have hvt' := State.token_eq_some.1 hvt
  have hg' := State.group_eq_some.1 hg
  have hMR : a.memberTokenAccount ≠ a.memberRecord := by
    intro h; simp [h, hvR] at hmt
  have hMT : a.memberTokenAccount ≠ a.joinTally := by
    intro h
    rcases htal with ⟨hv, -⟩ | ⟨hv, -⟩
    · simp [h, hv] at hmt
    · simp [h, State.tally_eq_some.1 hv] at hmt
  have hMV : a.memberTokenAccount ≠ a.vault := by
    intro h
    rw [h, hvt'] at hmt
    cases hmt
    have hvo := hown hV hvt
    exact Env.ne_of_canSign hV hmem.2 (by rw [← hmo, hvo])
  have hMG : a.memberTokenAccount ≠ a.groupConfig := by
    intro h; simp [h, hg'] at hmt
  have hVG : a.vault ≠ a.groupConfig := Env.address_ne hV hseed (by simp)
  obtain ⟨mt', vt', q', m', hmt₂, hvt₂, -, hmm, hvm, -, -, -, hle', hover, rfl⟩ :=
    transferChecked_eq_ok.1 hs₃
  rw [hacc _ hMR hMT, hmt] at hmt₂
  rw [hacc _ hVR hVT, hvt'] at hvt₂
  cases hmt₂
  cases hvt₂
  refine ⟨g, t, n₁, n₂, hmem, hpay, hg, hst, hroom, hterms, hmint, hV, hvR,
    (State.views_of_vacant hvR).2.1, htal.imp_left fun h =>
      ⟨h.1, (State.views_of_vacant h.1).2.2.2.1, h.2⟩, ⟨tb, hT⟩, ⟨jb, hJ⟩, fun j hj => checkJoinGate_approved hgate hauth ?_, hexp, hn₁, hle,
    ⟨p', mt, vt, rb, cm, joins, State.token_eq_some.2 hmt, hvt, hMV, hmo, hmm.trans hmint,
      hvm.trans hmint, hle', hover.resolve_left hMV, hR, hcm, hjoins, ?_, rfl⟩⟩
  · rw [State.gate, hacc _ hJR hJT]
    exact hj
  · have htal₂ : ((s.transferLamports a.rentPayer a.memberRecord n₁).transferLamports a.rentPayer
        a.joinTally n₂).account a.joinTally = .system ∨ ((s.transferLamports a.rentPayer
        a.memberRecord n₁).transferLamports a.rentPayer a.joinTally n₂).tally a.joinTally = some t :=
      htal.imp And.left And.left
    rw [State.moveTokens_of (by rw [hacc _ hMR hMT, hmt]) (by rw [hacc _ hVR hVT, hvt']) hMV]
    simp only [State.set_comm hGR, State.set_comm hGT, State.set_comm hVR, State.set_comm hVT,
      State.set_comm hMR, State.set_comm hMT, hset]
    rw [State.ledger_write_group (by simp [update_of_ne, hGR, hGT, hMG.symm, hVG.symm, hg,
        Account.groupConfig?]),
      State.ledger_write_token (by simp [update_of_ne, hVR, hVT, hMV.symm, hvt]),
      State.ledger_write_token (by simp [update_of_ne, hMR, hMT, hmt₀]),
      State.ledger_create_record (by simpa [update_of_ne hRT] using hvR),
      ledger_write_joinTally htal₂]
    rfl

/-! ## `leave_group` -/

structure LeaveGroup.Effect (E : Env K) (ctx : Ctx K) (a : LeaveGroup K) (L L' : Ledger K)
    (events : List (Event K)) (g : GroupConfig K) (r : MemberRecord K) : Prop where
  member : Signed E ctx a.member
  group : L.group a.groupConfig = some g
  record : L.record a.memberRecord = some r
  isOpen : g.status = STATUS_OPEN
  address : E.createProgramAddress (.member a.groupConfig a.member) r.bump = some a.memberRecord
  payer : a.rentPayer = r.rentPayer
  mint : a.mint = g.mint
  vault : E.createProgramAddress (.vault a.groupConfig) g.vaultBump = some a.vault
  post : ∃ p mt vt currentMembers,
    L.token a.memberTokenAccount = some (p, mt) ∧ L.token a.vault = some (p, vt) ∧
    a.vault ≠ a.memberTokenAccount ∧ mt.owner = a.member ∧ mt.mint = g.mint ∧ vt.mint = g.mint ∧
    r.totalDeposited ≤ vt.amount ∧ mt.amount.toNat + r.totalDeposited.toNat < 2 ^ 64 ∧
    checkedSub8 g.currentMembers 1 = some currentMembers ∧
    L' = { L with
      group := update L.group a.groupConfig (some { g with currentMembers })
      record := update L.record a.memberRecord none
      token := movedTokens L.token p a.vault a.memberTokenAccount vt mt r.totalDeposited
      vacant := update L.vacant a.memberRecord True
      lamports := moveLamports L.lamports a.memberRecord a.rentPayer (L.lamports a.memberRecord) } ∧
    events = [.memberLeft a.groupConfig a.member r.totalDeposited currentMembers]

theorem leaveGroup_effect {a : LeaveGroup K} {events : List (Event K)}
    (h : leaveGroup E ctx a s = .ok (s', events)) :
    ∃ g r, LeaveGroup.Effect E ctx a s.ledger s'.ledger events g r := by
  simp only [leaveGroup, bind_eq_ok, require_eq_ok, requireSigner_eq_ok, loadGroupConfig_eq_ok,
    loadMemberRecord_eq_ok, loadTokenAccount_eq_ok, loadMint_eq_ok, requireSeeds_eq_ok,
    requireClose_eq_ok, orThrow_eq_ok, pure_eq_ok, exists_const, loadTokenProgram_eq_ok,
    Prod.mk.injEq] at h
  obtain ⟨hmem, g, hg, r, hr, ⟨p', mt⟩, hmt, ⟨p'', vt⟩, hvt, ⟨q, m⟩, hm, p, hp, hseed, hst, hR, hpay,
    hne, hmo, hmm, hmp, hV, hmint, cm, hcm, s₁, hs₁, rfl, rfl⟩ := h
  dsimp only at *
  have hmt' := State.token_eq_some.1 hmt
  obtain ⟨vt', mt', q', m', hvt₂, hmt₂, -, hvm, -, -, hvo, -, hle, hover, rfl⟩ :=
    transferChecked_eq_ok.1 hs₁
  rw [State.token_eq_some.1 hvt] at hvt₂
  rw [hmt'] at hmt₂
  cases hvt₂
  cases hmt₂
  have hVM : a.vault ≠ a.memberTokenAccount := by
    intro h
    have heq : vt.owner = mt.owner := by
      rw [h, hmt] at hvt
      cases hvt
      rfl
    exact Env.ne_of_canSign hV hmem.2 (by rw [← hmo, ← heq, hvo])
  refine ⟨g, r, hmem, hg, hr, hst, hR, hpay, hmint, hV, p', mt, vt, cm, hmt, hvt, hVM, hmo,
    hmm.trans hmint, hvm.trans hmint, hle, hover.resolve_left hVM, hcm, ?_, rfl⟩
  have hRG : a.memberRecord ≠ a.groupConfig := Env.address_ne hR hseed (by simp)
  have hRV : a.memberRecord ≠ a.vault := Env.address_ne hR hV (by simp)
  have hRM : a.memberRecord ≠ a.memberTokenAccount := by
    intro h
    rw [← h, State.record_eq_some.1 hr] at hmt'
    cases hmt'
  have hGV : a.groupConfig ≠ a.vault := Env.address_ne hseed hV (by simp)
  have hGM : a.groupConfig ≠ a.memberTokenAccount := by
    intro h
    rw [← h, State.group_eq_some.1 hg] at hmt'
    cases hmt'
  have hr₁ : ((s.moveTokens a.vault a.memberTokenAccount r.totalDeposited).set a.groupConfig
      (.groupConfig { g with currentMembers := cm })).record a.memberRecord = some r := by
    rw [State.moveTokens_of (State.token_eq_some.1 hvt) hmt' hVM]
    simp [update_of_ne, hRG, hRV, hRM, hr]
  have hg₁ : ((s.moveTokens a.vault a.memberTokenAccount r.totalDeposited).group
      a.groupConfig).isSome := by
    rw [State.moveTokens_of (State.token_eq_some.1 hvt) hmt' hVM]
    simp [update_of_ne, hGV, hGM, hg]
  rw [State.ledger_close_record hr₁, State.ledger_write_group hg₁,
    State.ledger_moveTokens (State.token_eq_some.1 hvt) hmt' hVM]

/-! ## `deposit` -/

omit [DecidableEq K] in
/-- The period is the clamped, truncated quotient. -/
theorem GroupConfig.currentPeriod_eq_ok {g : GroupConfig K} {now duration : Int64} {period : UInt8}
    (hd : 0 < duration.toInt) : g.currentPeriod now duration = .ok period ↔
      ∃ elapsed q : Int64, ∃ n last : UInt8, checkedSubI64 now g.cycleStart = some elapsed ∧
        checkedSub8 g.totalPeriods 1 = some last ∧ checkedDivI64 elapsed duration = some q ∧
        toU8 q = some n ∧ elapsed.toInt = now.toInt - g.cycleStart.toInt ∧
        elapsed.toInt.tdiv duration.toInt = n.toNat ∧ period = min n last := by
  simp only [currentPeriod, bind_eq_ok, orThrow_eq_ok, pure_eq_ok]
  constructor
  · rintro ⟨elapsed, he, last, hl, q, hq, n, hn, rfl⟩
    exact ⟨elapsed, q, n, last, he, hl, hq, hn, toI64_eq_some he,
      ((checkedDivI64_eq_some hd).1 hq).symm.trans (toU8_eq_some.1 hn), rfl⟩
  · rintro ⟨elapsed, q, n, last, he, hl, hq, hn, -, -, rfl⟩
    exact ⟨elapsed, he, last, hl, q, hq, n, hn, rfl⟩

omit [DecidableEq K] in
theorem MemberRecord.mark_eq_ok {r r' : MemberRecord K} {period : UInt8} {n : UInt64} :
    r.mark period n = .ok r' ↔ r.periodsDeposited[period.toNat]? = some false ∧
      ∃ made total, checkedAdd8 r.depositsMade 1 = some made ∧
        checkedAdd64 r.totalDeposited n = some total ∧
        r' = { r with
          periodsDeposited := r.periodsDeposited.setIfInBounds period.toNat true
          depositsMade := made
          totalDeposited := total } := by
  simp only [mark, bind_eq_ok, orThrow_eq_ok, require_eq_ok, exists_const, pure_eq_ok]
  constructor
  · rintro ⟨b, hb, rfl, made, hm, total, ht, rfl⟩
    exact ⟨hb, made, total, hm, ht, rfl⟩
  · rintro ⟨hb, made, total, hm, ht, rfl⟩
    exact ⟨false, hb, rfl, made, hm, total, ht, rfl⟩

structure Deposit.Effect (E : Env K) (ctx : Ctx K) (a : Deposit K) (L L' : Ledger K)
    (events : List (Event K)) (g : GroupConfig K) (r : MemberRecord K) : Prop where
  member : Signed E ctx a.member
  group : L.group a.groupConfig = some g
  record : L.record a.memberRecord = some r
  active : g.status = STATUS_ACTIVE
  address : E.createProgramAddress (.member a.groupConfig a.member) r.bump = some a.memberRecord
  record_eq : r.group = a.groupConfig ∧ r.member = a.member
  mint : a.mint = g.mint
  vault : E.createProgramAddress (.vault a.groupConfig) g.vaultBump = some a.vault
  period : ∃ duration cycleEnd period r',
    periodDurationSecs E g.frequency = .ok duration ∧ g.cycleEnd E = .ok cycleEnd ∧
    ctx.unixTimestamp < cycleEnd ∧ g.currentPeriod ctx.unixTimestamp duration = .ok period ∧
    r.mark period g.depositAmount = .ok r' ∧
    L'.record = update L.record a.memberRecord (some r') ∧
    events = [.depositMade a.groupConfig a.member period g.depositAmount r'.depositsMade]
  post : ∃ p mt vt,
    L.token a.memberTokenAccount = some (p, mt) ∧ L.token a.vault = some (p, vt) ∧
    a.memberTokenAccount ≠ a.vault ∧ mt.owner = a.member ∧ mt.mint = g.mint ∧ vt.mint = g.mint ∧
    g.depositAmount ≤ mt.amount ∧ vt.amount.toNat + g.depositAmount.toNat < 2 ^ 64 ∧
    L' = { L with
      record := L'.record
      token := movedTokens L.token p a.memberTokenAccount a.vault mt vt g.depositAmount }

theorem deposit_effect {a : Deposit K} {events : List (Event K)} (hown : s.ledger.SelfOwned E)
    (h : deposit E ctx a s = .ok (s', events)) :
    ∃ g r, Deposit.Effect E ctx a s.ledger s'.ledger events g r := by
  simp only [deposit, bind_eq_ok, require_eq_ok, requireSigner_eq_ok, loadGroupConfig_eq_ok,
    loadMemberRecord_eq_ok, loadTokenAccount_eq_ok, loadMint_eq_ok, requireSeeds_eq_ok,
    pure_eq_ok, exists_const, loadTokenProgram_eq_ok, Prod.mk.injEq] at h
  obtain ⟨hmem, g, hg, r, hr, ⟨p', mt⟩, hmt, ⟨p'', vt⟩, hvt, ⟨q, m⟩, hm, p, hp, hseed, hst, hR,
    hrg, hrm, hmm, hmo, hV, hmint, duration, hdur, cycleEnd, hce, hlt, period, hper, r', hr', s₁, hs₁,
    rfl, rfl⟩ := h
  dsimp only at *
  have hmt' := State.token_eq_some.1 hmt
  obtain ⟨mt', vt', q', m', hmt₂, hvt₂, -, -, hvm, -, -, -, hle, hover, rfl⟩ :=
    transferChecked_eq_ok.1 hs₁
  rw [State.token_eq_some.1 hvt] at hvt₂
  rw [hmt'] at hmt₂
  cases hvt₂
  cases hmt₂
  have hMV : a.memberTokenAccount ≠ a.vault := by
    intro h
    have heq : vt = mt := by
      rw [← h, hmt] at hvt
      cases hvt
      rfl
    exact Env.ne_of_canSign hV hmem.2 (by rw [← hmo, ← heq, hown hV hvt])
  have hRV : a.memberRecord ≠ a.vault := Env.address_ne hR hV (by simp)
  have hRM : a.memberRecord ≠ a.memberTokenAccount := by
    intro h
    rw [← h, State.record_eq_some.1 hr] at hmt'
    cases hmt'
  have hr₁ : ((s.moveTokens a.memberTokenAccount a.vault g.depositAmount).record
      a.memberRecord).isSome := by
    rw [State.moveTokens_of hmt' (State.token_eq_some.1 hvt) hMV]
    simp [update_of_ne, hRV, hRM, hr]
  have hpost : ((s.moveTokens a.memberTokenAccount a.vault g.depositAmount).set a.memberRecord
      (.memberRecord r')).ledger = { s.ledger with
        record := update s.ledger.record a.memberRecord (some r')
        token := movedTokens s.ledger.token p' a.memberTokenAccount a.vault mt vt
          g.depositAmount } := by
    rw [State.ledger_write_record hr₁,
      State.ledger_moveTokens hmt' (State.token_eq_some.1 hvt) hMV]
  refine ⟨g, r, hmem, hg, hr, hst, hR, ⟨hrg, hrm⟩, hmint, hV,
    ⟨duration, cycleEnd, period, r', hdur, hce, hlt, hper, hr', ?_, rfl⟩,
    p', mt, vt, hmt, hvt, hMV, hmo, hmm, hvm.trans hmint, hle, hover.resolve_left hMV, ?_⟩
  · rw [hpost]
  · rw [hpost]

end SafeNudge
