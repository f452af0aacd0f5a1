import Mathlib.Data.List.Nodup
import SafeNudge.Effect.Lifecycle
import SafeNudge.Effect.Payout

/-!
# Effects of `distribute` and `emergency_cancel`

`distribute_eq_ok` and `emergencyCancel_eq_ok` say exactly when a settlement succeeds, in terms of
the shared plan (`payPlan`); `distribute_effect` and `emergencyCancel_effect` give the ledger after
it. Two facts of the state before are used: vaults own themselves and members can sign, so no
member's token account is the vault.
-/

namespace SafeNudge

open Lib Function

variable {K : Type} [DecidableEq K] {E : Env K} {ctx : Ctx K} {s s' : State K}

/-- What both handlers have read and checked when their first pass is through. -/
structure Settling (E : Env K) (L : Ledger K) (groupKey vault : K) (remaining : List K)
    (g : GroupConfig K) (p : TokenProgram) (t : TokenAccount K) (rs : List (MemberRecord K)) :
    Prop where
  group : L.group groupKey = some g
  address : E.createProgramAddress (.group g.groupCode) g.bump = some groupKey
  vaultAddress : E.createProgramAddress (.vault groupKey) g.vaultBump = some vault
  held : L.token vault = some (p, t)
  length : remaining.length = 2 * g.currentMembers.toNat
  accepted : List.Forall₂ (PairOk E L groupKey g.mint) (chunksExact2 remaining) rs
  nodup : ((chunksExact2 remaining).map Prod.fst).Nodup
  covered : depositsSum rs ≤ t.amount.toNat

/-- The payouts with the token accounts they go to. -/
def payPlan (remaining : List K) (rs : List (MemberRecord K)) (vaultAmount : UInt64) :
    List (K × UInt64) :=
  ((chunksExact2 remaining).map Prod.snd).zip (payouts (rs.map (·.totalDeposited)) vaultAmount)

namespace Settling

variable {L : Ledger K} {groupKey vault : K} {remaining : List K} {g : GroupConfig K}
  {p : TokenProgram} {t : TokenAccount K} {rs : List (MemberRecord K)}

omit [DecidableEq K] in
theorem pairs_length (h : Settling E L groupKey vault remaining g p t rs) :
    (chunksExact2 remaining).length = g.currentMembers.toNat := chunksExact2_length h.length

omit [DecidableEq K] in
theorem records_length (h : Settling E L groupKey vault remaining g p t rs) :
    rs.length = g.currentMembers.toNat := by
  rw [← h.accepted.length_eq, h.pairs_length]

end Settling

omit [DecidableEq K] in
/-- An accepted token account is not the vault: it belongs to a member. -/
theorem PairOk.ne_vault {L : Ledger K} {groupKey mintKey vault : K} {pair : K × K}
    {r : MemberRecord K} {b : UInt8} (h : PairOk E L groupKey mintKey pair r)
    (hown : L.SelfOwned E) (hrec : ∀ {k r}, L.record k = some r → r.Placed E k)
    (hv : E.createProgramAddress (.vault groupKey) b = some vault) : pair.2 ≠ vault := by
  obtain ⟨p, t, ht, ho, -⟩ := h.token
  intro he
  rw [he] at ht
  exact Env.ne_of_canSign hv (hrec h.record).member (by rw [← ho, hown hv ht])

omit [DecidableEq K] in
theorem pairs_ne_vault {L : Ledger K} {groupKey mintKey vault : K} {pairs : List (K × K)}
    {rs : List (MemberRecord K)} {b : UInt8}
    (h : List.Forall₂ (PairOk E L groupKey mintKey) pairs rs) (hown : L.SelfOwned E)
    (hrec : ∀ {k r}, L.record k = some r → r.Placed E k)
    (hv : E.createProgramAddress (.vault groupKey) b = some vault) :
    ∀ pair ∈ pairs, pair.2 ≠ vault := by
  intro pair hp
  obtain ⟨r, -, hr⟩ := exists_of_mem_forall₂ h hp
  exact hr.ne_vault hown hrec hv

omit [DecidableEq K] in
theorem checkRemaining_eq_ok {n : UInt8} {remaining : List K} {u : Unit} :
    checkRemaining n.toNat remaining = .ok u ↔ remaining.length = 2 * n.toNat := by
  have hlt := n.toNat_lt
  rw [checkRemaining, checkedMulUsize_of (by omega), orThrow_some, ok_bind, require_eq_ok]
  omega

/-! ## `distribute` -/

/-- The group `distribute` writes. -/
def GroupConfig.completed (g : GroupConfig K) (now : Int64) : GroupConfig K :=
  { g with status := STATUS_COMPLETED, settledAt := now }

/-- The `MemberSettled` events of a settlement. -/
def settledEvents (groupKey : K) (rs : List (MemberRecord K)) (vaultAmount : UInt64) :
    List (MemberSettled K) :=
  List.zipWith (settledEvent groupKey) rs (payouts (rs.map (·.totalDeposited)) vaultAmount)

omit [DecidableEq K] in
theorem settledEvents_payout {groupKey : K} {rs : List (MemberRecord K)} {v : UInt64} :
    (settledEvents groupKey rs v).map (·.payout.toNat) =
      (payouts (rs.map (·.totalDeposited)) v).map UInt64.toNat := by
  have hz : ∀ (rs : List (MemberRecord K)) (ns : List UInt64), ns.length = rs.length →
      (List.zipWith (settledEvent groupKey) rs ns).map (·.payout.toNat) = ns.map UInt64.toNat := by
    intro rs ns h
    induction rs generalizing ns with
    | nil => simp [List.length_eq_zero_iff.1 h]
    | cons r rs ih =>
      cases ns with
      | nil => cases h
      | cons n ns => simpa [settledEvent] using ih ns (by simpa using h)
  exact hz _ _ (by rw [payouts_length, List.length_map])

/-- The loop of `distribute` carries out the plan. -/
theorem distributePay_settling {groupKey vault mint : K} {remaining : List K} {g : GroupConfig K}
    {p p₀ : TokenProgram} {t : TokenAccount K} {rs : List (MemberRecord K)} {decimals : UInt8}
    {s₁ : State K} {paid : List (MemberSettled K)}
    (h : Settling E s.ledger groupKey vault remaining g p₀ t rs)
    (hne : ∀ pair ∈ chunksExact2 remaining, pair.2 ≠ vault) :
    distributePay E ctx p vault mint decimals (g.currentMembers.toNat - 1) 0
        (chunksExact2 remaining) (rs.map fun r => settledEvent groupKey r r.totalDeposited) s
        = .ok (paid, s₁) ↔
      payAll E ctx p vault mint decimals (payPlan remaining rs t.amount) s = .ok s₁ ∧
        paid = settledEvents groupKey rs t.amount := by
  have hlen : (rs.map fun r => settledEvent groupKey r r.totalDeposited).length =
      0 + (chunksExact2 remaining).length := by
    rw [List.length_map, h.records_length, h.pairs_length, Nat.zero_add]
  rw [distributePay_eq_ok (State.token_eq_some.1 h.held) hne hlen fun hp => by
    have := List.length_pos_iff.2 hp
    have := h.pairs_length
    omega]
  simp only [List.drop_zero, List.take_zero, List.nil_append, List.map_map, List.zipWith_map_left]
  rfl

structure Distribute.Passed (E : Env K) (ctx : Ctx K) (a : Distribute K) (g : GroupConfig K)
    (p : TokenProgram) : Prop where
  payer : Signed E ctx a.payer
  tokenProgram : a.tokenProgram = E.tokenKey p
  active : g.status = STATUS_ACTIVE
  mint : a.mint = g.mint
  ended : ∃ c, g.cycleEnd E = .ok c ∧ c ≤ ctx.unixTimestamp

theorem distribute_eq_ok {a : Distribute K} {remaining : List K} {events : List (Event K)}
    (hown : s.ledger.SelfOwned E)
    (hrec : ∀ {k r}, s.ledger.record k = some r → r.Placed E k) :
    distribute E ctx a remaining s = .ok (s', events) ↔
      ∃ g p p₀ t rs q m s₁ s₂ total,
        Settling E s.ledger a.groupConfig a.vault remaining g p₀ t rs ∧ a.Passed E ctx g p ∧
        s.account a.mint = .mint q m ∧
        payAll E ctx p a.vault a.mint m.decimals (payPlan remaining rs t.amount) s = .ok s₁ ∧
        closeAccount E ctx p a.vault a.groupConfig a.vault s₁ = .ok s₂ ∧
        total.toNat = ((payouts (rs.map (·.totalDeposited)) t.amount).map UInt64.toNat).sum ∧
        s' = s₂.set a.groupConfig (.groupConfig (g.completed ctx.unixTimestamp)) ∧
        events = (settledEvents a.groupConfig rs t.amount).map .memberSettled ++
          [.groupSettled a.groupConfig g.currentMembers total] := by
  simp only [distribute, bind_eq_ok, require_eq_ok, requireSigner_eq_ok, loadGroupConfig_eq_ok,
    loadTokenAccount_eq_ok, loadMint_eq_ok, loadTokenProgram_eq_ok, requireSeeds_eq_ok,
    checkRemaining_eq_ok, exists_const, pure_eq_ok, Prod.mk.injEq]
  constructor
  · rintro ⟨hp, g, hg, ⟨p₀, t⟩, ht, ⟨q, m⟩, hm, p, htp, hseed, hst, hV, hmint, c, hc, hce, hlen,
      ⟨sum, settled⟩, hval, hcov, ⟨paid, s₁⟩, hpay, s₂, hclose, total, htot, rfl, rfl⟩
    obtain ⟨rs, hrs, rfl⟩ := distributeValidate_eq_ok.1 hval
    have hcov' : depositsSum rs ≤ t.amount.toNat := by
      have := hrs.total
      have := UInt64.le_iff_toNat_le.1 hcov
      simp at this
      omega
    have hS : Settling E s.ledger a.groupConfig a.vault remaining g p₀ t rs :=
      ⟨hg, hseed, hV, ht, hlen, hmint ▸ hrs.accepted, hrs.nodup, hcov'⟩
    rw [List.nil_append, distributePay_settling hS (pairs_ne_vault hS.accepted hown hrec hV)] at hpay
    obtain ⟨hpay, rfl⟩ := hpay
    refine ⟨g, p, p₀, t, rs, q, m, s₁, s₂, total, hS, ⟨hp, htp, hst, hmint, c, hc, hce⟩,
      State.mintAt_eq_some.1 hm, hpay, hclose, ?_, rfl, rfl⟩
    rw [totalPaid_eq_ok.1 htot, settledEvents_payout]
    simp
  · rintro ⟨g, p, p₀, t, rs, q, m, s₁, s₂, total, hS, ⟨hp, htp, hst, hmint, c, hc, hce⟩, hm, hpay,
      hclose, htot, rfl, rfl⟩
    have hsum : (UInt64.ofNat (depositsSum rs)).toNat = depositsSum rs :=
      UInt64.toNat_ofNat_of_lt' (Nat.lt_of_le_of_lt hS.covered t.amount.toNat_lt)
    refine ⟨hp, g, hS.group, (p₀, t), hS.held, (q, m), State.mintAt_eq_some.2 hm, p, htp, hS.address,
      hst, hS.vaultAddress, hmint, c, hc, hce, hS.length,
      (.ofNat (depositsSum rs), rs.map fun r => settledEvent a.groupConfig r r.totalDeposited),
      distributeValidate_eq_ok.2 ⟨rs, ⟨hmint ▸ hS.accepted, hS.nodup, by simp, ?_⟩, by simp⟩, ?_,
      (settledEvents a.groupConfig rs t.amount, s₁),
      (distributePay_settling hS (pairs_ne_vault hS.accepted hown hrec hS.vaultAddress)).2
        ⟨hpay, rfl⟩, s₂, hclose, total, totalPaid_eq_ok.2 ?_, rfl, rfl⟩
    · rw [hsum]
      simp
    · exact UInt64.le_iff_toNat_le.2 (by rw [hsum]; exact hS.covered)
    · rw [settledEvents_payout, htot]
      simp

/-! ## `emergency_cancel` -/

/-- The group `emergency_cancel` writes. -/
def GroupConfig.cancelled (g : GroupConfig K) (now : Int64) : GroupConfig K :=
  { g with status := STATUS_CANCELLED, settledAt := now }

/-- The burn of `emergency_cancel`; nothing to burn makes no call. -/
def burnUnowed (E : Env K) (ctx : Ctx K) (p : TokenProgram) (vault mint : K) (amount : UInt64)
    (decimals : UInt8) (s : State K) : Result (State K) :=
  if 0 < amount then burnChecked E ctx p vault mint vault amount decimals s else .ok s

theorem burnUnowed_bind {β : Type} {p : TokenProgram} {vault mint : K} {n : UInt64}
    {decimals : UInt8} {f : State K → Result β} :
    burnUnowed E ctx p vault mint n decimals s >>= f =
      if 0 < n then burnChecked E ctx p vault mint vault n decimals s >>= f else .ok s >>= f := by
  unfold burnUnowed
  split <;> rfl

structure EmergencyCancel.Passed (E : Env K) (ctx : Ctx K) (a : EmergencyCancel K)
    (g : GroupConfig K) (p : TokenProgram) (t : TokenAccount K) : Prop where
  signer : Signed E ctx a.creator
  tokenProgram : a.tokenProgram = E.tokenKey p
  creator : g.creator = a.creator
  status : g.status = STATUS_OPEN ∨ g.status = STATUS_ACTIVE
  mint : a.mint = g.mint
  writable : 0 < unowedVaultBalance g.currentMembers.toNat t.amount → a.mintIsWritable = true

/-- The loop of `emergency_cancel` carries out the same plan. -/
theorem cancelPay_settling {groupKey vault mint : K} {remaining : List K} {g : GroupConfig K}
    {p p₀ : TokenProgram} {t : TokenAccount K} {rs : List (MemberRecord K)} {decimals : UInt8}
    {s₁ : State K} {total : UInt64} (h : Settling E s.ledger groupKey vault remaining g p₀ t rs)
    (hne : ∀ pair ∈ chunksExact2 remaining, pair.2 ≠ vault) :
    cancelPay E ctx p vault mint decimals g.currentMembers.toNat remaining
        (rs.map (·.totalDeposited)) g.currentMembers.toNat 0 0 s = .ok (total, s₁) ↔
      payAll E ctx p vault mint decimals (payPlan remaining rs t.amount) s = .ok s₁ ∧
        total.toNat = ((payouts (rs.map (·.totalDeposited)) t.amount).map UInt64.toNat).sum := by
  have hlt := g.currentMembers.toNat_lt
  have hlen := h.length
  rw [cancelPay_eq_ok (State.token_eq_some.1 h.held) (by simpa using hne) (by omega) (by omega)
    (by omega) (by rw [List.length_map, h.records_length]; omega)]
  simp [payPlan]

theorem emergencyCancel_eq_ok {a : EmergencyCancel K} {remaining : List K} {events : List (Event K)}
    (hown : s.ledger.SelfOwned E)
    (hrec : ∀ {k r}, s.ledger.record k = some r → r.Placed E k) :
    emergencyCancel E ctx a remaining s = .ok (s', events) ↔
      ∃ g p p₀ t rs q m s₁ s₂ s₃ total,
        Settling E s.ledger a.groupConfig a.vault remaining g p₀ t rs ∧ a.Passed E ctx g p t ∧
        s.account a.mint = .mint q m ∧
        payAll E ctx p a.vault a.mint m.decimals (payPlan remaining rs t.amount) s = .ok s₁ ∧
        burnUnowed E ctx p a.vault a.mint (unowedVaultBalance g.currentMembers.toNat t.amount)
          m.decimals s₁ = .ok s₂ ∧
        closeAccount E ctx p a.vault a.groupConfig a.vault s₂ = .ok s₃ ∧
        total.toNat = ((payouts (rs.map (·.totalDeposited)) t.amount).map UInt64.toNat).sum ∧
        s' = s₃.set a.groupConfig (.groupConfig (g.cancelled ctx.unixTimestamp)) ∧
        events = [.groupCancelled a.groupConfig a.creator g.currentMembers total
          (unowedVaultBalance g.currentMembers.toNat t.amount)] := by
  simp only [emergencyCancel, bind_eq_ok, require_eq_ok, requireSigner_eq_ok,
    loadGroupConfig_eq_ok, loadTokenAccount_eq_ok, loadMint_eq_ok, loadTokenProgram_eq_ok,
    requireSeeds_eq_ok, checkRemaining_eq_ok, exists_const]
  constructor
  · rintro ⟨hp, g, hg, ⟨p₀, t⟩, ht, ⟨q, m⟩, hm, p, htp, hseed, hcr, hst, hV, hmint, hlen,
      ⟨sum, refunds⟩, hval, hcov, hw, ⟨total, s₁⟩, hpay, h⟩
    have hlt := g.currentMembers.toNat_lt
    obtain ⟨rs, hrs, rfl⟩ := (cancelValidate_eq_ok (by omega) (by omega)).1 hval
    rw [Nat.mul_zero, List.drop_zero] at hrs
    have hcov' : depositsSum rs ≤ t.amount.toNat := by
      have := hrs.total
      have := UInt64.le_iff_toNat_le.1 hcov
      simp at this
      omega
    have hS : Settling E s.ledger a.groupConfig a.vault remaining g p₀ t rs :=
      ⟨hg, hseed, hV, ht, hlen, hmint ▸ hrs.accepted, hrs.nodup, hcov'⟩
    rw [List.nil_append, cancelPay_settling hS (pairs_ne_vault hS.accepted hown hrec hV)] at hpay
    rw [← burnUnowed_bind] at h
    simp only [bind_eq_ok, pure_eq_ok, Prod.mk.injEq] at h
    obtain ⟨s₂, hburn, s₃, hclose, rfl, rfl⟩ := h
    exact ⟨g, p, p₀, t, rs, q, m, s₁, s₂, s₃, total, hS, ⟨hp, htp, hcr, hst, hmint, hw⟩,
      State.mintAt_eq_some.1 hm, hpay.1, hburn, hclose, hpay.2, rfl, rfl⟩
  · rintro ⟨g, p, p₀, t, rs, q, m, s₁, s₂, s₃, total, hS, ⟨hp, htp, hcr, hst, hmint, hw⟩, hm, hpay,
      hburn, hclose, htot, rfl, rfl⟩
    have hlt := g.currentMembers.toNat_lt
    have hlen := hS.length
    have hsum : (UInt64.ofNat (depositsSum rs)).toNat = depositsSum rs :=
      UInt64.toNat_ofNat_of_lt' (Nat.lt_of_le_of_lt hS.covered t.amount.toNat_lt)
    refine ⟨hp, g, hS.group, (p₀, t), hS.held, (q, m), State.mintAt_eq_some.2 hm, p, htp, hS.address,
      hcr, hst, hS.vaultAddress, hmint, hS.length,
      (.ofNat (depositsSum rs), rs.map (·.totalDeposited)),
      (cancelValidate_eq_ok (by omega) (by omega)).2
        ⟨rs, ⟨by simpa using hmint ▸ hS.accepted, by simpa using hS.nodup, by simp, ?_⟩, by simp⟩,
      ?_, hw, (total, s₁),
      (cancelPay_settling hS (pairs_ne_vault hS.accepted hown hrec hS.vaultAddress)).2
        ⟨hpay, htot⟩, ?_⟩
    · rw [hsum]
      simp
    · exact UInt64.le_iff_toNat_le.2 (by rw [hsum]; exact hS.covered)
    · rw [← burnUnowed_bind]
      exact bind_eq_ok.2 ⟨s₂, hburn, bind_eq_ok.2 ⟨s₃, hclose, rfl⟩⟩

/-! ## The ledger after a settlement -/

section
omit [DecidableEq K]
variable {L : Ledger K} {groupKey mintKey vault : K} {pairs : List (K × K)}
  {rs : List (MemberRecord K)}

/-- Distinct records have distinct members, so their token accounts are distinct. -/
theorem tokens_nodup (h : List.Forall₂ (PairOk E L groupKey mintKey) pairs rs)
    (hnd : (pairs.map Prod.fst).Nodup) (hrec : ∀ {k r}, L.record k = some r → r.Placed E k) :
    (pairs.map Prod.snd).Nodup := by
  refine List.Nodup.map_on (fun x hx y hy hxy => ?_) (List.Nodup.of_map _ hnd)
  obtain ⟨r, -, hr⟩ := exists_of_mem_forall₂ h hx
  obtain ⟨r', -, hr'⟩ := exists_of_mem_forall₂ h hy
  obtain ⟨p, t, ht, ho, -⟩ := hr.token
  obtain ⟨p', t', ht', ho', -⟩ := hr'.token
  rw [hxy, ht'] at ht
  cases ht
  have hm : r.member = r'.member := by rw [← ho, ho']
  have ha := (hrec hr.record).address
  have ha' := (hrec hr'.record).address
  rw [hr.group, hm] at ha
  rw [hr'.group, ha] at ha'
  exact Prod.ext (Prod.mk.inj (Option.some.inj ha')).1 hxy

end

/-- The mint map after a burn of `n`. -/
def burnedMint (mint : K → Option (TokenProgram × Mint)) (k : K) (n : UInt64) :
    K → Option (TokenProgram × Mint) :=
  update mint k ((mint k).map fun x => (x.1, { x.2 with supply := x.2.supply - n }))

theorem burnedMint_zero {mint : K → Option (TokenProgram × Mint)} (k : K) :
    burnedMint mint k 0 = mint := by
  refine State.update_same ?_
  cases mint k with
  | none => rfl
  | some x => simp

/-- A settlement that took `L` to `L'`: the checks, what was paid and what was burned. -/
structure Settled (E : Env K) (L L' : Ledger K) (groupKey vault : K) (remaining : List K)
    (g g' : GroupConfig K) (p : TokenProgram) (t : TokenAccount K) (rs : List (MemberRecord K))
    (burned : UInt64) : Prop extends
    Settling E L groupKey vault remaining g p t rs where
  tokens : ((chunksExact2 remaining).map Prod.snd).Nodup
  ne_vault : ∀ pair ∈ chunksExact2 remaining, pair.2 ≠ vault
  paid : ((payouts (rs.map (·.totalDeposited)) t.amount).map UInt64.toNat).sum + burned.toNat
    = t.amount.toNat
  room : ∀ q ∈ payPlan remaining rs t.amount, 0 < q.2 →
    ∃ t₁, L.token q.1 = some (p, t₁) ∧ t₁.amount.toNat + q.2.toNat < 2 ^ 64
  supply : 0 < burned → ∃ q m, L.mint g.mint = some (q, m) ∧ burned ≤ m.supply
  post : L' = { L with
    group := update L.group groupKey (some g')
    token := update (creditAll L.token (payPlan remaining rs t.amount)) vault none
    mint := burnedMint L.mint g.mint burned
    vacant := update L.vacant vault True
    lamports := moveLamports L.lamports vault groupKey (L.lamports vault) }

section
variable {groupKey vault mint : K} {remaining : List K} {g : GroupConfig K} {p p₀ : TokenProgram}
  {t : TokenAccount K} {rs : List (MemberRecord K)} {decimals : UInt8} {s₁ s₂ : State K}

omit [DecidableEq K] in
theorem payPlan_keys {L : Ledger K} (h : Settling E L groupKey vault remaining g p t rs) :
    (payPlan remaining rs t.amount).map Prod.fst = (chunksExact2 remaining).map Prod.snd := by
  rw [payPlan, List.map_fst_zip]
  simp [payouts_length, h.records_length, h.pairs_length]

omit [DecidableEq K] in
theorem payPlan_sum {L : Ledger K} (h : Settling E L groupKey vault remaining g p t rs) :
    ((payPlan remaining rs t.amount).map (·.2.toNat)).sum =
      ((payouts (rs.map (·.totalDeposited)) t.amount).map UInt64.toNat).sum := by
  have : (payPlan remaining rs t.amount).map Prod.snd =
      payouts (rs.map (·.totalDeposited)) t.amount := by
    rw [payPlan, List.map_snd_zip]
    simp [payouts_length, h.records_length, h.pairs_length]
  rw [← this, List.map_map]
  rfl

/-- Closing the vault and writing the group, after the payouts and the burn. -/
theorem close_settling {n : UInt64} {s₃ : State K} (burned : UInt64) (g' : GroupConfig K)
    (h : Settling E s.ledger groupKey vault remaining g p₀ t rs)
    (hs₂ : s₂.ledger = { s.ledger with
      token := update (creditAll s.ledger.token (payPlan remaining rs t.amount)) vault
        (some (p₀, { t with amount := n }))
      mint := burnedMint s.ledger.mint g.mint burned })
    (hc : closeAccount E ctx p vault groupKey vault s₂ = .ok s₃) :
    p₀ = p ∧ n = 0 ∧ (s₃.set groupKey (.groupConfig g')).ledger = { s.ledger with
      group := update s.ledger.group groupKey (some g')
      token := update (creditAll s.ledger.token (payPlan remaining rs t.amount)) vault none
      mint := burnedMint s.ledger.mint g.mint burned
      vacant := update s.ledger.vacant vault True
      lamports := moveLamports s.ledger.lamports vault groupKey (s.ledger.lamports vault) } := by
  obtain ⟨t', ht', hne, -, -, h0, rfl⟩ := closeAccount_eq_ok.1 hc
  have htok : s₂.token vault = some (p, t') := State.token_eq_some.2 ht'
  have hval : s₂.ledger.token vault = some (p₀, { t with amount := n }) := by
    rw [hs₂]
    exact update_self ..
  obtain ⟨rfl, rfl⟩ : p = p₀ ∧ t' = { t with amount := n } := by
    rw [State.ledger_token, htok] at hval
    simpa using hval
  have hg₂ : s₂.group groupKey = some g := by
    have : s₂.ledger.group groupKey = some g := by
      rw [hs₂]
      exact h.group
    exact this
  have hg₃ : ((s₂.close vault groupKey).group groupKey).isSome := by
    simp [State.close_eq, update_of_ne hne.symm, hg₂]
  refine ⟨rfl, h0, ?_⟩
  rw [State.ledger_write_group hg₃, State.ledger_close_token htok, hs₂]
  simp only [update_idem]

/-- The payouts of a settlement. -/
theorem payAll_settling (h : Settling E s.ledger groupKey vault remaining g p₀ t rs)
    (hown : s.ledger.SelfOwned E) (hrec : ∀ {k r}, s.ledger.record k = some r → r.Placed E k)
    (hpay : payAll E ctx p vault mint decimals (payPlan remaining rs t.amount) s = .ok s₁) :
    (∀ q ∈ payPlan remaining rs t.amount, 0 < q.2 →
      ∃ t₁, s.ledger.token q.1 = some (p₀, t₁) ∧ t₁.amount.toNat + q.2.toNat < 2 ^ 64) ∧
    ∃ n, n.toNat + ((payouts (rs.map (·.totalDeposited)) t.amount).map UInt64.toNat).sum
        = t.amount.toNat ∧
      s₁.account vault = .token p₀ { t with amount := n } ∧
      s₁.ledger = { s.ledger with
        token := update (creditAll s.ledger.token (payPlan remaining rs t.amount)) vault
          (some (p₀, { t with amount := n })) } := by
  have hne := pairs_ne_vault h.accepted hown hrec h.vaultAddress
  have hne' : ∀ q ∈ payPlan remaining rs t.amount, q.1 ≠ vault := by
    intro q hq
    obtain ⟨pair, hp, he⟩ := List.mem_map.1 (payPlan_keys h ▸ List.mem_map_of_mem hq)
    exact he ▸ hne pair hp
  obtain ⟨hroom, n, hn, hvn, hL⟩ := payAll_effect (State.token_eq_some.1 h.held) hne'
    (payPlan_keys h ▸ tokens_nodup h.accepted h.nodup hrec) hpay
  rw [payPlan_sum h] at hn
  refine ⟨fun q hq h0 => ?_, n, hn, hvn, hL⟩
  obtain ⟨t₁, ht₁, hlt⟩ := hroom q hq h0
  exact ⟨t₁, State.token_eq_some.2 ht₁, hlt⟩

theorem burnUnowed_effect {n : UInt64} (hv : s₁.account vault = .token p₀ t)
    (h : burnUnowed E ctx p vault mint n decimals s₁ = .ok s₂) :
    n ≤ t.amount ∧ (0 < n → ∃ q m, s₁.ledger.mint mint = some (q, m) ∧ n ≤ m.supply) ∧
      s₂.ledger = { s₁.ledger with
        token := update s₁.ledger.token vault (some (p₀, { t with amount := t.amount - n }))
        mint := burnedMint s₁.ledger.mint mint n } := by
  unfold burnUnowed at h
  split at h
  · obtain ⟨t', q, m, ht', hm, -, -, -, -, hle, hsup, rfl⟩ := burnChecked_eq_ok.1 h
    rw [hv] at ht'
    cases ht'
    have hm' : s₁.ledger.mint mint = some (q, m) := State.mintAt_eq_some.2 hm
    have hne : mint ≠ vault := by rintro rfl; rw [hv] at hm; cases hm
    have hmint : ((s₁.set vault (.token p { t with amount := t.amount - n })).mintAt mint).isSome := by
      simp [update_of_ne hne, State.mintAt_eq_some.2 hm]
    refine ⟨hle, fun _ => ⟨q, m, hm', hsup⟩, ?_⟩
    rw [State.subTokens_of hv, State.ledger_write_mint hmint,
      State.ledger_write_token (by simp [State.token_eq_some.2 hv]), burnedMint, hm']
    rfl
  · rename_i hn
    cases h
    obtain rfl : n = 0 := by simpa using hn
    have htok : s₁.ledger.token vault = some (p₀, { t with amount := t.amount - 0 }) := by
      simpa using State.token_eq_some.2 hv
    exact ⟨by simp, fun h => absurd h (by simp), by rw [burnedMint_zero, State.update_same htok]⟩

end

/-- What `distribute` does. -/
theorem distribute_effect {a : Distribute K} {remaining : List K} {events : List (Event K)}
    (hown : s.ledger.SelfOwned E) (hrec : ∀ {k r}, s.ledger.record k = some r → r.Placed E k)
    (h : distribute E ctx a remaining s = .ok (s', events)) :
    ∃ g p t rs total, Settled E s.ledger s'.ledger a.groupConfig a.vault remaining g
        (g.completed ctx.unixTimestamp) p t rs 0 ∧ a.Passed E ctx g p ∧
      total.toNat = t.amount.toNat ∧
      events = (settledEvents a.groupConfig rs t.amount).map .memberSettled ++
        [.groupSettled a.groupConfig g.currentMembers total] := by
  obtain ⟨g, p, p₀, t, rs, q, m, s₁, s₂, total, hS, hP, -, hpay, hclose, htot, rfl, rfl⟩ :=
    (distribute_eq_ok hown hrec).1 h
  obtain ⟨hroom, n, hn, -, hL⟩ := payAll_settling hS hown hrec hpay
  obtain ⟨rfl, rfl, hpost⟩ := close_settling 0 (g.completed ctx.unixTimestamp) hS
    (by rw [hL, burnedMint_zero]) hclose
  refine ⟨g, p₀, t, rs, total, ⟨hS, tokens_nodup hS.accepted hS.nodup hrec,
    pairs_ne_vault hS.accepted hown hrec hS.vaultAddress, ?_, hroom, fun h => absurd h (by simp),
    hpost⟩, hP, ?_, rfl⟩
  · simpa using hn
  · rw [htot, ← hn]
    simp

/-- What `emergency_cancel` does. With no members, the whole vault is burned. -/
theorem emergencyCancel_effect {a : EmergencyCancel K} {remaining : List K}
    {events : List (Event K)} (hown : s.ledger.SelfOwned E)
    (hrec : ∀ {k r}, s.ledger.record k = some r → r.Placed E k)
    (h : emergencyCancel E ctx a remaining s = .ok (s', events)) :
    ∃ g p t rs total, Settled E s.ledger s'.ledger a.groupConfig a.vault remaining g
        (g.cancelled ctx.unixTimestamp) p t rs
        (unowedVaultBalance g.currentMembers.toNat t.amount) ∧ a.Passed E ctx g p t ∧
      total.toNat + (unowedVaultBalance g.currentMembers.toNat t.amount).toNat = t.amount.toNat ∧
      events = [.groupCancelled a.groupConfig a.creator g.currentMembers total
        (unowedVaultBalance g.currentMembers.toNat t.amount)] := by
  obtain ⟨g, p, p₀, t, rs, q, m, s₁, s₂, s₃, total, hS, hP, -, hpay, hburn, hclose, htot, rfl, rfl⟩ :=
    (emergencyCancel_eq_ok hown hrec).1 h
  obtain ⟨hroom, n, hn, hvn, hL⟩ := payAll_settling hS hown hrec hpay
  obtain ⟨hle, hsup, hL₂⟩ := burnUnowed_effect hvn hburn
  rw [hP.mint, hL] at hsup hL₂
  obtain ⟨rfl, h0, hpost⟩ := close_settling _ (g.cancelled ctx.unixTimestamp) hS
    (by rw [hL₂, update_idem]) hclose
  have hburned : n = unowedVaultBalance g.currentMembers.toNat t.amount := by
    have hsub := UInt64.toNat_sub_of_le _ _ hle
    have := UInt64.le_iff_toNat_le.1 hle
    dsimp only at h0 hsub this
    rw [h0] at hsub
    refine UInt64.toNat_inj.1 ?_
    simp at hsub
    omega
  subst hburned
  refine ⟨g, p₀, t, rs, total, ⟨hS, tokens_nodup hS.accepted hS.nodup hrec,
    pairs_ne_vault hS.accepted hown hrec hS.vaultAddress, by omega, hroom, hsup, hpost⟩, hP,
    by omega, rfl⟩

end SafeNudge
