import SafeNudge.Property.MemberLedger

/-!
# The period of a deposit

`deposit` subtracts, divides by truncation, converts to `u8`, clamps and indexes an array. For an
active group all of that is the floor of the elapsed periods, as long as the clock is in the cycle
(`GroupConfig.currentPeriod_in_cycle`); after the cycle `CycleEnded` stops it, and before the cycle
the truncation leads to period 0, which the join has marked (`deposit_period`).
-/

namespace SafeNudge

open Lib Function

variable {K : Type} [DecidableEq K]

/-! ## The handlers in parts -/

section
variable (E : Env K) (ctx : Ctx K)

/-- The `CycleEnded` check of `deposit`. -/
def cycleEndedCheck (g : GroupConfig K) (now : Int64) : Result Unit := do
  let cycleEnd ← g.cycleEnd E
  require (now < cycleEnd) (.safeNudge .cycleEnded)

/-- The `CycleNotEnded` check of `distribute`. -/
def cycleNotEndedCheck (g : GroupConfig K) (now : Int64) : Result Unit := do
  let cycleEnd ← g.cycleEnd E
  require (cycleEnd ≤ now) (.safeNudge .cycleNotEnded)

/-- What the handler of `deposit` does before the token transfer: its period, and the record with
that period marked. -/
def depositChecks (g : GroupConfig K) (r : MemberRecord K) (now : Int64) :
    Result (UInt8 × MemberRecord K) := do
  let periodDuration ← periodDurationSecs E g.frequency
  cycleEndedCheck E g now
  let currentPeriod ← g.currentPeriod now periodDuration
  let r' ← r.mark currentPeriod g.depositAmount
  return (currentPeriod, r')

/-- The accounts of `deposit`: the group, the record, the token program and the mint. -/
def depositAccounts (a : Deposit K) (s : State K) :
    Result (GroupConfig K × MemberRecord K × TokenProgram × Mint) := do
  requireSigner E ctx a.member
  let g ← loadGroupConfig E s a.groupConfig
  let r ← loadMemberRecord E s a.memberRecord
  let mta ← loadTokenAccount E s a.memberTokenAccount
  let _ ← loadTokenAccount E s a.vault
  let m ← loadMint E s a.mint
  let p ← loadTokenProgram E a.tokenProgram
  requireSeeds E (.group g.groupCode) g.bump a.groupConfig
  require (g.status = STATUS_ACTIVE) (.safeNudge .invalidGroupStatus)
  requireSeeds E (.member a.groupConfig a.member) r.bump a.memberRecord
  require (r.group = a.groupConfig) (.anchor .constraintRaw)
  require (r.member = a.member) (.anchor .constraintRaw)
  require (mta.2.mint = g.mint) (.safeNudge .invalidMint)
  require (mta.2.owner = a.member) (.anchor .constraintRaw)
  requireSeeds E (.vault a.groupConfig) g.vaultBump a.vault
  require (a.mint = g.mint) (.safeNudge .invalidMint)
  return (g, r, p, m.2)

/-- The token transfer of `deposit` and what follows. -/
def depositTransfer (a : Deposit K) (s : State K) (g : GroupConfig K) (p : TokenProgram) (m : Mint)
    (x : UInt8 × MemberRecord K) : Result (State K × List (Event K)) := do
  let s ← transferChecked E ctx p a.memberTokenAccount a.mint a.vault a.member g.depositAmount
    m.decimals s
  return (s.set a.memberRecord (.memberRecord x.2),
    [.depositMade a.groupConfig a.member x.1 g.depositAmount x.2.depositsMade])

/-- The accounts of `distribute`: the group, the vault, the token program and the mint. -/
def distributeAccounts (a : Distribute K) (s : State K) :
    Result (GroupConfig K × TokenAccount K × TokenProgram × Mint) := do
  requireSigner E ctx a.payer
  let g ← loadGroupConfig E s a.groupConfig
  let v ← loadTokenAccount E s a.vault
  let m ← loadMint E s a.mint
  let p ← loadTokenProgram E a.tokenProgram
  requireSeeds E (.group g.groupCode) g.bump a.groupConfig
  require (g.status = STATUS_ACTIVE) (.safeNudge .invalidGroupStatus)
  requireSeeds E (.vault a.groupConfig) g.vaultBump a.vault
  require (a.mint = g.mint) (.safeNudge .invalidMint)
  return (g, v.2, p, m.2)

/-- What `distribute` does once the cycle is over. -/
def distributeAfter (a : Distribute K) (remaining : List K) (s : State K) (g : GroupConfig K)
    (v : TokenAccount K) (p : TokenProgram) (m : Mint) : Result (State K × List (Event K)) := do
  let memberCount := g.currentMembers.toNat
  checkRemaining memberCount remaining
  let pairs := chunksExact2 remaining
  let checked ← distributeValidate E s a.groupConfig a.mint pairs [] 0 []
  require (checked.1 ≤ v.amount) (.safeNudge .vaultShortfall)
  let paid ← distributePay E ctx p a.vault a.mint m.decimals (memberCount - 1) 0 pairs checked.2 s
  let s ← closeAccount E ctx p a.vault a.groupConfig a.vault paid.2
  let total ← totalPaid paid.1 0
  let g' := { g with status := STATUS_COMPLETED, settledAt := ctx.unixTimestamp }
  return (s.set a.groupConfig (.groupConfig g'),
    paid.1.map .memberSettled ++ [.groupSettled a.groupConfig g.currentMembers total])

theorem deposit_eq (a : Deposit K) (s : State K) :
    deposit E ctx a s = (do
      let v ← depositAccounts E ctx a s
      let x ← depositChecks E v.1 v.2.1 ctx.unixTimestamp
      depositTransfer E ctx a s v.1 v.2.2.1 v.2.2.2 x) := by
  simp only [deposit, depositAccounts, depositChecks, cycleEndedCheck, depositTransfer, bind_assoc,
    pure_bind]

theorem distribute_eq (a : Distribute K) (remaining : List K) (s : State K) :
    distribute E ctx a remaining s = (do
      let v ← distributeAccounts E ctx a s
      cycleNotEndedCheck E v.1 ctx.unixTimestamp
      distributeAfter E ctx a remaining s v.1 v.2.1 v.2.2.1 v.2.2.2) := by
  simp only [distribute, distributeAccounts, cycleNotEndedCheck, distributeAfter, bind_assoc,
    pure_bind]

end

variable {E : Env K} {ctx : Ctx K} {h : List (StepEntry K)} {s : State K} {G k : K}
  {g : GroupConfig K} {r r' : MemberRecord K} {now d ce : Int64} {period : UInt8}

/-- The accounts of a call that validates are those it names. -/
theorem depositAccounts_eq {a : Deposit K} {v : GroupConfig K × MemberRecord K × TokenProgram × Mint}
    (h : depositAccounts E ctx a s = .ok v) :
    s.group a.groupConfig = some v.1 ∧ s.record a.memberRecord = some v.2.1 := by
  simp only [depositAccounts, bind_eq_ok, loadGroupConfig_eq_ok, loadMemberRecord_eq_ok,
    pure_eq_ok] at h
  obtain ⟨-, -, g, hg, r, hr, -, -, -, -, m, -, p, -, -, -, -, -, -, -, -, -, -, -, -, -, -, -, -, -,
    -, -, rfl⟩ := h
  exact ⟨hg, hr⟩

theorem distributeAccounts_eq {a : Distribute K}
    {v : GroupConfig K × TokenAccount K × TokenProgram × Mint}
    (h : distributeAccounts E ctx a s = .ok v) : s.group a.groupConfig = some v.1 := by
  simp only [distributeAccounts, bind_eq_ok, loadGroupConfig_eq_ok, pure_eq_ok] at h
  obtain ⟨-, -, g, hg, t, -, m, -, p, -, -, -, -, -, -, -, -, -, rfl⟩ := h
  exact hg

/-! ## The arithmetic -/

omit [DecidableEq K] in
theorem depositChecks_eq_ok : depositChecks E g r now = .ok (period, r') ↔
    ∃ d ce, periodDurationSecs E g.frequency = .ok d ∧ g.cycleEnd E = .ok ce ∧ now < ce ∧
      g.currentPeriod now d = .ok period ∧ r.mark period g.depositAmount = .ok r' := by
  simp only [depositChecks, cycleEndedCheck, bind_eq_ok, require_eq_ok, exists_const, pure_eq_ok,
    Prod.mk.injEq]
  constructor
  · rintro ⟨d, hd, ⟨ce, hce, hlt⟩, p, hp, r₁, hm, rfl, rfl⟩
    exact ⟨d, ce, hd, hce, hlt, hp, hm⟩
  · rintro ⟨d, ce, hd, hce, hlt, hp, hm⟩
    exact ⟨d, hd, ⟨ce, hce, hlt⟩, period, hp, r', hm, rfl, rfl⟩

omit [DecidableEq K] in
/-- In the cycle every conversion is exact and the clamp changes nothing. -/
theorem GroupConfig.currentPeriod_in_cycle (hd : periodDurationSecs E g.frequency = .ok d)
    (hce : g.cycleEnd E = .ok ce) (hs : g.cycleStart.toInt ≤ now.toInt)
    (he : now.toInt < ce.toInt) :
    ∃ elapsed q p last, checkedSubI64 now g.cycleStart = some elapsed ∧
      checkedSub8 g.totalPeriods 1 = some last ∧ checkedDivI64 elapsed d = some q ∧
      toU8 q = some p ∧ min p last = p ∧ g.currentPeriod now d = .ok p ∧
      (p.toNat : Int) = (now.toInt - g.cycleStart.toInt) / d.toInt ∧
      p.toNat < g.totalPeriods.toNat := by
  obtain ⟨hlo, hhi⟩ := periodDurationSecs_range hd
  obtain ⟨d', hd', hend⟩ := GroupConfig.cycleEnd_eq_ok.1 hce
  obtain rfl : d = d' := Except.ok.inj (hd.symm.trans hd')
  have hn := g.totalPeriods.toNat_lt
  have hcyc : (g.totalPeriods.toNat : Int) * d.toInt ≤ 256 * 2592000 :=
    Int.mul_le_mul (by omega) hhi (by omega) (by omega)
  obtain ⟨elapsed, hel, helapsed⟩ :=
    toI64_of (n := now.toInt - g.cycleStart.toInt) (by omega) (by omega)
  have hq0 : 0 ≤ (now.toInt - g.cycleStart.toInt) / d.toInt :=
    Int.ediv_nonneg (by omega) (by omega)
  have hqn : (now.toInt - g.cycleStart.toInt) / d.toInt < g.totalPeriods.toNat :=
    Int.ediv_lt_of_lt_mul (by omega) (by omega)
  have htdiv : elapsed.toInt.tdiv d.toInt = (now.toInt - g.cycleStart.toInt) / d.toInt := by
    rw [helapsed, Int.tdiv_eq_ediv_of_nonneg (by omega)]
  obtain ⟨q, -, hq⟩ :=
    toI64_of (n := (now.toInt - g.cycleStart.toInt) / d.toInt) (by omega) (by omega)
  have hdiv : checkedDivI64 elapsed d = some q :=
    (checkedDivI64_eq_some (by omega)).2 (hq.trans htdiv.symm)
  obtain ⟨p, hp⟩ : ∃ p : UInt8, (p.toNat : Int) = (now.toInt - g.cycleStart.toInt) / d.toInt :=
    ⟨.ofNat ((now.toInt - g.cycleStart.toInt) / d.toInt).toNat, by
      rw [UInt8.toNat_ofNat', Nat.mod_eq_of_lt (by omega)]
      omega⟩
  have hpu : toU8 q = some p := toU8_eq_some.2 (hq.trans hp.symm)
  have hpn : p.toNat < g.totalPeriods.toNat := by omega
  have hlast : checkedSub8 g.totalPeriods 1 = some (g.totalPeriods - 1) :=
    checkedSub8_of (by rw [UInt8.toNat_one]; omega)
  have hlast' := checkedSub8_eq_some hlast
  have hmin : min p (g.totalPeriods - 1) = p :=
    if_pos (UInt8.le_iff_toNat_le.2 (by rw [UInt8.toNat_one] at hlast'; omega))
  refine ⟨elapsed, q, p, _, hel, hlast, hdiv, hpu, hmin, ?_, hp, hpn⟩
  exact (currentPeriod_eq_ok (by omega)).2 ⟨elapsed, q, p, _, hel, hlast, hdiv, hpu, helapsed,
    htdiv.trans hp.symm, hmin.symm⟩

omit [DecidableEq K] in
/-- Before the cycle the truncation leads to period 0. -/
theorem GroupConfig.currentPeriod_before (hd : periodDurationSecs E g.frequency = .ok d)
    (hs : now.toInt < g.cycleStart.toInt) (hp : g.currentPeriod now d = .ok period) :
    period = 0 := by
  have hpos := (periodDurationSecs_range hd).1
  obtain ⟨elapsed, q, n, last, -, -, -, -, hel, hdiv, rfl⟩ :=
    (currentPeriod_eq_ok (by omega)).1 hp
  have hle := tdiv_nonpos (a := elapsed.toInt) (b := d.toInt) (by omega) (by omega)
  obtain rfl : n = 0 := UInt8.toNat_inj.1 (by rw [UInt8.toNat_zero]; omega)
  exact if_pos UInt8.zero_le

omit [DecidableEq K] in
/-- A consistent record takes a deposit in the cycle exactly for an unmarked period. -/
theorem depositChecks_in_cycle (hc : r.Consistent g) (hn : g.totalPeriods ≤ 52)
    (hd : periodDurationSecs E g.frequency = .ok d) (hce : g.cycleEnd E = .ok ce)
    (hs : g.cycleStart.toInt ≤ now.toInt) (he : now.toInt < ce.toInt)
    (htotal : r.totalDeposited.toNat + g.depositAmount.toNat < 2 ^ 64)
    (hflag : r.periodsDeposited[((now.toInt - g.cycleStart.toInt) / d.toInt).toNat]? = some false) :
    ∃ x, depositChecks E g r now = .ok x := by
  obtain ⟨-, -, p, -, -, -, -, -, -, hper, hp, -⟩ :=
    GroupConfig.currentPeriod_in_cycle hd hce hs he
  have hmade := hc.made_le
  have hn : g.totalPeriods.toNat ≤ 52 := UInt8.le_iff_toNat_le.1 hn
  rw [← hp, Int.toNat_natCast] at hflag
  have hmark := (@MemberRecord.mark_eq_ok K r _ p g.depositAmount).2
    ⟨hflag, _, _, checkedAdd8_of (by rw [UInt8.toNat_one]; omega), checkedAdd64_of htotal, rfl⟩
  exact ⟨_, depositChecks_eq_ok.2 ⟨d, ce, hd, hce, Int64.lt_iff_toInt_lt.2 he, hper, hmark⟩⟩

omit [DecidableEq K] in
/-- The checks pass only in the cycle, and mark the period of the clock. -/
theorem depositChecks_marks (hc : r.Consistent g)
    (hd : periodDurationSecs E g.frequency = .ok d) (hce : g.cycleEnd E = .ok ce)
    (h : depositChecks E g r now = .ok (period, r')) :
    g.cycleStart.toInt ≤ now.toInt ∧ now.toInt < ce.toInt ∧
      (period.toNat : Int) = (now.toInt - g.cycleStart.toInt) / d.toInt ∧
      period.toNat < g.totalPeriods.toNat ∧ r.periodsDeposited[period.toNat]? = some false ∧
      ∀ i (hi : i < 52),
        r'.periodsDeposited[i] = true ↔ i = period.toNat ∨ r.periodsDeposited[i] = true := by
  obtain ⟨d', ce', hd', hce', hlt, hper, hmark⟩ := depositChecks_eq_ok.1 h
  obtain rfl : d = d' := Except.ok.inj (hd.symm.trans hd')
  obtain rfl : ce = ce' := Except.ok.inj (hce.symm.trans hce')
  obtain ⟨hflag, made, total, -, -, rfl⟩ := MemberRecord.mark_eq_ok.1 hmark
  have he := Int64.lt_iff_toInt_lt.1 hlt
  have hs : g.cycleStart.toInt ≤ now.toInt := by
    by_contra hbefore
    obtain rfl := g.currentPeriod_before hd (by omega) hper
    rw [UInt8.toNat_zero, Vector.getElem?_eq_getElem (by decide), hc.first] at hflag
    cases hflag
  obtain ⟨-, -, p, -, -, -, -, -, -, hper', hp, hpn⟩ :=
    GroupConfig.currentPeriod_in_cycle hd hce hs he
  obtain rfl : period = p := Except.ok.inj (hper.symm.trans hper')
  exact ⟨hs, he, hp, hpn, hflag, fun i hi => getElem_mark hi⟩

omit [DecidableEq K] in
/-- One of the two checks on the end of the cycle passes. -/
theorem cycleEndedCheck_iff (hce : g.cycleEnd E = .ok ce) :
    cycleEndedCheck E g now = .ok () ↔ ¬cycleNotEndedCheck E g now = .ok () := by
  simp only [cycleEndedCheck, cycleNotEndedCheck, bind_eq_ok, require_eq_ok, hce, Except.ok.injEq,
    exists_eq_left', Int64.not_le]

/-- For every clock value, the checks of `deposit` on an open record of an active group pass
exactly in the cycle and for an unmarked period, and then mark that period; no conversion fails in
the cycle, and before it nothing passes. Of the checks of `deposit` and of `distribute` on the end
of the cycle exactly one passes. -/
theorem deposit_period (hr : Reached E h s) (hg : s.group G = some g)
    (ha : g.status = STATUS_ACTIVE) (hk : s.record k = some r) (hG : r.group = G) (now : Int64) :
    ∃ d ce, periodDurationSecs E g.frequency = .ok d ∧ g.cycleEnd E = .ok ce ∧
      g.totalPeriods.toNat ≤ 52 ∧
      (r.totalDeposited.toNat + g.depositAmount.toNat < 2 ^ 64 →
        ((∃ x, depositChecks E g r now = .ok x) ↔
          g.cycleStart.toInt ≤ now.toInt ∧ now.toInt < ce.toInt ∧
            r.periodsDeposited[((now.toInt - g.cycleStart.toInt) / d.toInt).toNat]? =
              some false)) ∧
      (∀ period r', depositChecks E g r now = .ok (period, r') →
        (period.toNat : Int) = (now.toInt - g.cycleStart.toInt) / d.toInt ∧
          period.toNat < g.totalPeriods.toNat ∧
          ∀ i (hi : i < 52),
            r'.periodsDeposited[i] = true ↔ i = period.toNat ∨ r.periodsDeposited[i] = true) ∧
      (g.cycleStart.toInt ≤ now.toInt → now.toInt < ce.toInt →
        ∃ elapsed q p last, checkedSubI64 now g.cycleStart = some elapsed ∧
          checkedSub8 g.totalPeriods 1 = some last ∧ checkedDivI64 elapsed d = some q ∧
          toU8 q = some p ∧ min p last = p ∧ p.toNat < 52) ∧
      (now.toInt < g.cycleStart.toInt → (∀ x, depositChecks E g r now ≠ .ok x) ∧
        ∀ ctx a x, ctx.unixTimestamp = now → a.groupConfig = G → a.memberRecord = k →
          deposit E ctx a s ≠ .ok x) ∧
      (cycleEndedCheck E g now = .ok () ↔ ¬cycleNotEndedCheck E g now = .ok ()) ∧
      (∀ ctx a v, depositAccounts E ctx a s = .ok v → a.groupConfig = G → a.memberRecord = k →
        deposit E ctx a s = (depositChecks E g r ctx.unixTimestamp >>=
          depositTransfer E ctx a s g v.2.2.1 v.2.2.2)) ∧
      (∀ ctx b remaining v, distributeAccounts E ctx b s = .ok v → b.groupConfig = G →
        distribute E ctx b remaining s = (cycleNotEndedCheck E g ctx.unixTimestamp >>= fun _ =>
          distributeAfter E ctx b remaining s g v.2.1 v.2.2.1 v.2.2.2)) := by
  have hok := (Reached.inv hr).group hg
  obtain ⟨ce, hce⟩ := (hok.active ha).2
  obtain ⟨d, hd, -⟩ := GroupConfig.cycleEnd_eq_ok.1 hce
  obtain ⟨g₁, -, -, hg₁, hc, -⟩ := consistent_of_reached hr hk
  obtain rfl : g = g₁ := Option.some.inj (hg.symm.trans (hG ▸ hg₁))
  have hn : g.totalPeriods.toNat ≤ 52 := UInt8.le_iff_toNat_le.1 hok.periods.2
  refine ⟨d, ce, hd, hce, hn, fun htotal => ⟨?_, fun ⟨hs, he, hflag⟩ =>
    depositChecks_in_cycle hc hok.periods.2 hd hce hs he htotal hflag⟩, fun period r' hx => ?_,
    fun hs he => ?_, fun hbefore => ?_, cycleEndedCheck_iff hce,
    fun ctx a v hv haG hak => ?_, fun ctx b remaining v hv hbG => ?_⟩
  · rintro ⟨⟨period, r'⟩, hx⟩
    obtain ⟨hs, he, hp, -, hflag, -⟩ := depositChecks_marks hc hd hce hx
    rw [← hp, Int.toNat_natCast]
    exact ⟨hs, he, hflag⟩
  · obtain ⟨-, -, hp, hpn, -, hmarks⟩ := depositChecks_marks hc hd hce hx
    exact ⟨hp, hpn, hmarks⟩
  · obtain ⟨elapsed, q, p, last, hel, hl, hq, hp, hmin, -, -, hpn⟩ :=
      GroupConfig.currentPeriod_in_cycle hd hce hs he
    exact ⟨elapsed, q, p, last, hel, hl, hq, hp, hmin, by omega⟩
  · have hno : ∀ x, depositChecks E g r now ≠ .ok x := by
      rintro ⟨period, r'⟩ hx
      have hs := (depositChecks_marks hc hd hce hx).1
      omega
    refine ⟨hno, fun ctx a x hnow haG hak hx => ?_⟩
    rw [deposit_eq] at hx
    obtain ⟨v, hv, hx⟩ := bind_eq_ok.1 hx
    obtain ⟨y, hy, -⟩ := bind_eq_ok.1 hx
    obtain ⟨hgv, hrv⟩ := depositAccounts_eq hv
    obtain rfl := Option.some.inj (hg.symm.trans (haG ▸ hgv))
    obtain rfl := Option.some.inj (hk.symm.trans (hak ▸ hrv))
    exact hno y (hnow ▸ hy)
  · obtain ⟨hgv, hrv⟩ := depositAccounts_eq hv
    obtain rfl := Option.some.inj (hg.symm.trans (haG ▸ hgv))
    obtain rfl := Option.some.inj (hk.symm.trans (hak ▸ hrv))
    rw [deposit_eq, hv, ok_bind]
  · obtain rfl := Option.some.inj (hg.symm.trans (hbG ▸ distributeAccounts_eq hv))
    rw [distribute_eq, hv, ok_bind]

/-- A deposit of a member in the second week. -/
theorem deposit_period_started : ∃ h s g r, Reached symbolic h s ∧ s.group Demo.G = some g ∧
    g.status = STATUS_ACTIVE ∧ s.record (Demo.record 1) = some r ∧ r.group = Demo.G ∧
    ∃ d ce, periodDurationSecs symbolic g.frequency = .ok d ∧ g.cycleEnd symbolic = .ok ce ∧
      ((∃ x, depositChecks symbolic g r 604800 = .ok x) ↔
        g.cycleStart.toInt ≤ 604800 ∧ 604800 < ce.toInt ∧
          r.periodsDeposited[((604800 - g.cycleStart.toInt) / d.toInt).toNat]? = some false) := by
  obtain ⟨h, s, hr, hs⟩ := replay_exists Demo.started (world_genesis 10000 100)
    (fun _ s => ((s.group Demo.G).any fun g => g.status == STATUS_ACTIVE && g.depositAmount == 5) &&
      (s.record (Demo.record 1)).any fun r => r.group == Demo.G && r.totalDeposited == 5)
    (by decide +kernel)
  simp only [Bool.and_eq_true, Option.any_eq_true, beq_iff_eq] at hs
  obtain ⟨⟨g, hg, ha, hd⟩, r, hk, hG, ht⟩ := hs
  obtain ⟨d, ce, hdur, hce, -, hiff, -⟩ := deposit_period hr hg ha hk hG 604800
  exact ⟨h, s, g, r, hr, hg, ha, hk, hG, d, ce, hdur, hce, hiff (by rw [hd, ht]; decide)⟩

end SafeNudge
