import SafeNudge.Invariant.Custody

/-!
# The invariant while a group is open or active

`create_group`, `set_join_authority`, `start_cycle`, `join_group`, `leave_group` and `deposit`.
-/

namespace SafeNudge

open Lib Function

variable {K : Type} [DecidableEq K] {E : Env K} {ctx : Ctx K} {L L' : Ledger K}
  {events : List (Event K)}

omit [DecidableEq K] in
theorem not_settled_of_open {g : GroupConfig K} (h : g.status = STATUS_OPEN) : ¬g.isSettled := by
  simp [GroupConfig.isSettled, h, STATUS_OPEN, STATUS_COMPLETED, STATUS_CANCELLED]

omit [DecidableEq K] in
theorem not_settled_of_active {g : GroupConfig K} (h : g.status = STATUS_ACTIVE) :
    ¬g.isSettled := by
  simp [GroupConfig.isSettled, h, STATUS_ACTIVE, STATUS_COMPLETED, STATUS_CANCELLED]

/-! ## `create_group` -/

section
variable {a : CreateGroup K} {groupCode : String} {depositAmount : UInt64}
  {frequency totalPeriods maxMembers : UInt8}

omit [DecidableEq K] in
theorem CreateGroup.newGroup_ok {bump vaultBump : UInt8}
    (hargs : CreateGroup.ArgsOk E groupCode depositAmount frequency totalPeriods maxMembers)
    (hG : E.findProgramAddress (.group groupCode) = some (a.groupConfig, bump))
    (hc : E.canSign a.creator = true) (hp : E.canSign a.rentPayer = true) :
    (a.newGroup groupCode depositAmount frequency totalPeriods maxMembers bump vaultBump).Ok E
      a.groupConfig :=
  ⟨hG, hc, hp, .inl rfl, hargs.deposit, hargs.frequency, hargs.periods, hargs.members,
    UInt8.zero_le, fun h => absurd h (by decide : STATUS_OPEN ≠ STATUS_ACTIVE)⟩

theorem CreateGroup.Effect.frame
    (h : CreateGroup.Effect E ctx a groupCode depositAmount frequency totalPeriods maxMembers L L'
      events) : Frame E L L' a.groupConfig := by
  obtain ⟨p, m, bump, vb, n₁, n₂, -, -, -, hV, -, -, -, rfl⟩ := h.post
  refine ⟨fun hne => update_of_ne hne .., fun _ => .rfl, fun hne hV' => update_of_ne ?_ ..⟩
  exact Env.address_ne hV' (Env.findProgramAddress_create hV) (by simpa using hne)

/-- A new group starts with an empty pool. -/
theorem CreateGroup.Effect.holds (hL : Layout E L)
    (h : CreateGroup.Effect E ctx a groupCode depositAmount frequency totalPeriods maxMembers L L'
      events) {g : GroupConfig K} (hg : L'.group a.groupConfig = some g) :
    L'.Holds E a.groupConfig g .empty := by
  have hG := h.unused.1
  obtain ⟨p, m, bump, vb, n₁, n₂, hm, hsup, hGa, hV, -, -, -, rfl⟩ := h.post
  obtain rfl := eq_of_update_self hg
  refine ⟨fun k => ?_, rfl, fun _ V hV' => ?_⟩
  · refine Eq.symm (by_contra fun h0 => ?_)
    obtain ⟨r, hr, hrg, -⟩ := stakeOf_ne_zero.1 h0
    obtain ⟨-, -, g, hg⟩ := hL.record hr
    rw [hrg, hG] at hg
    cases hg
  · obtain rfl : a.vault = V := Option.some.inj ((Env.findProgramAddress_create hV).symm.trans hV')
    simp [Ledger.amount, amountOf]

theorem CreateGroup.Effect.inv (hI : Inv E L)
    (h : CreateGroup.Effect E ctx a groupCode depositAmount frequency totalPeriods maxMembers L L'
      events) : Inv E L' := by
  refine ⟨?_, h.frame.custody hI.custody fun hg => ⟨.empty, h.holds hI.toLayout hg⟩⟩
  obtain ⟨p, m, bump, vb, n₁, n₂, hm, hsup, hGa, hV, -, -, -, hpost⟩ := h.post
  rw [hpost]
  exact (hI.toLayout.createGroup h.unused.1 (CreateGroup.newGroup_ok h.args hGa h.creator.2
    h.payer.2) (not_settled_of_open rfl) hV ⟨p, m, hm, hsup⟩).lamports _

end

/-! ## `set_join_authority` and `start_cycle` -/

theorem SetJoinAuthority.Effect.frame {a : SetJoinAuthority K} {authority : K} {g : GroupConfig K}
    (h : SetJoinAuthority.Effect E ctx a authority L L' events g) : Frame E L L' a.groupConfig := by
  obtain ⟨n, -, -, rfl⟩ := h.post
  exact ⟨fun _ => rfl, fun _ => .rfl, fun _ _ => rfl⟩

theorem SetJoinAuthority.Effect.inv {a : SetJoinAuthority K} {authority : K} {g : GroupConfig K}
    (hI : Inv E L) (h : SetJoinAuthority.Effect E ctx a authority L L' events g) : Inv E L' := by
  have hf := h.frame
  obtain ⟨b, hJ⟩ := h.address
  obtain ⟨n, -, -, rfl⟩ := h.post
  refine ⟨(hI.toLayout.createGate h.group hJ h.valid).lamports _, hf.custody hI.custody fun hg => ?_⟩
  obtain ⟨p, hp⟩ := hI.custody hg
  exact ⟨p, hp.stake, hp.count, hp.balance⟩

theorem StartCycle.Effect.frame {a : StartCycle K} {g g' : GroupConfig K}
    (h : StartCycle.Effect E ctx a L L' events g g') : Frame E L L' a.groupConfig := by
  rw [h.post]
  exact ⟨fun hne => update_of_ne hne .., fun _ => .rfl, fun _ _ => rfl⟩

theorem StartCycle.Effect.inv {a : StartCycle K} {g g' : GroupConfig K} (hI : Inv E L)
    (h : StartCycle.Effect E ctx a L L' events g g') : Inv E L' := by
  have hf := h.frame
  have hok := hI.group h.group
  obtain ⟨c, hc, -⟩ := h.cycleEnd
  have hset : g'.isSettled ↔ g.isSettled := by
    rw [h.group']
    exact iff_of_false (not_settled_of_active rfl) (not_settled_of_open h.isOpen)
  obtain rfl := h.group'
  obtain ⟨p, hp⟩ := hI.custody h.group
  have hns := not_settled_of_open h.isOpen
  have hpost := h.post
  subst hpost
  refine ⟨hI.toLayout.writeGroup h.group ⟨hok.address, hok.creator, hok.payer, .inr (.inl rfl),
    hok.deposit, hok.frequency, hok.periods, hok.size, hok.room, fun _ => ⟨h.members, c, hc⟩⟩ rfl rfl
    hset, hf.custody hI.custody fun {g₁} hg => ?_⟩
  obtain rfl := eq_of_update_self hg
  exact ⟨p, hp.stake, hp.count, fun _ => hp.balance hns⟩

/-! ## `join_group` -/

section
variable {a : JoinGroup K} {expectedTerms : GroupTerms K} {expectedJoins : Option UInt32}
  {g : GroupConfig K} {t : JoinTally K} {n₁ n₂ : Nat}

theorem JoinGroup.Effect.frame (hL : Layout E L)
    (h : JoinGroup.Effect E ctx a expectedTerms expectedJoins L L' events g t n₁ n₂) :
    Frame E L L' a.groupConfig := by
  obtain ⟨p, mt, vt, bump, cm, joins, hmt, hvt, hne, hmo, -, -, -, -, hR, -, -, rfl, -⟩ := h.post
  refine ⟨fun hne => update_of_ne hne .., fun {k r} hr => ?_, fun {G' V b} hG' hV => ?_⟩
  · by_cases he : k = a.memberRecord
    · subst he
      simp only [update_self, h.unused, reduceCtorEq, iff_false, Option.some.injEq]
      rintro rfl
      exact hr rfl
    · simp only [update_of_ne he]
  · refine movedTokens_of_ne (hL.ne_derived hmt (hmo ▸ h.member.2) hV) ?_
    exact Env.address_ne hV h.vault (by simpa using hG')

/-- The member pays `deposit_amount` into the pool, with a new record. -/
theorem JoinGroup.Effect.holds
    (h : JoinGroup.Effect E ctx a expectedTerms expectedJoins L L' events g t n₁ n₂) {p : Pool K}
    (hp : L.Holds E a.groupConfig g p) {g' : GroupConfig K}
    (hg' : L'.group a.groupConfig = some g') (h0 : 0 < g.depositAmount) :
    L'.Holds E a.groupConfig g' (p.pay a.memberRecord g.depositAmount.toNat) := by
  obtain ⟨q, mt, vt, bump, cm, joins, hmt, hvt, hne, -, -, -, hle, hlt, -, hcm, -, rfl, -⟩ := h.post
  obtain rfl := eq_of_update_self hg'
  have hfree : p.stake a.memberRecord = 0 := by
    rw [hp.stake, Ledger.stake, h.unused]
    rfl
  have hpos : g.depositAmount.toNat ≠ 0 := by
    have := UInt64.lt_iff_toNat_lt.1 h0
    simp at this
    omega
  refine ⟨fun k => ?_, ?_, fun hs V hV => ?_⟩
  · by_cases he : k = a.memberRecord
    · subst he
      rw [Pool.stake_pay_self, hfree]
      simp [Ledger.stake, stakeOf, JoinGroup.newRecord]
    · rw [Pool.stake_pay_of_ne he, hp.stake]
      simp [Ledger.stake, update_of_ne he]
  · rw [Pool.card_pay_new hfree hpos, hp.count, checkedAdd8_eq_some hcm]
    rfl
  · obtain rfl : a.vault = V := Option.some.inj (h.vault.symm.trans hV)
    rw [Pool.balance_pay, ← hp.balance (not_settled_of_open h.isOpen) h.vault]
    exact (amountOf_movedTokens hne hle hlt).2.trans (by rw [Ledger.amount, hvt]; rfl)

theorem JoinGroup.Effect.inv (hI : Inv E L)
    (h : JoinGroup.Effect E ctx a expectedTerms expectedJoins L L' events g t n₁ n₂) : Inv E L' := by
  have hf := h.frame hI.toLayout
  have hok := hI.group h.group
  obtain ⟨p, hp⟩ := hI.custody h.group
  refine ⟨?_, hf.custody hI.custody fun hg' => ⟨_, h.holds hp hg' hok.deposit⟩⟩
  have htallyPayer : E.canSign (if t.joins = 0 then a.rentPayer else t.rentPayer) = true := by
    rcases h.tally with ⟨-, -, rfl, -⟩ | ⟨ht, -⟩
    · exact h.payer.2
    · split
      · exact h.payer.2
      · exact (hI.tally ht).1
  have hactive : g.status ≠ STATUS_ACTIVE := by
    rw [h.isOpen]
    decide
  obtain ⟨tb, hT⟩ := h.tallyAddress
  have hroom := UInt8.lt_iff_toNat_lt.1 h.room
  have hg := h.group
  have hm := h.member.2
  have hpay := h.payer.2
  obtain ⟨q, mt, vt, bump, cm, joins, hmt, hvt, hne, -, -, -, -, -, hR, hcm, hjoins, rfl, -⟩ := h.post
  have hcm := checkedAdd8_eq_some hcm
  have hjoins := checkedAdd32_eq_some hjoins
  have hle : cm ≤ g.maxMembers := by
    refine UInt8.le_iff_toNat_le.2 ?_
    simp at hcm
    omega
  have hj0 : joins ≠ 0 := by
    rintro rfl
    simp at hjoins
  have hG : Layout E { L with
      group := update L.group a.groupConfig (some { g with currentMembers := cm }) } :=
    hI.toLayout.writeGroup hg ⟨hok.address, hok.creator, hok.payer, hok.status, hok.deposit,
      hok.frequency, hok.periods, hok.size, hle, fun h => absurd h hactive⟩ rfl rfl .rfl
  have hput := (hG.amounts (holder_movedTokens hmt hvt g.depositAmount)).putTally ⟨_, joins⟩ hT htallyPayer hj0
  exact (hput.createRecord ⟨hR, hm, hpay⟩ hok.deposit (update_self ..)).lamports _

end

/-! ## `leave_group` -/

section
variable {a : LeaveGroup K} {g : GroupConfig K} {r : MemberRecord K}

theorem LeaveGroup.Effect.frame (hL : Layout E L)
    (h : LeaveGroup.Effect E ctx a L L' events g r) : Frame E L L' a.groupConfig := by
  obtain ⟨p, mt, vt, cm, hmt, hvt, hne, hmo, -, -, -, -, -, rfl, -⟩ := h.post
  refine ⟨fun hne => update_of_ne hne .., fun {k r'} hr => ?_, fun {G' V b} hG' hV => ?_⟩
  · by_cases he : k = a.memberRecord
    · subst he
      simp only [update_self, reduceCtorEq, false_iff]
      intro hr'
      exact hr (hL.record_eq hr' h.address).1
    · simp only [update_of_ne he]
  · refine movedTokens_of_ne ?_ (hL.ne_derived hmt (hmo ▸ h.member.2) hV)
    exact Env.address_ne hV h.vault (by simpa using hG')

/-- The member takes its whole stake out of the pool, and its record closes. -/
theorem LeaveGroup.Effect.holds (hL : Layout E L) (h : LeaveGroup.Effect E ctx a L L' events g r)
    {p : Pool K} (hp : L.Holds E a.groupConfig g p) {g' : GroupConfig K}
    (hg' : L'.group a.groupConfig = some g') :
    L'.Holds E a.groupConfig g' (p.release a.memberRecord) := by
  have hmem : a.memberRecord ∈ p.members :=
    (hp.mem hL).2 ⟨r, h.record, (hL.record_eq h.record h.address).1⟩
  have hstake : p.stake a.memberRecord = r.totalDeposited.toNat := by
    rw [hp.stake, Ledger.stake, h.record, stakeOf, if_pos (hL.record_eq h.record h.address).1]
  obtain ⟨q, mt, vt, cm, hmt, hvt, hne, -, -, -, hle, hlt, hcm, rfl, -⟩ := h.post
  obtain rfl := eq_of_update_self hg'
  refine ⟨fun k => ?_, ?_, fun hs V hV => ?_⟩
  · by_cases he : k = a.memberRecord
    · subst he
      rw [Pool.stake_release_self]
      simp [Ledger.stake, stakeOf]
    · rw [Pool.stake_release_of_ne he, hp.stake]
      simp [Ledger.stake, update_of_ne he]
  · have hc := Pool.card_release (Pool.mem_members.1 hmem)
    have hcm := checkedSub8_eq_some hcm
    rw [hp.count] at hc
    simp at hcm
    change _ = cm.toNat
    omega
  · obtain rfl : a.vault = V := Option.some.inj (h.vault.symm.trans hV)
    have hb := hp.balance (not_settled_of_open h.isOpen) h.vault
    have hrel := @Pool.balance_release _ p a.memberRecord
    have hmv := (@amountOf_movedTokens _ _ L.token q _ _ vt mt _ hne hle hlt).1
    have hv : L.amount a.vault = vt.amount.toNat := by rw [Ledger.amount, hvt]; rfl
    change amountOf (movedTokens L.token q a.vault a.memberTokenAccount vt mt r.totalDeposited
      a.vault) = _
    omega

theorem LeaveGroup.Effect.inv (hI : Inv E L) (h : LeaveGroup.Effect E ctx a L L' events g r) :
    Inv E L' := by
  have hf := h.frame hI.toLayout
  have hok := hI.group h.group
  obtain ⟨p, hp⟩ := hI.custody h.group
  refine ⟨?_, hf.custody hI.custody fun hg' => ⟨_, h.holds hI.toLayout hp hg'⟩⟩
  have hactive : g.status ≠ STATUS_ACTIVE := by
    rw [h.isOpen]
    decide
  have hg := h.group
  have hroom := UInt8.le_iff_toNat_le.1 hok.room
  obtain ⟨q, mt, vt, cm, hmt, hvt, -, -, -, -, -, -, hcm, rfl, -⟩ := h.post
  have hcm := checkedSub8_eq_some hcm
  have hle : cm ≤ g.maxMembers := UInt8.le_iff_toNat_le.2 (by omega)
  have hG : Layout E { L with
      group := update L.group a.groupConfig (some { g with currentMembers := cm }) } :=
    hI.toLayout.writeGroup hg ⟨hok.address, hok.creator, hok.payer, hok.status, hok.deposit,
      hok.frequency, hok.periods, hok.size, hle, fun h => absurd h hactive⟩ rfl rfl .rfl
  exact ((hG.amounts (holder_movedTokens hvt hmt _)).removeRecord _).lamports _

end

/-! ## `deposit` -/

section
variable {a : Deposit K} {g : GroupConfig K} {r : MemberRecord K}

theorem Deposit.Effect.frame (hL : Layout E L) (h : Deposit.Effect E ctx a L L' events g r) :
    Frame E L L' a.groupConfig := by
  obtain ⟨p, mt, vt, hmt, hvt, hne, hmo, -, -, -, -, hpost⟩ := h.post
  obtain ⟨duration, ce, period, r', -, -, -, -, hmark, hrec, -⟩ := h.period
  have hrg : r'.group = a.groupConfig := by
    obtain ⟨-, made, total, -, -, rfl⟩ := MemberRecord.mark_eq_ok.1 hmark
    exact h.record_eq.1
  refine ⟨fun hne => by rw [hpost], fun {k r₁} hr => ?_, fun {G' V b} hG' hV => ?_⟩
  · rw [hrec]
    by_cases he : k = a.memberRecord
    · subst he
      simp only [update_self, h.record, Option.some.injEq]
      constructor
      · rintro rfl
        exact absurd hrg hr
      · rintro rfl
        exact absurd h.record_eq.1 hr
    · simp only [update_of_ne he]
  · rw [hpost]
    refine movedTokens_of_ne (hL.ne_derived hmt (hmo ▸ h.member.2) hV) ?_
    exact Env.address_ne hV h.vault (by simpa using hG')

/-- The member pays `deposit_amount` more into the pool. -/
theorem Deposit.Effect.holds (hL : Layout E L) (h : Deposit.Effect E ctx a L L' events g r)
    {p : Pool K} (hp : L.Holds E a.groupConfig g p) :
    L'.Holds E a.groupConfig g (p.pay a.memberRecord g.depositAmount.toNat) := by
  have hmem : a.memberRecord ∈ p.members := (hp.mem hL).2 ⟨r, h.record, h.record_eq.1⟩
  obtain ⟨q, mt, vt, hmt, hvt, hne, -, -, -, hle, hlt, hpost⟩ := h.post
  obtain ⟨duration, ce, period, r', -, -, -, -, hmark, hrec, -⟩ := h.period
  obtain ⟨-, made, total, -, htot, rfl⟩ := MemberRecord.mark_eq_ok.1 hmark
  refine ⟨fun k => ?_, ?_, fun hs V hV => ?_⟩
  · rw [Ledger.stake, hrec]
    by_cases he : k = a.memberRecord
    · subst he
      rw [Pool.stake_pay_self, hp.stake, update_self, Ledger.stake, h.record]
      simp [stakeOf, h.record_eq.1, checkedAdd64_eq_some htot]
    · rw [Pool.stake_pay_of_ne he, hp.stake, update_of_ne he]
      rfl
  · rw [Pool.card_pay_old (Pool.mem_members.1 hmem), hp.count]
  · obtain rfl : a.vault = V := Option.some.inj (h.vault.symm.trans hV)
    rw [Pool.balance_pay, ← hp.balance (not_settled_of_active h.active) h.vault, Ledger.amount, hpost]
    exact (amountOf_movedTokens hne hle hlt).2.trans (by rw [Ledger.amount, hvt]; rfl)

theorem Deposit.Effect.inv (hI : Inv E L) (h : Deposit.Effect E ctx a L L' events g r) :
    Inv E L' := by
  have hf := h.frame hI.toLayout
  obtain ⟨p, hp⟩ := hI.custody h.group
  obtain ⟨q, mt, vt, hmt, hvt, -, -, -, -, -, -, hpost⟩ := h.post
  have hg' : L'.group a.groupConfig = some g := by
    rw [hpost]
    exact h.group
  refine ⟨?_, hf.custody hI.custody fun hg₁ => ?_⟩
  · obtain ⟨duration, ce, period, r', -, -, -, -, hmark, hrec, -⟩ := h.period
    obtain ⟨hpl, h0, -⟩ := hI.record h.record
    obtain ⟨hpl', h0', hgrp⟩ : r'.Placed E a.memberRecord ∧ 0 < r'.totalDeposited ∧
        r'.group = r.group := by
      obtain ⟨-, made, total, -, htot, rfl⟩ := MemberRecord.mark_eq_ok.1 hmark
      have htot := checkedAdd64_eq_some htot
      have h0 := UInt64.lt_iff_toNat_lt.1 h0
      refine ⟨⟨hpl.address, hpl.member, hpl.payer⟩, UInt64.lt_iff_toNat_lt.2 ?_, rfl⟩
      simp at h0 ⊢
      omega
    rw [hpost, hrec]
    exact (hI.toLayout.writeRecord h.record r' hpl' h0' hgrp).amounts (holder_movedTokens hmt hvt _)
  · obtain rfl : g = _ := Option.some.inj (hg'.symm.trans hg₁)
    exact ⟨_, h.holds hI.toLayout hp⟩

end

end SafeNudge
