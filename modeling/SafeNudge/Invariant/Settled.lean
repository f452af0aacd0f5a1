import SafeNudge.Invariant.Open

/-!
# The invariant at settlement and after it

`distribute` and `emergency_cancel` (both are a `Settled`), `refund_vault_rent`,
`close_member_record`, `close_group` and `close_join_tally`.
-/

namespace SafeNudge

open Lib Function

variable {K : Type} [DecidableEq K] {E : Env K} {ctx : Ctx K} {L L' : Ledger K}
  {events : List (Event K)}

/-! ## Settlement -/

section
variable {G V : K} {remaining : List K} {g g' : GroupConfig K} {p : TokenProgram}
  {t : TokenAccount K} {rs : List (MemberRecord K)} {burned : UInt64}

omit [DecidableEq K] in
theorem PairOk.ne_derived {mintKey k : K} {pair : K × K} {r : MemberRecord K} {seeds : Seeds K}
    {b : UInt8} (h : PairOk E L G mintKey pair r) (hown : L.SelfOwned E) (hr : r.Placed E pair.1)
    (hk : E.createProgramAddress seeds b = some k) : k ≠ pair.2 := by
  obtain ⟨q, t, ht, ho, -⟩ := h.token
  intro he
  exact Env.ne_of_canSign hk hr.member (by rw [← ho, hown hk (he ▸ ht)])

/-- The token accounts of a plan are no derived addresses. -/
theorem Settled.notMem_of_derived (hL : Layout E L)
    (h : Settled E L L' G V remaining g g' p t rs burned) {seeds : Seeds K} {b : UInt8} {k : K}
    (hk : E.createProgramAddress seeds b = some k) :
    k ∉ (payPlan remaining rs t.amount).map Prod.fst := by
  intro hm
  obtain ⟨q, hq, rfl⟩ := List.mem_map.1 hm
  obtain ⟨pair, hp, he⟩ := List.mem_map.1 (List.of_mem_zip hq).1
  obtain ⟨r, -, hr⟩ := exists_of_mem_forall₂ h.accepted hp
  exact hr.ne_derived hL.selfOwned (hL.placed hr.record) hk he.symm

theorem Settled.frame (hL : Layout E L) (h : Settled E L L' G V remaining g g' p t rs burned) :
    Frame E L L' G := by
  rw [h.post]
  refine ⟨fun hne => update_of_ne hne .., fun _ => .rfl, fun {G' V' b} hne hV' => ?_⟩
  have hVV : V' ≠ V := Env.address_ne hV' h.vaultAddress (by simpa using hne)
  exact (update_of_ne hVV ..).trans (creditAll_of_notMem (h.notMem_of_derived hL hV'))

/-- The records, and with them the stakes, stay as they are. -/
theorem Settled.holds (h : Settled E L L' G V remaining g g' p t rs burned) {pool : Pool K}
    (hp : L.Holds E G g pool) (hs : g'.isSettled) (hc : g'.currentMembers = g.currentMembers) :
    L'.Holds E G g' pool := by
  rw [h.post]
  exact ⟨hp.stake, hc ▸ hp.count, fun hns => absurd hs hns⟩

theorem Settled.inv (hI : Inv E L) (h : Settled E L L' G V remaining g g' p t rs burned)
    (hs : g'.isSettled) (hg' : g' = { g with status := g'.status, settledAt := g'.settledAt }) :
    Inv E L' := by
  have hf := h.frame hI.toLayout
  have hok := hI.group h.group
  obtain ⟨pool, hp⟩ := hI.custody h.group
  have hc : g'.currentMembers = g.currentMembers := by rw [hg']
  have hholds := h.holds hp hs hc
  have hok' : g'.Ok E G := by
    refine ⟨?_, ?_, ?_, .inr (.inr hs), ?_, ?_, ?_, ?_, ?_, fun ha => absurd hs ?_⟩
    · rw [hg']; exact hok.address
    · rw [hg']; exact hok.creator
    · rw [hg']; exact hok.payer
    · rw [hg']; exact hok.deposit
    · rw [hg']; exact hok.frequency
    · rw [hg']; exact hok.periods
    · rw [hg']; exact hok.size
    · rw [hg']; exact hok.room
    · exact not_settled_of_active ha
  refine ⟨?_, hf.custody hI.custody fun {g₁} hg₁ => ?_⟩
  · rw [h.post]
    exact (hI.toLayout.settle h.group hok' (by rw [hg']) (by rw [hg']) hs h.vaultAddress
      fun k => holder_creditAll k).lamports _
  · have he : g' = g₁ := by
      rw [h.post] at hg₁
      exact eq_of_update_self hg₁
    exact ⟨pool, he ▸ hholds⟩

end

omit [DecidableEq K] in
theorem GroupConfig.completed_isSettled (g : GroupConfig K) (now : Int64) :
    (g.completed now).isSettled := .inl rfl

omit [DecidableEq K] in
theorem GroupConfig.cancelled_isSettled (g : GroupConfig K) (now : Int64) :
    (g.cancelled now).isSettled := .inr rfl

/-! ## `refund_vault_rent` -/

theorem RefundVaultRent.Effect.frame {a : RefundVaultRent K} {g : GroupConfig K}
    (h : RefundVaultRent.Effect ctx a L L' events g) : Frame E L L' a.groupConfig := by
  rw [h.post]
  exact ⟨fun _ => rfl, fun _ => .rfl, fun _ _ => rfl⟩

theorem RefundVaultRent.Effect.inv {a : RefundVaultRent K} {g : GroupConfig K} (hI : Inv E L)
    (h : RefundVaultRent.Effect ctx a L L' events g) : Inv E L' := by
  rw [h.post]
  refine ⟨hI.toLayout.lamports _, fun hg => ?_⟩
  obtain ⟨p, hp⟩ := hI.custody hg
  exact ⟨p, hp.stake, hp.count, hp.balance⟩

/-! ## `close_member_record` -/

section
variable {a : CloseMemberRecord K} {g : GroupConfig K} {r : MemberRecord K}

theorem CloseMemberRecord.Effect.frame (hL : Layout E L)
    (h : CloseMemberRecord.Effect E ctx a L L' events g r) : Frame E L L' a.groupConfig := by
  obtain ⟨cm, -, rfl⟩ := h.post
  refine ⟨fun hne => update_of_ne hne .., fun {k r'} hr => ?_, fun _ _ => rfl⟩
  by_cases he : k = a.memberRecord
  · subst he
    simp only [update_self, reduceCtorEq, false_iff]
    intro hr'
    exact hr (hL.record_eq hr' h.address).1
  · simp only [update_of_ne he]

theorem CloseMemberRecord.Effect.holds (hL : Layout E L)
    (h : CloseMemberRecord.Effect E ctx a L L' events g r) {p : Pool K}
    (hp : L.Holds E a.groupConfig g p) {g' : GroupConfig K}
    (hg' : L'.group a.groupConfig = some g') :
    L'.Holds E a.groupConfig g' (p.release a.memberRecord) := by
  have hmem : a.memberRecord ∈ p.members :=
    (hp.mem hL).2 ⟨r, h.record, (hL.record_eq h.record h.address).1⟩
  obtain ⟨cm, hcm, rfl⟩ := h.post
  obtain rfl := eq_of_update_self hg'
  refine ⟨fun k => ?_, ?_, fun hs => absurd h.settled hs⟩
  · by_cases he : k = a.memberRecord
    · subst he
      rw [Pool.stake_release_self]
      simp [Ledger.stake, stakeOf]
    · rw [Pool.stake_release_of_ne he, hp.stake]
      simp [Ledger.stake, update_of_ne he]
  · have hc := Pool.card_release (Pool.mem_members.1 hmem)
    have hcm := checkedSub8_eq_some hcm
    rw [hp.count] at hc
    simp at hcm
    change _ = cm.toNat
    omega

theorem CloseMemberRecord.Effect.inv (hI : Inv E L)
    (h : CloseMemberRecord.Effect E ctx a L L' events g r) : Inv E L' := by
  have hf := h.frame hI.toLayout
  have hok := hI.group h.group
  obtain ⟨p, hp⟩ := hI.custody h.group
  refine ⟨?_, hf.custody hI.custody fun hg' => ⟨_, h.holds hI.toLayout hp hg'⟩⟩
  have hg := h.group
  have hs := h.settled
  have hroom := UInt8.le_iff_toNat_le.1 hok.room
  obtain ⟨cm, hcm, rfl⟩ := h.post
  have hcm := checkedSub8_eq_some hcm
  have hle : cm ≤ g.maxMembers := UInt8.le_iff_toNat_le.2 (by omega)
  have hG : Layout E { L with
      group := update L.group a.groupConfig (some { g with currentMembers := cm }) } :=
    hI.toLayout.writeGroup hg ⟨hok.address, hok.creator, hok.payer, hok.status, hok.deposit,
      hok.frequency, hok.periods, hok.size, hle, fun h => absurd hs (not_settled_of_active h)⟩
      rfl rfl .rfl
  exact (hG.removeRecord _).lamports _

end

/-! ## `close_group` -/

/-- A group that counts no members has no open records. -/
theorem Inv.no_records (hI : Inv E L) {G : K} {g : GroupConfig K} (hg : L.group G = some g)
    (h0 : g.currentMembers = 0) {k : K} {r : MemberRecord K} (hr : L.record k = some r) :
    r.group ≠ G := by
  intro he
  obtain ⟨p, hp⟩ := hI.custody hg
  have hc := hp.count
  rw [h0] at hc
  have hm := (hp.mem hI.toLayout).2 ⟨r, hr, he⟩
  rw [Finset.card_eq_zero.1 hc] at hm
  simp at hm

theorem CloseGroup.Effect.frame {a : CloseGroup K} {g : GroupConfig K}
    (h : CloseGroup.Effect E a L L' events g) : Frame E L L' a.groupConfig := by
  obtain ⟨n, -, rfl, -⟩ := h.post
  exact ⟨fun hne => update_of_ne hne .., fun _ => .rfl, fun _ _ => rfl⟩

theorem CloseGroup.Effect.inv {a : CloseGroup K} {g : GroupConfig K} (hI : Inv E L)
    (h : CloseGroup.Effect E a L L' events g) : Inv E L' := by
  have hf := h.frame
  obtain ⟨b, hJ⟩ := h.gateAddress
  obtain ⟨n, -, rfl, -⟩ := h.post
  refine ⟨(hI.toLayout.closeGroup h.group h.settled hJ fun hr =>
    hI.no_records h.group h.empty hr).lamports _, hf.custody hI.custody fun {g'} hg' => ?_⟩
  have : update L.group a.groupConfig none a.groupConfig = some g' := hg'
  simp at this

/-! ## `close_join_tally` -/

theorem CloseJoinTally.Effect.frame {a : CloseJoinTally K} {member : K} {t : JoinTally K}
    (h : CloseJoinTally.Effect E a member L L' events t) : Frame E L L' a.groupConfig := by
  rw [h.post]
  exact ⟨fun _ => rfl, fun _ => .rfl, fun _ _ => rfl⟩

theorem CloseJoinTally.Effect.inv {a : CloseJoinTally K} {member : K} {t : JoinTally K}
    (hI : Inv E L) (h : CloseJoinTally.Effect E a member L L' events t) : Inv E L' := by
  rw [h.post]
  refine ⟨(hI.toLayout.removeTally _).lamports _, fun hg => ?_⟩
  obtain ⟨p, hp⟩ := hI.custody hg
  exact ⟨p, hp.stake, hp.count, hp.balance⟩

/-! ## Outside steps -/

section
variable {s s' : State K}

/-- Tokens that came into a vault from outside are a donation to its pool. -/
theorem Outside.holds (h : Outside E s s') (hI : Inv E s.ledger) {G V : K} {g : GroupConfig K}
    {p : Pool K} (hg : s.ledger.group G = some g) (hp : s.ledger.Holds E G g p)
    (hV : E.createProgramAddress (.vault G) g.vaultBump = some V) :
    s'.ledger.Holds E G g (p.donate (s'.amount V - s.amount V)) := by
  refine ⟨fun k => ?_, hp.count, fun hs V' hV' => ?_⟩
  · rw [Ledger.stake, h.record]
    exact hp.stake k
  · obtain rfl : V = V' := Option.some.inj (hV.symm.trans hV')
    obtain ⟨V', hV', hv⟩ := hI.vault hg
    obtain rfl : V' = V := Option.some.inj ((Env.findProgramAddress_create hV').symm.trans hV)
    obtain ⟨q, t, ht, -⟩ := hv hs
    obtain ⟨n, hn, ht'⟩ := h.token hV ht
    have hb := hp.balance hs hV
    have := UInt64.le_iff_toNat_le.1 hn
    rw [← State.ledger_amount, ← State.ledger_amount, Pool.balance_donate, ← hb]
    simp only [Ledger.amount, ht, ht', amountOf]
    omega

theorem Outside.inv (h : Outside E s s') (hI : Inv E s.ledger) : Inv E s'.ledger := by
  refine ⟨h.layout hI.toLayout, fun hg => ?_⟩
  rw [h.group] at hg
  obtain ⟨p, hp⟩ := hI.custody hg
  obtain ⟨V, hV, -⟩ := hI.vault hg
  exact ⟨_, h.holds hI hg hp (Env.findProgramAddress_create hV)⟩

end

end SafeNudge
