import SafeNudge.Effect.Lifecycle
import SafeNudge.Instructions.Closing

/-!
# Effects of `refund_vault_rent`, `close_member_record`, `close_group` and `close_join_tally`
-/

namespace SafeNudge

open Lib Function

variable {K : Type} [DecidableEq K] {E : Env K} {ctx : Ctx K} {s s' : State K}

structure RefundVaultRent.Effect (ctx : Ctx K) (a : RefundVaultRent K) (L L' : Ledger K)
    (events : List (Event K)) (g : GroupConfig K) : Prop where
  group : L.group a.groupConfig = some g
  settled : g.isSettled
  payer : a.rentPayer = g.rentPayer
  post : L' = { L with
    lamports := moveLamports L.lamports a.groupConfig a.rentPayer
      (L.lamports a.groupConfig - ctx.rent.minimumBalance GROUP_CONFIG_SPACE) }
  events : events = []

theorem refundVaultRent_effect {a : RefundVaultRent K} {events : List (Event K)}
    (h : refundVaultRent E ctx a s = .ok (s', events)) :
    ∃ g, RefundVaultRent.Effect ctx a s.ledger s'.ledger events g := by
  simp only [refundVaultRent, bind_eq_ok, require_eq_ok, loadGroupConfig_eq_ok,
    requireSeeds_eq_ok, pure_eq_ok, exists_const, Prod.mk.injEq] at h
  obtain ⟨g, hg, -, hst, hp, rfl, rfl⟩ := h
  exact ⟨g, hg, hst, hp, rfl, rfl⟩

structure CloseMemberRecord.Effect (E : Env K) (ctx : Ctx K) (a : CloseMemberRecord K)
    (L L' : Ledger K) (events : List (Event K)) (g : GroupConfig K) (r : MemberRecord K) :
    Prop where
  group : L.group a.groupConfig = some g
  record : L.record a.memberRecord = some r
  settled : g.isSettled
  retention : ∃ c, recordRetentionEnd E g.settledAt = .ok c ∧ c ≤ ctx.unixTimestamp
  address : E.createProgramAddress (.member a.groupConfig r.member) r.bump = some a.memberRecord
  payer : a.rentPayer = r.rentPayer
  post : ∃ currentMembers, checkedSub8 g.currentMembers 1 = some currentMembers ∧
    L' = { L with
      group := update L.group a.groupConfig (some { g with currentMembers })
      record := update L.record a.memberRecord none
      vacant := update L.vacant a.memberRecord True
      lamports := moveLamports L.lamports a.memberRecord a.rentPayer (L.lamports a.memberRecord) }
  events : events = []

theorem closeMemberRecord_effect {a : CloseMemberRecord K} {events : List (Event K)}
    (h : closeMemberRecord E ctx a s = .ok (s', events)) :
    ∃ g r, CloseMemberRecord.Effect E ctx a s.ledger s'.ledger events g r := by
  simp only [closeMemberRecord, bind_eq_ok, require_eq_ok, loadGroupConfig_eq_ok,
    loadMemberRecord_eq_ok, requireSeeds_eq_ok, requireClose_eq_ok, orThrow_eq_ok, pure_eq_ok,
    exists_const, Prod.mk.injEq] at h
  obtain ⟨g, hg, r, hr, hseed, hst, c, hc, hret, hR, hp, hne, cm, hcm, rfl, rfl⟩ := h
  have hRG : a.memberRecord ≠ a.groupConfig := Env.address_ne hR hseed (by simp)
  have hr₁ : (s.set a.groupConfig (.groupConfig { g with currentMembers := cm })).record
      a.memberRecord = some r := by
    simp [update_of_ne, hRG, hr]
  refine ⟨g, r, hg, hr, hst, ⟨c, hc, hret⟩, hR, hp, ⟨cm, hcm, ?_⟩, rfl⟩
  rw [State.ledger_close_record hr₁, State.ledger_write_group (by simp [hg])]

structure CloseGroup.Effect (E : Env K) (a : CloseGroup K) (L L' : Ledger K)
    (events : List (Event K)) (g : GroupConfig K) : Prop where
  group : L.group a.groupConfig = some g
  settled : g.isSettled
  empty : g.currentMembers = 0
  payer : a.rentPayer = g.rentPayer
  payer_ne : a.groupConfig ≠ a.rentPayer
  gateAddress : ∃ b, E.findProgramAddress (.join a.groupConfig) = some (a.joinGate, b)
  /-- A gate closes with the group; where there is none, nothing happens at its address. -/
  post : ∃ n, (L.gate a.joinGate = none ∧ n = 0 ∨
      (L.gate a.joinGate).isSome ∧ n = L.lamports a.joinGate) ∧
    L' = { L with
      group := update L.group a.groupConfig none
      gate := update L.gate a.joinGate none
      vacant := update (update L.vacant a.joinGate True) a.groupConfig True
      lamports := moveLamports (moveLamports L.lamports a.joinGate a.rentPayer n)
        a.groupConfig a.rentPayer (L.lamports a.groupConfig) } ∧
    events = [.groupClosed a.groupConfig a.rentPayer (L.lamports a.groupConfig) n]

theorem closeGroup_effect {a : CloseGroup K} {events : List (Event K)}
    (hvac : s.gate a.joinGate = none → s.account a.joinGate = .system)
    (h : closeGroup E a s = .ok (s', events)) :
    ∃ g, CloseGroup.Effect E a s.ledger s'.ledger events g := by
  simp only [closeGroup, bind_eq_ok, require_eq_ok, loadGroupConfig_eq_ok, requireSeeds_eq_ok,
    requireClose_eq_ok, requireCanonical_eq_ok, pure_eq_ok, exists_const, Prod.mk.injEq] at h
  obtain ⟨g, hg, hseed, hst, hcm, hp, hne, b, hJ, ⟨n, s₁⟩, hs₁, rfl, rfl⟩ := h
  have hGJ : a.groupConfig ≠ a.joinGate :=
    Env.address_ne hseed (Env.findProgramAddress_create hJ) (by simp)
  unfold closeJoinGate at hs₁
  split at hs₁
  · simp only [bind_eq_ok, loadJoinGate_eq_ok, pure_eq_ok, Prod.mk.injEq] at hs₁
    obtain ⟨j, hj, rfl, rfl⟩ := hs₁
    have hg₁ : (s.close a.joinGate a.rentPayer).group a.groupConfig = some g := by
      simp [State.close_eq, update_of_ne hGJ, hg, Account.groupConfig?]
    have hl : (s.close a.joinGate a.rentPayer).ledger.lamports a.groupConfig
        = s.ledger.lamports a.groupConfig := by
      simp [State.close_eq, moveLamports_of_ne _ _ hGJ hne]
    refine ⟨g, hg, hst, hcm, hp, hne, ⟨b, hJ⟩, _,
      .inr ⟨Option.isSome_iff_exists.2 ⟨j, hj⟩, rfl⟩, ?_, ?_⟩
    · rw [State.ledger_close_group hg₁, hl, State.ledger_close_gate hj]
    · exact congrArg (fun n => [Event.groupClosed _ _ n _]) hl
  · rename_i ho
    cases hs₁
    have hj : s.gate a.joinGate = none := by
      cases hj : s.gate a.joinGate with
      | none => rfl
      | some j => exact absurd (by rw [State.gate_eq_some.1 hj]; rfl) ho
    have hv : s.ledger.vacant a.joinGate = True := eq_true (hvac hj)
    refine ⟨g, hg, hst, hcm, hp, hne, ⟨b, hJ⟩, 0, .inl ⟨hj, rfl⟩, ?_, rfl⟩
    have hgate : update s.ledger.gate a.joinGate none = s.ledger.gate := State.update_same hj
    rw [State.ledger_close_group hg, moveLamports_zero, State.update_same hv, hgate]

structure CloseJoinTally.Effect (E : Env K) (a : CloseJoinTally K) (member : K) (L L' : Ledger K)
    (events : List (Event K)) (t : JoinTally K) : Prop where
  tally : L.tally a.joinTally = some t
  closed : L.group a.groupConfig = none
  address : ∃ b, E.findProgramAddress (.tally a.groupConfig member) = some (a.joinTally, b)
  payer : a.rentPayer = t.rentPayer
  post : L' = { L with
    tally := update L.tally a.joinTally none
    vacant := update L.vacant a.joinTally True
    lamports := moveLamports L.lamports a.joinTally a.rentPayer (L.lamports a.joinTally) }
  events : events = []

theorem closeJoinTally_effect {a : CloseJoinTally K} {member : K} {events : List (Event K)}
    (h : closeJoinTally E a member s = .ok (s', events)) :
    ∃ t, CloseJoinTally.Effect E a member s.ledger s'.ledger events t := by
  simp only [closeJoinTally, bind_eq_ok, require_eq_ok, loadJoinTally_eq_ok, requireCanonical_eq_ok,
    requireClose_eq_ok, pure_eq_ok, exists_const, Prod.mk.injEq] at h
  obtain ⟨t, ht, ho, b, hT, hp, hne, rfl, rfl⟩ := h
  have hg : s.group a.groupConfig = none := by
    cases hg : s.group a.groupConfig with
    | none => rfl
    | some g => exact absurd (by rw [State.group_eq_some.1 hg]; rfl) ho
  exact ⟨t, ht, hg, ⟨b, hT⟩, hp, State.ledger_close_tally ht, rfl⟩

end SafeNudge
