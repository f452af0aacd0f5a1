import SafeNudge.Invariant.Settled

/-!
# The invariant of every run

`Effect` collects what the twelve instructions do, one constructor each; `execute_effect` derives
it from a successful call in a state that satisfies the invariant. `Reached.inv` is the invariant
of every reached state. What follows about runs is a case analysis of `Effect`, not of the
handlers.
-/

namespace SafeNudge

open Lib Function

variable {K : Type} [DecidableEq K] {E : Env K}

/-- What a successful instruction has checked and done. -/
inductive Effect (E : Env K) (ctx : Ctx K) (L L' : Ledger K) (events : List (Event K)) :
    Call K → Prop where
  | createGroup {a : CreateGroup K} {groupCode : String} {depositAmount : UInt64}
      {frequency totalPeriods maxMembers : UInt8} :
      CreateGroup.Effect E ctx a groupCode depositAmount frequency totalPeriods maxMembers L L'
        events →
      Effect E ctx L L' events
        (.createGroup a groupCode depositAmount frequency totalPeriods maxMembers)
  | joinGroup {a : JoinGroup K} {terms : GroupTerms K} {expected : Option UInt32}
      {g : GroupConfig K} {t : JoinTally K} {n₁ n₂ : Nat} :
      JoinGroup.Effect E ctx a terms expected L L' events g t n₁ n₂ →
      Effect E ctx L L' events (.joinGroup a terms expected)
  | leaveGroup {a : LeaveGroup K} {g : GroupConfig K} {r : MemberRecord K} :
      LeaveGroup.Effect E ctx a L L' events g r → Effect E ctx L L' events (.leaveGroup a)
  | startCycle {a : StartCycle K} {g g' : GroupConfig K} :
      StartCycle.Effect E ctx a L L' events g g' → Effect E ctx L L' events (.startCycle a)
  | deposit {a : Deposit K} {g : GroupConfig K} {r : MemberRecord K} :
      Deposit.Effect E ctx a L L' events g r → Effect E ctx L L' events (.deposit a)
  | distribute {a : Distribute K} {remaining : List K} {g : GroupConfig K} {p : TokenProgram}
      {t : TokenAccount K} {rs : List (MemberRecord K)} {total : UInt64} :
      Settled E L L' a.groupConfig a.vault remaining g (g.completed ctx.unixTimestamp) p t rs 0 →
      a.Passed E ctx g p → total.toNat = t.amount.toNat →
      events = (settledEvents a.groupConfig rs t.amount).map .memberSettled ++
        [.groupSettled a.groupConfig g.currentMembers total] →
      Effect E ctx L L' events (.distribute a remaining)
  | emergencyCancel {a : EmergencyCancel K} {remaining : List K} {g : GroupConfig K}
      {p : TokenProgram} {t : TokenAccount K} {rs : List (MemberRecord K)} {total burned : UInt64} :
      burned = unowedVaultBalance g.currentMembers.toNat t.amount →
      Settled E L L' a.groupConfig a.vault remaining g (g.cancelled ctx.unixTimestamp) p t rs
        burned →
      a.Passed E ctx g p t → total.toNat + burned.toNat = t.amount.toNat →
      events = [.groupCancelled a.groupConfig a.creator g.currentMembers total burned] →
      Effect E ctx L L' events (.emergencyCancel a remaining)
  | refundVaultRent {a : RefundVaultRent K} {g : GroupConfig K} :
      RefundVaultRent.Effect ctx a L L' events g → Effect E ctx L L' events (.refundVaultRent a)
  | closeMemberRecord {a : CloseMemberRecord K} {g : GroupConfig K} {r : MemberRecord K} :
      CloseMemberRecord.Effect E ctx a L L' events g r →
      Effect E ctx L L' events (.closeMemberRecord a)
  | closeGroup {a : CloseGroup K} {g : GroupConfig K} :
      CloseGroup.Effect E a L L' events g → Effect E ctx L L' events (.closeGroup a)
  | closeJoinTally {a : CloseJoinTally K} {member : K} {t : JoinTally K} :
      CloseJoinTally.Effect E a member L L' events t →
      Effect E ctx L L' events (.closeJoinTally a member)
  | setJoinAuthority {a : SetJoinAuthority K} {authority : K} {g : GroupConfig K} :
      SetJoinAuthority.Effect E ctx a authority L L' events g →
      Effect E ctx L L' events (.setJoinAuthority a authority)

section
variable {ctx : Ctx K} {L L' : Ledger K} {events : List (Event K)} {c : Call K}

theorem Effect.frame (hL : Layout E L) (h : Effect E ctx L L' events c) :
    Frame E L L' c.groupKey := by
  cases h with
  | createGroup h => exact h.frame
  | joinGroup h => exact h.frame hL
  | leaveGroup h => exact h.frame hL
  | startCycle h => exact h.frame
  | deposit h => exact h.frame hL
  | distribute h => exact h.frame hL
  | emergencyCancel _ h => exact h.frame hL
  | refundVaultRent h => exact h.frame
  | closeMemberRecord h => exact h.frame hL
  | closeGroup h => exact h.frame
  | closeJoinTally h => exact h.frame
  | setJoinAuthority h => exact h.frame

theorem Effect.inv (hI : Inv E L) (h : Effect E ctx L L' events c) : Inv E L' := by
  cases h with
  | createGroup h => exact h.inv hI
  | joinGroup h => exact h.inv hI
  | leaveGroup h => exact h.inv hI
  | startCycle h => exact h.inv hI
  | deposit h => exact h.inv hI
  | distribute h => exact h.inv hI (GroupConfig.completed_isSettled ..) rfl
  | emergencyCancel _ h => exact h.inv hI (GroupConfig.cancelled_isSettled ..) rfl
  | refundVaultRent h => exact h.inv hI
  | closeMemberRecord h => exact h.inv hI
  | closeGroup h => exact h.inv hI
  | closeJoinTally h => exact h.inv hI
  | setJoinAuthority h => exact h.inv hI

end

section
variable {ctx : Ctx K} {s s' : State K} {events : List (Event K)} {c : Call K}

/-- A canonical gate address without a gate is unused. -/
theorem Layout.gate_vacant (hL : Layout E s.ledger) {G J : K} {b : UInt8}
    (hJ : E.findProgramAddress (.join G) = some (J, b)) (h : s.gate J = none) :
    s.account J = .system := by
  have hJ' := Env.findProgramAddress_create hJ
  rcases hL.derived hJ' with hv | hg | hr | hj | ht | ht
  · exact hv
  · obtain ⟨g, hg⟩ := Option.isSome_iff_exists.1 hg
    exact absurd rfl (Env.address_ne hJ' (Env.findProgramAddress_create (hL.group hg).address) nofun)
  · obtain ⟨r, hr⟩ := Option.isSome_iff_exists.1 hr
    exact absurd rfl (Env.address_ne hJ' (Env.findProgramAddress_create (hL.placed hr).address) nofun)
  · rw [State.ledger_gate, h] at hj
    cases hj
  · obtain ⟨t, ht⟩ := Option.isSome_iff_exists.1 ht
    obtain ⟨-, -, G', M, b', hT⟩ := hL.tally ht
    exact absurd rfl (Env.address_ne hJ' (Env.findProgramAddress_create hT) nofun)
  · obtain ⟨⟨p, t⟩, ht⟩ := Option.isSome_iff_exists.1 ht
    obtain ⟨-, G', g', hs, -⟩ := hL.token hJ' ht
    cases hs

theorem execute_effect (hL : Layout E s.ledger) (h : execute E ctx c s = .ok (s', events)) :
    Effect E ctx s.ledger s'.ledger events c := by
  have hown : s.ledger.SelfOwned E := hL.selfOwned
  cases c with
  | createGroup => exact .createGroup (createGroup_effect h)
  | joinGroup =>
    obtain ⟨g, t, n₁, n₂, h⟩ := joinGroup_effect hown h
    exact .joinGroup h
  | leaveGroup =>
    obtain ⟨g, r, h⟩ := leaveGroup_effect h
    exact .leaveGroup h
  | startCycle =>
    obtain ⟨g, g', h⟩ := startCycle_effect h
    exact .startCycle h
  | deposit =>
    obtain ⟨g, r, h⟩ := deposit_effect hown h
    exact .deposit h
  | distribute =>
    obtain ⟨g, p, t, rs, total, h, hp, ht, he⟩ := distribute_effect hown hL.placed h
    exact .distribute h hp ht he
  | emergencyCancel =>
    obtain ⟨g, p, t, rs, total, h, hp, ht, he⟩ := emergencyCancel_effect hown hL.placed h
    exact .emergencyCancel rfl h hp ht he
  | refundVaultRent =>
    obtain ⟨g, h⟩ := refundVaultRent_effect h
    exact .refundVaultRent h
  | closeMemberRecord =>
    obtain ⟨g, r, h⟩ := closeMemberRecord_effect h
    exact .closeMemberRecord h
  | closeGroup a =>
    have hvac : s.gate a.joinGate = none → s.account a.joinGate = .system := by
      simp only [execute, closeGroup, bind_eq_ok, requireCanonical_eq_ok] at h
      obtain ⟨-, -, -, -, -, -, -, -, -, -, -, -, b, hJ, -⟩ := h
      exact hL.gate_vacant hJ
    obtain ⟨g, h⟩ := closeGroup_effect hvac h
    exact .closeGroup h
  | closeJoinTally =>
    obtain ⟨t, h⟩ := closeJoinTally_effect h
    exact .closeJoinTally h
  | setJoinAuthority =>
    obtain ⟨g, h⟩ := setJoinAuthority_effect h
    exact .setJoinAuthority h

end

/-! ## Runs -/

theorem Genesis.inv {s : State K} (h : Genesis E s) : Inv E s.ledger := by
  have hg : ∀ k g, s.group k ≠ some g := fun k g hg =>
    h.program k (by rw [State.group_eq_some.1 hg]; trivial)
  refine ⟨⟨fun hg' => absurd hg' (hg _ _), fun hg' => absurd hg' (hg _ _),
    fun hg' => absurd hg' (hg _ _), fun {k r} hr => ?_, fun {k j} hj => ?_, fun {k t} ht => ?_,
    fun {seeds b k p t} hk ht => ?_, fun hk => .inl (h.derived hk)⟩, fun hg' => absurd hg' (hg _ _)⟩
  · exact absurd (by rw [State.record_eq_some.1 hr]; trivial) (h.program k)
  · exact absurd (by rw [State.gate_eq_some.1 hj]; trivial) (h.program k)
  · exact absurd (by rw [State.tally_eq_some.1 ht]; trivial) (h.program k)
  · have hv := h.derived hk
    rw [State.token_eq_some.1 ht] at hv
    cases hv

theorem Step.inv {s s' : State K} {a : Action K} (h : Step E s a s') (hI : Inv E s.ledger) :
    Inv E s'.ledger := by
  cases h with
  | call h => exact (execute_effect hI.toLayout h).inv hI
  | outside h => exact h.inv hI

theorem Reached.inv {h : List (StepEntry K)} {s : State K} (hr : Reached E h s) :
    Inv E s.ledger :=
  hr.invariant (fun _ h0 => h0.inv) fun _ _ _ hs hI => hs.inv hI

end SafeNudge
