import SafeNudge.Property.Lifecycle

/-!
# Results stay readable

A record disappears in two ways (`Step.closedRecord`): its member leaves an open group, or the
retention period after the settlement has passed. So the records a group is settled with stay as
they are for that period (`record_retained`), and the group, which closes only without members,
stays with them (`results_retained`).
-/

namespace SafeNudge

open Lib Function

variable {K : Type} [DecidableEq K] {E : Env K} {h : List (StepEntry K)} {s s' : State K}
  {act : Action K} {G k : K} {g : GroupConfig K} {r : MemberRecord K}

/-- The clock has reached the end of the retention period of a group settled at `settledAt`. -/
def RetentionOver (E : Env K) (settledAt now : Int64) : Prop :=
  settledAt.toInt + (RECORD_RETENTION_SECS E).toInt ≤ now.toInt

/-- `e` closes the record at `k` when the retention period is over. -/
def ClosedLate (E : Env K) (settledAt : Int64) (k : K) (e : StepEntry K) : Prop :=
  ∃ ctx a, e.act = .call ctx (.closeMemberRecord a) [] ∧ a.memberRecord = k ∧
    RetentionOver E settledAt ctx.unixTimestamp

/-- `e` is the leave of member `M` with the record at `k`. -/
def LeftBy (E : Env K) (k M : K) (e : StepEntry K) : Prop :=
  ∃ ctx a events, e.act = .call ctx (.leaveGroup a) events ∧ a.memberRecord = k ∧ a.member = M ∧
    Signed E ctx M

omit [DecidableEq K] in
theorem retentionOver_of_end {settledAt c now : Int64}
    (h : recordRetentionEnd E settledAt = .ok c) (hc : c ≤ now) : RetentionOver E settledAt now := by
  have hend := toI64_eq_some (orThrow_eq_ok.1 h)
  have hle := Int64.le_iff_toInt_le.1 hc
  unfold RetentionOver
  omega

/-! ## One step -/

/-- A record that a step removes. -/
theorem Step.closedRecord (h : Step E s act s') (hL : Layout E s.ledger)
    (hk : s.record k = some r) (hk' : s'.record k = none) :
    ∃ g, s.group r.group = some g ∧
      ((g.status = STATUS_OPEN ∧ LeftBy E k r.member ⟨s, act, s'⟩) ∨
        (g.isSettled ∧ ClosedLate E g.settledAt k ⟨s, act, s'⟩)) := by
  have hst := h.recordStep hL k
  rw [hk, hk'] at hst
  generalize ho : some r = o at hst
  generalize ho' : none = o' at hst
  cases hst with
  | keep =>
    rw [← ho'] at ho
    cases ho
  | join => cases ho
  | deposit => cases ho'
  | @leave ctx a cm g r₁ hact hkey hg hopen hrm hsign =>
    cases ho
    exact ⟨g, hrm.1 ▸ hg, .inl ⟨hopen, ctx, a, _, hact, hkey, hrm.2.symm, hrm.2 ▸ hsign⟩⟩
  | @close ctx a c g r₁ hact hkey hg hset hrG hend hle =>
    cases ho
    exact ⟨g, hrG ▸ hg, .inr ⟨hset, ctx, a, hact, hkey, retentionOver_of_end hend hle⟩⟩

/-- A record of a settled group is not written. -/
theorem Step.settledRecord (h : Step E s act s') (hL : Layout E s.ledger)
    (hk : s.record k = some r) (hg : s.group r.group = some g) (hs : g.isSettled) :
    s'.record k = some r ∨ s'.record k = none := by
  have hst := h.recordStep hL k
  rw [hk] at hst
  generalize ho : some r = o at hst
  generalize s'.record k = o' at hst
  cases hst with
  | keep => exact .inl rfl
  | join => cases ho
  | leave => exact .inr rfl
  | close => exact .inr rfl
  | deposit _ _ hg₁ ha hrm =>
    cases ho
    obtain rfl := Option.some.inj (hg.symm.trans (hrm.1 ▸ hg₁))
    exact absurd hs (not_settled_of_active ha)

omit [DecidableEq K] in
theorem StatusMove.settled {a b : UInt8} (h : StatusMove a b)
    (ha : a = STATUS_COMPLETED ∨ a = STATUS_CANCELLED) : b = a := by
  cases h with
  | stay => rfl
  | _ => exact absurd ha (by decide)

/-- What a settlement does to the group and leaves of its records. -/
theorem Step.settlement (h : Step E s act s') (hL : Layout E s.ledger)
    (hs : act.Is (Call.settlesGroup G)) :
    ∃ ctx c events g g', act = .call ctx c events ∧ s.group G = some g ∧ ¬g.isSettled ∧
      s'.group G = some g' ∧ g'.isSettled ∧ g'.settledAt = ctx.unixTimestamp ∧
      g'.currentMembers = g.currentMembers ∧ s'.record = s.record := by
  cases h with
  | outside => exact hs.elim
  | @call ctx c _ _ events hexec =>
    cases execute_effect hL hexec with
    | @distribute a _ g _ _ _ _ h hp =>
      obtain rfl : a.groupConfig = G := hs
      have hgrp : s'.group a.groupConfig = some (g.completed ctx.unixTimestamp) :=
        (congrFun (congrArg Ledger.group h.post) _).trans (update_self ..)
      exact ⟨ctx, _, events, g, _, rfl, h.group, not_settled_of_active hp.active, hgrp,
        GroupConfig.completed_isSettled .., rfl, rfl, congrArg Ledger.record h.post⟩
    | @emergencyCancel a _ g _ _ _ _ _ _ h hp =>
      obtain rfl : a.groupConfig = G := hs
      have hgrp : s'.group a.groupConfig = some (g.cancelled ctx.unixTimestamp) :=
        (congrFun (congrArg Ledger.group h.post) _).trans (update_self ..)
      exact ⟨ctx, _, events, g, _, rfl, h.group,
        hp.status.elim not_settled_of_open not_settled_of_active, hgrp,
        GroupConfig.cancelled_isSettled .., rfl, rfl, congrArg Ledger.record h.post⟩
    | _ => exact hs.elim

/-! ## A whole run -/

/-- The group at `G` is settled at `settledAt`, and the record at `k` of that group is `r`. -/
def Retained (G : K) (settledAt : Int64) (k : K) (r : MemberRecord K) (s : State K) : Prop :=
  s.record k = some r ∧ ∃ g, s.group G = some g ∧ g.isSettled ∧ g.settledAt = settledAt

/-- A record leaves its settled group only when the retention period is over. -/
theorem Step.retained (h : Step E s act s') (hI : Inv E s.ledger) {settledAt : Int64}
    (hG : r.group = G) (hr : Retained G settledAt k r s) :
    Retained G settledAt k r s' ∨ ClosedLate E settledAt k ⟨s, act, s'⟩ := by
  obtain ⟨hk, g, hg, hs, rfl⟩ := hr
  subst hG
  rcases h.settledRecord hI.toLayout hk hg hs with hk' | hk'
  · obtain ⟨g', hg', hmove⟩ | ⟨-, -, hgone⟩ := h.lifeMove hI.toLayout hg
    · have hst : g'.isSettled := by
        unfold GroupConfig.isSettled
        rw [hmove.status.settled hs]
        exact hs
      exact .inl ⟨hk', g', hg', hst, hmove.settled hs⟩
    · obtain ⟨-, -, g', hg'⟩ := (h.inv hI).record hk'
      rw [State.ledger_group, hgone] at hg'
      cases hg'
  · obtain ⟨g₁, hg₁, ⟨hopen, -⟩ | ⟨-, hlate⟩⟩ := h.closedRecord hI.toLayout hk hk'
    · obtain rfl := Option.some.inj (hg.symm.trans hg₁)
      exact absurd hs (not_settled_of_open hopen)
    · obtain rfl := Option.some.inj (hg.symm.trans hg₁)
      exact .inr hlate

/-- A record of a group stays as it was at the settlement until it is closed late. -/
theorem record_retained {newer older : List (StepEntry K)} {x : StepEntry K} (hr : Reached E h s)
    (hh : h = newer ++ x :: older) {settledAt : Int64} (hG : r.group = G)
    (hx : Retained G settledAt k r x.post) :
    Retained G settledAt k r s ∨
      ∃ y ∈ newer, y.pre.record k = some r ∧ ClosedLate E settledAt k y := by
  refine (hr.since hh hx).imp_right fun ⟨y, hy, hpre, hpost⟩ => ⟨y, hy, hpre.1, ?_⟩
  obtain ⟨hst, h', hr'⟩ := hr.mem (hh ▸ List.mem_append_left _ hy)
  exact (hst.retained (Reached.inv hr') hG hpre).resolve_left hpost

/-- A group with a member has an open record. -/
theorem Inv.exists_record (hI : Inv E s.ledger) (hg : s.group G = some g)
    (h1 : 1 ≤ g.currentMembers) : ∃ k r, s.record k = some r ∧ r.group = G := by
  obtain ⟨p, hp⟩ := hI.custody hg
  have h1 := UInt8.le_iff_toNat_le.1 h1
  have hpos : 0 < p.members.card := by
    rw [hp.count]
    exact h1
  obtain ⟨k, hk⟩ := Finset.card_pos.1 hpos
  obtain ⟨r, hr, hG⟩ := (hp.mem hI.toLayout).1 hk
  exact ⟨k, r, hr, hG⟩

/-- A group with an open record is neither closed nor created. -/
theorem Step.not_renewed (h : Step E s act s') (hI : Inv E s.ledger) (hk : s.record k = some r) :
    ¬act.Is (Call.closes r.group) ∧ ¬act.Is (Call.creates r.group) := by
  obtain ⟨-, -, g, hg⟩ := hI.record hk
  obtain ⟨hc, ⟨hcl, -⟩ | ⟨-, -, -, h0⟩⟩ := h.group hI.toLayout hg
  · exact ⟨hcl, hc⟩
  · exact absurd rfl (hI.no_records hg h0 hk)

/-- In every run, a record is closed only by its member leaving the open group, or by
`close_member_record` when the retention period after the settlement is over. After a settlement
each record keeps its data until then, and a group settled with a member is neither closed nor
created again before some instruction has run at such a time. -/
theorem results_retained (hr : Reached E h s) :
    (∀ e ∈ h, ∀ k r, e.pre.record k = some r → e.post.record k = none →
      ∃ g, e.pre.group r.group = some g ∧
        ((g.status = STATUS_OPEN ∧ LeftBy E k r.member e) ∨
          (g.isSettled ∧ ClosedLate E g.settledAt k e))) ∧
    ∀ newer x older G, h = newer ++ x :: older → Did (Call.settlesGroup G) x →
      ∃ ctx c events g₀ g, x.act = .call ctx c events ∧ x.pre.group G = some g₀ ∧
        x.post.group G = some g ∧ g.isSettled ∧ g.settledAt = ctx.unixTimestamp ∧
        x.post.record = x.pre.record ∧
        (∀ k r, x.post.record k = some r → r.group = G →
          s.record k = some r ∨
            ∃ y ∈ newer, y.pre.record k = some r ∧ ClosedLate E g.settledAt k y) ∧
        (1 ≤ g₀.currentMembers → ∀ later y before, newer = later ++ y :: before →
          Did (Call.closes G) y ∨ Did (Call.creates G) y →
          ∃ z ∈ before, ∃ k, ClosedLate E g.settledAt k z) := by
  refine ⟨fun e he k r hk hk' => ?_, fun newer x older G hh hx => ?_⟩
  · obtain ⟨hst, h', hr'⟩ := hr.mem he
    exact hst.closedRecord (Reached.inv hr').toLayout hk hk'
  obtain ⟨hold, hst⟩ := hr.older hh
  have hI := Reached.inv hold
  obtain ⟨ctx, c, events, g₀, g, hact, hg₀, -, hg, hs, hat, hcm, hrec⟩ := hst.settlement hI.toLayout hx
  refine ⟨ctx, c, events, g₀, g, hact, hg₀, hg, hs, hat, hrec, fun k r hk hG => ?_,
    fun h1 later y before hnewer hy => ?_⟩
  · exact (record_retained hr hh hG ⟨hk, g, hg, hs, rfl⟩).imp_left And.left
  · have hsplit : h = later ++ y :: (before ++ x :: older) := by
      rw [hh, hnewer, List.append_assoc, List.cons_append]
    obtain ⟨hbefore, hsty⟩ := hr.older hsplit
    obtain ⟨k, r, hk, hG⟩ := (hst.inv hI).exists_record hg (hcm ▸ h1)
    rcases record_retained hbefore rfl hG ⟨hk, g, hg, hs, rfl⟩ with hret | ⟨z, hz, -, hlate⟩
    · have hno := hsty.not_renewed (Reached.inv hbefore) hret.1
      rw [hG] at hno
      exact absurd hy (not_or.2 hno)
    · exact ⟨z, hz, k, hlate⟩

/-- A run that settles the group of two members. -/
theorem results_retained_settled : ∃ newer x older s, Reached symbolic (newer ++ x :: older) s ∧
    Did (Call.settlesGroup Demo.G) x ∧ ∃ g k r, x.post.group Demo.G = some g ∧ g.isSettled ∧
      x.post.record k = some r ∧ r.group = Demo.G ∧
      (s.record k = some r ∨
        ∃ y ∈ newer, y.pre.record k = some r ∧ ClosedLate symbolic g.settledAt k y) := by
  obtain ⟨h, s, hr, hs⟩ := replay_exists
    (Demo.started ++ [(Demo.tx [9] 1209600, Demo.distribute [1, 2])]) (world_genesis 10000 100)
    (fun h s => h.any fun x => decide (Did (Call.settlesGroup Demo.G) x) &&
      (x.post.record (Demo.record 1)).any fun r => r.group == Demo.G) (by decide +kernel)
  simp only [List.any_eq_true, Bool.and_eq_true, decide_eq_true_eq, Option.any_eq_true,
    beq_iff_eq] at hs
  obtain ⟨x, hx, hdid, r, hk, hG⟩ := hs
  obtain ⟨newer, older, rfl⟩ := List.append_of_mem hx
  obtain ⟨ctx, c, events, g₀, g, -, -, hg, hset, -, -, hret, -⟩ :=
    (results_retained hr).2 newer x older Demo.G rfl hdid
  exact ⟨newer, x, older, s, hr, hdid, g, Demo.record 1, r, hg, hset, hk, hG, hret _ r hk hG⟩

end SafeNudge
