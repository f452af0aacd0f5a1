import Mathlib.Data.Set.Card
import SafeNudge.Invariant.Trace
import SafeNudge.Model.Symbolic

/-!
# The lifecycle of a group

`Effect.phaseStep` lists what a call can do to the group it names; every other statement about the
status, the clocks and the frozen fields of a group is read off this list. `lifecycle` collects
them: the moves of the status, what each status implies, that an active group keeps its members,
and that a group is settled once and keeps the fields of its creation until it is closed.
-/

namespace SafeNudge

open Lib Function

variable {K : Type}

/-- Settles the group. -/
def Call.settlesGroup (G : K) : Call K → Prop
  | .distribute a _ => a.groupConfig = G
  | .emergencyCancel a _ => a.groupConfig = G
  | _ => False

instance [DecidableEq K] (G : K) : DecidablePred (Call.settlesGroup G)
  | .distribute a .. | .emergencyCancel a .. => inferInstanceAs (Decidable (a.groupConfig = G))
  | .createGroup .. | .joinGroup .. | .leaveGroup _ | .startCycle _ | .deposit _ |
    .refundVaultRent _ | .closeMemberRecord _ | .closeGroup _ | .closeJoinTally .. |
    .setJoinAuthority .. => inferInstanceAs (Decidable False)

theorem Call.settlesGroup_groupKey {G : K} {c : Call K} (h : c.settlesGroup G) :
    c.groupKey = G := by
  cases c <;> first | exact h | exact h.elim

/-- The moves of the status. -/
inductive StatusMove : UInt8 → UInt8 → Prop where
  | stay (status : UInt8) : StatusMove status status
  | start : StatusMove STATUS_OPEN STATUS_ACTIVE
  | complete : StatusMove STATUS_ACTIVE STATUS_COMPLETED
  | cancelOpen : StatusMove STATUS_OPEN STATUS_CANCELLED
  | cancelActive : StatusMove STATUS_ACTIVE STATUS_CANCELLED

variable [DecidableEq K] {E : Env K} {ctx : Ctx K} {L L' : Ledger K} {events : List (Event K)}
  {c : Call K}

/-- What a call does to the group it names. -/
inductive PhaseStep (E : Env K) (ctx : Ctx K) (c : Call K) :
    Option (GroupConfig K) → Option (GroupConfig K) → Prop where
  | create {a : CreateGroup K} {groupCode : String} {depositAmount : UInt64}
      {frequency totalPeriods maxMembers bump vaultBump : UInt8} :
      c = .createGroup a groupCode depositAmount frequency totalPeriods maxMembers →
      E.findProgramAddress (.group groupCode) = some (a.groupConfig, bump) →
      E.findProgramAddress (.vault a.groupConfig) = some (a.vault, vaultBump) →
      PhaseStep E ctx c none (some (a.newGroup groupCode depositAmount frequency totalPeriods
        maxMembers bump vaultBump))
  | count {g : GroupConfig K} (currentMembers : UInt8) : g.status = STATUS_OPEN ∨ g.isSettled →
      ¬c.settlesGroup c.groupKey → PhaseStep E ctx c (some g) (some { g with currentMembers })
  | keep {g : GroupConfig K} : ¬c.settlesGroup c.groupKey → PhaseStep E ctx c (some g) (some g)
  | start {g : GroupConfig K} : g.status = STATUS_OPEN → ¬c.settlesGroup c.groupKey →
      PhaseStep E ctx c (some g)
        (some { g with status := STATUS_ACTIVE, cycleStart := ctx.unixTimestamp })
  | complete {g : GroupConfig K} : g.status = STATUS_ACTIVE → c.settlesGroup c.groupKey →
      PhaseStep E ctx c (some g) (some (g.completed ctx.unixTimestamp))
  | cancel {g : GroupConfig K} : g.status = STATUS_OPEN ∨ g.status = STATUS_ACTIVE →
      c.settlesGroup c.groupKey → PhaseStep E ctx c (some g) (some (g.cancelled ctx.unixTimestamp))
  | close {g : GroupConfig K} : c.closes c.groupKey → g.isSettled → PhaseStep E ctx c (some g) none
  | absent : PhaseStep E ctx c none none

theorem Effect.phaseStep (h : Effect E ctx L L' events c) :
    PhaseStep E ctx c (L.group c.groupKey) (L'.group c.groupKey) := by
  cases h with
  | createGroup h =>
    obtain ⟨p, m, b, vb, n₁, n₂, -, -, hG, hV, -, -, -, rfl⟩ := h.post
    simp only [Call.groupKey, update_self, h.unused.1]
    exact .create rfl hG hV
  | joinGroup h =>
    obtain ⟨p, mt, vt, b, cm, joins, -, -, -, -, -, -, -, -, -, -, -, rfl, -⟩ := h.post
    simp only [Call.groupKey, update_self, h.group]
    exact .count cm (.inl h.isOpen) id
  | leaveGroup h =>
    obtain ⟨p, mt, vt, cm, -, -, -, -, -, -, -, -, -, rfl, -⟩ := h.post
    simp only [Call.groupKey, update_self, h.group]
    exact .count cm (.inl h.isOpen) id
  | startCycle h =>
    rw [h.post]
    simp only [Call.groupKey, update_self, h.group, h.group']
    exact .start h.isOpen id
  | deposit h =>
    obtain ⟨p, mt, vt, -, -, -, -, -, -, -, -, hpost⟩ := h.post
    rw [hpost]
    simp only [Call.groupKey, h.group]
    exact .keep id
  | distribute h hP =>
    rw [h.post]
    simp only [Call.groupKey, update_self, h.group]
    exact .complete hP.active rfl
  | emergencyCancel _ h hP =>
    rw [h.post]
    simp only [Call.groupKey, update_self, h.group]
    exact .cancel hP.status rfl
  | refundVaultRent h =>
    rw [h.post]
    simp only [Call.groupKey, h.group]
    exact .keep id
  | closeMemberRecord h =>
    obtain ⟨cm, -, rfl⟩ := h.post
    simp only [Call.groupKey, update_self, h.group]
    exact .count cm (.inr h.settled) id
  | closeGroup h =>
    obtain ⟨n, -, rfl, -⟩ := h.post
    simp only [Call.groupKey, update_self, h.group]
    exact .close rfl h.settled
  | closeJoinTally h =>
    rw [h.post]
    simp only [Call.groupKey, h.closed]
    exact .absent
  | setJoinAuthority h =>
    obtain ⟨n, -, -, rfl⟩ := h.post
    simp only [Call.groupKey, h.group]
    exact .keep id

/-! ## One step -/

/-- The addresses of the open records of a group. -/
def State.recordsOf (s : State K) (G : K) : Set K := {k | ∃ r, s.record k = some r ∧ r.group = G}

/-- The count of a group is the number of its open records. -/
theorem Inv.card_records {s : State K} {G : K} {g : GroupConfig K} (hI : Inv E s.ledger)
    (hg : s.group G = some g) :
    (s.recordsOf G).Finite ∧ (s.recordsOf G).ncard = g.currentMembers.toNat := by
  obtain ⟨p, hp⟩ := hI.custody hg
  have hset : s.recordsOf G = p.members := by
    ext k
    rw [Finset.mem_coe, hp.mem hI.toLayout]
    rfl
  rw [hset, Set.ncard_coe_finset, hp.count]
  exact ⟨Finset.finite_toSet _, rfl⟩

/-- What a step leaves of a live group that stays. -/
structure LifeMove (s s' : State K) (G : K) (g g' : GroupConfig K) : Prop where
  instance_eq : g.SameInstance g'
  status : StatusMove g.status g'.status
  settled : g.isSettled → g'.settledAt = g.settledAt
  active : g.status = STATUS_ACTIVE → g'.currentMembers = g.currentMembers ∧
    g'.cycleStart = g.cycleStart ∧ s'.recordsOf G = s.recordsOf G

section
variable {s s' : State K} {act : Action K} {G : K} {g g' : GroupConfig K}

/-- The open records of an active group stay, whatever instruction runs. -/
theorem Effect.recordsOf_active (hL : Layout E s.ledger) (h : Effect E ctx s.ledger s'.ledger events c)
    (hg : s.group G = some g) (ha : g.status = STATUS_ACTIVE) : s'.recordsOf G = s.recordsOf G := by
  have hno := not_settled_of_active ha
  have hno' : g.status ≠ STATUS_OPEN := by
    rw [ha]
    decide
  have keep : s'.ledger.record = s.ledger.record → s'.recordsOf G = s.recordsOf G := fun he => by
    simp only [State.recordsOf, ← State.ledger_record, he]
  by_cases hcG : c.groupKey = G
  swap
  · have hf := h.frame hL
    ext k
    constructor <;> rintro ⟨r, hr, hG⟩
    · exact ⟨r, (hf.record (hG ▸ Ne.symm hcG)).1 hr, hG⟩
    · exact ⟨r, (hf.record (hG ▸ Ne.symm hcG)).2 hr, hG⟩
  subst hcG
  cases h with
  | createGroup h =>
    have hnone := h.unused.1
    rw [State.ledger_group] at hnone
    rw [Call.groupKey, hnone] at hg
    cases hg
  | joinGroup h =>
    obtain rfl := Option.some.inj (hg.symm.trans h.group)
    exact absurd h.isOpen hno'
  | leaveGroup h =>
    obtain rfl := Option.some.inj (hg.symm.trans h.group)
    exact absurd h.isOpen hno'
  | closeMemberRecord h =>
    obtain rfl := Option.some.inj (hg.symm.trans h.group)
    exact absurd h.settled hno
  | @deposit a _ r h =>
    obtain ⟨duration, ce, period, r', -, -, -, -, hmark, hrec, -⟩ := h.period
    obtain ⟨-, made, total, -, -, rfl⟩ := MemberRecord.mark_eq_ok.1 hmark
    ext k
    simp only [State.recordsOf, ← State.ledger_record, hrec, Set.mem_ofPred_eq]
    by_cases hk : k = a.memberRecord
    · subst hk
      simp [h.record, h.record_eq.1, Call.groupKey]
    · rw [update_of_ne hk]
  | startCycle h => exact keep (by rw [h.post])
  | distribute h => exact keep (by rw [h.post])
  | emergencyCancel _ h => exact keep (by rw [h.post])
  | refundVaultRent h => exact keep (by rw [h.post])
  | closeGroup h =>
    obtain ⟨n, -, hpost, -⟩ := h.post
    exact keep (by rw [hpost])
  | closeJoinTally h => exact keep (by rw [h.post])
  | setJoinAuthority h =>
    obtain ⟨n, -, -, hpost⟩ := h.post
    exact keep (by rw [hpost])

/-- A live group moves along, or it is settled and closed. -/
theorem Step.lifeMove (h : Step E s act s') (hL : Layout E s.ledger) (hg : s.group G = some g) :
    (∃ g', s'.group G = some g' ∧ LifeMove s s' G g g') ∨
      (act.Is (Call.closes G) ∧ g.isSettled ∧ s'.group G = none) := by
  cases h with
  | outside hout =>
    refine .inl ⟨g, (congrFun hout.group G).trans hg, .refl g, .stay _, fun _ => rfl,
      fun _ => ⟨rfl, rfl, ?_⟩⟩
    have hrec : s'.record = s.record := hout.record
    simp only [State.recordsOf, hrec]
  | @call ctx c _ _ events hexec =>
    have he := execute_effect hL hexec
    have hrec := fun ha => he.recordsOf_active hL hg ha
    by_cases hcG : c.groupKey = G
    swap
    · exact .inl ⟨g, ((he.frame hL).group (Ne.symm hcG)).trans hg, .refl g, .stay _, fun _ => rfl,
        fun ha => ⟨rfl, rfl, hrec ha⟩⟩
    subst hcG
    have hph := he.phaseStep
    rw [State.ledger_group, State.ledger_group, hg] at hph
    generalize hg' : s'.group c.groupKey = o at hph
    cases hph with
    | count cm hst =>
      refine .inl ⟨_, rfl, rfl, .stay _, fun _ => rfl, fun ha => ?_⟩
      rcases hst with ho | hs
      · rw [ha] at ho
        cases ho
      · exact absurd hs (not_settled_of_active ha)
    | keep => exact .inl ⟨g, rfl, .refl g, .stay _, fun _ => rfl, fun ha => ⟨rfl, rfl, hrec ha⟩⟩
    | start ho =>
      refine .inl ⟨_, rfl, rfl, ?_, fun hs => absurd hs (not_settled_of_open ho), fun ha => ?_⟩
      · rw [ho]
        exact .start
      · rw [ha] at ho
        cases ho
    | complete ha =>
      refine .inl ⟨_, rfl, rfl, ?_, fun hs => absurd hs (not_settled_of_active ha),
        fun ha => ⟨rfl, rfl, hrec ha⟩⟩
      rw [ha]
      exact .complete
    | cancel hst =>
      refine .inl ⟨_, rfl, rfl, ?_, fun hs => ?_, fun ha => ⟨rfl, rfl, hrec ha⟩⟩
      · rcases hst with h | h <;> rw [h]
        exacts [.cancelOpen, .cancelActive]
      · exact absurd hs (hst.elim not_settled_of_open not_settled_of_active)
    | close hc hs => exact .inr ⟨hc, hs, rfl⟩

end

/-! ## A whole instance -/

/-- The settlements of a group among some steps. -/
def settlements (G : K) (l : List (StepEntry K)) : List (StepEntry K) :=
  l.filter fun e => decide (Did (Call.settlesGroup G) e)

/-- The group at `G` is the one created in `e`, settled at most once in the steps `newer` since. -/
structure Instance (E : Env K) (G : K) (g : GroupConfig K) (newer : List (StepEntry K))
    (e : StepEntry K) : Prop where
  created : ∃ ctx a groupCode depositAmount frequency totalPeriods maxMembers bump vaultBump events,
    e.act = .call ctx (.createGroup a groupCode depositAmount frequency totalPeriods maxMembers)
      events ∧ a.groupConfig = G ∧
    E.findProgramAddress (.group groupCode) = some (G, bump) ∧
    E.findProgramAddress (.vault G) = some (a.vault, vaultBump) ∧
    (a.newGroup groupCode depositAmount frequency totalPeriods maxMembers bump
      vaultBump).SameInstance g
  isOpen : g.status = STATUS_OPEN → g.cycleStart = 0
  unsettled : ¬g.isSettled → g.settledAt = 0 ∧ settlements G newer = []
  settled : g.isSettled → ∃ x ctx c events, settlements G newer = [x] ∧
    x.act = .call ctx c events ∧ g.settledAt = ctx.unixTimestamp

section
variable {s s' : State K} {act : Action K} {G : K} {g g' : GroupConfig K} {e : StepEntry K}
  {newer : List (StepEntry K)}

omit [DecidableEq K] in
theorem GroupConfig.SameInstance.trans {g₁ g₂ g₃ : GroupConfig K} (h : g₁.SameInstance g₂)
    (h' : g₂.SameInstance g₃) : g₁.SameInstance g₃ := by
  unfold GroupConfig.SameInstance at *
  rw [h', h]

theorem settlements_cons_of_not {x : StepEntry K} (h : ¬Did (Call.settlesGroup G) x) :
    settlements G (x :: newer) = settlements G newer := by
  simp [settlements, h]

/-- A step that does not settle the group. -/
theorem Instance.cons (h : Instance E G g newer e) {x : StepEntry K}
    (hx : ¬Did (Call.settlesGroup G) x) (hi : g.SameInstance g')
    (ho : g'.status = STATUS_OPEN → g'.cycleStart = 0) (hs : g'.isSettled ↔ g.isSettled)
    (hat : g'.settledAt = g.settledAt) : Instance E G g' (x :: newer) e := by
  obtain ⟨ctx, a, code, d, f, n, m, b, vb, events, hact, haG, hG, hV, hc⟩ := h.created
  refine ⟨⟨ctx, a, code, d, f, n, m, b, vb, events, hact, haG, hG, hV, hc.trans hi⟩, ho,
    fun hns => ?_, fun hset => ?_⟩
  · rw [settlements_cons_of_not hx, hat]
    exact h.unsettled fun h' => hns (hs.2 h')
  · rw [settlements_cons_of_not hx, hat]
    exact h.settled (hs.1 hset)

/-- The settlement. -/
theorem Instance.settle (h : Instance E G g newer e) (hns : ¬g.isSettled) {s s' : State K}
    (hx : c.settlesGroup G) (hi : g.SameInstance g') (hs : g'.isSettled)
    (hat : g'.settledAt = ctx.unixTimestamp) :
    Instance E G g' (⟨s, .call ctx c events, s'⟩ :: newer) e := by
  obtain ⟨ctx', a, code, d, f, n, m, b, vb, events', hact, haG, hG, hV, hc⟩ := h.created
  refine ⟨⟨ctx', a, code, d, f, n, m, b, vb, events', hact, haG, hG, hV, hc.trans hi⟩,
    fun ho => absurd hs (not_settled_of_open ho), fun h' => absurd hs h', fun _ =>
      ⟨⟨s, .call ctx c events, s'⟩, ctx, c, events, ?_, rfl, hat⟩⟩
  have hd : Did (Call.settlesGroup G) (⟨s, .call ctx c events, s'⟩ : StepEntry K) := hx
  rw [settlements, List.filter_cons_of_pos (by simpa using hd), ← settlements,
    (h.unsettled hns).2]

theorem Step.instance (h : Step E s act s') (hL : Layout E s.ledger) (hg : s.group G = some g)
    (hg' : s'.group G = some g') (hi : Instance E G g newer e) :
    Instance E G g' (⟨s, act, s'⟩ :: newer) e := by
  cases h with
  | outside hout =>
    have := (congrFun hout.group G).symm.trans hg'
    obtain rfl := Option.some.inj (hg.symm.trans this)
    exact hi.cons id (.refl g) hi.isOpen .rfl rfl
  | @call ctx c _ _ events hexec =>
    have he := execute_effect hL hexec
    by_cases hcG : c.groupKey = G
    swap
    · have := ((he.frame hL).group (Ne.symm hcG)).symm.trans hg'
      obtain rfl := Option.some.inj (hg.symm.trans this)
      exact hi.cons (fun hc => hcG (Call.settlesGroup_groupKey hc)) (.refl g) hi.isOpen .rfl rfl
    subst hcG
    have hph := he.phaseStep
    rw [State.ledger_group, State.ledger_group, hg, hg'] at hph
    generalize ho : some g = o at hph
    generalize ho' : some g' = o' at hph
    cases hph with
    | create => cases ho
    | close => cases ho'
    | absent => cases ho
    | count cm hst hc =>
      cases ho
      cases ho'
      exact hi.cons hc rfl hi.isOpen .rfl rfl
    | keep hc =>
      cases ho
      cases ho'
      exact hi.cons hc rfl hi.isOpen .rfl rfl
    | start hopen hc =>
      cases ho
      cases ho'
      exact hi.cons hc rfl nofun
        ⟨fun h => absurd h (not_settled_of_active rfl), fun h => absurd h (not_settled_of_open hopen)⟩
        rfl
    | complete ha hc =>
      cases ho
      cases ho'
      exact hi.settle (not_settled_of_active ha) hc rfl (GroupConfig.completed_isSettled ..) rfl
    | cancel hst hc =>
      cases ho
      cases ho'
      exact hi.settle (hst.elim not_settled_of_open not_settled_of_active) hc rfl
        (GroupConfig.cancelled_isSettled ..) rfl

/-- The history of every live group. -/
theorem instance_of_reached {h : List (StepEntry K)} (hr : Reached E h s) (hg : s.group G = some g) :
    ∃ newer e, Latest (Did (Call.creates G)) h newer e ∧ Instance E G g newer e := by
  induction hr generalizing g with
  | start h0 => exact absurd (by rw [State.group_eq_some.1 hg]; trivial) (h0.program G)
  | @snoc h s s' act hr hst ih =>
    have hL := (Reached.inv hr).toLayout
    cases hn : s.group G with
    | none =>
      obtain ⟨hc, -, hopen⟩ := hst.group_new hL hg hn
      refine ⟨[], _, .here hc, ?_⟩
      cases hst with
      | outside => exact hc.elim
      | @call ctx c _ _ events hexec =>
        cases execute_effect hL hexec with
        | @createGroup a code d f n m h =>
          obtain ⟨p, mt, b, vb, n₁, n₂, -, -, hG, hV, -, -, -, hpost⟩ := h.post
          have haG : a.groupConfig = G := hc
          subst haG
          have hgrp : s'.group a.groupConfig = some (a.newGroup code d f n m b vb) :=
            (congrFun (congrArg Ledger.group hpost) _).trans (update_self ..)
          obtain rfl := Option.some.inj (hg.symm.trans hgrp)
          exact ⟨⟨ctx, a, code, d, f, n, m, b, vb, events, rfl, rfl, hG, hV, .refl _⟩, fun _ => rfl,
            fun _ => ⟨rfl, rfl⟩, fun hs => absurd hs (not_settled_of_open hopen)⟩
        | _ => exact hc.elim
    | some g₀ =>
      obtain ⟨hnc, ⟨-, g₁, hg₁, -⟩ | ⟨-, hgone, -⟩⟩ := hst.group hL hn
      swap
      · rw [hg] at hgone
        cases hgone
      obtain ⟨newer, e, hlat, hi⟩ := ih hn
      exact ⟨_ :: newer, e, hlat.cons hnc, hst.instance hL hn hg hi⟩

/-- The vault account is there until the settlement. -/
theorem Inv.vault_iff (hI : Inv E s.ledger) (hg : s.group G = some g) {V : K} {b : UInt8}
    (hV : E.createProgramAddress (.vault G) b = some V) (hb : b = g.vaultBump) :
    (s.token V).isSome ↔ ¬g.isSettled := by
  subst hb
  constructor
  · intro ht
    obtain ⟨x, ht⟩ := Option.isSome_iff_exists.1 ht
    obtain ⟨-, G', g', hseeds, -, hg', hns⟩ := hI.token hV (p := x.1) (t := x.2) ht
    obtain rfl : G = G' := by simpa using hseeds
    obtain rfl := Option.some.inj (hg.symm.trans hg')
    exact hns
  · intro hns
    obtain ⟨V', hV', hheld⟩ := hI.vault hg
    obtain rfl := Option.some.inj ((Env.findProgramAddress_create hV').symm.trans hV)
    obtain ⟨p, t, ht, -⟩ := hheld hns
    rw [State.ledger_token] at ht
    rw [ht]
    rfl

end

/-- In every run, each step moves a live group along its lifecycle or closes it settled; and in
every reachable state a live group is the instance of its last creation, settled at most once, with
the clocks, the members and the vault its status calls for. -/
theorem lifecycle {h : List (StepEntry K)} {s : State K} (hr : Reached E h s) :
    (∀ x ∈ h, ∀ G g, x.pre.group G = some g →
      (∃ g', x.post.group G = some g' ∧ LifeMove x.pre x.post G g g') ∨
        (Did (Call.closes G) x ∧ g.isSettled ∧ x.post.group G = none)) ∧
    ∀ G g, s.group G = some g →
      (g.status = STATUS_OPEN → g.cycleStart = 0 ∧ g.settledAt = 0) ∧
      (g.status = STATUS_ACTIVE → g.settledAt = 0 ∧ 2 ≤ g.currentMembers ∧
        g.currentMembers ≤ g.maxMembers ∧ ∃ c, g.cycleEnd E = .ok c) ∧
      (∀ V, E.createProgramAddress (.vault G) g.vaultBump = some V →
        ((s.token V).isSome ↔ g.status = STATUS_OPEN ∨ g.status = STATUS_ACTIVE)) ∧
      ∃ newer e, Latest (Did (Call.creates G)) h newer e ∧ Instance E G g newer e := by
  constructor
  · intro x hx G g hg
    obtain ⟨hst, h', hr'⟩ := hr.mem hx
    exact hst.lifeMove (Reached.inv hr').toLayout hg
  · intro G g hg
    have hI := Reached.inv hr
    have hok := hI.group hg
    obtain ⟨newer, e, hlat, hi⟩ := instance_of_reached hr hg
    refine ⟨fun ho => ⟨hi.isOpen ho, (hi.unsettled (not_settled_of_open ho)).1⟩, fun ha =>
      ⟨(hi.unsettled (not_settled_of_active ha)).1, (hok.active ha).1, hok.room, (hok.active ha).2⟩,
      fun V hV => ?_, newer, e, hlat, hi⟩
    rw [hI.vault_iff hg hV rfl]
    constructor
    · intro hns
      rcases hok.status with ho | ha | hs
      exacts [.inl ho, .inr ha, absurd hs hns]
    · exact fun hs => hs.elim not_settled_of_open not_settled_of_active

/-- An active group of two members. -/
theorem lifecycle_started : ∃ h s g newer e, Reached symbolic h s ∧ s.group Demo.G = some g ∧
    g.status = STATUS_ACTIVE ∧ 2 ≤ g.currentMembers ∧ (s.token Demo.V).isSome ∧
    Latest (Did (Call.creates Demo.G)) h newer e ∧ Instance symbolic Demo.G g newer e := by
  obtain ⟨h, s, hr, hs⟩ := replay_exists Demo.started (world_genesis 10000 100)
    (fun _ s => (s.group Demo.G).any fun g => g.status == STATUS_ACTIVE && g.vaultBump == 255)
    (by decide +kernel)
  simp only [Option.any_eq_true, Bool.and_eq_true, beq_iff_eq] at hs
  obtain ⟨g, hg, ha, hb⟩ := hs
  obtain ⟨-, hact, hV, newer, e, hlat, hi⟩ := (lifecycle hr).2 Demo.G g hg
  have hV := hV Demo.V (by rw [hb]; exact Env.findProgramAddress_create (symbolic_findProgramAddress _))
  exact ⟨h, s, g, newer, e, hr, hg, ha, (hact ha).2.1, hV.2 (.inr ha), hlat, hi⟩

end SafeNudge
