import SafeNudge.Invariant.Flow
import SafeNudge.Lib.Flags
import SafeNudge.Model.Symbolic
import SafeNudge.Property.Lifecycle

/-!
# The redundant fields of a member record

The counter, the flags and the total of a record always say the same (`MemberRecord.Consistent`):
a join writes them so, a deposit marks one flag that was not set (`Consistent.mark`), and nothing
else writes them. `member_ledger` adds the history: the marked periods are those charged since the
latest join, each once.
-/

namespace SafeNudge

open Lib Function

variable {K : Type} [DecidableEq K] {E : Env K} {h : List (StepEntry K)} {s s' : State K}

/-- The fields of a record in a group agree. -/
structure MemberRecord.Consistent (g : GroupConfig K) (r : MemberRecord K) : Prop where
  made : r.depositsMade.toNat = r.periodsDeposited.count true
  first : r.periodsDeposited[0] = true
  range : ∀ i (hi : i < 52), r.periodsDeposited[i] = true → i < g.totalPeriods.toNat
  total : r.totalDeposited.toNat = r.depositsMade.toNat * g.depositAmount.toNat
  isOpen : g.status = STATUS_OPEN → r.depositsMade = 1

/-- The period of a deposit of `M` in the group at `G`. -/
def Event.period? (G M : K) : Event K → Option Nat
  | .depositMade group member period .. =>
    if group = G ∧ member = M then some period.toNat else none
  | _ => none

/-- The periods `M` was charged for in `deposit`. -/
def chargedPeriods (G M : K) (l : List (StepEntry K)) : List Nat :=
  (eventLog l).filterMap (Event.period? G M)

namespace MemberRecord.Consistent

variable {g g' : GroupConfig K} {r r' : MemberRecord K}

omit [DecidableEq K] in
theorem made_le (h : r.Consistent g) : r.depositsMade.toNat ≤ g.totalPeriods.toNat := by
  rw [h.made]
  exact count_le h.range

omit [DecidableEq K] in
theorem of_same (h : r.Consistent g) (hi : g.SameInstance g')
    (ho : g'.status = STATUS_OPEN → g.status = STATUS_OPEN) : r.Consistent g' := by
  have hp : g'.totalPeriods = g.totalPeriods := by rw [hi]
  have hd : g'.depositAmount = g.depositAmount := by rw [hi]
  exact ⟨h.made, h.first, hp ▸ h.range, hd ▸ h.total, fun h' => h.isOpen (ho h')⟩

omit [DecidableEq K] in
/-- The record of a join. -/
theorem newRecord {a : JoinGroup K} {b : UInt8} (hp : 1 ≤ g.totalPeriods) :
    (a.newRecord g.depositAmount b).Consistent g := by
  have hp := UInt8.le_iff_toNat_le.1 hp
  refine ⟨by simp only [JoinGroup.newRecord]; decide, rfl, fun i hi h => ?_, ?_, fun _ => rfl⟩
  · have : i = 0 := by
      by_contra hne
      simp [JoinGroup.newRecord, Ne.symm hne] at h
    subst this
    exact hp
  · simp [JoinGroup.newRecord]

omit [DecidableEq K] in
/-- The record after a deposit. -/
theorem mark {period : UInt8} (h : r.Consistent g) (ha : g.status ≠ STATUS_OPEN)
    (hp : period.toNat < g.totalPeriods.toNat) (hm : r.mark period g.depositAmount = .ok r') :
    r'.Consistent g := by
  obtain ⟨hflag, made, total, hmade, htotal, rfl⟩ := MemberRecord.mark_eq_ok.1 hm
  have hmade := checkedAdd8_eq_some hmade
  have htotal := checkedAdd64_eq_some htotal
  refine ⟨?_, (getElem_mark _).2 (.inr h.first), fun i hi hset => ?_, ?_, fun ho => absurd ho ha⟩
  · simp only [count_mark hflag]
    rw [hmade, h.made]
    rfl
  · rcases (getElem_mark hi).1 hset with rfl | hset
    · exact hp
    · exact h.range i hi hset
  · simp only [htotal, hmade, h.total]
    simp [Nat.add_mul]

end MemberRecord.Consistent

omit [DecidableEq K] in
/-- The clamp keeps the period in the cycle. -/
theorem GroupConfig.currentPeriod_lt {g : GroupConfig K} {now duration : Int64} {period : UInt8}
    (h : g.currentPeriod now duration = .ok period) : period.toNat < g.totalPeriods.toNat := by
  simp only [GroupConfig.currentPeriod, bind_eq_ok, orThrow_eq_ok, pure_eq_ok] at h
  obtain ⟨elapsed, -, last, hlast, q, -, p, -, rfl⟩ := h
  have hlast := checkedSub8_eq_some hlast
  have hle : min p last ≤ last := Std.min_le_right
  have := UInt8.le_iff_toNat_le.1 hle
  simp at hlast
  omega

/-! ## One step -/

section
variable {act : Action K} {k : K} {r : MemberRecord K} {g g' : GroupConfig K}
  {newer : List (StepEntry K)}

/-- A group that is still live has moved along. -/
theorem Step.lifeMove_of_live (h : Step E s act s') (hI : Inv E s.ledger) {G : K}
    (hg : s.group G = some g) (hg' : s'.group G = some g') : LifeMove s s' G g g' := by
  obtain ⟨g₁, hg₁, hmove⟩ | ⟨-, -, hgone⟩ := h.lifeMove hI.toLayout hg
  · obtain rfl := Option.some.inj (hg₁.symm.trans hg')
    exact hmove
  · rw [hg'] at hgone
    cases hgone

omit [DecidableEq K] in
theorem StatusMove.open_back {a b : UInt8} (h : StatusMove a b) (hb : b = STATUS_OPEN) :
    a = STATUS_OPEN := by
  cases h with
  | stay => exact hb
  | start => cases hb
  | complete => cases hb
  | cancelOpen => rfl
  | cancelActive => cases hb

/-- A step that does not name the record charges its member nothing. -/
theorem chargedPeriods_cons_of_not (h : Step E s act s') (hL : Layout E s.ledger) {G M : K}
    {b : UInt8} (hk : E.findProgramAddress (.member G M) = some (k, b))
    (hn : ¬act.Is (Call.namesRecord k)) :
    chargedPeriods G M (⟨s, act, s'⟩ :: newer) = chargedPeriods G M newer := by
  have hnone : act.emitted.reverse.filterMap (Event.period? G M) = [] := by
    refine List.filterMap_eq_nil_iff.2 fun ev hev => ?_
    have hne := h.membership_ne hL hk hn ev (List.mem_reverse.1 hev)
    cases ev with
    | depositMade group member period n m =>
      exact if_neg fun he => hne (by rw [Event.membership?, he.1, he.2])
    | _ => rfl
  simp only [chargedPeriods, eventLog, List.flatMap_cons, List.filterMap_append, hnone,
    List.nil_append]

/-- What the flags of a record say about the steps since its join. -/
structure Charged (r : MemberRecord K) (newer : List (StepEntry K)) : Prop where
  nodup : (0 :: chargedPeriods r.group r.member newer).Nodup
  marked : ∀ i (hi : i < 52),
    r.periodsDeposited[i] = true ↔ i ∈ 0 :: chargedPeriods r.group r.member newer

/-- A record in the next state, and its history. -/
theorem Step.charged (h : Step E s act s') (hI : Inv E s.ledger) (hk : s.record k = some r)
    {r' : MemberRecord K} (hk' : s'.record k = some r') (hg : s.group r.group = some g)
    (hg' : s'.group r'.group = some g') (hc : r.Consistent g) (hh : Charged r newer) :
    r'.Consistent g' ∧ r.SameMember r' ∧ Charged r' (⟨s, act, s'⟩ :: newer) := by
  have hL := hI.toLayout
  have hst := h.recordStep hL k
  rw [hk, hk'] at hst
  generalize ho : some r = o at hst
  generalize ho' : some r' = o' at hst
  cases hst with
  | keep hn =>
    obtain rfl := Option.some.inj (ho.trans ho'.symm)
    have hmove := h.lifeMove_of_live hI hg hg'
    refine ⟨hc.of_same hmove.instance_eq hmove.status.open_back, .refl r, ?_⟩
    have he := @chargedPeriods_cons_of_not _ _ _ _ _ _ _ newer h hL _ _ _ (hL.placed hk).address hn
    exact ⟨he ▸ hh.nodup, fun i hi => he ▸ hh.marked i hi⟩
  | join => cases ho
  | leave => cases ho'
  | close => cases ho'
  | @deposit ctx a g₁ r₁ r₂ duration period hact hkey hg₁ ha hrm hper hmark =>
    cases ho
    cases ho'
    subst hact
    obtain rfl := Option.some.inj (hg.symm.trans (hrm.1 ▸ hg₁))
    have hlt := g.currentPeriod_lt hper
    have hmark' := MemberRecord.mark_eq_ok.1 hmark
    obtain ⟨hflag, made, total, -, -, he⟩ := hmark'
    have hsame : r.SameMember r' := by rw [he]; rfl
    have hmove := h.lifeMove_of_live hI hg (hsame.group ▸ hg')
    have hno : g.status ≠ STATUS_OPEN := by
      rw [ha]
      decide
    refine ⟨(hc.mark hno hlt hmark).of_same hmove.instance_eq hmove.status.open_back, hsame, ?_⟩
    have hcons : chargedPeriods r'.group r'.member (⟨s, .call ctx (.deposit a)
        [.depositMade a.groupConfig a.member period g.depositAmount r'.depositsMade], s'⟩ :: newer)
        = period.toNat :: chargedPeriods r.group r.member newer := by
      simp only [chargedPeriods, eventLog, List.flatMap_cons, Action.emitted, List.reverse_singleton,
        List.singleton_append, hsame.group, hsame.member, List.filterMap_cons, Event.period?, hrm.1,
        hrm.2, and_self, if_true]
    obtain ⟨hlt52, hfalse⟩ := Vector.getElem?_eq_some_iff.1 hflag
    have hnew : period.toNat ∉ 0 :: chargedPeriods r.group r.member newer := by
      intro hm
      rw [← hh.marked _ hlt52, hfalse] at hm
      cases hm
    rw [List.mem_cons, not_or] at hnew
    refine ⟨?_, fun i hi => ?_⟩
    · rw [hcons]
      have hnd := List.nodup_cons.1 hh.nodup
      refine List.nodup_cons.2 ⟨?_, List.nodup_cons.2 ⟨hnew.2, hnd.2⟩⟩
      rw [List.mem_cons, not_or]
      exact ⟨Ne.symm hnew.1, hnd.1⟩
    · rw [hcons, he, getElem_mark hi, hh.marked i hi]
      simp only [List.mem_cons]
      exact or_left_comm

/-- The record of a join has charged no period but the first. -/
theorem charged_newRecord {a : JoinGroup K} {n : UInt64} {b : UInt8} :
    Charged (a.newRecord n b) [] := by
  refine ⟨List.nodup_singleton 0, fun i hi => ?_⟩
  by_cases h0 : i = 0
  · subst h0
    simp [JoinGroup.newRecord]
  · simp [JoinGroup.newRecord, chargedPeriods, eventLog, h0, Ne.symm h0]

end

/-- The record and its history in every reachable state. -/
theorem consistent_of_reached (hr : Reached E h s) {k : K} {r : MemberRecord K}
    (hk : s.record k = some r) : ∃ g newer e, s.group r.group = some g ∧ r.Consistent g ∧
      Latest (Did (Call.joins r.group r.member)) h newer e ∧ Charged r newer := by
  induction hr generalizing r with
  | start h0 => exact absurd (by rw [State.record_eq_some.1 hk]; trivial) (h0.program k)
  | @snoc h s s' act hr hst ih =>
    have hI := Reached.inv hr
    have hL := hI.toLayout
    obtain ⟨-, -, g', hg'⟩ := (Reached.inv (.snoc hr hst)).record hk
    cases hn : s.record k with
    | none =>
      have hstep := hst.recordStep hL k
      rw [hn, hk] at hstep
      generalize ho : none = o at hstep
      generalize ho' : some r = o' at hstep
      cases hstep with
      | keep => rw [← ho'] at ho; cases ho
      | deposit => cases ho
      | leave => cases ho
      | close => cases ho
      | @join ctx a terms expected cm b joins g hact hkey hg hopen =>
        cases ho'
        subst hact
        have hmove := hst.lifeMove_of_live hI hg hg'
        exact ⟨g', [], _, hg', (MemberRecord.Consistent.newRecord
          (hI.group hg).periods.1).of_same hmove.instance_eq hmove.status.open_back,
          .here ⟨rfl, rfl⟩, charged_newRecord⟩
    | some r₀ =>
      obtain ⟨g, newer, e, hg, hc, hlat, hh⟩ := ih hn
      obtain ⟨hc', hsame, hh'⟩ := hst.charged hI hn hk hg hg' hc hh
      refine ⟨g', _, e, hg', hc', ?_, hh'⟩
      rw [hsame.group, hsame.member]
      exact hlat.cons (hst.not_joins hL hn)

/-- The stake of a record is in the vault. -/
theorem Inv.deposit_le_vault (hI : Inv E s.ledger) {G V k : K} {g : GroupConfig K}
    {r : MemberRecord K} (hg : s.group G = some g) (hns : ¬g.isSettled)
    (hV : E.createProgramAddress (.vault G) g.vaultBump = some V) (hk : s.record k = some r)
    (hG : r.group = G) : r.totalDeposited.toNat ≤ s.amount V := by
  obtain ⟨p, hp⟩ := hI.custody hg
  have hb := hp.balance hns hV
  have hrel := @Pool.balance_release _ p k
  have hst : p.stake k = r.totalDeposited.toNat := by
    rw [hp.stake, Ledger.stake, State.ledger_record, hk, stakeOf, if_pos hG]
  rw [State.ledger_amount] at hb
  omega

/-- In every reachable state the fields of an open record agree with each other and with the
charges since its join, its counters are in range, and leaving an open group refunds exactly one
deposit. -/
theorem member_ledger (hr : Reached E h s) {k : K} {r : MemberRecord K}
    (hk : s.record k = some r) : ∃ g newer e, s.group r.group = some g ∧ r.Consistent g ∧
      Latest (Did (Call.joins r.group r.member)) h newer e ∧ Charged r newer ∧
      r.depositsMade.toNat + 1 < 2 ^ 8 ∧
      r.totalDeposited.toNat ≤ g.totalPeriods.toNat * g.depositAmount.toNat ∧
      (∀ V, ¬g.isSettled → E.createProgramAddress (.vault r.group) g.vaultBump = some V →
        r.totalDeposited.toNat ≤ s.amount V) ∧
      ∀ ctx a s' events, a.memberRecord = k → leaveGroup E ctx a s = .ok (s', events) →
        (∃ cm, events = [.memberLeft r.group r.member g.depositAmount cm]) ∧
          s'.amount a.memberTokenAccount = s.amount a.memberTokenAccount + g.depositAmount.toNat := by
  have hI := Reached.inv hr
  have hL := hI.toLayout
  obtain ⟨g, newer, e, hg, hc, hlat, hh⟩ := consistent_of_reached hr hk
  have hmade := hc.made_le
  have hper := UInt8.le_iff_toNat_le.1 (hI.group hg).periods.2
  refine ⟨g, newer, e, hg, hc, hlat, hh, ?_, ?_, fun V hns hV => hI.deposit_le_vault hg hns hV hk rfl,
    fun ctx a s' events hkey hleave => ?_⟩
  · change g.totalPeriods.toNat ≤ 52 at hper
    omega
  · rw [hc.total]
    exact Nat.mul_le_mul_right _ hmade
  · obtain ⟨g₁, r₁, he⟩ := leaveGroup_effect hleave
    obtain rfl : r = r₁ := by
      have := he.record
      rw [State.ledger_record, hkey, hk] at this
      exact Option.some.inj this
    obtain ⟨hG, hM⟩ := hL.record_eq he.record he.address
    obtain rfl : g = g₁ := Option.some.inj (hg.symm.trans (hG ▸ he.group))
    have htot : r.totalDeposited = g.depositAmount := by
      have := hc.total
      rw [hc.isOpen he.isOpen] at this
      exact UInt64.toNat_inj.1 (by simpa using this)
    have hmoved := (he.moved hL).member
    simp only [State.ledger_amount, htot] at hmoved
    obtain ⟨p, mt, vt, cm, -, -, -, -, -, -, -, -, -, -, rfl⟩ := he.post
    exact ⟨⟨cm, by rw [hG, hM, htot]⟩, by omega⟩

/-- The record of a member that has joined. -/
theorem member_ledger_joined : ∃ h s r g newer e, Reached symbolic h s ∧
    s.record (Demo.record 1) = some r ∧ s.group r.group = some g ∧ r.Consistent g ∧
    Latest (Did (Call.joins r.group r.member)) h newer e ∧ Charged r newer := by
  obtain ⟨h, s, hr, hs⟩ := replay_exists Demo.joined (world_genesis 10000 100)
    (fun _ s => (s.record (Demo.record 1)).isSome) (by decide +kernel)
  obtain ⟨r, hk⟩ := Option.isSome_iff_exists.1 hs
  obtain ⟨g, newer, e, hg, hc, hlat, hh, -⟩ := member_ledger hr hk
  exact ⟨h, s, r, g, newer, e, hr, hk, hg, hc, hlat, hh⟩

end SafeNudge
