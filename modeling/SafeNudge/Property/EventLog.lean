import SafeNudge.Property.MemberLedger
import SafeNudge.Property.Solvency

/-!
# The event log is a ledger

What monitoring reads off the events of a group since its creation is what the accounts say: the
amounts add up to the open deposits (`LogOk.balance`), the last count is the number of records
(`LogOk.count`), and the amounts of a member since its join are the deposits of its record
(`LogOk.member`). `event_ledger` adds what a settlement reports.
-/

namespace SafeNudge

open Lib Function

variable {K : Type}

/-- The group an event is about. -/
def Event.group : Event K → K
  | .groupCreated group .. => group
  | .memberJoined group .. => group
  | .memberLeft group .. => group
  | .cycleStarted group .. => group
  | .depositMade group .. => group
  | .memberSettled e => e.group
  | .groupSettled group .. => group
  | .groupCancelled group .. => group
  | .joinAuthoritySet group .. => group
  | .groupClosed group .. => group

variable [DecidableEq K]

/-- The amount a member paid into the group at `G`. -/
def Event.paidIn (G : K) : Event K → Nat
  | .memberJoined group _ _ amount _ _ => if group = G then amount.toNat else 0
  | .depositMade group _ _ amount _ => if group = G then amount.toNat else 0
  | _ => 0

/-- The amount a leaving member got back from the group at `G`. -/
def Event.paidBack (G : K) : Event K → Nat
  | .memberLeft group _ refund _ => if group = G then refund.toNat else 0
  | _ => 0

/-- The number of members the group at `G` reports. -/
def Event.count? (G : K) : Event K → Option UInt8
  | .memberJoined group _ _ _ currentMembers _ => if group = G then some currentMembers else none
  | .memberLeft group _ _ currentMembers => if group = G then some currentMembers else none
  | _ => none

def paidInLog (G : K) (log : List (Event K)) : Nat := (log.map (Event.paidIn G)).sum

def paidBackLog (G : K) (log : List (Event K)) : Nat := (log.map (Event.paidBack G)).sum

/-- The members reported last, in a log with the newest event first. -/
def lastCount? (G : K) (log : List (Event K)) : Option UInt8 := log.findSome? (Event.count? G)

/-- What `M` paid since its last join, in a log with the newest event first. -/
def memberPaid (G M : K) : List (Event K) → Nat
  | [] => 0
  | .memberJoined group member _ amount _ _ :: log =>
    if group = G ∧ member = M then amount.toNat else memberPaid G M log
  | .depositMade group member _ amount _ :: log =>
    if group = G ∧ member = M then amount.toNat + memberPaid G M log else memberPaid G M log
  | _ :: log => memberPaid G M log

section
variable {G M : K} {log log' : List (Event K)}

theorem paidInLog_append : paidInLog G (log ++ log') = paidInLog G log + paidInLog G log' := by
  simp [paidInLog]

theorem paidBackLog_append : paidBackLog G (log ++ log') = paidBackLog G log + paidBackLog G log' := by
  simp [paidBackLog]

theorem lastCount?_append :
    lastCount? G (log ++ log') = (lastCount? G log).or (lastCount? G log') :=
  List.findSome?_append

theorem memberPaid_append_of_not (h : ∀ ev ∈ log, ev.membership? ≠ some (G, M)) :
    memberPaid G M (log ++ log') = memberPaid G M log' := by
  induction log with
  | nil => rfl
  | cons ev log ih =>
    have hev := h ev List.mem_cons_self
    have ih := ih fun x hx => h x (List.mem_cons_of_mem _ hx)
    rw [List.cons_append]
    cases ev with
    | memberJoined | depositMade =>
      simp only [memberPaid]
      rw [if_neg fun he => hev (by rw [Event.membership?, he.1, he.2]), ih]
    | _ => exact ih

end

section
variable {E : Env K} {ctx : Ctx K} {L L' : Ledger K} {events : List (Event K)} {c : Call K}

/-- An instruction reports about the group it names. -/
theorem Effect.event_group (h : Effect E ctx L L' events c) :
    ∀ ev ∈ events, ev.group = c.groupKey := by
  have single : ∀ {ev₀ : Event K}, events = [ev₀] → ev₀.group = c.groupKey →
      ∀ ev ∈ events, ev.group = c.groupKey := by
    rintro ev₀ rfl h₀ ev hev
    rw [List.mem_singleton.1 hev, h₀]
  cases h with
  | createGroup h => exact single h.events rfl
  | joinGroup h =>
    obtain ⟨p, mt, vt, b, cm, joins, -, -, -, -, -, -, -, -, -, -, -, -, he⟩ := h.post
    exact single he rfl
  | leaveGroup h =>
    obtain ⟨p, mt, vt, cm, -, -, -, -, -, -, -, -, -, -, he⟩ := h.post
    exact single he rfl
  | startCycle h =>
    obtain ⟨ce, -, he⟩ := h.cycleEnd
    exact single he rfl
  | deposit h =>
    obtain ⟨duration, ce, period, r', -, -, -, -, -, -, he⟩ := h.period
    exact single he rfl
  | @distribute a _ _ _ t rs _ _ _ _ he =>
    rw [he]
    intro ev hev
    rcases List.mem_append.1 hev with hev | hev
    · obtain ⟨x, hx, rfl⟩ := List.mem_map.1 hev
      rw [settledEvents, ← List.map_uncurry_zip_eq_zipWith] at hx
      obtain ⟨y, -, rfl⟩ := List.mem_map.1 hx
      rfl
    · rw [List.mem_singleton.1 hev]
      rfl
  | emergencyCancel _ _ _ _ he => exact single he rfl
  | closeGroup h =>
    obtain ⟨n, -, -, he⟩ := h.post
    exact single he rfl
  | setJoinAuthority h => exact single h.events rfl
  | refundVaultRent h =>
    rw [h.events]
    exact nofun
  | closeMemberRecord h =>
    rw [h.events]
    exact nofun
  | closeJoinTally h =>
    rw [h.events]
    exact nofun

/-- What the events of a call say about the open deposits and the count of a group. -/
structure Booked (L L' : Ledger K) (G : K) (g g' : GroupConfig K) (events : List (Event K)) :
    Prop where
  sum : L.deposits G + paidInLog G events = L'.deposits G + paidBackLog G events
  count : g'.currentMembers = ((lastCount? G events.reverse).getD g.currentMembers)

/-- An event about another group, or about no membership, books nothing. -/
theorem Event.silent {G : K} {ev : Event K} (h : ev.group ≠ G ∨ ev.membership? = none) :
    ev.paidIn G = 0 ∧ ev.paidBack G = 0 ∧ ev.count? G = none := by
  cases ev with
  | memberJoined | memberLeft | depositMade =>
    have hne := h.resolve_right nofun
    simp only [Event.group, ne_eq] at hne
    simp [Event.paidIn, Event.paidBack, Event.count?, hne]
  | _ => exact ⟨rfl, rfl, rfl⟩

theorem silent {G : K} (h : ∀ ev ∈ events, ev.group ≠ G ∨ ev.membership? = none) :
    paidInLog G events = 0 ∧ paidBackLog G events = 0 ∧ lastCount? G events.reverse = none := by
  refine ⟨List.sum_eq_zero fun n hn => ?_, List.sum_eq_zero fun n hn => ?_,
    List.findSome?_eq_none_iff.2 fun ev hev => ?_⟩
  · obtain ⟨ev, hev, rfl⟩ := List.mem_map.1 hn
    exact (Event.silent (h ev hev)).1
  · obtain ⟨ev, hev, rfl⟩ := List.mem_map.1 hn
    exact (Event.silent (h ev hev)).2.1
  · exact (Event.silent (h ev (List.mem_reverse.1 hev))).2.2

theorem Booked.of_silent {G : K} {g g' : GroupConfig K} {p p' : Pool K} (hp : L.Holds E G g p)
    (hp' : L'.Holds E G g' p') (hst : p'.stake = p.stake)
    (hcm : g'.currentMembers = g.currentMembers)
    (he : ∀ ev ∈ events, ev.group ≠ G ∨ ev.membership? = none) : Booked L L' G g g' events := by
  obtain ⟨h₁, h₂, h₃⟩ := silent he
  exact ⟨by rw [hp.deposits.2, hp'.deposits.2, hst, h₁, h₂], by rw [h₃, hcm]; rfl⟩

theorem JoinGroup.Effect.booked {a : JoinGroup K} {expectedTerms : GroupTerms K}
    {expectedJoins : Option UInt32} {g g' : GroupConfig K} {t : JoinTally K} {n₁ n₂ : Nat}
    {p : Pool K} (h : JoinGroup.Effect E ctx a expectedTerms expectedJoins L L' events g t n₁ n₂)
    (hp : L.Holds E a.groupConfig g p) (hg' : L'.group a.groupConfig = some g')
    (h0 : 0 < g.depositAmount) : Booked L L' a.groupConfig g g' events := by
  have hp' := h.holds hp hg' h0
  obtain ⟨q, mt, vt, b, cm, joins, -, -, -, -, -, -, -, -, -, -, -, rfl, rfl⟩ := h.post
  obtain rfl := eq_of_update_self hg'
  refine ⟨?_, by simp [lastCount?, Event.count?]⟩
  rw [hp.deposits.2, hp'.deposits.2, Pool.degree_pay]
  simp [paidInLog, paidBackLog, Event.paidIn, Event.paidBack]

theorem LeaveGroup.Effect.booked {a : LeaveGroup K} {g g' : GroupConfig K} {r : MemberRecord K}
    {p : Pool K} (hL : Layout E L) (h : LeaveGroup.Effect E ctx a L L' events g r)
    (hp : L.Holds E a.groupConfig g p) (hg' : L'.group a.groupConfig = some g') :
    Booked L L' a.groupConfig g g' events := by
  have hp' := h.holds hL hp hg'
  have hrel := @Pool.degree_release _ p
  obtain ⟨hG, -⟩ := hL.record_eq h.record h.address
  have hst : p.stake a.memberRecord = r.totalDeposited.toNat := by
    rw [hp.stake, Ledger.stake, h.record]
    exact if_pos hG
  obtain ⟨q, mt, vt, cm, -, -, -, -, -, -, -, -, -, rfl, rfl⟩ := h.post
  obtain rfl := eq_of_update_self hg'
  refine ⟨?_, by simp [lastCount?, Event.count?]⟩
  rw [hp.deposits.2, hp'.deposits.2, ← hrel, hst]
  simp [paidInLog, paidBackLog, Event.paidIn, Event.paidBack]

theorem Deposit.Effect.booked {a : Deposit K} {g : GroupConfig K} {r : MemberRecord K} {p : Pool K}
    (hL : Layout E L) (h : Deposit.Effect E ctx a L L' events g r)
    (hp : L.Holds E a.groupConfig g p) : Booked L L' a.groupConfig g g events := by
  have hp' := h.holds hL hp
  obtain ⟨duration, ce, period, r', -, -, -, -, -, -, rfl⟩ := h.period
  refine ⟨?_, by simp [lastCount?, Event.count?]⟩
  rw [hp.deposits.2, hp'.deposits.2, Pool.degree_pay]
  simp [paidInLog, paidBackLog, Event.paidIn, Event.paidBack]

/-- What a call on an open or active group books. -/
theorem Effect.booked (hI : Inv E L) (h : Effect E ctx L L' events c) {G : K}
    {g g' : GroupConfig K} (hg : L.group G = some g) (hg' : L'.group G = some g')
    (hns : ¬g'.isSettled) : Booked L L' G g g' events := by
  have hL := hI.toLayout
  obtain ⟨p, hp⟩ := hI.custody hg
  by_cases hG : c.groupKey = G
  swap
  · have hf := h.frame hL
    obtain rfl : g = g' := by
      rw [hf.group (Ne.symm hG), hg] at hg'
      exact Option.some.inj hg'
    exact .of_silent hp (hf.holds (Ne.symm hG) hp) rfl rfl fun ev hev =>
      .inl fun he => hG ((h.event_group ev hev).symm.trans he)
  subst hG
  have single : ∀ {ev₀ : Event K}, events = [ev₀] → ev₀.membership? = none →
      ∀ ev ∈ events, ev.group ≠ c.groupKey ∨ ev.membership? = none := by
    rintro ev₀ rfl h₀ ev hev
    rw [List.mem_singleton.1 hev]
    exact .inr h₀
  cases h with
  | createGroup h =>
    rw [Call.groupKey, h.unused.1] at hg
    cases hg
  | joinGroup h =>
    obtain rfl := Option.some.inj (h.group.symm.trans hg)
    exact h.booked hp hg' (hI.group hg).deposit
  | leaveGroup h =>
    obtain rfl := Option.some.inj (h.group.symm.trans hg)
    exact h.booked hL hp hg'
  | startCycle h =>
    obtain rfl := Option.some.inj (h.group.symm.trans hg)
    obtain ⟨ce, -, he⟩ := h.cycleEnd
    rw [h.post] at hg' ⊢
    obtain rfl := eq_of_update_self hg'
    refine .of_silent hp (hp.congr rfl rfl (by rw [h.group']) (by rw [h.group']) fun hs => ?_) rfl
      (by rw [h.group']) (single he rfl)
    exact absurd hs (not_settled_of_open h.isOpen)
  | deposit h =>
    obtain rfl := Option.some.inj (h.group.symm.trans hg)
    obtain ⟨q, mt, vt, -, -, -, -, -, -, -, -, hpost⟩ := h.post
    have hsame : L'.group = L.group := by rw [hpost]
    obtain rfl := Option.some.inj (hg.symm.trans (hsame ▸ hg'))
    exact h.booked hL hp
  | distribute h =>
    rw [h.post] at hg'
    obtain rfl := eq_of_update_self hg'
    exact absurd (GroupConfig.completed_isSettled ..) hns
  | emergencyCancel _ h =>
    rw [h.post] at hg'
    obtain rfl := eq_of_update_self hg'
    exact absurd (GroupConfig.cancelled_isSettled ..) hns
  | refundVaultRent h =>
    obtain rfl := Option.some.inj (h.group.symm.trans hg)
    rw [h.post] at hg'
    obtain rfl := Option.some.inj (hg.symm.trans hg')
    exact absurd h.settled hns
  | closeMemberRecord h =>
    obtain rfl := Option.some.inj (h.group.symm.trans hg)
    obtain ⟨cm, -, rfl⟩ := h.post
    obtain rfl := eq_of_update_self hg'
    exact absurd h.settled hns
  | closeGroup h =>
    obtain ⟨n, -, rfl, -⟩ := h.post
    simp [Call.groupKey] at hg'
  | closeJoinTally h =>
    rw [Call.groupKey, h.closed] at hg
    cases hg
  | setJoinAuthority h =>
    have he := h.events
    obtain ⟨n, -, -, rfl⟩ := h.post
    obtain rfl := Option.some.inj (hg.symm.trans hg')
    exact .of_silent hp (hp.congr rfl rfl rfl rfl id) rfl rfl (single he rfl)

end

/-! ## A run -/

section
variable {E : Env K} {h : List (StepEntry K)} {s s' : State K} {act : Action K} {G : K}
  {g g' : GroupConfig K} {newer : List (StepEntry K)}

/-- What the events since the creation of the group at `G` say about it. -/
structure LogOk (G : K) (g : GroupConfig K) (s : State K) (newer : List (StepEntry K)) : Prop where
  balance : ¬g.isSettled →
    paidInLog G (eventLog newer) = paidBackLog G (eventLog newer) + s.ledger.deposits G
  count : ¬g.isSettled → (lastCount? G (eventLog newer)).getD 0 = g.currentMembers
  member : ∀ k r, s.record k = some r → r.group = G →
    memberPaid G r.member (eventLog newer) = r.totalDeposited.toNat

omit [DecidableEq K] in
theorem eventLog_cons {x : StepEntry K} :
    eventLog (x :: newer) = x.act.emitted.reverse ++ eventLog newer := rfl

/-- What a step emits is booked. -/
theorem Step.booked (h : Step E s act s') (hI : Inv E s.ledger) (hg : s.group G = some g)
    (hg' : s'.group G = some g') (hns : ¬g'.isSettled) :
    Booked s.ledger s'.ledger G g g' act.emitted := by
  cases h with
  | call h => exact (execute_effect hI.toLayout h).booked hI hg hg' hns
  | outside h =>
    obtain rfl := Option.some.inj (hg.symm.trans ((congrFun h.group G).symm.trans hg'))
    have hdep : s'.ledger.deposits G = s.ledger.deposits G := by
      unfold Ledger.deposits Ledger.stake
      rw [h.record]
    exact ⟨by rw [hdep]; rfl, rfl⟩

/-- What a member paid since its join stays the deposits of its record. -/
theorem Step.memberPaid (h : Step E s act s') (hL : Layout E s.ledger)
    (hm : ∀ k r, s.record k = some r → r.group = G →
      SafeNudge.memberPaid G r.member (eventLog newer) = r.totalDeposited.toNat) {k : K}
    {r' : MemberRecord K} (hk' : s'.record k = some r') (hG : r'.group = G) :
    SafeNudge.memberPaid G r'.member (eventLog (⟨s, act, s'⟩ :: newer)) =
      r'.totalDeposited.toNat := by
  have hst := h.recordStep hL k
  rw [hk'] at hst
  generalize ho : s.record k = o at hst
  generalize ho' : some r' = o' at hst
  subst hG
  rw [eventLog_cons]
  cases hst with
  | keep hn =>
    subst ho'
    have hne := h.membership_ne hL (hL.placed ho).address hn
    rw [memberPaid_append_of_not fun ev hev => hne ev (List.mem_reverse.1 hev)]
    exact hm k r' ho rfl
  | join hact =>
    cases ho'
    subst hact
    simp [Action.emitted, SafeNudge.memberPaid, JoinGroup.newRecord]
  | @deposit ctx a g r r₁ duration period hact hkey hg ha hrm hper hmark =>
    cases ho'
    subst hact
    obtain ⟨-, made, total, -, htotal, he⟩ := MemberRecord.mark_eq_ok.1 hmark
    have hsame : r.SameMember r' := by rw [he]; rfl
    have htot : r'.totalDeposited = total := by rw [he]
    have hprev := hm k r ho hsame.group.symm
    have hadd := checkedAdd64_eq_some htotal
    rw [hsame.group, hsame.member] at *
    simp only [Action.emitted, List.reverse_singleton, List.singleton_append, SafeNudge.memberPaid]
    rw [if_pos ⟨hrm.1.symm, hrm.2.symm⟩, hprev, htot, hadd, Nat.add_comm]
  | leave => cases ho'
  | close => cases ho'

theorem LogOk.cons (hok : LogOk G g s newer) (h : Step E s act s') (hI : Inv E s.ledger)
    (hg : s.group G = some g) (hg' : s'.group G = some g') :
    LogOk G g' s' (⟨s, act, s'⟩ :: newer) := by
  have hback : ¬g'.isSettled → ¬g.isSettled := by
    obtain ⟨-, ⟨-, g₁, hg₁, -, hset⟩ | ⟨-, hgone, -⟩⟩ := h.group hI.toLayout hg
    · obtain rfl := Option.some.inj (hg₁.symm.trans hg')
      exact fun hns hs => hns (hset hs)
    · rw [hg'] at hgone
      cases hgone
  refine ⟨fun hns => ?_, fun hns => ?_, fun k r' hk' hG =>
    h.memberPaid hI.toLayout hok.member hk' hG⟩
  · have hb := (h.booked hI hg hg' hns).sum
    have hprev := hok.balance (hback hns)
    rw [eventLog_cons, paidInLog_append, paidBackLog_append]
    simp only [paidInLog, paidBackLog, List.map_reverse, List.sum_reverse] at *
    omega
  · have hc := (h.booked hI hg hg' hns).count
    rw [eventLog_cons, lastCount?_append, hc, ← hok.count (hback hns)]
    cases lastCount? G act.emitted.reverse <;> rfl

/-- The log of every live group. -/
theorem log_of_reached (hr : Reached E h s) (hg : s.group G = some g) :
    ∃ newer e, Latest (Did (Call.creates G)) h newer e ∧
      (∃ creator payer mint n p m, e.act.emitted = [.groupCreated G creator payer mint n p m]) ∧
      LogOk G g s newer := by
  induction hr generalizing g with
  | start h0 => exact absurd (by rw [State.group_eq_some.1 hg]; trivial) (h0.program G)
  | @snoc h s s' act hr hst ih =>
    have hI := Reached.inv hr
    have hL := hI.toLayout
    cases hn : s.group G with
    | none =>
      obtain ⟨hc, h0, -⟩ := hst.group_new hL hg hn
      refine ⟨[], _, .here hc, ?_, fun _ => ?_, fun _ => h0.symm, fun k r hk hG =>
        absurd hG ((hst.inv hI).no_records hg h0 hk)⟩
      · cases hst with
        | outside => exact hc.elim
        | @call ctx c _ _ events hexec =>
          cases execute_effect hL hexec with
          | @createGroup a _ _ _ _ _ h =>
            obtain rfl : a.groupConfig = G := hc
            exact ⟨_, _, _, _, _, _, h.events⟩
          | _ => exact hc.elim
      · obtain ⟨p, hp⟩ := (hst.inv hI).custody hg
        have hcount := hp.count
        rw [h0] at hcount
        have hzero : p.stake = 0 := Finsupp.support_eq_empty.1 (Finset.card_eq_zero.1 hcount)
        rw [hp.deposits.2, hzero, map_zero]
        rfl
    | some g₀ =>
      obtain ⟨hnc, ⟨-, g₁, hg₁, -⟩ | ⟨-, hgone, -⟩⟩ := hst.group hL hn
      swap
      · rw [hg] at hgone
        cases hgone
      obtain ⟨newer, e, hlat, hev, hok⟩ := ih hn
      exact ⟨_ :: newer, e, hlat.cons hnc, hev, hok.cons hst hI hn hg⟩

end

/-! ## Settlements -/

theorem forall₂_zipWith {α β γ δ : Type} {R : α → β → Prop} {S : α → δ → Prop} {f : β → γ → δ}
    {l : List α} {l' : List β} {ns : List γ} (h : List.Forall₂ R l l')
    (hlen : ns.length = l'.length) (hS : ∀ x y n, R x y → S x (f y n)) :
    List.Forall₂ S l (List.zipWith f l' ns) := by
  induction h generalizing ns with
  | nil => exact .nil
  | cons hr _ ih =>
    cases ns with
    | nil => cases hlen
    | cons n ns => exact .cons (hS _ _ n hr) (ih (Nat.succ.inj hlen))

/-- `e` reports the settlement of the record at `k`: its member, and what that member paid in the
steps `newer` since the creation of the group. -/
def Reports (s : State K) (G : K) (newer : List (StepEntry K)) (k : K) (e : MemberSettled K) :
    Prop :=
  ∃ r, s.record k = some r ∧ e.group = G ∧ e.member = r.member ∧
    e.deposited.toNat = memberPaid G r.member (eventLog newer)

section
variable {E : Env K} {h : List (StepEntry K)} {s s' : State K} {ctx : Ctx K}
  {events : List (Event K)} {remaining : List K}

/-- The events of a successful `distribute`. -/
theorem distribute_reports {a : Distribute K} (hr : Reached E h s)
    (hexec : execute E ctx (.distribute a remaining) s = .ok (s', events)) :
    ∃ g newer e settled total ks, s.group a.groupConfig = some g ∧
      Latest (Did (Call.creates a.groupConfig)) h newer e ∧
      events = settled.map .memberSettled ++ [.groupSettled a.groupConfig g.currentMembers total] ∧
      ks.Nodup ∧ (∀ k, k ∈ ks ↔ k ∈ s.recordsOf a.groupConfig) ∧
      List.Forall₂ (Reports s a.groupConfig newer) ks settled ∧
      (settled.map (·.payout.toNat)).sum = total.toNat ∧ total.toNat = s.amount a.vault := by
  have hI := Reached.inv hr
  cases execute_effect hI.toLayout hexec with
  | @distribute _ _ g p t rs total hset hpass htotal hevents =>
    obtain ⟨newer, e, hlat, -, hok⟩ := log_of_reached hr hset.group
    have hml := membersListed_of_accepted hI hset.group hset.pairs_length hset.nodup hset.accepted
    have hpaid : (settledEvents a.groupConfig rs t.amount).map (·.payout.toNat) =
        (payouts (rs.map (·.totalDeposited)) t.amount).map UInt64.toNat := settledEvents_payout
    refine ⟨g, newer, e, _, total, (chunksExact2 remaining).map Prod.fst, hset.group, hlat, hevents,
      hset.nodup, hml.records, ?_, ?_, ?_⟩
    · rw [List.forall₂_map_left_iff]
      refine forall₂_zipWith hset.accepted (by rw [payouts_length, List.length_map]) ?_
      intro pair r n hpair
      exact ⟨r, hpair.record, rfl, rfl, (hok.member _ r hpair.record hpair.group).symm⟩
    · have hsum := hset.paid
      rw [hpaid, htotal]
      simpa using hsum
    · rw [htotal, ← State.ledger_amount, Ledger.amount, hset.held]
      rfl

/-- The event of a successful `emergency_cancel`. -/
theorem emergencyCancel_reports {a : EmergencyCancel K} (hr : Reached E h s)
    (hexec : execute E ctx (.emergencyCancel a remaining) s = .ok (s', events)) :
    ∃ g refundedTotal burned, s.group a.groupConfig = some g ∧
      events = [.groupCancelled a.groupConfig a.creator g.currentMembers refundedTotal burned] ∧
      refundedTotal.toNat + burned.toNat = s.amount a.vault ∧
      (0 < burned → g.currentMembers = 0) := by
  have hI := Reached.inv hr
  cases execute_effect hI.toLayout hexec with
  | @emergencyCancel _ _ g p t rs total burned hburn hset hpass htotal hevents =>
    refine ⟨g, total, burned, hset.group, hevents, ?_, fun hpos => ?_⟩
    · rw [htotal, ← State.ledger_amount, Ledger.amount, hset.held]
      rfl
    · by_contra hne
      have hne' : g.currentMembers.toNat ≠ 0 := fun h0 => hne (UInt8.toNat_inj.1 h0)
      rw [hburn, unowedVaultBalance, if_neg hne'] at hpos
      exact absurd hpos (by decide)

/-- In every run the events of a group since its creation agree with its accounts while it is open
or active, and a settlement reports each open record once and the whole vault. -/
theorem event_ledger (hr : Reached E h s) :
    (∀ G g, s.group G = some g → g.status = STATUS_OPEN ∨ g.status = STATUS_ACTIVE →
      ∃ newer e, Latest (Did (Call.creates G)) h newer e ∧
        (∃ creator payer mint n p m, e.act.emitted = [.groupCreated G creator payer mint n p m]) ∧
        paidInLog G (eventLog newer) = paidBackLog G (eventLog newer) + s.ledger.deposits G ∧
        (support (s.ledger.stake G)).Finite ∧ (s.recordsOf G).Finite ∧
        ((lastCount? G (eventLog newer)).getD 0).toNat = (s.recordsOf G).ncard) ∧
    ∀ later x older ctx events remaining, h = later ++ x :: older →
      (∀ a, x.act = .call ctx (.distribute a remaining) events →
        ∃ g newer e settled total ks, x.pre.group a.groupConfig = some g ∧
          Latest (Did (Call.creates a.groupConfig)) older newer e ∧
          events = settled.map .memberSettled ++
            [.groupSettled a.groupConfig g.currentMembers total] ∧
          ks.Nodup ∧ (∀ k, k ∈ ks ↔ k ∈ x.pre.recordsOf a.groupConfig) ∧
          List.Forall₂ (Reports x.pre a.groupConfig newer) ks settled ∧
          (settled.map (·.payout.toNat)).sum = total.toNat ∧
          total.toNat = x.pre.amount a.vault) ∧
      (∀ a, x.act = .call ctx (.emergencyCancel a remaining) events →
        ∃ g refundedTotal burned, x.pre.group a.groupConfig = some g ∧
          events = [.groupCancelled a.groupConfig a.creator g.currentMembers refundedTotal burned] ∧
          refundedTotal.toNat + burned.toNat = x.pre.amount a.vault ∧
          (0 < burned → g.currentMembers = 0)) := by
  refine ⟨fun G g hg hstatus => ?_, fun later x older ctx events remaining hh => ?_⟩
  · have hI := Reached.inv hr
    have hns : ¬g.isSettled := hstatus.elim not_settled_of_open not_settled_of_active
    obtain ⟨newer, e, hlat, hev, hok⟩ := log_of_reached hr hg
    obtain ⟨p, hp⟩ := hI.custody hg
    obtain ⟨hfin, hcard⟩ := hI.card_records hg
    exact ⟨newer, e, hlat, hev, hok.balance hns, hp.deposits.1, hfin, by rw [hok.count hns, hcard]⟩
  · obtain ⟨hold, hst⟩ := hr.older hh
    refine ⟨fun a hact => ?_, fun a hact => ?_⟩
    · rw [hact] at hst
      cases hst with
      | call hexec => exact distribute_reports hold hexec
    · rw [hact] at hst
      cases hst with
      | call hexec => exact emergencyCancel_reports hold hexec

/-- The log of a group that two members have joined. -/
theorem event_ledger_joined : ∃ h s g newer e, Reached symbolic h s ∧ s.group Demo.G = some g ∧
    g.status = STATUS_OPEN ∧ Latest (Did (Call.creates Demo.G)) h newer e ∧
    paidInLog Demo.G (eventLog newer) =
      paidBackLog Demo.G (eventLog newer) + s.ledger.deposits Demo.G := by
  obtain ⟨h, s, hr, hs⟩ := replay_exists Demo.joined (world_genesis 10000 100)
    (fun _ s => (s.group Demo.G).any fun g => g.status == STATUS_OPEN) (by decide +kernel)
  simp only [Option.any_eq_true, beq_iff_eq] at hs
  obtain ⟨g, hg, ho⟩ := hs
  obtain ⟨newer, e, hlat, -, hbal, -⟩ := (event_ledger hr).1 Demo.G g hg (.inl ho)
  exact ⟨h, s, g, newer, e, hr, hg, ho, hlat, hbal⟩

end

end SafeNudge
