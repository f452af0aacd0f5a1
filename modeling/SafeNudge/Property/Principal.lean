import SafeNudge.Invariant.Flow
import SafeNudge.Property.Settlement
import SafeNudge.Property.Solvency

/-!
# Principal

Tokens leave a vault only towards its members, or into the burn of an `emergency_cancel` without
members; and over a settled instance every wallet got back what it paid in, up to the surplus the
last-listed member takes (`principal_safe`). Until settlement what a wallet has paid net is what
the group owes it (`net_eq_owed`), a settlement pays that out (`Settled.gain`), and afterwards
nothing moves.
-/

namespace SafeNudge

open Lib Function

variable {K : Type} [DecidableEq K] {E : Env K} {h : List (StepEntry K)} {s s' : State K}

/-! ## What a settlement pays to whom -/

section
variable {L L' : Ledger K} {G V : K} {remaining : List K} {g g' : GroupConfig K} {p : TokenProgram}
  {t : TokenAccount K} {rs : List (MemberRecord K)} {burned : UInt64}

namespace Settled

theorem keys_nodup (h : Settled E L L' G V remaining g g' p t rs burned) :
    ((payPlan remaining rs t.amount).map Prod.fst).Nodup :=
  payPlan_keys h.toSettling ▸ h.tokens

theorem amount_vault (h : Settled E L L' G V remaining g g' p t rs burned) :
    L.amount V = t.amount.toNat ∧ L'.amount V = 0 := by
  rw [Ledger.amount, Ledger.amount, h.held, h.post]
  simp [amountOf]

theorem amount_of_mem (h : Settled E L L' G V remaining g g' p t rs burned) {q : K × UInt64}
    (hq : q ∈ payPlan remaining rs t.amount) : L'.amount q.1 = L.amount q.1 + q.2.toNat := by
  have hm : q.1 ∈ (chunksExact2 remaining).map Prod.snd :=
    payPlan_keys h.toSettling ▸ List.mem_map_of_mem hq
  obtain ⟨pair, hp, he⟩ := List.mem_map.1 hm
  have hne : q.1 ≠ V := he ▸ h.ne_vault pair hp
  have htok : L'.token q.1 = creditAll L.token (payPlan remaining rs t.amount) q.1 := by
    rw [h.post]
    exact update_of_ne hne ..
  rw [Ledger.amount, htok]
  exact amountOf_creditAll h.keys_nodup hq (h.room q hq)

theorem amount_of_notMem (h : Settled E L L' G V remaining g g' p t rs burned) {k : K}
    (hV : k ≠ V) (hk : k ∉ (chunksExact2 remaining).map Prod.snd) : L'.amount k = L.amount k := by
  have htok : L'.token k = creditAll L.token (payPlan remaining rs t.amount) k := by
    rw [h.post]
    exact update_of_ne hV ..
  rw [Ledger.amount, htok, creditAll_of_notMem (payPlan_keys h.toSettling ▸ hk), Ledger.amount]

theorem changed (h : Settled E L L' G V remaining g g' p t rs burned) :
    ∀ i ∉ insert V ((chunksExact2 remaining).map Prod.snd).toFinset, L'.amount i = L.amount i := by
  intro i hi
  simp only [Finset.mem_insert, List.mem_toFinset, not_or] at hi
  exact h.amount_of_notMem hi.1 hi.2

/-- What left the vault arrived or was burned. -/
theorem total (h : Settled E L L' G V remaining g g' p t rs burned) :
    gain Set.univ L.amount L'.amount + burned.toNat = 0 := by
  have hkeys := payPlan_keys h.toSettling
  have hV : V ∉ ((chunksExact2 remaining).map Prod.snd).toFinset := by
    rw [List.mem_toFinset]
    intro hm
    obtain ⟨pair, hp, he⟩ := List.mem_map.1 hm
    exact h.ne_vault pair hp he
  have hsum : (((payPlan remaining rs t.amount).map Prod.fst).map fun k =>
      ((L'.amount k : ℤ) - L.amount k)).sum =
        (((payPlan remaining rs t.amount).map (·.2.toNat)).sum : ℕ) := by
    rw [List.map_map, Nat.cast_list_sum, List.map_map]
    congr 1
    refine List.map_congr_left fun q hq => ?_
    simp only [comp_apply, h.amount_of_mem hq]
    omega
  have hpaid := h.paid
  rw [← payPlan_sum h.toSettling] at hpaid
  obtain ⟨h₁, h₂⟩ := h.amount_vault
  rw [gain_univ h.changed, Finset.sum_insert hV, List.sum_toFinset _ h.tokens, ← hkeys, hsum, h₁, h₂]
  omega

/-- Every listed token account gets the stake of its record, the last one also the surplus. -/
theorem shares (h : Settled E L L' G V remaining g g' p t rs burned) (hne : rs ≠ []) :
    ∃ init z, chunksExact2 remaining = init ++ [z] ∧
      (∀ pair ∈ init, L'.amount pair.2 = L.amount pair.2 + L.stake G pair.1) ∧
      L'.amount z.2 = L.amount z.2 + L.stake G z.1 + (t.amount.toNat - depositsSum rs) := by
  obtain ⟨init, z, rs', r, hpairs, rfl, hinit, hz, hplan⟩ := payPlan_split h.toSettling hne
  have hmem : ∀ q ∈ payPlan remaining (rs' ++ [r]) t.amount,
      L'.amount q.1 = L.amount q.1 + q.2.toNat := fun q hq => h.amount_of_mem hq
  rw [hplan] at hmem
  refine ⟨init, z, hpairs, fun pair hpair => ?_, ?_⟩
  · obtain ⟨i, hi, rfl⟩ := List.getElem_of_mem hpair
    have hi' : i < rs'.length := hinit.length_eq ▸ hi
    have hr : PairOk E L G g.mint init[i] rs'[i] := List.Forall₂.get hinit hi hi'
    rw [Ledger.stake, hr.record, stakeOf, if_pos hr.group]
    refine hmem (_, _) (List.mem_append_left _ (List.mem_iff_getElem.2 ⟨i, by simp [hi, hi'], ?_⟩))
    simp
  · have hle := h.covered
    rw [depositsSum_append] at hle
    rw [hmem _ (List.mem_append_right _ List.mem_cons_self), Ledger.stake, hz.record, stakeOf,
      if_pos hz.group, toNat_foldl_sub (by
        rw [List.map_map]
        exact Nat.le_trans (Nat.le_add_right ..) hle), List.map_map, depositsSum_append]
    simp only [depositsSum, List.map_cons, List.map_nil, List.sum_cons, List.sum_nil] at hle ⊢
    change _ + (t.amount.toNat - (rs'.map (·.totalDeposited.toNat)).sum) = _
    omega

/-- The accounts of a wallet without a listed record keep their amounts. -/
theorem gain_of_unlisted (h : Settled E L L' G V remaining g g' p t rs burned)
    (hL : Layout E L) {w : K} (hw : w ≠ V) (hno : ∀ r ∈ rs, r.member ≠ w) :
    gain (L.wallet g.mint w) L.amount L'.amount = 0 := by
  refine gain_eq_zero fun x hx => ?_
  obtain ⟨q, u, hu, -, ho⟩ := hx
  refine h.amount_of_notMem ?_ fun hm => ?_
  · rintro rfl
    exact hw (ho.symm.trans (hL.selfOwned h.vaultAddress hu))
  · obtain ⟨pair, hp, rfl⟩ := List.mem_map.1 hm
    obtain ⟨r, hr, hok⟩ := exists_of_mem_forall₂ h.accepted hp
    obtain ⟨q', u', hu', ho', -⟩ := hok.token
    rw [hu] at hu'
    cases hu'
    exact hno r hr (ho'.symm.trans ho)

/-- A member is paid to its listed token account alone. -/
theorem gain_of_listed (h : Settled E L L' G V remaining g g' p t rs burned) (hL : Layout E L)
    {pair : K × K} (hp : pair ∈ chunksExact2 remaining) {r : MemberRecord K}
    (hr : L.record pair.1 = some r) (hw : r.member ≠ V) :
    gain (L.wallet g.mint r.member) L.amount L'.amount = (L'.amount pair.2 : ℤ) - L.amount pair.2 := by
  obtain ⟨r', -, hok⟩ := exists_of_mem_forall₂ h.accepted hp
  obtain rfl := Option.some.inj (hr.symm.trans hok.record)
  obtain ⟨q, u, hu, ho, hm⟩ := hok.token
  refine gain_eq_single ⟨q, u, hu, hm, ho⟩ fun x hx hne => ?_
  obtain ⟨q', u', hu', -, ho'⟩ := hx
  refine h.amount_of_notMem ?_ fun hm' => hne ?_
  · rintro rfl
    exact hw (ho'.symm.trans (hL.selfOwned h.vaultAddress hu'))
  · obtain ⟨pair', hp', rfl⟩ := List.mem_map.1 hm'
    obtain ⟨r', -, hok'⟩ := exists_of_mem_forall₂ h.accepted hp'
    obtain ⟨q', u', hu'', ho'', -⟩ := hok'.token
    rw [hu'] at hu''
    cases hu''
    have ha := (hL.placed hok.record).address
    have ha' := (hL.placed hok'.record).address
    rw [hok'.group, ← ho'', ho', ← hok.group, ha] at ha'
    have hkey : pair.1 = pair'.1 := (Prod.mk.inj (Option.some.inj ha')).1
    rw [List.inj_on_of_nodup_map h.nodup hp hp' hkey]

end Settled

/-- A wallet the group owes something has a listed record. -/
theorem listed_of_owed (hL : Layout E s.ledger) {mint w : K} {pairs : List (K × K)}
    (hml : MembersListed E s G mint pairs) (h0 : s.ledger.owed E G w ≠ 0) :
    ∃ pair ∈ pairs, ∃ r, s.record pair.1 = some r ∧ r.member = w := by
  unfold Ledger.owed at h0
  split at h0
  · rename_i k b hk
    obtain ⟨r, hr, hG, -⟩ := stakeOf_ne_zero.1 h0
    obtain ⟨pair, hp, rfl⟩ := List.mem_map.1 ((hml.records k).2 ⟨r, hr, hG⟩)
    exact ⟨pair, hp, r, hr, (hL.record_eq hr (Env.findProgramAddress_create hk)).2⟩
  · exact absurd rfl h0

/-- A settlement pays every wallet what the group owes it, and the last-listed member the surplus
as well. -/
theorem Settled.gain_eq (hI : Inv E s.ledger)
    (h : Settled E s.ledger s'.ledger G V remaining g g' p t rs burned) (hne : rs ≠ []) :
    ∃ z r, (chunksExact2 remaining).getLast? = some z ∧ s.record z.1 = some r ∧ r.group = G ∧
      ∀ w, w ≠ V → gain (s.ledger.wallet g.mint w) s.ledger.amount s'.ledger.amount =
        s.ledger.owed E G w + if w = r.member then (t.amount.toNat : ℤ) - s.ledger.deposits G else 0 := by
  have hL := hI.toLayout
  obtain ⟨init, z, hpairs, hinit, hz⟩ := h.shares hne
  have hml := membersListed_of_accepted hI h.group h.pairs_length h.nodup h.accepted
  have hnd := h.nodup
  have hcov := h.covered
  rw [deposits_of_accepted hI h.group h.pairs_length h.nodup h.accepted] at hz hcov
  have hlisted : ∀ pair ∈ chunksExact2 remaining, ∀ r, s.record pair.1 = some r →
      s.ledger.owed E G r.member = s.ledger.stake G pair.1 := by
    intro pair hp r hr
    obtain ⟨r', hr', hG⟩ := (hml.records pair.1).1 (List.mem_map_of_mem hp)
    obtain rfl := Option.some.inj (hr.symm.trans hr')
    exact Ledger.owed_of_address (hG ▸ (hL.placed hr).address)
  have hzm : z ∈ chunksExact2 remaining := hpairs ▸ List.mem_append_right _ List.mem_cons_self
  obtain ⟨r, hr, hrG⟩ := (hml.records z.1).1 (List.mem_map_of_mem hzm)
  refine ⟨z, r, by rw [hpairs, List.getLast?_concat], hr, hrG, fun w hw => ?_⟩
  by_cases hin : ∃ pair ∈ chunksExact2 remaining, ∃ r', s.record pair.1 = some r' ∧ r'.member = w
  · obtain ⟨pair, hp, r', hr', rfl⟩ := hin
    rw [h.gain_of_listed hL hp hr' hw, hlisted pair hp r' hr']
    obtain ⟨r₁, hr₁, hG'⟩ := (hml.records pair.1).1 (List.mem_map_of_mem hp)
    obtain rfl := Option.some.inj (hr'.symm.trans hr₁)
    rcases List.mem_append.1 (hpairs ▸ hp) with hpi | hpz
    · have hne' : r'.member ≠ r.member := by
        intro he
        have ha := (hL.placed hr').address
        have ha' := (hL.placed hr).address
        rw [hrG, ← he, ← hG', ha] at ha'
        rw [hpairs, List.map_append, List.nodup_append] at hnd
        exact hnd.2.2 _ (List.mem_map_of_mem hpi) _ (List.mem_cons_self)
          (Prod.mk.inj (Option.some.inj ha')).1
      rw [hinit pair hpi, if_neg hne']
      omega
    · obtain rfl := List.mem_singleton.1 hpz
      obtain rfl := Option.some.inj (hr.symm.trans hr')
      rw [hz, if_pos rfl]
      omega
  · have h0 : s.ledger.owed E G w = 0 := by
      by_contra h0
      exact hin (listed_of_owed hL hml h0)
    rw [h.gain_of_unlisted hL hw fun r' hr' hm => ?_, h0, if_neg fun he => ?_]
    · rfl
    · exact hin ⟨z, hzm, r, hr, he.symm⟩
    · obtain ⟨pair, hp, hok⟩ := exists_of_mem_forall₂ h.accepted.flip hr'
      exact hin ⟨pair, hp, r', hok.record, hm⟩

end

/-! ## What a wallet paid in and got out -/

/-- What `w` paid to the group at `G` in `join_group` and `deposit`. -/
noncomputable def paidIn (G mint w : K) : List (StepEntry K) → ℤ
  | [] => 0
  | e :: l =>
    (if Did (Call.paysIn G) e then
      -gain (e.pre.ledger.wallet mint w) e.pre.ledger.amount e.post.ledger.amount else 0) +
    paidIn G mint w l

/-- What the group at `G` paid to `w` in `leave_group`, `distribute` and `emergency_cancel`. -/
noncomputable def paidOut (G mint w : K) : List (StepEntry K) → ℤ
  | [] => 0
  | e :: l =>
    (if Did (Call.paysOut G) e then
      gain (e.pre.ledger.wallet mint w) e.pre.ledger.amount e.post.ledger.amount else 0) +
    paidOut G mint w l

section
variable {G V mint w : K} {g g' : GroupConfig K} {act : Action K} {e : StepEntry K}
  {l : List (StepEntry K)}

/-- A step that pays changes the net payout by what the wallet gained. -/
theorem net_cons_of_pays (hp : Did (Call.paysIn G) e ∨ Did (Call.paysOut G) e) :
    paidOut G mint w (e :: l) - paidIn G mint w (e :: l) =
      gain (e.pre.ledger.wallet mint w) e.pre.ledger.amount e.post.ledger.amount +
        (paidOut G mint w l - paidIn G mint w l) := by
  have hx : ¬(Did (Call.paysIn G) e ∧ Did (Call.paysOut G) e) := by
    rintro ⟨h₁, h₂⟩
    obtain ⟨pre, act, post⟩ := e
    cases act with
    | call ctx c events => cases c <;> first | exact h₁ | exact h₂
    | outside => exact h₁
  rw [paidOut, paidIn]
  by_cases hin : Did (Call.paysIn G) e
  · rw [if_pos hin, if_neg fun hout => hx ⟨hin, hout⟩]
    omega
  · rw [if_neg hin, if_pos (hp.resolve_left hin)]
    omega

theorem net_cons_of_not (hp : ¬(Did (Call.paysIn G) e ∨ Did (Call.paysOut G) e)) :
    paidOut G mint w (e :: l) - paidIn G mint w (e :: l) =
      paidOut G mint w l - paidIn G mint w l := by
  rw [not_or] at hp
  rw [paidOut, paidIn, if_neg hp.1, if_neg hp.2, zero_add, zero_add]

/-! ## Before settlement -/

/-- While the group is unsettled, what a wallet gained in a step it is owed less. -/
theorem Step.net_open (h : Step E s act s') (hI : Inv E s.ledger) (hg : s.group G = some g)
    (hg' : s'.group G = some g') (hns : ¬g'.isSettled)
    (hV : E.createProgramAddress (.vault G) g.vaultBump = some V) (hw : w ≠ V) :
    paidOut G g.mint w (⟨s, act, s'⟩ :: l) - paidIn G g.mint w (⟨s, act, s'⟩ :: l) +
      s'.ledger.owed E G w = paidOut G g.mint w l - paidIn G g.mint w l + s.ledger.owed E G w := by
  have hL := hI.toLayout
  by_cases hp : Did (Call.paysIn G) (⟨s, act, s'⟩ : StepEntry K) ∨
      Did (Call.paysOut G) (⟨s, act, s'⟩ : StepEntry K)
  · rw [net_cons_of_pays hp]
    cases h with
    | outside => exact (hp.elim id id).elim
    | @call ctx c _ _ events hexec =>
      have hcG : c.groupKey = G := Call.pays_groupKey hp
      subst hcG
      cases (execute_effect hL hexec).paying hL hp with
      | moved hg₁ _ hV₁ hmoved _ _ =>
        obtain rfl := Option.some.inj (hg₁.symm.trans hg)
        obtain rfl := Option.some.inj (hV₁.symm.trans hV)
        have := hmoved.gain (hL.selfOwned hV) hw
        dsimp only
        omega
      | @settled _ g₂ _ _ _ _ _ _ hset _ hs' =>
        have hpost : s'.ledger.group c.groupKey = some g₂ := by
          rw [hset.post]
          exact update_self ..
        obtain rfl := Option.some.inj (hpost.symm.trans hg')
        exact absurd hs' hns
  · rw [net_cons_of_not hp]
    cases h with
    | outside hout => rw [Ledger.owed_congr hout.record]
    | @call ctx c _ _ events hexec =>
      have he := execute_effect hL hexec
      by_cases hcG : c.groupKey = G
      · subst hcG
        rw [Ledger.owed_congr (((he.still hp).2 hg hg').2 hns)]
      · have hst := fun k => (he.frame hL).stake (Ne.symm hcG) k
        simp only [Ledger.owed, hst]

/-- Until settlement, what a wallet paid in net is what the group owes it. -/
theorem net_eq_owed (hr : Reached E h s) (hg : s.group G = some g) (hns : ¬g.isSettled)
    (hV : E.createProgramAddress (.vault G) g.vaultBump = some V) (hw : w ≠ V) :
    ∃ newer e, Latest (Did (Call.creates G)) h newer e ∧
      paidOut G g.mint w newer - paidIn G g.mint w newer + s.ledger.owed E G w = 0 := by
  induction hr generalizing g with
  | start h0 => exact absurd (by rw [State.group_eq_some.1 hg]; trivial) (h0.program G)
  | @snoc h s s' act hr hst ih =>
    have hI := Reached.inv hr
    have hL := hI.toLayout
    cases hn : s.group G with
    | none =>
      obtain ⟨hc, h0, -⟩ := hst.group_new hL hg hn
      have hI' := Reached.inv (.snoc hr hst)
      refine ⟨[], _, .here hc, ?_⟩
      have : s'.ledger.owed E G w = 0 := by
        unfold Ledger.owed
        split
        · by_contra hne
          obtain ⟨r, hr', hG, -⟩ := stakeOf_ne_zero.1 hne
          exact hI'.no_records hg h0 hr' hG
        · rfl
      rw [this]
      rfl
    | some g₀ =>
      obtain ⟨hnc, ⟨-, g₁, hg₁, hsame, hset⟩ | ⟨-, hgone, -⟩⟩ := hst.group hL hn
      swap
      · rw [hg] at hgone
        cases hgone
      obtain rfl : g = g₁ := Option.some.inj (hg.symm.trans hg₁)
      rw [hsame.vaultBump] at hV
      obtain ⟨newer, e, hlat, hnet⟩ := ih hn (fun hs => hns (hset hs)) hV
      refine ⟨_ :: newer, e, hlat.cons hnc, ?_⟩
      rw [hsame.mint, hst.net_open hI hn hg hns hV hw]
      exact hnet

/-! ## Settlement and after -/

/-- A settled group has no vault account. -/
theorem Layout.settled_amount {L : Ledger K} {b : UInt8} (hL : Layout E L) (hg : L.group G = some g)
    (hs : g.isSettled) (hV : E.createProgramAddress (.vault G) b = some V) : L.amount V = 0 := by
  cases ht : L.token V with
  | none => rw [Ledger.amount, ht]; rfl
  | some x =>
    obtain ⟨p, t⟩ := x
    obtain ⟨-, G', g', hseeds, -, hg', hns⟩ := hL.token hV ht
    obtain rfl : G = G' := by simpa using hseeds
    obtain rfl := Option.some.inj (hg.symm.trans hg')
    exact absurd hs hns

/-- Nothing is paid once the group is settled. -/
theorem Step.not_pays (h : Step E s act s') (hL : Layout E s.ledger) (hg : s.group G = some g)
    (hs : g.isSettled) : ¬(Did (Call.paysIn G) (⟨s, act, s'⟩ : StepEntry K) ∨
      Did (Call.paysOut G) (⟨s, act, s'⟩ : StepEntry K)) := by
  intro hp
  cases h with
  | outside => exact (hp.elim id id).elim
  | @call ctx c _ _ events hexec =>
    have hcG : c.groupKey = G := Call.pays_groupKey hp
    subst hcG
    cases (execute_effect hL hexec).paying hL hp with
    | moved hg₁ hns =>
      obtain rfl := Option.some.inj (hg₁.symm.trans hg)
      exact hns hs
    | settled hset hns =>
      obtain rfl := Option.some.inj (hset.group.symm.trans hg)
      exact hns hs

/-- A group is settled by a call that settles. -/
theorem Step.settles (h : Step E s act s') (hL : Layout E s.ledger) (hg : s.group G = some g)
    (hg' : s'.group G = some g') (hns : ¬g.isSettled) (hs' : g'.isSettled) :
    ∃ ctx c events V remaining p t rs burned, act = .call ctx c events ∧
      Settled E s.ledger s'.ledger G V remaining g g' p t rs burned ∧ c.settles G remaining ∧
      c.paysOut G ∧ ((rs = [] ∧ burned = t.amount ∧ ∃ a, c = .emergencyCancel a remaining) ∨
        (rs ≠ [] ∧ burned = 0)) := by
  cases h with
  | outside hout =>
    have := (congrFun hout.group G).symm.trans hg'
    obtain rfl := Option.some.inj (hg.symm.trans this)
    exact absurd hs' hns
  | @call ctx c _ _ events hexec =>
    have he := execute_effect hL hexec
    by_cases hcG : c.groupKey = G
    swap
    · have := ((he.frame hL).group (Ne.symm hcG)).symm.trans hg'
      obtain rfl := Option.some.inj (hg.symm.trans this)
      exact absurd hs' hns
    subst hcG
    by_cases hp : c.paysIn c.groupKey ∨ c.paysOut c.groupKey
    swap
    · exact absurd (((he.still hp).2 hg hg').1 hs') hns
    cases he.paying hL hp with
    | moved _ _ _ _ _ hopen => exact absurd hs' (hopen _ hg')
    | @settled g₁ g₂ V remaining p t rs burned hset _ _ hc hburn =>
      obtain rfl := Option.some.inj (hset.group.symm.trans hg)
      have hpost : s'.ledger.group c.groupKey = some g₂ := by
        rw [hset.post]
        exact update_self ..
      obtain rfl := Option.some.inj (hpost.symm.trans hg')
      refine ⟨ctx, c, events, V, remaining, p, t, rs, burned, rfl, hset, hc, ?_, hburn⟩
      cases c <;> first | exact hc.1 | exact hc.elim

/-- Without members a settlement pays nobody and burns the vault. -/
theorem Settled.burns (hI : Inv E s.ledger) {remaining : List K} {p : TokenProgram}
    {t : TokenAccount K} {burned : UInt64}
    (h : Settled E s.ledger s'.ledger G V remaining g g' p t [] burned) :
    (∀ {k r}, s.record k = some r → r.group ≠ G) ∧
      (∀ k, k ≠ V → s'.ledger.amount k = s.ledger.amount k) ∧
      ∃ q m m', s.mintAt g.mint = some (q, m) ∧ s'.mintAt g.mint = some (q, m') ∧
        m'.supply.toNat + burned.toNat = m.supply.toNat := by
  have h0 : g.currentMembers = 0 := UInt8.toNat_inj.1 h.records_length.symm
  have hnil : chunksExact2 remaining = [] :=
    List.length_eq_zero_iff.1 (h.pairs_length.trans (congrArg UInt8.toNat h0))
  refine ⟨fun hr => hI.no_records h.group h0 hr, fun k hk => ?_, ?_⟩
  · refine h.amount_of_notMem hk ?_
    rw [hnil]
    exact List.not_mem_nil
  · obtain ⟨q, m, hm, -⟩ := hI.mint h.group
    refine ⟨q, m, { m with supply := m.supply - burned }, hm, ?_, ?_⟩
    · have : s'.ledger.mint g.mint = burnedMint s.ledger.mint g.mint burned g.mint := by rw [h.post]
      rw [State.ledger_mint] at this
      rw [this, burnedMint, update_self, hm]
      rfl
    · have hle : burned ≤ m.supply := by
        by_cases hb : 0 < burned
        · obtain ⟨q', m', hm', hle⟩ := h.supply hb
          rw [hm] at hm'
          cases hm'
          exact hle
        · exact UInt64.le_trans (UInt64.not_lt.1 hb) (UInt64.zero_le)
      have := UInt64.le_iff_toNat_le.1 hle
      rw [UInt64.toNat_sub_of_le _ _ hle]
      omega

/-! ## Where tokens go -/

/-- Tokens that left the vault `V` in a call went to members of the group, all of them, or were
burned by an `emergency_cancel` of a group without members. -/
inductive Outflow (G V mint : K) (s s' : State K) (c : Call K) : Prop where
  | members : (∀ k, k ≠ V → s.amount k ≤ s'.amount k) →
      (∀ k, s.amount k < s'.amount k → ∃ p t key r, s.token k = some (p, t) ∧ t.mint = mint ∧
        s.record key = some r ∧ r.group = G ∧ r.member = t.owner) →
      (support fun k => (s'.amount k : ℤ) - s.amount k).Finite →
      ∑ᶠ k, ((s'.amount k : ℤ) - s.amount k) = 0 → Outflow G V mint s s' c
  | burned : (∃ a remaining, c = .emergencyCancel a remaining) →
      (∀ k r, s.record k = some r → r.group ≠ G) → (∀ k, k ≠ V → s'.amount k = s.amount k) →
      (∃ p m m', s.mintAt mint = some (p, m) ∧ s'.mintAt mint = some (p, m') ∧
        m'.supply.toNat + s.amount V = m.supply.toNat + s'.amount V) → Outflow G V mint s s' c

omit [DecidableEq K] in
theorem gain_univ_eq {L L' : Ledger K} :
    gain Set.univ L.amount L'.amount = ∑ᶠ k, ((L'.amount k : ℤ) - L.amount k) := by
  rw [gain, finsum_mem_univ]

theorem Moved.outflow {k M : K} {n : ℤ} {c : Call K}
    (h : Moved E s.ledger s'.ledger G V mint k M n)
    (hdrop : s'.ledger.amount V < s.ledger.amount V)
    (hrec : 0 ≤ n → ∃ key r, s.ledger.record key = some r ∧ r.group = G ∧ r.member = M) :
    Outflow G V mint s s' c := by
  have hn : 0 < n := by
    have := h.vault
    omega
  have hk := h.member
  simp only [State.ledger_amount] at hk
  refine .members (fun x hx => ?_) (fun x hx => ?_) ?_ ?_
  · by_cases hxk : x = k
    · subst hxk
      omega
    · have := h.others x hxk hx
      simp only [State.ledger_amount] at this
      omega
  · have hxk : x = k := by
      by_contra hxk
      by_cases hxV : x = V
      · subst hxV
        simp only [State.ledger_amount] at hdrop
        omega
      · have := h.others x hxk hxV
        simp only [State.ledger_amount] at this
        omega
    subst hxk
    obtain ⟨p, t, ht, hm, ho⟩ := h.account
    obtain ⟨key, r, hr, hG, hM⟩ := hrec hn.le
    exact ⟨p, t, key, r, ht, hm, hr, hG, hM.trans ho.symm⟩
  · have := (Set.toFinite _).subset (support_subset h.changed)
    simpa only [State.ledger_amount] using this
  · have := gain_univ_eq.symm.trans h.total
    simpa only [State.ledger_amount] using this

theorem Settled.outflow {remaining : List K} {p : TokenProgram} {t : TokenAccount K}
    {rs : List (MemberRecord K)}
    (h : Settled E s.ledger s'.ledger G V remaining g g' p t rs 0) {c : Call K} :
    Outflow G V g.mint s s' c := by
  have hkeys := payPlan_keys h.toSettling
  refine .members (fun k hk => ?_) (fun k hk => ?_) ?_ ?_
  · by_cases hm : k ∈ (chunksExact2 remaining).map Prod.snd
    · obtain ⟨q, hq, rfl⟩ := List.mem_map.1 (hkeys ▸ hm)
      have := h.amount_of_mem hq
      simp only [State.ledger_amount] at this
      omega
    · have := h.amount_of_notMem hk hm
      simp only [State.ledger_amount] at this
      omega
  · have hkV : k ≠ V := by
      rintro rfl
      have := h.amount_vault.2
      simp only [State.ledger_amount] at this
      omega
    have hm : k ∈ (chunksExact2 remaining).map Prod.snd := by
      by_contra hm
      have := h.amount_of_notMem hkV hm
      simp only [State.ledger_amount] at this
      omega
    obtain ⟨pair, hp, rfl⟩ := List.mem_map.1 hm
    obtain ⟨r, -, hok⟩ := exists_of_mem_forall₂ h.accepted hp
    obtain ⟨q, u, hu, ho, hmint⟩ := hok.token
    exact ⟨q, u, pair.1, r, hu, hmint, hok.record, hok.group, ho.symm⟩
  · have := (Finset.finite_toSet _).subset (support_subset h.changed)
    simpa only [State.ledger_amount] using this
  · have := h.total
    rw [gain_univ_eq] at this
    simpa [State.ledger_amount] using this

/-- Tokens leave a vault only in a call on its group, and only to its members or into a burn. -/
theorem Step.outflow (h : Step E s act s') (hI : Inv E s.ledger) {b : UInt8}
    (hV : E.createProgramAddress (.vault G) b = some V) (hdrop : s'.amount V < s.amount V) :
    ∃ ctx c events g, act = .call ctx c events ∧ c.groupKey = G ∧ s.group G = some g ∧
      Outflow G V g.mint s s' c := by
  have hL := hI.toLayout
  rw [← State.ledger_amount, ← State.ledger_amount] at hdrop
  obtain ⟨p, t, ht⟩ : ∃ p t, s.ledger.token V = some (p, t) := by
    cases ht : s.ledger.token V with
    | none => rw [Ledger.amount, Ledger.amount, ht] at hdrop; exact absurd hdrop (Nat.not_lt_zero _)
    | some x => exact ⟨x.1, x.2, rfl⟩
  obtain ⟨-, G', g, hseeds, rfl, hg, hns⟩ := hL.token hV ht
  obtain rfl : G = G' := by simpa using hseeds
  cases h with
  | outside hout =>
    obtain ⟨n, hn, ht'⟩ := hout.token hV ht
    have := UInt64.le_iff_toNat_le.1 hn
    simp only [Ledger.amount, ht, ht', amountOf] at hdrop
    omega
  | @call ctx c _ _ events hexec =>
    have he := execute_effect hL hexec
    have hcG : c.groupKey = G := by
      by_contra hne
      rw [Ledger.amount, (he.frame hL).vault (Ne.symm hne) hV] at hdrop
      exact absurd hdrop (lt_irrefl _)
    subst hcG
    have hp : c.paysIn c.groupKey ∨ c.paysOut c.groupKey := by
      by_contra hp
      rw [(he.still hp).1] at hdrop
      exact absurd hdrop (lt_irrefl _)
    refine ⟨ctx, c, events, g, rfl, rfl, hg, ?_⟩
    cases he.paying hL hp with
    | moved hg₁ _ hV₁ hmoved hrec =>
      obtain rfl := Option.some.inj (hg₁.symm.trans hg)
      obtain rfl := Option.some.inj (hV₁.symm.trans hV)
      exact hmoved.outflow hdrop hrec
    | settled hset _ _ _ hburn =>
      obtain rfl := Option.some.inj (hset.group.symm.trans hg)
      obtain rfl := Option.some.inj (hset.vaultAddress.symm.trans hV)
      rcases hburn with ⟨rfl, rfl, a, ha⟩ | ⟨-, rfl⟩
      · obtain ⟨hno, hsame, q, m, m', hm, hm', hsup⟩ := hset.burns hI
        obtain ⟨h₁, h₂⟩ := hset.amount_vault
        simp only [State.ledger_amount] at h₁ h₂ hsame
        exact .burned ⟨a, _, ha⟩ (fun k r hr => hno hr) hsame
          ⟨q, m, m', hm, hm', by omega⟩
      · exact hset.outflow

/-! ## The whole instance -/

/-- How a settled instance came out, over the steps `newer` since its creation: a settlement listed
the members, and everybody is even except the last-listed one, who has the tokens from outside; or
there were no members, everybody is even and the tokens from outside were burned. -/
inductive Outcome (G V mint : K) (newer : List (StepEntry K)) : Prop where
  | members {x : StepEntry K} {ctx : Ctx K} {c : Call K} {events : List (Event K)}
      {remaining : List K} {z : K × K} {r : MemberRecord K} :
      x ∈ newer → x.act = .call ctx c events → c.settles G remaining →
      (chunksExact2 remaining).getLast? = some z → x.pre.record z.1 = some r → r.group = G →
      (∀ w, w ≠ V → paidOut G mint w newer - paidIn G mint w newer =
        if w = r.member then (outsideInto V newer : ℤ) else 0) → Outcome G V mint newer
  | empty {x : StepEntry K} {ctx : Ctx K} {a : EmergencyCancel K} {events : List (Event K)}
      {remaining : List K} :
      x ∈ newer → x.act = .call ctx (.emergencyCancel a remaining) events → a.groupConfig = G →
      (∀ k r, x.pre.record k = some r → r.group ≠ G) →
      (∀ w, w ≠ V → paidOut G mint w newer - paidIn G mint w newer = 0) →
      (∃ p m m', x.pre.mintAt mint = some (p, m) ∧ x.post.mintAt mint = some (p, m') ∧
        m'.supply.toNat + outsideInto V newer = m.supply.toNat) → Outcome G V mint newer

/-- Steps after the settlement change nothing of the outcome. -/
theorem Outcome.cons {newer : List (StepEntry K)} (h : Outcome G V mint newer)
    (hp : ¬(Did (Call.paysIn G) e ∨ Did (Call.paysOut G) e))
    (hout : outsideInto V (e :: newer) = outsideInto V newer) : Outcome G V mint (e :: newer) := by
  cases h with
  | members hx hact hc hz hr hG hnet =>
    refine .members (List.mem_cons_of_mem _ hx) hact hc hz hr hG fun w hw => ?_
    rw [net_cons_of_not hp, hout]
    exact hnet w hw
  | empty hx hact hG hno hnet hsup =>
    refine .empty (List.mem_cons_of_mem _ hx) hact hG hno (fun w hw => ?_) (by rwa [hout])
    rw [net_cons_of_not hp]
    exact hnet w hw

/-- The settlement makes the outcome. -/
theorem outcome_of_settles (hr : Reached E h s) (hst : Step E s act s') (hg : s.group G = some g)
    (hg' : s'.group G = some g') (hns : ¬g.isSettled) (hs' : g'.isSettled)
    (hV : E.createProgramAddress (.vault G) g.vaultBump = some V) {newer : List (StepEntry K)}
    (hlat : Latest (Did (Call.creates G)) h newer e) :
    Outcome G V g.mint (⟨s, act, s'⟩ :: newer) := by
  have hI := Reached.inv hr
  have hL := hI.toLayout
  obtain ⟨ctx, c, events, V', remaining, p, t, rs, burned, rfl, hset, hc, hpays, hburn⟩ :=
    hst.settles hL hg hg' hns hs'
  obtain rfl := Option.some.inj (hset.vaultAddress.symm.trans hV)
  obtain ⟨newer₁, e₁, hlat₁, -, hamt⟩ := amount_eq_outside hr hg hns hV
  obtain ⟨rfl, rfl⟩ := hlat.unique hlat₁
  rw [hset.amount_vault.1] at hamt
  have hnet : ∀ w, w ≠ V' →
      paidOut G g.mint w newer - paidIn G g.mint w newer + s.ledger.owed E G w = 0 := by
    intro w hw
    obtain ⟨newer₂, e₂, hlat₂, hnet⟩ := net_eq_owed hr hg hns hV hw
    obtain ⟨rfl, rfl⟩ := hlat.unique hlat₂
    exact hnet
  have hdid : Did (Call.paysOut G) (⟨s, .call ctx c events, s'⟩ : StepEntry K) := hpays
  have hout : outsideInto V' (⟨s, .call ctx c events, s'⟩ :: newer) = outsideInto V' newer :=
    Nat.zero_add _
  rcases hburn with ⟨rfl, rfl, a, rfl⟩ | ⟨hne, rfl⟩
  · obtain ⟨hno, -, q, m, m', hm, hm', hsup⟩ := hset.burns hI
    have hdep : s.ledger.deposits G = 0 :=
      (deposits_of_accepted hI hg hset.pairs_length hset.nodup hset.accepted).symm
    refine .empty List.mem_cons_self rfl hc.1 (fun k r hk => hno hk) (fun w hw => ?_)
      ⟨q, m, m', hm, hm', by omega⟩
    have h0 : s.ledger.owed E G w = 0 := by
      by_contra h0
      have hml := membersListed_of_accepted hI hg hset.pairs_length hset.nodup hset.accepted
      obtain ⟨pair, hp, r, hr', -⟩ := listed_of_owed hL hml h0
      obtain ⟨r', hr'', hG⟩ := (hml.records pair.1).1 (List.mem_map_of_mem hp)
      exact hno hr'' hG
    have := hnet w hw
    rw [net_cons_of_pays (.inr hdid), hset.gain_of_unlisted hL hw nofun]
    omega
  · obtain ⟨z, r, hz, hrec, hG, hgain⟩ := hset.gain_eq hI hne
    refine .members List.mem_cons_self rfl hc hz hrec hG fun w hw => ?_
    have := hnet w hw
    rw [net_cons_of_pays (.inr hdid), hgain w hw, hout]
    split <;> omega

theorem outcome_of_settled (hr : Reached E h s) (hg : s.group G = some g) (hs : g.isSettled)
    (hV : E.createProgramAddress (.vault G) g.vaultBump = some V) :
    ∃ newer e, Latest (Did (Call.creates G)) h newer e ∧ Outcome G V g.mint newer := by
  induction hr generalizing g with
  | start h0 => exact absurd (by rw [State.group_eq_some.1 hg]; trivial) (h0.program G)
  | @snoc h s s' act hr hst ih =>
    have hI := Reached.inv hr
    have hL := hI.toLayout
    cases hn : s.group G with
    | none =>
      obtain ⟨-, -, ho⟩ := hst.group_new hL hg hn
      exact absurd hs (not_settled_of_open ho)
    | some g₀ =>
      obtain ⟨hnc, ⟨-, g₁, hg₁, hsame, -⟩ | ⟨-, hgone, -⟩⟩ := hst.group hL hn
      swap
      · rw [hg] at hgone
        cases hgone
      obtain rfl : g = g₁ := Option.some.inj (hg.symm.trans hg₁)
      rw [hsame.vaultBump] at hV
      rw [hsame.mint]
      by_cases hs₀ : g₀.isSettled
      · obtain ⟨newer, e, hlat, hout⟩ := ih hn hs₀ hV
        refine ⟨_ :: newer, e, hlat.cons hnc, hout.cons (hst.not_pays hL hn hs₀) ?_⟩
        have h₁ := hL.settled_amount hn hs₀ hV
        have h₂ := (Reached.inv (.snoc hr hst)).toLayout.settled_amount hg hs hV
        rw [State.ledger_amount] at h₁ h₂
        cases act with
        | call => exact Nat.zero_add _
        | outside => simp only [outsideInto, h₁, h₂, Nat.sub_zero, Nat.zero_add]
      · obtain ⟨newer, e, hlat, -⟩ := amount_eq_outside hr hn hs₀ hV
        exact ⟨_ :: newer, e, hlat.cons hnc, outcome_of_settles hr hst hn hg hs₀ hs hV hlat⟩

end

/-- Principal is never lost or diverted: in every run tokens leave the vault of a group only to its
members' token accounts or into the burn of an empty group; and over every settled instance each
wallet has got out what it paid in, up to the tokens from outside that go to the last-listed
member or are burned. -/
theorem principal_safe (hr : Reached E h s) :
    (∀ e ∈ h, ∀ G b V, E.createProgramAddress (.vault G) b = some V →
      e.post.amount V < e.pre.amount V → ∃ ctx c events g, e.act = .call ctx c events ∧
        c.groupKey = G ∧ e.pre.group G = some g ∧ Outflow G V g.mint e.pre e.post c) ∧
    ∀ G g, s.group G = some g → g.status = STATUS_COMPLETED ∨ g.status = STATUS_CANCELLED →
      ∃ V newer e, E.findProgramAddress (.vault G) = some (V, g.vaultBump) ∧
        Latest (Did (Call.creates G)) h newer e ∧ Outcome G V g.mint newer := by
  constructor
  · intro e he G b V hV hdrop
    obtain ⟨hst, h', hr'⟩ := hr.mem he
    exact hst.outflow (Reached.inv hr') hV hdrop
  · intro G g hg hs
    obtain ⟨V, hV, -⟩ := (Reached.inv hr).vault hg
    obtain ⟨newer, e, hlat, hout⟩ := outcome_of_settled hr hg hs (Env.findProgramAddress_create hV)
    exact ⟨V, newer, e, hV, hlat, hout⟩

/-- Two members, settled by `distribute`. -/
theorem principal_safe_distributed : ∃ h s g newer e, Reached symbolic h s ∧
    s.group Demo.G = some g ∧ g.status = STATUS_COMPLETED ∧
    Latest (Did (Call.creates Demo.G)) h newer e ∧ Outcome Demo.G Demo.V g.mint newer := by
  obtain ⟨h, s, hr, hs⟩ := replay_exists
    (Demo.started ++ [(Demo.tx [9] 1209600, Demo.distribute [1, 2])]) (world_genesis 10000 100)
    (fun _ s => (s.group Demo.G).any fun g => g.status == STATUS_COMPLETED) (by decide +kernel)
  simp only [Option.any_eq_true, beq_iff_eq] at hs
  obtain ⟨g, hg, hc⟩ := hs
  obtain ⟨V, newer, e, hV, hlat, hout⟩ := (principal_safe hr).2 Demo.G g hg (.inl hc)
  rw [symbolic_findProgramAddress] at hV
  obtain rfl : Demo.V = V := (Prod.mk.inj (Option.some.inj hV)).1
  exact ⟨h, s, g, newer, e, hr, hg, hc, hlat, hout⟩

end SafeNudge
