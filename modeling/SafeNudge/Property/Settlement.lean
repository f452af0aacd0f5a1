import SafeNudge.Property.Listing

/-!
# What a settlement pays

`distribute` and `emergency_cancel` leave the same state but for the group's status
(`settlements_agree`): both carry out the plan of `payPlan`. `PaidOut` says what that plan does in
terms of the records and the vault balance alone.
-/

namespace SafeNudge

open Lib Function

variable {K : Type} [DecidableEq K] {E : Env K} {ctx ctx' : Ctx K} {h : List (StepEntry K)}
  {s s' : State K} {G V : K} {g : GroupConfig K} {remaining : List K} {p : TokenProgram}
  {t : TokenAccount K} {rs : List (MemberRecord K)}

/-! ## The amounts of the plan -/

/-- What a settlement with these pairs does to the accounts: every listed token account gets its
record's deposits and the last one also what the vault holds beyond all deposits; the vault closes
into the group; nothing else changes, so nothing is burned. -/
structure PaidOut (s X : State K) (G V : K) (pairs : List (K × K)) : Prop where
  covered : s.ledger.deposits G ≤ s.amount V
  paid : ∃ init z, pairs = init ++ [z] ∧
    (∀ pair ∈ init, ∃ r, s.record pair.1 = some r ∧
      X.amount pair.2 = s.amount pair.2 + r.totalDeposited.toNat) ∧
    ∃ r, s.record z.1 = some r ∧ X.amount z.2 = s.amount z.2 + r.totalDeposited.toNat +
      (s.amount V - s.ledger.deposits G)
  tokens : ∀ pair ∈ pairs, ∃ p t n, s.account pair.2 = .token p t ∧
    X.account pair.2 = .token p { t with amount := n }
  others : ∀ k, k ≠ V → k ∉ pairs.map Prod.snd → X.account k = s.account k
  vault : X.account V = .system
  lamports : X.lamports = moveLamports s.lamports V G (s.lamports V)

omit [DecidableEq K] in
theorem depositsSum_append (rs rs' : List (MemberRecord K)) :
    depositsSum (rs ++ rs') = depositsSum rs + depositsSum rs' := by
  simp [depositsSum]

theorem depositsSum_eq {mint : K} {pairs : List (K × K)}
    (h : List.Forall₂ (PairOk E s.ledger G mint) pairs rs) :
    depositsSum rs = ((pairs.map Prod.fst).map (s.ledger.stake G)).sum := by
  induction h with
  | nil => rfl
  | @cons pair r pairs rs hr _ ih =>
    have hst : s.ledger.stake G pair.1 = r.totalDeposited.toNat := by
      rw [Ledger.stake, hr.record, stakeOf, if_pos hr.group]
    rw [depositsSum, List.map_cons, List.sum_cons, ← depositsSum, ih]
    simp [hst]

/-- A list of all members adds up to all deposits. -/
theorem deposits_of_accepted {pairs : List (K × K)} (hI : Inv E s.ledger)
    (hg : s.group G = some g) (hlen : pairs.length = g.currentMembers.toNat)
    (hnd : (pairs.map Prod.fst).Nodup)
    (hacc : List.Forall₂ (PairOk E s.ledger G g.mint) pairs rs) :
    depositsSum rs = s.ledger.deposits G := by
  have hml := membersListed_of_accepted hI hg hlen hnd hacc
  obtain ⟨pool, hp⟩ := hI.custody hg
  have hsub : ∀ k ∈ pairs.map Prod.fst, k ∈ pool.members := fun k hk =>
    (hp.mem hI.toLayout).2 ((hml.records k).1 hk)
  have hsum := Pool.sum_stakes hnd hsub (by rw [List.length_map, hlen, hp.count])
  rw [depositsSum_eq hacc, hp.deposits.2,
    ← (funext fun k => hp.stake k : ⇑pool.stake = s.ledger.stake G)]
  simp only [Pool.balance] at hsum
  omega

theorem forall₂_concat {α β : Type} {R : α → β → Prop} {l : List α} {l' : List β} {x : α} {y : β} :
    List.Forall₂ R (l ++ [x]) (l' ++ [y]) ↔ List.Forall₂ R l l' ∧ R x y := by
  rw [← List.forall₂_reverse_iff, List.reverse_append, List.reverse_append]
  simp [and_comm]

omit [DecidableEq K] in
/-- The plan, in terms of the last pair and the others. -/
theorem payPlan_split {L : Ledger K} (h : Settling E L G V remaining g p t rs) (hne : rs ≠ []) :
    ∃ init z rs' r, chunksExact2 remaining = init ++ [z] ∧ rs = rs' ++ [r] ∧
      List.Forall₂ (PairOk E L G g.mint) init rs' ∧ PairOk E L G g.mint z r ∧
      payPlan remaining rs t.amount =
        (init.map Prod.snd).zip (rs'.map (·.totalDeposited)) ++
          [(z.2, (rs'.map (·.totalDeposited)).foldl (· - ·) t.amount)] := by
  have hp : chunksExact2 remaining ≠ [] := by
    intro hp
    have := h.accepted.length_eq
    rw [hp, List.length_nil, eq_comm, List.length_eq_zero_iff] at this
    exact hne this
  obtain ⟨init, z, hpairs⟩ : ∃ init z, chunksExact2 remaining = init ++ [z] :=
    ⟨_, _, (List.dropLast_append_getLast hp).symm⟩
  obtain ⟨rs', r, rfl⟩ : ∃ rs' r, rs = rs' ++ [r] := ⟨_, _, (List.dropLast_append_getLast hne).symm⟩
  obtain ⟨hinit, hz⟩ := forall₂_concat.1 (hpairs ▸ h.accepted)
  refine ⟨init, z, rs', r, hpairs, rfl, hinit, hz, ?_⟩
  rw [payPlan, hpairs, List.map_append, List.map_append, List.map_singleton, List.map_singleton,
    payouts_concat, List.zip_append (by simpa using hinit.length_eq)]
  rfl

/-- The payouts and the close of the vault. -/
theorem paidOut_of_plan {q : TokenProgram} {mint : K} {d : UInt8} {s₁ : State K}
    (hI : Inv E s.ledger) (hS : Settling E s.ledger G V remaining g p t rs) (hne : rs ≠ [])
    (hpay : payAll E ctx q V mint d (payPlan remaining rs t.amount) s = .ok s₁) :
    PaidOut s (s₁.close V G) G V (chunksExact2 remaining) := by
  have hL := hI.toLayout
  obtain ⟨hroom, n, hn, hvn, hled⟩ := payAll_settling hS hL.selfOwned hL.placed hpay
  have hkeys := payPlan_keys hS
  have hneV := pairs_ne_vault hS.accepted hL.selfOwned hL.placed hS.vaultAddress
  have hnd := tokens_nodup hS.accepted hS.nodup hL.placed
  have hneV' : ∀ y ∈ payPlan remaining rs t.amount, y.1 ≠ V := by
    intro y hy
    obtain ⟨pair, hpair, he⟩ := List.mem_map.1 (hkeys ▸ List.mem_map_of_mem hy)
    exact he ▸ hneV pair hpair
  obtain ⟨hlam, hacc⟩ := payAll_account (State.token_eq_some.1 hS.held) hneV' hpay
  have hsum := deposits_of_accepted hI hS.group hS.pairs_length hS.nodup hS.accepted
  have hamt : s.amount V = t.amount.toNat := by
    rw [← State.ledger_amount, Ledger.amount, hS.held]
    rfl
  -- what is paid to one of the listed accounts
  have hpaid : ∀ y ∈ payPlan remaining rs t.amount,
      (s₁.close V G).amount y.1 = s.amount y.1 + y.2.toNat ∧
        ∃ p t₁ n, s.account y.1 = .token p t₁ ∧
          (s₁.close V G).account y.1 = .token p { t₁ with amount := n } := by
    intro y hy
    have hyV := hneV' y hy
    have htok : s₁.token y.1 = creditAll s.token (payPlan remaining rs t.amount) y.1 := by
      have := congrFun (congrArg Ledger.token hled) y.1
      simpa [update_of_ne hyV] using this
    have hcl : (s₁.close V G).account y.1 = s₁.account y.1 := by
      simp [State.close_eq, update_of_ne hyV]
    obtain ⟨pair, hpair, he⟩ := List.mem_map.1 (hkeys ▸ List.mem_map_of_mem hy)
    obtain ⟨r, -, hr⟩ := exists_of_mem_forall₂ hS.accepted hpair
    obtain ⟨p₁, t₁, ht₁, -⟩ := hr.token
    rw [he] at ht₁
    have ht₁' : s.token y.1 = some (p₁, t₁) := ht₁
    refine ⟨?_, p₁, t₁, t₁.amount + y.2, State.token_eq_some.1 ht₁', ?_⟩
    · have := amountOf_creditAll (hkeys ▸ hnd) hy (hroom y hy)
      rw [State.amount, hcl, ← State.amount, ← State.ledger_amount, ← State.ledger_amount,
        Ledger.amount, Ledger.amount, State.ledger_token, htok]
      exact this
    · rw [hcl]
      refine State.token_eq_some.1 ?_
      rw [htok, creditAll_of_mem (hkeys ▸ hnd) hy, ht₁']
      rfl
  have hcov := hS.covered
  rw [hsum] at hcov
  refine ⟨hamt ▸ hcov, ?_, fun pair hpair => ?_, fun k hk hm => ?_, ?_, ?_⟩
  · obtain ⟨init, z, rs', r, hpairs, rfl, hinit, hz, hplan⟩ := payPlan_split hS hne
    rw [hplan] at hpaid
    refine ⟨init, z, hpairs, fun pair hpair => ?_, r, hz.record, ?_⟩
    · obtain ⟨i, hi, rfl⟩ := List.getElem_of_mem hpair
      have hi' : i < rs'.length := hinit.length_eq ▸ hi
      refine ⟨rs'[i], (List.Forall₂.get hinit hi hi').record, (hpaid (_, _) ?_).1⟩
      refine List.mem_append_left _ (List.mem_iff_getElem.2 ⟨i, by simp [hi, hi'], ?_⟩)
      simp
    · rw [(hpaid _ (List.mem_append_right _ List.mem_cons_self)).1]
      have hle := hS.covered
      rw [depositsSum_append] at hle hsum
      rw [toNat_foldl_sub (by rw [List.map_map]; exact Nat.le_trans (Nat.le_add_right ..) hle), hamt,
        ← hsum, List.map_map]
      simp only [depositsSum, List.map_cons, List.map_nil, List.sum_cons, List.sum_nil] at hle ⊢
      change _ + (t.amount.toNat - (rs'.map (·.totalDeposited.toNat)).sum) = _
      omega
  · have hm : pair.2 ∈ (payPlan remaining rs t.amount).map Prod.fst :=
      hkeys ▸ List.mem_map_of_mem hpair
    obtain ⟨y, hy, he⟩ := List.mem_map.1 hm
    exact he ▸ (hpaid y hy).2
  · rw [State.close_eq, State.account_set, update_of_ne hk]
    exact hacc k hk (hkeys ▸ hm)
  · rw [State.close_eq, State.account_set, update_self]
  · rw [State.close_eq, State.lamports_set, State.lamports_transferLamports, hlam]

/-! ## The two instructions -/

/-- The part both settlements of a group with members share: `X` is the state after the payouts
and the close of the vault. -/
def Settles (E : Env K) (ctx : Ctx K) (s : State K) (G V mint tokenProgram : K)
    (remaining : List K) (g : GroupConfig K) (X : State K) : Prop :=
  ∃ p t rs q m s₁, Settling E s.ledger G V remaining g p t rs ∧ tokenProgram = E.tokenKey p ∧
    mint = g.mint ∧ s.account mint = .mint q m ∧
    payAll E ctx p V mint m.decimals (payPlan remaining rs t.amount) s = .ok s₁ ∧
    closeAccount E ctx p V G V s₁ = .ok X

section
variable {mint tokenProgram : K} {X Y : State K}

theorem Settles.of_refuses (h : Settles E ctx s G V mint tokenProgram remaining g X)
    (hr : ctx'.refuses = ctx.refuses) :
    Settles E ctx' s G V mint tokenProgram remaining g X := by
  obtain ⟨p, t, rs, q, m, s₁, hS, htp, hm, hacc, hpay, hcl⟩ := h
  exact ⟨p, t, rs, q, m, s₁, hS, htp, hm, hacc, (payAll_ctx hr).trans hpay, by
    simpa only [closeAccount, hr] using hcl⟩

omit [DecidableEq K] in
theorem Settling.unique {g' : GroupConfig K} {p' : TokenProgram} {t' : TokenAccount K}
    {rs' : List (MemberRecord K)} (h : Settling E s.ledger G V remaining g p t rs)
    (h' : Settling E s.ledger G V remaining g' p' t' rs') : p = p' ∧ t = t' ∧ rs = rs' := by
  have hg : g = g' := Option.some.inj (h.group.symm.trans h'.group)
  subst hg
  have hheld := h.held.symm.trans h'.held
  simp only [Option.some.injEq, Prod.mk.injEq] at hheld
  refine ⟨hheld.1, hheld.2, ?_⟩
  have huniq : Relator.RightUnique (PairOk E s.ledger G g.mint) := fun pair r r' hr hr' =>
    Option.some.inj (hr.record.symm.trans hr'.record)
  exact huniq.forall₂ h.accepted h'.accepted

theorem Settles.unique (h : Settles E ctx s G V mint tokenProgram remaining g X)
    (h' : Settles E ctx s G V mint tokenProgram remaining g Y) : X = Y := by
  obtain ⟨p, t, rs, q, m, s₁, hS, -, -, hacc, hpay, hcl⟩ := h
  obtain ⟨p', t', rs', q', m', s₁', hS', -, -, hacc', hpay', hcl'⟩ := h'
  obtain ⟨rfl, rfl, rfl⟩ := hS.unique hS'
  rw [hacc] at hacc'
  cases hacc'
  rw [hpay] at hpay'
  cases hpay'
  rw [hcl] at hcl'
  cases hcl'
  rfl

theorem Settles.paidOut (hI : Inv E s.ledger) (hg : g.currentMembers ≠ 0)
    (h : Settles E ctx s G V mint tokenProgram remaining g X) :
    PaidOut s X G V (chunksExact2 remaining) := by
  obtain ⟨p, t, rs, q, m, s₁, hS, -, -, -, hpay, hcl⟩ := h
  obtain ⟨-, -, -, -, -, -, rfl⟩ := closeAccount_eq_ok.1 hcl
  refine paidOut_of_plan hI hS (fun h0 => hg ?_) hpay
  have := hS.records_length
  rw [h0, List.length_nil] at this
  exact UInt8.toNat_inj.1 this.symm

end

/-- The token program of a settlement that pays is that of the vault. -/
theorem closeAccount_settling {q : TokenProgram} {mint : K} {d : UInt8} {s₁ X : State K}
    (hI : Inv E s.ledger) (hS : Settling E s.ledger G V remaining g p t rs)
    (hpay : payAll E ctx q V mint d (payPlan remaining rs t.amount) s = .ok s₁)
    (hcl : closeAccount E ctx q V G V s₁ = .ok X) : p = q := by
  obtain ⟨-, n, -, hvn, -⟩ := payAll_settling hS hI.toLayout.selfOwned hI.toLayout.placed hpay
  obtain ⟨t', ht', -⟩ := closeAccount_eq_ok.1 hcl
  rw [hvn] at ht'
  cases ht'
  rfl

omit [DecidableEq K] in
theorem payouts_total (hS : Settling E s.ledger G V remaining g p t rs)
    (h0 : g.currentMembers ≠ 0) :
    t.amount.toNat = ((payouts (rs.map (·.totalDeposited)) t.amount).map UInt64.toNat).sum := by
  refine (sum_payouts (fun hn => h0 ?_) ?_).symm
  · have := hS.records_length
    rw [List.map_eq_nil_iff.1 hn, List.length_nil] at this
    exact UInt8.toNat_inj.1 this.symm
  · rw [List.map_map]
    exact hS.covered

/-- `distribute` on an active group whose cycle has ended. -/
theorem distribute_iff {d : Distribute K} (hI : Inv E s.ledger)
    (hg : s.group d.groupConfig = some g) (ha : g.status = STATUS_ACTIVE)
    (hend : ∃ c, g.cycleEnd E = .ok c ∧ c ≤ ctx.unixTimestamp) (hp : Signed E ctx d.payer) :
    (∃ events, distribute E ctx d remaining s = .ok (s', events)) ↔
      ∃ X, Settles E ctx s d.groupConfig d.vault d.mint d.tokenProgram remaining g X ∧
        s' = X.set d.groupConfig (.groupConfig (g.completed ctx.unixTimestamp)) := by
  have hL := hI.toLayout
  constructor
  · rintro ⟨events, h⟩
    obtain ⟨g', p, p₀, t, rs, q, m, s₁, X, total, hS, hP, hacc, hpay, hcl, -, rfl, -⟩ :=
      (distribute_eq_ok hL.selfOwned hL.placed).1 h
    obtain rfl : g' = g := Option.some.inj (hS.group.symm.trans hg)
    obtain rfl := closeAccount_settling hI hS hpay hcl
    exact ⟨X, ⟨p₀, t, rs, q, m, s₁, hS, hP.tokenProgram, hP.mint, hacc, hpay, hcl⟩, rfl⟩
  · rintro ⟨X, ⟨p, t, rs, q, m, s₁, hS, htp, hm, hacc, hpay, hcl⟩, rfl⟩
    have h0 : g.currentMembers ≠ 0 := by
      have := UInt8.le_iff_toNat_le.1 ((hI.group hg).active ha).1
      rintro h0
      simp [h0] at this
    exact ⟨_, (distribute_eq_ok hL.selfOwned hL.placed).2 ⟨g, p, p, t, rs, q, m, s₁, X, t.amount, hS,
      ⟨hp, htp, ha, hm, hend⟩, hacc, hpay, hcl, payouts_total hS h0, rfl, rfl⟩⟩

/-- `emergency_cancel` on a group with members. -/
theorem emergencyCancel_iff {e : EmergencyCancel K} (hI : Inv E s.ledger)
    (hg : s.group e.groupConfig = some g) (hs : g.status = STATUS_OPEN ∨ g.status = STATUS_ACTIVE)
    (h0 : g.currentMembers ≠ 0) (hsig : Signed E ctx e.creator) (hcr : g.creator = e.creator) :
    (∃ events, emergencyCancel E ctx e remaining s = .ok (s', events)) ↔
      ∃ X, Settles E ctx s e.groupConfig e.vault e.mint e.tokenProgram remaining g X ∧
        s' = X.set e.groupConfig (.groupConfig (g.cancelled ctx.unixTimestamp)) := by
  have hL := hI.toLayout
  have hun : ∀ v, unowedVaultBalance g.currentMembers.toNat v = 0 := fun v =>
    if_neg fun h => h0 (UInt8.toNat_inj.1 h)
  constructor
  · rintro ⟨events, h⟩
    obtain ⟨g', p, p₀, t, rs, q, m, s₁, s₂, X, total, hS, hP, hacc, hpay, hburn, hcl, -, rfl, -⟩ :=
      (emergencyCancel_eq_ok hL.selfOwned hL.placed).1 h
    obtain rfl : g' = g := Option.some.inj (hS.group.symm.trans hg)
    rw [hun, burnUnowed, if_neg (by simp)] at hburn
    cases hburn
    obtain rfl := closeAccount_settling hI hS hpay hcl
    exact ⟨X, ⟨p₀, t, rs, q, m, s₁, hS, hP.tokenProgram, hP.mint, hacc, hpay, hcl⟩, rfl⟩
  · rintro ⟨X, ⟨p, t, rs, q, m, s₁, hS, htp, hm, hacc, hpay, hcl⟩, rfl⟩
    refine ⟨_, (emergencyCancel_eq_ok hL.selfOwned hL.placed).2 ⟨g, p, p, t, rs, q, m, s₁, s₁, X,
      t.amount, hS, ⟨hsig, htp, hcr, hs, hm, fun h => ?_⟩, hacc, hpay, ?_, hcl,
      payouts_total hS h0, rfl, rfl⟩⟩
    · rw [hun] at h
      exact absurd h (by simp)
    · rw [hun, burnUnowed, if_neg (by simp)]

/-! ## Order of the list -/

section
variable {X Y : State K} {pairs pairs' init init' : List (K × K)} {z z' : K × K}

theorem PaidOut.amount (h : PaidOut s X G V pairs) (hnd : (pairs.map Prod.snd).Nodup)
    (hz : pairs = init ++ [z]) {pair : K × K} (hp : pair ∈ pairs) :
    ∃ r, s.record pair.1 = some r ∧ X.amount pair.2 = s.amount pair.2 + r.totalDeposited.toNat +
      if pair.2 = z.2 then s.amount V - s.ledger.deposits G else 0 := by
  obtain ⟨init₀, z₀, hz₀, hinit, hlast⟩ := h.paid
  obtain ⟨rfl, rfl⟩ : init₀ = init ∧ z₀ = z := by
    have := List.append_inj' (hz₀.symm.trans hz) rfl
    simpa using this
  subst hz
  rcases List.mem_append.1 hp with hp | hp
  · obtain ⟨r, hr, ha⟩ := hinit pair hp
    have hne : pair.2 ≠ z₀.2 := by
      intro he
      rw [List.map_append, List.nodup_append] at hnd
      exact hnd.2.2 _ (List.mem_map_of_mem hp) _ (by simp) he
    exact ⟨r, hr, by rw [ha, if_neg hne, Nat.add_zero]⟩
  · obtain rfl : pair = z₀ := by simpa using hp
    obtain ⟨r, hr, ha⟩ := hlast
    exact ⟨r, hr, by rw [ha, if_pos rfl]⟩

/-- Lists with the same pairs settle alike, but for the member that gets the excess. -/
theorem PaidOut.perm (h : PaidOut s X G V pairs) (h' : PaidOut s Y G V pairs')
    (hnd : (pairs.map Prod.snd).Nodup) (hperm : pairs'.Perm pairs) (hz : pairs = init ++ [z])
    (hz' : pairs' = init' ++ [z']) :
    X.lamports = Y.lamports ∧ (∀ k, k ≠ z.2 → k ≠ z'.2 → X.account k = Y.account k) ∧
      ∀ k, X.amount k + (if k = z'.2 then s.amount V - s.ledger.deposits G else 0) =
        Y.amount k + (if k = z.2 then s.amount V - s.ledger.deposits G else 0) := by
  have hnd' : (pairs'.map Prod.snd).Nodup := (hperm.map _).nodup_iff.2 hnd
  have hzm : z ∈ pairs := hz ▸ List.mem_append_right _ List.mem_cons_self
  have hzm' : z' ∈ pairs := hperm.subset (hz' ▸ List.mem_append_right _ List.mem_cons_self)
  have hamount : ∀ k, X.amount k + (if k = z'.2 then s.amount V - s.ledger.deposits G else 0) =
      Y.amount k + (if k = z.2 then s.amount V - s.ledger.deposits G else 0) := by
    intro k
    by_cases hk : k ∈ pairs.map Prod.snd
    · obtain ⟨pair, hp, rfl⟩ := List.mem_map.1 hk
      obtain ⟨r, hr, ha⟩ := h.amount hnd hz hp
      obtain ⟨r', hr', ha'⟩ := h'.amount hnd' hz' (hperm.symm.subset hp)
      rw [hr] at hr'
      cases hr'
      omega
    · have hkz : k ≠ z.2 := by rintro rfl; exact hk (List.mem_map_of_mem hzm)
      have hkz' : k ≠ z'.2 := by rintro rfl; exact hk (List.mem_map_of_mem hzm')
      rw [if_neg hkz, if_neg hkz']
      by_cases hkV : k = V
      · subst hkV
        rw [State.amount, State.amount, h.vault, h'.vault]
      · rw [State.amount, State.amount, h.others k hkV hk,
          h'.others k hkV fun hm => hk ((hperm.map _).subset hm)]
  refine ⟨h.lamports.trans h'.lamports.symm, fun k hkz hkz' => ?_, hamount⟩
  by_cases hkV : k = V
  · subst hkV
    rw [h.vault, h'.vault]
  · by_cases hk : k ∈ pairs.map Prod.snd
    · obtain ⟨pair, hp, rfl⟩ := List.mem_map.1 hk
      obtain ⟨q, t, n, ht, hX⟩ := h.tokens pair hp
      obtain ⟨q', t', n', ht', hY⟩ := h'.tokens pair (hperm.symm.subset hp)
      rw [ht] at ht'
      cases ht'
      have ha := hamount pair.2
      rw [if_neg hkz, if_neg hkz', State.amount, State.amount, hX, hY] at ha
      have hn : n = n' := UInt64.toNat_inj.1 (by simpa [Account.amount] using ha)
      rw [hX, hY, hn]
    · rw [h.others k hkV hk, h'.others k hkV fun hm => hk ((hperm.map _).subset hm)]

/-- Writing the group does not matter to the token amounts. -/
theorem PaidOut.amount_set {remaining' : List K} (h : PaidOut s X G V (chunksExact2 remaining'))
    (hS : Settling E s.ledger G V remaining g p t rs) (g' : GroupConfig K) (k : K) :
    (X.set G (.groupConfig g')).amount k = X.amount k := by
  by_cases hk : k = G
  · subst hk
    have hgrp : s.account k = .groupConfig g := State.group_eq_some.1 hS.group
    have hkV : k ≠ V := Env.address_ne hS.address hS.vaultAddress nofun
    have hkt : k ∉ (chunksExact2 remaining').map Prod.snd := by
      intro hm
      obtain ⟨pair, hp, rfl⟩ := List.mem_map.1 hm
      obtain ⟨q, t', n, ht, -⟩ := h.tokens pair hp
      rw [hgrp] at ht
      cases ht
    rw [State.amount, State.amount, h.others k hkV hkt, hgrp]
    simp [Account.amount]
  · simp [State.amount, update_of_ne hk]

end

/-- On an active group past the end of its cycle, `distribute` by anyone and `emergency_cancel` by
the creator succeed on the same lists and leave the same state but for the group's status; the
order of a list decides only which member gets the excess of the vault. -/
theorem settlements_agree (hr : Reached E h s) (hg : s.group G = some g)
    (ha : g.status = STATUS_ACTIVE) (hnow : ctx'.unixTimestamp = ctx.unixTimestamp)
    (href : ctx'.refuses = ctx.refuses)
    (hend : ∀ c, g.cycleEnd E = .ok c → c ≤ ctx.unixTimestamp) {d : Distribute K}
    {e : EmergencyCancel K} (hd : d.groupConfig = G) (he : e.groupConfig = G)
    (hv : e.vault = d.vault) (hm : e.mint = d.mint) (hp : e.tokenProgram = d.tokenProgram)
    (hpayer : Signed E ctx d.payer) (hsig : Signed E ctx' e.creator)
    (hcr : g.creator = e.creator) (remaining : List K) :
    ((∃ r, distribute E ctx d remaining s = .ok r) ↔
      ∃ r, emergencyCancel E ctx' e remaining s = .ok r) ∧
    (∀ s₁ events₁ s₂ events₂, distribute E ctx d remaining s = .ok (s₁, events₁) →
      emergencyCancel E ctx' e remaining s = .ok (s₂, events₂) →
      ∃ X, PaidOut s X G d.vault (chunksExact2 remaining) ∧
        s₁ = X.set G (.groupConfig { g with
          status := STATUS_COMPLETED, settledAt := ctx.unixTimestamp }) ∧
        s₂ = X.set G (.groupConfig { g with
          status := STATUS_CANCELLED, settledAt := ctx.unixTimestamp })) ∧
    ∀ remaining' s₁ events₁ s₂ events₂ init z init' z',
      (chunksExact2 remaining').Perm (chunksExact2 remaining) →
      chunksExact2 remaining = init ++ [z] → chunksExact2 remaining' = init' ++ [z'] →
      distribute E ctx d remaining s = .ok (s₁, events₁) →
      distribute E ctx d remaining' s = .ok (s₂, events₂) →
      s₁.lamports = s₂.lamports ∧ (∀ k, k ≠ z.2 → k ≠ z'.2 → s₁.account k = s₂.account k) ∧
      ∀ k, s₁.amount k + (if k = z'.2 then s.amount d.vault - s.ledger.deposits G else 0) =
        s₂.amount k + (if k = z.2 then s.amount d.vault - s.ledger.deposits G else 0) := by
  subst hd
  have hI := Reached.inv hr
  have hok := hI.group hg
  obtain ⟨hmem, c, hc⟩ := hok.active ha
  have h0 : g.currentMembers ≠ 0 := by
    have := UInt8.le_iff_toNat_le.1 hmem
    rintro h0
    simp [h0] at this
  have hdist := fun (l : List K) (s₁ : State K) =>
    @distribute_iff _ _ E ctx s s₁ g l d hI hg ha ⟨c, hc, hend c hc⟩ hpayer
  have hcanc := fun (s₁ : State K) =>
    @emergencyCancel_iff _ _ E ctx' s s₁ g remaining e hI (he ▸ hg) (.inr ha) h0 hsig hcr
  rw [he, hv, hm, hp, hnow] at hcanc
  refine ⟨⟨?_, ?_⟩, ?_, ?_⟩
  · rintro ⟨⟨s₁, events⟩, h⟩
    obtain ⟨X, hX, -⟩ := (hdist _ _).1 ⟨events, h⟩
    obtain ⟨ev, h'⟩ := (hcanc _).2 ⟨X, hX.of_refuses href, rfl⟩
    exact ⟨_, h'⟩
  · rintro ⟨⟨s₁, events⟩, h⟩
    obtain ⟨X, hX, -⟩ := (hcanc _).1 ⟨events, h⟩
    obtain ⟨ev, h'⟩ := (hdist _ _).2 ⟨X, hX.of_refuses href.symm, rfl⟩
    exact ⟨_, h'⟩
  · intro s₁ ev₁ s₂ ev₂ h₁ h₂
    obtain ⟨X, hX, rfl⟩ := (hdist _ _).1 ⟨ev₁, h₁⟩
    obtain ⟨Y, hY, rfl⟩ := (hcanc _).1 ⟨ev₂, h₂⟩
    obtain rfl := hX.unique (hY.of_refuses href.symm)
    exact ⟨X, hX.paidOut hI h0, rfl, rfl⟩
  · intro remaining' s₁ ev₁ s₂ ev₂ init z init' z' hperm hz hz' h₁ h₂
    obtain ⟨X, hX, rfl⟩ := (hdist _ _).1 ⟨ev₁, h₁⟩
    obtain ⟨Y, hY, rfl⟩ := (hdist _ _).1 ⟨ev₂, h₂⟩
    obtain ⟨p, t, rs, q, m, s₁, hS, -⟩ := id hX
    have hnd := tokens_nodup hS.accepted hS.nodup hI.toLayout.placed
    obtain ⟨hl, hacc, ham⟩ := (hX.paidOut hI h0).perm (hY.paidOut hI h0) hnd hperm hz hz'
    refine ⟨hl, fun k hk hk' => ?_, fun k => ?_⟩
    · by_cases hkG : k = d.groupConfig
      · subst hkG
        simp
      · simpa [update_of_ne hkG] using hacc k hk hk'
    · rw [(hX.paidOut hI h0).amount_set hS, (hY.paidOut hI h0).amount_set hS]
      exact ham k

/-- After the cycle of two members. -/
theorem settlements_agree_started : ∃ h s, Reached symbolic h s ∧
    ∃ s₁ events₁ s₂ events₂,
      distribute symbolic (Demo.tx [9] 1300000) Demo.distributeAccounts (Demo.members [1, 2]) s
        = .ok (s₁, events₁) ∧
      emergencyCancel symbolic (Demo.tx [0] 1300000) Demo.cancelAccounts (Demo.members [1, 2]) s
        = .ok (s₂, events₂) ∧
      ∃ X, PaidOut s X Demo.G Demo.V (chunksExact2 (Demo.members [1, 2])) := by
  obtain ⟨h, s, hr, hs⟩ := replay_exists Demo.started (world_genesis 10000 100) (fun _ s =>
    (s.group Demo.G).any (fun g => decide (g.status = STATUS_ACTIVE) && g.creator == .wallet 0 &&
      (g.cycleEnd symbolic).toOption.all (fun c => decide (c ≤ 1300000))) &&
    (distribute symbolic (Demo.tx [9] 1300000) Demo.distributeAccounts (Demo.members [1, 2]) s).isOk)
    (by decide +kernel)
  simp only [Bool.and_eq_true, Option.any_eq_true, decide_eq_true_eq, isOk_eq_true, beq_iff_eq] at hs
  obtain ⟨⟨g, hg, ⟨ha, hcr⟩, hc⟩, ⟨s₁, events₁⟩, h₁⟩ := hs
  have hend : ∀ c, g.cycleEnd symbolic = .ok c → c ≤ (Demo.tx [9] 1300000).unixTimestamp := by
    intro c h
    rw [h] at hc
    simpa [Except.toOption, Demo.tx] using hc
  have hall := @settlements_agree _ _ symbolic (Demo.tx [9] 1300000) (Demo.tx [0] 1300000) h s
    Demo.G g hr hg ha rfl rfl hend Demo.distributeAccounts Demo.cancelAccounts rfl rfl rfl rfl rfl
    ⟨List.mem_cons_self, rfl⟩ ⟨List.mem_cons_self, rfl⟩ hcr (Demo.members [1, 2])
  obtain ⟨⟨s₂, events₂⟩, h₂⟩ := hall.1.1 ⟨_, h₁⟩
  obtain ⟨X, hX, -⟩ := hall.2.1 s₁ events₁ s₂ events₂ h₁ h₂
  exact ⟨h, s, hr, s₁, events₁, s₂, events₂, h₁, h₂, X, hX⟩

end SafeNudge
