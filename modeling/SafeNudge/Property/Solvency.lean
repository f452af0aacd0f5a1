import SafeNudge.Effect.Refusal
import SafeNudge.Invariant.Trace
import SafeNudge.Property.Liveness

/-!
# Vault solvency

While a group is open or active its vault holds the deposits of all its open records and what came
in from outside since the group was created, and nothing else (`vault_solvent`). The pool of the
group carries the proof: calls keep its surplus (`Effect.holds_open`), outside steps donate to it
(`Outside.holds`). So no settlement fails with `VaultShortfall` (`no_shortfall`).
-/

namespace SafeNudge

open Lib Function

variable {K : Type} [DecidableEq K] {E : Env K} {h : List (StepEntry K)} {s s' : State K}

/-- The tokens that came into `V` in outside steps. -/
def outsideInto (V : K) : List (StepEntry K) → Nat
  | [] => 0
  | e :: l =>
    (match e.act with
      | .outside => e.post.amount V - e.pre.amount V
      | .call .. => 0) + outsideInto V l

section
variable {ctx : Ctx K} {L L' : Ledger K} {events : List (Event K)} {c : Call K}

/-- A pool in which nothing but the group changed. -/
theorem Ledger.Holds.congr {G : K} {g g' : GroupConfig K} {p : Pool K} (hp : L.Holds E G g p)
    (hr : L'.record = L.record) (ht : L'.token = L.token)
    (hc : g'.currentMembers = g.currentMembers) (hv : g'.vaultBump = g.vaultBump)
    (hs : g.isSettled → g'.isSettled) : L'.Holds E G g' p := by
  refine ⟨fun k => ?_, hc ▸ hp.count, fun hns V hV => ?_⟩
  · rw [Ledger.stake, hr]
    exact hp.stake k
  · rw [Ledger.amount, ht]
    exact hp.balance (fun h => hns (hs h)) (hv ▸ hV)

/-- A call on a group that stays unsettled keeps the surplus of its pool. -/
theorem Effect.holds_open (hI : Inv E L) (h : Effect E ctx L L' events c) {G : K}
    {g g' : GroupConfig K} (hg : L.group G = some g) (hg' : L'.group G = some g')
    (hns : ¬g'.isSettled) {p : Pool K} (hp : L.Holds E G g p) :
    ∃ p', L'.Holds E G g' p' ∧ p'.surplus = p.surplus := by
  by_cases hG : c.groupKey = G
  swap
  · have hf := h.frame hI.toLayout
    obtain rfl : g = g' := by
      rw [hf.group (Ne.symm hG), hg] at hg'
      exact Option.some.inj hg'
    exact ⟨p, hf.holds (Ne.symm hG) hp, rfl⟩
  subst hG
  cases h with
  | createGroup h =>
    rw [Call.groupKey, h.unused.1] at hg
    cases hg
  | joinGroup h =>
    obtain rfl := Option.some.inj (h.group.symm.trans hg)
    exact ⟨_, h.holds hp hg' (hI.group hg).deposit, rfl⟩
  | leaveGroup h =>
    obtain rfl := Option.some.inj (h.group.symm.trans hg)
    exact ⟨_, h.holds hI.toLayout hp hg', rfl⟩
  | startCycle h =>
    obtain rfl := Option.some.inj (h.group.symm.trans hg)
    rw [h.post] at hg' ⊢
    obtain rfl := eq_of_update_self hg'
    refine ⟨p, hp.congr rfl rfl (by rw [h.group']) (by rw [h.group']) fun hs => ?_, rfl⟩
    exact absurd hs (not_settled_of_open h.isOpen)
  | deposit h =>
    obtain rfl := Option.some.inj (h.group.symm.trans hg)
    have hsame : L'.group = L.group := by
      obtain ⟨q, mt, vt, -, -, -, -, -, -, -, -, hpost⟩ := h.post
      rw [hpost]
    obtain rfl := Option.some.inj (hg.symm.trans (hsame ▸ hg'))
    exact ⟨_, h.holds hI.toLayout hp, rfl⟩
  | distribute h =>
    rw [h.post] at hg'
    obtain rfl := eq_of_update_self hg'
    exact absurd (GroupConfig.completed_isSettled ..) hns
  | emergencyCancel _ h =>
    rw [h.post] at hg'
    obtain rfl := eq_of_update_self hg'
    exact absurd (GroupConfig.cancelled_isSettled ..) hns
  | refundVaultRent h =>
    obtain rfl := Option.some.inj (h.group.symm.trans hg)
    rw [h.post] at hg'
    obtain rfl := Option.some.inj (hg.symm.trans hg')
    exact absurd h.settled hns
  | closeMemberRecord h =>
    obtain rfl := Option.some.inj (h.group.symm.trans hg)
    exact ⟨_, h.holds hI.toLayout hp hg', rfl⟩
  | closeGroup h =>
    obtain ⟨n, -, rfl, -⟩ := h.post
    simp [Call.groupKey] at hg'
  | closeJoinTally h =>
    rw [Call.groupKey, h.closed] at hg
    cases hg
  | setJoinAuthority h =>
    obtain ⟨n, -, -, rfl⟩ := h.post
    obtain rfl := Option.some.inj (hg.symm.trans hg')
    exact ⟨p, hp.congr rfl rfl rfl rfl id, rfl⟩

end

/-- The surplus of the pool of an open or active group is what came in from outside since its
creation. -/
theorem surplus_eq_outside (hr : Reached E h s) {G V : K} {g : GroupConfig K}
    (hg : s.group G = some g) (hns : ¬g.isSettled)
    (hV : E.createProgramAddress (.vault G) g.vaultBump = some V) :
    ∃ newer e p, Latest (Did (Call.creates G)) h newer e ∧ s.ledger.Holds E G g p ∧
      p.surplus = outsideInto V newer := by
  induction hr generalizing g with
  | start h0 => exact absurd (by rw [State.group_eq_some.1 hg]; trivial) (h0.program G)
  | @snoc h s s' act hr hst ih =>
    have hI := Reached.inv hr
    have hL := hI.toLayout
    cases hn : s.group G with
    | none =>
      obtain ⟨hc, -⟩ := hst.group_new hL hg hn
      cases hst with
      | outside => exact hc.elim
      | @call ctx c _ _ events hexec =>
        cases execute_effect hL hexec with
        | @createGroup a _ _ _ _ _ h =>
          have hG : a.groupConfig = G := hc
          subst hG
          exact ⟨[], _, .empty, .here hc, h.holds hL hg, rfl⟩
        | _ => exact hc.elim
    | some g₀ =>
      obtain ⟨hnc, ⟨-, g₁, hg₁, hsame, hset⟩ | ⟨-, hgone, -⟩⟩ := hst.group hL hn
      swap
      · rw [hg] at hgone
        cases hgone
      obtain rfl : g = g₁ := Option.some.inj (hg.symm.trans hg₁)
      rw [hsame.vaultBump] at hV
      obtain ⟨newer, e, p, hlat, hp, hsur⟩ := ih hn (fun hs => hns (hset hs)) hV
      cases hst with
      | @call ctx c _ _ events hexec =>
        obtain ⟨p', hp', hsur'⟩ := (execute_effect hL hexec).holds_open hI hn hg hns hp
        exact ⟨_ :: newer, e, p', hlat.cons hnc, hp', by simp [outsideInto, hsur', hsur]⟩
      | outside hout =>
        obtain rfl : g₀ = g := by
          have := (congrFun hout.group G).symm.trans hg
          exact Option.some.inj (hn.symm.trans this)
        refine ⟨_ :: newer, e, _, hlat.cons hnc, hout.holds hI hn hp hV, ?_⟩
        simp only [Pool.donate, outsideInto, hsur, Nat.add_comm]

/-- What the vault of an open or active group holds. -/
theorem amount_eq_outside (hr : Reached E h s) {G V : K} {g : GroupConfig K}
    (hg : s.group G = some g) (hns : ¬g.isSettled)
    (hV : E.createProgramAddress (.vault G) g.vaultBump = some V) :
    ∃ newer e, Latest (Did (Call.creates G)) h newer e ∧ (support (s.ledger.stake G)).Finite ∧
      s.ledger.amount V = s.ledger.deposits G + outsideInto V newer := by
  obtain ⟨newer, e, p, hlat, hp, hsur⟩ := surplus_eq_outside hr hg hns hV
  obtain ⟨hfin, hdep⟩ := hp.deposits
  exact ⟨newer, e, hlat, hfin, by rw [hp.balance hns hV, hdep, ← hsur, Pool.balance]⟩

/-! ## No shortfall -/

section
variable {groupKey mintKey : K}

theorem validateMemberPair_ne {recordKey tokenKey : K} {seen : List K} :
    validateMemberPair E s recordKey tokenKey groupKey mintKey seen ≠
      .error (.safeNudge .vaultShortfall) := by
  simp [validateMemberPair, bind_eq_error]

theorem distributeValidate_ne {pairs : List (K × K)} {seen : List K} {total : UInt64}
    {settled : List (MemberSettled K)} :
    distributeValidate E s groupKey mintKey pairs seen total settled ≠
      .error (.safeNudge .vaultShortfall) := by
  induction pairs generalizing seen total settled with
  | nil => simp [distributeValidate]
  | cons pair pairs ih => simp [distributeValidate, bind_eq_error, validateMemberPair_ne, ih]

theorem cancelValidate_ne {remaining : List K} {n i : Nat} {seen : List K} {total : UInt64}
    {refunds : List UInt64} :
    cancelValidate E s groupKey mintKey remaining n i seen total refunds ≠
      .error (.safeNudge .vaultShortfall) := by
  induction n generalizing i seen total refunds with
  | zero => simp [cancelValidate]
  | succ n ih => simp [cancelValidate, bind_eq_error, validateMemberPair_ne, ih]

end

section
variable {ctx : Ctx K} {p : TokenProgram} {vault mint : K} {decimals : UInt8}

theorem distributePay_ne {last i : Nat} {pairs : List (K × K)} {settled : List (MemberSettled K)} :
    distributePay E ctx p vault mint decimals last i pairs settled s ≠
      .error (.safeNudge .vaultShortfall) := by
  induction pairs generalizing i settled s with
  | nil => simp [distributePay]
  | cons pair pairs ih =>
    unfold distributePay
    split <;> simp [bind_eq_error, ite_eq_iff, ih]

theorem cancelPay_ne {memberCount n i : Nat} {remaining : List K} {refunds : List UInt64}
    {total : UInt64} :
    cancelPay E ctx p vault mint decimals memberCount remaining refunds n i total s ≠
      .error (.safeNudge .vaultShortfall) := by
  induction n generalizing i total s with
  | zero => simp [cancelPay]
  | succ n ih => simp [cancelPay, bind_eq_error, ite_eq_iff, ih]

omit [DecidableEq K] in
theorem totalPaid_ne {settled : List (MemberSettled K)} {total : UInt64} :
    totalPaid settled total ≠ .error (.safeNudge .vaultShortfall) := by
  induction settled generalizing total with
  | nil => simp [totalPaid]
  | cons e settled ih => simp [totalPaid, bind_eq_error, ih]

omit [DecidableEq K] in
theorem cycleEnd_ne {g : GroupConfig K} :
    g.cycleEnd E ≠ .error (.safeNudge .vaultShortfall) := by
  simp [GroupConfig.cycleEnd, periodDurationSecs, bind_eq_error, ite_eq_iff]

omit [DecidableEq K] in
theorem checkRemaining_ne {n : Nat} {remaining : List K} :
    checkRemaining n remaining ≠ .error (.safeNudge .vaultShortfall) := by
  simp [checkRemaining, bind_eq_error]

end

/-- A list that passes the first pass of a settlement is covered by the vault. -/
theorem covered_of_validated {G V : K} {g : GroupConfig K} {p : TokenProgram} {t : TokenAccount K}
    {pairs : List (K × K)} {rs : List (MemberRecord K)} {total : UInt64} (hI : Inv E s.ledger)
    (hg : s.group G = some g) (hns : ¬g.isSettled)
    (hV : E.createProgramAddress (.vault G) g.vaultBump = some V) (ht : s.token V = some (p, t))
    (hlen : pairs.length = g.currentMembers.toNat)
    (hrs : Validated E s.ledger G g.mint pairs [] 0 total rs) : total ≤ t.amount := by
  obtain ⟨p', t', ht', -, -, hcov⟩ := hI.vault_held hg hns hV
  rw [ht] at ht'
  cases ht'
  have hsum := deposits_of_accepted hI hg hlen hrs.nodup hrs.accepted
  have htot := hrs.total
  refine UInt64.le_iff_toNat_le.2 ?_
  rw [htot, hsum]
  simpa using hcov

theorem distribute_ne_shortfall {ctx : Ctx K} {d : Distribute K} {remaining : List K}
    (hI : Inv E s.ledger) :
    distribute E ctx d remaining s ≠ .error (.safeNudge .vaultShortfall) := by
  intro h
  simp only [distribute, bind_eq_error, require_eq_error, requireSigner_ne, loadGroupConfig_ne,
    loadTokenAccount_ne, loadMint_ne, loadTokenProgram_ne, requireSeeds_ne, cycleEnd_ne,
    checkRemaining_ne, distributeValidate_ne, distributePay_ne, closeAccount_ne, totalPaid_ne,
    pure_eq_error, requireSigner_eq_ok, loadGroupConfig_eq_ok, loadTokenAccount_eq_ok,
    checkRemaining_eq_ok, requireSeeds_eq_ok, require_eq_ok, reduceCtorEq, Error.safeNudge.injEq,
    and_false, false_or, or_false, and_true, exists_const, exists_false] at h
  obtain ⟨-, g, hg, ⟨p, t⟩, ht, -, -, -, -, -, ha, hV, hm, -, -, -, hlen, ⟨total, settled⟩, hval,
    hlt⟩ := h
  obtain ⟨rs, hrs, -⟩ := distributeValidate_eq_ok.1 hval
  exact hlt (covered_of_validated hI hg (not_settled_of_active ha) hV ht
    (chunksExact2_length hlen) (hm ▸ hrs))

theorem emergencyCancel_ne_shortfall {ctx : Ctx K} {e : EmergencyCancel K} {remaining : List K}
    (hI : Inv E s.ledger) :
    emergencyCancel E ctx e remaining s ≠ .error (.safeNudge .vaultShortfall) := by
  intro h
  simp only [emergencyCancel, bind_eq_error, require_eq_error, requireSigner_ne, loadGroupConfig_ne,
    loadTokenAccount_ne, loadMint_ne, loadTokenProgram_ne, requireSeeds_ne, checkRemaining_ne,
    cancelValidate_ne, cancelPay_ne, closeAccount_ne, burnChecked_ne, pure_eq_error, ite_eq_iff,
    requireSigner_eq_ok, loadGroupConfig_eq_ok, loadTokenAccount_eq_ok, checkRemaining_eq_ok,
    requireSeeds_eq_ok, require_eq_ok, reduceCtorEq, Error.safeNudge.injEq, and_false, false_or,
    or_false, and_true, exists_const, exists_false] at h
  obtain ⟨-, g, hg, ⟨p, t⟩, ht, -, -, -, -, -, -, hst, hV, hm, hlen, ⟨total, refunds⟩, hval,
    hlt⟩ := h
  have hcm := g.currentMembers.toNat_lt
  obtain ⟨rs, hrs, -⟩ := (cancelValidate_eq_ok (by omega) (by omega)).1 hval
  rw [Nat.mul_zero, List.drop_zero] at hrs
  exact hlt (covered_of_validated hI hg
    (hst.elim not_settled_of_open not_settled_of_active) hV ht (chunksExact2_length hlen) (hm ▸ hrs))

/-- In every reachable state the vault of an open or active group is there with the group mint and
holds exactly the deposits of the group's open records and what came in from outside since the
group was created; and no settlement, whatever list it is called with, fails with
`VaultShortfall`. -/
theorem vault_solvent (hr : Reached E h s) :
    (∀ G g, s.group G = some g → g.status = STATUS_OPEN ∨ g.status = STATUS_ACTIVE →
      ∃ V p t newer e, E.findProgramAddress (.vault G) = some (V, g.vaultBump) ∧
        s.token V = some (p, t) ∧ t.mint = g.mint ∧
        Latest (Did (Call.creates G)) h newer e ∧ (support (s.ledger.stake G)).Finite ∧
        t.amount.toNat = (∑ᶠ k, s.ledger.stake G k) + outsideInto V newer) ∧
    ∀ ctx remaining,
      (∀ d, distribute E ctx d remaining s ≠ .error (.safeNudge .vaultShortfall)) ∧
      ∀ e, emergencyCancel E ctx e remaining s ≠ .error (.safeNudge .vaultShortfall) := by
  have hI := Reached.inv hr
  refine ⟨fun G g hg hs => ?_, fun _ _ =>
    ⟨fun _ => distribute_ne_shortfall hI, fun _ => emergencyCancel_ne_shortfall hI⟩⟩
  have hns := hs.elim not_settled_of_open not_settled_of_active
  obtain ⟨V, hV, hheld⟩ := hI.vault hg
  have hVc := Env.findProgramAddress_create hV
  obtain ⟨p, t, ht, hm⟩ := hheld hns
  obtain ⟨newer, e, hlat, hfin, hsum⟩ := amount_eq_outside hr hg hns hVc
  refine ⟨V, p, t, newer, e, hV, ht, hm, hlat, hfin, ?_⟩
  rw [Ledger.amount, ht] at hsum
  exact hsum

/-- The vault of an active group of two. -/
theorem vault_solvent_started : ∃ h s g p t newer e, Reached symbolic h s ∧
    s.group Demo.G = some g ∧ s.token Demo.V = some (p, t) ∧ t.amount = 10 ∧
    Latest (Did (Call.creates Demo.G)) h newer e ∧
    t.amount.toNat = (∑ᶠ k, s.ledger.stake Demo.G k) + outsideInto Demo.V newer := by
  obtain ⟨h, s, hr, hs⟩ := replay_exists Demo.started (world_genesis 10000 100) (fun _ s =>
    ((s.group Demo.G).any fun g => g.status == STATUS_ACTIVE) &&
      (s.token Demo.V).any fun x => x.2.amount == 10) (by decide +kernel)
  simp only [Bool.and_eq_true, Option.any_eq_true, beq_iff_eq] at hs
  obtain ⟨⟨g, hg, ha⟩, ⟨p, t⟩, ht, hamt⟩ := hs
  obtain ⟨V, p', t', newer, e, hV, ht', -, hlat, -, hsum⟩ :=
    (vault_solvent hr).1 Demo.G g hg (.inr ha)
  rw [symbolic_findProgramAddress] at hV
  obtain rfl : Demo.V = V := (Prod.mk.inj (Option.some.inj hV)).1
  rw [ht] at ht'
  cases ht'
  exact ⟨h, s, g, p, t, newer, e, hr, hg, ht, hamt, hlat, hsum⟩

end SafeNudge
