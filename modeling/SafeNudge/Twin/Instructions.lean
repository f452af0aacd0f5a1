import SafeNudge.Effect.Membership
import SafeNudge.Model.Run
import SafeNudge.Twin.State

/-!
# Instructions in twin states

An instruction that does not name a tally of `D` goes the same way in both states: it fails in
both, or it succeeds in both with the same events and leaves them twins (`Twin.execute`).
-/

namespace SafeNudge

open Lib
open Function (update)

variable {K : Type}

/-- The same events, and twin states. -/
def Alike (D : Set K) (u v : K → Account K) (x y : State K × List (Event K)) : Prop :=
  Twin D u v x.1 y.1 ∧ x.2 = y.2

/-- An event without the join count of `member_joined`. -/
def Event.withoutJoins : Event K → Event K
  | .memberJoined group member rentPayer amount currentMembers _ =>
    .memberJoined group member rentPayer amount currentMembers 0
  | e => e

namespace Twin

variable [DecidableEq K] {E : Env K} {ctx : Ctx K} {D : Set K} {u v : K → Account K}
  {s t : State K}

theorem createGroup (hS : Spots E D u v) (h : Twin D u v s t) (a : CreateGroup K)
    (groupCode : String) (depositAmount : UInt64) (frequency totalPeriods maxMembers : UInt8) :
    Lockstep (Alike D u v)
      (createGroup E ctx a groupCode depositAmount frequency totalPeriods maxMembers s)
      (createGroup E ctx a groupCode depositAmount frequency totalPeriods maxMembers t) := by
  unfold SafeNudge.createGroup
  refine .same fun _ _ => .same fun _ hp => .next (h.loadMint hS _) fun m _ => .same fun p _ =>
    .same fun bump hG => ?_
  have hp := hS.notMem_of_canSign (requireSigner_eq_ok.1 hp).2
  have hG : a.groupConfig ∉ D :=
    hS.notMem (Env.findProgramAddress_create (requireCanonical_eq_ok.1 hG)) nofun
  refine .bind (h.initAccount hp hG _ _) fun s₁ t₁ _ h₁ => .same fun vaultBump hV => ?_
  have hV : a.vault ∉ D :=
    hS.notMem (Env.findProgramAddress_create (requireCanonical_eq_ok.1 hV)) nofun
  refine .bind (h₁.initAccount hp hV _ _) fun s₂ t₂ _ h₂ =>
    .bind (h₂.initializeAccount hS hV) fun s₃ t₃ _ h₃ => .same fun _ _ => .same fun _ _ =>
    .same fun _ _ => .same fun _ _ => .same fun _ _ => .same fun _ _ => .same fun _ _ => ?_
  exact .ok ⟨h₃.set hG _, rfl⟩

theorem setJoinAuthority (hS : Spots E D u v) (h : Twin D u v s t) (a : SetJoinAuthority K)
    (authority : K) :
    Lockstep (Alike D u v) (setJoinAuthority E ctx a authority s)
      (setJoinAuthority E ctx a authority t) := by
  unfold SafeNudge.setJoinAuthority
  refine .same fun _ _ => .same fun _ hp => .next (h.loadGroupConfig hS _) fun g _ =>
    .same fun _ hJ => ?_
  have hp := hS.notMem_of_canSign (requireSigner_eq_ok.1 hp).2
  have hJ : a.joinGate ∉ D :=
    hS.notMem (Env.findProgramAddress_create (requireCanonical_eq_ok.1 hJ)) nofun
  refine .bind (h.initAccount hp hJ _ _) fun s₁ t₁ _ h₁ => .same fun _ _ => .same fun _ _ =>
    .same fun _ _ => .same fun _ _ => .same fun _ _ => .same fun _ _ => ?_
  exact .ok ⟨h₁.set hJ _, rfl⟩

theorem startCycle (hS : Spots E D u v) (h : Twin D u v s t) (a : StartCycle K) :
    Lockstep (Alike D u v) (startCycle E ctx a s) (startCycle E ctx a t) := by
  unfold SafeNudge.startCycle
  refine .same fun _ _ => .next (h.loadGroupConfig hS _) fun g hg => .same fun _ _ =>
    .same fun _ _ => .same fun _ _ => .same fun _ _ => .same fun _ _ => ?_
  exact .ok ⟨h.set (h.notMem_of_group hS (loadGroupConfig_eq_ok.1 hg)) _, rfl⟩

theorem leaveGroup (hS : Spots E D u v) (h : Twin D u v s t) (a : LeaveGroup K) :
    Lockstep (Alike D u v) (leaveGroup E ctx a s) (leaveGroup E ctx a t) := by
  unfold SafeNudge.leaveGroup
  refine .same fun _ _ => .next (h.loadGroupConfig hS _) fun g hg =>
    .next (h.loadMemberRecord hS _) fun r hr => .next (h.loadTokenAccount hS _) fun _ _ =>
    .next (h.loadTokenAccount hS _) fun _ _ => .next (h.loadMint hS _) fun _ _ =>
    .same fun _ _ => .same fun _ _ => .same fun _ _ => .same fun _ _ => .same fun _ _ =>
    .same fun _ _ => .same fun _ _ => .same fun _ _ => .same fun _ _ => .same fun _ _ =>
    .same fun _ _ => .same fun _ _ => .bind (h.transferChecked hS) fun s₁ t₁ _ h₁ => ?_
  have hG := h.notMem_of_group hS (loadGroupConfig_eq_ok.1 hg)
  have hR := h.notMem_of_record hS (loadMemberRecord_eq_ok.1 hr)
  exact .ok ⟨(h₁.set hG _).close hR _, rfl⟩

theorem deposit (hS : Spots E D u v) (h : Twin D u v s t) (a : Deposit K) :
    Lockstep (Alike D u v) (deposit E ctx a s) (deposit E ctx a t) := by
  unfold SafeNudge.deposit
  refine .same fun _ _ => .next (h.loadGroupConfig hS _) fun g hg =>
    .next (h.loadMemberRecord hS _) fun r hr => .next (h.loadTokenAccount hS _) fun _ _ =>
    .next (h.loadTokenAccount hS _) fun _ _ => .next (h.loadMint hS _) fun _ _ =>
    .same fun _ _ => .same fun _ _ => .same fun _ _ => .same fun _ _ => .same fun _ _ =>
    .same fun _ _ => .same fun _ _ => .same fun _ _ => .same fun _ _ => .same fun _ _ =>
    .same fun _ _ => .same fun _ _ => .same fun _ _ => .same fun _ _ => .same fun _ _ =>
    .bind (h.transferChecked hS) fun s₁ t₁ _ h₁ => ?_
  exact .ok ⟨h₁.set (h.notMem_of_record hS (loadMemberRecord_eq_ok.1 hr)) _, rfl⟩

theorem refundVaultRent (hS : Spots E D u v) (h : Twin D u v s t) (a : RefundVaultRent K) :
    Lockstep (Alike D u v) (refundVaultRent E ctx a s) (refundVaultRent E ctx a t) := by
  unfold SafeNudge.refundVaultRent lamportsAboveRentFloor
  rw [h.lamports]
  exact .next (h.loadGroupConfig hS _) fun g _ => .same fun _ _ => .same fun _ _ =>
    .same fun _ _ => .ok ⟨h.transferLamports _ _ _, rfl⟩

theorem closeMemberRecord (hS : Spots E D u v) (h : Twin D u v s t) (a : CloseMemberRecord K) :
    Lockstep (Alike D u v) (closeMemberRecord E ctx a s) (closeMemberRecord E ctx a t) := by
  unfold SafeNudge.closeMemberRecord
  refine .next (h.loadGroupConfig hS _) fun g hg => .next (h.loadMemberRecord hS _) fun r hr =>
    .same fun _ _ => .same fun _ _ => .same fun _ _ => .same fun _ _ => .same fun _ _ =>
    .same fun _ _ => .same fun _ _ => .same fun _ _ => ?_
  have hG := h.notMem_of_group hS (loadGroupConfig_eq_ok.1 hg)
  have hR := h.notMem_of_record hS (loadMemberRecord_eq_ok.1 hr)
  exact .ok ⟨(h.set hG _).close hR _, rfl⟩

theorem closeGroup (hS : Spots E D u v) (h : Twin D u v s t) (a : CloseGroup K) :
    Lockstep (Alike D u v) (closeGroup E a s) (closeGroup E a t) := by
  unfold SafeNudge.closeGroup
  refine .next (h.loadGroupConfig hS _) fun g hg => .same fun _ _ => .same fun _ _ =>
    .same fun _ _ => .same fun _ _ => .same fun _ _ => .same fun _ hJ => ?_
  have hG := h.notMem_of_group hS (loadGroupConfig_eq_ok.1 hg)
  have hJ : a.joinGate ∉ D :=
    hS.notMem (Env.findProgramAddress_create (requireCanonical_eq_ok.1 hJ)) nofun
  have hgate : Lockstep (fun x y => x.1 = y.1 ∧ Twin D u v x.2 y.2)
      (closeJoinGate E a.joinGate a.rentPayer s) (closeJoinGate E a.joinGate a.rentPayer t) := by
    unfold closeJoinGate
    rw [h.account _ hJ, h.lamports]
    exact .ite .rfl (fun _ => .next (h.loadJoinGate hS _) fun _ _ => .ok ⟨rfl, h.close hJ _⟩)
      fun _ => .ok ⟨rfl, h⟩
  refine hgate.bind fun x y _ hxy => ?_
  obtain ⟨hn, h₁⟩ := hxy
  rw [hn]
  exact .ok ⟨h₁.close hG _, by rw [h₁.lamports]⟩

/-! ## Settlement -/

omit [DecidableEq K] in
theorem record_none (hS : Spots E D u v) (h : Twin D u v s t) {k : K} (hk : k ∈ D) :
    s.record k = none := by
  by_contra hr
  obtain ⟨r, hr⟩ := Option.ne_none_iff_exists'.1 hr
  exact h.notMem_of_record hS hr hk

theorem validateMemberPair (hS : Spots E D u v) (h : Twin D u v s t)
    (recordKey tokenKey groupKey mintKey : K) (seenRecords : List K) :
    Lockstep Eq (validateMemberPair E s recordKey tokenKey groupKey mintKey seenRecords)
      (validateMemberPair E t recordKey tokenKey groupKey mintKey seenRecords) := by
  by_cases hk : recordKey ∈ D
  · have fails : ∀ {s : State K}, s.record recordKey = none → ∀ x,
        SafeNudge.validateMemberPair E s recordKey tokenKey groupKey mintKey seenRecords ≠ .ok x := by
      intro s hr x
      simp [SafeNudge.validateMemberPair, hr]
    have hr := h.record_none hS hk
    exact .of_iff fun x => iff_of_false (fails hr x) (fails (h.record hS _ ▸ hr) x)
  · unfold SafeNudge.validateMemberPair
    rw [h.account _ hk, h.record hS]
    exact .same fun _ _ => .same fun _ _ => .same fun _ _ => .same fun _ _ => .same fun _ _ =>
      .next (h.loadTokenAccount hS _) fun _ _ => .same fun _ _ => .same fun _ _ => .ok rfl

theorem distributeValidate (hS : Spots E D u v) (h : Twin D u v s t) (groupKey mintKey : K)
    (pairs : List (K × K)) (seen : List K) (total : UInt64) (settled : List (MemberSettled K)) :
    Lockstep Eq (distributeValidate E s groupKey mintKey pairs seen total settled)
      (distributeValidate E t groupKey mintKey pairs seen total settled) := by
  induction pairs generalizing seen total settled with
  | nil => exact .ok rfl
  | cons pair pairs ih =>
    unfold SafeNudge.distributeValidate
    refine (h.validateMemberPair hS ..).bind fun x y _ hxy => ?_
    subst hxy
    exact .same fun _ _ => ih ..

theorem distributePay (hS : Spots E D u v) (h : Twin D u v s t) (p : TokenProgram)
    (vault mint : K) (decimals : UInt8) (last i : Nat) (pairs : List (K × K))
    (settled : List (MemberSettled K)) :
    Lockstep (fun x y => x.1 = y.1 ∧ Twin D u v x.2 y.2)
      (distributePay E ctx p vault mint decimals last i pairs settled s)
      (distributePay E ctx p vault mint decimals last i pairs settled t) := by
  induction pairs generalizing i settled s t with
  | nil => exact .ok ⟨rfl, h⟩
  | cons pair pairs ih =>
    unfold SafeNudge.distributePay
    -- the rest of an iteration, once its payouts are known
    have rest : ∀ settled : List (MemberSettled K),
        Lockstep (fun x y => x.1 = y.1 ∧ Twin D u v x.2 y.2)
          (do
            let e ← orThrow settled[i]? .indexOutOfBounds
            let s ←
              if 0 < e.payout then
                SafeNudge.transferChecked E ctx p vault mint pair.2 vault e.payout decimals s
              else .ok s
            SafeNudge.distributePay E ctx p vault mint decimals last (i + 1) pairs settled s)
          (do
            let e ← orThrow settled[i]? .indexOutOfBounds
            let t ←
              if 0 < e.payout then
                SafeNudge.transferChecked E ctx p vault mint pair.2 vault e.payout decimals t
              else .ok t
            SafeNudge.distributePay E ctx p vault mint decimals last (i + 1) pairs settled t) :=
      fun settled => .same fun e _ => .ite .rfl
        (fun _ => (h.transferChecked hS).bind fun s₁ t₁ _ h₁ => ih h₁ ..)
        (fun _ => Lockstep.bind (.ok h) fun s₁ t₁ _ h₁ => ih h₁ ..)
    exact .ite .rfl
      (fun _ => .next (h.loadTokenAccount hS _) fun _ _ => .same fun settled _ => rest settled)
      (fun _ => .same fun settled _ => rest settled)

theorem distribute (hS : Spots E D u v) (h : Twin D u v s t) (a : Distribute K)
    (remaining : List K) :
    Lockstep (Alike D u v) (distribute E ctx a remaining s) (distribute E ctx a remaining t) := by
  unfold SafeNudge.distribute
  refine .same fun _ _ => .next (h.loadGroupConfig hS _) fun g hg =>
    .next (h.loadTokenAccount hS _) fun _ _ => .next (h.loadMint hS _) fun _ _ =>
    .same fun _ _ => .same fun _ _ => .same fun _ _ => .same fun _ _ => .same fun _ _ =>
    .same fun _ _ => .same fun _ _ => .same fun _ _ => ?_
  refine (h.distributeValidate hS ..).bind fun x y _ hxy => ?_
  subst hxy
  refine .same fun _ _ => (h.distributePay hS ..).bind fun x y _ hxy => ?_
  obtain ⟨hpaid, h₁⟩ := hxy
  rw [hpaid]
  refine (h₁.closeAccount hS).bind fun s₂ t₂ _ h₂ => .same fun _ _ => ?_
  exact .ok ⟨h₂.set (h.notMem_of_group hS (loadGroupConfig_eq_ok.1 hg)) _, rfl⟩

theorem cancelValidate (hS : Spots E D u v) (h : Twin D u v s t) (groupKey mintKey : K)
    (remaining : List K) (n i : Nat) (seen : List K) (total : UInt64) (amounts : List UInt64) :
    Lockstep Eq (cancelValidate E s groupKey mintKey remaining n i seen total amounts)
      (cancelValidate E t groupKey mintKey remaining n i seen total amounts) := by
  induction n generalizing i seen total amounts with
  | zero => exact .ok rfl
  | succ n ih =>
    unfold SafeNudge.cancelValidate
    refine .same fun _ _ => .same fun _ _ => .same fun _ _ => .same fun _ _ =>
      (h.validateMemberPair hS ..).bind fun x y _ hxy => ?_
    subst hxy
    exact .same fun _ _ => ih ..

theorem cancelPay (hS : Spots E D u v) (h : Twin D u v s t) (p : TokenProgram) (vault mint : K)
    (decimals : UInt8) (memberCount : Nat) (remaining : List K) (amounts : List UInt64) (n i : Nat)
    (total : UInt64) :
    Lockstep (fun x y => x.1 = y.1 ∧ Twin D u v x.2 y.2)
      (cancelPay E ctx p vault mint decimals memberCount remaining amounts n i total s)
      (cancelPay E ctx p vault mint decimals memberCount remaining amounts n i total t) := by
  induction n generalizing i total s t with
  | zero => exact .ok ⟨rfl, h⟩
  | succ n ih =>
    unfold SafeNudge.cancelPay
    refine .same fun _ _ => .same fun _ _ => .same fun dst _ => .same fun last _ => ?_
    have rest : ∀ amount : UInt64, Lockstep (fun x y => x.1 = y.1 ∧ Twin D u v x.2 y.2)
        (do
          let total ← orThrow (checkedAdd64 total amount) (.safeNudge .arithmeticOverflow)
          let s ←
            if 0 < amount then
              SafeNudge.transferChecked E ctx p vault mint dst vault amount decimals s
            else .ok s
          SafeNudge.cancelPay E ctx p vault mint decimals memberCount remaining amounts n (i + 1)
            total s)
        (do
          let total ← orThrow (checkedAdd64 total amount) (.safeNudge .arithmeticOverflow)
          let t ←
            if 0 < amount then
              SafeNudge.transferChecked E ctx p vault mint dst vault amount decimals t
            else .ok t
          SafeNudge.cancelPay E ctx p vault mint decimals memberCount remaining amounts n (i + 1)
            total t) :=
      fun amount => .same fun total _ => .ite .rfl
        (fun _ => (h.transferChecked hS).bind fun s₁ t₁ _ h₁ => ih h₁ ..)
        (fun _ => Lockstep.bind (.ok h) fun s₁ t₁ _ h₁ => ih h₁ ..)
    exact .ite .rfl
      (fun _ => .next (h.loadTokenAccount hS _) fun _ _ => .same fun amount _ => rest amount)
      (fun _ => .same fun amount _ => rest amount)

theorem emergencyCancel (hS : Spots E D u v) (h : Twin D u v s t) (a : EmergencyCancel K)
    (remaining : List K) :
    Lockstep (Alike D u v) (emergencyCancel E ctx a remaining s)
      (emergencyCancel E ctx a remaining t) := by
  unfold SafeNudge.emergencyCancel
  refine .same fun _ _ => .next (h.loadGroupConfig hS _) fun g hg =>
    .next (h.loadTokenAccount hS _) fun w _ => .next (h.loadMint hS _) fun m _ =>
    .same fun p _ => .same fun _ _ => .same fun _ _ => .same fun _ _ => .same fun _ _ =>
    .same fun _ _ => .same fun _ _ => ?_
  refine (h.cancelValidate hS ..).bind fun x y _ hxy => ?_
  subst hxy
  refine .same fun _ _ => .same fun _ _ => (h.cancelPay hS ..).bind fun x y _ hxy => ?_
  obtain ⟨hpaid, h₁⟩ := hxy
  rw [hpaid]
  have rest : ∀ {s₂ t₂ : State K}, Twin D u v s₂ t₂ → Lockstep (Alike D u v)
      (do
        let s ← SafeNudge.closeAccount E ctx p a.vault a.groupConfig a.vault s₂
        let g' := { g with status := STATUS_CANCELLED, settledAt := ctx.unixTimestamp }
        return (s.set a.groupConfig (.groupConfig g'),
          [.groupCancelled a.groupConfig a.creator g.currentMembers y.1
            (unowedVaultBalance g.currentMembers.toNat w.2.amount)]))
      (do
        let t ← SafeNudge.closeAccount E ctx p a.vault a.groupConfig a.vault t₂
        let g' := { g with status := STATUS_CANCELLED, settledAt := ctx.unixTimestamp }
        return (t.set a.groupConfig (.groupConfig g'),
          [.groupCancelled a.groupConfig a.creator g.currentMembers y.1
            (unowedVaultBalance g.currentMembers.toNat w.2.amount)])) :=
    fun h₂ => (h₂.closeAccount hS).bind fun s₃ t₃ _ h₃ =>
      .ok ⟨h₃.set (h.notMem_of_group hS (loadGroupConfig_eq_ok.1 hg)) _, rfl⟩
  exact .ite .rfl (fun _ => (h₁.burnChecked hS).bind fun s₂ t₂ _ h₂ => rest h₂)
    (fun _ => Lockstep.bind (.ok h₁) fun s₂ t₂ _ h₂ => rest h₂)

/-! ## Tallies -/

theorem closeJoinTally (h : Twin D u v s t) (a : CloseJoinTally K) (member : K)
    (hT : a.joinTally ∉ D)
    (hG : ∀ x b, s.tally a.joinTally = some x →
      E.findProgramAddress (.tally a.groupConfig member) = some (a.joinTally, b) →
      a.groupConfig ∉ D) :
    Lockstep (Alike D u v) (closeJoinTally E a member s) (closeJoinTally E a member t) := by
  have htally : s.tally a.joinTally = t.tally a.joinTally := by
    rw [State.tally, State.tally, h.account _ hT]
  by_cases hb : ∃ b, E.findProgramAddress (.tally a.groupConfig member) = some (a.joinTally, b)
  · obtain ⟨b, hb⟩ := hb
    unfold SafeNudge.closeJoinTally
    refine .next (fun x => by rw [loadJoinTally_eq_ok, loadJoinTally_eq_ok, htally]) fun x hx => ?_
    rw [h.account _ (hG x b (loadJoinTally_eq_ok.1 hx) hb)]
    exact .same fun _ _ => .same fun _ _ => .same fun _ _ => .same fun _ _ =>
      .ok ⟨h.close hT _, rfl⟩
  -- the group account may be in `D`, but the tally is not one of its
  · have hfail : ∀ s p, SafeNudge.closeJoinTally E a member s ≠ .ok p := by
      intro s p hp
      simp only [SafeNudge.closeJoinTally, bind_eq_ok, requireCanonical_eq_ok] at hp
      obtain ⟨-, -, -, -, b, hb', -⟩ := hp
      exact hb ⟨b, hb'⟩
    exact .of_ne_ok (hfail s) (hfail t)

theorem checkJoinGate (hS : Spots E D u v) (h : Twin D u v s t) {joinGate : K} (hJ : joinGate ∉ D)
    (auth : Option K) {e e' : Option UInt32} (he : e.isSome = e'.isSome) (x : Unit) :
    checkJoinGate E ctx joinGate auth e s = .ok x ↔
      checkJoinGate E ctx joinGate auth e' t = .ok x := by
  unfold SafeNudge.checkJoinGate
  rw [h.account _ hJ, he]
  split
  · simp only [bind_eq_ok, loadJoinGate_eq_ok, h.gate hS]
  · rfl

/-- The tally of a join is not in `D`. -/
theorem initTallyIfNeeded (h : Twin D u v s t) {payer k : K} (hp : payer ∉ D) (hk : k ∉ D) :
    Lockstep (fun x y => x.1 = y.1 ∧ Twin D u v x.2 y.2) (initTallyIfNeeded E ctx payer k s)
      (initTallyIfNeeded E ctx payer k t) := by
  have htally : s.tally k = t.tally k := by rw [State.tally, State.tally, h.account k hk]
  unfold SafeNudge.initTallyIfNeeded
  rw [h.account k hk, h.lamports]
  exact .ite .rfl (fun _ => (h.initAccount hp hk _ _).bind fun s₁ t₁ _ h₁ => .ok ⟨rfl, h₁⟩)
    fun _ => .next (fun x => by rw [loadJoinTally_eq_ok, loadJoinTally_eq_ok, htally])
      fun _ _ => .same fun _ _ => .ok ⟨rfl, h⟩

theorem joinGroup (hS : Spots E D u v) (h : Twin D u v s t) (a : JoinGroup K)
    (terms : GroupTerms K) (expected : Option UInt32) (hT : a.joinTally ∉ D) :
    Lockstep (Alike D u v) (joinGroup E ctx a terms expected s)
      (joinGroup E ctx a terms expected t) := by
  unfold SafeNudge.joinGroup
  refine .same fun _ _ => .same fun _ hp => .next (h.loadGroupConfig hS _) fun g hg =>
    .next (h.loadTokenAccount hS _) fun _ _ => .next (h.loadTokenAccount hS _) fun _ _ =>
    .next (h.loadMint hS _) fun _ _ => .same fun _ _ => .same fun _ _ => .same fun _ hR => ?_
  have hp := hS.notMem_of_canSign (requireSigner_eq_ok.1 hp).2
  have hG := h.notMem_of_group hS (loadGroupConfig_eq_ok.1 hg)
  have hR : a.memberRecord ∉ D :=
    hS.notMem (Env.findProgramAddress_create (requireCanonical_eq_ok.1 hR)) nofun
  refine (h.initAccount hp hR _ _).bind fun s₁ t₁ _ h₁ => .same fun _ _ =>
    (h₁.initTallyIfNeeded hp hT).bind fun x y _ hxy => ?_
  obtain ⟨hx, h₂⟩ := hxy
  rw [hx]
  refine .same fun _ _ => .same fun _ _ => .same fun _ _ => .same fun _ _ => .same fun _ _ =>
    .same fun _ _ => .same fun _ _ => .same fun _ _ => .same fun _ hJ => .same fun _ _ =>
    .same fun _ _ => ?_
  have hJ : a.joinGate ∉ D :=
    hS.notMem (Env.findProgramAddress_create (requireCanonical_eq_ok.1 hJ)) nofun
  refine .next (h₂.checkJoinGate hS hJ _ rfl) fun _ _ => .same fun _ _ => .same fun _ _ =>
    .same fun _ _ => (h₂.transferChecked hS).bind fun s₃ t₃ _ h₃ => ?_
  exact .ok ⟨((h₃.set hG _).set hR _).set hT _, rfl⟩

/-- A join whose tally is left over in `s` and, in `t`, is not there yet or counts other joins: its
address holds the rent in both. -/
theorem initTally_leftover (h : Twin D u v s t) {payer k : K} {x y : JoinTally K} (hk : k ∈ D)
    (hp : payer ≠ k) (hu : u k = .joinTally x)
    (hv : v k = .system ∧ y = newTally E ∨ v k = .joinTally y)
    (hrent : ctx.rent.minimumBalance JOIN_TALLY_SPACE ≤ s.lamports k) :
    SafeNudge.initTallyIfNeeded E ctx payer k s = .ok (x, s) ∧ ∃ b t', b.Blank ∧
      SafeNudge.initTallyIfNeeded E ctx payer k t = .ok (y, t') ∧ Twin D u (update v k b) s t' := by
  have hs := h.left k hk
  have ht := h.right k hk
  refine ⟨initTallyIfNeeded_eq_ok.2 (.inr ⟨State.tally_eq_some.2 (hs.trans hu), hrent, rfl⟩), ?_⟩
  rcases hv with ⟨hv, rfl⟩ | hv
  · have hreq : topUp (ctx.rent.minimumBalance JOIN_TALLY_SPACE) (t.lamports k) = 0 := by
      have := ctx.rent.minimumBalance_pos JOIN_TALLY_SPACE
      rw [← h.lamports, topUp, if_neg (by omega)]
      omega
    refine ⟨.other E.programId, _, trivial, initTallyIfNeeded_eq_ok.2 (.inl ⟨ht.trans hv, rfl,
      initAccount_eq_ok.2 ⟨0, hreq.symm, hp, ht.trans hv, .inl rfl, Nat.zero_le _, rfl⟩⟩), ?_⟩
    rw [State.transferLamports_zero]
    exact h.setRight hk _
  · refine ⟨v k, t, ?_, initTallyIfNeeded_eq_ok.2 (.inr ⟨State.tally_eq_some.2 (ht.trans hv),
      h.lamports ▸ hrent, rfl⟩), ?_⟩
    · rw [hv]
      trivial
    · rwa [Function.update_eq_self]

theorem joinGroup_leftover (hS : Spots E D u v) (h : Twin D u v s t) (a : JoinGroup K)
    (terms : GroupTerms K) {e e' : Option UInt32} {x y : JoinTally K} {jx jy : UInt32}
    (hT : a.joinTally ∈ D) (hu : u a.joinTally = .joinTally x) (h0 : x.joins ≠ 0)
    (hv : v a.joinTally = .system ∧ y = newTally E ∨ v a.joinTally = .joinTally y)
    (hrent : ctx.rent.minimumBalance JOIN_TALLY_SPACE ≤ s.lamports a.joinTally)
    (he : e.isSome = e'.isSome)
    (hexp : ∀ z, checkExpectedJoins e x.joins = .ok z ↔ checkExpectedJoins e' y.joins = .ok z)
    (hjx : checkedAdd32 x.joins 1 = some jx) (hjy : checkedAdd32 y.joins 1 = some jy) :
    Lockstep (fun p q => (∃ payer, Twin D
          (update u a.joinTally (.joinTally { rentPayer := x.rentPayer, joins := jx }))
          (update v a.joinTally (.joinTally { rentPayer := payer, joins := jy })) p.1 q.1) ∧
        p.2.map Event.withoutJoins = q.2.map Event.withoutJoins)
      (SafeNudge.joinGroup E ctx a terms e s) (SafeNudge.joinGroup E ctx a terms e' t) := by
  unfold SafeNudge.joinGroup
  refine .same fun _ _ => .same fun _ hp => .next (h.loadGroupConfig hS _) fun g hg =>
    .next (h.loadTokenAccount hS _) fun _ _ => .next (h.loadTokenAccount hS _) fun _ _ =>
    .next (h.loadMint hS _) fun _ _ => .same fun _ _ => .same fun _ _ => .same fun _ hR => ?_
  have hsign := (requireSigner_eq_ok.1 hp).2
  have hp := hS.notMem_of_canSign hsign
  have hG := h.notMem_of_group hS (loadGroupConfig_eq_ok.1 hg)
  have hR : a.memberRecord ∉ D :=
    hS.notMem (Env.findProgramAddress_create (requireCanonical_eq_ok.1 hR)) nofun
  have hpT : a.rentPayer ≠ a.joinTally := fun he => hp (he ▸ hT)
  have hRT : a.joinTally ≠ a.memberRecord := fun he => hR (he ▸ hT)
  refine (h.initAccount hp hR _ _).bind fun s₁ t₁ hs₁ h₁ => .same fun _ _ => ?_
  have hrent₁ : ctx.rent.minimumBalance JOIN_TALLY_SPACE ≤ s₁.lamports a.joinTally := by
    obtain ⟨n, -, -, -, -, -, rfl⟩ := initAccount_eq_ok.1 hs₁
    rw [State.lamports_set, State.lamports_transferLamports, moveLamports_of_ne _ _ hpT.symm hRT]
    exact hrent
  obtain ⟨hs₂, b, t₂, hb, ht₂, h₂⟩ :=
    h₁.initTally_leftover hT hpT hu hv hrent₁
  rw [hs₂, ht₂, ok_bind, ok_bind]
  have hS₂ : Spots E D u (update v a.joinTally b) := by
    have hx : (Account.joinTally x).Blank := trivial
    have := @Spots.update _ _ _ _ _ a.joinTally _ hS _ _ hx hb
    rwa [← hu, Function.update_eq_self] at this
  refine .same fun _ _ => .same fun _ _ => .same fun _ _ => .same fun _ _ => .same fun _ _ =>
    .same fun _ _ => .same fun _ _ => .same fun _ _ => .same fun _ hJ => .same fun _ _ =>
    .same fun _ _ => ?_
  have hJ : a.joinGate ∉ D :=
    hS.notMem (Env.findProgramAddress_create (requireCanonical_eq_ok.1 hJ)) nofun
  refine .next (h₂.checkJoinGate hS₂ hJ _ he) fun _ _ => .next hexp fun _ _ => .same fun _ _ => ?_
  simp only [hjx, hjy, orThrow_some, ok_bind, if_neg h0]
  refine (h₂.transferChecked hS₂).bind fun s₃ t₃ _ h₃ => ?_
  exact .ok ⟨⟨_, ((h₃.set hG _).set hR _).setOver hT _ _⟩, rfl⟩

end Twin

/-! ## Any instruction -/

/-- The instruction reads or writes a tally of `D` as a tally. -/
def Call.TallyIn (D : Set K) : Call K → Prop
  | .joinGroup a .. => a.joinTally ∈ D
  | .closeJoinTally a _ => a.joinTally ∈ D
  | _ => False

theorem Twin.execute [DecidableEq K] {E : Env K} {ctx : Ctx K} {D : Set K} {u v : K → Account K}
    {s t : State K} (hS : Spots E D u v) (h : Twin D u v s t) (c : Call K) (hc : ¬c.TallyIn D)
    (hG : ∀ a member x b, c = .closeJoinTally a member → s.tally a.joinTally = some x →
      E.findProgramAddress (.tally a.groupConfig member) = some (a.joinTally, b) →
      a.groupConfig ∉ D) :
    Lockstep (Alike D u v) (execute E ctx c s) (execute E ctx c t) := by
  cases c with
  | createGroup => exact h.createGroup hS ..
  | joinGroup => exact h.joinGroup hS _ _ _ hc
  | leaveGroup => exact h.leaveGroup hS _
  | startCycle => exact h.startCycle hS _
  | deposit => exact h.deposit hS _
  | distribute => exact h.distribute hS ..
  | emergencyCancel => exact h.emergencyCancel hS ..
  | refundVaultRent => exact h.refundVaultRent hS _
  | closeMemberRecord => exact h.closeMemberRecord hS _
  | closeGroup => exact h.closeGroup hS _
  | closeJoinTally => exact h.closeJoinTally _ _ hc fun x b => hG _ _ x b rfl
  | setJoinAuthority => exact h.setJoinAuthority hS ..

end SafeNudge
