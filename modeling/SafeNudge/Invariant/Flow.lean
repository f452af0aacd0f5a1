import SafeNudge.Invariant.Trace
import SafeNudge.Lib.Balance

/-!
# Where the tokens of a group go

Five instructions move tokens. `Moved` is what a join, a deposit or a leave does: one amount goes
between the vault and one token account of the member, whose stake changes by it
(`Effect.moved`). A settlement pays every stake out (`Settled.shares`). Both say what each wallet
gained (`Moved.gain`, `Settled.gain`) and that what left the vault arrived (`Moved.total`,
`Settled.total`).
-/

namespace SafeNudge

open Lib Function

variable {K : Type}

def Call.paysIn (G : K) : Call K → Prop
  | .joinGroup a .. => a.groupConfig = G
  | .deposit a => a.groupConfig = G
  | _ => False

def Call.paysOut (G : K) : Call K → Prop
  | .leaveGroup a => a.groupConfig = G
  | .distribute a _ => a.groupConfig = G
  | .emergencyCancel a _ => a.groupConfig = G
  | _ => False

/-- Settles the group with these remaining accounts. -/
def Call.settles (G : K) (remaining : List K) : Call K → Prop
  | .distribute a rest => a.groupConfig = G ∧ rest = remaining
  | .emergencyCancel a rest => a.groupConfig = G ∧ rest = remaining
  | _ => False

instance [DecidableEq K] (G : K) : DecidablePred (Call.paysIn G)
  | .joinGroup a .. | .deposit a => inferInstanceAs (Decidable (a.groupConfig = G))
  | .createGroup .. | .leaveGroup _ | .startCycle _ | .distribute .. | .emergencyCancel .. |
    .refundVaultRent _ | .closeMemberRecord _ | .closeGroup _ | .closeJoinTally .. |
    .setJoinAuthority .. => inferInstanceAs (Decidable False)

instance [DecidableEq K] (G : K) : DecidablePred (Call.paysOut G)
  | .leaveGroup a | .distribute a .. | .emergencyCancel a .. =>
    inferInstanceAs (Decidable (a.groupConfig = G))
  | .createGroup .. | .joinGroup .. | .startCycle _ | .deposit _ | .refundVaultRent _ |
    .closeMemberRecord _ | .closeGroup _ | .closeJoinTally .. | .setJoinAuthority .. =>
    inferInstanceAs (Decidable False)

theorem Call.pays_groupKey {G : K} {c : Call K} (h : c.paysIn G ∨ c.paysOut G) :
    c.groupKey = G := by
  cases c <;> rcases h with h | h <;> first | exact h | exact h.elim

/-- The token accounts of a wallet for a mint. -/
def Ledger.wallet (L : Ledger K) (mint w : K) : Set K :=
  {k | ∃ p t, L.token k = some (p, t) ∧ t.mint = mint ∧ t.owner = w}

variable [DecidableEq K] {E : Env K}

/-- What a group owes a wallet: the deposits of its record, which is at one address. -/
def Ledger.owed (E : Env K) (L : Ledger K) (G w : K) : Nat :=
  match E.findProgramAddress (.member G w) with
  | some (k, _) => L.stake G k
  | none => 0

section
variable {L L' : Ledger K} {G V mint k M w : K} {b : UInt8}

theorem Ledger.owed_of_address (hk : E.findProgramAddress (.member G w) = some (k, b)) :
    L.owed E G w = L.stake G k := by
  rw [Ledger.owed, hk]

theorem Ledger.owed_congr (h : L'.record = L.record) : L'.owed E G w = L.owed E G w := by
  unfold Ledger.owed Ledger.stake
  rw [h]

/-- Writing the record of one member. -/
theorem Ledger.owed_update {o : Option (MemberRecord K)}
    (hk : E.findProgramAddress (.member G M) = some (k, b))
    (h : L'.record = update L.record k o) :
    L'.owed E G w = if w = M then stakeOf G o else L.owed E G w := by
  by_cases hw : w = M
  · subst hw
    rw [if_pos rfl, Ledger.owed_of_address hk, Ledger.stake, h, update_self]
  · rw [if_neg hw]
    unfold Ledger.owed
    cases hw' : E.findProgramAddress (.member G w) with
    | none => rfl
    | some x =>
      obtain ⟨k', b'⟩ := x
      have hne : k' ≠ k := Env.address_ne (Env.findProgramAddress_create hw')
        (Env.findProgramAddress_create hk) (by simpa using hw)
      simp only [Ledger.stake, h, update_of_ne hne]

/-! ## One amount between the vault and a member -/

/-- `n` tokens moved from the vault to the token account `k` of `M` (or from it, when `n` is
negative), and what the group owes `M` fell by `n`. -/
structure Moved (E : Env K) (L L' : Ledger K) (G V mint k M : K) (n : ℤ) : Prop where
  account : k ∈ L.wallet mint M
  ne_vault : k ≠ V
  vault : (L'.amount V : ℤ) = L.amount V - n
  member : (L'.amount k : ℤ) = L.amount k + n
  others : ∀ x, x ≠ k → x ≠ V → L'.amount x = L.amount x
  owed : ∀ w, (L'.owed E G w : ℤ) = L.owed E G w - if w = M then n else 0

namespace Moved

variable {n : ℤ}

/-- The wallet gains what the group owes it less. -/
theorem gain (h : Moved E L L' G V mint k M n) (hV : ∀ {p t}, L.token V = some (p, t) → t.owner = V)
    (hw : w ≠ V) : Lib.gain (L.wallet mint w) L.amount L'.amount + L'.owed E G w = L.owed E G w := by
  have hne : ∀ x ∈ L.wallet mint w, x ≠ V := by
    rintro x ⟨p, t, ht, -, ho⟩ rfl
    exact hw (ho.symm.trans (hV ht))
  rw [h.owed]
  by_cases hM : w = M
  · subst hM
    rw [gain_eq_single h.account fun x hx hk => h.others x hk (hne x hx), h.member, if_pos rfl]
    omega
  · have : ∀ x ∈ L.wallet mint w, L'.amount x = L.amount x := by
      intro x hx
      refine h.others x ?_ (hne x hx)
      rintro rfl
      obtain ⟨p, t, ht, -, ho⟩ := hx
      obtain ⟨p', t', ht', -, ho'⟩ := h.account
      rw [ht] at ht'
      cases ht'
      exact hM (ho.symm.trans ho')
    rw [gain_eq_zero this, if_neg hM]
    omega

theorem changed (h : Moved E L L' G V mint k M n) :
    ∀ i ∉ ({k, V} : Finset K), L'.amount i = L.amount i := by
  intro i hi
  simp only [Finset.mem_insert, Finset.mem_singleton, not_or] at hi
  exact h.others i hi.1 hi.2

/-- What left one of the two accounts arrived at the other. -/
theorem total (h : Moved E L L' G V mint k M n) :
    Lib.gain Set.univ L.amount L'.amount = 0 := by
  rw [gain_univ h.changed, Finset.sum_pair h.ne_vault, h.vault, h.member]
  omega

end Moved

/-- A transfer between a member and the vault. -/
theorem Moved.of_transfer {p : TokenProgram} {src dst : K} {t t' : TokenAccount K} {n : UInt64}
    (hs : L.token src = some (p, t)) (hd : L.token dst = some (p, t')) (hne : src ≠ dst)
    (hle : n ≤ t.amount) (hlt : t'.amount.toNat + n.toNat < 2 ^ 64)
    (hL' : L'.token = movedTokens L.token p src dst t t' n) :
    L'.amount src + n.toNat = L.amount src ∧ L'.amount dst = L.amount dst + n.toNat ∧
      ∀ x, x ≠ src → x ≠ dst → L'.amount x = L.amount x := by
  obtain ⟨h₁, h₂⟩ := @amountOf_movedTokens _ _ L.token p _ _ t t' n hne hle hlt
  simp only [Ledger.amount, hL', hs, hd]
  exact ⟨h₁, h₂, fun x hx hx' => by rw [movedTokens_of_ne hx hx']⟩

end

section
variable {ctx : Ctx K} {L L' : Ledger K} {events : List (Event K)} {g : GroupConfig K}

theorem JoinGroup.Effect.moved {a : JoinGroup K} {terms : GroupTerms K}
    {expected : Option UInt32} {t : JoinTally K} {n₁ n₂ : Nat}
    (h : JoinGroup.Effect E ctx a terms expected L L' events g t n₁ n₂) :
    Moved E L L' a.groupConfig a.vault g.mint a.memberTokenAccount a.member
      (-g.depositAmount.toNat) := by
  obtain ⟨p, mt, vt, b, cm, joins, hmt, hvt, hne, hmo, hmm, -, hle, hlt, hR, -, -, hpost, -⟩ := h.post
  obtain ⟨h₁, h₂, h₃⟩ := Moved.of_transfer hmt hvt hne hle hlt (congrArg Ledger.token hpost)
  refine ⟨⟨p, mt, hmt, hmm, hmo⟩, hne, by omega, by omega, h₃, fun w => ?_⟩
  rw [Ledger.owed_update hR (congrArg Ledger.record hpost)]
  by_cases hw : w = a.member
  · subst hw
    rw [if_pos rfl, if_pos rfl, Ledger.owed_of_address hR, Ledger.stake, h.unused]
    simp [stakeOf, JoinGroup.newRecord]
  · rw [if_neg hw, if_neg hw, sub_zero]

theorem Deposit.Effect.moved {a : Deposit K} {r : MemberRecord K} (hL : Layout E L)
    (h : Deposit.Effect E ctx a L L' events g r) :
    Moved E L L' a.groupConfig a.vault g.mint a.memberTokenAccount a.member
      (-g.depositAmount.toNat) := by
  obtain ⟨p, mt, vt, hmt, hvt, hne, hmo, hmm, -, hle, hlt, hpost⟩ := h.post
  obtain ⟨duration, ce, period, r', -, -, -, -, hmark, hrec, -⟩ := h.period
  obtain ⟨-, made, total, -, htot, rfl⟩ := MemberRecord.mark_eq_ok.1 hmark
  obtain ⟨h₁, h₂, h₃⟩ := Moved.of_transfer hmt hvt hne hle hlt (congrArg Ledger.token hpost)
  have hR := (hL.placed h.record).address
  rw [h.record_eq.1, h.record_eq.2] at hR
  refine ⟨⟨p, mt, hmt, hmm, hmo⟩, hne, by omega, by omega, h₃, fun w => ?_⟩
  rw [Ledger.owed_update hR hrec]
  by_cases hw : w = a.member
  · subst hw
    rw [if_pos rfl, if_pos rfl, Ledger.owed_of_address hR, Ledger.stake, h.record]
    simp [stakeOf, h.record_eq.1, checkedAdd64_eq_some htot]
  · rw [if_neg hw, if_neg hw, sub_zero]

theorem LeaveGroup.Effect.moved {a : LeaveGroup K} {r : MemberRecord K} (hL : Layout E L)
    (h : LeaveGroup.Effect E ctx a L L' events g r) :
    Moved E L L' a.groupConfig a.vault g.mint a.memberTokenAccount a.member
      r.totalDeposited.toNat := by
  obtain ⟨hG, hM⟩ := hL.record_eq h.record h.address
  obtain ⟨p, mt, vt, cm, hmt, hvt, hne, hmo, hmm, -, hle, hlt, -, hpost, -⟩ := h.post
  obtain ⟨h₁, h₂, h₃⟩ := Moved.of_transfer hvt hmt hne hle hlt (congrArg Ledger.token hpost)
  have hR := (hL.placed h.record).address
  rw [hG, hM] at hR
  refine ⟨⟨p, mt, hmt, hmm, hmo⟩, hne.symm, by omega, by omega,
    fun x hx hx' => h₃ x hx' hx, fun w => ?_⟩
  rw [Ledger.owed_update hR (congrArg Ledger.record hpost)]
  by_cases hw : w = a.member
  · subst hw
    rw [if_pos rfl, if_pos rfl, Ledger.owed_of_address hR, Ledger.stake, h.record]
    simp [stakeOf, hG]
  · rw [if_neg hw, if_neg hw, sub_zero]

/-- What an instruction that pays in or out did: a transfer with a member, who has an open record
when tokens go out, or a settlement. -/
inductive Paying (E : Env K) (L L' : Ledger K) (c : Call K) : Prop where
  | moved {g : GroupConfig K} {V k M : K} {n : ℤ} : L.group c.groupKey = some g →
      ¬g.isSettled → E.createProgramAddress (.vault c.groupKey) g.vaultBump = some V →
      Moved E L L' c.groupKey V g.mint k M n →
      (0 ≤ n → ∃ key r, L.record key = some r ∧ r.group = c.groupKey ∧ r.member = M) →
      (∀ g', L'.group c.groupKey = some g' → ¬g'.isSettled) → Paying E L L' c
  | settled {g g' : GroupConfig K} {V : K} {remaining : List K} {p : TokenProgram}
      {t : TokenAccount K} {rs : List (MemberRecord K)} {burned : UInt64} :
      Settled E L L' c.groupKey V remaining g g' p t rs burned → ¬g.isSettled → g'.isSettled →
      c.settles c.groupKey remaining →
      (rs = [] ∧ burned = t.amount ∧ (∃ a, c = .emergencyCancel a remaining)) ∨
        (rs ≠ [] ∧ burned = 0) → Paying E L L' c

theorem Effect.paying {c : Call K} (hL : Layout E L) (h : Effect E ctx L L' events c)
    (hc : c.paysIn c.groupKey ∨ c.paysOut c.groupKey) : Paying E L L' c := by
  cases h with
  | joinGroup h =>
    have hd := UInt64.lt_iff_toNat_lt.1 (hL.group h.group).deposit
    refine .moved h.group (not_settled_of_open h.isOpen) h.vault h.moved (fun h0 => ?_)
      fun g' hg' => ?_
    · simp at hd
      omega
    · obtain ⟨p, mt, vt, b, cm, joins, -, -, -, -, -, -, -, -, -, -, -, rfl, -⟩ := h.post
      obtain rfl := eq_of_update_self hg'
      exact not_settled_of_open h.isOpen
  | deposit h =>
    refine .moved h.group (not_settled_of_active h.active) h.vault (h.moved hL)
      (fun _ => ⟨_, _, h.record, h.record_eq⟩) fun g' hg' => ?_
    obtain ⟨p, mt, vt, -, -, -, -, -, -, -, -, hpost⟩ := h.post
    rw [hpost] at hg'
    obtain rfl := Option.some.inj (h.group.symm.trans hg')
    exact not_settled_of_active h.active
  | leaveGroup h =>
    refine .moved h.group (not_settled_of_open h.isOpen) h.vault (h.moved hL)
      (fun _ => ⟨_, _, h.record, hL.record_eq h.record h.address⟩) fun g' hg' => ?_
    obtain ⟨p, mt, vt, cm, -, -, -, -, -, -, -, -, -, rfl, -⟩ := h.post
    obtain rfl := eq_of_update_self hg'
    exact not_settled_of_open h.isOpen
  | distribute h hP =>
    refine .settled h (not_settled_of_active hP.active) (GroupConfig.completed_isSettled ..)
      ⟨rfl, rfl⟩ (.inr ⟨fun h0 => ?_, rfl⟩)
    have hlen := h.records_length
    have hm := UInt8.le_iff_toNat_le.1 ((hL.group h.group).active hP.active).1
    rw [h0] at hlen
    simp at hlen hm
    omega
  | emergencyCancel hb h hP =>
    refine .settled h (hP.status.elim not_settled_of_open not_settled_of_active)
      (GroupConfig.cancelled_isSettled ..) ⟨rfl, rfl⟩ ?_
    have hlen := h.records_length
    rw [unowedVaultBalance] at hb
    split at hb
    · rename_i h0
      rw [h0, List.length_eq_zero_iff] at hlen
      exact .inl ⟨hlen, hb, _, rfl⟩
    · rename_i h0
      refine .inr ⟨fun hrs => h0 ?_, hb⟩
      rw [← hlen, hrs, List.length_nil]
  | _ => exact (hc.elim id id).elim

/-- What the other instructions leave alone. -/
theorem Effect.still {c : Call K} (h : Effect E ctx L L' events c)
    (hc : ¬(c.paysIn c.groupKey ∨ c.paysOut c.groupKey)) :
    (∀ k, L'.amount k = L.amount k) ∧
      ∀ {g g'}, L.group c.groupKey = some g → L'.group c.groupKey = some g' →
        (g'.isSettled → g.isSettled) ∧ (¬g'.isSettled → L'.record = L.record) := by
  have hamt : L'.token = L.token → ∀ k, L'.amount k = L.amount k := fun h k => by
    rw [Ledger.amount, h, Ledger.amount]
  cases h with
  | createGroup h =>
    have hu := h.unused
    obtain ⟨p, m, b, vb, n₁, n₂, -, -, -, -, -, -, -, rfl⟩ := h.post
    refine ⟨fun k => ?_, fun hg => ?_⟩
    · rename_i a _ _ _ _ _
      by_cases hk : k = a.vault
      · subst hk
        simp [Ledger.amount, amountOf, hu.2]
      · simp only [Ledger.amount, update_of_ne hk]
    · rw [Call.groupKey, hu.1] at hg
      cases hg
  | startCycle h =>
    refine ⟨hamt (by rw [h.post]), fun hg hg' => ⟨fun hs => ?_, fun _ => by rw [h.post]⟩⟩
    rw [h.post] at hg'
    obtain rfl := eq_of_update_self hg'
    rw [h.group'] at hs
    exact absurd hs (not_settled_of_active rfl)
  | refundVaultRent h =>
    refine ⟨hamt (by rw [h.post]), fun hg hg' => ⟨fun hs => ?_, fun _ => by rw [h.post]⟩⟩
    obtain rfl := Option.some.inj (hg.symm.trans h.group)
    exact h.settled
  | closeMemberRecord h =>
    obtain ⟨cm, -, rfl⟩ := h.post
    refine ⟨hamt rfl, fun hg hg' => ?_⟩
    obtain rfl := Option.some.inj (hg.symm.trans h.group)
    obtain rfl := eq_of_update_self hg'
    exact ⟨fun _ => h.settled, fun hns => absurd h.settled hns⟩
  | closeGroup h =>
    obtain ⟨n, -, rfl, -⟩ := h.post
    refine ⟨hamt rfl, fun _ hg' => ?_⟩
    simp [Call.groupKey] at hg'
  | closeJoinTally h =>
    refine ⟨hamt (by rw [h.post]), fun hg => ?_⟩
    rw [Call.groupKey, h.closed] at hg
    cases hg
  | setJoinAuthority h =>
    obtain ⟨n, -, -, rfl⟩ := h.post
    refine ⟨hamt rfl, fun hg hg' => ⟨fun hs => ?_, fun _ => rfl⟩⟩
    obtain rfl := Option.some.inj (hg.symm.trans hg')
    exact hs
  | joinGroup => exact absurd (.inl rfl) hc
  | deposit => exact absurd (.inl rfl) hc
  | leaveGroup => exact absurd (.inr rfl) hc
  | distribute => exact absurd (.inr rfl) hc
  | emergencyCancel => exact absurd (.inr rfl) hc

end

end SafeNudge
