import SafeNudge.Invariant.Layout
import SafeNudge.Lib.Custody
import Mathlib.Algebra.BigOperators.Finprod

/-!
# What a vault holds for whom

Each live group is a custody pool: its holders are its open member records, the stake of a record
is its `total_deposited`, and until settlement the vault holds the pool's balance. `Inv` is the
layout together with this. Every instruction is a move of the pool of the one group it names
(`*.Effect.holds`) and leaves the other groups alone (`*.Effect.frame`), so `Inv` is kept
(`*.Effect.inv`).
-/

namespace SafeNudge

open Lib Function

variable {K : Type} [DecidableEq K] {E : Env K}

theorem eq_of_update_self {β : Type} {f : K → Option β} {k : K} {v w : β}
    (h : update f k (some v) k = some w) : v = w := by
  simpa using h

/-! ## Stakes and amounts -/

/-- The stake of a record slot in a group. -/
def stakeOf (G : K) : Option (MemberRecord K) → Nat
  | some r => if r.group = G then r.totalDeposited.toNat else 0
  | none => 0

def Ledger.stake (L : Ledger K) (G k : K) : Nat := stakeOf G (L.record k)

def amountOf : Option (TokenProgram × TokenAccount K) → Nat
  | some x => x.2.amount.toNat
  | none => 0

def Ledger.amount (L : Ledger K) (k : K) : Nat := amountOf (L.token k)

omit [DecidableEq K] in
theorem State.ledger_amount (s : State K) (k : K) : s.ledger.amount k = s.amount k := by
  change amountOf (s.account k).token? = (s.account k).amount
  cases s.account k <;> rfl

theorem stakeOf_ne_zero {G : K} {o : Option (MemberRecord K)} :
    stakeOf G o ≠ 0 ↔ ∃ r, o = some r ∧ r.group = G ∧ r.totalDeposited.toNat ≠ 0 := by
  cases o with
  | none => simp [stakeOf]
  | some r => by_cases h : r.group = G <;> simp [stakeOf, h]

theorem amountOf_movedTokens {tok : K → Option (TokenProgram × TokenAccount K)} {p : TokenProgram}
    {src dst : K} {t t' : TokenAccount K} {n : UInt64} (hne : src ≠ dst) (hle : n ≤ t.amount)
    (hlt : t'.amount.toNat + n.toNat < 2 ^ 64) :
    amountOf (movedTokens tok p src dst t t' n src) + n.toNat = t.amount.toNat ∧
      amountOf (movedTokens tok p src dst t t' n dst) = t'.amount.toNat + n.toNat := by
  have hsub := UInt64.toNat_sub_of_le _ _ hle
  have := UInt64.le_iff_toNat_le.1 hle
  constructor
  · rw [movedTokens, update_of_ne hne, update_self]
    simp only [amountOf]
    omega
  · rw [movedTokens, update_self]
    simp only [amountOf]
    rw [UInt64.toNat_add, Nat.mod_eq_of_lt hlt]

theorem amountOf_creditAll {tok : K → Option (TokenProgram × TokenAccount K)}
    {pays : List (K × UInt64)} {p : TokenProgram} {q : K × UInt64}
    (hnd : (pays.map Prod.fst).Nodup) (hq : q ∈ pays)
    (hroom : 0 < q.2 → ∃ t, tok q.1 = some (p, t) ∧ t.amount.toNat + q.2.toNat < 2 ^ 64) :
    amountOf (creditAll tok pays q.1) = amountOf (tok q.1) + q.2.toNat := by
  rw [creditAll_of_mem hnd hq]
  by_cases h0 : 0 < q.2
  · obtain ⟨t, ht, hlt⟩ := hroom h0
    rw [ht]
    simp only [Option.map_some, amountOf]
    rw [UInt64.toNat_add, Nat.mod_eq_of_lt hlt]
  · have h0 : q.2 = 0 := by simpa using h0
    rw [h0]
    cases tok q.1 <;> simp [amountOf]

theorem movedTokens_of_ne {tok : K → Option (TokenProgram × TokenAccount K)} {p : TokenProgram}
    {src dst k : K} {t t' : TokenAccount K} {n : UInt64} (hs : k ≠ src) (hd : k ≠ dst) :
    movedTokens tok p src dst t t' n k = tok k := by
  rw [movedTokens, update_of_ne hd, update_of_ne hs]

theorem holder_movedTokens {tok : K → Option (TokenProgram × TokenAccount K)} {p : TokenProgram}
    {src dst : K} {t t' : TokenAccount K} (hs : tok src = some (p, t))
    (hd : tok dst = some (p, t')) (n : UInt64) (k : K) :
    (movedTokens tok p src dst t t' n k).map Layout.holder = (tok k).map Layout.holder := by
  unfold movedTokens
  by_cases hkd : k = dst
  · subst hkd
    simp [hd, Layout.holder]
  · by_cases hks : k = src
    · subst hks
      simp [update_of_ne hkd, hs, Layout.holder]
    · simp [update_of_ne hkd, update_of_ne hks]

theorem holder_creditAll {tok : K → Option (TokenProgram × TokenAccount K)}
    {pays : List (K × UInt64)} (k : K) :
    (creditAll tok pays k).map Layout.holder = (tok k).map Layout.holder := by
  induction pays generalizing tok with
  | nil => rfl
  | cons pay pays ih =>
    rw [creditAll, ih, creditTokens]
    by_cases hk : k = pay.1
    · subst hk
      rw [update_self, Option.map_map]
      rfl
    · rw [update_of_ne hk]

/-! ## The invariant -/

/-- `p` is the pool of the group at `G`. -/
structure Ledger.Holds (E : Env K) (L : Ledger K) (G : K) (g : GroupConfig K) (p : Pool K) :
    Prop where
  stake : ∀ k, p.stake k = L.stake G k
  count : p.members.card = g.currentMembers.toNat
  balance : ¬g.isSettled → ∀ {V}, E.createProgramAddress (.vault G) g.vaultBump = some V →
    L.amount V = p.balance

structure Inv (E : Env K) (L : Ledger K) : Prop extends Layout E L where
  custody : ∀ {G g}, L.group G = some g → ∃ p, L.Holds E G g p

/-- Nothing of the groups other than `G` changes. -/
structure Frame (E : Env K) (L L' : Ledger K) (G : K) : Prop where
  group : ∀ {G'}, G' ≠ G → L'.group G' = L.group G'
  record : ∀ {k r}, r.group ≠ G → (L'.record k = some r ↔ L.record k = some r)
  vault : ∀ {G' V b}, G' ≠ G → E.createProgramAddress (.vault G') b = some V →
    L'.token V = L.token V

namespace Frame

variable {L L' : Ledger K} {G : K}

theorem stake (h : Frame E L L' G) {G' : K} (hne : G' ≠ G) (k : K) :
    L'.stake G' k = L.stake G' k := by
  by_cases h0 : L.stake G' k = 0
  · rw [h0]
    by_contra hne'
    obtain ⟨r, hr, hg, h1⟩ := stakeOf_ne_zero.1 hne'
    have hr₀ := (h.record (hg ▸ hne)).1 hr
    exact stakeOf_ne_zero.2 ⟨r, hr₀, hg, h1⟩ h0
  · obtain ⟨r, hr, hg, -⟩ := stakeOf_ne_zero.1 h0
    have hr' := (h.record (hg ▸ hne)).2 hr
    rw [Ledger.stake, Ledger.stake, hr, hr']

theorem holds (h : Frame E L L' G) {G' : K} {g : GroupConfig K} {p : Pool K} (hne : G' ≠ G)
    (hp : L.Holds E G' g p) : L'.Holds E G' g p := by
  refine ⟨fun k => by rw [h.stake hne, hp.stake], hp.count, fun hs V hV => ?_⟩
  rw [← hp.balance hs hV, Ledger.amount, Ledger.amount, h.vault hne hV]

/-- Custody is kept when it is kept for the one group that changed. -/
theorem custody (h : Frame E L L' G)
    (hc : ∀ {G g}, L.group G = some g → ∃ p, L.Holds E G g p)
    (hG : ∀ {g}, L'.group G = some g → ∃ p, L'.Holds E G g p) {G' : K} {g : GroupConfig K}
    (hg : L'.group G' = some g) : ∃ p, L'.Holds E G' g p := by
  by_cases hne : G' = G
  · subst hne
    exact hG hg
  · rw [h.group hne] at hg
    obtain ⟨p, hp⟩ := hc hg
    exact ⟨p, h.holds hne hp⟩

end Frame

/-- Slots of a pool are the open records of its group. -/
theorem Ledger.Holds.mem {L : Ledger K} {G : K} {g : GroupConfig K} {p : Pool K}
    (h : L.Holds E G g p) (hL : Layout E L) {k : K} :
    k ∈ p.members ↔ ∃ r, L.record k = some r ∧ r.group = G := by
  rw [Pool.mem_members, h.stake, Ledger.stake, stakeOf_ne_zero]
  constructor
  · rintro ⟨r, hr, hg, -⟩
    exact ⟨r, hr, hg⟩
  · rintro ⟨r, hr, hg⟩
    refine ⟨r, hr, hg, ?_⟩
    have := UInt64.lt_iff_toNat_lt.1 (hL.record hr).2.1
    simp at this
    omega

/-- The deposits of all open records of a group. -/
noncomputable def Ledger.deposits (L : Ledger K) (G : K) : Nat := ∑ᶠ k, L.stake G k

theorem Ledger.Holds.deposits {L : Ledger K} {G : K} {g : GroupConfig K} {p : Pool K}
    (h : L.Holds E G g p) : (support (L.stake G)).Finite ∧ L.deposits G = p.stake.degree := by
  have hf : L.stake G = p.stake := funext fun k => (h.stake k).symm
  refine ⟨by rw [hf, Finsupp.fun_support_eq]; exact Finset.finite_toSet _, ?_⟩
  rw [Ledger.deposits, hf, finsum_eq_sum_of_support_subset _ (s := p.stake.support) (by simp),
    Finsupp.degree_apply]

end SafeNudge
