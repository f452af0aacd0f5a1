import SafeNudge.Invariant.Run
import SafeNudge.Model.Symbolic

/-!
# Settlement sees every member exactly once

A list of remaining accounts that the checks of a settlement accept names every open record of the
group once, with a token account of its member (`list_complete`). The length check is what makes
it complete: the group counts its records (`Ledger.Holds.count`), and as many distinct records as
there are records are all of them (`Lib.Pool.mem_iff_of_card`).
-/

namespace SafeNudge

open Lib Function

variable {K : Type} [DecidableEq K] {E : Env K} {h : List (StepEntry K)} {s : State K}

/-- The pairs name the open records of the group at `G`, each once and each with a token account
of its member for `mint`. -/
structure MembersListed (E : Env K) (s : State K) (G mint : K) (pairs : List (K × K)) : Prop where
  records_nodup : (pairs.map Prod.fst).Nodup
  records : ∀ k, k ∈ pairs.map Prod.fst ↔ ∃ r, s.record k = some r ∧ r.group = G
  tokens_nodup : (pairs.map Prod.snd).Nodup
  tokens : ∀ pair ∈ pairs, ∃ r p t, s.record pair.1 = some r ∧ s.token pair.2 = some (p, t) ∧
    t.owner = r.member ∧ t.mint = mint
  no_vault : ∀ pair ∈ pairs, ∀ G' b, E.createProgramAddress (.vault G') b ≠ some pair.2

/-- The list checks of `distribute`. -/
def DistributeAccepts (E : Env K) (s : State K) (G mint : K) (memberCount : Nat)
    (remaining : List K) : Prop :=
  checkRemaining memberCount remaining = .ok () ∧
    ∃ r, distributeValidate E s G mint (chunksExact2 remaining) [] 0 [] = .ok r

/-- The list checks of `emergency_cancel`. -/
def CancelAccepts (E : Env K) (s : State K) (G mint : K) (memberCount : Nat)
    (remaining : List K) : Prop :=
  checkRemaining memberCount remaining = .ok () ∧
    ∃ r, cancelValidate E s G mint remaining memberCount 0 [] 0 [] = .ok r

omit [DecidableEq K] in
/-- A list of even length is its pairs. -/
theorem flatMap_chunksExact2 {n : Nat} {l : List K} (h : l.length = 2 * n) :
    (chunksExact2 l).flatMap (fun pair => [pair.1, pair.2]) = l := by
  induction n generalizing l with
  | zero => simp [List.length_eq_zero_iff.1 h, chunksExact2]
  | succ n ih =>
    obtain ⟨x, l, rfl⟩ := List.exists_cons_of_length_eq_add_one (h.trans (Nat.mul_succ 2 n))
    obtain ⟨y, rest, rfl⟩ := List.exists_cons_of_length_eq_add_one (Nat.succ.inj h)
    have hrest : rest.length = 2 * n := by
      simp only [List.length_cons] at h
      omega
    simp only [chunksExact2, List.flatMap_cons, ih hrest]
    rfl

section
variable {G : K} {g : GroupConfig K} {remaining : List K}

/-- Both first passes accept the same pairs. -/
theorem accepted_of_checks
    (ha : DistributeAccepts E s G g.mint g.currentMembers.toNat remaining ∨
      CancelAccepts E s G g.mint g.currentMembers.toNat remaining) :
    remaining.length = 2 * g.currentMembers.toNat ∧
      ((chunksExact2 remaining).map Prod.fst).Nodup ∧
      ∃ rs, List.Forall₂ (PairOk E s.ledger G g.mint) (chunksExact2 remaining) rs := by
  rcases ha with ⟨hlen, ⟨total, settled⟩, hv⟩ | ⟨hlen, ⟨total, refunds⟩, hv⟩
  · obtain ⟨rs, hrs, -⟩ := distributeValidate_eq_ok.1 hv
    exact ⟨checkRemaining_eq_ok.1 hlen, hrs.nodup, rs, hrs.accepted⟩
  · have hlen := checkRemaining_eq_ok.1 hlen
    have hlt := g.currentMembers.toNat_lt
    obtain ⟨rs, hrs, -⟩ := (cancelValidate_eq_ok (by omega) (by omega)).1 hv
    rw [Nat.mul_zero, List.drop_zero] at hrs
    exact ⟨hlen, hrs.nodup, rs, hrs.accepted⟩

/-- As many accepted pairs as the group counts members are all its members. -/
theorem membersListed_of_accepted (hI : Inv E s.ledger) (hg : s.group G = some g)
    {pairs : List (K × K)} {rs : List (MemberRecord K)}
    (hlen : pairs.length = g.currentMembers.toNat) (hnd : (pairs.map Prod.fst).Nodup)
    (hacc : List.Forall₂ (PairOk E s.ledger G g.mint) pairs rs) :
    MembersListed E s G g.mint pairs := by
  obtain ⟨p, hp⟩ := hI.custody hg
  have hsub : ∀ k ∈ pairs.map Prod.fst, k ∈ p.members := by
    intro k hk
    obtain ⟨pair, hpair, rfl⟩ := List.mem_map.1 hk
    obtain ⟨r, -, hr⟩ := exists_of_mem_forall₂ hacc hpair
    exact (hp.mem hI.toLayout).2 ⟨r, hr.record, hr.group⟩
  refine ⟨hnd, fun k => ?_, tokens_nodup hacc hnd hI.toLayout.placed, fun pair hpair => ?_,
    fun pair hpair G' b hV => ?_⟩
  · rw [Pool.mem_iff_of_card hnd hsub (by rw [List.length_map, hlen, hp.count])]
    exact hp.mem hI.toLayout
  · obtain ⟨r, -, hr⟩ := exists_of_mem_forall₂ hacc hpair
    obtain ⟨q, t, ht, ho, hm⟩ := hr.token
    exact ⟨r, q, t, hr.record, ht, ho, hm⟩
  · obtain ⟨r, -, hr⟩ := exists_of_mem_forall₂ hacc hpair
    exact hr.ne_derived hI.toLayout.selfOwned (hI.toLayout.placed hr.record) hV rfl

/-- Whatever list the checks of a settlement accept, it consists of pairs that name every open
record of the group exactly once. -/
theorem list_complete (hr : Reached E h s) (hg : s.group G = some g)
    (ha : DistributeAccepts E s G g.mint g.currentMembers.toNat remaining ∨
      CancelAccepts E s G g.mint g.currentMembers.toNat remaining) :
    (chunksExact2 remaining).flatMap (fun pair => [pair.1, pair.2]) = remaining ∧
      MembersListed E s G g.mint (chunksExact2 remaining) := by
  obtain ⟨hlen, hnd, rs, hacc⟩ := accepted_of_checks ha
  exact ⟨flatMap_chunksExact2 hlen,
    membersListed_of_accepted (Reached.inv hr) hg (chunksExact2_length hlen) hnd hacc⟩

/-- The list of two members in the order they joined, and backwards. -/
theorem list_complete_joined : ∃ h s g, Reached symbolic h s ∧ s.group Demo.G = some g ∧
    MembersListed symbolic s Demo.G g.mint (chunksExact2 (Demo.members [1, 2])) ∧
    MembersListed symbolic s Demo.G g.mint (chunksExact2 (Demo.members [2, 1])) := by
  obtain ⟨h, s, hr, hs⟩ := replay_exists Demo.joined (world_genesis 10000 100) (fun _ s =>
    (s.group Demo.G).any fun g => [[1, 2], [2, 1]].all fun ns =>
      (checkRemaining g.currentMembers.toNat (Demo.members ns)).isOk &&
        (distributeValidate symbolic s Demo.G g.mint (chunksExact2 (Demo.members ns)) [] 0 []).isOk)
    (by decide +kernel)
  obtain ⟨g, hg, hns⟩ := (Option.any_eq_true _ _).1 hs
  simp only [List.all_cons, List.all_nil, Bool.and_true, Bool.and_eq_true, isOk_eq_true] at hns
  obtain ⟨⟨⟨⟨⟩, h₁⟩, h₂⟩, ⟨⟨⟩, h₃⟩, h₄⟩ := hns
  exact ⟨h, s, g, hr, hg, (list_complete hr hg (.inl ⟨h₁, h₂⟩)).2,
    (list_complete hr hg (.inl ⟨h₃, h₄⟩)).2⟩

end

end SafeNudge
