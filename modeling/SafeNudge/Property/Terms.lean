import SafeNudge.Invariant.Trace
import SafeNudge.Model.Symbolic

/-!
# Terms bind for the whole membership

`record_bound`: an open record was made by the latest join of its member at its group, that join
named the terms and the mint the group has now, and the group is one instance since then.
-/

namespace SafeNudge

open Lib Function

variable {K : Type} [DecidableEq K] {E : Env K} {h : List (StepEntry K)} {s s' : State K}

/-- `e` is the join that made the record at `k` of member `M` in group `G`. -/
structure JoinedBy (k G M : K) (e : StepEntry K) (ctx : Ctx K) (a : JoinGroup K)
    (terms : GroupTerms K) (expected : Option UInt32) : Prop where
  act : ∃ events, e.act = .call ctx (.joinGroup a terms expected) events
  record : a.memberRecord = k
  group : a.groupConfig = G
  member : a.member = M
  fresh : e.pre.record k = none
  made : ∃ r, e.post.record k = some r ∧ r.rentPayer = a.rentPayer

/-- The group at `G` has these terms and this mint. -/
def State.HasTerms (s : State K) (G : K) (terms : GroupTerms K) (mint : K) : Prop :=
  ∃ g, s.group G = some g ∧ g.terms = terms ∧ g.mint = mint

/-- The record of a join step. -/
theorem Step.joinedBy {act : Action K} (h : Step E s act s') (hL : Layout E s.ledger) {k : K}
    {r : MemberRecord K} (hr : s'.record k = some r) (hn : s.record k = none) :
    ∃ ctx a terms expected, JoinedBy k r.group r.member ⟨s, act, s'⟩ ctx a terms expected ∧
      s'.HasTerms r.group terms a.mint := by
  obtain ⟨r₀, hr₀, -⟩ | ⟨-, hj⟩ := h.record_back hL hr
  · rw [hn] at hr₀
    cases hr₀
  cases h with
  | @call ctx c _ _ events hexec =>
    cases execute_effect hL hexec with
    | @joinGroup a terms expected g t n₁ n₂ h =>
      have hterms := h.terms
      have hmint := h.mint
      obtain ⟨p, mt, vt, b, cm, joins, -, -, -, -, -, -, -, -, hR, -, -, hpost, -⟩ := h.post
      have hrec : s'.record = update s.record a.memberRecord
          (some (a.newRecord g.depositAmount b)) := congrArg Ledger.record hpost
      have hgroup : s'.group = update s.group a.groupConfig
          (some { g with currentMembers := cm }) := congrArg Ledger.group hpost
      have hk : a.memberRecord = k := by
        by_contra hne
        rw [hrec, update_of_ne (Ne.symm hne), hn] at hr
        cases hr
      subst hk
      refine ⟨ctx, a, terms, expected, ⟨⟨events, rfl⟩, rfl, hj.1, hj.2, hn,
        a.newRecord g.depositAmount b, by simp only [hrec, update_self], rfl⟩, ?_⟩
      · exact ⟨{ g with currentMembers := cm }, by rw [hgroup, ← hj.1, update_self], hterms,
          hmint.symm⟩
    | _ => exact hj.elim
  | outside => exact hj.elim

/-- The terms and the mint of the group of an open record stay. -/
theorem Step.hasTerms {act : Action K} (h : Step E s act s') (hI : Inv E s.ledger) {k : K}
    {r : MemberRecord K} (hr : s.record k = some r) {terms : GroupTerms K} {mint : K}
    (ht : s.HasTerms r.group terms mint) :
    ¬act.Is (Call.closes r.group) ∧ ¬act.Is (Call.creates r.group) ∧
      s'.HasTerms r.group terms mint := by
  obtain ⟨g, hg, rfl, rfl⟩ := ht
  obtain ⟨hc, ⟨hcl, g', hg', hi, -⟩ | ⟨-, -, -, h0⟩⟩ := h.group hI.toLayout hg
  · exact ⟨hcl, hc, g', hg', hi.terms, hi.mint⟩
  · exact absurd rfl (hI.no_records hg h0 hr)

theorem record_bound (hr : Reached E h s) {k : K} {r : MemberRecord K}
    (hk : s.record k = some r) :
    ∃ newer e ctx a terms expected,
      Latest (Did (Call.joins r.group r.member)) h newer e ∧
      JoinedBy k r.group r.member e ctx a terms expected ∧ a.rentPayer = r.rentPayer ∧
      s.HasTerms r.group terms a.mint ∧
      ∀ x ∈ newer, ¬Did (Call.closes r.group) x ∧ ¬Did (Call.creates r.group) x ∧
        (x.pre.record k).isSome ∧ x.pre.HasTerms r.group terms a.mint := by
  induction hr generalizing r with
  | start h0 => exact absurd (by rw [State.record_eq_some.1 hk]; trivial) (h0.program k)
  | @snoc h s s' act hr hst ih =>
    have hI := Reached.inv hr
    cases hn : s.record k with
    | none =>
      obtain ⟨ctx, a, terms, expected, hj, ht⟩ := hst.joinedBy hI.toLayout hk hn
      obtain ⟨events, rfl⟩ := hj.act
      obtain ⟨r₁, hr₁, hp⟩ := hj.made
      obtain rfl : r = r₁ := Option.some.inj (hk.symm.trans hr₁)
      exact ⟨[], _, ctx, a, terms, expected, .here ⟨hj.group, hj.member⟩, hj, hp.symm, ht,
        fun x hx => absurd hx List.not_mem_nil⟩
    | some r₀ =>
      obtain ⟨r₁, hr₁, hsame⟩ | ⟨hnone, -⟩ := hst.record_back hI.toLayout hk
      · obtain rfl : r₀ = r₁ := Option.some.inj (hn.symm.trans hr₁)
        obtain ⟨newer, e, ctx, a, terms, expected, hlat, hj, hp, ht, hnew⟩ := ih hn
        rw [hsame.group, hsame.member, hsame.rentPayer]
        obtain ⟨hcl, hcr, ht'⟩ := hst.hasTerms hI hn ht
        refine ⟨_ :: newer, e, ctx, a, terms, expected, hlat.cons (hst.not_joins hI.toLayout hn), hj,
          hp, ht', fun x hx => ?_⟩
        rcases List.mem_cons.1 hx with rfl | hx
        · exact ⟨hcl, hcr, by rw [hn]; rfl, ht⟩
        · exact hnew x hx
      · rw [hn] at hnone
        cases hnone

/-- The record of a member that has joined. -/
theorem record_bound_joined : ∃ h s r, Reached symbolic h s ∧ s.record (Demo.record 1) = some r ∧
    ∃ newer e ctx a terms expected,
      Latest (Did (Call.joins r.group r.member)) h newer e ∧
      JoinedBy (Demo.record 1) r.group r.member e ctx a terms expected ∧
      s.HasTerms r.group terms a.mint := by
  obtain ⟨h, s, hr, hs⟩ := replay_exists Demo.joined (world_genesis 10000 100)
    (fun _ s => (s.record (Demo.record 1)).isSome) (by decide +kernel)
  obtain ⟨r, hk⟩ := Option.isSome_iff_exists.1 hs
  obtain ⟨newer, e, ctx, a, terms, expected, hl, hj, -, ht, -⟩ := record_bound hr hk
  exact ⟨h, s, r, hr, hk, newer, e, ctx, a, terms, expected, hl, hj, ht⟩

end SafeNudge
