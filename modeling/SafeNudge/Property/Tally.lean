import SafeNudge.Invariant.Trace
import SafeNudge.Model.Symbolic

/-!
# One approval lands at most once

A tally counts the joins of one member at one group address. `Step.tally` is what a step does to
it, `tally_history` the count of a run, and `join_once` the consequence for a join that names the
count it expects.
-/

namespace SafeNudge

open Lib Function

variable {K : Type} [DecidableEq K] {E : Env K} {h : List (StepEntry K)} {s s' : State K}

/-- The joins a tally slot stands for. -/
def joinsOf : Option (JoinTally K) → Nat
  | some t => t.joins.toNat
  | none => 0

/-- A join of `M` at `G` that pays from `payer` and names the count `expected`. -/
def JoinedWith (G M payer : K) (expected : Option UInt32) (act : Action K) : Prop :=
  ∃ ctx a terms events, act = .call ctx (.joinGroup a terms expected) events ∧
    a.groupConfig = G ∧ a.member = M ∧ a.rentPayer = payer

omit [DecidableEq K] in
theorem JoinedWith.joins {G M payer : K} {expected : Option UInt32} {act : Action K}
    (h : JoinedWith G M payer expected act) : act.Is (Call.joins G M) := by
  obtain ⟨ctx, a, terms, events, rfl, hG, hM, -⟩ := h
  exact ⟨hG, hM⟩

/-- What a join does to the tally of its member. -/
structure TallyJoin (G M k : K) (s s' : State K) (act : Action K) (payer : K)
    (expected : Option UInt32) : Prop where
  join : JoinedWith G M payer expected act
  live : (s'.group G).isSome
  expects : ∀ n, expected = some n → joinsOf (s.tally k) = n.toNat
  tally : ∃ t, s'.tally k = some t ∧ t.joins.toNat = joinsOf (s.tally k) + 1 ∧
    t.rentPayer = (s.tally k).elim payer (·.rentPayer)

section
variable {act : Action K} {G M k : K} {b : UInt8}

/-- A join goes through the tally of its member and group. -/
theorem JoinGroup.Effect.tallyJoin {ctx : Ctx K} {a : JoinGroup K} {terms : GroupTerms K}
    {expected : Option UInt32} {events : List (Event K)} {g : GroupConfig K} {t : JoinTally K}
    {n₁ n₂ : Nat} (hL : Layout E s.ledger)
    (h : JoinGroup.Effect E ctx a terms expected s.ledger s'.ledger events g t n₁ n₂)
    (hk : E.findProgramAddress (.tally a.groupConfig a.member) = some (k, b)) :
    TallyJoin a.groupConfig a.member k s s' (.call ctx (.joinGroup a terms expected) events)
      a.rentPayer expected := by
  have htal := h.tally
  have hexp := h.expected
  obtain ⟨b', hT⟩ := h.tallyAddress
  obtain rfl : a.joinTally = k := by
    rw [hT] at hk
    exact (Prod.mk.inj (Option.some.inj hk)).1
  obtain ⟨p, mt, vt, rb, cm, joins, -, -, -, -, -, -, -, -, -, -, hjoins, hpost, -⟩ := h.post
  have htally : s'.tally = update s.tally a.joinTally
      (some ⟨if t.joins = 0 then a.rentPayer else t.rentPayer, joins⟩) :=
    congrArg Ledger.tally hpost
  have hgroup : s'.group = update s.group a.groupConfig
      (some { g with currentMembers := cm }) := congrArg Ledger.group hpost
  have hcount : joinsOf (s.tally a.joinTally) = t.joins.toNat := by
    rcases htal with ⟨-, hn, rfl, -⟩ | ⟨ht, -⟩
    · rw [show s.tally a.joinTally = none from hn]
      rfl
    · rw [show s.tally a.joinTally = some t from ht]
      rfl
  refine ⟨⟨ctx, a, terms, events, rfl, rfl, rfl, rfl⟩, by rw [hgroup, update_self]; rfl,
    fun n hn => by rw [hcount, hexp n hn], _, by rw [htally, update_self], ?_, ?_⟩
  · rw [hcount]
    exact checkedAdd32_eq_some hjoins
  · rcases htal with ⟨-, hn, rfl, -⟩ | ⟨ht, -⟩
    · rw [show s.tally a.joinTally = none from hn]
      rfl
    · rw [show s.tally a.joinTally = some t from ht]
      exact if_neg (hL.tally ht).2.1

/-- Only joins of its member change a tally; it is removed only where no group lives. -/
theorem Step.tally (h : Step E s act s') (hL : Layout E s.ledger)
    (hk : E.findProgramAddress (.tally G M) = some (k, b)) :
    (¬act.Is (Call.joins G M) ∧ ¬act.Is (Call.closesTally k) ∧ s'.tally k = s.tally k) ∨
      (∃ payer expected, TallyJoin G M k s s' act payer expected) ∨
      (act.Is (Call.closesTally k) ∧ s.group G = none ∧ s'.tally k = none) := by
  cases h with
  | outside h => exact .inl ⟨id, id, congrFun h.tally k⟩
  | @call ctx c _ _ events hexec =>
    have he := execute_effect hL hexec
    rcases he.tallyStep k with hsame | ⟨a, terms, expected, g, t, n₁, n₂, rfl, rfl, h⟩ |
      ⟨a, member, t, rfl, rfl, h⟩
    · cases he with
      | @joinGroup a terms expected g t n₁ n₂ h =>
        obtain ⟨b', hT⟩ := h.tallyAddress
        refine .inl ⟨?_, nofun, hsame⟩
        rintro ⟨rfl, rfl⟩
        obtain ⟨t', ht', hcount, -⟩ := (h.tallyJoin hL hk).tally
        rw [show s'.tally k = s.tally k from hsame] at ht'
        rw [ht'] at hcount
        simp [joinsOf] at hcount
      | @closeJoinTally a member t h =>
        refine .inl ⟨nofun, fun hc => ?_, hsame⟩
        obtain rfl : a.joinTally = k := hc
        have hnone : s'.ledger.tally a.joinTally = none := by rw [h.post]; exact update_self ..
        rw [hsame, h.tally] at hnone
        cases hnone
      | _ => exact .inl ⟨nofun, nofun, hsame⟩
    · obtain ⟨b', hT⟩ := h.tallyAddress
      obtain ⟨hG, hM⟩ : a.groupConfig = G ∧ a.member = M := by
        simpa using Env.findProgramAddress_inj hT hk
      subst hG hM
      exact .inr (.inl ⟨_, _, h.tallyJoin hL hT⟩)
    · obtain ⟨b', hT⟩ := h.address
      obtain ⟨hG, -⟩ : a.groupConfig = G ∧ member = M := by
        simpa using Env.findProgramAddress_inj hT hk
      refine .inr (.inr ⟨rfl, hG ▸ h.closed, ?_⟩)
      have hnone : s'.ledger.tally a.joinTally = none := by rw [h.post]; exact update_self ..
      exact hnone

end

/-! ## Runs -/

section
variable {G M k : K} {b : UInt8}

/-- A stored tally counts the joins since the one that created it, and keeps its payer. -/
theorem tally_since_creation (hr : Reached E h s)
    (hk : E.findProgramAddress (.tally G M) = some (k, b)) {t : JoinTally K}
    (ht : s.tally k = some t) :
    ∃ newer e expected, Latest (fun x => Did (Call.joins G M) x ∧ x.pre.tally k = none) h newer e ∧
      (∀ x ∈ newer, ¬Did (Call.closesTally k) x) ∧
      t.joins.toNat = (newer ++ [e]).countP (fun x => decide (Did (Call.joins G M) x)) ∧
      JoinedWith G M t.rentPayer expected e.act := by
  induction hr generalizing t with
  | start h0 => exact absurd (by rw [State.tally_eq_some.1 ht]; trivial) (h0.program k)
  | @snoc h s s' act hr hst ih =>
    rcases hst.tally (Reached.inv hr).toLayout hk with ⟨hj, hc, hsame⟩ | ⟨payer, expected, hj⟩ |
      ⟨-, -, hnone⟩
    · obtain ⟨newer, e, expected, hlat, hcl, hcount, hjoin⟩ := ih (hsame ▸ ht)
      refine ⟨_ :: newer, e, expected, hlat.cons fun hp => hj hp.1, fun x hx => ?_, ?_, hjoin⟩
      · rcases List.mem_cons.1 hx with rfl | hx
        · exact hc
        · exact hcl x hx
      · rw [List.cons_append, List.countP_cons_of_neg (by rwa [decide_eq_true_iff]), hcount]
    · obtain ⟨t', ht', hcount', hpayer⟩ := hj.tally
      obtain rfl : t = t' := Option.some.inj (ht.symm.trans ht')
      have hdid : Did (Call.joins G M) ⟨s, act, s'⟩ := hj.join.joins
      cases hold : s.tally k with
      | none =>
        rw [hold] at hcount' hpayer
        refine ⟨[], _, expected, .here ⟨hdid, hold⟩, fun x hx => absurd hx List.not_mem_nil, ?_, ?_⟩
        · simp [hcount', joinsOf, hdid]
        · rw [hpayer]
          exact hj.join
      | some t₀ =>
        obtain ⟨newer, e, expected, hlat, hcl, hcount, hjoin⟩ := ih hold
        rw [hold] at hcount' hpayer
        refine ⟨_ :: newer, e, expected, hlat.cons fun hp => ?_, fun x hx => ?_, ?_, ?_⟩
        · rw [hold] at hp
          exact absurd hp.2 (by simp)
        · rcases List.mem_cons.1 hx with rfl | hx
          · obtain ⟨ctx, a, terms, events, rfl, -⟩ := hj.join
            exact nofun
          · exact hcl x hx
        · rw [List.cons_append, List.countP_cons_of_pos (by simpa using hdid), ← hcount, hcount']
          rfl
        · rw [hpayer]
          exact hjoin
    · rw [ht] at hnone
      cases hnone

/-- What a step of the run leaves of a tally. -/
theorem tally_kept (hr : Reached E h s) (hk : E.findProgramAddress (.tally G M) = some (k, b))
    {x : StepEntry K} (hx : x ∈ h) {t : JoinTally K} (ht : x.pre.tally k = some t) :
    x.post.tally k = some t ∨
      (Did (Call.joins G M) x ∧ ∃ t', x.post.tally k = some t' ∧
        t'.joins.toNat = t.joins.toNat + 1 ∧ t'.rentPayer = t.rentPayer) ∨
      (Did (Call.closesTally k) x ∧ x.pre.group G = none ∧ x.post.tally k = none) := by
  obtain ⟨hst, h', hr'⟩ := Run.mem hr hx
  rcases hst.tally (Reached.inv hr').toLayout hk with ⟨-, -, hsame⟩ | ⟨payer, expected, hj⟩ |
    ⟨hc, hn, hnone⟩
  · exact .inl (hsame.trans ht)
  · obtain ⟨t', ht', hcount, hpayer⟩ := hj.tally
    rw [ht] at hcount hpayer
    exact .inr (.inl ⟨hj.join.joins, t', ht', hcount, hpayer⟩)
  · exact .inr (.inr ⟨hc, hn, hnone⟩)

/-- Before a join that names a count at most that of an earlier join, the tally was closed. -/
theorem tally_closed_between (hr : Reached E h s)
    (hk : E.findProgramAddress (.tally G M) = some (k, b)) {newer mid older : List (StepEntry K)}
    {e₁ e₂ : StepEntry K} (hh : h = newer ++ e₂ :: (mid ++ e₁ :: older)) {p₁ p₂ : K} {n : UInt32}
    (h₁ : JoinedWith G M p₁ (some n) e₁.act) (h₂ : JoinedWith G M p₂ (some n) e₂.act) :
    ∃ m₁ x m₂, mid = m₁ ++ x :: m₂ ∧ Did (Call.closesTally k) x ∧ x.pre.group G = none ∧
      ∃ y ∈ m₂, Did (Call.closes G) y := by
  have join : ∀ {s s' : State K} {act : Action K} {p : K}, Step E s act s' → Inv E s.ledger →
      JoinedWith G M p (some n) act → joinsOf (s.tally k) = n.toNat ∧
        n.toNat < joinsOf (s'.tally k) ∧ (s'.group G).isSome := by
    intro s s' act p hst hI hj
    rcases hst.tally hI.toLayout hk with ⟨hn, -, -⟩ | ⟨payer, expected, ht⟩ | ⟨hc, -, -⟩
    · exact absurd hj.joins hn
    · obtain ⟨ctx, a, terms, ev, rfl, -⟩ := ht.join
      obtain ⟨_, _, _, _, he, -⟩ := hj
      cases he
      obtain ⟨t', ht', hcount, -⟩ := ht.tally
      have hx := ht.expects n (by obtain ⟨_, _, _, _, he, -⟩ := ht.join; cases he; rfl)
      refine ⟨hx, ?_, ht.live⟩
      rw [ht']
      change n.toNat < t'.joins.toNat
      omega
    · obtain ⟨ctx, a, terms, ev, rfl, -⟩ := hj
      exact hc.elim
  obtain ⟨hr₂, hst₂⟩ := Run.older hr hh
  obtain ⟨hr₁, hst₁⟩ := Run.older hr₂ rfl
  obtain ⟨-, hlt, hlive⟩ := join hst₁ (Reached.inv hr₁) h₁
  obtain ⟨heq, -, -⟩ := join hst₂ (Reached.inv hr₂) h₂
  -- the tally held more than `n` joins after the first, and holds `n` before the second
  rcases Run.since (Q := fun s => n.toNat < joinsOf (s.tally k)) hr₂ rfl hlt with hq | ⟨x, hx, hpre, hpost⟩
  · omega
  obtain ⟨t, ht⟩ : ∃ t, x.pre.tally k = some t := by
    cases hxt : x.pre.tally k with
    | none => simp [hxt, joinsOf] at hpre
    | some t => exact ⟨t, rfl⟩
  have hdrop := tally_kept hr₂ hk (List.mem_append_left _ hx) ht
  obtain ⟨hc, hgone⟩ : Did (Call.closesTally k) x ∧ x.pre.group G = none := by
    rcases hdrop with hsame | ⟨-, t', ht', hcount, -⟩ | ⟨hc, hn, -⟩
    · rw [hsame, ← ht] at hpost
      exact absurd hpre hpost
    · rw [ht] at hpre
      rw [ht'] at hpost
      simp only [joinsOf] at hpre hpost
      omega
    · exact ⟨hc, hn⟩
  obtain ⟨m₁, m₂, rfl⟩ := List.append_of_mem hx
  refine ⟨m₁, x, m₂, rfl, hc, hgone, ?_⟩
  -- the group lived after the first join, and not when the tally was closed
  obtain ⟨hrx, -⟩ := @Run.older _ _ _ _ _ _ m₁ (m₂ ++ e₁ :: older) x hr₂ (by simp)
  rcases Run.since (Q := fun s => (s.group G).isSome) hrx rfl hlive with hq | ⟨y, hy, hpre', hpost'⟩
  · rw [hgone] at hq
    cases hq
  · obtain ⟨g, hg⟩ := Option.isSome_iff_exists.1 hpre'
    obtain ⟨hsty, h', hry⟩ := Run.mem hrx (List.mem_append_left _ hy)
    obtain ⟨-, ⟨-, g', hg', -⟩ | ⟨hcl, -⟩⟩ := hsty.group (Reached.inv hry).toLayout hg
    · rw [hg'] at hpost'
      exact absurd rfl hpost'
    · exact ⟨y, hy, hcl⟩

/-- The tally law: a tally counts the joins since its creation, only joins change it, and two joins
that expect the same count have the close of the tally between them, where no group lives. -/
theorem approval_lands_once (hr : Reached E h s)
    (hk : E.findProgramAddress (.tally G M) = some (k, b)) :
    (∀ t, s.tally k = some t → t.joins ≠ 0 ∧ ∃ newer e expected,
      Latest (fun x => Did (Call.joins G M) x ∧ x.pre.tally k = none) h newer e ∧
      (∀ x ∈ newer, ¬Did (Call.closesTally k) x) ∧
      t.joins.toNat = (newer ++ [e]).countP (fun x => decide (Did (Call.joins G M) x)) ∧
      JoinedWith G M t.rentPayer expected e.act) ∧
    (∀ x ∈ h, ∀ t, x.pre.tally k = some t → x.post.tally k = some t ∨
      (Did (Call.joins G M) x ∧ ∃ t', x.post.tally k = some t' ∧
        t'.joins.toNat = t.joins.toNat + 1 ∧ t'.rentPayer = t.rentPayer) ∨
      (Did (Call.closesTally k) x ∧ x.pre.group G = none ∧ x.post.tally k = none)) ∧
    ∀ newer e₂ mid e₁ older p₁ p₂ n, h = newer ++ e₂ :: (mid ++ e₁ :: older) →
      JoinedWith G M p₁ (some n) e₁.act → JoinedWith G M p₂ (some n) e₂.act →
      ∃ m₁ x m₂, mid = m₁ ++ x :: m₂ ∧ Did (Call.closesTally k) x ∧ x.pre.group G = none ∧
        ∃ y ∈ m₂, Did (Call.closes G) y := by
  refine ⟨fun t ht => ⟨((Reached.inv hr).tally ht).2.1, tally_since_creation hr hk ht⟩,
    fun x hx t ht => tally_kept hr hk hx ht, fun newer e₂ mid e₁ older p₁ p₂ n hh h₁ h₂ => ?_⟩
  exact tally_closed_between hr hk hh h₁ h₂

/-- A member that joined, left and joined again has a tally of two joins. -/
theorem approval_lands_once_rejoined : ∃ h s, Reached symbolic h s ∧
    s.tally (Demo.tally 1) = some { rentPayer := .wallet 1, joins := 2 } ∧
    ∃ newer e expected, Latest (fun x => Did (Call.joins Demo.G (.wallet 1)) x ∧
        x.pre.tally (Demo.tally 1) = none) h newer e ∧
      (newer ++ [e]).countP (fun x => decide (Did (Call.joins Demo.G (.wallet 1)) x)) = 2 ∧
      JoinedWith Demo.G (.wallet 1) (.wallet 1) expected e.act := by
  obtain ⟨h, s, hr, hs⟩ := replay_exists
    [(Demo.tx [0] 0, Demo.create), (Demo.tx [1] 0, Demo.join 1), (Demo.tx [1] 0, Demo.leave 1),
      (Demo.tx [1] 0, Demo.join 1)]
    (world_genesis 10000 100) (fun _ s => s.tally (Demo.tally 1) ==
      some { rentPayer := .wallet 1, joins := 2 }) (by decide +kernel)
  have hk := (approval_lands_once hr (symbolic_findProgramAddress (.tally Demo.G (.wallet 1)))).1
  obtain ⟨-, newer, e, expected, hlat, -, hcount, hjoin⟩ := hk _ (beq_iff_eq.1 hs)
  exact ⟨h, s, hr, beq_iff_eq.1 hs, newer, e, expected, hlat, hcount.symm, hjoin⟩

end

end SafeNudge
