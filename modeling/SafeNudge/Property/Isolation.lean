import SafeNudge.Invariant.Run
import SafeNudge.Model.Symbolic

/-!
# Groups do not touch each other

Every address an instruction writes is derived for its own group, or is a key that signs, or is a
token account of such a key. An address derived for another group is none of these, whatever
accounts the caller names (`Effect.sameAt`), so its account and its lamports stay (`groups_isolated`).
-/

namespace SafeNudge

open Lib Function

variable {K : Type} [DecidableEq K] {E : Env K} {ctx : Ctx K} {L L' : Ledger K}
  {events : List (Event K)} {c : Call K}

/-- Nothing at `k` changed. -/
structure SameAt (L L' : Ledger K) (k : K) : Prop where
  group : L'.group k = L.group k
  record : L'.record k = L.record k
  gate : L'.gate k = L.gate k
  tally : L'.tally k = L.tally k
  token : L'.token k = L.token k
  vacant : L'.vacant k = L.vacant k
  lamports : L'.lamports k = L.lamports k

omit [DecidableEq K] in
/-- Addresses of different groups differ. -/
theorem ne_of_groupAt {seeds seeds' : Seeds K} {b b' : UInt8} {k k' : K}
    (hk : E.createProgramAddress seeds b = some k)
    (hk' : E.createProgramAddress seeds' b' = some k') (hne : seeds.groupAt k ≠ seeds'.groupAt k') :
    k ≠ k' := by
  rintro rfl
  obtain ⟨rfl, -⟩ := E.createProgramAddress_inj hk hk'
  exact hne rfl

/-- A settlement leaves the addresses of other groups alone: nobody is paid there. -/
theorem Settled.sameAt {G V : K} {remaining : List K} {g g' : GroupConfig K} {p : TokenProgram}
    {t : TokenAccount K} {rs : List (MemberRecord K)} {burned : UInt64} (hL : Layout E L)
    (h : Settled E L L' G V remaining g g' p t rs burned) {seeds : Seeds K} {b : UInt8} {k : K}
    (hk : E.createProgramAddress seeds b = some k) (hne : seeds.groupAt k ≠ G) : SameAt L L' k := by
  have hkG := ne_of_groupAt hk h.address hne
  have hkV := ne_of_groupAt hk h.vaultAddress hne
  rw [h.post]
  exact ⟨update_of_ne hkG .., rfl, rfl, rfl, (update_of_ne hkV ..).trans
    (creditAll_of_notMem (h.notMem_of_derived hL hk)), update_of_ne hkV ..,
    moveLamports_of_ne _ _ hkV hkG⟩

/-- An address derived for another group than the one a call names is left alone. -/
theorem Effect.sameAt (hL : Layout E L) (h : Effect E ctx L L' events c) {seeds : Seeds K}
    {b : UInt8} {k : K} (hk : E.createProgramAddress seeds b = some k)
    (hne : seeds.groupAt k ≠ c.groupKey) : SameAt L L' k := by
  have hsign : ∀ {w}, E.canSign w = true → k ≠ w := fun hw =>
    Ne.symm (Env.ne_of_canSign hk hw)
  have hgroup : ∀ {g}, L.group c.groupKey = some g → k ≠ c.groupKey := fun hg =>
    ne_of_groupAt hk (Env.findProgramAddress_create (hL.group hg).address) hne
  cases h with
  | createGroup h =>
    have hp := hsign h.payer.2
    obtain ⟨p, m, bump, vb, n₁, n₂, -, -, hG, hV, -, -, -, rfl⟩ := h.post
    have hkG := ne_of_groupAt hk (Env.findProgramAddress_create hG) hne
    have hkV := ne_of_groupAt hk (Env.findProgramAddress_create hV) hne
    exact ⟨update_of_ne hkG .., rfl, rfl, rfl, update_of_ne hkV ..,
      by simp only [update_of_ne hkV, update_of_ne hkG],
      by simp only [moveLamports_of_ne _ _ hp hkV, moveLamports_of_ne _ _ hp hkG]⟩
  | joinGroup h =>
    have hp := hsign h.payer.2
    have hkG := hgroup h.group
    have hkV := ne_of_groupAt hk h.vault hne
    obtain ⟨tb, hT⟩ := h.tallyAddress
    have hkT := ne_of_groupAt hk (Env.findProgramAddress_create hT) hne
    obtain ⟨p, mt, vt, rb, cm, joins, hmt, hvt, -, hmo, -, -, -, -, hR, -, -, rfl, -⟩ := h.post
    have hkR := ne_of_groupAt hk (Env.findProgramAddress_create hR) hne
    have hkM := hL.ne_derived hmt (hmo ▸ h.member.2) hk
    exact ⟨update_of_ne hkG .., update_of_ne hkR .., rfl, update_of_ne hkT ..,
      movedTokens_of_ne hkM hkV, by simp only [update_of_ne hkR, update_of_ne hkT],
      by simp only [moveLamports_of_ne _ _ hp hkR, moveLamports_of_ne _ _ hp hkT]⟩
  | leaveGroup h =>
    have hkG := hgroup h.group
    have hkR := ne_of_groupAt hk h.address hne
    have hkV := ne_of_groupAt hk h.vault hne
    have hp := hsign (h.payer ▸ (hL.placed h.record).payer)
    obtain ⟨p, mt, vt, cm, hmt, hvt, -, hmo, -, -, -, -, -, rfl, -⟩ := h.post
    have hkM := hL.ne_derived hmt (hmo ▸ h.member.2) hk
    exact ⟨update_of_ne hkG .., update_of_ne hkR .., rfl, rfl, movedTokens_of_ne hkV hkM,
      update_of_ne hkR .., moveLamports_of_ne _ _ hkR hp⟩
  | startCycle h =>
    rw [h.post]
    exact ⟨update_of_ne (hgroup h.group) .., rfl, rfl, rfl, rfl, rfl, rfl⟩
  | deposit h =>
    have hkR := ne_of_groupAt hk h.address hne
    have hkV := ne_of_groupAt hk h.vault hne
    obtain ⟨p, mt, vt, hmt, hvt, -, hmo, -, -, -, -, hpost⟩ := h.post
    have hkM := hL.ne_derived hmt (hmo ▸ h.member.2) hk
    obtain ⟨duration, ce, period, r', -, -, -, -, -, hrec, -⟩ := h.period
    rw [hpost, hrec]
    exact ⟨rfl, update_of_ne hkR .., rfl, rfl, movedTokens_of_ne hkM hkV, rfl, rfl⟩
  | distribute h => exact h.sameAt hL hk hne
  | emergencyCancel _ h => exact h.sameAt hL hk hne
  | refundVaultRent h =>
    have hp := hsign (h.payer ▸ (hL.group h.group).payer)
    rw [h.post]
    exact ⟨rfl, rfl, rfl, rfl, rfl, rfl, moveLamports_of_ne _ _ (hgroup h.group) hp⟩
  | closeMemberRecord h =>
    have hkR := ne_of_groupAt hk h.address hne
    have hp := hsign (h.payer ▸ (hL.placed h.record).payer)
    obtain ⟨cm, -, rfl⟩ := h.post
    exact ⟨update_of_ne (hgroup h.group) .., update_of_ne hkR .., rfl, rfl, rfl, update_of_ne hkR ..,
      moveLamports_of_ne _ _ hkR hp⟩
  | @closeGroup a _ h =>
    have hkG : k ≠ a.groupConfig := hgroup h.group
    have hp := hsign (h.payer ▸ (hL.group h.group).payer)
    obtain ⟨jb, hJ⟩ := h.gateAddress
    have hkJ := ne_of_groupAt hk (Env.findProgramAddress_create hJ) hne
    obtain ⟨n, -, rfl, -⟩ := h.post
    exact ⟨update_of_ne hkG .., rfl, update_of_ne hkJ .., rfl, rfl,
      by simp only [update_of_ne hkG, update_of_ne hkJ],
      by simp only [moveLamports_of_ne _ _ hkG hp, moveLamports_of_ne _ _ hkJ hp]⟩
  | closeJoinTally h =>
    have hp := hsign (h.payer ▸ (hL.tally h.tally).1)
    obtain ⟨tb, hT⟩ := h.address
    have hkT := ne_of_groupAt hk (Env.findProgramAddress_create hT) hne
    rw [h.post]
    exact ⟨rfl, rfl, rfl, update_of_ne hkT .., rfl, update_of_ne hkT .., moveLamports_of_ne _ _ hkT hp⟩
  | setJoinAuthority h =>
    have hp := hsign h.payer.2
    obtain ⟨jb, hJ⟩ := h.address
    have hkJ := ne_of_groupAt hk (Env.findProgramAddress_create hJ) hne
    obtain ⟨n, -, -, rfl⟩ := h.post
    exact ⟨rfl, rfl, update_of_ne hkJ .., rfl, rfl, update_of_ne hkJ ..,
      moveLamports_of_ne _ _ hp hkJ⟩

/-- At a derived address the ledger determines the account. -/
theorem SameAt.account {s s' : State K} {k : K} (h : SameAt s.ledger s'.ledger k)
    (hL : Layout E s.ledger) {seeds : Seeds K} {b : UInt8}
    (hk : E.createProgramAddress seeds b = some k) : s'.account k = s.account k := by
  obtain ⟨hg, hr, hj, ht, hm, hv, -⟩ := h
  rcases hL.derived hk with hv₀ | h₀ | h₀ | h₀ | h₀ | h₀
  · have hv₁ : s.account k = .system := hv₀
    have hv₂ : s'.account k = .system := by
      have : s'.ledger.vacant k := hv ▸ hv₀
      exact this
    rw [hv₁, hv₂]
  all_goals obtain ⟨x, hx⟩ := Option.isSome_iff_exists.1 h₀
  · rw [State.group_eq_some.1 hx, State.group_eq_some.1 (hg.trans hx)]
  · rw [State.record_eq_some.1 hx, State.record_eq_some.1 (hr.trans hx)]
  · rw [State.gate_eq_some.1 hx, State.gate_eq_some.1 (hj.trans hx)]
  · rw [State.tally_eq_some.1 hx, State.tally_eq_some.1 (ht.trans hx)]
  · obtain ⟨p, t⟩ := x
    rw [State.token_eq_some.1 hx, State.token_eq_some.1 (hm.trans hx)]

/-! ## The accounts of a group -/

/-- The addresses of the accounts of the group at `G`: its own, its vault, its gate, and the
records and tallies of any member. -/
inductive AccountOf (E : Env K) (G : K) : K → Prop where
  | group {code : String} {b : UInt8} : E.createProgramAddress (.group code) b = some G →
      AccountOf E G G
  | vault {b : UInt8} {k : K} : E.createProgramAddress (.vault G) b = some k → AccountOf E G k
  | record {M : K} {b : UInt8} {k : K} : E.createProgramAddress (.member G M) b = some k →
      AccountOf E G k
  | gate {b : UInt8} {k : K} : E.createProgramAddress (.join G) b = some k → AccountOf E G k
  | tally {M : K} {b : UInt8} {k : K} : E.createProgramAddress (.tally G M) b = some k →
      AccountOf E G k

omit [DecidableEq K] in
theorem AccountOf.seeds {G k : K} (h : AccountOf E G k) :
    ∃ seeds b, E.createProgramAddress seeds b = some k ∧ seeds.groupAt k = G := by
  cases h with
  | group h => exact ⟨_, _, h, rfl⟩
  | vault h => exact ⟨_, _, h, rfl⟩
  | record h => exact ⟨_, _, h, rfl⟩
  | gate h => exact ⟨_, _, h, rfl⟩
  | tally h => exact ⟨_, _, h, rfl⟩

/-- The accounts of a reachable state that belong to a group are at these addresses. -/
theorem Layout.accountOf {s : State K} (hL : Layout E s.ledger) {G : K} :
    (∀ g, s.group G = some g → AccountOf E G G ∧
      ∀ V, E.createProgramAddress (.vault G) g.vaultBump = some V → AccountOf E G V) ∧
    (∀ k r, s.record k = some r → r.group = G → AccountOf E G k) := by
  refine ⟨fun g hg => ⟨.group (Env.findProgramAddress_create (hL.group hg).address),
    fun V hV => .vault hV⟩, ?_⟩
  rintro k r hr rfl
  exact .record (Env.findProgramAddress_create (hL.placed hr).address)

/-- A successful instruction leaves every account of every other group as it was: data, token
balance and lamports. -/
theorem groups_isolated {h : List (StepEntry K)} {s s' : State K} (hr : Reached E h s)
    (hexec : execute E ctx c s = .ok (s', events)) {G : K} (hG : G ≠ c.groupKey) :
    (∀ k, AccountOf E G k → s'.account k = s.account k ∧ s'.lamports k = s.lamports k) ∧
    (∀ g, s.group G = some g → AccountOf E G G) ∧
    (∀ k r, s.record k = some r → r.group = G → AccountOf E G k) ∧
    (∀ k r, s'.record k = some r → r.group = G → s.record k = some r) := by
  have hL := (Reached.inv hr).toLayout
  have hL' := (Reached.inv (.snoc hr (.call hexec))).toLayout
  have hsame : ∀ k, AccountOf E G k → s'.account k = s.account k ∧ s'.lamports k = s.lamports k := by
    intro k hk
    obtain ⟨seeds, b, hseeds, rfl⟩ := hk.seeds
    have h := (execute_effect hL hexec).sameAt hL hseeds hG
    exact ⟨h.account hL hseeds, h.lamports⟩
  refine ⟨hsame, fun g hg => (hL.accountOf.1 g hg).1, hL.accountOf.2, fun k r hk hrG => ?_⟩
  have hacc := (hsame k (hL'.accountOf.2 k r hk hrG)).1
  exact State.record_eq_some.2 (hacc ▸ State.record_eq_some.1 hk)

/-- A start of one of two groups. -/
theorem groups_isolated_other : ∃ h s s' events, Reached symbolic h s ∧
    execute symbolic (Demo.tx [0] 0) Demo.start s = .ok (s', events) ∧
    Demo.other ≠ Demo.start.groupKey ∧ (s.group Demo.other).isSome ∧
    ∀ k, AccountOf symbolic Demo.other k →
      s'.account k = s.account k ∧ s'.lamports k = s.lamports k := by
  obtain ⟨h, s, hr, hs⟩ := replay_exists (Demo.joined ++ [(Demo.tx [0] 0, Demo.createOther)])
    (world_genesis 10000 100)
    (fun _ s => (execute symbolic (Demo.tx [0] 0) Demo.start s).isOk && (s.group Demo.other).isSome)
    (by decide +kernel)
  obtain ⟨hok, hother⟩ := Bool.and_eq_true_iff.1 hs
  obtain ⟨⟨s', events⟩, hexec⟩ : ∃ x, execute symbolic (Demo.tx [0] 0) Demo.start s = .ok x := by
    cases hx : execute symbolic (Demo.tx [0] 0) Demo.start s with
    | ok x => exact ⟨x, rfl⟩
    | error e =>
      rw [hx] at hok
      cases hok
  have hne : Demo.other ≠ Demo.start.groupKey := by decide
  exact ⟨h, s, s', events, hr, hexec, hne, hother, (groups_isolated hr hexec hne).1⟩

end SafeNudge
