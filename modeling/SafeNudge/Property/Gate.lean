import SafeNudge.Effect.Refusal
import SafeNudge.Invariant.Trace
import SafeNudge.Model.Symbolic

/-!
# A join gate covers every member

`gate_covers`: a gate was set once in the current instance of its group, before every member
joined, and each of them joined with its authority's approval. `ungated_join`: where the creator
set no gate, no join needs an authority.
-/

namespace SafeNudge

open Lib Function

variable {K : Type} [DecidableEq K] {E : Env K} {h : List (StepEntry K)} {s s' : State K}

/-- A join of `M` at `G` with the approval of `authority`: it signed, the join named the count of
the tally before it, and the transaction does not start with AdvanceNonceAccount. -/
structure ApprovedJoin (E : Env K) (G M authority : K) (e : StepEntry K) : Prop where
  approved : ∃ ctx a terms count events,
    e.act = .call ctx (.joinGroup a terms (some count)) events ∧ a.groupConfig = G ∧
    a.member = M ∧ a.joinAuthority = authority ∧ Signed E ctx authority ∧
    ¬(ctx.firstInstruction.programId = E.systemProgram ∧
      ADVANCE_NONCE_ACCOUNT <+: ctx.firstInstruction.data) ∧
    (∃ b, E.findProgramAddress (.tally G M) = some (a.joinTally, b)) ∧
    ((e.pre.tally a.joinTally).map (·.joins)).getD 0 = count

omit [DecidableEq K] in
theorem usesDurableNonce_eq_false [DecidableEq K] {ctx : Ctx K} (h : usesDurableNonce E ctx = false) :
    ¬(ctx.firstInstruction.programId = E.systemProgram ∧
      ADVANCE_NONCE_ACCOUNT <+: ctx.firstInstruction.data) := by
  rintro ⟨hp, hd⟩
  simp [usesDurableNonce, hp, List.isPrefixOf_iff_prefix.2 hd] at h

section
variable {act : Action K} {G J : K} {b : UInt8}

theorem JoinGroup.Effect.approvedJoin {ctx : Ctx K} {a : JoinGroup K} {terms : GroupTerms K}
    {expected : Option UInt32} {events : List (Event K)} {g : GroupConfig K} {t : JoinTally K}
    {n₁ n₂ : Nat} {j : JoinGate K}
    (h : JoinGroup.Effect E ctx a terms expected s.ledger s'.ledger events g t n₁ n₂)
    (hJ : E.findProgramAddress (.join a.groupConfig) = some (J, b)) (hj : s.gate J = some j) :
    ApprovedJoin E a.groupConfig a.member j.authority
      ⟨s, .call ctx (.joinGroup a terms expected) events, s'⟩ := by
  obtain ⟨b', hJ'⟩ := h.gateAddress
  obtain rfl : a.joinGate = J := by
    rw [hJ'] at hJ
    exact (Prod.mk.inj (Option.some.inj hJ)).1
  have happ := h.approved j hj
  obtain ⟨count, rfl⟩ := Option.isSome_iff_exists.1 happ.expected
  refine ⟨ctx, a, terms, count, events, rfl, rfl, rfl, happ.slot, happ.signed,
    usesDurableNonce_eq_false happ.nonce, h.tallyAddress, ?_⟩
  have hcount := h.expected count rfl
  rcases h.tally with ⟨-, hn, rfl, -⟩ | ⟨ht, -⟩
  · rw [show s.tally a.joinTally = none from hn]
    exact hcount
  · rw [show s.tally a.joinTally = some t from ht]
    exact hcount

/-- A gate stays as it is; it appears in a group without members, and goes with its group. -/
theorem Step.gate (h : Step E s act s') (hI : Inv E s.ledger)
    (hJ : E.findProgramAddress (.join G) = some (J, b)) :
    (¬act.Is (Call.gates G) ∧ s'.gate J = s.gate J) ∨
      (∃ ctx a authority events, act = .call ctx (.setJoinAuthority a authority) events ∧
        a.groupConfig = G ∧ a.joinGate = J ∧ s.gate J = none ∧ s'.gate J = some { authority } ∧
        (∃ g, s.group G = some g ∧ g.currentMembers = 0) ∧ s'.group G = s.group G ∧
        s'.record = s.record ∧ (authority ≠ E.systemProgram ∧ authority ≠ E.programId)) ∨
      (act.Is (Call.closes G) ∧ s'.gate J = none) := by
  cases h with
  | outside h => exact .inl ⟨id, congrFun h.gate J⟩
  | @call ctx c _ _ events hexec =>
    have he := execute_effect hI.toLayout hexec
    rcases he.gateStep J with hsame | ⟨a, authority, rfl, rfl, hn, hs⟩ | ⟨a, rfl, rfl, hn⟩
    · cases he with
      | @setJoinAuthority a authority g h =>
        obtain ⟨b', hJ'⟩ := h.address
        refine .inl ⟨fun hG => ?_, hsame⟩
        obtain rfl : a.groupConfig = G := hG
        rw [hJ'] at hJ
        obtain rfl : a.joinGate = J := (Prod.mk.inj (Option.some.inj hJ)).1
        have hnone := h.unused
        obtain ⟨n, -, -, hpost⟩ := h.post
        rw [hpost, hnone] at hsame
        simp at hsame
      | _ => exact .inl ⟨nofun, hsame⟩
    · cases he with
      | setJoinAuthority h =>
        obtain ⟨b', hJ'⟩ := h.address
        obtain rfl : a.groupConfig = G := by simpa using Env.findProgramAddress_inj hJ' hJ
        have hg := h.group
        have h0 := h.empty
        have hv := h.valid
        obtain ⟨n, -, -, hpost⟩ := h.post
        exact .inr (.inl ⟨ctx, a, authority, events, rfl, rfl, rfl, hn, hs, ⟨_, hg, h0⟩,
          congrFun (congrArg Ledger.group hpost) _, congrArg Ledger.record hpost, hv⟩)
    · cases he with
      | closeGroup h =>
        obtain ⟨b', hJ'⟩ := h.gateAddress
        have hG : a.groupConfig = G := by simpa using Env.findProgramAddress_inj hJ' hJ
        exact .inr (.inr ⟨hG, hn⟩)

/-- A member that joins while the gate is set has its authority's approval. -/
theorem Step.approvedJoin (h : Step E s act s') (hI : Inv E s.ledger)
    (hJ : E.findProgramAddress (.join G) = some (J, b)) {j : JoinGate K} (hj : s.gate J = some j)
    {M : K} (hM : act.Is (Call.joins G M)) : ApprovedJoin E G M j.authority ⟨s, act, s'⟩ := by
  cases h with
  | outside => exact hM.elim
  | @call ctx c _ _ events hexec =>
    cases execute_effect hI.toLayout hexec with
    | joinGroup h =>
      obtain ⟨rfl, rfl⟩ := hM
      exact h.approvedJoin hJ hj
    | _ => exact hM.elim

end

/-! ## Runs -/

section
variable {G J : K} {b : UInt8}

/-- The gate `j` at `J` covers the group at `G`. -/
structure GateCovers (E : Env K) (h : List (StepEntry K)) (s : State K) (G J : K)
    (j : JoinGate K) : Prop where
  /-- Neither the default key nor the program id. -/
  valid : j.authority ≠ E.systemProgram ∧ j.authority ≠ E.programId
  live : (s.group G).isSome
  /-- It was set in the current instance, with the authority it has ever since. -/
  set : ∃ newer e, Latest (Did (Call.gates G)) h newer e ∧ (e.pre.group G).isSome ∧
    (∃ ctx a events, e.act = .call ctx (.setJoinAuthority a j.authority) events ∧
      a.groupConfig = G ∧ a.joinGate = J) ∧
    ∀ x ∈ newer, ¬Did (Call.closes G) x ∧ ¬Did (Call.creates G) x ∧ x.pre.gate J = some j
  /-- Every open record was made by an approved join. -/
  members : ∀ k r, s.record k = some r → r.group = G →
    ∃ newer e, Latest (Did (Call.joins G r.member)) h newer e ∧ e.pre.record k = none ∧
      (∀ x ∈ newer, (x.pre.record k).isSome) ∧ ApprovedJoin E G r.member j.authority e

theorem gate_covers (hr : Reached E h s) (hJ : E.findProgramAddress (.join G) = some (J, b))
    {j : JoinGate K} (hj : s.gate J = some j) : GateCovers E h s G J j := by
  induction hr with
  | start h0 => exact absurd (by rw [State.gate_eq_some.1 hj]; trivial) (h0.program J)
  | @snoc h s s' act hr hst ih =>
    have hI := Reached.inv hr
    have hI' := hst.inv hI
    -- a gate belongs to a live group, so `G` lives after the step
    have hlive : (s'.group G).isSome := by
      obtain ⟨-, G', g, b', hg, hJ'⟩ := hI'.gate hj
      obtain rfl : G' = G := by simpa using Env.findProgramAddress_inj hJ' hJ
      rw [show s'.group G' = some g from hg]
      rfl
    rcases hst.gate hI hJ with ⟨hng, hsame⟩ | ⟨ctx, a, authority, events, rfl, rfl, rfl, -, hset,
      ⟨g, hg, h0⟩, hgrp, hrec, hval⟩ | ⟨-, hnone⟩
    · rw [hsame] at hj
      obtain ⟨hval, hG, ⟨newer, e, hlat, he, hact, hnew⟩, hrecs⟩ := ih hj
      obtain ⟨g, hg⟩ := Option.isSome_iff_exists.1 hG
      obtain ⟨hcr, ⟨hcl, -⟩ | ⟨-, hnone, -⟩⟩ := hst.group hI.toLayout hg
      swap
      · rw [hnone] at hlive
        cases hlive
      refine ⟨hval, hlive, ⟨_ :: newer, e, hlat.cons hng, he, hact, fun x hx => ?_⟩, fun k r hk hrG => ?_⟩
      · rcases List.mem_cons.1 hx with rfl | hx
        · exact ⟨hcl, hcr, hj⟩
        · exact hnew x hx
      · rcases hst.record_back hI.toLayout hk with ⟨r₀, hr₀, hsm⟩ | ⟨hn, hjoin⟩
        · have hrG₀ : r₀.group = G := hsm.group ▸ hrG
          obtain ⟨newer', e', hlat', hn', hnew', happ⟩ := hrecs k r₀ hr₀ hrG₀
          rw [hsm.member]
          refine ⟨_ :: newer', e', hlat'.cons ?_, hn', fun x hx => ?_, happ⟩
          · have hnj := hst.not_joins hI.toLayout hr₀
            rwa [hrG₀] at hnj
          · rcases List.mem_cons.1 hx with rfl | hx
            · rw [hr₀]
              rfl
            · exact hnew' x hx
        · rw [hrG] at hjoin
          exact ⟨[], _, .here hjoin, hn, fun x hx => absurd hx List.not_mem_nil,
            hst.approvedJoin hI hJ hj hjoin⟩
    · obtain rfl : j = { authority } := Option.some.inj (hj.symm.trans hset)
      refine ⟨hval, hlive, ⟨[], _, .here rfl, by rw [hg]; rfl, ⟨ctx, a, events, rfl, rfl, rfl⟩,
        fun x hx => absurd hx List.not_mem_nil⟩, fun k r hk hrG => ?_⟩
      rw [hrec] at hk
      exact absurd hrG (hI.no_records hg h0 hk)
    · rw [hnone] at hj
      cases hj

/-- In an instance whose creator set no gate there is none, whatever came before it. -/
theorem gate_eq_none (hr : Reached E h s) (hJ : E.findProgramAddress (.join G) = some (J, b))
    {newer : List (StepEntry K)} {e : StepEntry K} (hlat : Latest (Did (Call.creates G)) h newer e)
    (hng : ∀ x ∈ newer, ¬Did (Call.gates G) x) : s.gate J = none := by
  obtain ⟨older, rfl⟩ := hlat.split
  obtain ⟨hro, hste⟩ := Run.older hr rfl
  have hIe := Reached.inv hro
  have hcr := hlat.holds
  have hpre : e.pre.gate J = none := by
    cases hj : e.pre.gate J with
    | none => rfl
    | some j =>
      obtain ⟨-, G', g, b', hg, hJ'⟩ := hIe.gate hj
      obtain rfl : G' = G := by simpa using Env.findProgramAddress_inj hJ' hJ
      exact absurd hcr (hste.group hIe.toLayout hg).1
  have step : ∀ {x : StepEntry K}, Step E x.pre x.act x.post → Inv E x.pre.ledger →
      ¬Did (Call.gates G) x → x.pre.gate J = none → x.post.gate J = none := by
    intro x hst hI hn hx
    rcases hst.gate hI hJ with ⟨-, hsame⟩ | ⟨ctx, a, authority, events, hact, hG, -⟩ | ⟨-, hnone⟩
    · rw [hsame, hx]
    · exact absurd (by rw [Did, hact]; exact hG) hn
    · exact hnone
  have hnot : ¬Did (Call.gates G) e := by
    intro hg
    revert hcr hg
    unfold Did
    cases e.act with
    | outside => exact nofun
    | call ctx c ev => cases c <;> exact nofun
  rcases Run.since (Q := fun s => s.gate J = none) hr rfl (step hste hIe hnot hpre) with
    hq | ⟨x, hx, hx₁, hx₂⟩
  · exact hq
  · obtain ⟨hst, h', hr'⟩ := Run.mem hr (List.mem_append_left _ hx)
    exact absurd (step hst (Reached.inv hr') (hng x hx) hx₁) hx₂

/-- A join does not look at a gate address that holds no gate. -/
theorem checkJoinGate_of_vacant {ctx : Ctx K} {authority : Option K} {expected : Option UInt32}
    (h : s.account J = .system) : checkJoinGate E ctx J authority expected s = .ok () := by
  rw [checkJoinGate, if_neg]
  rw [h]
  exact (Env.programId_ne_system (E := E)).symm

/-- The account creations of a join leave the gate address alone. -/
theorem join_inits_gate {ctx : Ctx K} {payer record tally member : K} {s₁ s₂ : State K}
    {t : JoinTally K} {rb tb : UInt8}
    (h₁ : initAccount ctx payer record MEMBER_RECORD_SPACE (.other E.programId) s = .ok s₁)
    (h₂ : initTallyIfNeeded E ctx payer tally s₁ = .ok (t, s₂))
    (hp : E.canSign payer = true)
    (hR : E.findProgramAddress (.member G member) = some (record, rb))
    (hT : E.findProgramAddress (.tally G member) = some (tally, tb))
    (hJ : E.findProgramAddress (.join G) = some (J, b)) : s₂.account J = s.account J := by
  have hR := Env.findProgramAddress_create hR
  have hT' := Env.findProgramAddress_create hT
  have hJ := Env.findProgramAddress_create hJ
  obtain ⟨n₁, n₂, -, -, -, -, hacc, -⟩ :=
    join_inits h₁ h₂ (Env.address_ne hR hT' nofun) hp (Env.findProgramAddress_canSign hT)
  exact hacc J (Env.address_ne hJ hR nofun) (Env.address_ne hJ hT' nofun)

theorem checkExpectedJoins_eq_error {expected : Option UInt32} {joins : UInt32} {err : Error} :
    checkExpectedJoins expected joins = .error err ↔
      (∃ n, expected = some n ∧ joins ≠ n) ∧ .safeNudge .joinCountMismatch = err := by
  cases expected with
  | none => simp [checkExpectedJoins]
  | some n => simp [checkExpectedJoins]

/-- The errors of the gate check. -/
def gateErrors : List SafeNudgeError :=
  [.joinNotApproved, .durableNonceNotAllowed, .expectedJoinsRequired]

/-- Joins of the group at `G` need no approval: none fails for want of it, and the authority slot
of a join that succeeds may be left empty. -/
structure Ungated (E : Env K) (s : State K) (G : K) : Prop where
  accepts : ∀ ctx a terms expected, a.groupConfig = G → ∀ err ∈ gateErrors,
    joinGroup E ctx a terms expected s ≠ .error (.safeNudge err)
  empty : ∀ ctx a terms expected r, a.groupConfig = G → joinGroup E ctx a terms expected s = .ok r →
    joinGroup E ctx { a with joinAuthority := E.programId } terms expected s = .ok r

theorem ungated_of_no_gate (hvac : ∀ {J : K} {b : UInt8},
    E.findProgramAddress (.join G) = some (J, b) → s.account J = .system) : Ungated E s G := by
  constructor
  · rintro ctx a terms expected rfl err herr h
    simp only [gateErrors, List.mem_cons, List.not_mem_nil, or_false] at herr
    -- every other check fails with another error, so `h` is down to the gate check and the count
    rcases herr with rfl | rfl | rfl <;>
    · simp only [joinGroup, bind_pure_comp, bind_eq_error, requireSigner_ne, requireSigner_eq_ok,
        loadGroupConfig_ne, loadTokenAccount_ne, loadMint_ne, loadTokenProgram_ne, optionalSigner_ne,
        requireCanonical_ne, requireCanonical_eq_ok, initAccount_ne, initTallyIfNeeded_ne,
        requireSeeds_ne, require_eq_error, Error.safeNudge.injEq, reduceCtorEq, and_false,
        orThrow_eq_error, map_eq_error, transferChecked_ne, checkExpectedJoins_eq_error, or_self,
        require_eq_ok, requireSeeds_eq_ok, exists_const, false_or, or_false] at h
      obtain ⟨-, hpay, _, -, _, -, _, -, _, -, _, -, auth, -, h⟩ := h
      obtain ⟨rb, hR, s₁, hs₁, tb, hT, init, hs₂, -, -, -, -, -, -, -, -, jb, hJ, -, -, h⟩ := h
      rw [checkJoinGate_of_vacant ((join_inits_gate hs₁ hs₂ hpay.2 hR hT hJ).trans (hvac hJ))] at h
      cases h
  · rintro ctx a terms expected r rfl h
    simp only [joinGroup, bind_eq_ok, require_eq_ok, requireSigner_eq_ok, requireCanonical_eq_ok,
      requireSeeds_eq_ok, exists_const] at h ⊢
    obtain ⟨hmem, hpay, g, hg, mta, hmta, v, hv, m, hm, p, hp, auth, -, h⟩ := h
    obtain ⟨rb, hR, s₁, hs₁, tb, hT, init, hs₂, hseed, hst, hroom, hmo, hata, hmp, hV, h⟩ := h
    obtain ⟨hmint, jb, hJ, hsys, hterms, -, -, rest⟩ := h
    have hgate := join_inits_gate hs₁ hs₂ hpay.2 hR hT hJ
    exact ⟨hmem, hpay, g, hg, mta, hmta, v, hv, m, hm, p, hp, none, by simp [optionalSigner], rb, hR,
      s₁, hs₁, tb, hT, init, hs₂, hseed, hst, hroom, hmo, hata, hmp, hV, hmint, jb, hJ, hsys, hterms,
      (), checkJoinGate_of_vacant (hgate.trans (hvac hJ)), rest⟩

/-- The gate law: a gate covers every member of its group, and an instance whose creator set none
takes joins without any authority. -/
theorem gate_law (hr : Reached E h s) (G : K) :
    (∀ J b j, E.findProgramAddress (.join G) = some (J, b) → s.gate J = some j →
      GateCovers E h s G J j) ∧
    ∀ newer e, Latest (Did (Call.creates G)) h newer e → (∀ x ∈ newer, ¬Did (Call.gates G) x) →
      Ungated E s G := by
  refine ⟨fun J b j hJ hj => gate_covers hr hJ hj, fun newer e hlat hng => ungated_of_no_gate ?_⟩
  intro J b hJ
  exact (Reached.inv hr).toLayout.gate_vacant hJ (gate_eq_none hr hJ hlat hng)

/-- A gated group with a member that wallet 7 let in, and a group that was never gated. -/
theorem gate_law_joined :
    (∃ h s, Reached symbolic h s ∧ (s.record (Demo.record 1)).isSome ∧
      GateCovers symbolic h s Demo.G Demo.J { authority := .wallet 7 }) ∧
    ∃ h s, Reached symbolic h s ∧ (s.group Demo.G).isSome ∧ Ungated symbolic s Demo.G := by
  constructor
  · obtain ⟨h, s, hr, hs⟩ := replay_exists
      [(Demo.tx [0] 0, Demo.create), (Demo.tx [0] 0, Demo.setGate 7),
        (Demo.tx [1, 7] 0, Demo.joinFrom 1 1 (.wallet 7) (some 0))]
      (world_genesis 10000 100) (fun _ s => (s.record (Demo.record 1)).isSome &&
        s.gate Demo.J == some { authority := .wallet 7 }) (by decide +kernel)
    rw [Bool.and_eq_true, beq_iff_eq] at hs
    exact ⟨h, s, hr, hs.1, (gate_law hr Demo.G).1 _ 255 _ rfl hs.2⟩
  · obtain ⟨h, s, hr, hs⟩ := replay_exists [(Demo.tx [0] 0, Demo.create)] (world_genesis 10000 100)
      (fun h s => (s.group Demo.G).isSome &&
        h.all fun e => decide (Did (Call.creates Demo.G) e)) (by decide +kernel)
    rw [Bool.and_eq_true] at hs
    obtain ⟨hg, hall⟩ := hs
    cases hr with
    | start h0 =>
      obtain ⟨g, hg⟩ := Option.isSome_iff_exists.1 hg
      exact absurd (by rw [State.group_eq_some.1 hg]; trivial) (h0.program Demo.G)
    | @snoc h₀ s₀ _ a hr₀ hst =>
      have hc : Did (Call.creates Demo.G) ⟨s₀, a, s⟩ := by
        simp only [List.all_cons, Bool.and_eq_true, decide_eq_true_eq] at hall
        exact hall.1
      exact ⟨_, s, .snoc hr₀ hst, hg, (gate_law (.snoc hr₀ hst) Demo.G).2 [] _ (.here hc)
        fun x hx => absurd hx List.not_mem_nil⟩

end

end SafeNudge
