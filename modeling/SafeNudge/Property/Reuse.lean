import SafeNudge.Invariant.Trace
import SafeNudge.Model.Symbolic
import SafeNudge.Property.Lifecycle
import SafeNudge.Twin.Instructions

/-!
# A group code used again

Once a group is closed, nothing of it is left but join tallies (`Layout.bare`). `Reused` relates a
state in which a code was used before with one that differs in the tallies of its group only, as if
the code had never been used. Instructions go the same way in both (`Reused.step`), whatever
follows (`code_reuse`), but for what a tally that is left over decides.
-/

namespace SafeNudge

open Lib
open Function (update update_self update_of_ne)

variable {K : Type}

/-! ## What is left of a closed group -/

section
variable [DecidableEq K] {E : Env K} {s : State K} {G k : K}

/-- Nothing is at the addresses of the group but tallies. -/
def Bare (E : Env K) (s : State K) (G : K) : Prop :=
  ∀ (seeds : Seeds K) (b : UInt8) (k : K), E.createProgramAddress seeds b = some k →
    seeds.groupAt k = G → s.account k = .system ∨
      ∃ x M b', E.findProgramAddress (.tally G M) = some (k, b') ∧ s.tally k = some x

/-- A group that is not there has left only tallies. -/
theorem Layout.bare (hL : Layout E s.ledger) (hG : s.group G = none) : Bare E s G := by
  intro seeds b k hk hs
  have hnone : ∀ {G' g}, s.ledger.group G' = some g → G' ≠ G := by
    rintro G' g hg rfl
    rw [State.ledger_group, hG] at hg
    cases hg
  rcases hL.derived hk with hv | hg | hr | hj | ht | ht
  · exact .inl hv
  · obtain ⟨g, hg⟩ := Option.isSome_iff_exists.1 hg
    obtain ⟨rfl, -⟩ := E.createProgramAddress_inj hk
      (Env.findProgramAddress_create (hL.group hg).address)
    exact absurd hs (hnone hg)
  · obtain ⟨r, hr⟩ := Option.isSome_iff_exists.1 hr
    obtain ⟨-, -, g, hg⟩ := hL.record hr
    obtain ⟨rfl, -⟩ := E.createProgramAddress_inj hk
      (Env.findProgramAddress_create (hL.placed hr).address)
    exact absurd hs (hnone hg)
  · obtain ⟨j, hj⟩ := Option.isSome_iff_exists.1 hj
    obtain ⟨-, G', g, b', hg, hJ⟩ := hL.gate hj
    obtain ⟨rfl, -⟩ := E.createProgramAddress_inj hk (Env.findProgramAddress_create hJ)
    exact absurd hs (hnone hg)
  · obtain ⟨x, hx⟩ := Option.isSome_iff_exists.1 ht
    obtain ⟨-, -, G', M, b', hT⟩ := hL.tally hx
    obtain ⟨rfl, -⟩ := E.createProgramAddress_inj hk (Env.findProgramAddress_create hT)
    obtain rfl : G' = G := hs
    exact .inr ⟨x, M, b', hT, hx⟩
  · obtain ⟨⟨p, x⟩, hx⟩ := Option.isSome_iff_exists.1 ht
    obtain ⟨-, G', g, rfl, -, hg, -⟩ := hL.token hk hx
    exact absurd hs (hnone hg)

/-- A tally is one of a group that had an address of a group code. -/
theorem Reached.tally_group {h : List (StepEntry K)} (hr : Reached E h s) {x : JoinTally K}
    (hx : s.tally k = some x) : ∃ code bG G M b, E.createProgramAddress (.group code) bG = some G ∧
      E.findProgramAddress (.tally G M) = some (k, b) := by
  induction hr generalizing x with
  | start h0 =>
    exact absurd (by rw [State.tally_eq_some.1 hx]; trivial) (h0.program k)
  | snoc hr hstep ih =>
    have hL := (Reached.inv hr).toLayout
    cases hstep with
    | outside ho =>
      rw [← State.ledger_tally, ho.tally] at hx
      exact ih hx
    | call he =>
      rcases (execute_effect hL he).tallyStep k with
        hsame | ⟨a, terms, expected, g, t, n₁, n₂, -, rfl, hj⟩ | ⟨a, member, t, -, rfl, hc⟩
      · rw [← State.ledger_tally, hsame] at hx
        exact ih hx
      · obtain ⟨b, hT⟩ := hj.tallyAddress
        exact ⟨_, _, _, _, b, Env.findProgramAddress_create (hL.group hj.group).address, hT⟩
      · rw [← State.ledger_tally, hc.post] at hx
        simp at hx

end

/-! ## The code as if never used -/

open Classical in
/-- The tallies left over from the former groups at `G`. -/
noncomputable def State.leftover (E : Env K) (s : State K) (G k : K) : Option (JoinTally K) :=
  if ∃ M b, E.findProgramAddress (.tally G M) = some (k, b) then s.tally k else none

/-- The state without these tallies: the same lamports everywhere, the other accounts as they are. -/
noncomputable def State.forget (E : Env K) (s : State K) (G : K) : State K where
  lamports := s.lamports
  account k := if (s.leftover E G k).isSome then .system else s.account k

/-- The state `s`, where the tallies `left` were left over, and a state `t` without them. A tally
counts `n` more joins in `s` than were left; `t` counts these alone. -/
structure Reused (left : K → Option (JoinTally K)) (s t : State K) : Prop where
  lamports : s.lamports = t.lamports
  account : ∀ k, left k = none → s.account k = t.account k
  tally : ∀ {k x}, left k = some x → ∃ n joins : UInt32,
    s.account k = .joinTally { rentPayer := x.rentPayer, joins } ∧
      joins.toNat = x.joins.toNat + n.toNat ∧
      (n = 0 ∧ t.account k = .system ∨
        n ≠ 0 ∧ ∃ rentPayer, t.account k = .joinTally { rentPayer, joins := n })

/-- The same instruction without the joins that were left over: a join expects that many less. -/
def Call.without (left : K → Option (JoinTally K)) : Call K → Call K
  | .joinGroup a terms expected => .joinGroup a terms (match left a.joinTally with
    | some x => expected.map (· - x.joins)
    | none => expected)
  | c => c

/-- A tally that is left over does not decide the instruction: it is not to be closed, and a join
finds it with the rent-exempt minimum and room for one more join. -/
def Call.Free (left : K → Option (JoinTally K)) (ctx : Ctx K) (s : State K) : Call K → Prop
  | .joinGroup a _ _ => (left a.joinTally).isSome →
      ctx.rent.minimumBalance JOIN_TALLY_SPACE ≤ s.lamports a.joinTally ∧
        ∀ x, s.tally a.joinTally = some x → x.joins.toNat + 1 < 2 ^ 32
  | .closeJoinTally a _ => left a.joinTally = none
  | _ => True

/-- The results of an instruction in the two states: the same events, but for the join count of a
tally that was left over. -/
structure SameResult (left : K → Option (JoinTally K)) (c : Call K)
    (p q : State K × List (Event K)) : Prop where
  states : Reused left p.1 q.1
  events : p.2.map Event.withoutJoins = q.2.map Event.withoutJoins
  joins : ¬c.TallyIn {k | (left k).isSome} → p.2 = q.2

section
variable {E : Env K} {ctx : Ctx K} {left : K → Option (JoinTally K)} {s t : State K} {G k : K}

/-- What is left over is at tally addresses, and counts joins. -/
def IsLeft (E : Env K) (left : K → Option (JoinTally K)) : Prop :=
  ∀ {k x}, left k = some x → x.joins ≠ 0 ∧ ∃ G M b, E.findProgramAddress (.tally G M) = some (k, b)

namespace Reused

theorem twin (h : Reused left s t) : Twin {k | (left k).isSome} s.account t.account s t :=
  ⟨h.lamports, fun k hk => h.account k (Option.not_isSome_iff_eq_none.1 hk), fun _ _ => rfl,
    fun _ _ => rfl⟩

theorem spots (h : Reused left s t) (hl : IsLeft E left) :
    Spots E {k | (left k).isSome} s.account t.account := by
  refine ⟨fun k hk => ?_, fun k hk => ?_, fun k hk => ?_⟩
  all_goals obtain ⟨x, hx⟩ := Option.isSome_iff_exists.1 hk
  · obtain ⟨-, G, M, b, hT⟩ := hl hx
    exact ⟨G, M, b, Env.findProgramAddress_create hT⟩
  · obtain ⟨n, joins, hs, -⟩ := h.tally hx
    rw [hs]
    trivial
  · obtain ⟨n, joins, -, -, ⟨-, ht⟩ | ⟨-, payer, ht⟩⟩ := h.tally hx
    · rw [ht]
      trivial
    · rw [ht]
      trivial

/-- States that differ where these differ, and there in the same way. -/
theorem of_twin (h : Reused left s t) {s' t' : State K}
    (ht : Twin {k | (left k).isSome} s.account t.account s' t') : Reused left s' t' := by
  refine ⟨ht.lamports, fun k hk => ht.account k (by simp [hk]), fun {k x} hx => ?_⟩
  have hk : k ∈ {k | (left k).isSome} := Option.isSome_iff_exists.2 ⟨x, hx⟩
  rw [ht.left k hk, ht.right k hk]
  exact h.tally hx

variable [DecidableEq K]

/-- One more join of a tally that was left over. -/
theorem joined (h : Reused left s t) {s' t' : State K} {x : JoinTally K} {n joins : UInt32}
    {payer : K} (hx : left k = some x) (hsum : joins.toNat = x.joins.toNat + n.toNat)
    (hlt : joins.toNat + 1 < 2 ^ 32)
    (ht : Twin {k | (left k).isSome}
      (update s.account k (.joinTally { rentPayer := x.rentPayer, joins := joins + 1 }))
      (update t.account k (.joinTally { rentPayer := payer, joins := n + 1 })) s' t') :
    Reused left s' t' := by
  refine ⟨ht.lamports, fun k' hk' => ht.account k' (by simp [hk']), fun {k' x'} hx' => ?_⟩
  have hk' : k' ∈ {k | (left k).isSome} := Option.isSome_iff_exists.2 ⟨x', hx'⟩
  rw [ht.left k' hk', ht.right k' hk']
  by_cases hkk : k' = k
  · subst hkk
    obtain rfl := Option.some.inj (hx'.symm.trans hx)
    rw [update_self, update_self]
    have hn : (n + 1).toNat = n.toNat + 1 := by
      rw [UInt32.toNat_add]
      exact Nat.mod_eq_of_lt (by simp; omega)
    have hj : (joins + 1).toNat = joins.toNat + 1 := by
      rw [UInt32.toNat_add]
      exact Nat.mod_eq_of_lt (by simpa using hlt)
    refine ⟨n + 1, joins + 1, rfl, by omega, .inr ⟨fun h0 => ?_, payer, rfl⟩⟩
    rw [h0] at hn
    simp at hn
  · rw [update_of_ne hkk, update_of_ne hkk]
    exact h.tally hx'

/-- A join expects as many joins in the one state as in the other, less what was left over. -/
theorem expected_iff {x n joins : UInt32} (hsum : joins.toNat = x.toNat + n.toNat)
    (expected : Option UInt32) (z : Unit) :
    checkExpectedJoins expected joins = .ok z ↔
      checkExpectedJoins (expected.map (· - x)) n = .ok z := by
  cases expected with
  | none => rfl
  | some e =>
    have hj : n + x = joins := by
      apply UInt32.toNat_inj.1
      rw [UInt32.toNat_add, Nat.add_comm, ← hsum]
      exact Nat.mod_eq_of_lt joins.toNat_lt
    simp only [checkExpectedJoins, Option.map_some, require_eq_ok, UInt32.eq_sub_iff_add_eq, hj]

/-- A join of a member whose tally was left over. -/
theorem joinGroup (h : Reused left s t) (hl : IsLeft E left) (a : JoinGroup K)
    (terms : GroupTerms K) (expected : Option UInt32) {x : JoinTally K}
    (hx : left a.joinTally = some x)
    (hfree : Call.Free left ctx s (.joinGroup a terms expected)) :
    Lockstep (SameResult left (.joinGroup a terms expected))
      (joinGroup E ctx a terms expected s)
      (joinGroup E ctx a terms (expected.map (· - x.joins)) t) := by
  have hT : a.joinTally ∈ {k | (left k).isSome} := Option.isSome_iff_exists.2 ⟨x, hx⟩
  obtain ⟨n, joins, hs, hsum, ht⟩ := h.tally hx
  obtain ⟨hrent, hlt⟩ := hfree hT
  have hlt : joins.toNat + 1 < 2 ^ 32 := hlt _ (State.tally_eq_some.2 hs)
  have h0 : joins ≠ 0 := by
    rintro rfl
    have hx0 : x.joins.toNat = 0 := (Nat.add_eq_zero_iff.1 hsum.symm).1
    exact (hl hx).1 (UInt32.toNat_inj.1 hx0)
  obtain ⟨y, rfl, hty⟩ : ∃ y : JoinTally K, y.joins = n ∧
      (t.account a.joinTally = .system ∧ y = newTally E ∨ t.account a.joinTally = .joinTally y) := by
    rcases ht with ⟨rfl, ht⟩ | ⟨-, payer, ht⟩
    · exact ⟨newTally E, rfl, .inl ⟨ht, rfl⟩⟩
    · exact ⟨_, rfl, .inr ht⟩
  have hy : y.joins.toNat + 1 < 2 ^ 32 := by omega
  refine (h.twin.joinGroup_leftover (h.spots hl) a terms hT hs h0 hty hrent (by simp)
    (expected_iff hsum expected) (checkedAdd32_of hlt) (checkedAdd32_of hy)).mono fun p q hpq => ?_
  obtain ⟨⟨payer, hpq⟩, hev⟩ := hpq
  exact ⟨h.joined hx hsum hlt hpq, hev, fun hc => absurd hT hc⟩

/-- An instruction goes the same way in both states. -/
theorem step (h : Reused left s t) (hl : IsLeft E left) {hist : List (StepEntry K)}
    (hr : Reached E hist s) {c : Call K} (hc : c.Free left ctx s) :
    Lockstep (SameResult left c) (execute E ctx c s) (execute E ctx (c.without left) t) := by
  by_cases hT : c.TallyIn {k | (left k).isSome}
  · cases c with
    | joinGroup a terms expected =>
      obtain ⟨x, hx⟩ := Option.isSome_iff_exists.1 hT
      simp only [Call.without, hx]
      exact h.joinGroup hl a terms expected hx hc
    | closeJoinTally a member =>
      simp only [Call.Free] at hc
      simp [Call.TallyIn, hc] at hT
    | _ => exact hT.elim
  · have hw : c.without left = c := by
      cases c with
      | joinGroup a terms expected =>
        simp only [Call.TallyIn, Set.mem_ofPred_eq, Option.not_isSome_iff_eq_none] at hT
        simp only [Call.without, hT]
      | _ => rfl
    have hS := h.spots hl
    rw [hw]
    refine (h.twin.execute hS c hT fun a member x b hca hx hb => ?_).mono fun p q hpq =>
      ⟨h.of_twin hpq.1, by rw [hpq.2], fun _ => hpq.2⟩
    obtain ⟨code, bG, G', M, b', hG, hT'⟩ := hr.tally_group hx
    cases Env.findProgramAddress_inj hb hT'
    exact hS.notMem hG (by simp)

/-- A join that finds the tally without its rent, or without room, fails. -/
theorem refused (h : Reused left s t) {hist : List (StepEntry K)} (hr : Reached E hist s)
    {a : JoinGroup K} {terms : GroupTerms K} {expected : Option UInt32}
    (hc : ¬Call.Free left ctx s (.joinGroup a terms expected)) (p : State K × List (Event K)) :
    execute E ctx (.joinGroup a terms expected) s ≠ .ok p := by
  intro hp
  refine hc fun hT => ?_
  obtain ⟨x, hx⟩ := Option.isSome_iff_exists.1 hT
  obtain ⟨n, joins, hs, -⟩ := h.tally hx
  obtain ⟨p, events⟩ := p
  cases execute_effect hr.inv.toLayout hp with
  | joinGroup hj =>
    obtain ⟨-, -, -, -, -, joins', -, -, -, -, -, -, -, -, -, -, hjoins, -⟩ := hj.post
    rcases hj.tally with ⟨hv, -⟩ | ⟨ht, hrent, -⟩
    · rw [State.ledger_vacant, State.vacant, hs] at hv
      cases hv
    · refine ⟨hrent, fun y hy => ?_⟩
      cases hy.symm.trans ht
      have hlt := joins'.toNat_lt
      rw [checkedAdd32_eq_some hjoins] at hlt
      exact hlt

/-- A tally that was left over closes: its lamports go to its rent payer in both. -/
theorem closed (h : Reused left s t) {a : CloseJoinTally K} {member : K} {x : JoinTally K}
    {s' : State K} {events : List (Event K)} (hx : left a.joinTally = some x)
    (hc : execute E ctx (.closeJoinTally a member) s = .ok (s', events)) :
    Reused (update left a.joinTally none) s' (t.close a.joinTally x.rentPayer) := by
  obtain ⟨n, joins, hs, -⟩ := h.tally hx
  simp only [execute, closeJoinTally, bind_eq_ok, loadJoinTally_eq_ok, require_eq_ok,
    requireClose_eq_ok, requireCanonical_eq_ok, pure_eq_ok, exists_const, Prod.mk.injEq] at hc
  obtain ⟨y, hy, -, -, -, hp, -, rfl, -⟩ := hc
  cases (State.tally_eq_some.2 hs).symm.trans hy
  rw [hp]
  refine ⟨?_, fun k hk => ?_, fun {k z} hz => ?_⟩
  · rw [State.close, State.close, h.lamports]
    simp only [State.lamports_set, State.lamports_transferLamports, h.lamports]
  · by_cases hk' : k = a.joinTally
    · subst hk'
      simp [State.close_eq]
    · rw [update_of_ne hk'] at hk
      simp only [State.close_eq, State.account_set, update_of_ne hk',
        State.account_transferLamports, h.account k hk]
  · by_cases hk' : k = a.joinTally
    · subst hk'
      rw [update_self] at hz
      cases hz
    · rw [update_of_ne hk'] at hz
      simp only [State.close_eq, State.account_set, update_of_ne hk',
        State.account_transferLamports]
      exact h.tally hz

/-- Outside steps that do the same in both, but for what is left over. -/
theorem outside (h : Reused left s t) (hl : IsLeft E left) {s' t' : State K}
    (hs : Outside E s s') (ht : Outside E t t') (hlam : s'.lamports = t'.lamports)
    (hacc : ∀ k, left k = none → s'.account k = t'.account k) : Reused left s' t' := by
  refine ⟨hlam, hacc, fun {k x} hx => ?_⟩
  obtain ⟨n, joins, hk, hsum, hn⟩ := h.tally hx
  obtain ⟨-, G, M, b, hT⟩ := hl hx
  have hk' : s'.account k = s.account k := (hs.owned k (by rw [hk]; rfl)).1
  refine ⟨n, joins, hk'.trans hk, hsum, hn.imp (fun ⟨h0, hv⟩ => ⟨h0, ?_⟩) fun ⟨h0, y, hy⟩ =>
    ⟨h0, y, (ht.owned k (by rw [hy]; rfl)).1.trans hy⟩⟩
  exact (ht.derived (Env.findProgramAddress_create hT)).2.1 hv

/-- What the outside does in the one state, it can do in the other. -/
theorem outside_same (h : Reused left s t) {s' : State K} (hs : Outside E s s') :
    ∃ t', Outside E t t' ∧ s'.lamports = t'.lamports ∧
      ∀ k, left k = none → s'.account k = t'.account k := by
  obtain ⟨t', hlam, hD, hN⟩ : ∃ t' : State K, t'.lamports = s'.lamports ∧
      (∀ k x, left k = some x → t'.account k = t.account k) ∧
      ∀ k, left k = none → t'.account k = s'.account k :=
    ⟨{ lamports := s'.lamports
       account := fun k => if (left k).isSome then t.account k else s'.account k },
      rfl, fun k x hx => by simp [hx], fun k hx => by simp [hx]⟩
  refine ⟨t', ⟨fun k hk => ?_, fun k hk => ?_, fun {seeds b k} hk => ?_, fun k hk => ?_⟩,
    hlam.symm, fun k hx => (hN k hx).symm⟩
  all_goals rcases hx : left k with _ | x
  · rw [hN k hx, ← h.account k hx, hlam, ← h.lamports]
    exact hs.owned k (by rwa [h.account k hx])
  · obtain ⟨n, joins, hj, -⟩ := h.tally hx
    rw [hD k x hx, hlam, ← h.lamports]
    exact ⟨rfl, (hs.owned k (by rw [hj]; rfl)).2⟩
  · rw [hN k hx] at hk ⊢
    rw [← h.account k hx]
    exact hs.written k hk
  · exact hD k x hx
  · rw [hN k hx, ← h.account k hx, hlam, ← h.lamports]
    exact hs.derived hk
  · rw [hD k x hx, hlam, ← h.lamports]
    exact ⟨(hs.derived hk).1, id, fun p y hy => ⟨y.amount, Nat.le_refl _, hy⟩⟩
  · rw [hN k hx]
    exact hs.mint k (by rwa [h.account k hx])
  · rwa [hD k x hx]

end Reused

end

/-! ## Two runs side by side -/

section
variable [DecidableEq K]

/-- The state after an instruction; a failed one changes nothing. -/
def after (E : Env K) (ctx : Ctx K) (c : Call K) (s : State K) : State K :=
  match execute E ctx c s with
  | .ok (s', _) => s'
  | .error _ => s

/-- A run from `s₀`, and one from the same state with the code of `G` as if never used. A tally that
was left over and closes is gone from both, with the lamports at its address. -/
inductive SideBySide (E : Env K) (G : K) (s₀ : State K) :
    (K → Option (JoinTally K)) → State K → State K → Prop where
  | start : SideBySide E G s₀ (s₀.leftover E G) s₀ (s₀.forget E G)
  | call {left : K → Option (JoinTally K)} {s t : State K} {ctx : Ctx K} {c : Call K} :
      SideBySide E G s₀ left s t → c.Free left ctx s →
      SideBySide E G s₀ left (after E ctx c s) (after E ctx (c.without left) t)
  | closed {left : K → Option (JoinTally K)} {s s' t : State K} {ctx : Ctx K}
      {a : CloseJoinTally K} {member : K} {x : JoinTally K} {events : List (Event K)} :
      SideBySide E G s₀ left s t → left a.joinTally = some x →
      execute E ctx (.closeJoinTally a member) s = .ok (s', events) →
      SideBySide E G s₀ (update left a.joinTally none) s' (t.close a.joinTally x.rentPayer)
  | outside {left : K → Option (JoinTally K)} {s s' t t' : State K} :
      SideBySide E G s₀ left s t → Outside E s s' → Outside E t t' →
      s'.lamports = t'.lamports → (∀ k, left k = none → s'.account k = t'.account k) →
      SideBySide E G s₀ left s' t'

variable {E : Env K} {s₀ s t : State K} {G k : K} {left : K → Option (JoinTally K)}
  {h : List (StepEntry K)}

omit [DecidableEq K] in
theorem leftover_eq_some {x : JoinTally K} : s.leftover E G k = some x ↔
    (∃ M b, E.findProgramAddress (.tally G M) = some (k, b)) ∧ s.tally k = some x := by
  unfold State.leftover
  split <;> simp_all

theorem Layout.isLeft (hL : Layout E s.ledger) (G : K) : IsLeft E (s.leftover E G) := by
  intro k x hx
  obtain ⟨⟨M, b, hT⟩, ht⟩ := leftover_eq_some.1 hx
  exact ⟨(hL.tally ht).2.1, G, M, b, hT⟩

omit [DecidableEq K] in
theorem reused_forget (E : Env K) (s : State K) (G : K) :
    Reused (s.leftover E G) s (s.forget E G) := by
  refine ⟨rfl, fun k hk => by simp [State.forget, hk], fun {k x} hx => ?_⟩
  refine ⟨0, x.joins, State.tally_eq_some.1 (leftover_eq_some.1 hx).2, by simp, .inl ⟨rfl, ?_⟩⟩
  simp [State.forget, hx]

theorem Reached.after (hr : Reached E h s) (ctx : Ctx K) (c : Call K) :
    ∃ h', Reached E h' (after E ctx c s) := by
  unfold SafeNudge.after
  split
  · exact ⟨_, .snoc hr (.call ‹_›)⟩
  · exact ⟨h, hr⟩

/-- The two runs stay related. -/
theorem SideBySide.reused (hr : Reached E h s₀) (hb : SideBySide E G s₀ left s t) :
    (∃ h', Reached E h' s) ∧ IsLeft E left ∧ Reused left s t := by
  induction hb with
  | start => exact ⟨⟨h, hr⟩, hr.inv.toLayout.isLeft G, reused_forget E s₀ G⟩
  | @call left s t ctx c hb hc ih =>
    obtain ⟨⟨h', hr'⟩, hl, hu⟩ := ih
    refine ⟨hr'.after ctx c, hl, ?_⟩
    have hstep := hu.step hl hr' hc
    unfold SafeNudge.after
    generalize execute E ctx c s = x at hstep
    generalize execute E ctx (c.without left) t = y at hstep
    cases hstep with
    | ok hpq => exact hpq.states
    | error => exact hu
  | @closed left s s' t ctx a member x events hb hx hc ih =>
    obtain ⟨⟨h', hr'⟩, hl, hu⟩ := ih
    refine ⟨⟨_, hr'.snoc (.call hc)⟩, fun {k y} hy => ?_, hu.closed hx hc⟩
    by_cases hk : k = a.joinTally
    · subst hk
      simp at hy
    · rw [update_of_ne hk] at hy
      exact hl hy
  | outside hb hs ht hlam hacc ih =>
    obtain ⟨⟨h', hr'⟩, hl, hu⟩ := ih
    exact ⟨⟨_, hr'.snoc (.outside hs)⟩, hl, hu.outside hl hs ht hlam hacc⟩

/-- Whatever the run does, there is one beside it. -/
theorem SideBySide.exists (hr : Reached E h s₀) (G : K) {later : List (StepEntry K)} {s : State K}
    (hrun : Run (· = s₀) (Step E) later s) : ∃ left t, SideBySide E G s₀ left s t := by
  induction hrun with
  | start h0 =>
    subst h0
    exact ⟨_, _, .start⟩
  | @snoc later s s' act hrun hstep ih =>
    obtain ⟨left, t, hb⟩ := ih
    obtain ⟨⟨h', hr'⟩, hl, hu⟩ := hb.reused hr
    cases hstep with
    | outside ho =>
      obtain ⟨t', ht, hlam, hacc⟩ := hu.outside_same ho
      exact ⟨left, t', hb.outside ho ht hlam hacc⟩
    | @call ctx c _ _ events hc =>
      have hafter : after E ctx c s = s' := by rw [after, hc]
      by_cases hfree : c.Free left ctx s
      · exact ⟨left, _, hafter ▸ hb.call hfree⟩
      · cases c with
        | joinGroup => exact absurd hc (hu.refused hr' hfree _)
        | closeJoinTally a member =>
          obtain ⟨x, hx⟩ := Option.ne_none_iff_exists'.1 hfree
          exact ⟨_, _, hb.closed hx hc⟩
        | _ => exact absurd trivial hfree

/-! ## The law of a run -/

/-- What holds where the run is in `s` and the other in `t`. -/
structure Comparison (E : Env K) (left : K → Option (JoinTally K)) (s t : State K) : Prop where
  states : Reused left s t
  /-- The next instruction succeeds in both or fails in both, with the same result. -/
  next : ∀ (ctx : Ctx K) (c : Call K), c.Free left ctx s →
    Lockstep (SameResult left c) (execute E ctx c s) (execute E ctx (c.without left) t)
  /-- A join is not free where the tally that was left over lacks rent or room; it fails. -/
  refused : ∀ (ctx : Ctx K) (a : JoinGroup K) (terms : GroupTerms K) (expected : Option UInt32),
    ¬Call.Free left ctx s (.joinGroup a terms expected) →
      ∀ p, execute E ctx (.joinGroup a terms expected) s ≠ .ok p

structure CodeLaw (E : Env K) (h : List (StepEntry K)) (s : State K) : Prop where
  count : ∀ {G g}, s.group G = some g →
    (s.recordsOf G).Finite ∧ (s.recordsOf G).ncard = g.currentMembers.toNat
  home : ∀ {k r}, s.record k = some r → ∃ g, s.group r.group = some g
  closed : ∀ {e ctx a events}, e ∈ h → e.act = .call ctx (.closeGroup a) events →
    e.post.group a.groupConfig = none ∧ Bare E e.post a.groupConfig
  /-- Without the tallies, nothing is at the addresses of a group that is not there. -/
  unused : ∀ {G}, s.group G = none → ∀ {seeds b k}, E.createProgramAddress seeds b = some k →
    seeds.groupAt k = G → (s.forget E G).account k = .system
  /-- From there, whatever follows. -/
  beside : ∀ {later s'} (G : K), Run (· = s) (Step E) later s' →
    ∃ left t, SideBySide E G s left s' t
  reuse : ∀ {G left s' t}, SideBySide E G s left s' t → Comparison E left s' t

/-- A group code can be used again. -/
theorem code_reuse (hr : Reached E h s) : CodeLaw E h s := by
  have hL := hr.inv.toLayout
  refine ⟨fun hg => hr.inv.card_records hg, fun hk => (hL.record hk).2.2, fun {e ctx a events} he
    hact => ?_, fun {G} hG {seeds b k} hk hs => ?_, fun G hrun => SideBySide.exists hr G hrun,
    fun {G left s' t} hb => ?_⟩
  · obtain ⟨hstep, h', hr'⟩ := hr.mem he
    have hI := Reached.inv hr'
    have hpost := (hstep.inv hI).toLayout
    have hnone : e.post.group a.groupConfig = none := by
      rw [hact] at hstep
      cases hstep with
      | call hx =>
        cases execute_effect hI.toLayout hx with
        | closeGroup hc =>
          obtain ⟨n, -, hL', -⟩ := hc.post
          rw [← State.ledger_group, hL']
          exact update_self ..
    exact ⟨hnone, hpost.bare hnone⟩
  · rcases hL.bare hG seeds b k hk hs with hv | ⟨x, M, b', hT, hx⟩
    · simp [State.forget, hv]
    · simp [State.forget, leftover_eq_some.2 ⟨⟨M, b', hT⟩, hx⟩]
  · obtain ⟨⟨h', hr'⟩, hl, hu⟩ := hb.reused hr
    exact ⟨hu, fun ctx c hc => hu.step hl hr' hc, fun ctx a terms expected hc =>
      hu.refused hr' hc⟩

end

/-! ## A tally that is left over -/

namespace Demo

/-- Member 1 joins a group and leaves it; it is cancelled and closed. -/
def used : List (Ctx SymbolicKey × Call SymbolicKey) :=
  [(tx [0] 0, create), (tx [1] 0, join 1), (tx [1] 0, leave 1), (tx [0] 0, cancel []),
    (tx [] 0, close)]

/-- The code is used again, and member 1 joins, at this rent rate. -/
def again (rent : Rent) : List (Ctx SymbolicKey × Call SymbolicKey) :=
  [({ tx [0] 0 with rent }, create), ({ tx [1] 0 with rent }, join 1)]

/-- The world before the program, with these lamports. -/
def unused (lamports : SymbolicKey → Nat) : State SymbolicKey := { world 10000 100 with lamports }

theorem unused_genesis (lamports : SymbolicKey → Nat) : Genesis symbolic (unused lamports) :=
  ⟨(world_genesis 10000 100).program, (world_genesis 10000 100).derived⟩

/-- The lamports of wallet 1 after the calls. -/
def purse (calls : List (Ctx SymbolicKey × Call SymbolicKey)) (s : State SymbolicKey) :
    Option Nat :=
  (replay symbolic calls [] s).map fun x => x.2.lamports (.wallet 1)

end Demo

/-- The law on a group that is closed and has left a tally. -/
theorem code_reuse_closed : ∃ h s, Reached symbolic h s ∧ CodeLaw symbolic h s ∧
    s.group Demo.G = none ∧ (s.tally (Demo.tally 1)).isSome := by
  obtain ⟨h, s, hr, hs⟩ := replay_exists Demo.used (world_genesis 10000 100)
    (fun _ s => (s.group Demo.G).isNone && (s.tally (Demo.tally 1)).isSome) (by decide +kernel)
  rw [Bool.and_eq_true, Option.isNone_iff_eq_none] at hs
  exact ⟨h, s, hr, code_reuse hr, hs⟩

/-- The rent of a tally that is left over shows, though no join is counted and its rent payer plays
no part. Where the code was never used and every address holds the same lamports, a join at twice
the rent rate succeeds that fails here. Where the address of the tally holds none, the same join
costs its member 172 more, the rent of a tally. -/
theorem code_reuse_rent : ∃ h s, Reached symbolic h s ∧ s.group Demo.G = none ∧
    (Genesis symbolic (Demo.unused s.lamports) ∧
      (Demo.purse ((Demo.again ⟨2, Nat.two_pos⟩).take 1) s).isSome ∧
      Demo.purse (Demo.again ⟨2, Nat.two_pos⟩) s = none ∧
      (Demo.purse (Demo.again ⟨2, Nat.two_pos⟩) (Demo.unused s.lamports)).isSome) ∧
    (Genesis symbolic (Demo.unused (update s.lamports (Demo.tally 1) 0)) ∧
      Demo.purse (Demo.again ⟨1, Nat.one_pos⟩) s = some 9502 ∧
      Demo.purse (Demo.again ⟨1, Nat.one_pos⟩)
        (Demo.unused (update s.lamports (Demo.tally 1) 0)) = some (9502 - 172)) := by
  obtain ⟨h, s, hr, hs⟩ := replay_exists Demo.used (world_genesis 10000 100)
    (fun _ s => decide (s.group Demo.G = none ∧
      ((Demo.purse ((Demo.again ⟨2, Nat.two_pos⟩).take 1) s).isSome ∧
        Demo.purse (Demo.again ⟨2, Nat.two_pos⟩) s = none ∧
        (Demo.purse (Demo.again ⟨2, Nat.two_pos⟩) (Demo.unused s.lamports)).isSome) ∧
      Demo.purse (Demo.again ⟨1, Nat.one_pos⟩) s = some 9502 ∧
      Demo.purse (Demo.again ⟨1, Nat.one_pos⟩)
        (Demo.unused (update s.lamports (Demo.tally 1) 0)) = some (9502 - 172))) (by decide +kernel)
  obtain ⟨hG, hdear, hcheap⟩ := of_decide_eq_true hs
  exact ⟨h, s, hr, hG, ⟨Demo.unused_genesis _, hdear⟩, Demo.unused_genesis _, hcheap⟩

end SafeNudge
