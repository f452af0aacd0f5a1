import SafeNudge.Invariant.Rent
import SafeNudge.Model.Symbolic

/-!
# Rent returns to the wallet that paid it

`CallRent` says where one instruction takes lamports; it is read off `RentStep`. Over a run, what a
wallet paid for the accounts of some groups and what came into these accounts from outside is what
it got back and what they still hold (`rent_returns`).
-/

namespace SafeNudge

open Lib Function

variable {K : Type} {E : Env K}

/-! ## One instruction -/

/-- Where an instruction takes lamports. -/
structure CallRent (E : Env K) (ctx : Ctx K) (c : Call K) (s s' : State K) : Prop where
  group : ∀ {k g}, s.group k = some g → s'.lamports k < s.lamports k →
    ∀ x, s.lamports x < s'.lamports x → x = g.rentPayer
  gate : ∀ {k G g b}, (s.gate k).isSome → E.findProgramAddress (.join G) = some (k, b) →
    s.group G = some g → s'.lamports k < s.lamports k →
    ∀ x, s.lamports x < s'.lamports x → x = g.rentPayer
  record : ∀ {k r}, s.record k = some r → s'.lamports k < s.lamports k →
    ∀ x, s.lamports x < s'.lamports x → x = r.rentPayer
  tally : ∀ {k t}, s.tally k = some t → s'.lamports k < s.lamports k →
    ∀ x, s.lamports x < s'.lamports x → x = t.rentPayer
  vault : ∀ {k G b}, (s.token k).isSome → E.createProgramAddress (.vault G) b = some k →
    s'.lamports k < s.lamports k → ∀ x, s.lamports x < s'.lamports x → x = G
  /-- Nothing gets lost on the way. -/
  total : gain Set.univ s.lamports s'.lamports = 0
  /-- A wallet gains only as the rent payer, from an account recorded to it. -/
  gains : ∀ {x}, E.canSign x = true → s.lamports x < s'.lamports x → c.rentPayer? = some x ∧
    ∃ k, s.ledger.RecordedTo E c.groupKey x k ∧ s'.lamports k < s.lamports k
  pays : ∀ {x}, E.canSign x = true → s'.lamports x < s.lamports x →
    c.rentPayer? = some x ∧ Signed E ctx x
  /-- What is at an unused address of the program was sent there: an instruction leaves it, and
  empties the accounts it closes. -/
  unused : ∀ {seeds b k}, E.createProgramAddress seeds b = some k → s'.account k = .system →
    (s.account k = .system → s'.lamports k = s.lamports k) ∧
      (s.account k ≠ .system → s'.lamports k = 0)

section
variable [DecidableEq K] {ctx : Ctx K} {s s' : State K} {G w w' k x : K} {T : Finset K}

namespace RentStep

theorem notMem (h : RentStep E ctx s.ledger s'.ledger G w T) (hx : E.canSign x = true) :
    x ∉ T := by
  intro hT
  obtain ⟨seeds, b, hk, -⟩ := h.change x hT
  exact Env.ne_of_canSign hk hx rfl

theorem sum (h : RentStep E ctx s.ledger s'.ledger G w T) :
    s'.lamports w + ∑ k ∈ T, s'.lamports k = s.lamports w + ∑ k ∈ T, s.lamports k := by
  have := h.total
  rwa [Finset.sum_insert (h.notMem h.wallet), Finset.sum_insert (h.notMem h.wallet)] at this

/-- The accounts it touches are recorded to its wallet, before and after. -/
theorem owner (h : RentStep E ctx s.ledger s'.ledger G w T) (hk : k ∈ T) {G' : K}
    (hr : s.ledger.RecordedTo E G' w' k ∨ s'.ledger.RecordedTo E G' w' k) : G' = G ∧ w' = w := by
  obtain ⟨seeds, b, hk', hG, hc⟩ := h.change k hk
  have hu : ∀ {t : State K}, t.ledger.payerOf k seeds = some w ∨ t.ledger.vacant k →
      t.ledger.RecordedTo E G' w' k → G' = G ∧ w' = w := by
    intro t ht hr
    obtain ⟨hG', hw'⟩ := (Ledger.recordedTo_iff hk').1 hr
    rcases ht with ht | hv
    · exact ⟨hG'.symm.trans hG, Option.some.inj (hw'.symm.trans ht)⟩
    · rw [State.payerOf_vacant hv] at hw'
      cases hw'
  cases hc with
  | opened _ hv hp => exact hr.elim (hu (.inr hv)) (hu (.inl hp))
  | closed hp hv _ => exact hr.elim (hu (.inl hp)) (hu (.inr hv))
  | kept hp hp' => exact hr.elim (hu (.inl hp)) (hu (.inl hp'))

theorem recordedTo_iff (h : RentStep E ctx s.ledger s'.ledger G w T) (hk : k ∉ T) {G' : K} :
    s'.ledger.RecordedTo E G' w' k ↔ s.ledger.RecordedTo E G' w' k := by
  constructor
  · rintro ⟨seeds, b, hk', hG, hw⟩
    exact ⟨seeds, b, hk', hG, (h.frame k hk hk').1.symm.trans hw⟩
  · rintro ⟨seeds, b, hk', hG, hw⟩
    exact ⟨seeds, b, hk', hG, (h.frame k hk hk').1.trans hw⟩

theorem mem_of_ne (h : RentStep E ctx s.ledger s'.ledger G w T) (hk : E.canSign k = false)
    (hne : s'.lamports k ≠ s.lamports k) : k ∈ T := by
  by_contra hT
  refine hne (h.lamports k hT ?_)
  rintro rfl
  rw [h.wallet] at hk
  cases hk

/-- What leaves an account that is no vault goes to its wallet. -/
theorem outflow (h : RentStep E ctx s.ledger s'.ledger G w T) {G' : K}
    (hr : s.ledger.RecordedTo E G' w' k) (ht : s.token k = none)
    (hlt : s'.lamports k < s.lamports k) (hx : s.lamports x < s'.lamports x) : x = w' := by
  have hk := h.mem_of_ne hr.canSign hlt.ne
  obtain ⟨-, rfl⟩ := h.owner hk (.inl hr)
  by_contra hne
  have hxT : x ∈ T := by
    by_contra hxT
    exact hx.ne (h.lamports x hxT hne).symm
  cases h.flow with
  | paid _ hf => exact absurd (hf k hk) (Nat.not_le.2 hlt)
  | returned hf => exact absurd (hf x hxT).1 (Nat.not_le.2 hx)
  | @settled V b hV hT htV hle hw =>
    subst hT
    simp only [Finset.mem_insert, Finset.mem_singleton] at hk
    rcases hk with rfl | rfl
    · rw [State.ledger_token, ht] at htV
      cases htV
    · exact absurd hle (Nat.not_le.2 hlt)

/-- What leaves a vault goes to its group. -/
theorem outflow_vault (h : RentStep E ctx s.ledger s'.ledger G w T) {G' : K} {b : UInt8}
    (hk' : E.createProgramAddress (.vault G') b = some k) (ht : (s.token k).isSome)
    (hlt : s'.lamports k < s.lamports k) (hx : s.lamports x < s'.lamports x) : x = G' := by
  have hk := h.mem_of_ne (E.createProgramAddress_canSign hk') hlt.ne
  cases h.flow with
  | paid _ hf => exact absurd (hf k hk) (Nat.not_le.2 hlt)
  | returned hf =>
    have := (hf k hk).2.1
    rw [State.ledger_token] at this
    rw [this] at ht
    cases ht
  | @settled V b' hV hT htV hle hw =>
    subst hT
    simp only [Finset.mem_insert, Finset.mem_singleton] at hk
    rcases hk with rfl | rfl
    · obtain rfl : G' = G := by simpa using (E.createProgramAddress_inj hk' hV).1
      by_contra hne
      have hxV : x ≠ k := by
        rintro rfl
        omega
      have hxT : x ∉ ({k, G'} : Finset K) := by simp [hne, hxV]
      by_cases hxw : x = w
      · subst hxw
        exact hx.ne hw.symm
      · exact hx.ne (h.lamports x hxT hxw).symm
    · exact absurd hle (Nat.not_le.2 hlt)

end RentStep

variable {c : Call K} {events : List (Event K)}

/-- A wallet gains only what the accounts recorded to it lose. -/
theorem RentStep.gains (h : RentStep E ctx s.ledger s'.ledger G w T) (hx : E.canSign x = true)
    (hlt : s.lamports x < s'.lamports x) :
    x = w ∧ ∃ k, s.ledger.RecordedTo E G x k ∧ s'.lamports k < s.lamports k := by
  obtain rfl : x = w := by
    by_contra hne
    exact hlt.ne (h.lamports x (h.notMem hx) hne).symm
  have hsum := h.sum
  cases h.flow with
  | paid _ hf =>
    have := Finset.sum_le_sum hf
    simp only [State.ledger_lamports] at this
    omega
  | returned hf =>
    obtain ⟨k, hk, hklt⟩ : ∃ k ∈ T, s'.lamports k < s.lamports k :=
      Finset.exists_lt_of_sum_lt (by omega)
    refine ⟨rfl, k, ?_, hklt⟩
    obtain ⟨seeds, b, hk', hG, hc⟩ := h.change k hk
    cases hc with
    | opened _ hv _ => exact absurd hv (hf k hk).2.2
    | closed hp _ _ => exact ⟨seeds, b, hk', hG, hp⟩
    | kept hp _ => exact ⟨seeds, b, hk', hG, hp⟩
  | settled _ _ _ _ hw => exact absurd hw hlt.ne'

theorem RentStep.pays (h : RentStep E ctx s.ledger s'.ledger G w T) (hx : E.canSign x = true)
    (hlt : s'.lamports x < s.lamports x) : x = w ∧ Signed E ctx x := by
  obtain rfl : x = w := by
    by_contra hne
    exact hlt.ne (h.lamports x (h.notMem hx) hne)
  have hsum := h.sum
  cases h.flow with
  | paid hs _ => exact ⟨rfl, hs⟩
  | returned hf =>
    have := Finset.sum_le_sum fun k hk => (hf k hk).1
    simp only [State.ledger_lamports] at this
    omega
  | settled _ _ _ _ hw => exact absurd hw hlt.ne

theorem RentStep.unused (h : RentStep E ctx s.ledger s'.ledger G w T) {seeds : Seeds K} {b : UInt8}
    (hk : E.createProgramAddress seeds b = some k) (hv : s'.account k = .system) :
    (s.account k = .system → s'.lamports k = s.lamports k) ∧
      (s.account k ≠ .system → s'.lamports k = 0) := by
  by_cases hT : k ∈ T
  · obtain ⟨seeds', b', hk', -, hc⟩ := h.change k hT
    cases hc with
    | opened _ _ hp => rw [State.payerOf_vacant hv] at hp; cases hp
    | closed hp _ h0 =>
      refine ⟨fun hv' => ?_, fun _ => h0⟩
      rw [State.payerOf_vacant hv'] at hp
      cases hp
    | kept _ hp => rw [State.payerOf_vacant hv] at hp; cases hp
  · have hv' : s.account k = .system := by
      have := (h.frame k hT hk).2
      simp only [State.ledger_vacant, State.vacant, hv, eq_iff_iff, true_iff] at this
      exact this
    exact ⟨fun _ => h.lamports k hT (Env.ne_of_canSign hk h.wallet).symm, fun hne => absurd hv' hne⟩

theorem Effect.callRent (hL : Layout E s.ledger) (h : Effect E ctx s.ledger s'.ledger events c) :
    CallRent E ctx c s s' := by
  obtain ⟨w, T, hT, hw⟩ := h.rentStep hL
  have hpayer : ∀ {x}, x = w → s'.lamports x ≠ s.lamports x → c.rentPayer? = some x := by
    rintro x rfl hne
    exact hw.resolve_right fun h => hne h.1
  refine ⟨fun hg hlt x hx => ?_, fun hj hJ hg hlt x hx => ?_, fun hr hlt x hx => ?_,
    fun {k t} ht hlt x hx => ?_, fun ht hk hlt x hx => hT.outflow_vault hk ht hlt hx, ?_,
    fun hx hlt => ?_, fun hx hlt => ?_, fun hk hv => hT.unused hk hv⟩
  · refine hT.outflow ⟨_, _, Env.findProgramAddress_create (hL.group hg).address, rfl, ?_⟩
      (State.views_of_group hg).2.2.2.1 hlt hx
    simp [Ledger.payerOf, Ledger.payer, hg]
  · refine hT.outflow ⟨_, _, Env.findProgramAddress_create hJ, rfl, ?_⟩ ?_ hlt hx
    · simp [Ledger.payerOf, Ledger.payer, hg, hj]
    · obtain ⟨j, hj⟩ := Option.isSome_iff_exists.1 hj
      exact (State.views_of_gate hj).2.2.2.1
  · refine hT.outflow ⟨_, _, Env.findProgramAddress_create (hL.placed hr).address, rfl, ?_⟩
      (State.views_of_record hr).2.2.2.1 hlt hx
    simp [Ledger.payerOf, hr]
  · obtain ⟨-, -, G, M, b, hk⟩ := hL.tally ht
    refine hT.outflow ⟨_, _, Env.findProgramAddress_create hk, rfl, ?_⟩
      (State.views_of_tally ht).2.2.2.1 hlt hx
    simp [Ledger.payerOf, ht]
  · have : ∀ i ∉ insert w T, s'.lamports i = s.lamports i := by
      intro i hi
      simp only [Finset.mem_insert, not_or] at hi
      exact hT.lamports i hi.2 hi.1
    rw [gain_univ this, Finset.sum_sub_distrib, ← Nat.cast_sum, ← Nat.cast_sum, sub_eq_zero]
    exact congrArg Nat.cast hT.total
  · obtain ⟨hxw, k, hk, hklt⟩ := hT.gains hx hlt
    exact ⟨hpayer hxw hlt.ne', k, hk, hklt⟩
  · obtain ⟨hxw, hsig⟩ := hT.pays hx hlt
    exact ⟨hpayer hxw hlt.ne, hsig⟩

end

/-! ## What a run adds up to -/

/-- The accounts of the groups in `A` that are recorded to `w`. -/
def State.recordedTo (E : Env K) (s : State K) (A : Set K) (w : K) : Set K :=
  {k | ∃ G ∈ A, s.ledger.RecordedTo E G w k}

open Classical in
/-- What `w` paid in a step: an instruction for a group in `A` took it. -/
noncomputable def paidBy (A : Set K) (w : K) (e : StepEntry K) : ℕ :=
  match e.act with
  | .call _ c _ => if c.groupKey ∈ A then e.pre.lamports w - e.post.lamports w else 0
  | .outside => 0

open Classical in
/-- What an instruction for a group in `A` returned to `w`. -/
noncomputable def returnedTo (A : Set K) (w : K) (e : StepEntry K) : ℕ :=
  match e.act with
  | .call _ c _ => if c.groupKey ∈ A then e.post.lamports w - e.pre.lamports w else 0
  | .outside => 0

/-- What came from outside into the accounts recorded to `w`: others sent it there, or it was at
the address when the account was created. -/
noncomputable def sentTo (E : Env K) (A : Set K) (w : K) (e : StepEntry K) : ℕ :=
  match e.act with
  | .call .. => held (e.post.recordedTo E A w \ e.pre.recordedTo E A w) e.pre.lamports
  | .outside => held (e.pre.recordedTo E A w) fun k => e.post.lamports k - e.pre.lamports k

/-- A sum over the steps of a history. -/
def total (f : StepEntry K → ℕ) (h : List (StepEntry K)) : ℕ := (h.map f).sum

section
variable [DecidableEq K] {ctx : Ctx K} {s s' : State K} {G w w' k x : K} {T : Finset K} {A : Set K}
  {c : Call K} {events : List (Event K)}

/-- One instruction keeps the balance of a wallet. -/
theorem RentStep.balance (events : List (Event K))
    (h : RentStep E ctx s.ledger s'.ledger c.groupKey w T) (hx : E.canSign x = true)
    (hfin : (s.recordedTo E A x).Finite) :
    (s'.recordedTo E A x).Finite ∧
      held (s'.recordedTo E A x) s'.lamports + returnedTo A x ⟨s, .call ctx c events, s'⟩ =
        held (s.recordedTo E A x) s.lamports + paidBy A x ⟨s, .call ctx c events, s'⟩ +
          sentTo E A x ⟨s, .call ctx c events, s'⟩ := by
  have hframe : ∀ i ∉ T, (i ∈ s'.recordedTo E A x ↔ i ∈ s.recordedTo E A x) ∧
      (i ∈ s.recordedTo E A x → s'.lamports i = s.lamports i) := by
    intro i hi
    refine ⟨?_, fun hir => ?_⟩
    · simp only [State.recordedTo, Set.mem_ofPred_eq, h.recordedTo_iff hi]
    · obtain ⟨G, -, hr⟩ := hir
      refine h.lamports i hi ?_
      rintro rfl
      have hi := hr.canSign
      rw [h.wallet] at hi
      cases hi
  by_cases hxw : x = w ∧ c.groupKey ∈ A
  · obtain ⟨rfl, hA⟩ := hxw
    have hmem : ∀ i ∈ T, i ∉ s'.recordedTo E A x →
        i ∈ s.recordedTo E A x ∧ s'.lamports i = 0 ∨
          i ∉ s.recordedTo E A x ∧ s'.lamports i = s.lamports i := by
      intro i hi hi'
      obtain ⟨seeds, b, hk, hG, hc⟩ := h.change i hi
      cases hc with
      | opened _ _ hp => exact absurd ⟨_, hA, seeds, b, hk, hG, hp⟩ hi'
      | closed hp _ h0 => exact .inl ⟨⟨_, hA, seeds, b, hk, hG, hp⟩, h0⟩
      | kept _ hp => exact absurd ⟨_, hA, seeds, b, hk, hG, hp⟩ hi'
    obtain ⟨hfin', hsum⟩ := held_change hfin hframe hmem
    refine ⟨hfin', ?_⟩
    have hw := h.sum
    simp only [returnedTo, paidBy, sentTo, if_pos hA]
    omega
  · -- the step is about another wallet, or about a group that does not count
    have hT : ∀ i ∈ T, i ∉ s.recordedTo E A x ∧ i ∉ s'.recordedTo E A x := by
      refine fun i hi => ⟨?_, ?_⟩
      · rintro ⟨G, hG, hr⟩
        obtain ⟨rfl, rfl⟩ := h.owner hi (.inl hr)
        exact hxw ⟨rfl, hG⟩
      · rintro ⟨G, hG, hr⟩
        obtain ⟨rfl, rfl⟩ := h.owner hi (.inr hr)
        exact hxw ⟨rfl, hG⟩
    have hset : s'.recordedTo E A x = s.recordedTo E A x := by
      ext i
      by_cases hi : i ∈ T
      · exact iff_of_false (hT i hi).2 (hT i hi).1
      · exact (hframe i hi).1
    have hl : ∀ i ∈ s.recordedTo E A x, s'.lamports i = s.lamports i :=
      fun i hi => (hframe i fun hiT => (hT i hiT).1 hi).2 hi
    rw [hset]
    refine ⟨hfin, ?_⟩
    rw [held_congr hl]
    simp only [returnedTo, paidBy, sentTo, hset, Set.sdiff_self, held_empty]
    by_cases hA : c.groupKey ∈ A
    · have := h.lamports x (h.notMem hx) fun he => hxw ⟨he, hA⟩
      simp only [State.ledger_lamports] at this
      simp [this]
    · simp [if_neg hA]

/-! ### Outside steps -/

/-- Nobody else opens or closes an account of the program. -/
theorem Outside.payerOf (h : Outside E s s') (hL : Layout E s.ledger) {seeds : Seeds K} {b : UInt8}
    (hk : E.createProgramAddress seeds b = some k) :
    s'.ledger.payerOf k seeds = s.ledger.payerOf k seeds := by
  have htok : (s'.ledger.token k).isSome = (s.ledger.token k).isSome := by
    cases ht : s.ledger.token k with
    | some x =>
      obtain ⟨n, -, ht'⟩ := h.token hk ht
      rw [ht']
      rfl
    | none =>
      cases ht' : s'.ledger.token k with
      | none => rfl
      | some x =>
        -- a token account there is the vault of a live group, which had it before the step
        obtain ⟨-, G, g, rfl, rfl, hg, hns⟩ := (h.layout hL).token hk ht'
        rw [h.group] at hg
        obtain ⟨V, hV, hv⟩ := hL.vault hg
        obtain ⟨p, t, htV, -⟩ := hv hns
        obtain rfl : V = k := Option.some.inj ((Env.findProgramAddress_create hV).symm.trans hk)
        rw [ht] at htV
        cases htV
  exact Ledger.payerOf_congr (by rw [Ledger.payer, Ledger.payer, h.group]) (by rw [h.record])
    (by rw [h.gate]) (by rw [h.tally]) htok

theorem Outside.recordedTo (h : Outside E s s') (hL : Layout E s.ledger) :
    s'.ledger.RecordedTo E G w k ↔ s.ledger.RecordedTo E G w k := by
  constructor
  · rintro ⟨seeds, b, hk, hG, hw⟩
    exact ⟨seeds, b, hk, hG, (h.payerOf hL hk).symm.trans hw⟩
  · rintro ⟨seeds, b, hk, hG, hw⟩
    exact ⟨seeds, b, hk, hG, (h.payerOf hL hk).trans hw⟩

theorem Outside.balance (h : Outside E s s') (hL : Layout E s.ledger)
    (hfin : (s.recordedTo E A x).Finite) :
    s'.recordedTo E A x = s.recordedTo E A x ∧
      held (s.recordedTo E A x) s'.lamports =
        held (s.recordedTo E A x) s.lamports + sentTo E A x ⟨s, .outside, s'⟩ := by
  refine ⟨?_, held_add hfin fun i hi => ?_⟩
  · ext i
    simp only [State.recordedTo, Set.mem_ofPred_eq, h.recordedTo hL]
  · obtain ⟨G, -, seeds, b, hk, -⟩ := hi
    exact (h.derived hk).1

/-! ### Runs -/

/-- In every run: what `w` paid and what came from outside is what it got back and what its
accounts still hold. -/
theorem Reached.balance {h : List (StepEntry K)} (hr : Reached E h s) (hx : E.canSign x = true) :
    (s.recordedTo E A x).Finite ∧
      total (paidBy A x) h + total (sentTo E A x) h =
        total (returnedTo A x) h + held (s.recordedTo E A x) s.lamports := by
  induction hr with
  | @start s h0 =>
    have hempty : s.recordedTo E A x = ∅ := by
      ext k
      refine iff_of_false ?_ id
      rintro ⟨G, -, seeds, b, hk, -, hw⟩
      rw [State.payerOf_vacant (h0.derived hk)] at hw
      cases hw
    rw [hempty]
    simp [total]
  | snoc hr hstep ih =>
    have hI := Reached.inv hr
    obtain ⟨hfin, ih⟩ := ih
    simp only [total, List.map_cons, List.sum_cons] at ih ⊢
    cases hstep with
    | @call ctx c _ _ events he =>
      obtain ⟨w, T, hT, -⟩ := (execute_effect hI.toLayout he).rentStep hI.toLayout
      obtain ⟨hfin', hb⟩ := hT.balance events hx hfin
      refine ⟨hfin', ?_⟩
      omega
    | outside ho =>
      obtain ⟨hset, hb⟩ := ho.balance hI.toLayout hfin
      rw [hset]
      refine ⟨hfin, ?_⟩
      simp only [paidBy, returnedTo]
      omega

/-- The step created the account at `k`. -/
def Creates (k : K) (e : StepEntry K) : Prop :=
  e.pre.account k = .system ∧ e.post.account k ≠ .system

omit [DecidableEq K] in
theorem Ledger.RecordedTo.live (h : s.ledger.RecordedTo E G w k) : s.account k ≠ .system := by
  obtain ⟨seeds, b, -, -, hw⟩ := h
  intro hv
  rw [State.payerOf_vacant hv] at hw
  cases hw

/-- The instruction that paid for an account, signed by the wallet it took the lamports from. -/
def Opens (E : Env K) (G w : K) : Action K → Prop
  | .call ctx c _ => c.groupKey = G ∧ c.rentPayer? = some w ∧ Signed E ctx w
  | .outside => False

/-- Whoever an account is recorded to has signed for it as its rent payer. -/
theorem Reached.opened {h : List (StepEntry K)} (hr : Reached E h s)
    (hk : s.ledger.RecordedTo E G w k) :
    ∃ newer e, Latest (Creates k) h newer e ∧ Opens E G w e.act := by
  induction hr with
  | start h0 =>
    have hlive := hk.live
    obtain ⟨seeds, b, hk, -⟩ := hk
    exact absurd (h0.derived hk) hlive
  | @snoc h s s' a hr hstep ih =>
    have hL := (Reached.inv hr).toLayout
    have older : s.ledger.RecordedTo E G w k →
        ∃ newer e, Latest (Creates k) (⟨s, a, s'⟩ :: h) newer e ∧ Opens E G w e.act := by
      intro hk₀
      obtain ⟨newer, e, hlat, ho⟩ := ih hk₀
      exact ⟨_, e, hlat.cons fun hc => hk₀.live hc.1, ho⟩
    cases hstep with
    | outside ho => exact older ((ho.recordedTo hL).1 hk)
    | @call ctx c _ _ events he =>
      obtain ⟨w₀, T, hT, hw⟩ := (execute_effect hL he).rentStep hL
      by_cases hkT : k ∈ T
      · obtain ⟨rfl, rfl⟩ := hT.owner hkT (.inr hk)
        obtain ⟨seeds, b, hk', hG, hc⟩ := hT.change k hkT
        cases hc with
        | opened hs hv _ =>
          have hp := hw.resolve_right fun hno => hno.2 k hkT hv
          exact ⟨[], _, Latest.here ⟨hv, hk.live⟩, rfl, hp, hs⟩
        | closed _ hv _ => exact absurd hv hk.live
        | kept hp _ => exact older ⟨seeds, b, hk', hG, hp⟩
      · exact older ((hT.recordedTo_iff hkT).1 hk)

/-- A group whose accounts are all closed has nothing recorded. -/
theorem Layout.recordedTo_closed (hL : Layout E s.ledger) (hG : s.group G = none)
    (ht : ∀ {M k b}, E.findProgramAddress (.tally G M) = some (k, b) → s.tally k = none) :
    s.recordedTo E {G} w = ∅ := by
  ext k
  refine iff_of_false ?_ id
  rintro ⟨G', rfl, seeds, b, hk, hs, hw⟩
  have hpay : s.ledger.payer G' = none := by
    rw [Ledger.payer, State.ledger_group, hG, Option.map_none]
  cases seeds with
  | group code =>
    obtain rfl : k = G' := hs
    rw [Ledger.payerOf, hpay] at hw
    cases hw
  | vault G₁ =>
    obtain rfl : G₁ = G' := hs
    simp [Ledger.payerOf, hpay] at hw
  | join G₁ =>
    obtain rfl : G₁ = G' := hs
    simp [Ledger.payerOf, hpay] at hw
  | member G₁ =>
    obtain rfl : G₁ = G' := hs
    obtain ⟨r, hr, -⟩ := Option.map_eq_some_iff.1 hw
    obtain ⟨-, -, g, hg⟩ := hL.record hr
    rw [(hL.record_eq hr hk).1, State.ledger_group, hG] at hg
    cases hg
  | tally G₁ M₁ =>
    obtain rfl : G₁ = G' := hs
    obtain ⟨t, ht', -⟩ := Option.map_eq_some_iff.1 hw
    obtain ⟨-, -, G, M, b', hT⟩ := hL.tally ht'
    obtain ⟨rfl, rfl⟩ : G₁ = G ∧ M₁ = M := by
      simpa using (E.createProgramAddress_inj hk (Env.findProgramAddress_create hT)).1
    rw [State.ledger_tally, ht hT] at ht'
    cases ht'

/-! ## `refund_vault_rent` -/

/-- A refund takes what is above the rent-exempt minimum. -/
theorem refundVaultRent_lamports {a : RefundVaultRent K} (hL : Layout E s.ledger)
    (h : execute E ctx (.refundVaultRent a) s = .ok (s', events)) :
    s'.lamports = moveLamports s.lamports a.groupConfig a.rentPayer
        (s.lamports a.groupConfig - ctx.rent.minimumBalance GROUP_CONFIG_SPACE) ∧
      a.groupConfig ≠ a.rentPayer := by
  obtain ⟨g, he⟩ := refundVaultRent_effect h
  have hok := hL.group he.group
  exact ⟨congrArg Ledger.lamports he.post, (he.payer ▸
    Env.ne_of_canSign (Env.findProgramAddress_create hok.address) hok.payer).symm⟩

/-- What a refund with these accounts does now and later. -/
structure RefundLaw (E : Env K) (ctx : Ctx K) (a : RefundVaultRent K) (s s' : State K) : Prop where
  /-- It stops at the rent-exempt minimum, and takes nothing from an account below it. -/
  minimum : min (s.lamports a.groupConfig) (ctx.rent.minimumBalance GROUP_CONFIG_SPACE) ≤
    s'.lamports a.groupConfig
  /-- At the same rate, a later one moves nothing, unless the account has gained since. -/
  again : ∀ {h : List (StepEntry K)} {s₁ s₂ : State K} {ctx₁ : Ctx K} {a₁ : RefundVaultRent K}
    {events₁ : List (Event K)}, Reached E h s₁ → ctx₁.rent = ctx.rent →
    a₁.groupConfig = a.groupConfig → s₁.lamports a.groupConfig ≤ s'.lamports a.groupConfig →
    execute E ctx₁ (.refundVaultRent a₁) s₁ = .ok (s₂, events₁) → s₂.lamports = s₁.lamports

theorem refundLaw {a : RefundVaultRent K} (hL : Layout E s.ledger)
    (h : execute E ctx (.refundVaultRent a) s = .ok (s', events)) : RefundLaw E ctx a s s' := by
  obtain ⟨hl, hne⟩ := refundVaultRent_lamports hL h
  have hG : s'.lamports a.groupConfig = s.lamports a.groupConfig -
      (s.lamports a.groupConfig - ctx.rent.minimumBalance GROUP_CONFIG_SPACE) := by
    rw [hl, moveLamports_src _ _ hne]
  refine ⟨by omega, fun hr hrent ha hle h₁ => ?_⟩
  obtain ⟨hl₁, -⟩ := refundVaultRent_lamports (Reached.inv hr).toLayout h₁
  rw [hl₁, hrent, ha, Nat.sub_eq_zero_of_le (by omega), moveLamports_zero]

/-! ## The law of a run -/

structure RentLaw (E : Env K) (h : List (StepEntry K)) (s : State K) : Prop where
  /-- Every instruction of the run. -/
  call : ∀ {e ctx c events}, e ∈ h → e.act = .call ctx c events → CallRent E ctx c e.pre e.post
  /-- Whoever an account is recorded to signed for it when it was created. -/
  signed : ∀ {G w k}, s.ledger.RecordedTo E G w k →
    ∃ newer e, Latest (Creates k) h newer e ∧ Opens E G w e.act
  /-- A wallet's account with the groups of `A`. -/
  balance : ∀ (A : Set K) {w : K}, E.canSign w = true →
    total (paidBy A w) h + total (sentTo E A w) h =
      total (returnedTo A w) h + held (s.recordedTo E A w) s.lamports
  /-- A group whose accounts are closed owes nothing. -/
  closed : ∀ {G : K}, s.group G = none →
    (∀ {M k b}, E.findProgramAddress (.tally G M) = some (k, b) → s.tally k = none) →
    ∀ {w : K}, E.canSign w = true →
      total (returnedTo {G} w) h = total (paidBy {G} w) h + total (sentTo E {G} w) h
  refund : ∀ {e ctx a events}, e ∈ h → e.act = .call ctx (.refundVaultRent a) events →
    RefundLaw E ctx a e.pre e.post

/-- Rent returns only to the wallet that paid it. -/
theorem rent_returns {h : List (StepEntry K)} (hr : Reached E h s) : RentLaw E h s := by
  have hcall : ∀ {e : StepEntry K} {ctx c events}, e ∈ h → e.act = .call ctx c events →
      Layout E e.pre.ledger ∧ execute E ctx c e.pre = .ok (e.post, events) := by
    intro e ctx c events he hact
    obtain ⟨hstep, h', hr'⟩ := hr.mem he
    rw [hact] at hstep
    cases hstep with
    | call hx => exact ⟨(Reached.inv hr').toLayout, hx⟩
  refine ⟨fun he hact => ?_, fun hk => Reached.opened hr hk,
    fun A _ hw => (Reached.balance hr hw).2, fun {G} hG ht w hw => ?_, fun he hact => ?_⟩
  · obtain ⟨hL, hx⟩ := hcall he hact
    exact (execute_effect hL hx).callRent hL
  · obtain ⟨-, hb⟩ := @Reached.balance _ _ _ _ w {G} _ hr hw
    rw [(Reached.inv hr).toLayout.recordedTo_closed hG ht, held_empty] at hb
    exact hb.symm
  · obtain ⟨hL, hx⟩ := hcall he hact
    exact refundLaw hL hx

end

/-- A group with a gate, a member who left and nobody else, cancelled and closed: the creator and
the member have every lamport back. -/
theorem rent_returns_closed : ∃ h s, Reached symbolic h s ∧ RentLaw symbolic h s ∧
    s.group Demo.G = none ∧ s.tally (Demo.tally 1) = none ∧ s.lamports (.wallet 0) = 10000 ∧
      s.lamports (.wallet 1) = 10000 := by
  obtain ⟨h, s, hr, hs⟩ := replay_exists
    [(Demo.tx [0] 0, Demo.create), (Demo.tx [1] 0, Demo.join 1), (Demo.tx [1] 0, Demo.leave 1),
      (Demo.tx [0] 0, Demo.setGate 7), (Demo.tx [0] 0, Demo.cancel []), (Demo.tx [] 0, Demo.close),
      (Demo.tx [] 0, Demo.closeTally 1)] (world_genesis 10000 100)
    (fun _ s => decide (s.group Demo.G = none ∧ s.tally (Demo.tally 1) = none ∧
      s.lamports (.wallet 0) = 10000 ∧ s.lamports (.wallet 1) = 10000)) (by decide +kernel)
  exact ⟨h, s, hr, rent_returns hr, of_decide_eq_true hs⟩

end SafeNudge
