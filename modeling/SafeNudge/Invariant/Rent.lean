import SafeNudge.Invariant.Run
import SafeNudge.Lib.Balance

/-!
# Whose lamports an account holds

`L.payerOf k seeds` is the wallet that gets the lamports of the live account at `k`, and
`L.RecordedTo E G w k` says that this is `w`, for an account of the group `G`. An instruction moves
lamports between one wallet and a few accounts recorded to it, which it opens, closes or changes
(`RentStep`, `Effect.rentStep`).
-/

namespace SafeNudge

open Lib Function

variable {K : Type}

/-- The rent payer of a group. -/
def Ledger.payer (L : Ledger K) (G : K) : Option K := (L.group G).map (·.rentPayer)

/-- The wallet recorded for the account at the address `k` of these seeds, when it is live. A gate
and a vault count for their group's. -/
def Ledger.payerOf (L : Ledger K) (k : K) : Seeds K → Option K
  | .group _ => L.payer k
  | .vault G => if (L.token k).isSome then L.payer G else none
  | .member _ _ => (L.record k).map (·.rentPayer)
  | .join G => if (L.gate k).isSome then L.payer G else none
  | .tally _ _ => (L.tally k).map (·.rentPayer)

/-- The account `k` of the group `G` is live and recorded to `w`. -/
def Ledger.RecordedTo (E : Env K) (L : Ledger K) (G w k : K) : Prop :=
  ∃ seeds b, E.createProgramAddress seeds b = some k ∧ seeds.groupAt k = G ∧
    L.payerOf k seeds = some w

variable {E : Env K} {ctx : Ctx K} {L L' : Ledger K} {G w k : K} {seeds : Seeds K} {b : UInt8}

theorem Ledger.recordedTo_iff (hk : E.createProgramAddress seeds b = some k) :
    L.RecordedTo E G w k ↔ seeds.groupAt k = G ∧ L.payerOf k seeds = some w := by
  constructor
  · rintro ⟨seeds', b', hk', hG, hw⟩
    obtain ⟨rfl, -⟩ := E.createProgramAddress_inj hk hk'
    exact ⟨hG, hw⟩
  · exact fun h => ⟨seeds, b, hk, h⟩

theorem Ledger.RecordedTo.canSign (h : L.RecordedTo E G w k) : E.canSign k = false := by
  obtain ⟨seeds, b, hk, -⟩ := h
  exact E.createProgramAddress_canSign hk

/-- Nothing is recorded for an unused address. -/
theorem State.payerOf_vacant {s : State K} (h : s.ledger.vacant k) :
    s.ledger.payerOf k seeds = none := by
  obtain ⟨hg, hr, hj, ht, hk, -⟩ := views_of_vacant h
  cases seeds <;> simp [Ledger.payerOf, Ledger.payer, hg, hr, hj, ht, hk]

/-- What is recorded at another address than a vault's is no token account. -/
theorem State.payerOf_live {s : State K} (h : s.ledger.payerOf k seeds = some w)
    (hV : ∀ G, seeds ≠ .vault G) : s.ledger.token k = none ∧ ¬s.ledger.vacant k := by
  refine ⟨?_, fun hv => by simp [payerOf_vacant hv] at h⟩
  cases seeds with
  | group =>
    obtain ⟨g, hg, -⟩ := Option.map_eq_some_iff.1 h
    exact (views_of_group hg).2.2.2.1
  | vault G => exact absurd rfl (hV G)
  | member =>
    obtain ⟨r, hr, -⟩ := Option.map_eq_some_iff.1 h
    exact (views_of_record hr).2.2.2.1
  | join G =>
    simp only [Ledger.payerOf, Option.ite_none_right_eq_some] at h
    obtain ⟨j, hj⟩ := Option.isSome_iff_exists.1 h.1
    exact (views_of_gate hj).2.2.2.1
  | tally =>
    obtain ⟨t, ht, -⟩ := Option.map_eq_some_iff.1 h
    exact (views_of_tally ht).2.2.2.1

theorem Ledger.payerOf_congr (hG : L'.payer (seeds.groupAt k) = L.payer (seeds.groupAt k))
    (hr : (L'.record k).map (·.rentPayer) = (L.record k).map (·.rentPayer))
    (hj : (L'.gate k).isSome = (L.gate k).isSome)
    (ht : (L'.tally k).map (·.rentPayer) = (L.tally k).map (·.rentPayer))
    (hk : (L'.token k).isSome = (L.token k).isSome) : L'.payerOf k seeds = L.payerOf k seeds := by
  cases seeds with
  | group => exact hG
  | vault G => simp only [payerOf, hk, show L'.payer G = L.payer G from hG]
  | member => exact hr
  | join G => simp only [payerOf, hj, show L'.payer G = L.payer G from hG]
  | tally => exact ht

/-- The same when one group came or went that has no vault and no gate at `k`. -/
theorem Ledger.payerOf_congr_of_ne (hG : ∀ G' ≠ G, L'.payer G' = L.payer G') (hkG : k ≠ G)
    (hr : L'.record k = L.record k) (hj : L'.gate k = L.gate k) (ht : L'.tally k = L.tally k)
    (hk : L'.token k = L.token k) (hV : seeds = .vault G → L.token k = none)
    (hJ : seeds = .join G → L.gate k = none) : L'.payerOf k seeds = L.payerOf k seeds := by
  by_cases hs : seeds.groupAt k = G
  · cases seeds with
    | group => exact absurd hs hkG
    | vault G' =>
      obtain rfl : G' = G := hs
      simp [payerOf, hk, hV rfl]
    | member => simp only [payerOf, hr]
    | join G' =>
      obtain rfl : G' = G := hs
      simp [payerOf, hj, hJ rfl]
    | tally => simp only [payerOf, ht]
  · exact payerOf_congr (hG _ hs) (by rw [hr]) (by rw [hj]) (by rw [ht]) (by rw [hk])

variable [DecidableEq K]

theorem Ledger.payer_update {g g' : GroupConfig K} (hg : L.group G = some g)
    (h : L'.group = update L.group G (some g')) (hp : g'.rentPayer = g.rentPayer) :
    L'.payer = L.payer := by
  funext G'
  by_cases hG : G' = G
  · subst hG
    simp [payer, h, hg, hp]
  · simp [payer, h, update_of_ne hG]

/-- What moves within a set of accounts stays there. -/
theorem sum_moveLamports (l : K → Nat) {src dst : K} {n : Nat} {T : Finset K} (hs : src ∈ T)
    (hd : dst ∈ T) (hne : src ≠ dst) (hn : n ≤ l src) :
    ∑ k ∈ T, moveLamports l src dst n k = ∑ k ∈ T, l k := by
  have hd' : dst ∈ T.erase src := Finset.mem_erase.2 ⟨hne.symm, hd⟩
  have split : ∀ f : K → Nat,
      ∑ k ∈ T, f k = f src + (f dst + ∑ k ∈ (T.erase src).erase dst, f k) := by
    intro f
    rw [Finset.add_sum_erase _ f hd', Finset.add_sum_erase _ f hs]
  have rest : ∑ k ∈ (T.erase src).erase dst, moveLamports l src dst n k
      = ∑ k ∈ (T.erase src).erase dst, l k := by
    refine Finset.sum_congr rfl fun k hk => ?_
    simp only [Finset.mem_erase] at hk
    exact moveLamports_of_ne _ _ hk.2.1 hk.1
  rw [split, split l, rest, moveLamports_src _ _ hne, moveLamports_dst _ _ hne]
  omega

/-! ## One instruction -/

/-- What an instruction did to an account recorded to `w`. -/
inductive RentChange (E : Env K) (ctx : Ctx K) (L L' : Ledger K) (w k : K) (seeds : Seeds K) :
    Prop where
  | opened : Signed E ctx w → L.vacant k → L'.payerOf k seeds = some w →
      RentChange E ctx L L' w k seeds
  | closed : L.payerOf k seeds = some w → L'.vacant k → L'.lamports k = 0 →
      RentChange E ctx L L' w k seeds
  | kept : L.payerOf k seeds = some w → L'.payerOf k seeds = some w →
      RentChange E ctx L L' w k seeds

/-- Which way the lamports went. -/
inductive RentFlow (E : Env K) (ctx : Ctx K) (L L' : Ledger K) (G w : K) (T : Finset K) : Prop where
  | paid : Signed E ctx w → (∀ k ∈ T, L.lamports k ≤ L'.lamports k) → RentFlow E ctx L L' G w T
  | returned : (∀ k ∈ T, L'.lamports k ≤ L.lamports k ∧ L.token k = none ∧ ¬L.vacant k) →
      RentFlow E ctx L L' G w T
  | settled {V : K} {b : UInt8} : E.createProgramAddress (.vault G) b = some V → T = {V, G} →
      (L.token V).isSome → L.lamports G ≤ L'.lamports G → L'.lamports w = L.lamports w →
      RentFlow E ctx L L' G w T

/-- An instruction for the group `G` moves lamports between the wallet `w` and the accounts of `T`,
which belong to `G` and are recorded to `w`. -/
structure RentStep (E : Env K) (ctx : Ctx K) (L L' : Ledger K) (G w : K) (T : Finset K) :
    Prop where
  wallet : E.canSign w = true
  change : ∀ k ∈ T, ∃ seeds b, E.createProgramAddress seeds b = some k ∧ seeds.groupAt k = G ∧
    RentChange E ctx L L' w k seeds
  frame : ∀ k ∉ T, ∀ {seeds b}, E.createProgramAddress seeds b = some k →
    L'.payerOf k seeds = L.payerOf k seeds ∧ L'.vacant k = L.vacant k
  lamports : ∀ k ∉ T, k ≠ w → L'.lamports k = L.lamports k
  total : ∑ k ∈ insert w T, L'.lamports k = ∑ k ∈ insert w T, L.lamports k
  flow : RentFlow E ctx L L' G w T

section
variable {events : List (Event K)} {T : Finset K} {g : GroupConfig K}

/-- Outside `T` nothing is opened or closed, and the groups keep their rent payers. -/
structure SameRent (L L' : Ledger K) (T : Finset K) : Prop where
  payer : L'.payer = L.payer
  record : ∀ k ∉ T, (L'.record k).map (·.rentPayer) = (L.record k).map (·.rentPayer)
  gate : ∀ k ∉ T, (L'.gate k).isSome = (L.gate k).isSome
  tally : ∀ k ∉ T, (L'.tally k).map (·.rentPayer) = (L.tally k).map (·.rentPayer)
  token : ∀ k ∉ T, (L'.token k).isSome = (L.token k).isSome
  vacant : ∀ k ∉ T, L'.vacant k = L.vacant k

omit [DecidableEq K] in
theorem SameRent.frame (h : SameRent L L' T) (hk : k ∉ T) (seeds : Seeds K) :
    L'.payerOf k seeds = L.payerOf k seeds ∧ L'.vacant k = L.vacant k :=
  ⟨Ledger.payerOf_congr (congrFun h.payer _) (h.record k hk) (h.gate k hk) (h.tally k hk)
    (h.token k hk), h.vacant k hk⟩

theorem isSome_movedTokens {tok : K → Option (TokenProgram × TokenAccount K)} {p : TokenProgram}
    {src dst : K} {t t' : TokenAccount K} (hs : tok src = some (p, t)) (hd : tok dst = some (p, t'))
    (n : UInt64) (k : K) : (movedTokens tok p src dst t t' n k).isSome = (tok k).isSome := by
  simpa using congrArg Option.isSome (holder_movedTokens hs hd n k)

theorem StartCycle.Effect.rentStep {a : StartCycle K} {g' : GroupConfig K} (hL : Layout E L)
    (h : StartCycle.Effect E ctx a L L' events g g') :
    RentStep E ctx L L' a.groupConfig g.rentPayer ∅ := by
  have hg' : g'.rentPayer = g.rentPayer := by rw [h.group']
  have hs : SameRent L L' ∅ := by
    have hp : L'.payer = L.payer := Ledger.payer_update h.group (congrArg Ledger.group h.post) hg'
    rw [h.post] at hp ⊢
    exact ⟨hp, fun _ _ => rfl, fun _ _ => rfl, fun _ _ => rfl, fun _ _ => rfl, fun _ _ => rfl⟩
  have hl : L'.lamports = L.lamports := by rw [h.post]
  exact ⟨(hL.group h.group).payer, by simp, fun k hk seeds _ _ => hs.frame hk seeds, by simp [hl],
    by rw [hl], .returned (by simp)⟩

theorem Deposit.Effect.rentStep {a : Deposit K} {r : MemberRecord K} (hL : Layout E L)
    (h : Deposit.Effect E ctx a L L' events g r) :
    RentStep E ctx L L' a.groupConfig g.rentPayer ∅ := by
  obtain ⟨p, mt, vt, hmt, hvt, -, -, -, -, -, -, hpost⟩ := h.post
  obtain ⟨duration, ce, period, r', -, -, -, -, hmark, hrec, -⟩ := h.period
  obtain ⟨-, made, total, -, -, rfl⟩ := MemberRecord.mark_eq_ok.1 hmark
  have hs : SameRent L L' ∅ := by
    rw [hpost, hrec]
    refine ⟨rfl, fun k _ => ?_, fun _ _ => rfl, fun _ _ => rfl,
      fun k _ => isSome_movedTokens hmt hvt _ k, fun _ _ => rfl⟩
    by_cases hk : k = a.memberRecord
    · subst hk
      simp [h.record]
    · simp only [update_of_ne hk]
  have hl : L'.lamports = L.lamports := by rw [hpost]
  exact ⟨(hL.group h.group).payer, by simp, fun k hk seeds _ _ => hs.frame hk seeds, by simp [hl],
    by rw [hl], .returned (by simp)⟩

/-! ### One account -/

/-- Lamports moved between the wallet and one account, either way. -/
theorem RentStep.single {n : Nat} (hw : E.canSign w = true)
    (hk : E.createProgramAddress seeds b = some k) (hG : seeds.groupAt k = G)
    (hc : RentChange E ctx L L' w k seeds) (hs : SameRent L L' {k})
    (hl : Signed E ctx w ∧ n ≤ L.lamports w ∧ L'.lamports = moveLamports L.lamports w k n ∨
      (L.token k = none ∧ ¬L.vacant k) ∧ n ≤ L.lamports k ∧
        L'.lamports = moveLamports L.lamports k w n) :
    RentStep E ctx L L' G w {k} := by
  have hwk : w ≠ k := Env.ne_of_canSign hk hw
  have hchange : ∀ k' ∈ ({k} : Finset K), ∃ seeds b, E.createProgramAddress seeds b = some k' ∧
      seeds.groupAt k' = G ∧ RentChange E ctx L L' w k' seeds := by
    intro k' hk'
    obtain rfl := Finset.mem_singleton.1 hk'
    exact ⟨seeds, b, hk, hG, hc⟩
  rcases hl with ⟨hsig, hn, hl⟩ | ⟨ht, hn, hl⟩
  · refine ⟨hw, hchange, fun k hk seeds _ _ => hs.frame hk seeds, fun k' hk' hne => ?_, ?_,
      .paid hsig fun k' hk' => ?_⟩
    · rw [hl, moveLamports_of_ne _ _ hne (by simpa using hk')]
    · rw [hl]
      exact sum_moveLamports _ (by simp) (by simp) hwk hn
    · obtain rfl := Finset.mem_singleton.1 hk'
      rw [hl, moveLamports_dst _ _ hwk]
      omega
  · refine ⟨hw, hchange, fun k hk seeds _ _ => hs.frame hk seeds, fun k' hk' hne => ?_, ?_,
      .returned fun k' hk' => ?_⟩
    · rw [hl, moveLamports_of_ne _ _ (by simpa using hk') hne]
    · rw [hl]
      exact sum_moveLamports _ (by simp) (by simp) hwk.symm hn
    · obtain rfl := Finset.mem_singleton.1 hk'
      rw [hl, moveLamports_src _ _ hwk.symm]
      exact ⟨Nat.sub_le .., ht⟩

end

section
variable {s s' : State K} {events : List (Event K)} {g : GroupConfig K}

theorem SetJoinAuthority.Effect.rentStep {a : SetJoinAuthority K} {authority : K}
    (h : SetJoinAuthority.Effect E ctx a authority L L' events g) :
    RentStep E ctx L L' a.groupConfig a.rentPayer {a.joinGate} := by
  obtain ⟨b, hJ⟩ := h.address
  obtain ⟨n, -, hn, rfl⟩ := h.post
  refine .single h.payer.2 (Env.findProgramAddress_create hJ) rfl (.opened h.payer h.fresh ?_)
    ⟨rfl, fun _ _ => rfl, fun k hk => ?_, fun _ _ => rfl, fun _ _ => rfl, fun k hk => ?_⟩
    (.inl ⟨h.payer, hn, rfl⟩)
  · simp [Ledger.payerOf, Ledger.payer, h.group, h.payer_eq]
  · simp only [update_of_ne (Finset.notMem_singleton.1 hk)]
  · simp only [update_of_ne (Finset.notMem_singleton.1 hk)]

theorem RefundVaultRent.Effect.rentStep {a : RefundVaultRent K} (hL : Layout E s.ledger)
    (h : RefundVaultRent.Effect ctx a s.ledger L' events g) :
    RentStep E ctx s.ledger L' a.groupConfig a.rentPayer {a.groupConfig} := by
  have hG := Env.findProgramAddress_create (hL.group h.group).address
  have hp : s.ledger.payerOf a.groupConfig (.group g.groupCode) = some a.rentPayer := by
    simp only [Ledger.payerOf, Ledger.payer, h.group, h.payer, Option.map_some]
  have hs : SameRent s.ledger L' {a.groupConfig} := by
    rw [h.post]
    exact ⟨rfl, fun _ _ => rfl, fun _ _ => rfl, fun _ _ => rfl, fun _ _ => rfl, fun _ _ => rfl⟩
  refine .single (h.payer ▸ (hL.group h.group).payer) hG rfl (.kept hp ?_) hs
    (.inr ⟨State.payerOf_live hp nofun, Nat.sub_le .., by rw [h.post]⟩)
  rw [h.post]
  exact hp

/-- A record is closed. -/
theorem RentStep.closeRecord {r : MemberRecord K} (hL : Layout E s.ledger)
    (hr : s.ledger.record k = some r) (hp : L'.payer = s.ledger.payer)
    (hrec : L'.record = update s.ledger.record k none) (hgate : L'.gate = s.ledger.gate)
    (htal : L'.tally = s.ledger.tally) (htok : ∀ x, (L'.token x).isSome = (s.ledger.token x).isSome)
    (hv : L'.vacant = update s.ledger.vacant k True)
    (hl : L'.lamports = moveLamports s.ledger.lamports k r.rentPayer (s.ledger.lamports k)) :
    RentStep E ctx s.ledger L' r.group r.rentPayer {k} := by
  have hpl := hL.placed hr
  have hk := Env.findProgramAddress_create hpl.address
  have hs : SameRent s.ledger L' {k} := by
    refine ⟨hp, fun x hx => ?_, fun x _ => by rw [hgate], fun x _ => by rw [htal],
      fun x _ => htok x, fun x hx => ?_⟩
    · rw [hrec, update_of_ne (Finset.notMem_singleton.1 hx)]
    · rw [hv, update_of_ne (Finset.notMem_singleton.1 hx)]
  have hpay : s.ledger.payerOf k (.member r.group r.member) = some r.rentPayer := by
    simp [Ledger.payerOf, hr]
  refine .single hpl.payer hk rfl (.closed hpay ?_ ?_) hs
    (.inr ⟨State.payerOf_live hpay nofun, le_rfl, hl⟩)
  · simp [hv]
  · rw [hl, moveLamports_src _ _ (Env.ne_of_canSign hk hpl.payer).symm, Nat.sub_self]

theorem LeaveGroup.Effect.rentStep {a : LeaveGroup K} {r : MemberRecord K}
    (hL : Layout E s.ledger) (h : LeaveGroup.Effect E ctx a s.ledger L' events g r) :
    RentStep E ctx s.ledger L' a.groupConfig a.rentPayer {a.memberRecord} := by
  obtain ⟨p, mt, vt, cm, hmt, hvt, -, -, -, -, -, -, -, hpost, -⟩ := h.post
  rw [← (hL.record_eq h.record h.address).1, h.payer]
  refine .closeRecord hL h.record
    (Ledger.payer_update h.group (congrArg Ledger.group hpost) rfl) ?_ ?_ ?_ ?_ ?_ ?_
  · rw [hpost]
  · rw [hpost]
  · rw [hpost]
  · rw [hpost]
    exact isSome_movedTokens hvt hmt _
  · rw [hpost]
  · rw [hpost, h.payer]

theorem CloseMemberRecord.Effect.rentStep {a : CloseMemberRecord K} {r : MemberRecord K}
    (hL : Layout E s.ledger) (h : CloseMemberRecord.Effect E ctx a s.ledger L' events g r) :
    RentStep E ctx s.ledger L' a.groupConfig a.rentPayer {a.memberRecord} := by
  obtain ⟨cm, -, hpost⟩ := h.post
  rw [← (hL.record_eq h.record h.address).1, h.payer]
  refine .closeRecord hL h.record
    (Ledger.payer_update h.group (congrArg Ledger.group hpost) rfl) ?_ ?_ ?_ (fun x => ?_) ?_ ?_
  · rw [hpost]
  · rw [hpost]
  · rw [hpost]
  · rw [hpost]
  · rw [hpost]
  · rw [hpost, h.payer]

theorem CloseJoinTally.Effect.rentStep {a : CloseJoinTally K} {member : K} {t : JoinTally K}
    (hL : Layout E s.ledger) (h : CloseJoinTally.Effect E a member s.ledger L' events t) :
    RentStep E ctx s.ledger L' a.groupConfig a.rentPayer {a.joinTally} := by
  obtain ⟨b, hT⟩ := h.address
  have hk := Env.findProgramAddress_create hT
  have hw : E.canSign a.rentPayer = true := h.payer ▸ (hL.tally h.tally).1
  have hs : SameRent s.ledger L' {a.joinTally} := by
    rw [h.post]
    refine ⟨rfl, fun _ _ => rfl, fun _ _ => rfl, fun x hx => ?_, fun _ _ => rfl, fun x hx => ?_⟩
    · simp only [update_of_ne (Finset.notMem_singleton.1 hx)]
    · simp only [update_of_ne (Finset.notMem_singleton.1 hx)]
  have hpay : s.ledger.payerOf a.joinTally (.tally a.groupConfig member) = some a.rentPayer := by
    simp [Ledger.payerOf, h.tally, h.payer]
  refine .single hw hk rfl (.closed hpay ?_ ?_) hs
    (.inr ⟨State.payerOf_live hpay nofun, le_rfl, by rw [h.post]⟩)
  · simp [h.post]
  · rw [h.post]
    exact (moveLamports_src _ _ (Env.ne_of_canSign hk hw).symm).trans (Nat.sub_self _)

/-! ### Two accounts -/

/-- Two accounts are paid for. -/
theorem RentStep.openPair {x y : K} {n₁ n₂ : Nat} (hw : Signed E ctx w) (hxy : x ≠ y)
    (hc : ∀ k ∈ ({x, y} : Finset K), ∃ seeds b, E.createProgramAddress seeds b = some k ∧
      seeds.groupAt k = G ∧ RentChange E ctx L L' w k seeds)
    (hf : ∀ k ∉ ({x, y} : Finset K), ∀ {seeds b}, E.createProgramAddress seeds b = some k →
      L'.payerOf k seeds = L.payerOf k seeds ∧ L'.vacant k = L.vacant k)
    (hn : n₁ + n₂ ≤ L.lamports w)
    (hl : L'.lamports = moveLamports (moveLamports L.lamports w x n₁) w y n₂) :
    RentStep E ctx L L' G w {x, y} := by
  have hne : ∀ k ∈ ({x, y} : Finset K), w ≠ k := by
    intro k hk
    obtain ⟨seeds, b, hk, -⟩ := hc k hk
    exact Env.ne_of_canSign hk hw.2
  have hwx := hne x (by simp)
  have hwy := hne y (by simp)
  have hn₂ : n₂ ≤ moveLamports L.lamports w x n₁ w := by
    rw [moveLamports_src _ _ hwx]
    omega
  refine ⟨hw.2, hc, hf, fun k hk hkw => ?_, ?_, .paid hw fun k hk => ?_⟩
  · simp only [Finset.mem_insert, Finset.mem_singleton, not_or] at hk
    rw [hl, moveLamports_of_ne _ _ hkw hk.2, moveLamports_of_ne _ _ hkw hk.1]
  · rw [hl, sum_moveLamports _ (by simp) (by simp) hwy hn₂,
      sum_moveLamports _ (by simp) (by simp) hwx (by omega)]
  · rw [hl]
    simp only [Finset.mem_insert, Finset.mem_singleton] at hk
    rcases hk with rfl | rfl
    · rw [moveLamports_of_ne _ _ hwx.symm hxy, moveLamports_dst _ _ hwx]
      omega
    · rw [moveLamports_dst _ _ hwy, moveLamports_of_ne _ _ hwy.symm hxy.symm]
      omega

theorem CreateGroup.Effect.rentStep {a : CreateGroup K} {groupCode : String}
    {depositAmount : UInt64} {frequency totalPeriods maxMembers : UInt8}
    (hL : Layout E s.ledger)
    (h : CreateGroup.Effect E ctx a groupCode depositAmount frequency totalPeriods maxMembers
      s.ledger L' events) :
    RentStep E ctx s.ledger L' a.groupConfig a.rentPayer {a.groupConfig, a.vault} := by
  obtain ⟨p, m, b, vb, n₁, n₂, -, -, hG, hV, -, -, hn, rfl⟩ := h.post
  have hG := Env.findProgramAddress_create hG
  have hV := Env.findProgramAddress_create hV
  have hGV : a.groupConfig ≠ a.vault := Env.address_ne hG hV nofun
  have hnone := h.unused.1
  refine .openPair h.payer hGV (fun k hk => ?_) (fun k hk seeds b hk' => ?_) hn rfl
  · simp only [Finset.mem_insert, Finset.mem_singleton] at hk
    rcases hk with rfl | rfl
    · refine ⟨_, _, hG, rfl, .opened h.payer h.fresh.1 ?_⟩
      simp [Ledger.payerOf, Ledger.payer, CreateGroup.newGroup]
    · refine ⟨_, _, hV, rfl, .opened h.payer h.fresh.2 ?_⟩
      simp [Ledger.payerOf, Ledger.payer, CreateGroup.newGroup]
  · simp only [Finset.mem_insert, Finset.mem_singleton, not_or] at hk
    refine ⟨?_, by simp only [update_of_ne hk.1, update_of_ne hk.2]⟩
    -- the new group has no other account yet
    refine Ledger.payerOf_congr_of_ne (fun G' hG' => ?_) hk.1 rfl rfl rfl
      (update_of_ne hk.2 ..) (fun hs => ?_) fun hs => ?_
    · simp only [Ledger.payer, update_of_ne hG']
    · subst hs
      by_contra ht
      obtain ⟨⟨p, t⟩, ht⟩ := Option.ne_none_iff_exists'.1 ht
      obtain ⟨-, G', g', hs, -, hg', -⟩ := hL.token hk' ht
      obtain rfl : a.groupConfig = G' := by simpa using hs
      rw [hnone] at hg'
      cases hg'
    · subst hs
      by_contra hj
      obtain ⟨j, hj⟩ := Option.ne_none_iff_exists'.1 hj
      obtain ⟨-, G', g', b', hg', hb'⟩ := hL.gate hj
      obtain rfl : a.groupConfig = G' := by
        simpa using (E.createProgramAddress_inj hk' (Env.findProgramAddress_create hb')).1
      rw [hnone] at hg'
      cases hg'

theorem JoinGroup.Effect.rentStep {a : JoinGroup K} {terms : GroupTerms K}
    {expected : Option UInt32} {t : JoinTally K} {n₁ n₂ : Nat} (hL : Layout E s.ledger)
    (h : JoinGroup.Effect E ctx a terms expected s.ledger L' events g t n₁ n₂) :
    ∃ T, RentStep E ctx s.ledger L' a.groupConfig a.rentPayer T := by
  obtain ⟨tb, hT⟩ := h.tallyAddress
  obtain ⟨p, mt, vt, b, cm, joins, hmt, hvt, -, -, -, -, -, -, hR, -, -, hpost, -⟩ := h.post
  have hT := Env.findProgramAddress_create hT
  have hR := Env.findProgramAddress_create hR
  have hRT : a.memberRecord ≠ a.joinTally := Env.address_ne hR hT nofun
  have hp : L'.payer = s.ledger.payer :=
    Ledger.payer_update h.group (congrArg Ledger.group hpost) rfl
  have hopen : L'.payerOf a.memberRecord (.member a.groupConfig a.member) = some a.rentPayer := by
    rw [hpost]
    simp [Ledger.payerOf, JoinGroup.newRecord]
  have htok : ∀ k, (L'.token k).isSome = (s.ledger.token k).isSome := by
    rw [hpost]
    exact isSome_movedTokens hmt hvt _
  rcases h.tally with ⟨hvac, -, ht, -⟩ | ⟨ht, -, hn₂⟩
  · have hs : SameRent s.ledger L' {a.memberRecord, a.joinTally} := by
      refine ⟨hp, fun k hk => ?_, fun k _ => by rw [hpost], fun k hk => ?_, fun k _ => htok k,
        fun k hk => ?_⟩
      all_goals
        simp only [Finset.mem_insert, Finset.mem_singleton, not_or] at hk
        simp only [hpost, update_of_ne hk.1, update_of_ne hk.2]
    refine ⟨_, .openPair h.payer hRT (fun k hk => ?_) (fun k hk seeds _ _ => hs.frame hk seeds)
      h.rent (by rw [hpost])⟩
    simp only [Finset.mem_insert, Finset.mem_singleton] at hk
    rcases hk with rfl | rfl
    · exact ⟨_, _, hR, rfl, .opened h.payer h.fresh hopen⟩
    · refine ⟨_, _, hT, rfl, .opened h.payer hvac ?_⟩
      rw [hpost]
      simp [Ledger.payerOf, ht, newTally]
  · -- the tally of an earlier join keeps its payer
    have h0 := (hL.tally ht).2.1
    have hs : SameRent s.ledger L' {a.memberRecord} := by
      refine ⟨hp, fun k hk => ?_, fun k _ => by rw [hpost], fun k hk => ?_, fun k _ => htok k,
        fun k hk => ?_⟩
      · simp only [hpost, update_of_ne (Finset.notMem_singleton.1 hk)]
      · by_cases hkT : k = a.joinTally
        · subst hkT
          simp [hpost, ht, h0]
        · simp only [hpost, update_of_ne hkT]
      · by_cases hkT : k = a.joinTally
        · subst hkT
          simp [hpost, hRT.symm, (State.views_of_tally ht).2.2.2.2.2]
        · simp only [hpost, update_of_ne (Finset.notMem_singleton.1 hk), update_of_ne hkT]
    have hn : n₁ ≤ s.ledger.lamports a.rentPayer := (Nat.le_add_right ..).trans h.rent
    refine ⟨_, .single h.payer.2 hR rfl (.opened h.payer h.fresh hopen) hs
      (.inl ⟨h.payer, hn, ?_⟩)⟩
    simp only [hpost, hn₂, moveLamports_zero]

/-- A settlement closes the vault into the group. -/
theorem Settled.rentStep {V : K} {remaining : List K} {g' : GroupConfig K} {p : TokenProgram}
    {t : TokenAccount K} {rs : List (MemberRecord K)} {burned : UInt64} (hL : Layout E s.ledger)
    (h : Settled E s.ledger L' G V remaining g g' p t rs burned) (hg' : g'.rentPayer = g.rentPayer) :
    RentStep E ctx s.ledger L' G g.rentPayer {V, G} ∧
      L'.lamports g.rentPayer = s.ledger.lamports g.rentPayer ∧
      ∀ k ∈ ({V, G} : Finset K), ¬s.ledger.vacant k := by
  have hok := hL.group h.group
  have hG := Env.findProgramAddress_create hok.address
  have hVG : V ≠ G := Env.address_ne h.vaultAddress hG nofun
  have hp : L'.payer = s.ledger.payer :=
    Ledger.payer_update h.group (congrArg Ledger.group h.post) hg'
  have hpG : s.ledger.payer G = some g.rentPayer := by
    rw [Ledger.payer, h.group, Option.map_some]
  have hl : L'.lamports = moveLamports s.ledger.lamports V G (s.ledger.lamports V) :=
    congrArg Ledger.lamports h.post
  have hs : SameRent s.ledger L' {V, G} := by
    refine ⟨hp, fun k _ => by rw [h.post], fun k _ => by rw [h.post], fun k _ => by rw [h.post],
      fun k hk => ?_, fun k hk => ?_⟩
    all_goals
      simp only [Finset.mem_insert, Finset.mem_singleton, not_or] at hk
      simp only [h.post, update_of_ne hk.1]
    simpa using congrArg Option.isSome
      (@holder_creditAll _ _ s.ledger.token (payPlan remaining rs t.amount) k)
  have hwV := Env.ne_of_canSign h.vaultAddress hok.payer
  have hwG := Env.ne_of_canSign hG hok.payer
  have hw : L'.lamports g.rentPayer = s.ledger.lamports g.rentPayer := by
    rw [hl, moveLamports_of_ne _ _ hwV hwG]
  refine ⟨⟨hok.payer, fun k hk => ?_, fun k hk seeds _ _ => hs.frame hk seeds, fun k hk _ => ?_, ?_,
    .settled h.vaultAddress rfl (by simp [h.held]) ?_ hw⟩, hw, fun k hk => ?_⟩
  · simp only [Finset.mem_insert, Finset.mem_singleton] at hk
    rcases hk with rfl | rfl
    · refine ⟨_, _, h.vaultAddress, rfl, .closed ?_ ?_ ?_⟩
      · rw [Ledger.payerOf, h.held, Option.isSome_some, if_pos rfl, hpG]
      · simp [h.post]
      · rw [hl, moveLamports_src _ _ hVG, Nat.sub_self]
    · exact ⟨_, _, hG, rfl, .kept hpG (by rw [Ledger.payerOf, hp, hpG])⟩
  · simp only [Finset.mem_insert, Finset.mem_singleton, not_or] at hk
    rw [hl, moveLamports_of_ne _ _ hk.1 hk.2]
  · rw [hl, sum_moveLamports _ (by simp) (by simp) hVG le_rfl]
  · rw [hl, moveLamports_dst _ _ hVG]
    exact Nat.le_add_right ..
  · simp only [Finset.mem_insert, Finset.mem_singleton] at hk
    rcases hk with rfl | rfl
    · exact of_eq_false (State.views_of_token h.held).2.2.2.2.2
    · exact of_eq_false (State.views_of_group h.group).2.2.2.2.2

/-- Closing a group closes nothing but the group and its gate. -/
theorem CloseGroup.Effect.rent_frame {a : CloseGroup K} (hL : Layout E s.ledger)
    (h : CloseGroup.Effect E a s.ledger L' events g) (hkG : k ≠ a.groupConfig)
    (hkJ : k = a.joinGate → s.ledger.gate k = none) (hk : E.createProgramAddress seeds b = some k) :
    L'.payerOf k seeds = s.ledger.payerOf k seeds ∧ L'.vacant k = s.ledger.vacant k := by
  obtain ⟨b', hJ⟩ := h.gateAddress
  obtain ⟨n, -, rfl, -⟩ := h.post
  constructor
  · refine Ledger.payerOf_congr_of_ne (fun G' hG' => ?_) hkG rfl ?_ rfl rfl (fun hs => ?_)
      fun hs => ?_
    · simp only [Ledger.payer, update_of_ne hG']
    · by_cases hk' : k = a.joinGate
      · rw [hkJ hk', hk']
        exact update_self ..
      · exact update_of_ne hk' ..
    · subst hs
      by_contra ht
      obtain ⟨⟨p, t⟩, ht⟩ := Option.ne_none_iff_exists'.1 ht
      obtain ⟨-, G', g', hs, -, hg', hns⟩ := hL.token hk ht
      obtain rfl : a.groupConfig = G' := by simpa using hs
      obtain rfl := Option.some.inj (h.group.symm.trans hg')
      exact hns h.settled
    · subst hs
      by_contra hj
      obtain ⟨j, hj'⟩ := Option.ne_none_iff_exists'.1 hj
      obtain ⟨-, G', g', b', -, hb'⟩ := hL.gate hj'
      obtain rfl : a.groupConfig = G' := by
        simpa using (E.createProgramAddress_inj hk (Env.findProgramAddress_create hb')).1
      rw [hJ] at hb'
      exact hj (hkJ (Prod.mk.inj (Option.some.inj hb')).1.symm)
  · simp only [update_of_ne hkG]
    by_cases hk' : k = a.joinGate
    · subst hk'
      rw [update_self]
      exact (eq_true (hL.gate_vacant hJ (hkJ rfl))).symm
    · rw [update_of_ne hk']

/-- A group closes, with its gate when it has one. -/
theorem CloseGroup.Effect.rentStep {a : CloseGroup K} (hL : Layout E s.ledger)
    (h : CloseGroup.Effect E a s.ledger L' events g) :
    ∃ T, RentStep E ctx s.ledger L' a.groupConfig a.rentPayer T := by
  obtain ⟨b, hJ⟩ := h.gateAddress
  obtain ⟨n, hn, hpost, -⟩ := h.post
  have hok := hL.group h.group
  have hG := Env.findProgramAddress_create hok.address
  have hJ := Env.findProgramAddress_create hJ
  have hJG : a.joinGate ≠ a.groupConfig := Env.address_ne hJ hG (by simp)
  have hw : E.canSign a.rentPayer = true := h.payer ▸ hok.payer
  have hwJ := Env.ne_of_canSign hJ hw
  have hwG := Env.ne_of_canSign hG hw
  have hpG : s.ledger.payer a.groupConfig = some a.rentPayer := by
    rw [Ledger.payer, h.group, Option.map_some, h.payer]
  have hpG' : s.ledger.payerOf a.groupConfig (.group g.groupCode) = some a.rentPayer := hpG
  have hl : L'.lamports = moveLamports (moveLamports s.ledger.lamports a.joinGate a.rentPayer n)
      a.groupConfig a.rentPayer (s.ledger.lamports a.groupConfig) := by rw [hpost]
  have hlG : L'.lamports a.groupConfig = 0 := by
    rw [hl, moveLamports_src _ _ hwG.symm, moveLamports_of_ne _ _ hJG.symm hwG.symm, Nat.sub_self]
  have hcG : RentChange E ctx s.ledger L' a.rentPayer a.groupConfig (.group g.groupCode) :=
    .closed hpG' (by simp [hpost]) hlG
  rcases hn with ⟨hj, rfl⟩ | ⟨hj, rfl⟩
  · rw [moveLamports_zero] at hl
    refine ⟨{a.groupConfig}, hw, fun k hk => ?_, fun k hk _ _ hk' => h.rent_frame hL
      (Finset.notMem_singleton.1 hk) (fun he => he ▸ hj) hk', fun k hk hkw => ?_, ?_,
      .returned fun k hk => ?_⟩
    · obtain rfl := Finset.mem_singleton.1 hk
      exact ⟨_, _, hG, rfl, hcG⟩
    · rw [hl, moveLamports_of_ne _ _ (Finset.notMem_singleton.1 hk) hkw]
    · rw [hl, sum_moveLamports _ (by simp) (by simp) hwG.symm le_rfl]
    · obtain rfl := Finset.mem_singleton.1 hk
      exact ⟨by simp [hlG], State.payerOf_live hpG' (by simp)⟩
  · have hlJ : L'.lamports a.joinGate = 0 := by
      rw [hl, moveLamports_of_ne _ _ hJG hwJ.symm, moveLamports_src _ _ hwJ.symm, Nat.sub_self]
    have hpJ : s.ledger.payerOf a.joinGate (.join a.groupConfig) = some a.rentPayer := by
      rw [Ledger.payerOf, if_pos hj, hpG]
    have hcJ : RentChange E ctx s.ledger L' a.rentPayer a.joinGate (.join a.groupConfig) :=
      .closed hpJ (by simp [hpost, update_of_ne hJG]) hlJ
    refine ⟨{a.joinGate, a.groupConfig}, hw, fun k hk => ?_, fun k hk _ _ hk' => ?_,
      fun k hk hkw => ?_, ?_, .returned fun k hk => ?_⟩
    · simp only [Finset.mem_insert, Finset.mem_singleton] at hk
      rcases hk with rfl | rfl
      · exact ⟨_, _, hJ, rfl, hcJ⟩
      · exact ⟨_, _, hG, rfl, hcG⟩
    · simp only [Finset.mem_insert, Finset.mem_singleton, not_or] at hk
      exact h.rent_frame hL hk.2 (fun he => absurd he hk.1) hk'
    · simp only [Finset.mem_insert, Finset.mem_singleton, not_or] at hk
      rw [hl, moveLamports_of_ne _ _ hk.2 hkw, moveLamports_of_ne _ _ hk.1 hkw]
    · have hle : s.ledger.lamports a.groupConfig ≤ moveLamports s.ledger.lamports a.joinGate
          a.rentPayer (s.ledger.lamports a.joinGate) a.groupConfig := by
        rw [moveLamports_of_ne _ _ hJG.symm hwG.symm]
      rw [hl, sum_moveLamports _ (by simp) (by simp) hwG.symm hle,
        sum_moveLamports _ (by simp) (by simp) hwJ.symm le_rfl]
    · simp only [Finset.mem_insert, Finset.mem_singleton] at hk
      rcases hk with rfl | rfl
      · exact ⟨by simp [hlJ], State.payerOf_live hpJ (by simp)⟩
      · exact ⟨by simp [hlG], State.payerOf_live hpG' (by simp)⟩

/-! ### Any instruction -/

/-- The `rent_payer` account of an instruction. -/
def Call.rentPayer? : Call K → Option K
  | .createGroup a .. => some a.rentPayer
  | .joinGroup a .. => some a.rentPayer
  | .leaveGroup a => some a.rentPayer
  | .refundVaultRent a => some a.rentPayer
  | .closeMemberRecord a => some a.rentPayer
  | .closeGroup a => some a.rentPayer
  | .closeJoinTally a _ => some a.rentPayer
  | .setJoinAuthority a _ => some a.rentPayer
  | _ => none

/-- Every instruction is a `RentStep`. The wallet is its `rent_payer`, or it neither gains nor loses
and nothing is opened for it. -/
theorem Effect.rentStep {c : Call K} (hL : Layout E s.ledger)
    (h : Effect E ctx s.ledger L' events c) :
    ∃ w T, RentStep E ctx s.ledger L' c.groupKey w T ∧ (c.rentPayer? = some w ∨
      L'.lamports w = s.ledger.lamports w ∧ ∀ k ∈ T, ¬s.ledger.vacant k) := by
  cases h with
  | createGroup h => exact ⟨_, _, h.rentStep hL, .inl rfl⟩
  | joinGroup h =>
    obtain ⟨T, hT⟩ := h.rentStep hL
    exact ⟨_, T, hT, .inl rfl⟩
  | leaveGroup h => exact ⟨_, _, h.rentStep hL, .inl rfl⟩
  | startCycle h => exact ⟨_, _, h.rentStep hL, .inr ⟨by rw [h.post], by simp⟩⟩
  | deposit h =>
    refine ⟨_, _, h.rentStep hL, .inr ⟨?_, by simp⟩⟩
    obtain ⟨p, mt, vt, -, -, -, -, -, -, -, -, hpost⟩ := h.post
    rw [hpost]
  | distribute h =>
    obtain ⟨hT, hw⟩ := h.rentStep hL rfl
    exact ⟨_, _, hT, .inr hw⟩
  | emergencyCancel _ h =>
    obtain ⟨hT, hw⟩ := h.rentStep hL rfl
    exact ⟨_, _, hT, .inr hw⟩
  | refundVaultRent h => exact ⟨_, _, h.rentStep hL, .inl rfl⟩
  | closeMemberRecord h => exact ⟨_, _, h.rentStep hL, .inl rfl⟩
  | closeGroup h =>
    obtain ⟨T, hT⟩ := h.rentStep hL
    exact ⟨_, T, hT, .inl rfl⟩
  | closeJoinTally h => exact ⟨_, _, h.rentStep hL, .inl rfl⟩
  | setJoinAuthority h => exact ⟨_, _, h.rentStep, .inl rfl⟩

end

end SafeNudge
