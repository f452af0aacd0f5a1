import SafeNudge.Invariant.Rent
import SafeNudge.Model.Symbolic

/-!
# Every account stays rent exempt

While the rent rate does not change, no account of the program and no vault ever holds less than
the rent-exempt minimum of its size (`rent_exempt`): creation tops it up, lamports leave it only
when it is closed, and `refund_vault_rent` takes what is above the minimum. `RentMove` is what one
instruction does to one derived address.
-/

namespace SafeNudge

open Lib Function

variable {K : Type} {E : Env K} {ctx : Ctx K} {rent : Rent} {L L' : Ledger K} {k : K}
  {seeds : Seeds K} {b : UInt8}

/-- The length of the account that is created at an address with these seeds. -/
def Seeds.accountSpace : Seeds K → Nat
  | .group _ => GROUP_CONFIG_SPACE
  | .vault _ => TOKEN_ACCOUNT_SPACE
  | .member _ _ => MEMBER_RECORD_SPACE
  | .join _ => JOIN_GATE_SPACE
  | .tally _ _ => JOIN_TALLY_SPACE

/-- Every account at a derived address holds its rent-exempt minimum. -/
def Ledger.RentExempt (E : Env K) (rent : Rent) (L : Ledger K) : Prop :=
  ∀ seeds b k, E.createProgramAddress seeds b = some k → ¬L.vacant k →
    rent.minimumBalance seeds.accountSpace ≤ L.lamports k

/-- What an instruction does to the account at the address `k` of these seeds. -/
inductive RentMove (rent : Rent) (L L' : Ledger K) (seeds : Seeds K) (k : K) : Prop where
  | unused : L'.vacant k → RentMove rent L L' seeds k
  | kept : ¬L.vacant k → L.lamports k ≤ L'.lamports k → RentMove rent L L' seeds k
  | opened : L'.lamports k = L.lamports k +
      topUp (rent.minimumBalance seeds.accountSpace) (L.lamports k) → RentMove rent L L' seeds k
  | refunded {code : String} : seeds = .group code → ¬L.vacant k →
      L'.lamports k = L.lamports k - (L.lamports k - rent.minimumBalance GROUP_CONFIG_SPACE) →
      RentMove rent L L' seeds k

theorem le_topUp {minimum held : Nat} : minimum ≤ held + topUp minimum held := by
  unfold topUp
  split <;> omega

theorem RentMove.exempt (h : RentMove rent L L' seeds k) (hk : E.createProgramAddress seeds b = some k)
    (hL : L.RentExempt E rent) (hv : ¬L'.vacant k) :
    rent.minimumBalance seeds.accountSpace ≤ L'.lamports k := by
  cases h with
  | unused hv' => exact absurd hv' hv
  | kept hv₀ hle => exact Nat.le_trans (hL _ _ _ hk hv₀) hle
  | opened hl =>
    rw [hl]
    exact le_topUp
  | refunded hs hv₀ hl =>
    subst hs
    have := hL _ _ _ hk hv₀
    rw [hl]
    show rent.minimumBalance GROUP_CONFIG_SPACE ≤ _
    change rent.minimumBalance GROUP_CONFIG_SPACE ≤ _ at this
    omega

theorem RentMove.same (hv : L'.vacant k = L.vacant k) (hl : L.lamports k ≤ L'.lamports k) :
    RentMove rent L L' seeds k := by
  by_cases h : L.vacant k
  · exact .unused (hv ▸ h)
  · exact .kept h hl

variable [DecidableEq K] {s s' : State K} {events : List (Event K)} {c : Call K}

omit [DecidableEq K] in
/-- The canonical address of some seeds is the address of no others. -/
theorem Env.seeds_eq {seeds' : Seeds K} {b' : UInt8} (hk : E.createProgramAddress seeds b = some k)
    (h : E.findProgramAddress seeds' = some (k, b')) : seeds = seeds' :=
  (E.createProgramAddress_inj hk (Env.findProgramAddress_create h)).1

section
variable {w x y : K} {n₁ n₂ : Nat}

/-- Lamports of `k` after `w` paid for the accounts `x` and `y`. -/
theorem lamports_openPair (l : K → Nat) (hw : k ≠ w) (hx : x ≠ w) (hxy : x ≠ y) :
    moveLamports (moveLamports l w x n₁) w y n₂ k =
      if k = x then l x + n₁ else if k = y then l y + n₂ else l k := by
  by_cases hkx : k = x
  · subst hkx
    rw [if_pos rfl, moveLamports_of_ne _ _ hw hxy, moveLamports_dst _ _ hw.symm]
  · rw [if_neg hkx]
    by_cases hky : k = y
    · subst hky
      rw [if_pos rfl, moveLamports_dst _ _ hw.symm, moveLamports_of_ne _ _ hw hkx]
    · rw [if_neg hky, moveLamports_of_ne _ _ hw hky, moveLamports_of_ne _ _ hw hkx]

end

/-- An account closes into a wallet. -/
theorem RentMove.close {w x : K} (hk : E.createProgramAddress seeds b = some k)
    (hw : E.canSign w = true) (hv : L'.vacant = update L.vacant x True)
    (hl : L'.lamports = moveLamports L.lamports x w (L.lamports x)) : RentMove rent L L' seeds k := by
  by_cases hx : k = x
  · subst hx
    refine .unused ?_
    rw [hv]
    simp
  · refine .same (by rw [hv, update_of_ne hx]) (le_of_eq ?_)
    rw [hl, moveLamports_of_ne _ _ hx (Env.ne_of_canSign hk hw).symm]

/-- The lamports of a settled vault go to its group. -/
theorem Settled.rentMove {G V : K} {remaining : List K} {g g' : GroupConfig K} {p : TokenProgram}
    {t : TokenAccount K} {rs : List (MemberRecord K)} {burned : UInt64}
    (h : Settled E L L' G V remaining g g' p t rs burned) : RentMove rent L L' seeds k := by
  have hGV : V ≠ G := (Env.address_ne h.address h.vaultAddress (by simp)).symm
  rw [h.post]
  by_cases hkV : k = V
  · exact .unused (by simp [hkV])
  refine .same (by simp [update_of_ne hkV]) ?_
  by_cases hkG : k = G
  · subst hkG
    dsimp only
    rw [moveLamports_dst _ _ hGV]
    exact Nat.le_add_right ..
  · dsimp only
    rw [moveLamports_of_ne _ _ hkV hkG]

theorem CreateGroup.Effect.rentMove {a : CreateGroup K} {groupCode : String} {depositAmount : UInt64}
    {frequency totalPeriods maxMembers : UInt8}
    (h : CreateGroup.Effect E ctx a groupCode depositAmount frequency totalPeriods maxMembers L L'
      events) (hk : E.createProgramAddress seeds b = some k) : RentMove ctx.rent L L' seeds k := by
  obtain ⟨p, m, bG, bV, n₁, n₂, -, -, hG, hV, rfl, rfl, -, rfl⟩ := h.post
  have hw : k ≠ a.rentPayer := (Env.ne_of_canSign hk h.payer.2).symm
  have hGw := (Env.ne_of_canSign (Env.findProgramAddress_create hG) h.payer.2).symm
  have hGV : a.groupConfig ≠ a.vault := Env.address_ne (Env.findProgramAddress_create hG)
    (Env.findProgramAddress_create hV) (by simp)
  by_cases hkG : k = a.groupConfig
  · subst hkG
    obtain rfl := Env.seeds_eq hk hG
    apply RentMove.opened
    dsimp only
    rw [lamports_openPair _ hw hGw hGV, if_pos rfl]
    rfl
  by_cases hkV : k = a.vault
  · subst hkV
    obtain rfl := Env.seeds_eq hk hV
    apply RentMove.opened
    dsimp only
    rw [lamports_openPair _ hw hGw hGV, if_neg hkG, if_pos rfl]
    rfl
  refine .same ?_ (le_of_eq ?_)
  · simp [update_of_ne hkG, update_of_ne hkV]
  · dsimp only
    rw [lamports_openPair _ hw hGw hGV, if_neg hkG, if_neg hkV]

theorem JoinGroup.Effect.rentMove {a : JoinGroup K} {expectedTerms : GroupTerms K}
    {expectedJoins : Option UInt32} {g : GroupConfig K} {t : JoinTally K} {n₁ n₂ : Nat}
    (h : JoinGroup.Effect E ctx a expectedTerms expectedJoins s.ledger L' events g t n₁ n₂)
    (hk : E.createProgramAddress seeds b = some k) : RentMove ctx.rent s.ledger L' seeds k := by
  obtain ⟨p, mt, vt, bR, cm, joins, -, -, -, -, -, -, -, -, hR, -, -, rfl, -⟩ := h.post
  obtain ⟨bT, hT⟩ := h.tallyAddress
  have hw : k ≠ a.rentPayer := (Env.ne_of_canSign hk h.payer.2).symm
  have hRw := (Env.ne_of_canSign (Env.findProgramAddress_create hR) h.payer.2).symm
  have hRT : a.memberRecord ≠ a.joinTally := Env.address_ne (Env.findProgramAddress_create hR)
    (Env.findProgramAddress_create hT) (by simp)
  by_cases hkR : k = a.memberRecord
  · subst hkR
    obtain rfl := Env.seeds_eq hk hR
    apply RentMove.opened
    dsimp only
    rw [lamports_openPair _ hw hRw hRT, if_pos rfl, h.rent₁]
    rfl
  by_cases hkT : k = a.joinTally
  · subst hkT
    obtain rfl := Env.seeds_eq hk hT
    -- a stored tally is not topped up
    rcases h.tally with ⟨-, -, -, rfl⟩ | ⟨ht, -, rfl⟩
    · apply RentMove.opened
      dsimp only
      rw [lamports_openPair _ hw hRw hRT, if_neg hkR, if_pos rfl]
      rfl
    · refine .kept ?_ (le_of_eq ?_)
      · rw [State.ledger_vacant, (State.views_of_tally ht).2.2.2.2.2]
        exact id
      · dsimp only
        rw [lamports_openPair _ hw hRw hRT, if_neg hkR, if_pos rfl]
        rfl
  refine .same ?_ (le_of_eq ?_)
  · simp [update_of_ne hkR, update_of_ne hkT]
  · dsimp only
    rw [lamports_openPair _ hw hRw hRT, if_neg hkR, if_neg hkT]

theorem SetJoinAuthority.Effect.rentMove {a : SetJoinAuthority K} {authority : K}
    {g : GroupConfig K} (h : SetJoinAuthority.Effect E ctx a authority L L' events g)
    (hk : E.createProgramAddress seeds b = some k) : RentMove ctx.rent L L' seeds k := by
  obtain ⟨n, rfl, -, rfl⟩ := h.post
  obtain ⟨bJ, hJ⟩ := h.address
  have hw : k ≠ a.rentPayer := (Env.ne_of_canSign hk h.payer.2).symm
  by_cases hkJ : k = a.joinGate
  · subst hkJ
    obtain rfl := Env.seeds_eq hk hJ
    exact .opened (moveLamports_dst _ _ hw.symm)
  refine .same ?_ (le_of_eq ?_)
  · simp [update_of_ne hkJ]
  · dsimp only
    rw [moveLamports_of_ne _ _ hw hkJ]

theorem RefundVaultRent.Effect.rentMove {a : RefundVaultRent K} {g : GroupConfig K}
    (hL : Layout E s.ledger) (h : RefundVaultRent.Effect ctx a s.ledger L' events g)
    (hk : E.createProgramAddress seeds b = some k) : RentMove ctx.rent s.ledger L' seeds k := by
  rw [h.post]
  have hw : k ≠ a.rentPayer :=
    (Env.ne_of_canSign hk (h.payer ▸ (hL.group h.group).payer)).symm
  by_cases hkG : k = a.groupConfig
  · subst hkG
    obtain rfl := Env.seeds_eq hk (hL.group h.group).address
    refine .refunded rfl ?_ (moveLamports_src _ _ hw)
    rw [State.ledger_vacant, (State.views_of_group h.group).2.2.2.2.2]
    exact id
  refine .same rfl (le_of_eq ?_)
  dsimp only
  rw [moveLamports_of_ne _ _ hkG hw]

theorem CloseGroup.Effect.rentMove {a : CloseGroup K} {g : GroupConfig K} (hL : Layout E s.ledger)
    (h : CloseGroup.Effect E a s.ledger L' events g)
    (hk : E.createProgramAddress seeds b = some k) : RentMove rent s.ledger L' seeds k := by
  obtain ⟨n, -, rfl, -⟩ := h.post
  have hw : k ≠ a.rentPayer :=
    (Env.ne_of_canSign hk (h.payer ▸ (hL.group h.group).payer)).symm
  by_cases hkG : k = a.groupConfig
  · exact .unused (by simp [hkG])
  by_cases hkJ : k = a.joinGate
  · exact .unused (by simp [hkJ, update_apply])
  refine .same ?_ (le_of_eq ?_)
  · simp [update_of_ne hkG, update_of_ne hkJ]
  · dsimp only
    rw [moveLamports_of_ne _ _ hkG hw, moveLamports_of_ne _ _ hkJ hw]

/-- Accounts are opened topped up, and lamports leave an account only when it closes, or down to
the minimum. -/
theorem Effect.rentMove (hL : Layout E s.ledger) (h : Effect E ctx s.ledger L' events c)
    (hk : E.createProgramAddress seeds b = some k) : RentMove ctx.rent s.ledger L' seeds k := by
  cases h with
  | createGroup h => exact h.rentMove hk
  | joinGroup h => exact h.rentMove hk
  | setJoinAuthority h => exact h.rentMove hk
  | startCycle h =>
    rw [h.post]
    exact .same rfl (Nat.le_refl _)
  | deposit h =>
    obtain ⟨p, mt, vt, -, -, -, -, -, -, -, -, hpost⟩ := h.post
    rw [hpost]
    exact .same rfl (Nat.le_refl _)
  | leaveGroup h =>
    obtain ⟨p, mt, vt, cm, -, -, -, -, -, -, -, -, -, rfl, -⟩ := h.post
    exact .close hk (h.payer ▸ (hL.placed h.record).payer) rfl rfl
  | closeMemberRecord h =>
    obtain ⟨cm, -, rfl⟩ := h.post
    exact .close hk (h.payer ▸ (hL.placed h.record).payer) rfl rfl
  | closeJoinTally h =>
    rw [h.post]
    exact .close hk (h.payer ▸ (hL.tally h.tally).1) rfl rfl
  | refundVaultRent h => exact h.rentMove hL hk
  | closeGroup h => exact h.rentMove hL hk
  | distribute h => exact h.rentMove
  | emergencyCancel _ h => exact h.rentMove

/-! ## Runs -/

/-- The calls of a run are made at one rent rate. -/
def FixedRent (rent : Rent) (h : List (StepEntry K)) : Prop :=
  ∀ e ∈ h, ∀ ctx c events, e.act = .call ctx c events → ctx.rent = rent

theorem Outside.rentExempt (h : Outside E s s') (hL : s.ledger.RentExempt E rent) :
    s'.ledger.RentExempt E rent := by
  intro seeds b k hk hv
  obtain ⟨hle, hsys, -⟩ := h.derived hk
  exact Nat.le_trans (hL _ _ _ hk fun hv' => hv (hsys hv')) hle

theorem Reached.rentExempt {h : List (StepEntry K)} (hr : Reached E h s) (hf : FixedRent rent h) :
    s.ledger.RentExempt E rent := by
  induction hr with
  | start h0 => exact fun _ _ _ hk hv => absurd (h0.derived hk) hv
  | @snoc h s act s' hr hst ih =>
    obtain ⟨hact, hf'⟩ := List.forall_mem_cons.1 hf
    cases hst with
    | outside ho => exact ho.rentExempt (ih hf')
    | @call ctx c _ _ events hex =>
      have hL := (Reached.inv hr).toLayout
      obtain rfl := hact ctx c events rfl
      exact fun _ _ _ hk hv =>
        ((execute_effect hL hex).rentMove hL hk).exempt hk (ih hf') hv

/-- At one rent rate every account of the program and every vault always holds its rent-exempt
minimum, and what `refund_vault_rent` leaves in a group is exactly that. -/
theorem rent_exempt {h : List (StepEntry K)} (hr : Reached E h s) (hf : FixedRent rent h) :
    (∀ seeds b k, E.createProgramAddress seeds b = some k → s.account k ≠ .system →
      rent.minimumBalance seeds.accountSpace ≤ s.lamports k) ∧
    ∀ ctx a s' events, ctx.rent = rent → refundVaultRent E ctx a s = .ok (s', events) →
      s'.lamports a.groupConfig = rent.minimumBalance GROUP_CONFIG_SPACE ∧
      s'.lamports a.rentPayer + rent.minimumBalance GROUP_CONFIG_SPACE =
        s.lamports a.rentPayer + s.lamports a.groupConfig := by
  have hE := Reached.rentExempt hr hf
  refine ⟨hE, ?_⟩
  rintro ctx a s' events rfl hex
  have hL := (Reached.inv hr).toLayout
  obtain ⟨g, h⟩ := refundVaultRent_effect hex
  have haddr := Env.findProgramAddress_create (hL.group h.group).address
  have hne : a.groupConfig ≠ a.rentPayer :=
    (Env.ne_of_canSign haddr (h.payer ▸ (hL.group h.group).payer)).symm
  have hmin : ctx.rent.minimumBalance GROUP_CONFIG_SPACE ≤ s.lamports a.groupConfig := by
    refine hE _ _ _ haddr ?_
    rw [State.ledger_vacant, (State.views_of_group h.group).2.2.2.2.2]
    exact id
  have hl := congrArg Ledger.lamports h.post
  have hG : s'.lamports a.groupConfig = _ := (congrFun hl _).trans (moveLamports_src _ _ hne)
  have hw : s'.lamports a.rentPayer = _ := (congrFun hl _).trans (moveLamports_dst _ _ hne)
  simp only [State.ledger_lamports] at hG hw
  omega

/-- After a settlement the rent of the vault goes back to wallet 0. -/
theorem rent_exempt_refunded : ∃ h s, Reached symbolic h s ∧ FixedRent ⟨1, Nat.one_pos⟩ h ∧
    ∃ s' events, refundVaultRent symbolic (Demo.tx [] 1209600) ⟨Demo.G, .wallet 0⟩ s =
        .ok (s', events) ∧ s'.lamports Demo.G = Rent.minimumBalance ⟨1, Nat.one_pos⟩ 244 := by
  have hrun : ((replay symbolic (Demo.started ++ [(Demo.tx [9] 1209600, Demo.distribute [1, 2])]) []
      (world 10000 100)).any fun x => (refundVaultRent symbolic (Demo.tx [] 1209600)
        ⟨Demo.G, .wallet 0⟩ x.2).isOk) = true := by
    decide +kernel
  obtain ⟨⟨h, s⟩, hrun, hs⟩ := (Option.any_eq_true _ _).1 hrun
  obtain ⟨⟨s', events⟩, hok⟩ := isOk_eq_true.1 hs
  have hr := replay_reached (.start (world_genesis 10000 100)) hrun
  have hf : FixedRent ⟨1, Nat.one_pos⟩ h := by
    intro e he ctx c events hact
    rcases replay_mem hrun he with he | ⟨x, hx, ev, hact'⟩
    · cases he
    · rw [hact'] at hact
      obtain ⟨rfl, -, -⟩ := Action.call.inj hact
      simp only [Demo.started, Demo.joined, List.cons_append, List.nil_append, List.mem_cons,
        List.not_mem_nil, or_false] at hx
      rcases hx with rfl | rfl | rfl | rfl | rfl <;> rfl
  exact ⟨h, s, hr, hf, s', events, hok, ((rent_exempt hr hf).2 _ _ _ _ rfl hok).1⟩

end SafeNudge
