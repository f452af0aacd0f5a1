import SafeNudge.Property.Settlement

/-!
# Members can always be paid out

Under a token program that takes the transfers of a settlement, `distribute`, `emergency_cancel`
and `leave_group` succeed whenever their callers and their lists are right (`payout_succeeds`): the
vault covers the deposits, the count of the group is that of its records, and the end of a started
cycle computes.
-/

namespace SafeNudge

open Lib Function

variable {K : Type} [DecidableEq K] {E : Env K} {ctx : Ctx K} {h : List (StepEntry K)}
  {s s' : State K} {G V : K} {g : GroupConfig K} {remaining : List K} {p : TokenProgram}

/-- The token program `p` takes any covered transfer of `mint` from the vault `V` into `k`. -/
structure Takes (E : Env K) (ctx : Ctx K) (s : State K) (p : TokenProgram) (V mint k : K)
    (t : TokenAccount K) : Prop where
  account : s.token k = some (p, t)
  mint_eq : t.mint = mint
  room : t.amount.toNat + s.amount V < 2 ^ 64
  accepts : ∀ n : UInt64, n.toNat ≤ s.amount V →
    ctx.refuses (.transferChecked (E.tokenKey p) V mint k V n) = false

/-- All open records of the group at `G` in some order, each with a token account of its member
for `mint` that takes transfers from the vault. -/
def PayableList (E : Env K) (ctx : Ctx K) (s : State K) (p : TokenProgram) (G V mint : K)
    (remaining : List K) : Prop :=
  ∃ pairs : List (K × K), remaining = pairs.flatMap (fun pair => [pair.1, pair.2]) ∧
    (pairs.map Prod.fst).Nodup ∧
    (∀ k, k ∈ pairs.map Prod.fst ↔ ∃ r, s.record k = some r ∧ r.group = G) ∧
    ∀ pair ∈ pairs, ∃ r t, s.record pair.1 = some r ∧ t.owner = r.member ∧
      Takes E ctx s p V mint pair.2 t

/-- The token program closes the emptied vault. -/
def Closes (E : Env K) (ctx : Ctx K) (p : TokenProgram) (V G : K) : Prop :=
  ctx.refuses (.closeAccount (E.tokenKey p) V G V) = false

/-- The token program burns what the vault holds. -/
structure Burns (E : Env K) (ctx : Ctx K) (s : State K) (p : TokenProgram) (V mint : K) :
    Prop where
  supply : ∀ q m, s.account mint = .mint q m → s.amount V ≤ m.supply.toNat
  accepts : ∀ n : UInt64, n.toNat ≤ s.amount V →
    ctx.refuses (.burnChecked (E.tokenKey p) V mint V n) = false

omit [DecidableEq K] in
theorem chunksExact2_flatMap (pairs : List (K × K)) :
    chunksExact2 (pairs.flatMap fun pair => [pair.1, pair.2]) = pairs := by
  induction pairs with
  | nil => rfl
  | cons pair pairs ih =>
    simp only [List.flatMap_cons, List.cons_append, List.nil_append, chunksExact2, ih]

/-- The vault of an unsettled group and what it holds. -/
theorem Inv.vault_held (hI : Inv E s.ledger) (hg : s.group G = some g) (hns : ¬g.isSettled)
    (hV : E.createProgramAddress (.vault G) g.vaultBump = some V) :
    ∃ p t, s.token V = some (p, t) ∧ t.mint = g.mint ∧ t.owner = V ∧
      s.ledger.deposits G ≤ t.amount.toNat := by
  obtain ⟨V', hV', hheld⟩ := hI.vault hg
  obtain rfl : V' = V := Option.some.inj ((Env.findProgramAddress_create hV').symm.trans hV)
  obtain ⟨p, t, ht, hm⟩ := hheld hns
  obtain ⟨pool, hp⟩ := hI.custody hg
  have hb := hp.balance hns hV
  rw [Ledger.amount, ht] at hb
  refine ⟨p, t, ht, hm, hI.toLayout.selfOwned hV ht, ?_⟩
  rw [hp.deposits.2]
  simp only [amountOf, Pool.balance] at hb
  omega

/-- A payable list passes the checks of a settlement. -/
theorem settling_of_payable {t : TokenAccount K} (hI : Inv E s.ledger) (hg : s.group G = some g)
    (hns : ¬g.isSettled) (hV : E.createProgramAddress (.vault G) g.vaultBump = some V)
    (ht : s.token V = some (p, t)) (hl : PayableList E ctx s p G V g.mint remaining) :
    ∃ rs, Settling E s.ledger G V remaining g p t rs := by
  obtain ⟨pairs, rfl, hnd, hiff, htok⟩ := hl
  have hL := hI.toLayout
  obtain ⟨rs, hacc⟩ : ∃ rs, List.Forall₂ (PairOk E s.ledger G g.mint) pairs rs := by
    refine exists_forall₂ fun pair hp => ?_
    obtain ⟨r, t', hr, ho, htake⟩ := htok pair hp
    obtain ⟨r', hr', hG⟩ := (hiff pair.1).1 (List.mem_map_of_mem hp)
    obtain rfl : r = r' := Option.some.inj (hr.symm.trans hr')
    have haddr := Env.findProgramAddress_create (hL.placed hr).address
    exact ⟨r, hr, hG, hG ▸ haddr, p, t', htake.account, ho, htake.mint_eq⟩
  obtain ⟨pool, hp⟩ := hI.custody hg
  have hlen : pairs.length = g.currentMembers.toNat := by
    rw [← hp.count, ← List.length_map Prod.fst]
    exact Pool.length_of_mem_iff hnd fun k => (hiff k).trans (hp.mem hL).symm
  obtain ⟨p', t', ht', -, -, hcov⟩ := hI.vault_held hg hns hV
  rw [ht] at ht'
  cases ht'
  refine ⟨rs, hg, Env.findProgramAddress_create (hI.group hg).address, hV, ht, ?_, ?_, ?_, ?_⟩
  · rw [List.length_flatMap]
    simp [hlen, Nat.mul_comm]
  · rwa [chunksExact2_flatMap]
  · rwa [chunksExact2_flatMap]
  · rwa [deposits_of_accepted hI hg hlen hnd hacc]

section
variable {t : TokenAccount K} {rs : List (MemberRecord K)}

/-- The payouts of a payable list go through. -/
theorem payAll_of_payable {q : TokenProgram} {m : Mint} (hI : Inv E s.ledger)
    (hS : Settling E s.ledger G V remaining g p t rs)
    (hl : PayableList E ctx s p G V g.mint remaining) (hm : s.account g.mint = .mint q m)
    (htm : t.mint = g.mint) (hto : t.owner = V) :
    ∃ s₁, payAll E ctx p V g.mint m.decimals (payPlan remaining rs t.amount) s = .ok s₁ := by
  have hL := hI.toLayout
  have hkeys := payPlan_keys hS
  have hneV := pairs_ne_vault hS.accepted hL.selfOwned hL.placed hS.vaultAddress
  have hsum : ((payPlan remaining rs t.amount).map (·.2.toNat)).sum ≤ t.amount.toNat := by
    rw [payPlan_sum hS]
    by_cases hrs : rs = []
    · simp [hrs, payouts]
    · exact (sum_payouts (by simpa using hrs) (by rw [List.map_map]; exact hS.covered)).le
  have hamt : s.amount V = t.amount.toNat := by
    rw [← State.ledger_amount, Ledger.amount, hS.held]
    rfl
  obtain ⟨pairs, rfl, -, -, htok⟩ := hl
  have hpair : ∀ pay ∈ payPlan (pairs.flatMap fun pair => [pair.1, pair.2]) rs t.amount,
      ∃ pair ∈ pairs, pair.2 = pay.1 := by
    intro pay hpay
    have := hkeys ▸ List.mem_map_of_mem (f := Prod.fst) hpay
    rw [chunksExact2_flatMap] at this
    exact List.mem_map.1 this
  rw [chunksExact2_flatMap] at hneV hkeys
  refine payAll_ok (State.token_eq_some.1 hS.held) hm rfl htm hto (fun pay hpay => ?_) ?_ hsum
    fun pay hpay _ => ?_
  · obtain ⟨pair, hp, he⟩ := hpair pay hpay
    exact he ▸ hneV pair hp
  · rw [hkeys, ← chunksExact2_flatMap pairs]
    exact tokens_nodup hS.accepted hS.nodup hL.placed
  · obtain ⟨pair, hp, he⟩ := hpair pay hpay
    obtain ⟨r, t', -, -, htake⟩ := htok pair hp
    have hle := List.le_sum_of_mem (List.mem_map_of_mem (f := (·.2.toNat)) hpay)
    have hroom := htake.room
    rw [he] at htake
    have := Nat.le_trans hle hsum
    exact ⟨t', State.token_eq_some.1 htake.account, htake.mint_eq, by omega,
      htake.accepts _ (by omega)⟩

/-- The emptied vault closes. -/
theorem close_of_payable {mint : K} {d : UInt8} {s₁ : State K} (hI : Inv E s.ledger)
    (hS : Settling E s.ledger G V remaining g p t rs) (h0 : g.currentMembers ≠ 0)
    (hto : t.owner = V) (hc : Closes E ctx p V G)
    (hpay : payAll E ctx p V mint d (payPlan remaining rs t.amount) s = .ok s₁) :
    ∃ X, closeAccount E ctx p V G V s₁ = .ok X := by
  have hL := hI.toLayout
  obtain ⟨-, n, hn, hvn, -⟩ := payAll_settling hS hL.selfOwned hL.placed hpay
  rw [← payouts_total hS h0] at hn
  have hn : n = 0 := UInt64.toNat_inj.1 (by simpa using hn)
  exact ⟨_, closeAccount_eq_ok.2 ⟨_, hvn, (Env.address_ne hS.address hS.vaultAddress nofun).symm, hto,
    hc, hn, rfl⟩⟩

end

/-- Both settlements of a group with members go through. -/
theorem settles_of_payable {t : TokenAccount K} (hI : Inv E s.ledger) (hg : s.group G = some g)
    (hns : ¬g.isSettled) (h0 : g.currentMembers ≠ 0)
    (hV : E.createProgramAddress (.vault G) g.vaultBump = some V) (ht : s.token V = some (p, t))
    (hl : PayableList E ctx s p G V g.mint remaining) (hc : Closes E ctx p V G) :
    ∃ X, Settles E ctx s G V g.mint (E.tokenKey p) remaining g X := by
  obtain ⟨rs, hS⟩ := settling_of_payable hI hg hns hV ht hl
  obtain ⟨p', t', ht', htm, hto, -⟩ := hI.vault_held hg hns hV
  rw [ht] at ht'
  cases ht'
  obtain ⟨q, m, hm, -⟩ := hI.mint hg
  have hm := State.mintAt_eq_some.1 hm
  obtain ⟨s₁, hpay⟩ := payAll_of_payable hI hS hl hm htm hto
  obtain ⟨X, hX⟩ := close_of_payable hI hS h0 hto hc hpay
  exact ⟨X, p, t, rs, q, m, s₁, hS, rfl, rfl, hm, hpay, hX⟩

/-- Without members the vault is burned and closed. -/
theorem emergencyCancel_empty {t : TokenAccount K} {e : EmergencyCancel K} (hI : Inv E s.ledger)
    (hg : s.group e.groupConfig = some g) (hs : g.status = STATUS_OPEN ∨ g.status = STATUS_ACTIVE)
    (hns : ¬g.isSettled) (h0 : g.currentMembers = 0)
    (hV : E.createProgramAddress (.vault e.groupConfig) g.vaultBump = some e.vault)
    (ht : s.token e.vault = some (p, t)) (hm : e.mint = g.mint)
    (htp : e.tokenProgram = E.tokenKey p) (hsig : Signed E ctx e.creator)
    (hcr : g.creator = e.creator) (hw : e.mintIsWritable = true)
    (hl : PayableList E ctx s p e.groupConfig e.vault g.mint remaining)
    (hc : Closes E ctx p e.vault e.groupConfig) (hb : Burns E ctx s p e.vault g.mint) :
    ∃ r, emergencyCancel E ctx e remaining s = .ok r := by
  have hL := hI.toLayout
  obtain ⟨rs, hS⟩ := settling_of_payable hI hg hns hV ht hl
  obtain ⟨p', t', ht', htm, hto, -⟩ := hI.vault_held hg hns hV
  rw [ht] at ht'
  cases ht'
  obtain ⟨q, m, hmint, -⟩ := hI.mint hg
  have hmint := State.mintAt_eq_some.1 hmint
  obtain rfl : rs = [] := by
    have := hS.records_length
    rw [h0] at this
    exact List.length_eq_zero_iff.1 this
  have htok := State.token_eq_some.1 ht
  have hun : unowedVaultBalance g.currentMembers.toNat t.amount = t.amount := by
    rw [h0]
    rfl
  have hplan : payPlan remaining [] t.amount = [] := by simp [payPlan, payouts]
  have hamt : s.amount e.vault = t.amount.toNat := by rw [State.amount, htok]; rfl
  have hburn : ∃ s₂ n, burnUnowed E ctx p e.vault e.mint t.amount m.decimals s = .ok s₂ ∧
      s₂.account e.vault = .token p { t with amount := n } ∧ n = 0 := by
    unfold burnUnowed
    split
    · have hsup := hb.supply q m hmint
      rw [hamt] at hsup
      have hne : e.vault ≠ g.mint := by
        intro he
        rw [he, hmint] at htok
        cases htok
      refine ⟨_, t.amount - t.amount, burnChecked_eq_ok.2 ⟨t, q, m, htok, by rw [hm, hmint],
        htm.trans hm.symm, rfl, hto, by rw [hm]; exact hb.accepts _ hamt.ge,
        UInt64.le_refl _,
        UInt64.le_iff_toNat_le.2 hsup, rfl⟩, ?_, UInt64.sub_self _⟩
      rw [hm, State.subTokens_of htok]
      simp [update_of_ne hne]
    · rename_i h
      have h0 : t.amount = 0 := by simpa using h
      exact ⟨s, t.amount, rfl, htok, h0⟩
  obtain ⟨s₂, n, hs₂, hv₂, hn⟩ := hburn
  have hcl := closeAccount_eq_ok.2 ⟨_, hv₂, (Env.address_ne hS.address hV (by simp)).symm, hto, hc, hn, rfl⟩
  exact ⟨_, (emergencyCancel_eq_ok hL.selfOwned hL.placed).2 ⟨g, p, p, t, [], q, m, s, s₂, _, 0, hS,
    ⟨hsig, htp, hcr, hs, hm, fun _ => hw⟩, by rw [hm, hmint], by rw [hplan]; rfl, by rw [hun]; exact hs₂,
    hcl, by simp [payouts], rfl, rfl⟩⟩

/-- A member of an open group can leave. -/
theorem leaveGroup_succeeds {a : LeaveGroup K} {r : MemberRecord K} {t t' : TokenAccount K}
    (hI : Inv E s.ledger) (hg : s.group a.groupConfig = some g) (ho : g.status = STATUS_OPEN)
    (hV : E.createProgramAddress (.vault a.groupConfig) g.vaultBump = some a.vault)
    (ht : s.token a.vault = some (p, t)) (hk : s.record a.memberRecord = some r)
    (hG : r.group = a.groupConfig) (hmem : a.member = r.member) (hsig : Signed E ctx a.member)
    (hpay : a.rentPayer = r.rentPayer) (hm : a.mint = g.mint) (htp : a.tokenProgram = E.tokenKey p)
    (how : t'.owner = a.member) (htake : Takes E ctx s p a.vault g.mint a.memberTokenAccount t') :
    ∃ res, leaveGroup E ctx a s = .ok res := by
  have hL := hI.toLayout
  have hpl := hL.placed hk
  have haddr := Env.findProgramAddress_create hpl.address
  rw [hG, ← hmem] at haddr
  obtain ⟨p', t₀, ht₀, htm, hto, -⟩ := hI.vault_held hg (not_settled_of_open ho) hV
  rw [ht] at ht₀
  cases ht₀
  obtain ⟨q, m, hmint, -⟩ := hI.mint hg
  -- the record is one of those the group counts, and its stake is in the vault
  obtain ⟨pool, hp⟩ := hI.custody hg
  have hmemb : a.memberRecord ∈ pool.members := (hp.mem hL).2 ⟨r, hk, hG⟩
  have hcount : (1 : UInt8).toNat ≤ g.currentMembers.toNat := by
    rw [← hp.count]
    exact Finset.card_pos.2 ⟨_, hmemb⟩
  have hamt : s.amount a.vault = t.amount.toNat := by
    rw [State.amount, State.token_eq_some.1 ht]
    rfl
  have hcov : r.totalDeposited.toNat ≤ t.amount.toNat := by
    have hb := hp.balance (not_settled_of_open ho) hV
    have hrel := @Pool.balance_release _ pool a.memberRecord
    rw [hp.stake, Ledger.stake, State.ledger_record, hk, stakeOf, if_pos hG] at hrel
    rw [State.ledger_amount, hamt] at hb
    omega
  have htr := transferChecked_eq_ok.2 ⟨t, t', q, m, State.token_eq_some.1 ht,
    State.token_eq_some.1 htake.account, by rw [hm]; exact State.mintAt_eq_some.1 hmint,
    htm.trans hm.symm, htake.mint_eq.trans hm.symm, rfl, hto,
    hm ▸ htake.accepts r.totalDeposited (hamt ▸ hcov),
    UInt64.le_iff_toNat_le.2 hcov, .inr (by have := htake.room; omega), rfl⟩
  have hrun : ∀ cm, checkedSub8 g.currentMembers 1 = some cm → ∀ s₁,
      transferChecked E ctx p a.vault a.mint a.memberTokenAccount a.vault r.totalDeposited m.decimals s
        = .ok s₁ → leaveGroup E ctx a s = .ok ((s₁.set a.groupConfig
          (.groupConfig { g with currentMembers := cm })).close a.memberRecord a.rentPayer,
          [.memberLeft a.groupConfig a.member r.totalDeposited cm]) := by
    intro cm hcm s₁ hs₁
    simp only [leaveGroup, bind_eq_ok, require_eq_ok, requireSigner_eq_ok, loadGroupConfig_eq_ok,
      loadMemberRecord_eq_ok, loadTokenAccount_eq_ok, loadMint_eq_ok, requireSeeds_eq_ok,
      requireClose_eq_ok, orThrow_eq_ok, pure_eq_ok, exists_const, loadTokenProgram_eq_ok]
    exact ⟨hsig, g, hg, r, hk, (p, t'), htake.account, (p, t), ht, (q, m), hm ▸ hmint, p, htp,
      Env.findProgramAddress_create (hI.group hg).address, ho, haddr, hpay,
      hpay ▸ (Env.ne_of_canSign haddr hpl.payer).symm, how, htake.mint_eq.trans hm.symm, rfl, hV, hm,
      cm, hcm, s₁, hs₁, rfl⟩
  exact ⟨_, hrun _ (checkedSub8_of hcount) _ htr⟩

/-- In every reachable open or active group, settlement and leaving go through: the vault is there,
and with a token program that takes the payouts each of the three instructions succeeds. -/
theorem payout_succeeds (hr : Reached E h s) (hg : s.group G = some g)
    (hs : g.status = STATUS_OPEN ∨ g.status = STATUS_ACTIVE) :
    ∃ V p t, E.findProgramAddress (.vault G) = some (V, g.vaultBump) ∧ s.token V = some (p, t) ∧
    (g.status = STATUS_ACTIVE → ∀ ctx d remaining, Signed E ctx d.payer → d.groupConfig = G →
      d.vault = V → d.mint = g.mint → d.tokenProgram = E.tokenKey p →
      (∀ c, g.cycleEnd E = .ok c → c ≤ ctx.unixTimestamp) →
      PayableList E ctx s p G V g.mint remaining → Closes E ctx p V G →
      ∃ r, distribute E ctx d remaining s = .ok r) ∧
    (∀ ctx e remaining, Signed E ctx e.creator → g.creator = e.creator → e.groupConfig = G →
      e.vault = V → e.mint = g.mint → e.tokenProgram = E.tokenKey p →
      PayableList E ctx s p G V g.mint remaining → Closes E ctx p V G →
      (g.currentMembers = 0 → e.mintIsWritable = true ∧ Burns E ctx s p V g.mint) →
      ∃ r, emergencyCancel E ctx e remaining s = .ok r) ∧
    (g.status = STATUS_OPEN → ∀ ctx a r t', Signed E ctx a.member →
      s.record a.memberRecord = some r → r.group = G → a.member = r.member →
      a.rentPayer = r.rentPayer → a.groupConfig = G → a.vault = V → a.mint = g.mint →
      a.tokenProgram = E.tokenKey p → t'.owner = a.member →
      Takes E ctx s p V g.mint a.memberTokenAccount t' → ∃ res, leaveGroup E ctx a s = .ok res) := by
  have hI := Reached.inv hr
  have hns : ¬g.isSettled := hs.elim not_settled_of_open not_settled_of_active
  obtain ⟨V, hV, -⟩ := hI.vault hg
  have hV' := Env.findProgramAddress_create hV
  obtain ⟨p, t, ht, -⟩ := hI.vault_held hg hns hV'
  refine ⟨V, p, t, hV, ht, ?_, ?_, ?_⟩
  · rintro ha ctx d remaining hsig rfl rfl hm htp hend hl hc
    obtain ⟨hmem, c, hcyc⟩ := (hI.group hg).active ha
    have h0 : g.currentMembers ≠ 0 := by
      have := UInt8.le_iff_toNat_le.1 hmem
      rintro h0
      simp [h0] at this
    obtain ⟨X, hX⟩ := settles_of_payable hI hg hns h0 hV' ht hl hc
    obtain ⟨events, hev⟩ := (distribute_iff hI hg ha ⟨c, hcyc, hend c hcyc⟩ hsig).2
      ⟨X, by rw [hm, htp]; exact hX, rfl⟩
    exact ⟨_, hev⟩
  · rintro ctx e remaining hsig hcr rfl rfl hm htp hl hc hb
    by_cases h0 : g.currentMembers = 0
    · exact emergencyCancel_empty hI hg hs hns h0 hV' ht hm htp hsig hcr (hb h0).1 hl hc (hb h0).2
    · obtain ⟨X, hX⟩ := settles_of_payable hI hg hns h0 hV' ht hl hc
      obtain ⟨events, hev⟩ := (emergencyCancel_iff hI hg hs h0 hsig hcr).2
        ⟨X, by rw [hm, htp]; exact hX, rfl⟩
      exact ⟨_, hev⟩
  · rintro ho ctx a r t' hsig hk hG hmem hpay rfl rfl hm htp how htake
    exact leaveGroup_succeeds hI hg ho hV' ht hk hG hmem hsig hpay hm htp how htake

/-- The group has this status and the members 1 and 2, who each paid 5 of 100 tokens. -/
def Demo.twoMembers (status : UInt8) (s : State SymbolicKey) : Bool :=
  (s.group Demo.G).any (fun g => g.status == status && g.creator == .wallet 0 &&
    g.mint == .mint 0 && g.currentMembers == 2 &&
    (checkRemaining g.currentMembers.toNat (Demo.members [2, 1])).isOk &&
    (distributeValidate symbolic s Demo.G g.mint (chunksExact2 (Demo.members [2, 1])) [] 0 []).isOk) &&
  s.amount Demo.V == 10 && (s.token Demo.V).any (·.1 == .token) &&
  [1, 2].all (fun n => s.token (Demo.token n) == some (.token, ⟨.mint 0, .wallet n, 95⟩) &&
    (s.record (Demo.record n)).any fun r =>
      r.group == Demo.G && r.member == .wallet n && r.rentPayer == .wallet n)

/-- Such a group has its members in reverse as a payable list, and the first of them can be paid. -/
theorem Demo.payable_of_twoMembers {h : List (StepEntry SymbolicKey)} {s : State SymbolicKey}
    {status : UInt8} (hr : Reached symbolic h s) (hs : Demo.twoMembers status s = true) :
    ∃ g t, s.group Demo.G = some g ∧ g.status = status ∧ g.creator = .wallet 0 ∧
      g.mint = .mint 0 ∧ g.currentMembers = 2 ∧ s.token Demo.V = some (.token, t) ∧
      (∀ signers now, PayableList symbolic (Demo.tx signers now) s .token Demo.G Demo.V g.mint
        (Demo.members [2, 1])) ∧
      ∃ r, s.record (Demo.record 1) = some r ∧ r.group = Demo.G ∧ r.member = .wallet 1 ∧
        r.rentPayer = .wallet 1 ∧ ∀ signers now, Takes symbolic (Demo.tx signers now) s .token Demo.V
          g.mint (Demo.token 1) ⟨.mint 0, .wallet 1, 95⟩ := by
  simp only [Demo.twoMembers, Bool.and_eq_true, Option.any_eq_true, isOk_eq_true, beq_iff_eq,
    List.all_cons, List.all_nil, and_true] at hs
  obtain ⟨⟨⟨⟨g, hg, ⟨⟨⟨⟨hst, hcr⟩, hm⟩, h2⟩, ⟨⟩, hlen⟩, hval⟩, hamt⟩, ⟨p, t⟩, ht, rfl⟩,
    ⟨htok₁, r₁, hr₁, ⟨hG₁, hM₁⟩, hP₁⟩, htok₂, r₂, hr₂, ⟨hG₂, hM₂⟩, -⟩ := hs
  have htake : ∀ n, s.token (Demo.token n) = some (.token, ⟨.mint 0, .wallet n, 95⟩) →
      ∀ signers now, Takes symbolic (Demo.tx signers now) s .token Demo.V g.mint (Demo.token n)
        ⟨.mint 0, .wallet n, 95⟩ := by
    refine fun n h _ _ => ⟨h, hm.symm, ?_, fun _ _ => rfl⟩
    rw [hamt]
    exact (by decide : (95 : UInt64).toNat + 10 < 2 ^ 64)
  obtain ⟨-, hnd, rs, hacc⟩ := accepted_of_checks (.inl ⟨hlen, hval⟩)
  have hl := membersListed_of_accepted (Reached.inv hr) hg (by rw [h2]; rfl) hnd hacc
  refine ⟨g, t, hg, hst, hcr, hm, h2, ht, fun signers now => ⟨_, rfl, hl.records_nodup, hl.records,
    fun pair hp => ?_⟩, r₁, hr₁, hG₁, hM₁, hP₁, htake 1 htok₁⟩
  have hp : pair = (Demo.record 2, Demo.token 2) ∨ pair = (Demo.record 1, Demo.token 1) := by
    simpa [Demo.members, chunksExact2] using hp
  rcases hp with rfl | rfl
  · exact ⟨r₂, _, hr₂, hM₂.symm, htake 2 htok₂ signers now⟩
  · exact ⟨r₁, _, hr₁, hM₁.symm, htake 1 htok₁ signers now⟩

theorem Demo.vault_eq {V : SymbolicKey} {b : UInt8}
    (hV : symbolic.findProgramAddress (.vault Demo.G) = some (V, b)) : Demo.V = V := by
  rw [symbolic_findProgramAddress] at hV
  exact (Prod.mk.inj (Option.some.inj hV)).1

/-- In an open group with two members cancelling with the members in reverse and leaving go
through, and once it has started and its cycle is over, so does distributing. -/
theorem payout_succeeds_joined :
    (∃ h s, Reached symbolic h s ∧
      (∃ r, emergencyCancel symbolic (Demo.tx [0] 0) Demo.cancelAccounts (Demo.members [2, 1]) s
        = .ok r) ∧
      ∃ r, leaveGroup symbolic (Demo.tx [1] 0) (Demo.leaveAccounts 1) s = .ok r) ∧
    ∃ h s r, Reached symbolic h s ∧ distribute symbolic (Demo.tx [9] 1209600)
      Demo.distributeAccounts (Demo.members [2, 1]) s = .ok r := by
  constructor
  · obtain ⟨h, s, hr, hs⟩ := replay_exists Demo.joined (world_genesis 10000 100)
      (fun _ s => Demo.twoMembers STATUS_OPEN s) (by decide +kernel)
    obtain ⟨g, t₀, hg, ho, hcr, hm, h2, ht₀, hl, r₁, hr₁, hG₁, hM₁, hP₁, htake⟩ :=
      Demo.payable_of_twoMembers hr hs
    obtain ⟨V, p, t, hV, ht, -, hcancel, hleave⟩ := payout_succeeds hr hg (.inl ho)
    obtain rfl := Demo.vault_eq hV
    cases ht₀.symm.trans ht
    refine ⟨h, s, hr, hcancel _ _ _ ⟨List.mem_cons_self, rfl⟩ hcr rfl rfl hm.symm rfl (hl _ _) rfl
      fun h0 => ?_, hleave ho _ _ r₁ _ ⟨List.mem_cons_self, rfl⟩ hr₁ hG₁ hM₁.symm hP₁.symm rfl rfl
      hm.symm rfl rfl (htake _ _)⟩
    rw [h2] at h0
    exact absurd h0 (by decide)
  · obtain ⟨h, s, hr, hs⟩ := replay_exists Demo.started (world_genesis 10000 100)
      (fun _ s => Demo.twoMembers STATUS_ACTIVE s &&
        (s.group Demo.G).any fun g => g.cycleEnd symbolic = .ok 1209600) (by decide +kernel)
    obtain ⟨hs, hend⟩ := Bool.and_eq_true_iff.1 hs
    obtain ⟨g, t₀, hg, ha, -, hm, -, ht₀, hl, -⟩ := Demo.payable_of_twoMembers hr hs
    obtain ⟨V, p, t, hV, ht, hdistribute, -⟩ := payout_succeeds hr hg (.inr ha)
    obtain rfl := Demo.vault_eq hV
    cases ht₀.symm.trans ht
    rw [hg, Option.any_some, decide_eq_true_eq] at hend
    obtain ⟨r, hr'⟩ := hdistribute ha (Demo.tx [9] 1209600) Demo.distributeAccounts _
      ⟨List.mem_cons_self, rfl⟩ rfl rfl hm.symm rfl (fun c hc => by
        rw [Except.ok.inj (hc.symm.trans hend)]
        exact Int64.le_refl _) (hl _ _) rfl
    exact ⟨h, s, r, hr, hr'⟩

end SafeNudge
