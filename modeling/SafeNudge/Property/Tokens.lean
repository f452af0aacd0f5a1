import SafeNudge.Property.Lifecycle
import SafeNudge.Property.Principal

/-!
# Whose tokens move

An instruction moves tokens in four ways (`TokenStep`): it opens an empty vault, it takes one
deposit from a token account whose owner signed, it pays out of the vault of its group, or it
settles that vault. So an account that is no vault loses tokens only in a join or a deposit its
owner signed, and only the deposit amount; and for each mint the balances change together as its
supply does (`tokens_authorized`).
-/

namespace SafeNudge

open Lib Function

variable {K : Type} [DecidableEq K] {E : Env K} {ctx : Ctx K} {L L' : Ledger K}
  {events : List (Event K)} {c : Call K} {h : List (StepEntry K)} {s s' : State K} {k mint : K}

/-- The token accounts of a mint. -/
def Ledger.ofMint (L : Ledger K) (mint : K) : Set K :=
  {k | ∃ p t, L.token k = some (p, t) ∧ t.mint = mint}

def supplyOf : Option (TokenProgram × Mint) → Nat
  | some (_, m) => m.supply.toNat
  | none => 0

def Ledger.supply (L : Ledger K) (mint : K) : Nat := supplyOf (L.mint mint)

/-- What a call does to the token accounts and the mints. -/
inductive TokenStep (E : Env K) (ctx : Ctx K) (L L' : Ledger K) (c : Call K) : Prop where
  | still : L'.token = L.token → L'.mint = L.mint → TokenStep E ctx L L' c
  | opened {V mint : K} {p : TokenProgram} {b : UInt8} : c.creates c.groupKey →
      E.findProgramAddress (.vault c.groupKey) = some (V, b) → L.token V = none →
      L'.token = update L.token V (some (p, { mint, owner := V, amount := 0 })) →
      L'.mint = L.mint → TokenStep E ctx L L' c
  | paid {g : GroupConfig K} {p : TokenProgram} {src dst : K} {t t' : TokenAccount K} {n : UInt64} :
      L.group c.groupKey = some g → ¬g.isSettled → L.token src = some (p, t) →
      L.token dst = some (p, t') → src ≠ dst → t.mint = g.mint → t'.mint = g.mint → n ≤ t.amount →
      t'.amount.toNat + n.toNat < 2 ^ 64 →
      (c.paysIn c.groupKey ∧ Signed E ctx t.owner ∧ n = g.depositAmount) ∨
        (c.paysOut c.groupKey ∧ E.createProgramAddress (.vault c.groupKey) g.vaultBump = some src) →
      L'.token = movedTokens L.token p src dst t t' n → L'.mint = L.mint → TokenStep E ctx L L' c
  | settled {g g' : GroupConfig K} {V : K} {remaining : List K} {p : TokenProgram}
      {t : TokenAccount K} {rs : List (MemberRecord K)} {burned : UInt64} :
      Settled E L L' c.groupKey V remaining g g' p t rs burned → ¬g.isSettled → t.mint = g.mint →
      c.settlesGroup c.groupKey →
      burned = 0 ∨ (∃ a remaining, c = .emergencyCancel a remaining ∧ Signed E ctx a.creator ∧
        g.creator = a.creator ∧ g.currentMembers = 0) → TokenStep E ctx L L' c

/-- The vault of a settlement is of the group's mint. -/
theorem Settled.vault_mint {G V : K} {remaining : List K} {g g' : GroupConfig K} {p : TokenProgram}
    {t : TokenAccount K} {rs : List (MemberRecord K)} {burned : UInt64} (hL : Layout E L)
    (h : Settled E L L' G V remaining g g' p t rs burned) (hns : ¬g.isSettled) : t.mint = g.mint := by
  obtain ⟨V', hV', hheld⟩ := hL.vault h.group
  obtain rfl : V' = V :=
    Option.some.inj ((Env.findProgramAddress_create hV').symm.trans h.vaultAddress)
  obtain ⟨p', t', ht, hm⟩ := hheld hns
  rw [h.held] at ht
  cases ht
  exact hm

theorem Effect.tokenStep (hL : Layout E L) (h : Effect E ctx L L' events c) :
    TokenStep E ctx L L' c := by
  cases h with
  | createGroup h =>
    obtain ⟨p, m, b, vb, n₁, n₂, -, -, -, hV, -, -, -, rfl⟩ := h.post
    exact .opened rfl hV h.unused.2 rfl rfl
  | joinGroup h =>
    obtain ⟨p, mt, vt, b, cm, joins, hm, hv, hne, how, hmm, hvm, hle, hlt, -, -, -, rfl, -⟩ := h.post
    exact .paid h.group (not_settled_of_open h.isOpen) hm hv hne hmm hvm hle hlt
      (.inl ⟨rfl, how ▸ h.member, rfl⟩) rfl rfl
  | deposit h =>
    obtain ⟨p, mt, vt, hm, hv, hne, how, hmm, hvm, hle, hlt, hpost⟩ := h.post
    exact .paid h.group (not_settled_of_active h.active) hm hv hne hmm hvm hle hlt
      (.inl ⟨rfl, how ▸ h.member, rfl⟩) (by rw [hpost]) (by rw [hpost])
  | leaveGroup h =>
    obtain ⟨p, mt, vt, cm, hm, hv, hne, -, hmm, hvm, hle, hlt, -, rfl, -⟩ := h.post
    exact .paid h.group (not_settled_of_open h.isOpen) hv hm hne hvm hmm hle hlt
      (.inr ⟨rfl, h.vault⟩) rfl rfl
  | distribute h hP =>
    have hns := not_settled_of_active hP.active
    exact .settled h hns (h.vault_mint hL hns) rfl (.inl rfl)
  | emergencyCancel hb h hP =>
    have hns := hP.status.elim not_settled_of_open not_settled_of_active
    refine .settled h hns (h.vault_mint hL hns) rfl ?_
    rw [unowedVaultBalance] at hb
    split at hb
    · exact .inr ⟨_, _, rfl, hP.signer, hP.creator, UInt8.toNat_inj.1 ‹_›⟩
    · exact .inl hb
  | startCycle h => exact .still (by rw [h.post]) (by rw [h.post])
  | refundVaultRent h => exact .still (by rw [h.post]) (by rw [h.post])
  | closeMemberRecord h =>
    obtain ⟨cm, -, rfl⟩ := h.post
    exact .still rfl rfl
  | closeGroup h =>
    obtain ⟨n, -, rfl, -⟩ := h.post
    exact .still rfl rfl
  | closeJoinTally h => exact .still (by rw [h.post]) (by rw [h.post])
  | setJoinAuthority h =>
    obtain ⟨n, -, -, rfl⟩ := h.post
    exact .still rfl rfl

/-! ## One call -/

/-- What no call of the program gets around. -/
structure TokenRules (E : Env K) (ctx : Ctx K) (c : Call K) (L L' : Ledger K) : Prop where
  /-- Tokens leave an account in a deposit that its owner signed, or leave the vault of the group. -/
  debit : ∀ {k p t}, L.token k = some (p, t) → L'.amount k < L.amount k →
    ∃ g, L.group c.groupKey = some g ∧ ¬g.isSettled ∧ t.mint = g.mint ∧
      ((c.paysIn c.groupKey ∧ Signed E ctx t.owner ∧
          L.amount k = L'.amount k + g.depositAmount.toNat) ∨
        (E.createProgramAddress (.vault c.groupKey) g.vaultBump = some k ∧
          (c.paysOut c.groupKey ∨ c.settlesGroup c.groupKey)))
  /-- A token account keeps its owner, its mint and its program; only a settled vault is closed. -/
  kept : ∀ {k p t}, L.token k = some (p, t) →
    (∃ n, L'.token k = some (p, { t with amount := n })) ∨
    (L'.token k = none ∧ c.settlesGroup c.groupKey ∧
      ∃ b, E.createProgramAddress (.vault c.groupKey) b = some k)
  /-- Only an empty vault is opened. -/
  opened : ∀ {k p t}, L.token k = none → L'.token k = some (p, t) →
    c.creates c.groupKey ∧ t.owner = k ∧ t.amount = 0 ∧
      ∃ b, E.findProgramAddress (.vault c.groupKey) = some (k, b)
  conserved : ∀ mint, gain (L.ofMint mint ∪ L'.ofMint mint) L.amount L'.amount =
    (L'.supply mint : ℤ) - L.supply mint
  burned : ∀ mint, L'.supply mint ≠ L.supply mint → ∃ a remaining g,
    c = .emergencyCancel a remaining ∧ Signed E ctx a.creator ∧ L.group a.groupConfig = some g ∧
      g.creator = a.creator ∧ g.mint = mint ∧ g.currentMembers = 0

/-- Balances that change at accounts of one mint only. -/
theorem conserved_of_total (mint₀ : K)
    (hm : ∀ i, L'.amount i ≠ L.amount i →
      i ∈ L.ofMint mint₀ ∧ ∀ mint, i ∈ L'.ofMint mint → mint = mint₀)
    (htotal : gain Set.univ L.amount L'.amount = (L'.supply mint₀ : ℤ) - L.supply mint₀)
    (hothers : ∀ mint, mint ≠ mint₀ → L'.supply mint = L.supply mint) (mint : K) :
    gain (L.ofMint mint ∪ L'.ofMint mint) L.amount L'.amount =
      (L'.supply mint : ℤ) - L.supply mint := by
  by_cases he : mint = mint₀
  · subst he
    rw [← htotal]
    exact gain_congr fun i hi => ⟨fun _ => Set.mem_univ i, fun _ => .inl (hm i hi).1⟩
  · have hstill : ∀ i ∈ L.ofMint mint ∪ L'.ofMint mint, L'.amount i = L.amount i := by
      intro i hi
      by_contra hne
      refine he ?_
      rcases hi with ⟨p, t, ht, rfl⟩ | hi
      · obtain ⟨p', t', ht', rfl⟩ := (hm i hne).1
        rw [ht] at ht'
        cases ht'
        rfl
      · exact (hm i hne).2 mint hi
    rw [gain_eq_zero hstill, hothers mint he, sub_self]

omit [DecidableEq K] in
/-- An account of one mint before and after. -/
theorem ofMint_of_holder {mint mint' : K}
    (hk : (L'.token k).map Layout.holder = (L.token k).map Layout.holder)
    (h : k ∈ L.ofMint mint) (h' : k ∈ L'.ofMint mint') : mint' = mint := by
  obtain ⟨p, t, ht, rfl⟩ := h
  obtain ⟨p', t', ht', rfl⟩ := h'
  rw [ht, ht'] at hk
  exact (Prod.mk.inj (Prod.mk.inj (Option.some.inj hk)).2).1

omit [DecidableEq K] in
/-- A token account that keeps its holder changes its amount at most. -/
theorem kept_of_holder {p : TokenProgram} {t : TokenAccount K}
    (hk : (L'.token k).map Layout.holder = (L.token k).map Layout.holder)
    (ht : L.token k = some (p, t)) : ∃ n, L'.token k = some (p, { t with amount := n }) := by
  rw [ht, Option.map_some] at hk
  obtain ⟨⟨p', t'⟩, ht', he⟩ := Option.map_eq_some_iff.1 hk
  simp only [Layout.holder, Prod.mk.injEq] at he
  obtain ⟨rfl, hm, ho⟩ := he
  exact ⟨t'.amount, by rw [ht', ← hm, ← ho]⟩

omit [DecidableEq K] in
theorem Ledger.supply_congr (hm : L'.mint = L.mint) (mint : K) : L'.supply mint = L.supply mint := by
  rw [Ledger.supply, Ledger.supply, hm]

/-! ## Calls that move no tokens -/

omit [DecidableEq K] in
/-- No balance changes, and an account that was none before is an empty vault. -/
theorem TokenRules.of_amounts (hamt : ∀ k, L'.amount k = L.amount k) (hm : L'.mint = L.mint)
    (hkept : ∀ {k x}, L.token k = some x → L'.token k = some x)
    (hopened : ∀ {k p t}, L.token k = none → L'.token k = some (p, t) →
      c.creates c.groupKey ∧ t.owner = k ∧ t.amount = 0 ∧
        ∃ b, E.findProgramAddress (.vault c.groupKey) = some (k, b)) :
    TokenRules E ctx c L L' where
  debit _ hlt := by
    rw [hamt] at hlt
    exact absurd hlt (Nat.lt_irrefl _)
  kept {_ _ t} hk := .inl ⟨t.amount, hkept hk⟩
  opened := hopened
  conserved mint := by
    rw [gain_eq_zero fun k _ => hamt k, Ledger.supply_congr hm, sub_self]
  burned mint hne := absurd (Ledger.supply_congr hm mint) hne

omit [DecidableEq K] in
theorem TokenRules.of_still (ht : L'.token = L.token) (hm : L'.mint = L.mint) :
    TokenRules E ctx c L L' := by
  refine .of_amounts (fun k => ?_) hm (fun {k x} hk => by rw [ht, hk]) fun {k p t} hk hk' => ?_
  · rw [Ledger.amount, ht, Ledger.amount]
  · rw [ht, hk] at hk'
    cases hk'

theorem TokenRules.of_opened {V mint : K} {p : TokenProgram} {b : UInt8} (hc : c.creates c.groupKey)
    (hV : E.findProgramAddress (.vault c.groupKey) = some (V, b)) (hnone : L.token V = none)
    (ht : L'.token = update L.token V (some (p, { mint, owner := V, amount := 0 })))
    (hm : L'.mint = L.mint) : TokenRules E ctx c L L' := by
  refine .of_amounts (fun k => ?_) hm (fun {k x} hk => ?_) fun {k p t} hk hk' => ?_
  · rw [Ledger.amount, ht, Ledger.amount]
    by_cases hk : k = V
    · subst hk
      rw [hnone]
      simp [amountOf]
    · rw [update_of_ne hk]
  · have hne : k ≠ V := by
      rintro rfl
      rw [hnone] at hk
      cases hk
    rw [ht, update_of_ne hne, hk]
  · have he : k = V := by
      by_contra hne
      rw [ht, update_of_ne hne, hk] at hk'
      cases hk'
    subst he
    rw [ht, update_self] at hk'
    cases hk'
    exact ⟨hc, rfl, rfl, b, hV⟩

/-! ## Transfers -/

section
variable {p : TokenProgram} {src dst : K} {t t' : TokenAccount K} {n : UInt64}
  (hs : L.token src = some (p, t)) (hd : L.token dst = some (p, t')) (hne : src ≠ dst)
  (hle : n ≤ t.amount) (hlt : t'.amount.toNat + n.toNat < 2 ^ 64)
  (hL' : L'.token = movedTokens L.token p src dst t t' n)
include hs hd hne hle hlt hL'

theorem paid_amounts : gain Set.univ L.amount L'.amount = 0 := by
  obtain ⟨hsrc, hdst, hrest⟩ := Moved.of_transfer hs hd hne hle hlt hL'
  have hT : ∀ i ∉ ({src, dst} : Finset K), L'.amount i = L.amount i := by
    intro i hi
    simp only [Finset.mem_insert, Finset.mem_singleton, not_or] at hi
    exact hrest i hi.1 hi.2
  rw [gain_univ hT, Finset.sum_pair hne]
  omega

/-- Only the source loses tokens. -/
theorem paid_source (hk : L'.amount k < L.amount k) : k = src := by
  obtain ⟨-, hdst, hrest⟩ := Moved.of_transfer hs hd hne hle hlt hL'
  by_contra hks
  by_cases hkd : k = dst
  · subst hkd
    omega
  · rw [hrest k hks hkd] at hk
    exact Nat.lt_irrefl _ hk

/-- A transfer keeps the balances of every mint in sum. -/
theorem paid_conserved {mint₀ : K} (htm : t.mint = mint₀) (htm' : t'.mint = mint₀)
    (hm : L'.mint = L.mint) (mint : K) :
    gain (L.ofMint mint ∪ L'.ofMint mint) L.amount L'.amount =
      (L'.supply mint : ℤ) - L.supply mint := by
  obtain ⟨-, -, hrest⟩ := Moved.of_transfer hs hd hne hle hlt hL'
  refine conserved_of_total mint₀ (fun i hi => ?_) ?_ (fun m _ => Ledger.supply_congr hm m) mint
  · have hi' : i ∈ L.ofMint mint₀ := by
      by_cases his : i = src
      · exact ⟨p, t, his ▸ hs, htm⟩
      by_cases hid : i = dst
      · exact ⟨p, t', hid ▸ hd, htm'⟩
      exact absurd (hrest i his hid) hi
    refine ⟨hi', fun mint h => ofMint_of_holder ?_ hi' h⟩
    rw [hL']
    exact holder_movedTokens hs hd n i
  · rw [paid_amounts hs hd hne hle hlt hL', Ledger.supply_congr hm, sub_self]

theorem TokenRules.of_paid {g : GroupConfig K} (hg : L.group c.groupKey = some g)
    (hns : ¬g.isSettled) (htm : t.mint = g.mint) (htm' : t'.mint = g.mint)
    (hwho : (c.paysIn c.groupKey ∧ Signed E ctx t.owner ∧ n = g.depositAmount) ∨
      (c.paysOut c.groupKey ∧ E.createProgramAddress (.vault c.groupKey) g.vaultBump = some src))
    (hm : L'.mint = L.mint) : TokenRules E ctx c L L' := by
  have hholder : ∀ k, (L'.token k).map Layout.holder = (L.token k).map Layout.holder := by
    intro k
    rw [hL']
    exact holder_movedTokens hs hd n k
  refine ⟨fun {k p' t₁} hk hloss => ?_, fun hk => .inl (kept_of_holder (hholder _) hk),
    fun {k p' t₁} hk hk' => ?_, paid_conserved hs hd hne hle hlt hL' htm htm' hm,
    fun mint hsupply => absurd (Ledger.supply_congr hm mint) hsupply⟩
  · obtain rfl := paid_source hs hd hne hle hlt hL' hloss
    obtain ⟨hsrc, -, -⟩ := Moved.of_transfer hs hd hne hle hlt hL'
    rw [hs] at hk
    cases hk
    refine ⟨g, hg, hns, htm, ?_⟩
    rcases hwho with ⟨hin, hsig, rfl⟩ | ⟨hout, hV⟩
    · exact .inl ⟨hin, hsig, hsrc.symm⟩
    · exact .inr ⟨hV, .inl hout⟩
  · have hsame := hholder k
    rw [hk, hk'] at hsame
    cases hsame

end

/-! ## Settlements -/

section
variable {g g' : GroupConfig K} {G V : K} {remaining : List K} {p : TokenProgram}
  {t : TokenAccount K} {rs : List (MemberRecord K)} {burned : UInt64}

/-- A settlement takes tokens from the vault only. -/
theorem Settled.amount_le (h : Settled E L L' G V remaining g g' p t rs burned) (hk : k ≠ V) :
    L.amount k ≤ L'.amount k := by
  by_cases hm : k ∈ (chunksExact2 remaining).map Prod.snd
  · rw [← payPlan_keys h.toSettling] at hm
    obtain ⟨q, hq, rfl⟩ := List.mem_map.1 hm
    rw [h.amount_of_mem hq]
    exact Nat.le_add_right ..
  · rw [h.amount_of_notMem hk hm]

theorem Settled.holder (h : Settled E L L' G V remaining g g' p t rs burned) (hk : k ≠ V) :
    (L'.token k).map Layout.holder = (L.token k).map Layout.holder := by
  have htok : L'.token k = creditAll L.token (payPlan remaining rs t.amount) k := by
    rw [h.post]
    exact update_of_ne hk ..
  rw [htok]
  exact holder_creditAll k

/-- The supply falls by what is burned. -/
theorem Settled.supply_eq (h : Settled E L L' G V remaining g g' p t rs burned) :
    (L'.supply g.mint : ℤ) = L.supply g.mint - burned.toNat ∧
      ∀ mint, mint ≠ g.mint → L'.supply mint = L.supply mint := by
  have hmint : L'.mint = burnedMint L.mint g.mint burned := by rw [h.post]
  refine ⟨?_, fun mint hne => ?_⟩
  · by_cases h0 : 0 < burned
    · obtain ⟨q, m, hm, hle⟩ := h.supply h0
      have hsub := UInt64.toNat_sub_of_le _ _ hle
      have := UInt64.le_iff_toNat_le.1 hle
      rw [Ledger.supply, Ledger.supply, hmint, burnedMint, update_self, hm]
      simp only [Option.map_some, supplyOf, hsub]
      omega
    · obtain rfl : burned = 0 := by simpa using h0
      rw [Ledger.supply, Ledger.supply, hmint, burnedMint_zero]
      simp
  · rw [Ledger.supply, Ledger.supply, hmint, burnedMint, update_of_ne hne]

/-- The token accounts a settlement changes are of the group's mint. -/
theorem Settled.changed_ofMint (h : Settled E L L' G V remaining g g' p t rs burned)
    (htm : t.mint = g.mint) (hk : L'.amount k ≠ L.amount k) : k ∈ L.ofMint g.mint := by
  by_cases hV : k = V
  · exact ⟨p, t, hV ▸ h.held, htm⟩
  · have hm : k ∈ (chunksExact2 remaining).map Prod.snd := by
      by_contra hm
      exact hk (h.amount_of_notMem hV hm)
    obtain ⟨pair, hp, rfl⟩ := List.mem_map.1 hm
    obtain ⟨r, -, hok⟩ := exists_of_mem_forall₂ h.accepted hp
    obtain ⟨p', t', ht', -, hmint⟩ := hok.token
    exact ⟨p', t', ht', hmint⟩

/-- A settled vault is closed. -/
theorem Settled.vault_closed (h : Settled E L L' G V remaining g g' p t rs burned) :
    L'.token V = none := by
  rw [h.post]
  exact update_self ..

theorem TokenRules.of_settled
    (h : Settled E L L' c.groupKey V remaining g g' p t rs burned) (hns : ¬g.isSettled)
    (htm : t.mint = g.mint) (hset : c.settlesGroup c.groupKey)
    (hburn : burned = 0 ∨ (∃ a remaining, c = .emergencyCancel a remaining ∧ Signed E ctx a.creator ∧
      g.creator = a.creator ∧ g.currentMembers = 0)) : TokenRules E ctx c L L' := by
  have hVnone := h.vault_closed
  obtain ⟨hsupply, hothers⟩ := h.supply_eq
  refine ⟨fun {k p' t₁} hk hlt => ?_, fun {k p' t₁} hk => ?_, fun {k p' t₁} hk hk' => ?_,
    conserved_of_total g.mint (fun i hi => ?_) ?_ hothers, fun mint hne => ?_⟩
  · obtain rfl : k = V := by
      by_contra hV
      exact Nat.not_lt.2 (h.amount_le hV) hlt
    rw [h.held] at hk
    cases hk
    exact ⟨g, h.group, hns, htm, .inr ⟨h.vaultAddress, .inr hset⟩⟩
  · by_cases hV : k = V
    · subst hV
      exact .inr ⟨hVnone, hset, _, h.vaultAddress⟩
    · exact .inl (kept_of_holder (h.holder hV) hk)
  · have hV : k ≠ V := by
      rintro rfl
      rw [hVnone] at hk'
      cases hk'
    have := h.holder hV
    rw [hk, hk'] at this
    cases this
  · have hi' := h.changed_ofMint htm hi
    refine ⟨hi', fun mint hm => ?_⟩
    have hV : i ≠ V := by
      rintro rfl
      obtain ⟨p', t', ht', -⟩ := hm
      rw [hVnone] at ht'
      cases ht'
    exact ofMint_of_holder (h.holder hV) hi' hm
  · have := h.total
    omega
  · rcases hburn with rfl | ⟨a, rest, rfl, hsig, hcr, h0⟩
    · refine absurd ?_ hne
      by_cases hm : mint = g.mint
      · subst hm
        simpa using hsupply
      · exact hothers mint hm
    · refine ⟨a, rest, g, rfl, hsig, h.group, hcr, ?_, h0⟩
      by_contra hm
      exact hne (hothers mint (Ne.symm hm))

end

theorem TokenStep.rules (h : TokenStep E ctx L L' c) : TokenRules E ctx c L L' := by
  cases h with
  | still ht hm => exact .of_still ht hm
  | opened hc hV hnone ht hm => exact .of_opened hc hV hnone ht hm
  | paid hg hns hs hd hne htm htm' hle hlt hwho ht hm =>
    exact .of_paid hs hd hne hle hlt ht hg hns htm htm' hwho hm
  | settled h hns htm hset hburn => exact .of_settled h hns htm hset hburn

/-- In every run, whoever calls and with whatever accounts: only its owner's deposit or the
settlement of its group takes tokens from an account, and what one mint's balances lose its supply
loses. -/
theorem tokens_authorized (hr : Reached E h s) : ∀ e ∈ h, ∀ ctx c events,
    e.act = .call ctx c events → TokenRules E ctx c e.pre.ledger e.post.ledger := by
  intro e he ctx c events hact
  obtain ⟨hstep, h', hpre⟩ := hr.mem he
  rw [hact] at hstep
  cases hstep with
  | call hex =>
    have hL := (Reached.inv hpre).toLayout
    exact ((execute_effect hL hex).tokenStep hL).rules

/-- Wallet 1 pays its deposit when it joins. -/
theorem tokens_authorized_joined : ∃ h s e ctx c events, Reached symbolic h s ∧ e ∈ h ∧
    e.act = .call ctx c events ∧ c.joins Demo.G (.wallet 1) ∧
    e.post.amount (Demo.token 1) < e.pre.amount (Demo.token 1) ∧
    TokenRules symbolic ctx c e.pre.ledger e.post.ledger := by
  obtain ⟨h, s, hr, hs⟩ := replay_exists Demo.joined (world_genesis 10000 100) (fun h _ =>
    h.any fun e => decide (Did (Call.joins Demo.G (.wallet 1)) e) &&
      decide (e.post.amount (Demo.token 1) < e.pre.amount (Demo.token 1))) (by decide +kernel)
  simp only [List.any_eq_true, Bool.and_eq_true, decide_eq_true_eq] at hs
  obtain ⟨e, he, hjoin, hlt⟩ := hs
  unfold Did at hjoin
  cases hact : e.act with
  | outside =>
    rw [hact] at hjoin
    exact hjoin.elim
  | call ctx c events =>
    rw [hact] at hjoin
    exact ⟨h, s, e, ctx, c, events, hr, he, hact, hjoin, hlt,
      tokens_authorized hr e he ctx c events hact⟩

end SafeNudge
