import SafeNudge.Effect.Token
import SafeNudge.Instructions.Lifecycle

/-!
# Effects of `create_group`, `set_join_authority` and `start_cycle`

One structure for each instruction says what a successful run of it has checked and what the
ledger is afterwards; `createGroup_effect`, `setJoinAuthority_effect` and `startCycle_effect`
derive it from the handler.
-/

namespace SafeNudge

open Lib Function

variable {K : Type} [DecidableEq K]

/-- A key that signed the transaction. -/
def Signed (E : Env K) (ctx : Ctx K) (k : K) : Prop := k ∈ ctx.signers ∧ E.canSign k = true

/-- What `create_group` checks of its arguments. -/
structure CreateGroup.ArgsOk (E : Env K) (groupCode : String) (depositAmount : UInt64)
    (frequency totalPeriods maxMembers : UInt8) : Prop where
  code : groupCode.utf8ByteSize ≠ 0 ∧ groupCode.utf8ByteSize ≤ 32
  chars : groupCodeChars groupCode = true
  deposit : 0 < depositAmount
  frequency : frequency ≤ MAX_FREQUENCY E
  periods : 1 ≤ totalPeriods ∧ totalPeriods ≤ 52
  members : 2 ≤ maxMembers ∧ maxMembers ≤ 10

/-- The group `create_group` writes. -/
def CreateGroup.newGroup (a : CreateGroup K) (groupCode : String) (depositAmount : UInt64)
    (frequency totalPeriods maxMembers bump vaultBump : UInt8) : GroupConfig K where
  creator := a.creator
  rentPayer := a.rentPayer
  mint := a.mint
  depositAmount
  cycleStart := 0
  settledAt := 0
  frequency
  totalPeriods
  maxMembers
  currentMembers := 0
  status := STATUS_OPEN
  bump
  vaultBump
  reserved := .replicate 73 0
  groupCode

structure CreateGroup.Effect (E : Env K) (ctx : Ctx K) (a : CreateGroup K) (groupCode : String)
    (depositAmount : UInt64) (frequency totalPeriods maxMembers : UInt8) (L L' : Ledger K)
    (events : List (Event K)) : Prop where
  creator : Signed E ctx a.creator
  payer : Signed E ctx a.rentPayer
  args : CreateGroup.ArgsOk E groupCode depositAmount frequency totalPeriods maxMembers
  fresh : L.vacant a.groupConfig ∧ L.vacant a.vault
  unused : L.group a.groupConfig = none ∧ L.token a.vault = none
  post : ∃ p m bump vaultBump n₁ n₂,
    L.mint a.mint = some (p, m) ∧ requireSupportedMint E a.mint p m = .ok () ∧
    E.findProgramAddress (.group groupCode) = some (a.groupConfig, bump) ∧
    E.findProgramAddress (.vault a.groupConfig) = some (a.vault, vaultBump) ∧
    n₁ = topUp (ctx.rent.minimumBalance GROUP_CONFIG_SPACE) (L.lamports a.groupConfig) ∧
    n₂ = topUp (ctx.rent.minimumBalance TOKEN_ACCOUNT_SPACE) (L.lamports a.vault) ∧
    n₁ + n₂ ≤ L.lamports a.rentPayer ∧
    L' = { L with
      group := update L.group a.groupConfig (some (a.newGroup groupCode depositAmount frequency
        totalPeriods maxMembers bump vaultBump))
      token := update L.token a.vault (some (p, { mint := a.mint, owner := a.vault, amount := 0 }))
      vacant := update (update L.vacant a.groupConfig False) a.vault False
      lamports := moveLamports (moveLamports L.lamports a.rentPayer a.groupConfig n₁)
        a.rentPayer a.vault n₂ }
  events : events = [.groupCreated a.groupConfig a.creator a.rentPayer a.mint depositAmount
    totalPeriods maxMembers]

theorem createGroup_effect {E : Env K} {ctx : Ctx K} {a : CreateGroup K} {groupCode : String}
    {depositAmount : UInt64} {frequency totalPeriods maxMembers : UInt8} {s s' : State K}
    {events : List (Event K)}
    (h : createGroup E ctx a groupCode depositAmount frequency totalPeriods maxMembers s
      = .ok (s', events)) :
    CreateGroup.Effect E ctx a groupCode depositAmount frequency totalPeriods maxMembers
      s.ledger s'.ledger events := by
  simp only [createGroup, bind_eq_ok, require_eq_ok, requireSigner_eq_ok, loadMint_eq_ok,
    loadTokenProgram_eq_ok, requireCanonical_eq_ok, initAccount_eq_ok, initializeAccount_eq_ok,
    pure_eq_ok, exists_const, Prod.mk.injEq] at h
  obtain ⟨hc, hp, ⟨q, m⟩, hm, p, -, bump, hG, s₁, ⟨n₁, hn₁, hpG, hvG, -, hle₁, rfl⟩, vb, hV, s₂,
    ⟨n₂, hn₂, hpV, hvV, -, hle₂, rfl⟩, s₃, ⟨m', hm', -, rfl⟩, ⟨⟩, hsup, hcode, hchars, hdep, hfreq,
    hper, hmax, rfl, rfl⟩ := h
  have hm := State.mintAt_eq_some.1 hm
  have hGV : a.groupConfig ≠ a.vault :=
    Env.address_ne (Env.findProgramAddress_create hG) (Env.findProgramAddress_create hV) (by simp)
  have hvV : s.account a.vault = .system := by
    simpa [update_of_ne hGV.symm] using hvV
  have hmG : a.mint ≠ a.groupConfig := by rintro h; simp [h, hvG] at hm
  have hmV : a.mint ≠ a.vault := by rintro h; simp [h, hvV] at hm
  obtain ⟨rfl, rfl⟩ : q = p ∧ m = m' := by
    simpa [update_of_ne hmG, update_of_ne hmV, hm] using hm'
  refine ⟨hc, hp, ⟨hcode, hchars, hdep, hfreq, hper, hmax⟩, ⟨hvG, hvV⟩,
    ⟨(State.views_of_vacant hvG).1, (State.views_of_vacant hvV).2.2.2.2.1⟩, ⟨q, m, bump, vb, n₁, n₂,
    State.mintAt_eq_some.2 hm, hsup, hG, hV, hn₁, ?_, ?_, ?_⟩, rfl⟩
  · rw [hn₂]
    simp [moveLamports_of_ne _ _ hpV.symm hGV.symm]
  · simp only [State.lamports_set, State.lamports_transferLamports, moveLamports_src _ _ hpG] at hle₂
    simp only [State.ledger_lamports]
    omega
  · -- both addresses are written once in the end, so each creation acts on an unused address
    simp only [State.transferLamports_set, State.set_set, State.set_comm hGV]
    rw [State.ledger_create_group (by simpa [update_of_ne hGV] using hvG),
      State.ledger_create_token (by simpa using hvV)]
    simp only [State.ledger_transferLamports, update_comm hGV]
    rfl

structure SetJoinAuthority.Effect (E : Env K) (ctx : Ctx K) (a : SetJoinAuthority K)
    (authority : K) (L L' : Ledger K) (events : List (Event K)) (g : GroupConfig K) : Prop where
  creator : Signed E ctx a.creator
  payer : Signed E ctx a.rentPayer
  group : L.group a.groupConfig = some g
  address : ∃ b, E.findProgramAddress (.join a.groupConfig) = some (a.joinGate, b)
  fresh : L.vacant a.joinGate
  unused : L.gate a.joinGate = none
  isOpen : g.status = STATUS_OPEN
  empty : g.currentMembers = 0
  creator_eq : a.creator = g.creator
  payer_eq : a.rentPayer = g.rentPayer
  valid : authority ≠ E.systemProgram ∧ authority ≠ E.programId
  post : ∃ n, n = topUp (ctx.rent.minimumBalance JOIN_GATE_SPACE) (L.lamports a.joinGate) ∧
    n ≤ L.lamports a.rentPayer ∧
    L' = { L with
      gate := update L.gate a.joinGate (some { authority })
      vacant := update L.vacant a.joinGate False
      lamports := moveLamports L.lamports a.rentPayer a.joinGate n }
  events : events = [.joinAuthoritySet a.groupConfig a.creator authority]

theorem setJoinAuthority_effect {E : Env K} {ctx : Ctx K} {a : SetJoinAuthority K} {authority : K}
    {s s' : State K} {events : List (Event K)}
    (h : setJoinAuthority E ctx a authority s = .ok (s', events)) :
    ∃ g, SetJoinAuthority.Effect E ctx a authority s.ledger s'.ledger events g := by
  simp only [setJoinAuthority, bind_eq_ok, require_eq_ok, requireSigner_eq_ok,
    loadGroupConfig_eq_ok, requireCanonical_eq_ok, requireSeeds_eq_ok, initAccount_eq_ok,
    pure_eq_ok, exists_const, Prod.mk.injEq] at h
  obtain ⟨hc, hp, g, hg, b, hJ, s₁, ⟨n, hn, hpJ, hvJ, -, hle, rfl⟩, -, hst, hcm, hcr, hrp, hau,
    rfl, rfl⟩ := h
  refine ⟨g, hc, hp, hg, ⟨b, hJ⟩, hvJ, (State.views_of_vacant hvJ).2.2.1, hst, hcm, hcr, hrp, hau, ⟨n, hn, hle, ?_⟩, rfl⟩
  rw [State.set_set, State.ledger_create_gate (by simpa using hvJ)]
  rfl

structure StartCycle.Effect (E : Env K) (ctx : Ctx K) (a : StartCycle K) (L L' : Ledger K)
    (events : List (Event K)) (g g' : GroupConfig K) : Prop where
  creator : Signed E ctx a.creator
  group : L.group a.groupConfig = some g
  creator_eq : g.creator = a.creator
  isOpen : g.status = STATUS_OPEN
  members : 2 ≤ g.currentMembers
  group' : g' = { g with status := STATUS_ACTIVE, cycleStart := ctx.unixTimestamp }
  post : L' = { L with group := update L.group a.groupConfig (some g') }
  cycleEnd : ∃ c, g'.cycleEnd E = .ok c ∧
    events = [.cycleStarted a.groupConfig g'.currentMembers g'.cycleStart c]

theorem startCycle_effect {E : Env K} {ctx : Ctx K} {a : StartCycle K} {s s' : State K}
    {events : List (Event K)} (h : startCycle E ctx a s = .ok (s', events)) :
    ∃ g g', StartCycle.Effect E ctx a s.ledger s'.ledger events g g' := by
  simp only [startCycle, bind_eq_ok, require_eq_ok, requireSigner_eq_ok, loadGroupConfig_eq_ok,
    requireSeeds_eq_ok, pure_eq_ok, exists_const, Prod.mk.injEq] at h
  obtain ⟨hc, g, hg, -, hcr, hst, hm, c, hce, rfl, rfl⟩ := h
  exact ⟨g, _, hc, hg, hcr, hst, hm, rfl, State.ledger_write_group (by simp [hg]) _, c, hce, rfl⟩

end SafeNudge
