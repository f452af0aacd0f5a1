import SafeNudge.Effect.Closing
import SafeNudge.Effect.Membership
import SafeNudge.Effect.Settlement
import SafeNudge.Model.Run

/-!
# Where the accounts are

`Layout E L`: every account of the program is at its canonical address, belongs to a live group and
has fields in range, and an address derived from the program holds nothing else. The lemmas say
that each kind of write keeps it: `writeGroup`, `createRecord`, `amounts`, `settle` and so on. An
instruction is one or more such writes.
-/

namespace SafeNudge

open Lib Function

variable {K : Type} [DecidableEq K] {E : Env K}

/-- The fields of a live group. -/
structure GroupConfig.Ok (E : Env K) (G : K) (g : GroupConfig K) : Prop where
  address : E.findProgramAddress (.group g.groupCode) = some (G, g.bump)
  creator : E.canSign g.creator = true
  payer : E.canSign g.rentPayer = true
  status : g.status = STATUS_OPEN ∨ g.status = STATUS_ACTIVE ∨ g.isSettled
  deposit : 0 < g.depositAmount
  frequency : g.frequency ≤ MAX_FREQUENCY E
  periods : 1 ≤ g.totalPeriods ∧ g.totalPeriods ≤ 52
  size : 2 ≤ g.maxMembers ∧ g.maxMembers ≤ 10
  room : g.currentMembers ≤ g.maxMembers
  active : g.status = STATUS_ACTIVE → 2 ≤ g.currentMembers ∧ ∃ c, g.cycleEnd E = .ok c

/-- A mint `create_group` accepts. -/
def Ledger.SupportedMint (E : Env K) (L : Ledger K) (k : K) : Prop :=
  ∃ p m, L.mint k = some (p, m) ∧ requireSupportedMint E k p m = .ok ()

structure Layout (E : Env K) (L : Ledger K) : Prop where
  group : ∀ {G g}, L.group G = some g → g.Ok E G
  vault : ∀ {G g}, L.group G = some g → ∃ V, E.findProgramAddress (.vault G) = some (V, g.vaultBump) ∧
    (¬g.isSettled → ∃ p t, L.token V = some (p, t) ∧ t.mint = g.mint)
  mint : ∀ {G g}, L.group G = some g → L.SupportedMint E g.mint
  record : ∀ {k r}, L.record k = some r → r.Placed E k ∧ 0 < r.totalDeposited ∧
    ∃ g, L.group r.group = some g
  gate : ∀ {k j}, L.gate k = some j → (j.authority ≠ E.systemProgram ∧ j.authority ≠ E.programId) ∧
    ∃ G g b, L.group G = some g ∧ E.findProgramAddress (.join G) = some (k, b)
  tally : ∀ {k t}, L.tally k = some t → E.canSign t.rentPayer = true ∧ t.joins ≠ 0 ∧
    ∃ G M b, E.findProgramAddress (.tally G M) = some (k, b)
  /-- A token account at a derived address is the vault of a live group, not yet settled. -/
  token : ∀ {seeds b k p t}, E.createProgramAddress seeds b = some k → L.token k = some (p, t) →
    t.owner = k ∧ ∃ G g, seeds = .vault G ∧ b = g.vaultBump ∧ L.group G = some g ∧ ¬g.isSettled
  derived : ∀ {seeds b k}, E.createProgramAddress seeds b = some k →
    L.vacant k ∨ (L.group k).isSome ∨ (L.record k).isSome ∨ (L.gate k).isSome ∨
      (L.tally k).isSome ∨ (L.token k).isSome

namespace Layout

variable {L : Ledger K}

theorem selfOwned (h : Layout E L) : L.SelfOwned E := fun hk ht => (h.token hk ht).1

theorem placed (h : Layout E L) {k : K} {r : MemberRecord K} (hr : L.record k = some r) :
    r.Placed E k := (h.record hr).1

/-- A record found at a member address is that member's record of that group. -/
theorem record_eq (h : Layout E L) {k G M : K} {b : UInt8} {r : MemberRecord K}
    (hr : L.record k = some r) (hk : E.createProgramAddress (.member G M) b = some k) :
    r.group = G ∧ r.member = M := by
  have := (E.createProgramAddress_inj (Env.findProgramAddress_create (h.placed hr).address) hk).1
  simpa using this

/-- The token account of a key that signs is not at a derived address. -/
theorem ne_derived (h : Layout E L) {k k' : K} {seeds : Seeds K} {b : UInt8} {p : TokenProgram}
    {t : TokenAccount K} (ht : L.token k = some (p, t)) (ho : E.canSign t.owner = true)
    (hk : E.createProgramAddress seeds b = some k') : k' ≠ k := by
  rintro rfl
  exact Env.ne_of_canSign hk ho (h.selfOwned hk ht)

/-- Lamports do not matter to the layout. -/
theorem lamports (h : Layout E L) (l : K → Nat) : Layout E { L with lamports := l } :=
  ⟨h.group, h.vault, h.mint, h.record, h.gate, h.tally, h.token, h.derived⟩

/-! ## Groups -/

/-- A group changes, but not what it is settled by, its mint, its vault and its status class. -/
theorem writeGroup (h : Layout E L) {G : K} {g g' : GroupConfig K} (hg : L.group G = some g)
    (hok : g'.Ok E G) (hv : g'.vaultBump = g.vaultBump) (hm : g'.mint = g.mint)
    (hs : g'.isSettled ↔ g.isSettled) :
    Layout E { L with group := update L.group G (some g') } := by
  have key : ∀ {G₁ g₁}, update L.group G (some g') G₁ = some g₁ →
      ∃ g₂, L.group G₁ = some g₂ ∧ g₁.vaultBump = g₂.vaultBump ∧ g₁.mint = g₂.mint ∧
        (g₁.isSettled ↔ g₂.isSettled) ∧ g₁.Ok E G₁ := by
    intro G₁ g₁ h₁
    by_cases he : G₁ = G
    · subst he
      rw [update_self] at h₁
      cases h₁
      exact ⟨g, hg, hv, hm, hs, hok⟩
    · rw [update_of_ne he] at h₁
      exact ⟨g₁, h₁, rfl, rfl, .rfl, h.group h₁⟩
  have back : ∀ {G₁ g₁}, L.group G₁ = some g₁ → ∃ g₂, update L.group G (some g') G₁ = some g₂ ∧
      g₂.vaultBump = g₁.vaultBump ∧ (g₂.isSettled ↔ g₁.isSettled) := by
    intro G₁ g₁ h₁
    by_cases he : G₁ = G
    · subst he
      obtain rfl : g = g₁ := by simpa [hg] using h₁
      exact ⟨g', update_self .., hv, hs⟩
    · exact ⟨g₁, by rw [update_of_ne he]; exact h₁, rfl, .rfl⟩
  refine ⟨fun h₁ => (key h₁).elim fun _ h₂ => h₂.2.2.2.2, fun h₁ => ?_, fun h₁ => ?_, fun hr => ?_,
    fun hj => ?_, h.tally, fun hk ht => ?_, fun hk => ?_⟩
  · obtain ⟨g₂, h₂, hv₂, hm₂, hs₂, -⟩ := key h₁
    obtain ⟨V, hV, ht⟩ := h.vault h₂
    rw [hv₂, hm₂, hs₂]
    exact ⟨V, hV, ht⟩
  · obtain ⟨g₂, h₂, -, hm₂, -, -⟩ := key h₁
    rw [hm₂]
    exact h.mint h₂
  · obtain ⟨hp, h0, g₁, h₁⟩ := h.record hr
    obtain ⟨g₂, h₂, -⟩ := back h₁
    exact ⟨hp, h0, g₂, h₂⟩
  · obtain ⟨ha, G₁, g₁, b, h₁, hb⟩ := h.gate hj
    obtain ⟨g₂, h₂, -⟩ := back h₁
    exact ⟨ha, G₁, g₂, b, h₂, hb⟩
  · obtain ⟨ho, G₁, g₁, rfl, rfl, h₁, hs₁⟩ := h.token hk ht
    obtain ⟨g₂, h₂, hb₂, hs₂⟩ := back h₁
    exact ⟨ho, G₁, g₂, rfl, hb₂.symm, h₂, by rwa [hs₂]⟩
  · rcases h.derived hk with hv | hg₁ | hrest
    · exact .inl hv
    · obtain ⟨g₁, h₁⟩ := Option.isSome_iff_exists.1 hg₁
      obtain ⟨g₂, h₂, -⟩ := back h₁
      exact .inr (.inl (Option.isSome_iff_exists.2 ⟨g₂, h₂⟩))
    · exact .inr (.inr hrest)

/-! ## Records -/

/-- An address holds what it held, or what was written to it. -/
private theorem derived_of (h : Layout E L) {L' : Ledger K} {seeds : Seeds K} {b : UInt8} {k : K}
    (hk : E.createProgramAddress seeds b = some k)
    (hv : L.vacant k → L'.vacant k) (hg : (L.group k).isSome → (L'.group k).isSome)
    (hr : (L.record k).isSome → (L'.record k).isSome) (hj : (L.gate k).isSome → (L'.gate k).isSome)
    (ht : (L.tally k).isSome → (L'.tally k).isSome)
    (hm : (L.token k).isSome → (L'.token k).isSome) :
    L'.vacant k ∨ (L'.group k).isSome ∨ (L'.record k).isSome ∨ (L'.gate k).isSome ∨
      (L'.tally k).isSome ∨ (L'.token k).isSome :=
  (h.derived hk).imp hv (.imp hg (.imp hr (.imp hj (.imp ht hm))))

theorem createRecord (h : Layout E L) {k : K} {r : MemberRecord K} {g : GroupConfig K}
    (hp : r.Placed E k) (h0 : 0 < r.totalDeposited) (hg : L.group r.group = some g) :
    Layout E { L with
      record := update L.record k (some r)
      vacant := update L.vacant k False } := by
  refine ⟨h.group, h.vault, h.mint, fun {k' r'} hr => ?_, h.gate, h.tally, h.token, fun {_ _ k'} hk => ?_⟩
  · by_cases he : k' = k
    · subst he
      obtain rfl : r = r' := by simpa using hr
      exact ⟨hp, h0, g, hg⟩
    · exact h.record (by simpa [update_of_ne he] using hr)
  · by_cases he : k' = k
    · subst he
      exact .inr (.inr (.inl (by simp)))
    · exact h.derived_of hk (by simp [update_of_ne he]) id (by simp [update_of_ne he]) id id id

theorem writeRecord (h : Layout E L) {k : K} {r : MemberRecord K} (hr : L.record k = some r)
    (r' : MemberRecord K) (hp : r'.Placed E k) (h0 : 0 < r'.totalDeposited) (hg : r'.group = r.group) :
    Layout E { L with record := update L.record k (some r') } := by
  refine ⟨h.group, h.vault, h.mint, fun {k₁ r₁} hr₁ => ?_, h.gate, h.tally, h.token,
    fun {_ _ k₁} hk => ?_⟩
  · by_cases he : k₁ = k
    · subst he
      obtain rfl : r' = r₁ := by simpa using hr₁
      obtain ⟨-, -, g, hg'⟩ := h.record hr
      exact ⟨hp, h0, g, by rw [hg, hg']⟩
    · exact h.record (by simpa [update_of_ne he] using hr₁)
  · refine h.derived_of hk id id (fun hs => ?_) id id id
    by_cases he : k₁ = k
    · subst he
      simp
    · simpa [update_of_ne he] using hs

theorem removeRecord (h : Layout E L) (k : K) :
    Layout E { L with
      record := update L.record k none
      vacant := update L.vacant k True } := by
  refine ⟨h.group, h.vault, h.mint, fun {k₁ r₁} hr₁ => ?_, h.gate, h.tally, h.token,
    fun {_ _ k₁} hk => ?_⟩
  · by_cases he : k₁ = k
    · subst he
      simp at hr₁
    · exact h.record (by simpa [update_of_ne he] using hr₁)
  · by_cases he : k₁ = k
    · subst he
      exact .inl (by simp)
    · exact h.derived_of hk (by simp [update_of_ne he]) id (by simp [update_of_ne he]) id id id

/-! ## Gates and tallies -/

theorem createGate (h : Layout E L) {k G : K} {j : JoinGate K} {g : GroupConfig K} {b : UInt8}
    (hg : L.group G = some g) (hb : E.findProgramAddress (.join G) = some (k, b))
    (ha : j.authority ≠ E.systemProgram ∧ j.authority ≠ E.programId) :
    Layout E { L with
      gate := update L.gate k (some j)
      vacant := update L.vacant k False } := by
  refine ⟨h.group, h.vault, h.mint, h.record, fun {k₁ j₁} hj => ?_, h.tally, h.token,
    fun {_ _ k₁} hk => ?_⟩
  · by_cases he : k₁ = k
    · subst he
      obtain rfl : j = j₁ := by simpa using hj
      exact ⟨ha, G, g, b, hg, hb⟩
    · exact h.gate (by simpa [update_of_ne he] using hj)
  · by_cases he : k₁ = k
    · subst he
      exact .inr (.inr (.inr (.inl (by simp))))
    · exact h.derived_of hk (by simp [update_of_ne he]) id id (by simp [update_of_ne he]) id id

theorem putTally (h : Layout E L) {k G M : K} {b : UInt8} (t : JoinTally K)
    (hb : E.findProgramAddress (.tally G M) = some (k, b)) (hp : E.canSign t.rentPayer = true)
    (h0 : t.joins ≠ 0) :
    Layout E { L with
      tally := update L.tally k (some t)
      vacant := update L.vacant k False } := by
  refine ⟨h.group, h.vault, h.mint, h.record, h.gate, fun {k₁ t₁} ht => ?_, h.token,
    fun {_ _ k₁} hk => ?_⟩
  · by_cases he : k₁ = k
    · subst he
      obtain rfl : t = t₁ := by simpa using ht
      exact ⟨hp, h0, G, M, b, hb⟩
    · exact h.tally (by simpa [update_of_ne he] using ht)
  · by_cases he : k₁ = k
    · subst he
      exact .inr (.inr (.inr (.inr (.inl (by simp)))))
    · exact h.derived_of hk (by simp [update_of_ne he]) id id id (by simp [update_of_ne he]) id

theorem removeTally (h : Layout E L) (k : K) :
    Layout E { L with
      tally := update L.tally k none
      vacant := update L.vacant k True } := by
  refine ⟨h.group, h.vault, h.mint, h.record, h.gate, fun {k₁ t₁} ht => ?_, h.token,
    fun {_ _ k₁} hk => ?_⟩
  · by_cases he : k₁ = k
    · subst he
      simp at ht
    · exact h.tally (by simpa [update_of_ne he] using ht)
  · by_cases he : k₁ = k
    · subst he
      exact .inl (by simp)
    · exact h.derived_of hk (by simp [update_of_ne he]) id id id (by simp [update_of_ne he]) id

/-! ## Tokens -/

/-- A token account without its amount. -/
def holder (x : TokenProgram × TokenAccount K) : TokenProgram × K × K := (x.1, x.2.mint, x.2.owner)

/-- Token amounts do not matter to the layout. -/
theorem amounts (h : Layout E L) {tok : K → Option (TokenProgram × TokenAccount K)}
    (ht : ∀ k, (tok k).map holder = (L.token k).map holder) : Layout E { L with token := tok } := by
  have hs : ∀ k, (tok k).isSome = (L.token k).isSome := by
    intro k
    have := congrArg Option.isSome (ht k)
    simpa using this
  refine ⟨h.group, fun {G g} hg => ?_, h.mint, h.record, h.gate, h.tally, fun {_ _ k p t} hk htk => ?_,
    fun {_ _ k} hk => ?_⟩
  · obtain ⟨V, hV, hv⟩ := h.vault hg
    refine ⟨V, hV, fun hns => ?_⟩
    obtain ⟨p, t, htV, hm⟩ := hv hns
    have := ht V
    rw [htV, Option.map_some, Option.map_eq_some_iff] at this
    obtain ⟨⟨p', t'⟩, ht', he⟩ := this
    simp only [holder, Prod.mk.injEq] at he
    exact ⟨p', t', ht', he.2.1.trans hm⟩
  · change tok k = some (p, t) at htk
    have := ht k
    rw [htk, Option.map_some, eq_comm, Option.map_eq_some_iff] at this
    obtain ⟨⟨p', t'⟩, ht', he⟩ := this
    simp only [holder, Prod.mk.injEq] at he
    obtain ⟨ho, hrest⟩ := h.token hk ht'
    exact ⟨he.2.2 ▸ ho, hrest⟩
  · exact h.derived_of hk id id id id id (by simp [hs])

/-! ## Creating, settling and closing a group -/

theorem createGroup (h : Layout E L) {G V : K} {g : GroupConfig K} {p : TokenProgram}
    (hG : L.group G = none) (hok : g.Ok E G) (hns : ¬g.isSettled)
    (hV : E.findProgramAddress (.vault G) = some (V, g.vaultBump)) (hm : L.SupportedMint E g.mint) :
    Layout E { L with
      group := update L.group G (some g)
      token := update L.token V (some (p, { mint := g.mint, owner := V, amount := 0 }))
      vacant := update (update L.vacant G False) V False } := by
  have hVc := Env.findProgramAddress_create hV
  have grow : ∀ {G₁ g₁}, L.group G₁ = some g₁ → update L.group G (some g) G₁ = some g₁ := by
    intro G₁ g₁ h₁
    have : G₁ ≠ G := by rintro rfl; simp [hG] at h₁
    rw [update_of_ne this, h₁]
  refine ⟨fun {G₁ g₁} h₁ => ?_, fun {G₁ g₁} h₁ => ?_, fun {G₁ g₁} h₁ => ?_, fun hr => ?_, fun hj => ?_,
    h.tally, fun {seeds b k p₁ t₁} hk ht => ?_, fun {_ _ k} hk => ?_⟩
  · by_cases he : G₁ = G
    · subst he
      obtain rfl : g = g₁ := by simpa using h₁
      exact hok
    · exact h.group (by simpa [update_of_ne he] using h₁)
  · by_cases he : G₁ = G
    · subst he
      obtain rfl : g = g₁ := by simpa using h₁
      exact ⟨V, hV, fun _ => ⟨p, _, update_self .., rfl⟩⟩
    · obtain ⟨V₁, hV₁, ht₁⟩ := h.vault (by simpa [update_of_ne he] using h₁)
      have hne : V₁ ≠ V :=
        Env.address_ne (Env.findProgramAddress_create hV₁) hVc (by simpa using he)
      exact ⟨V₁, hV₁, fun hs => by simpa [update_of_ne hne] using ht₁ hs⟩
  · by_cases he : G₁ = G
    · subst he
      obtain rfl : g = g₁ := by simpa using h₁
      exact hm
    · exact h.mint (by simpa [update_of_ne he] using h₁)
  · obtain ⟨hp, h0, g₁, h₁⟩ := h.record hr
    exact ⟨hp, h0, g₁, grow h₁⟩
  · obtain ⟨ha, G₁, g₁, b, h₁, hb⟩ := h.gate hj
    exact ⟨ha, G₁, g₁, b, grow h₁, hb⟩
  · by_cases he : k = V
    · subst he
      obtain ⟨rfl, rfl⟩ : p = p₁ ∧ ({ mint := g.mint, owner := k, amount := 0 } : TokenAccount K) = t₁ := by
        simpa using ht
      obtain ⟨hseeds, hb⟩ := E.createProgramAddress_inj hk hVc
      exact ⟨rfl, G, g, hseeds, hb, update_self .., hns⟩
    · obtain ⟨ho, G₁, g₁, hseeds, hb, h₁, hs⟩ := h.token hk (by simpa [update_of_ne he] using ht)
      exact ⟨ho, G₁, g₁, hseeds, hb, grow h₁, hs⟩
  · by_cases he : k = G
    · subst he
      exact .inr (.inl (by simp))
    · by_cases he' : k = V
      · subst he'
        exact .inr (.inr (.inr (.inr (.inr (by simp)))))
      · exact h.derived_of hk (by simp [update_of_ne he, update_of_ne he'])
          (by simp [update_of_ne he]) id id id (by simp [update_of_ne he'])

/-- A settlement: the group's status ends and its vault closes. -/
theorem settle (h : Layout E L) {G V : K} {g g' : GroupConfig K}
    {tok : K → Option (TokenProgram × TokenAccount K)} {n : UInt64} (hg : L.group G = some g)
    (hok : g'.Ok E G) (hv : g'.vaultBump = g.vaultBump) (hm : g'.mint = g.mint) (hs : g'.isSettled)
    (hV : E.createProgramAddress (.vault G) g.vaultBump = some V)
    (ht : ∀ k, (tok k).map holder = (L.token k).map holder) :
    Layout E { L with
      group := update L.group G (some g')
      token := update tok V none
      mint := burnedMint L.mint g.mint n
      vacant := update L.vacant V True } := by
  have h' := h.amounts ht
  have key : ∀ {G₁ g₁}, update L.group G (some g') G₁ = some g₁ →
      ∃ g₂, L.group G₁ = some g₂ ∧ g₁.vaultBump = g₂.vaultBump ∧ g₁.mint = g₂.mint ∧
        g₁.Ok E G₁ ∧ (G₁ = G ∧ g₁.isSettled ∨ G₁ ≠ G ∧ g₁ = g₂) := by
    intro G₁ g₁ h₁
    by_cases he : G₁ = G
    · subst he
      rw [update_self] at h₁
      cases h₁
      exact ⟨g, hg, hv, hm, hok, .inl ⟨rfl, hs⟩⟩
    · rw [update_of_ne he] at h₁
      exact ⟨g₁, h₁, rfl, rfl, h.group h₁, .inr ⟨he, rfl⟩⟩
  have back : ∀ {G₁ g₁}, L.group G₁ = some g₁ → ∃ g₂, update L.group G (some g') G₁ = some g₂ := by
    intro G₁ g₁ h₁
    by_cases he : G₁ = G
    · subst he
      exact ⟨g', update_self ..⟩
    · exact ⟨g₁, by rw [update_of_ne he]; exact h₁⟩
  refine ⟨fun h₁ => (key h₁).elim fun _ h₂ => h₂.2.2.2.1, fun {G₁ g₁} h₁ => ?_, fun {G₁ g₁} h₁ => ?_,
    fun hr => ?_, fun hj => ?_, h.tally, fun {seeds b k p₁ t₁} hk ht => ?_, fun {seeds b k} hk => ?_⟩
  · obtain ⟨g₂, h₂, hv₂, hm₂, -, hc⟩ := key h₁
    obtain ⟨V₁, hV₁, ht₁⟩ := h'.vault h₂
    rw [hv₂, hm₂]
    refine ⟨V₁, hV₁, fun hns => ?_⟩
    rcases hc with ⟨-, hs₁⟩ | ⟨hne, rfl⟩
    · exact absurd hs₁ hns
    · have hVV : V₁ ≠ V := Env.address_ne (Env.findProgramAddress_create hV₁) hV (by simpa using hne)
      simpa [update_of_ne hVV] using ht₁ hns
  · obtain ⟨g₂, h₂, -, hm₂, -⟩ := key h₁
    obtain ⟨p, m, hmint, hsup⟩ := h.mint h₂
    rw [hm₂]
    by_cases he : g₂.mint = g.mint
    · refine ⟨p, { m with supply := m.supply - n }, ?_, hsup⟩
      simp [burnedMint, he, he ▸ hmint]
    · exact ⟨p, m, by simpa [burnedMint, update_of_ne he] using hmint, hsup⟩
  · obtain ⟨hp, h0, g₁, h₁⟩ := h.record hr
    obtain ⟨g₂, h₂⟩ := back h₁
    exact ⟨hp, h0, g₂, h₂⟩
  · obtain ⟨ha, G₁, g₁, b, h₁, hb⟩ := h.gate hj
    obtain ⟨g₂, h₂⟩ := back h₁
    exact ⟨ha, G₁, g₂, b, h₂, hb⟩
  · have hkV : k ≠ V := by
      rintro rfl
      simp at ht
    obtain ⟨ho, G₁, g₁, rfl, rfl, h₁, hns⟩ := h'.token hk (by simpa [update_of_ne hkV] using ht)
    have hne : G₁ ≠ G := by
      rintro rfl
      obtain rfl : g₁ = g := by simpa [hg] using h₁.symm
      exact hkV (Option.some.inj (hk.symm.trans hV))
    exact ⟨ho, G₁, g₁, rfl, rfl, by simpa [update_of_ne hne] using h₁, hns⟩
  · by_cases he : k = V
    · subst he
      exact .inl (by simp)
    · refine h'.derived_of hk (by simp [update_of_ne he]) (fun hg₁ => ?_) id id id
        (by simp [update_of_ne he])
      obtain ⟨g₁, h₁⟩ := Option.isSome_iff_exists.1 hg₁
      obtain ⟨g₂, h₂⟩ := back h₁
      exact Option.isSome_iff_exists.2 ⟨g₂, h₂⟩

theorem closeGroup (h : Layout E L) {G J : K} {g : GroupConfig K} {b : UInt8}
    (hg : L.group G = some g) (hs : g.isSettled)
    (hJ : E.findProgramAddress (.join G) = some (J, b))
    (hr : ∀ {k r}, L.record k = some r → r.group ≠ G) :
    Layout E { L with
      group := update L.group G none
      gate := update L.gate J none
      vacant := update (update L.vacant J True) G True } := by
  have shrink : ∀ {G₁ g₁}, update L.group G none G₁ = some g₁ → G₁ ≠ G ∧ L.group G₁ = some g₁ := by
    intro G₁ g₁ h₁
    have hne : G₁ ≠ G := by rintro rfl; simp at h₁
    exact ⟨hne, by simpa [update_of_ne hne] using h₁⟩
  refine ⟨fun h₁ => h.group (shrink h₁).2, fun h₁ => h.vault (shrink h₁).2,
    fun h₁ => h.mint (shrink h₁).2, fun {k r} hrec => ?_, fun {k j} hj => ?_, h.tally,
    fun {seeds b k p t} hk ht => ?_, fun {_ _ k} hk => ?_⟩
  · obtain ⟨hp, h0, g₁, h₁⟩ := h.record hrec
    exact ⟨hp, h0, g₁, by simpa [update_of_ne (hr hrec)] using h₁⟩
  · have hkJ : k ≠ J := by rintro rfl; simp at hj
    obtain ⟨ha, G₁, g₁, b₁, h₁, hb₁⟩ := h.gate (by simpa [update_of_ne hkJ] using hj)
    have hne : G₁ ≠ G := by
      rintro rfl
      rw [hJ] at hb₁
      exact hkJ (Prod.mk.inj (Option.some.inj hb₁)).1.symm
    exact ⟨ha, G₁, g₁, b₁, by simpa [update_of_ne hne] using h₁, hb₁⟩
  · obtain ⟨ho, G₁, g₁, rfl, rfl, h₁, hns⟩ := h.token hk ht
    have hne : G₁ ≠ G := by
      rintro rfl
      obtain rfl : g₁ = g := by simpa [hg] using h₁.symm
      exact hns hs
    exact ⟨ho, G₁, g₁, rfl, rfl, by simpa [update_of_ne hne] using h₁, hns⟩
  · by_cases he : k = G
    · subst he
      exact .inl (by simp)
    · by_cases he' : k = J
      · subst he'
        exact .inl (by simp [update_of_ne he])
      · exact h.derived_of hk (by simp [update_of_ne he, update_of_ne he'])
          (by simp [update_of_ne he]) id (by simp [update_of_ne he']) id id

end Layout

/-- An address derived from the program is unused, or holds the account its seeds are for. -/
theorem Layout.vacant_or {L : Ledger K} (hL : Layout E L) {seeds : Seeds K} {b : UInt8} {k : K}
    (hk : E.createProgramAddress seeds b = some k) :
    L.vacant k ∨ (∃ code g, seeds = .group code ∧ L.group k = some g) ∨
      (∃ G g p t, seeds = .vault G ∧ L.token k = some (p, t) ∧ L.group G = some g) ∨
      (∃ G M r, seeds = .member G M ∧ L.record k = some r ∧ r.group = G) ∨
      (∃ G j g, seeds = .join G ∧ L.gate k = some j ∧ L.group G = some g) ∨
      ∃ G M t b', seeds = .tally G M ∧ L.tally k = some t ∧
        E.findProgramAddress (.tally G M) = some (k, b') := by
  have hseeds : ∀ {seeds' b'}, E.findProgramAddress seeds' = some (k, b') → seeds = seeds' :=
    fun h => (E.createProgramAddress_inj hk (Env.findProgramAddress_create h)).1
  rcases hL.derived hk with hv | hg | hr | hj | hT | hV
  · exact .inl hv
  · obtain ⟨g, hg⟩ := Option.isSome_iff_exists.1 hg
    exact .inr (.inl ⟨_, g, hseeds (hL.group hg).address, hg⟩)
  · obtain ⟨r, hr⟩ := Option.isSome_iff_exists.1 hr
    exact .inr (.inr (.inr (.inl ⟨_, _, r, hseeds (hL.placed hr).address, hr, rfl⟩)))
  · obtain ⟨j, hj⟩ := Option.isSome_iff_exists.1 hj
    obtain ⟨-, G, g, b', hg, hJ⟩ := hL.gate hj
    exact .inr (.inr (.inr (.inr (.inl ⟨G, j, g, hseeds hJ, hj, hg⟩))))
  · obtain ⟨t, hT⟩ := Option.isSome_iff_exists.1 hT
    obtain ⟨-, -, G, M, b', hM⟩ := hL.tally hT
    exact .inr (.inr (.inr (.inr (.inr ⟨G, M, t, b', hseeds hM, hT, hM⟩))))
  · obtain ⟨⟨p, t⟩, hV⟩ := Option.isSome_iff_exists.1 hV
    obtain ⟨-, G, g, hs, -, hg, -⟩ := hL.token hk hV
    exact .inr (.inr (.inl ⟨G, g, p, t, hs, hV, hg⟩))

/-- Without a group its addresses are unused, those of its tallies apart. -/
theorem Layout.unused_or_tally {s : State K} (hL : Layout E s.ledger) {G k : K}
    (hG : s.group G = none) {seeds : Seeds K} {b : UInt8}
    (hk : E.createProgramAddress seeds b = some k) (hat : seeds.groupAt k = G) :
    s.account k = .system ∨ ∃ M t b', E.findProgramAddress (.tally G M) = some (k, b') ∧
      seeds = .tally G M ∧ s.tally k = some t := by
  have hnone : ∀ {g}, s.ledger.group G ≠ some g := by
    intro g hg
    rw [State.ledger_group, hG] at hg
    cases hg
  rcases hL.vacant_or hk with hv | ⟨code, g, rfl, hg⟩ | ⟨G', g, p, t, rfl, -, hg⟩ |
    ⟨G', M, r, rfl, hr, hrG⟩ | ⟨G', j, g, rfl, -, hg⟩ | ⟨G', M, t, b', rfl, hT, hM⟩
  · exact .inl hv
  · obtain rfl : k = G := hat
    exact absurd hg hnone
  · obtain rfl : G' = G := hat
    exact absurd hg hnone
  · obtain rfl : G' = G := hat
    obtain ⟨g, hg⟩ := (hL.record hr).2.2
    exact absurd (hrG ▸ hg) hnone
  · obtain rfl : G' = G := hat
    exact absurd hg hnone
  · obtain rfl : G' = G := hat
    exact .inr ⟨M, t, b', hM, rfl, hT⟩

/-! ## Steps of everything else -/

section
variable {s s' : State K}

/-- Nobody else writes accounts of the program, whatever is read from them. -/
theorem Outside.view (h : Outside E s s') {α : Type} (f : Account K → Option α)
    (hf : ∀ {a}, (f a).isSome → a.IsProgram) (k : K) : f (s'.account k) = f (s.account k) := by
  cases hfa : f (s.account k) with
  | some x =>
    have hp := hf (a := s.account k) (by simp [hfa])
    have ho : (s.account k).owner E = E.programId := by
      cases ha : s.account k <;> simp [ha, Account.IsProgram] at hp <;> rfl
    rw [(h.owned k ho).1, hfa]
  | none =>
    cases hfa' : f (s'.account k) with
    | none => rfl
    | some x =>
      rw [h.written k (hf (by simp [hfa']))] at hfa'
      rw [hfa] at hfa'
      cases hfa'

theorem Outside.group (h : Outside E s s') : s'.ledger.group = s.ledger.group :=
  funext <| h.view Account.groupConfig? fun {a} ha => by
    cases a <;> simp_all [Account.groupConfig?, Account.IsProgram]

theorem Outside.record (h : Outside E s s') : s'.ledger.record = s.ledger.record :=
  funext <| h.view Account.memberRecord? fun {a} ha => by
    cases a <;> simp_all [Account.memberRecord?, Account.IsProgram]

theorem Outside.gate (h : Outside E s s') : s'.ledger.gate = s.ledger.gate :=
  funext <| h.view Account.joinGate? fun {a} ha => by
    cases a <;> simp_all [Account.joinGate?, Account.IsProgram]

theorem Outside.tally (h : Outside E s s') : s'.ledger.tally = s.ledger.tally :=
  funext <| h.view Account.joinTally? fun {a} ha => by
    cases a <;> simp_all [Account.joinTally?, Account.IsProgram]

/-- A token account at a derived address only gains. -/
theorem Outside.token (h : Outside E s s') {seeds : Seeds K} {b : UInt8} {k : K}
    (hk : E.createProgramAddress seeds b = some k) {p : TokenProgram} {t : TokenAccount K}
    (ht : s.ledger.token k = some (p, t)) :
    ∃ n, t.amount ≤ n ∧ s'.ledger.token k = some (p, { t with amount := n }) := by
  obtain ⟨n, hn, ht'⟩ := (h.derived hk).2.2 p t (State.token_eq_some.1 ht)
  exact ⟨n, hn, State.token_eq_some.2 ht'⟩

theorem Outside.layout (h : Outside E s s') (hL : Layout E s.ledger) : Layout E s'.ledger := by
  refine ⟨fun hg => ?_, fun hg => ?_, fun hg => ?_, fun hr => ?_, fun hj => ?_, fun ht => ?_,
    fun {seeds b k p t} hk ht => ?_, fun {_ _ k} hk => ?_⟩
  · rw [h.group] at hg
    exact hL.group hg
  · rw [h.group] at hg
    obtain ⟨V, hV, hv⟩ := hL.vault hg
    refine ⟨V, hV, fun hns => ?_⟩
    obtain ⟨p, t, ht, hm⟩ := hv hns
    obtain ⟨n, -, ht'⟩ := h.token (Env.findProgramAddress_create hV) ht
    exact ⟨p, _, ht', hm⟩
  · rw [h.group] at hg
    obtain ⟨p, m, hm, hsup⟩ := hL.mint hg
    have := h.mint _ (by rw [State.mintAt_eq_some.1 hm]; exact hsup)
    cases ha : s'.account _ with
    | mint p' m' =>
      rw [ha] at this
      exact ⟨p', m', State.mintAt_eq_some.2 ha, this⟩
    | _ =>
      rw [ha] at this
      exact this.elim
  · rw [h.record] at hr
    rw [h.group]
    exact hL.record hr
  · rw [h.gate] at hj
    rw [h.group]
    exact hL.gate hj
  · rw [h.tally] at ht
    exact hL.tally ht
  · obtain ⟨p₀, t₀, ht₀⟩ : ∃ p₀ t₀, s.ledger.token k = some (p₀, t₀) := by
      obtain ⟨hg, hr, hj, hta, -⟩ := State.views_of_token ht
      rcases hL.derived hk with hv | hg' | hr' | hj' | ht' | ht'
      · have hv' := (h.derived hk).2.1 hv
        rw [State.token_eq_some.1 ht] at hv'
        cases hv'
      · rw [← h.group, State.ledger_group, hg] at hg'
        cases hg'
      · rw [← h.record, State.ledger_record, hr] at hr'
        cases hr'
      · rw [← h.gate, State.ledger_gate, hj] at hj'
        cases hj'
      · rw [← h.tally, State.ledger_tally, hta] at ht'
        cases ht'
      · obtain ⟨⟨p₀, t₀⟩, ht₀⟩ := Option.isSome_iff_exists.1 ht'
        exact ⟨p₀, t₀, ht₀⟩
    obtain ⟨n, -, ht'⟩ := h.token hk ht₀
    obtain ⟨rfl, rfl⟩ : p₀ = p ∧ { t₀ with amount := n } = t := by
      rw [ht] at ht'
      simpa [eq_comm] using ht'
    rw [h.group]
    obtain ⟨ho, hrest⟩ := hL.token hk ht₀
    exact ⟨ho, hrest⟩
  · rw [h.group, h.record, h.gate, h.tally]
    refine (hL.derived hk).imp (h.derived hk).2.1 (.imp id (.imp id (.imp id (.imp id fun ht => ?_))))
    obtain ⟨⟨p, t⟩, ht⟩ := Option.isSome_iff_exists.1 ht
    obtain ⟨n, -, ht'⟩ := h.token hk ht
    exact Option.isSome_iff_exists.2 ⟨_, ht'⟩

end

end SafeNudge
