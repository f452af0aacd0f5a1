import SafeNudge.Model.Anchor
import SafeNudge.Model.Ledger
import SafeNudge.Model.Token

/-!
# Effects of the token-program calls and of `init`

Each lemma says what the ledger is after a call that succeeded, or when a call succeeds.
-/

namespace SafeNudge

open Lib

variable {K : Type} [DecidableEq K] {E : Env K} {ctx : Ctx K} {s s' : State K}

/-- A token account at a derived address is its own authority. -/
def Ledger.SelfOwned (E : Env K) (L : Ledger K) : Prop :=
  ∀ {seeds : Seeds K} {b : UInt8} {k : K} {p : TokenProgram} {t : TokenAccount K},
    E.createProgramAddress seeds b = some k → L.token k = some (p, t) → t.owner = k

/-- A member record is at its canonical address, and its two wallets are keys that sign. -/
structure MemberRecord.Placed (E : Env K) (k : K) (r : MemberRecord K) : Prop where
  address : E.findProgramAddress (.member r.group r.member) = some (k, r.bump)
  member : E.canSign r.member = true
  payer : E.canSign r.rentPayer = true

theorem State.addTokens_of {k : K} {p : TokenProgram} {t : TokenAccount K}
    (h : s.account k = .token p t) (n : UInt64) :
    s.addTokens k n = s.set k (.token p { t with amount := t.amount + n }) := by
  simp [addTokens, h]

theorem State.subTokens_of {k : K} {p : TokenProgram} {t : TokenAccount K}
    (h : s.account k = .token p t) (n : UInt64) :
    s.subTokens k n = s.set k (.token p { t with amount := t.amount - n }) := by
  simp [subTokens, h]

/-- The token map after `n` tokens moved from `src` (holding `t`) to `dst` (holding `t'`). -/
def movedTokens (tok : K → Option (TokenProgram × TokenAccount K)) (p : TokenProgram)
    (src dst : K) (t t' : TokenAccount K) (n : UInt64) :
    K → Option (TokenProgram × TokenAccount K) :=
  Function.update (Function.update tok src (some (p, { t with amount := t.amount - n })))
    dst (some (p, { t' with amount := t'.amount + n }))

theorem State.moveTokens_of {p p' : TokenProgram} {src dst : K} {t t' : TokenAccount K}
    (hs : s.account src = .token p t) (hd : s.account dst = .token p' t') (hne : src ≠ dst)
    (n : UInt64) :
    s.moveTokens src dst n = (s.set src (.token p { t with amount := t.amount - n })).set dst
      (.token p' { t' with amount := t'.amount + n }) := by
  have hd' : (s.set src (.token p { t with amount := t.amount - n })).account dst
      = .token p' t' := by
    simp [Function.update_of_ne hne.symm, hd]
  rw [moveTokens, if_neg hne, subTokens_of hs, addTokens_of hd']

theorem State.ledger_moveTokens {p : TokenProgram} {src dst : K} {t t' : TokenAccount K}
    (hs : s.account src = .token p t) (hd : s.account dst = .token p t') (hne : src ≠ dst)
    (n : UInt64) :
    (s.moveTokens src dst n).ledger =
      { s.ledger with token := movedTokens s.ledger.token p src dst t t' n } := by
  have hd' : (s.set src (.token p { t with amount := t.amount - n })).account dst
      = .token p t' := by
    simp [Function.update_of_ne hne.symm, hd]
  rw [moveTokens_of hs hd hne, ledger_write_token (by simp [token_eq_some.2 hd']),
    ledger_write_token (by simp [token_eq_some.2 hs])]
  simp [movedTokens]

/-- A transfer between two accounts: who must own what, and what moves. -/
theorem transferChecked_eq_ok {p : TokenProgram} {src mint dst authority : K} {n : UInt64}
    {d : UInt8} : transferChecked E ctx p src mint dst authority n d s = .ok s' ↔
      ∃ t t' q m, s.account src = .token p t ∧ s.account dst = .token p t' ∧
        s.account mint = .mint q m ∧ t.mint = mint ∧ t'.mint = mint ∧ m.decimals = d ∧
        t.owner = authority ∧
        ctx.refuses (.transferChecked (E.tokenKey p) src mint dst authority n) = false ∧
        n ≤ t.amount ∧ (src = dst ∨ t'.amount.toNat + n.toNat < 2 ^ 64) ∧
        s.moveTokens src dst n = s' := by
  simp only [transferChecked, bind_eq_ok, orThrow_eq_ok, require_eq_ok, pure_eq_ok, exists_const,
    State.tokenOf_eq_some]
  constructor
  · rintro ⟨t, ht, t', ht', ⟨q, m⟩, hm, ⟨h1, h2, h3⟩, h4, h5, h6, h7, h8⟩
    exact ⟨t, t', q, m, ht, ht', State.mintAt_eq_some.1 hm, h1, h2, h3, h4, h5, h6, h7, h8⟩
  · rintro ⟨t, t', q, m, ht, ht', hm, h1, h2, h3, h4, h5, h6, h7, h8⟩
    exact ⟨t, ht, t', ht', ⟨q, m⟩, State.mintAt_eq_some.2 hm, ⟨h1, h2, h3⟩, h4, h5, h6, h7, h8⟩

theorem burnChecked_eq_ok {p : TokenProgram} {account mint authority : K} {n : UInt64}
    {d : UInt8} : burnChecked E ctx p account mint authority n d s = .ok s' ↔
      ∃ t q m, s.account account = .token p t ∧ s.account mint = .mint q m ∧ t.mint = mint ∧
        m.decimals = d ∧ t.owner = authority ∧
        ctx.refuses (.burnChecked (E.tokenKey p) account mint authority n) = false ∧
        n ≤ t.amount ∧ n ≤ m.supply ∧
        (s.subTokens account n).set mint (.mint q { m with supply := m.supply - n }) = s' := by
  simp only [burnChecked, bind_eq_ok, orThrow_eq_ok, require_eq_ok, pure_eq_ok, exists_const,
    State.tokenOf_eq_some]
  constructor
  · rintro ⟨t, ht, ⟨q, m⟩, hm, ⟨h1, h2⟩, h3, h4, ⟨h5, h6⟩, h7⟩
    exact ⟨t, q, m, ht, State.mintAt_eq_some.1 hm, h1, h2, h3, h4, h5, h6, h7⟩
  · rintro ⟨t, q, m, ht, hm, h1, h2, h3, h4, h5, h6, h7⟩
    exact ⟨t, ht, ⟨q, m⟩, State.mintAt_eq_some.2 hm, ⟨h1, h2⟩, h3, h4, ⟨h5, h6⟩, h7⟩

theorem closeAccount_eq_ok {p : TokenProgram} {account destination authority : K} :
    closeAccount E ctx p account destination authority s = .ok s' ↔
      ∃ t, s.account account = .token p t ∧ account ≠ destination ∧ t.owner = authority ∧
        ctx.refuses (.closeAccount (E.tokenKey p) account destination authority) = false ∧
        t.amount = 0 ∧ s.close account destination = s' := by
  simp only [closeAccount, bind_eq_ok, orThrow_eq_ok, require_eq_ok, pure_eq_ok, exists_const,
    State.tokenOf_eq_some, ne_eq]

theorem initializeAccount_eq_ok {p : TokenProgram} {account mint owner : K} :
    initializeAccount E ctx p account mint owner s = .ok s' ↔
      ∃ m, s.account mint = .mint p m ∧
        ctx.refuses (.initializeAccount (E.tokenKey p) account mint owner) = false ∧
        s.set account (.token p { mint, owner, amount := 0 }) = s' := by
  simp only [initializeAccount, bind_eq_ok, orThrow_eq_ok, require_eq_ok, pure_eq_ok, exists_const]
  constructor
  · rintro ⟨⟨q, m⟩, hm, rfl, h1, h2⟩
    exact ⟨m, State.mintAt_eq_some.1 hm, h1, h2⟩
  · rintro ⟨m, hm, h1, h2⟩
    exact ⟨⟨p, m⟩, State.mintAt_eq_some.2 hm, rfl, h1, h2⟩

end SafeNudge
