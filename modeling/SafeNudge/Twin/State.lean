import SafeNudge.Lib.Lockstep
import SafeNudge.Model.Anchor
import SafeNudge.Model.Ledger
import SafeNudge.Model.Token

/-!
# States that differ in tallies only

`Twin D u v s t`: the states `s` and `t` have the same lamports everywhere and the same accounts
outside `D`; at the addresses of `D`, which are derived for tallies, `s` holds `u` and `t` holds
`v`. Account checks and token-program calls that are not about a tally go the same way in both.
-/

namespace SafeNudge

open Lib
open Function (update update_self update_of_ne)

variable {K : Type}

/-- No instruction reads it but as a tally. -/
def Account.Blank : Account K → Prop
  | .system | .joinTally _ | .other _ => True
  | _ => False

structure Twin (D : Set K) (u v : K → Account K) (s t : State K) : Prop where
  lamports : s.lamports = t.lamports
  account : ∀ k ∉ D, s.account k = t.account k
  left : ∀ k ∈ D, s.account k = u k
  right : ∀ k ∈ D, t.account k = v k

/-- What may be at the addresses of `D`. -/
structure Spots (E : Env K) (D : Set K) (u v : K → Account K) : Prop where
  tally : ∀ k ∈ D, ∃ G M b, E.createProgramAddress (.tally G M) b = some k
  left : ∀ k ∈ D, (u k).Blank
  right : ∀ k ∈ D, (v k).Blank

variable {E : Env K} {D : Set K} {u v : K → Account K} {s t : State K} {k : K}

/-- An address that is not derived for a tally, or can sign, is not in `D`. -/
theorem Spots.notMem (hS : Spots E D u v) {seeds : Seeds K} {b : UInt8}
    (hk : E.createProgramAddress seeds b = some k) (h : ∀ G M, seeds ≠ .tally G M) : k ∉ D := by
  intro hD
  obtain ⟨G, M, b', hT⟩ := hS.tally k hD
  exact h G M (E.createProgramAddress_inj hk hT).1

theorem Spots.notMem_of_canSign (hS : Spots E D u v) (hk : E.canSign k = true) : k ∉ D := by
  intro hD
  obtain ⟨G, M, b, hT⟩ := hS.tally k hD
  exact Env.ne_of_canSign hT hk rfl

theorem Spots.update [DecidableEq K] (hS : Spots E D u v) {a b : Account K} (ha : a.Blank)
    (hb : b.Blank) : Spots E D (update u k a) (update v k b) := by
  refine ⟨hS.tally, fun x hx => ?_, fun x hx => ?_⟩
  · by_cases hxk : x = k
    · subst hxk
      rwa [update_self]
    · rw [update_of_ne hxk]
      exact hS.left x hx
  · by_cases hxk : x = k
    · subst hxk
      rwa [update_self]
    · rw [update_of_ne hxk]
      exact hS.right x hx

namespace Twin

/-- Reading anything but a tally gives the same. -/
theorem view (hS : Spots E D u v) (h : Twin D u v s t) {α : Type} (f : Account K → Option α)
    (hf : ∀ a : Account K, a.Blank → f a = none) (k : K) : f (s.account k) = f (t.account k) := by
  by_cases hk : k ∈ D
  · rw [h.left k hk, h.right k hk, hf _ (hS.left k hk), hf _ (hS.right k hk)]
  · rw [h.account k hk]

theorem group (hS : Spots E D u v) (h : Twin D u v s t) (k : K) : s.group k = t.group k :=
  h.view hS _ (fun a ha => by cases a <;> first | rfl | exact ha.elim) k

theorem record (hS : Spots E D u v) (h : Twin D u v s t) (k : K) : s.record k = t.record k :=
  h.view hS _ (fun a ha => by cases a <;> first | rfl | exact ha.elim) k

theorem gate (hS : Spots E D u v) (h : Twin D u v s t) (k : K) : s.gate k = t.gate k :=
  h.view hS _ (fun a ha => by cases a <;> first | rfl | exact ha.elim) k

theorem token (hS : Spots E D u v) (h : Twin D u v s t) (k : K) : s.token k = t.token k :=
  h.view hS _ (fun a ha => by cases a <;> first | rfl | exact ha.elim) k

theorem mint (hS : Spots E D u v) (h : Twin D u v s t) (k : K) :
    (s.account k).mint? = (t.account k).mint? :=
  h.view hS _ (fun a ha => by cases a <;> first | rfl | exact ha.elim) k

/-- An address that reads as something is not in `D`. -/
theorem notMem (hS : Spots E D u v) (h : Twin D u v s t) (hk : ¬(s.account k).Blank) : k ∉ D := by
  intro hD
  rw [h.left k hD] at hk
  exact hk (hS.left k hD)

theorem notMem_of_group (hS : Spots E D u v) (h : Twin D u v s t) {g : GroupConfig K}
    (hg : s.group k = some g) : k ∉ D :=
  h.notMem hS (by rw [State.group_eq_some.1 hg]; exact id)

theorem notMem_of_record (hS : Spots E D u v) (h : Twin D u v s t) {r : MemberRecord K}
    (hr : s.record k = some r) : k ∉ D :=
  h.notMem hS (by rw [State.record_eq_some.1 hr]; exact id)

theorem tokenOf (hS : Spots E D u v) (h : Twin D u v s t) (p : TokenProgram) (k : K) :
    s.tokenOf p k = t.tokenOf p k := by
  by_cases hk : k ∈ D
  · have hnone : ∀ {s : State K}, (s.account k).Blank → s.tokenOf p k = none := by
      intro s hb
      cases hs : s.tokenOf p k with
      | none => rfl
      | some x =>
        rw [State.tokenOf_eq_some.1 hs] at hb
        exact hb.elim
    rw [hnone (by rw [h.left k hk]; exact hS.left k hk),
      hnone (by rw [h.right k hk]; exact hS.right k hk)]
  · rw [State.tokenOf, State.tokenOf, h.account k hk]

theorem notMem_of_tokenOf (hS : Spots E D u v) (h : Twin D u v s t) {p : TokenProgram}
    {x : TokenAccount K}
    (hk : s.tokenOf p k = some x) : k ∉ D :=
  h.notMem hS (by rw [State.tokenOf_eq_some.1 hk]; exact id)

theorem notMem_of_mint (hS : Spots E D u v) (h : Twin D u v s t) {m : TokenProgram × Mint}
    (hk : (s.account k).mint? = some m) : k ∉ D := by
  refine h.notMem hS fun hb => ?_
  cases ha : s.account k <;> rw [ha] at hk hb <;> first | exact hb | cases hk

variable [DecidableEq K]

/-! ## Elementary changes -/

theorem set (h : Twin D u v s t) (hk : k ∉ D) (a : Account K) :
    Twin D u v (s.set k a) (t.set k a) := by
  refine ⟨h.lamports, fun x hx => ?_, fun x hx => ?_, fun x hx => ?_⟩
  · by_cases hxk : x = k
    · subst hxk
      simp
    · simp only [State.account_set, update_of_ne hxk, h.account x hx]
  · have hxk : x ≠ k := fun he => hk (he ▸ hx)
    simp only [State.account_set, update_of_ne hxk, h.left x hx]
  · have hxk : x ≠ k := fun he => hk (he ▸ hx)
    simp only [State.account_set, update_of_ne hxk, h.right x hx]

/-- Both states change at one address of `D`. -/
theorem setBoth (h : Twin D u v s t) (hk : k ∈ D) (a b : Account K) :
    Twin D (update u k a) (update v k b) (s.set k a) (t.set k b) := by
  refine ⟨h.lamports, fun x hx => ?_, fun x hx => ?_, fun x hx => ?_⟩
  · have hxk : x ≠ k := fun he => hx (he ▸ hk)
    simp only [State.account_set, update_of_ne hxk, h.account x hx]
  · by_cases hxk : x = k
    · subst hxk
      simp
    · simp only [State.account_set, update_of_ne hxk, h.left x hx]
  · by_cases hxk : x = k
    · subst hxk
      simp
    · simp only [State.account_set, update_of_ne hxk, h.right x hx]

theorem setOver {c : Account K} (h : Twin D u (update v k c) s t) (hk : k ∈ D) (a b : Account K) :
    Twin D (update u k a) (update v k b) (s.set k a) (t.set k b) := by
  have := h.setBoth hk a b
  rwa [Function.update_idem] at this

/-- Only the second one does. -/
theorem setRight (h : Twin D u v s t) (hk : k ∈ D) (b : Account K) :
    Twin D u (update v k b) s (t.set k b) := by
  refine ⟨h.lamports, fun x hx => ?_, h.left, fun x hx => ?_⟩
  · have hxk : x ≠ k := fun he => hx (he ▸ hk)
    simp only [State.account_set, update_of_ne hxk, h.account x hx]
  · by_cases hxk : x = k
    · subst hxk
      simp
    · simp only [State.account_set, update_of_ne hxk, h.right x hx]

theorem transferLamports (h : Twin D u v s t) (src dst : K) (n : Nat) :
    Twin D u v (s.transferLamports src dst n) (t.transferLamports src dst n) :=
  ⟨by simp only [State.transferLamports, h.lamports], h.account, h.left, h.right⟩

theorem close (h : Twin D u v s t) (hk : k ∉ D) (dst : K) :
    Twin D u v (s.close k dst) (t.close k dst) := by
  rw [State.close, State.close, h.lamports]
  exact (h.transferLamports k dst _).set hk _

theorem subTokens (h : Twin D u v s t) (hk : k ∉ D) (n : UInt64) :
    Twin D u v (s.subTokens k n) (t.subTokens k n) := by
  rw [State.subTokens, State.subTokens, h.account k hk]
  cases t.account k <;> first | exact h | exact h.set hk _

theorem addTokens (h : Twin D u v s t) (hk : k ∉ D) (n : UInt64) :
    Twin D u v (s.addTokens k n) (t.addTokens k n) := by
  rw [State.addTokens, State.addTokens, h.account k hk]
  cases t.account k <;> first | exact h | exact h.set hk _

theorem moveTokens {src dst : K} (h : Twin D u v s t) (hs : src ∉ D) (hd : dst ∉ D) (n : UInt64) :
    Twin D u v (s.moveTokens src dst n) (t.moveTokens src dst n) := by
  rw [State.moveTokens, State.moveTokens]
  split
  · exact h
  · exact (h.subTokens hs n).addTokens hd n

/-! ## Account checks -/

variable {ctx : Ctx K}

theorem loadGroupConfig (hS : Spots E D u v) (h : Twin D u v s t) (k : K) (g : GroupConfig K) :
    loadGroupConfig E s k = .ok g ↔ loadGroupConfig E t k = .ok g := by
  rw [loadGroupConfig_eq_ok, loadGroupConfig_eq_ok, h.group hS]

theorem loadMemberRecord (hS : Spots E D u v) (h : Twin D u v s t) (k : K) (r : MemberRecord K) :
    loadMemberRecord E s k = .ok r ↔ loadMemberRecord E t k = .ok r := by
  rw [loadMemberRecord_eq_ok, loadMemberRecord_eq_ok, h.record hS]

theorem loadJoinGate (hS : Spots E D u v) (h : Twin D u v s t) (k : K) (j : JoinGate K) :
    loadJoinGate E s k = .ok j ↔ loadJoinGate E t k = .ok j := by
  rw [loadJoinGate_eq_ok, loadJoinGate_eq_ok, h.gate hS]

theorem loadTokenAccount (hS : Spots E D u v) (h : Twin D u v s t) (k : K)
    (x : TokenProgram × TokenAccount K) :
    loadTokenAccount E s k = .ok x ↔ loadTokenAccount E t k = .ok x := by
  rw [loadTokenAccount_eq_ok, loadTokenAccount_eq_ok, h.token hS]

theorem loadMint (hS : Spots E D u v) (h : Twin D u v s t) (k : K) (m : TokenProgram × Mint) :
    loadMint E s k = .ok m ↔ loadMint E t k = .ok m := by
  rw [loadMint_eq_ok, loadMint_eq_ok, h.mint hS]

theorem initAccount (h : Twin D u v s t) {payer : K} (hp : payer ∉ D) (hk : k ∉ D) (space : Nat)
    (a : Account K) :
    Lockstep (Twin D u v) (initAccount ctx payer k space a s) (initAccount ctx payer k space a t) := by
  unfold SafeNudge.initAccount
  rw [h.account k hk, h.account payer hp, h.lamports]
  refine .same fun _ _ => .same fun _ _ => .same fun _ _ => .same fun _ _ => .ok ?_
  exact (h.transferLamports payer k _).set hk a

/-! ## Token-program calls -/

variable {p : TokenProgram} {account mint owner src dst authority : K} {n : UInt64}
  {decimals : UInt8}

theorem initializeAccount (hS : Spots E D u v) (h : Twin D u v s t) (ha : account ∉ D) :
    Lockstep (Twin D u v) (initializeAccount E ctx p account mint owner s)
      (initializeAccount E ctx p account mint owner t) := by
  unfold SafeNudge.initializeAccount
  rw [h.mint hS]
  exact .same fun _ _ => .same fun _ _ => .same fun _ _ => .ok (h.set ha _)

theorem transferChecked (hS : Spots E D u v) (h : Twin D u v s t) :
    Lockstep (Twin D u v) (transferChecked E ctx p src mint dst authority n decimals s)
      (transferChecked E ctx p src mint dst authority n decimals t) := by
  unfold SafeNudge.transferChecked
  rw [← h.tokenOf hS, ← h.tokenOf hS, ← h.mint hS]
  refine .same fun x hx => .same fun x' hx' => .same fun _ _ => .same fun _ _ => .same fun _ _ =>
    .same fun _ _ => .same fun _ _ => .same fun _ _ => .ok ?_
  rw [orThrow_eq_ok] at hx hx'
  exact h.moveTokens (h.notMem_of_tokenOf hS hx) (h.notMem_of_tokenOf hS hx') n

theorem burnChecked (hS : Spots E D u v) (h : Twin D u v s t) :
    Lockstep (Twin D u v) (burnChecked E ctx p account mint authority n decimals s)
      (burnChecked E ctx p account mint authority n decimals t) := by
  unfold SafeNudge.burnChecked
  rw [← h.tokenOf hS, ← h.mint hS]
  refine .same fun x hx => .same fun m hm => .same fun _ _ => .same fun _ _ => .same fun _ _ =>
    .same fun _ _ => .ok ?_
  rw [orThrow_eq_ok] at hx hm
  exact (h.subTokens (h.notMem_of_tokenOf hS hx) n).set (h.notMem_of_mint hS hm) _

theorem closeAccount (hS : Spots E D u v) (h : Twin D u v s t) :
    Lockstep (Twin D u v) (closeAccount E ctx p account dst authority s)
      (closeAccount E ctx p account dst authority t) := by
  unfold SafeNudge.closeAccount
  rw [← h.tokenOf hS]
  refine .same fun x hx => .same fun _ _ => .same fun _ _ => .same fun _ _ => .same fun _ _ =>
    .ok ?_
  rw [orThrow_eq_ok] at hx
  exact h.close (h.notMem_of_tokenOf hS hx) dst

end Twin

end SafeNudge
