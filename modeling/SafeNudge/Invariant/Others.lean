import SafeNudge.Invariant.Trace

/-!
# What the instructions leave alone

`execute_others`: accounts that are neither of this program nor of a token program nor vacant stay,
and none appears. `Reached.code`: the code of a live group is one `create_group` accepts.
-/

namespace SafeNudge

open Lib Function

variable {K : Type}

def Account.other? : Account K → Option K
  | .other o => some o
  | _ => none

theorem Account.other?_eq_some {a : Account K} {o : K} : a.other? = some o ↔ a = .other o := by
  cases a <;> simp [other?]

/-- The owner of an account of no type the program knows. -/
def State.others (s : State K) (k : K) : Option K := (s.account k).other?

variable [DecidableEq K] {E : Env K} {ctx : Ctx K} {s s' : State K}

@[simp] theorem State.others_set (s : State K) (k : K) (a : Account K) :
    (s.set k a).others = update s.others k a.other? := view_set s k a _

@[simp] theorem State.others_transferLamports (s : State K) (src dst : K) (n : Nat) :
    (s.transferLamports src dst n).others = s.others := rfl

omit [DecidableEq K] in
theorem State.others_of {k : K} {a : Account K} (h : s.account k = a) (ha : a.other? = none) :
    s.others k = none := by rw [others, h, ha]

/-- Writing an account of a known type where one was. -/
theorem State.others_write {k : K} {a : Account K} (h : s.others k = none) (ha : a.other? = none) :
    (s.set k a).others = s.others := by
  rw [others_set, ha]
  exact update_same h

theorem State.others_close {k dst : K} {a : Account K} (h : s.account k = a) (ha : a.other? = none) :
    (s.close k dst).others = s.others :=
  State.others_write (s := s.transferLamports k dst _) (State.others_of h ha) rfl

theorem State.others_moveTokens {src dst : K} {p p' : TokenProgram} {t t' : TokenAccount K}
    {n : UInt64} (hs : s.account src = .token p t) (hd : s.account dst = .token p' t') :
    (s.moveTokens src dst n).others = s.others := by
  by_cases hne : src = dst
  · rw [moveTokens, if_pos hne]
  · have hs' := others_write (a := .token p { t with amount := t.amount - n }) (others_of hs rfl) rfl
    rw [moveTokens_of hs hd hne, others_write (by rw [hs']; exact others_of hd rfl) rfl, hs']

theorem transferChecked_others {p : TokenProgram} {src mint dst authority : K} {n : UInt64}
    {d : UInt8} (h : transferChecked E ctx p src mint dst authority n d s = .ok s') :
    s'.others = s.others := by
  obtain ⟨t, t', q, m, hs, hd, -, -, -, -, -, -, -, -, rfl⟩ := transferChecked_eq_ok.1 h
  exact State.others_moveTokens hs hd

theorem burnChecked_others {p : TokenProgram} {account mint authority : K} {n : UInt64} {d : UInt8}
    (h : burnChecked E ctx p account mint authority n d s = .ok s') : s'.others = s.others := by
  obtain ⟨t, q, m, ht, hm, -, -, -, -, -, -, rfl⟩ := burnChecked_eq_ok.1 h
  have hs := State.others_write (a := .token p { t with amount := t.amount - n })
    (State.others_of ht rfl) rfl
  rw [State.subTokens_of ht, State.others_write (by rw [hs]; exact State.others_of hm rfl) rfl, hs]

theorem closeAccount_others {p : TokenProgram} {account destination authority : K}
    (h : closeAccount E ctx p account destination authority s = .ok s') : s'.others = s.others := by
  obtain ⟨t, ht, -, -, -, -, rfl⟩ := closeAccount_eq_ok.1 h
  exact State.others_close ht rfl

theorem payAll_others {p : TokenProgram} {vault mint : K} {decimals : UInt8}
    {pays : List (K × UInt64)} (h : payAll E ctx p vault mint decimals pays s = .ok s') :
    s'.others = s.others := by
  induction pays generalizing s with
  | nil => rw [payAll_nil.1 h]
  | cons pay pays ih =>
    obtain ⟨s₁, h₁, h₂⟩ := payAll_cons.1 h
    rw [ih h₂]
    unfold payTo at h₁
    split at h₁
    · exact transferChecked_others h₁
    · rw [Except.ok.inj h₁]

/-- `init`, followed by the write of the new account. -/
theorem initAccount_others {payer key : K} {space : Nat} {a b : Account K}
    (h : initAccount ctx payer key space a s = .ok s') (ha : b.other? = none) :
    (s'.set key b).others = s.others := by
  obtain ⟨n, -, -, hv, -, -, rfl⟩ := initAccount_eq_ok.1 h
  rw [State.set_set]
  exact State.others_write (s := s.transferLamports payer key n) (State.others_of hv rfl) ha

/-! ## The instructions -/

theorem createGroup_others {a : CreateGroup K} {groupCode : String} {depositAmount : UInt64}
    {frequency totalPeriods maxMembers : UInt8} {events : List (Event K)}
    (h : createGroup E ctx a groupCode depositAmount frequency totalPeriods maxMembers s
      = .ok (s', events)) : s'.others = s.others := by
  simp only [createGroup, bind_eq_ok, require_eq_ok, requireSigner_eq_ok, loadMint_eq_ok,
    loadTokenProgram_eq_ok, requireCanonical_eq_ok, initializeAccount_eq_ok, pure_eq_ok,
    exists_const, Prod.mk.injEq] at h
  obtain ⟨-, -, ⟨q, m⟩, -, p, -, bump, -, s₁, h₁, vb, -, s₂, h₂, s₃, ⟨m', -, -, rfl⟩, ⟨⟩, -, -, -, -,
    -, -, -, rfl, -⟩ := h
  -- the vault is written on top of the new group, which the handler fills in last
  have hV := initAccount_others (b := .token p ⟨a.mint, a.vault, 0⟩) h₂ rfl
  have hG := initAccount_others (b := .groupConfig (a.newGroup groupCode depositAmount frequency
    totalPeriods maxMembers bump vb)) h₁ rfl
  show ((s₂.set a.vault _).set a.groupConfig _).others = _
  rw [State.others_set, hV, ← State.others_set]
  exact hG

theorem setJoinAuthority_others {a : SetJoinAuthority K} {authority : K} {events : List (Event K)}
    (h : setJoinAuthority E ctx a authority s = .ok (s', events)) : s'.others = s.others := by
  simp only [setJoinAuthority, bind_eq_ok, require_eq_ok, requireSigner_eq_ok,
    loadGroupConfig_eq_ok, requireCanonical_eq_ok, requireSeeds_eq_ok, pure_eq_ok, exists_const,
    Prod.mk.injEq] at h
  obtain ⟨-, -, g, -, b, -, s₁, h₁, -, -, -, -, -, -, rfl, -⟩ := h
  exact initAccount_others h₁ rfl

theorem startCycle_others {a : StartCycle K} {events : List (Event K)}
    (h : startCycle E ctx a s = .ok (s', events)) : s'.others = s.others := by
  simp only [startCycle, bind_eq_ok, require_eq_ok, requireSigner_eq_ok, loadGroupConfig_eq_ok,
    requireSeeds_eq_ok, pure_eq_ok, exists_const, Prod.mk.injEq] at h
  obtain ⟨-, g, hg, -, -, -, -, c, -, rfl, -⟩ := h
  exact State.others_write (State.others_of (State.group_eq_some.1 hg) rfl) rfl

theorem joinGroup_others {a : JoinGroup K} {terms : GroupTerms K} {expected : Option UInt32}
    {events : List (Event K)} (h : joinGroup E ctx a terms expected s = .ok (s', events)) :
    s'.others = s.others := by
  simp only [joinGroup, bind_eq_ok, require_eq_ok, requireSigner_eq_ok, loadGroupConfig_eq_ok,
    loadTokenAccount_eq_ok, loadMint_eq_ok, requireCanonical_eq_ok, requireSeeds_eq_ok,
    orThrow_eq_ok, pure_eq_ok, exists_const, loadTokenProgram_eq_ok, Prod.mk.injEq] at h
  obtain ⟨-, -, g, hg, mt, -, vt, -, m, -, p, -, auth, -, h⟩ := h
  obtain ⟨rb, hR, s₁, h₁, tb, hT, ⟨t, s₂⟩, h₂, -, -, -, -, -, -, -, -, h⟩ := h
  obtain ⟨jb, -, -, -, -, -, -, -, cm, -, joins, -, s₃, h₃, rfl, -⟩ := h
  have hRT : a.memberRecord ≠ a.joinTally := Env.address_ne (Env.findProgramAddress_create hR)
    (Env.findProgramAddress_create hT) (by simp)
  have h₃ := transferChecked_others h₃
  have hg := State.others_of (State.group_eq_some.1 hg) rfl
  have hR₁ := initAccount_others (b := .memberRecord (a.newRecord g.depositAmount rb)) h₁ rfl
  -- the tally is new, or it is one already
  have hT₂ : (s₂.set a.joinTally (.joinTally t)).others = s₁.others := by
    rcases initTallyIfNeeded_eq_ok.1 h₂ with ⟨-, -, hinit⟩ | ⟨ht, -, rfl⟩
    · exact initAccount_others hinit rfl
    · exact State.others_write (State.others_of (State.tally_eq_some.1 ht) rfl) rfl
  funext k
  have hR₁ := congrFun hR₁ k
  have hT₂ := congrFun hT₂ k
  simp only [State.others_set, h₃, Account.other?] at hR₁ hT₂ ⊢
  by_cases hkT : k = a.joinTally
  · subst hkT
    rw [update_self]
    rw [update_self] at hT₂
    rw [update_of_ne hRT.symm] at hR₁
    exact hT₂.trans hR₁
  · rw [update_of_ne hkT] at hT₂ ⊢
    by_cases hkR : k = a.memberRecord
    · subst hkR
      rw [update_self]
      rw [update_self] at hR₁
      exact hR₁
    · rw [update_of_ne hkR] at hR₁ ⊢
      by_cases hkG : k = a.groupConfig
      · rw [hkG, update_self, hg]
      · rw [update_of_ne hkG, hT₂, hR₁]

theorem leaveGroup_others {a : LeaveGroup K} {events : List (Event K)}
    (h : leaveGroup E ctx a s = .ok (s', events)) : s'.others = s.others := by
  simp only [leaveGroup, bind_eq_ok, require_eq_ok, requireSigner_eq_ok, loadGroupConfig_eq_ok,
    loadMemberRecord_eq_ok, loadTokenAccount_eq_ok, loadMint_eq_ok, requireSeeds_eq_ok,
    requireClose_eq_ok, orThrow_eq_ok, pure_eq_ok, exists_const, loadTokenProgram_eq_ok,
    Prod.mk.injEq] at h
  obtain ⟨-, g, hg, r, hr, mt, -, vt, -, m, -, p, -, -, -, -, -, -, -, -, -, -, -, cm, -, s₁, h₁, rfl,
    -⟩ := h
  have h₁ := transferChecked_others h₁
  have hg₁ : (s₁.set a.groupConfig (.groupConfig { g with currentMembers := cm })).others
      = s.others := by
    rw [State.others_write (by rw [h₁]; exact State.others_of (State.group_eq_some.1 hg) rfl) rfl, h₁]
  show ((s₁.set a.groupConfig _).set a.memberRecord .system).others = _
  rw [State.others_write (by rw [hg₁]; exact State.others_of (State.record_eq_some.1 hr) rfl) rfl, hg₁]

theorem deposit_others {a : Deposit K} {events : List (Event K)}
    (h : deposit E ctx a s = .ok (s', events)) : s'.others = s.others := by
  simp only [deposit, bind_eq_ok, require_eq_ok, requireSigner_eq_ok, loadGroupConfig_eq_ok,
    loadMemberRecord_eq_ok, loadTokenAccount_eq_ok, loadMint_eq_ok, requireSeeds_eq_ok,
    pure_eq_ok, exists_const, loadTokenProgram_eq_ok, Prod.mk.injEq] at h
  obtain ⟨-, g, -, r, hr, mt, -, vt, -, m, -, p, -, -, -, -, -, -, -, -, -, -, duration, -, cycleEnd, -,
    -, period, -, r', -, s₁, h₁, rfl, -⟩ := h
  have h₁ := transferChecked_others h₁
  rw [State.others_write (by rw [h₁]; exact State.others_of (State.record_eq_some.1 hr) rfl) rfl, h₁]

/-- The end of a settlement: the vault closes and the group is written. -/
theorem settle_others {s₁ s₂ : State K} {p : TokenProgram} {G V : K} {g : GroupConfig K}
    (g' : GroupConfig K) (hg : s.group G = some g) (h₁ : s₁.others = s.others)
    (h₂ : closeAccount E ctx p V G V s₁ = .ok s₂) :
    (s₂.set G (.groupConfig g')).others = s.others := by
  have h₂ := (closeAccount_others h₂).trans h₁
  rw [State.others_write (by rw [h₂]; exact State.others_of (State.group_eq_some.1 hg) rfl) rfl, h₂]

theorem distribute_others (hL : Layout E s.ledger) {a : Distribute K} {remaining : List K}
    {events : List (Event K)} (h : distribute E ctx a remaining s = .ok (s', events)) :
    s'.others = s.others := by
  obtain ⟨g, p, p₀, t, rs, q, m, s₁, s₂, total, hset, -, -, hpay, hclose, -, rfl, -⟩ :=
    (distribute_eq_ok hL.selfOwned hL.placed).1 h
  exact settle_others _ hset.group (payAll_others hpay) hclose

theorem emergencyCancel_others (hL : Layout E s.ledger) {a : EmergencyCancel K} {remaining : List K}
    {events : List (Event K)} (h : emergencyCancel E ctx a remaining s = .ok (s', events)) :
    s'.others = s.others := by
  obtain ⟨g, p, p₀, t, rs, q, m, s₁, s₂, s₃, total, hset, -, -, hpay, hburn, hclose, -, rfl, -⟩ :=
    (emergencyCancel_eq_ok hL.selfOwned hL.placed).1 h
  have h₂ : s₂.others = s₁.others := by
    unfold burnUnowed at hburn
    split at hburn
    · exact burnChecked_others hburn
    · rw [Except.ok.inj hburn]
  exact settle_others _ hset.group (h₂.trans (payAll_others hpay)) hclose

theorem refundVaultRent_others {a : RefundVaultRent K} {events : List (Event K)}
    (h : refundVaultRent E ctx a s = .ok (s', events)) : s'.others = s.others := by
  simp only [refundVaultRent, bind_eq_ok, require_eq_ok, loadGroupConfig_eq_ok, requireSeeds_eq_ok,
    pure_eq_ok, exists_const, Prod.mk.injEq] at h
  obtain ⟨g, -, -, -, -, rfl, -⟩ := h
  rfl

theorem closeMemberRecord_others {a : CloseMemberRecord K} {events : List (Event K)}
    (h : closeMemberRecord E ctx a s = .ok (s', events)) : s'.others = s.others := by
  simp only [closeMemberRecord, bind_eq_ok, require_eq_ok, loadGroupConfig_eq_ok,
    loadMemberRecord_eq_ok, requireSeeds_eq_ok, requireClose_eq_ok, orThrow_eq_ok, pure_eq_ok,
    exists_const, Prod.mk.injEq] at h
  obtain ⟨g, hg, r, hr, -, -, c, -, -, -, -, -, cm, -, rfl, -⟩ := h
  have hg₁ := State.others_write (a := .groupConfig { g with currentMembers := cm })
    (State.others_of (State.group_eq_some.1 hg) rfl) rfl
  show ((s.set a.groupConfig _).set a.memberRecord .system).others = _
  rw [State.others_write (by rw [hg₁]; exact State.others_of (State.record_eq_some.1 hr) rfl) rfl, hg₁]

theorem closeGroup_others {a : CloseGroup K} {events : List (Event K)}
    (h : closeGroup E a s = .ok (s', events)) : s'.others = s.others := by
  simp only [closeGroup, bind_eq_ok, require_eq_ok, loadGroupConfig_eq_ok, requireSeeds_eq_ok,
    requireClose_eq_ok, requireCanonical_eq_ok, pure_eq_ok, exists_const, Prod.mk.injEq] at h
  obtain ⟨g, hg, -, -, -, -, -, b, -, ⟨n, s₁⟩, hs₁, rfl, -⟩ := h
  have h₁ : s₁.others = s.others := by
    unfold closeJoinGate at hs₁
    split at hs₁
    · simp only [bind_eq_ok, loadJoinGate_eq_ok, pure_eq_ok, Prod.mk.injEq] at hs₁
      obtain ⟨j, hj, -, rfl⟩ := hs₁
      exact State.others_close (State.gate_eq_some.1 hj) rfl
    · cases hs₁
      rfl
  show (s₁.set a.groupConfig .system).others = _
  rw [State.others_write (by rw [h₁]; exact State.others_of (State.group_eq_some.1 hg) rfl) rfl, h₁]

theorem closeJoinTally_others {a : CloseJoinTally K} {member : K} {events : List (Event K)}
    (h : closeJoinTally E a member s = .ok (s', events)) : s'.others = s.others := by
  simp only [closeJoinTally, bind_eq_ok, require_eq_ok, loadJoinTally_eq_ok, requireCanonical_eq_ok,
    requireClose_eq_ok, pure_eq_ok, exists_const, Prod.mk.injEq] at h
  obtain ⟨t, ht, -, b, -, -, -, rfl, -⟩ := h
  exact State.others_close (State.tally_eq_some.1 ht) rfl

theorem execute_others {c : Call K} {events : List (Event K)} (hL : Layout E s.ledger)
    (h : execute E ctx c s = .ok (s', events)) : s'.others = s.others := by
  cases c with
  | createGroup => exact createGroup_others h
  | joinGroup => exact joinGroup_others h
  | leaveGroup => exact leaveGroup_others h
  | startCycle => exact startCycle_others h
  | deposit => exact deposit_others h
  | distribute => exact distribute_others hL h
  | emergencyCancel => exact emergencyCancel_others hL h
  | refundVaultRent => exact refundVaultRent_others h
  | closeMemberRecord => exact closeMemberRecord_others h
  | closeGroup => exact closeGroup_others h
  | closeJoinTally => exact closeJoinTally_others h
  | setJoinAuthority => exact setJoinAuthority_others h

/-! ## Group codes -/

/-- A code `create_group` accepts. -/
def CodeOk (groupCode : String) : Prop :=
  (groupCode.utf8ByteSize ≠ 0 ∧ groupCode.utf8ByteSize ≤ 32) ∧ groupCodeChars groupCode = true

theorem Step.code {act : Action K} (h : Step E s act s') (hL : Layout E s.ledger)
    (hs : ∀ G g, s.group G = some g → CodeOk g.groupCode) {G : K} {g' : GroupConfig K}
    (hg' : s'.group G = some g') : CodeOk g'.groupCode := by
  cases hg : s.group G with
  | some g =>
    obtain ⟨-, ⟨-, g₁, hg₁, hsame, -⟩ | ⟨-, hnone, -⟩⟩ := h.group hL hg
    · obtain rfl : g₁ = g' := Option.some.inj (hg₁.symm.trans hg')
      rw [hsame]
      exact hs G g hg
    · rw [hnone] at hg'
      cases hg'
  | none =>
    obtain ⟨hc, -⟩ := h.group_new hL hg' hg
    cases h with
    | outside => exact hc.elim
    | @call ctx c _ _ events hexec =>
      cases execute_effect hL hexec with
      | @createGroup a groupCode depositAmount frequency totalPeriods maxMembers h =>
        obtain rfl : a.groupConfig = G := hc
        obtain ⟨p, m, bump, vb, n₁, n₂, -, -, -, -, -, -, -, hpost⟩ := h.post
        have hgroup : s'.group a.groupConfig = some (a.newGroup groupCode depositAmount frequency
            totalPeriods maxMembers bump vb) := by
          rw [← State.ledger_group, hpost]
          exact update_self ..
        obtain rfl := Option.some.inj (hgroup.symm.trans hg')
        exact ⟨h.args.code, h.args.chars⟩
      | _ => exact hc.elim

theorem Reached.code {h : List (StepEntry K)} (hr : Reached E h s) {G : K} {g : GroupConfig K}
    (hg : s.group G = some g) : CodeOk g.groupCode := by
  have hinv : Inv E s.ledger ∧ ∀ G g, s.group G = some g → CodeOk g.groupCode := by
    refine Run.invariant (P := fun s => Inv E s.ledger ∧ ∀ G g, s.group G = some g → CodeOk g.groupCode)
      hr (fun s h0 => ⟨h0.inv, fun G g hg => ?_⟩)
      fun s a s' hst hs => ⟨hst.inv hs.1, fun G g hg => hst.code hs.1.toLayout hs.2 hg⟩
    exact absurd (by rw [State.group_eq_some.1 hg]; trivial) (h0.program G)
  exact hinv.2 G g hg

end SafeNudge
