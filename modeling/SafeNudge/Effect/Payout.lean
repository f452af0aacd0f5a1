import Mathlib.Data.List.Forall2
import SafeNudge.Effect.Token
import SafeNudge.Instructions.Settlement

/-!
# The two passes of a settlement

`distribute` and `emergency_cancel` each have their own loops. Here both first passes are brought
to `Validated` and both second passes to `settlePay`, so that what a settlement pays is worked out
once: `payouts` for the amounts, `settlePay_eq_ok` for the transfers.
-/

namespace SafeNudge

open Lib Function

variable {K : Type} [DecidableEq K] {E : Env K} {ctx : Ctx K} {s s' : State K}

/-! ## First pass -/

/-- A pair that `validate_member_pair` accepts, with the record it reads. -/
structure PairOk (E : Env K) (L : Ledger K) (groupKey mintKey : K) (pair : K × K)
    (r : MemberRecord K) : Prop where
  record : L.record pair.1 = some r
  group : r.group = groupKey
  address : E.createProgramAddress (.member groupKey r.member) r.bump = some pair.1
  token : ∃ p t, L.token pair.2 = some (p, t) ∧ t.owner = r.member ∧ t.mint = mintKey

theorem validateMemberPair_eq_ok (pair : K × K) {groupKey mintKey : K} {seen seen' : List K}
    {r : MemberRecord K} :
    validateMemberPair E s pair.1 pair.2 groupKey mintKey seen = .ok (r, seen') ↔
      PairOk E s.ledger groupKey mintKey pair r ∧ pair.1 ∉ seen ∧ seen' = seen ++ [pair.1] := by
  simp only [validateMemberPair, bind_eq_ok, require_eq_ok, orThrow_eq_ok, loadTokenAccount_eq_ok,
    exists_const, pure_eq_ok, Prod.mk.injEq]
  constructor
  · rintro ⟨-, r', hr, hg, ha, hs, ⟨p, t⟩, ht, ho, hm, rfl, rfl⟩
    exact ⟨⟨hr, hg, ha, p, t, ht, ho, hm⟩, hs, rfl⟩
  · rintro ⟨⟨hr, hg, ha, p, t, ht, ho, hm⟩, hs, rfl⟩
    exact ⟨by rw [State.record_eq_some.1 hr]; rfl, r, hr, hg, ha, hs, (p, t), ht, ho, hm, rfl, rfl⟩

/-- Sum of the deposits of some records. -/
def depositsSum (rs : List (MemberRecord K)) : Nat := (rs.map (·.totalDeposited.toNat)).sum

/-- A first pass over `pairs` that has seen `seen` and summed up `total` ends with the sum
`total'`, having read the records `rs`. -/
structure Validated (E : Env K) (L : Ledger K) (groupKey mintKey : K) (pairs : List (K × K))
    (seen : List K) (total total' : UInt64) (rs : List (MemberRecord K)) : Prop where
  accepted : List.Forall₂ (PairOk E L groupKey mintKey) pairs rs
  nodup : (pairs.map Prod.fst).Nodup
  unseen : ∀ k ∈ pairs.map Prod.fst, k ∉ seen
  total : total'.toNat = total.toNat + depositsSum rs

section
omit [DecidableEq K]
variable {L : Ledger K} {groupKey mintKey : K} {pair : K × K} {pairs : List (K × K)}
  {seen : List K} {total total' : UInt64} {rs : List (MemberRecord K)}

theorem validated_nil :
    Validated E L groupKey mintKey [] seen total total' rs ↔ rs = [] ∧ total' = total := by
  constructor
  · intro h
    obtain rfl : rs = [] := List.forall₂_nil_left_iff.1 h.accepted
    exact ⟨rfl, UInt64.toNat_inj.1 (by simpa [depositsSum] using h.total)⟩
  · rintro ⟨rfl, rfl⟩
    exact ⟨.nil, List.nodup_nil, by simp, by simp [depositsSum]⟩

theorem validated_cons :
    Validated E L groupKey mintKey (pair :: pairs) seen total total' rs ↔
      ∃ r rs' total₁, rs = r :: rs' ∧ PairOk E L groupKey mintKey pair r ∧ pair.1 ∉ seen ∧
        checkedAdd64 total r.totalDeposited = some total₁ ∧
        Validated E L groupKey mintKey pairs (seen ++ [pair.1]) total₁ total' rs' := by
  constructor
  · intro h
    obtain ⟨r, rs', hr, hrs, rfl⟩ := List.forall₂_cons_left_iff.1 h.accepted
    obtain ⟨hnot, hnd⟩ := List.nodup_cons.1 h.nodup
    have ht := h.total
    simp only [depositsSum, List.map_cons, List.sum_cons] at ht
    have hlt : total.toNat + r.totalDeposited.toNat < 2 ^ 64 := by
      have := total'.toNat_lt
      omega
    refine ⟨r, rs', _, rfl, hr, h.unseen _ (by simp), checkedAdd64_of hlt, hrs, hnd,
      fun k hk => ?_, ?_⟩
    · have hs := h.unseen k (List.mem_cons_of_mem _ hk)
      have hne : k ≠ pair.1 := by rintro rfl; exact hnot hk
      simp [hs, hne]
    · rw [checkedAdd64_eq_some (checkedAdd64_of hlt), ht, depositsSum]
      omega
  · rintro ⟨r, rs', total₁, rfl, hr, hs, ht, h⟩
    refine ⟨.cons hr h.accepted, List.nodup_cons.2 ⟨fun hm => ?_, h.nodup⟩, fun k hk => ?_, ?_⟩
    · exact h.unseen _ hm (by simp)
    · rcases List.mem_cons.1 hk with rfl | hk
      · exact hs
      · exact fun hks => h.unseen k hk (List.mem_append_left _ hks)
    · rw [h.total, checkedAdd64_eq_some ht]
      simp [depositsSum, Nat.add_assoc]

end

/-- The event `distribute` prepares for a record. -/
def settledEvent (groupKey : K) (r : MemberRecord K) (payout : UInt64) : MemberSettled K where
  group := groupKey
  member := r.member
  deposited := r.totalDeposited
  payout

theorem distributeValidate_eq_ok {groupKey mintKey : K} {pairs : List (K × K)} {seen : List K}
    {total total' : UInt64} {settled settled' : List (MemberSettled K)} :
    distributeValidate E s groupKey mintKey pairs seen total settled = .ok (total', settled') ↔
      ∃ rs, Validated E s.ledger groupKey mintKey pairs seen total total' rs ∧
        settled' = settled ++ rs.map fun r => settledEvent groupKey r r.totalDeposited := by
  induction pairs generalizing seen total settled with
  | nil =>
    simp only [distributeValidate, Except.ok.injEq, Prod.mk.injEq, validated_nil]
    constructor
    · rintro ⟨rfl, rfl⟩
      exact ⟨[], ⟨rfl, rfl⟩, by simp⟩
    · rintro ⟨rs, ⟨rfl, rfl⟩, rfl⟩
      exact ⟨rfl, by simp⟩
  | cons pair pairs ih =>
    simp only [distributeValidate, bind_eq_ok, orThrow_eq_ok, ih]
    constructor
    · rintro ⟨⟨r, seen'⟩, hv, total₁, ht, rs, hrs, rfl⟩
      obtain ⟨hr, hs, rfl⟩ := (validateMemberPair_eq_ok pair).1 hv
      exact ⟨r :: rs, validated_cons.2 ⟨r, rs, total₁, rfl, hr, hs, ht, hrs⟩,
        by simp [settledEvent]⟩
    · rintro ⟨rs, hrs, rfl⟩
      obtain ⟨r, rs, total₁, rfl, hr, hs, ht, hrs⟩ := validated_cons.1 hrs
      exact ⟨(r, _), (validateMemberPair_eq_ok pair).2 ⟨hr, hs, rfl⟩, total₁, ht, rs, hrs,
        by simp [settledEvent]⟩

/-- The pair at an index, as `emergency_cancel` finds it, is the next pair of `chunks_exact(2)`. -/
theorem chunksExact2_drop {α : Type} {l : List α} {i n : Nat} (h : l.length = 2 * (i + (n + 1))) :
    ∃ x y, l[i * 2]? = some x ∧ l[i * 2 + 1]? = some y ∧
      chunksExact2 (l.drop (2 * i)) = (x, y) :: chunksExact2 (l.drop (2 * (i + 1))) := by
  have h₁ : i * 2 < l.length := by omega
  have h₂ : i * 2 + 1 < l.length := by omega
  refine ⟨l[i * 2], l[i * 2 + 1], List.getElem?_eq_getElem h₁, List.getElem?_eq_getElem h₂, ?_⟩
  rw [Nat.mul_comm 2 i, List.drop_eq_getElem_cons h₁, List.drop_eq_getElem_cons h₂, chunksExact2,
    show i * 2 + 1 + 1 = 2 * (i + 1) by omega]

theorem chunksExact2_length {α : Type} {n : Nat} {l : List α} (h : l.length = 2 * n) :
    (chunksExact2 l).length = n := by
  induction n generalizing l with
  | zero => simp [List.length_eq_zero_iff.1 h, chunksExact2]
  | succ n ih =>
    match l, h with
    | x :: y :: rest, h =>
      simp only [chunksExact2, List.length_cons] at h ⊢
      rw [ih (by omega)]

theorem cancelValidate_eq_ok {groupKey mintKey : K} {remaining : List K} {n i : Nat} {seen : List K}
    {total total' : UInt64} {amounts amounts' : List UInt64}
    (hlen : remaining.length = 2 * (i + n)) (hlt : remaining.length < 2 ^ 64) :
    cancelValidate E s groupKey mintKey remaining n i seen total amounts = .ok (total', amounts') ↔
      ∃ rs, Validated E s.ledger groupKey mintKey (chunksExact2 (remaining.drop (2 * i))) seen total
          total' rs ∧
        amounts' = amounts ++ rs.map (·.totalDeposited) := by
  induction n generalizing i seen total amounts with
  | zero =>
    rw [List.drop_eq_nil_of_le (by omega)]
    simp only [cancelValidate, chunksExact2, Except.ok.injEq, Prod.mk.injEq, validated_nil]
    constructor
    · rintro ⟨rfl, rfl⟩
      exact ⟨[], ⟨rfl, rfl⟩, by simp⟩
    · rintro ⟨rs, ⟨rfl, rfl⟩, rfl⟩
      exact ⟨rfl, by simp⟩
  | succ n ih =>
    obtain ⟨x, y, hx, hy, hd⟩ := chunksExact2_drop hlen
    have hi := checkedMulUsize_of (show i * 2 < 2 ^ 64 by omega)
    have hi' := checkedAddUsize_of (show i * 2 + 1 < 2 ^ 64 by omega)
    simp only [cancelValidate, hi, hi', hx, hy, bind_eq_ok, orThrow_eq_ok, Option.some.injEq,
      exists_eq_left', hd, ih (show remaining.length = 2 * (i + 1 + n) by omega)]
    constructor
    · rintro ⟨⟨r, seen'⟩, hv, total₁, ht, rs, hrs, rfl⟩
      obtain ⟨hr, hs, rfl⟩ := (validateMemberPair_eq_ok (x, y)).1 hv
      exact ⟨r :: rs, validated_cons.2 ⟨r, rs, total₁, rfl, hr, hs, ht, hrs⟩, by simp⟩
    · rintro ⟨rs, hrs, rfl⟩
      obtain ⟨r, rs, total₁, rfl, hr, hs, ht, hrs⟩ := validated_cons.1 hrs
      exact ⟨(r, _), (validateMemberPair_eq_ok (x, y)).2 ⟨hr, hs, rfl⟩, total₁, ht, rs,
        hrs, by simp⟩

/-! ## Second pass -/

/-- What a settlement pays: every deposit as it is, except that the last member gets what the
vault then holds. -/
def payouts : List UInt64 → UInt64 → List UInt64
  | [], _ => []
  | [_], vault => [vault]
  | d :: d' :: ds, vault => d :: payouts (d' :: ds) (vault - d)

section
variable (E : Env K) (ctx : Ctx K) (p : TokenProgram) (vault mint : K) (decimals : UInt8)

/-- One payout; a payout of nothing makes no call. -/
def payTo (dst : K) (amount : UInt64) (s : State K) : Result (State K) :=
  if 0 < amount then transferChecked E ctx p vault mint dst vault amount decimals s else .ok s

def payAll : List (K × UInt64) → State K → Result (State K)
  | [], s => .ok s
  | pay :: pays, s => do
    let s ← payTo E ctx p vault mint decimals pay.1 pay.2 s
    payAll pays s

end

section
variable {p p₀ : TokenProgram} {vault mint : K} {decimals : UInt8} {t : TokenAccount K}

theorem payouts_length {ds : List UInt64} {v : UInt64} : (payouts ds v).length = ds.length := by
  induction ds generalizing v with
  | nil => rfl
  | cons d ds ih =>
    cases ds with
    | nil => rfl
    | cons d' ds => simp [payouts, ih]

/-- Every deposit but the last is paid as it is, the last member gets what is left. -/
theorem payouts_concat {ds : List UInt64} {d v : UInt64} :
    payouts (ds ++ [d]) v = ds ++ [ds.foldl (· - ·) v] := by
  induction ds generalizing v with
  | nil => rfl
  | cons d₁ ds ih =>
    obtain ⟨d₂, ds', h⟩ : ∃ d₂ ds', ds ++ [d] = d₂ :: ds' := by
      cases ds with
      | nil => exact ⟨_, _, rfl⟩
      | cons x xs => exact ⟨_, _, rfl⟩
    rw [List.cons_append, h, payouts, ← h, ih]
    rfl

theorem toNat_foldl_sub {ds : List UInt64} {v : UInt64}
    (h : (ds.map UInt64.toNat).sum ≤ v.toNat) :
    (ds.foldl (· - ·) v).toNat = v.toNat - (ds.map UInt64.toNat).sum := by
  induction ds generalizing v with
  | nil => rfl
  | cons d ds ih =>
    simp only [List.map_cons, List.sum_cons] at h ⊢
    have hd : (v - d).toNat = v.toNat - d.toNat :=
      UInt64.toNat_sub_of_le _ _ (UInt64.le_iff_toNat_le.2 (by omega))
    rw [List.foldl_cons, ih (by omega), hd]
    omega

/-- A covered settlement pays out exactly the vault balance. -/
theorem sum_payouts {ds : List UInt64} {v : UInt64} (hne : ds ≠ [])
    (h : (ds.map UInt64.toNat).sum ≤ v.toNat) :
    ((payouts ds v).map UInt64.toNat).sum = v.toNat := by
  induction ds generalizing v with
  | nil => exact absurd rfl hne
  | cons d ds ih =>
    cases ds with
    | nil => simp [payouts]
    | cons d' ds =>
      simp only [List.map_cons, List.sum_cons] at h
      have hd : (v - d).toNat = v.toNat - d.toNat :=
        UInt64.toNat_sub_of_le _ _ (UInt64.le_iff_toNat_le.2 (by omega))
      have := @ih (v - d) (by simp) (by simp only [List.map_cons, List.sum_cons]; omega)
      simp only [payouts, List.map_cons, List.sum_cons, this]
      omega

/-- What one payout does to the vault. -/
theorem payTo_vault {dst : K} {n : UInt64} (hv : s.account vault = .token p₀ t) (hd : dst ≠ vault)
    (h : payTo E ctx p vault mint decimals dst n s = .ok s') :
    n ≤ t.amount ∧ s'.account vault = .token p₀ { t with amount := t.amount - n } := by
  unfold payTo at h
  split at h
  · obtain ⟨t₁, t', q, m, h₁, h₂, -, -, -, -, -, -, hle, -, rfl⟩ := transferChecked_eq_ok.1 h
    rw [hv] at h₁
    cases h₁
    refine ⟨hle, ?_⟩
    rw [State.moveTokens_of hv h₂ hd.symm]
    simp [update_of_ne hd.symm]
  · rename_i hn
    cases h
    obtain rfl : n = 0 := by
      simpa using hn
    exact ⟨by simp, by simpa using hv⟩

theorem payAll_cons {pay : K × UInt64} {pays : List (K × UInt64)} :
    payAll E ctx p vault mint decimals (pay :: pays) s = .ok s' ↔
      ∃ s₁, payTo E ctx p vault mint decimals pay.1 pay.2 s = .ok s₁ ∧
        payAll E ctx p vault mint decimals pays s₁ = .ok s' := by
  simp only [payAll, bind_eq_ok]

theorem payAll_nil : payAll E ctx p vault mint decimals [] s = .ok s' ↔ s = s' := by
  simp only [payAll, Except.ok.injEq]

/-- One round of the loop of `distribute`, before the last pair and at it. -/
theorem distributePay_of_ne {pair : K × K} {pairs : List (K × K)} {last i : Nat}
    {settled : List (MemberSettled K)} (h : i ≠ last) (hi : i < settled.length) :
    distributePay E ctx p vault mint decimals last i (pair :: pairs) settled s =
      payTo E ctx p vault mint decimals pair.2 settled[i].payout s >>=
        distributePay E ctx p vault mint decimals last (i + 1) pairs settled := by
  simp only [distributePay, if_neg h, ok_bind, List.getElem?_eq_getElem hi, orThrow, payTo]
  split <;> rfl

theorem distributePay_of_eq {pair : K × K} {pairs : List (K × K)} {last i : Nat}
    {settled : List (MemberSettled K)} (h : i = last) (hi : i < settled.length)
    (hv : s.account vault = .token p₀ t) :
    distributePay E ctx p vault mint decimals last i (pair :: pairs) settled s =
      payTo E ctx p vault mint decimals pair.2 t.amount s >>=
        distributePay E ctx p vault mint decimals last (i + 1) pairs
          (settled.modify i fun e => { e with payout := t.amount }) := by
  have hl : loadTokenAccount E s vault = .ok (p₀, t) :=
    loadTokenAccount_eq_ok.2 (State.token_eq_some.2 hv)
  simp only [distributePay, if_pos h, hl, ok_bind, List.getElem?_modify_eq,
    List.getElem?_eq_getElem hi, Option.map_eq_map, Option.map_some, orThrow, payTo]
  split <;> rfl

theorem distributePay_eq_ok {pairs : List (K × K)} {last i : Nat}
    {settled settled' : List (MemberSettled K)} (hv : s.account vault = .token p₀ t)
    (hne : ∀ pair ∈ pairs, pair.2 ≠ vault) (hlen : settled.length = i + pairs.length)
    (hlast : pairs ≠ [] → last + 1 = i + pairs.length) :
    distributePay E ctx p vault mint decimals last i pairs settled s = .ok (settled', s') ↔
      payAll E ctx p vault mint decimals ((pairs.map Prod.snd).zip
          (payouts ((settled.drop i).map (·.payout)) t.amount)) s = .ok s' ∧
        settled' = settled.take i ++ List.zipWith (fun e n => { e with payout := n })
          (settled.drop i) (payouts ((settled.drop i).map (·.payout)) t.amount) := by
  induction pairs generalizing i settled s t with
  | nil =>
    have hle : settled.length ≤ i := by simp at hlen; omega
    simp only [distributePay, List.drop_eq_nil_of_le hle, List.take_of_length_le hle, payouts,
      payAll, List.map_nil, List.zip_nil_left, List.zipWith_nil_left, List.append_nil,
      Except.ok.injEq, Prod.mk.injEq]
    constructor <;> rintro ⟨rfl, rfl⟩ <;> exact ⟨rfl, rfl⟩
  | cons pair pairs ih =>
    have hi : i < settled.length := by simp at hlen; omega
    have hd := hne pair List.mem_cons_self
    have hne' : ∀ q ∈ pairs, q.2 ≠ vault := fun q hq => hne q (List.mem_cons_of_mem _ hq)
    by_cases h : i = last
    · -- the last pair: the payout becomes the balance the vault has by now
      obtain rfl : pairs = [] := by
        have := hlast (by simp)
        rw [← List.length_eq_zero_iff]
        simp at this
        omega
      have hdrop : settled.drop (i + 1) = [] := List.drop_eq_nil_of_le (by simp at hlen; omega)
      rw [distributePay_of_eq h hi hv, List.drop_eq_getElem_cons hi, hdrop, bind_eq_ok]
      simp only [distributePay, List.map_cons, List.map_nil, payouts, List.zip_cons_cons,
        List.zip_nil_left, payAll_cons, payAll_nil, Except.ok.injEq, Prod.mk.injEq,
        List.modify_eq_take_cons_drop hi, hdrop, List.zipWith_cons_cons, List.zipWith_nil_left]
      constructor
      · rintro ⟨s₁, hs₁, rfl, rfl⟩
        exact ⟨⟨s₁, hs₁, rfl⟩, rfl⟩
      · rintro ⟨⟨s₁, hs₁, rfl⟩, rfl⟩
        exact ⟨s₁, hs₁, rfl, rfl⟩
    · obtain ⟨pair', pairs', rfl⟩ : ∃ pair' pairs', pairs = pair' :: pairs' := by
        cases pairs with
        | nil => simp at hlast; omega
        | cons q qs => exact ⟨q, qs, rfl⟩
      have hi' : i + 1 < settled.length := by simp at hlen; omega
      rw [distributePay_of_ne h hi, List.drop_eq_getElem_cons hi, List.drop_eq_getElem_cons hi',
        bind_eq_ok]
      have hih := fun (s₁ : State K) (hs₁ : payTo E ctx p vault mint decimals pair.2
          settled[i].payout s = .ok s₁) => @ih s₁ _ (i + 1) settled (payTo_vault hv hd hs₁).2 hne'
        (by simpa [Nat.add_assoc, Nat.add_comm 1] using hlen)
        (fun _ => by simpa [Nat.add_assoc, Nat.add_comm 1] using hlast (by simp))
      simp only [List.drop_eq_getElem_cons hi', List.map_cons, payouts, List.zip_cons_cons,
        payAll_cons, List.zipWith_cons_cons, List.take_succ_eq_append_getElem hi,
        List.append_assoc, List.singleton_append] at hih ⊢
      constructor
      · rintro ⟨s₁, hs₁, h₁⟩
        obtain ⟨h₂, h₃⟩ := (hih s₁ hs₁).1 h₁
        exact ⟨⟨s₁, hs₁, h₂⟩, h₃⟩
      · rintro ⟨⟨s₁, hs₁, h₂⟩, h₃⟩
        exact ⟨s₁, hs₁, (hih s₁ hs₁).2 ⟨h₂, h₃⟩⟩

/-- One round of the loop of `emergency_cancel`. -/
theorem cancelPay_succ {memberCount n i : Nat} {remaining : List K} {refunds : List UInt64}
    {total total' : UInt64} {y : K} {d : UInt64}
    (hlen : remaining.length = 2 * (i + (n + 1))) (hlt : remaining.length < 2 ^ 64)
    (hm : memberCount = i + (n + 1)) (hy : remaining[i * 2 + 1]? = some y)
    (hd : refunds[i]? = some d) (hv : s.account vault = .token p₀ t) :
    cancelPay E ctx p vault mint decimals memberCount remaining refunds (n + 1) i total s
        = .ok (total', s') ↔
      ∃ total₁ s₁, checkedAdd64 total (if n = 0 then t.amount else d) = some total₁ ∧
        payTo E ctx p vault mint decimals y (if n = 0 then t.amount else d) s = .ok s₁ ∧
        cancelPay E ctx p vault mint decimals memberCount remaining refunds n (i + 1) total₁ s₁
          = .ok (total', s') := by
  have hi := checkedMulUsize_of (show i * 2 < 2 ^ 64 by omega)
  have hi' := checkedAddUsize_of (show i * 2 + 1 < 2 ^ 64 by omega)
  have hl : loadTokenAccount E s vault = .ok (p₀, t) :=
    loadTokenAccount_eq_ok.2 (State.token_eq_some.2 hv)
  have hsub : checkedSubUsize memberCount 1 = some (i + n) := by
    rw [checkedSubUsize, if_pos (by omega), hm]
    rfl
  have hn : i = i + n ↔ n = 0 := by omega
  by_cases h : n = 0
  · simp only [cancelPay, hi, hi', hy, hsub, hn, if_pos h, hl, orThrow_some, ok_bind, bind_eq_ok,
      orThrow_eq_ok, payTo]
    split <;> simp only [bind_eq_ok, Except.ok.injEq, exists_eq_left', exists_and_left]
  · simp only [cancelPay, hi, hi', hy, hsub, hn, if_neg h, hd, orThrow_some, ok_bind, bind_eq_ok,
      orThrow_eq_ok, payTo]
    split <;> simp only [bind_eq_ok, Except.ok.injEq, exists_eq_left', exists_and_left]

theorem cancelPay_eq_ok {memberCount n i : Nat} {remaining : List K} {refunds : List UInt64}
    {total total' : UInt64} (hv : s.account vault = .token p₀ t)
    (hne : ∀ pair ∈ chunksExact2 (remaining.drop (2 * i)), pair.2 ≠ vault)
    (hlen : remaining.length = 2 * (i + n)) (hlt : remaining.length < 2 ^ 64)
    (hm : memberCount = i + n) (hr : refunds.length = i + n) :
    cancelPay E ctx p vault mint decimals memberCount remaining refunds n i total s
        = .ok (total', s') ↔
      payAll E ctx p vault mint decimals (((chunksExact2 (remaining.drop (2 * i))).map Prod.snd).zip
          (payouts (refunds.drop i) t.amount)) s = .ok s' ∧
        total'.toNat = total.toNat + ((payouts (refunds.drop i) t.amount).map UInt64.toNat).sum := by
  induction n generalizing i s t total with
  | zero =>
    rw [List.drop_eq_nil_of_le (by omega), List.drop_eq_nil_of_le (by omega)]
    simp only [cancelPay, chunksExact2, payouts, List.map_nil, List.zip_nil_left, payAll_nil,
      List.sum_nil, Nat.add_zero, Except.ok.injEq, Prod.mk.injEq, UInt64.toNat_inj]
    constructor <;> rintro ⟨rfl, rfl⟩ <;> exact ⟨rfl, rfl⟩
  | succ n ih =>
    obtain ⟨x, y, -, hy, hd⟩ := chunksExact2_drop hlen
    have hi : i < refunds.length := by omega
    rw [cancelPay_succ hlen hlt hm hy (List.getElem?_eq_getElem hi) hv, hd,
      List.drop_eq_getElem_cons hi]
    rw [hd] at hne
    have hyv : y ≠ vault := hne (x, y) List.mem_cons_self
    have hih := fun (n' : UInt64) (s₁ : State K) (total₁ : UInt64)
      (hs₁ : payTo E ctx p vault mint decimals y n' s = .ok s₁) =>
      @ih s₁ _ (i + 1) total₁ (payTo_vault hv hyv hs₁).2
        (fun q hq => hne q (List.mem_cons_of_mem _ hq)) (by omega) (by omega) (by omega)
    have hps : payouts (refunds[i] :: refunds.drop (i + 1)) t.amount =
        (if n = 0 then t.amount else refunds[i]) ::
          payouts (refunds.drop (i + 1)) (t.amount - if n = 0 then t.amount else refunds[i]) := by
      by_cases hn : n = 0
      · rw [List.drop_eq_nil_of_le (by omega), if_pos hn]
        rfl
      · rw [List.drop_eq_getElem_cons (show i + 1 < refunds.length by omega), if_neg hn]
        rfl
    simp only [hps, List.map_cons, List.zip_cons_cons, payAll_cons, List.sum_cons]
    constructor
    · rintro ⟨total₁, s₁, ht, hs₁, h⟩
      obtain ⟨h₁, h₂⟩ := (hih _ s₁ total₁ hs₁).1 h
      exact ⟨⟨s₁, hs₁, h₁⟩, by rw [h₂, checkedAdd64_eq_some ht, Nat.add_assoc]⟩
    · rintro ⟨⟨s₁, hs₁, h₁⟩, h₂⟩
      have hlt' := total'.toNat_lt
      have ht := checkedAdd64_of (show total.toNat +
        (if n = 0 then t.amount else refunds[i]).toNat < 2 ^ 64 by omega)
      exact ⟨_, s₁, ht, hs₁, (hih _ s₁ _ hs₁).2
        ⟨h₁, by rw [h₂, checkedAdd64_eq_some ht, Nat.add_assoc]⟩⟩

omit [DecidableEq K] in
theorem totalPaid_eq_ok {settled : List (MemberSettled K)} {total total' : UInt64} :
    totalPaid settled total = .ok total' ↔
      total'.toNat = total.toNat + (settled.map (·.payout.toNat)).sum := by
  induction settled generalizing total with
  | nil => simp [totalPaid, UInt64.toNat_inj, eq_comm]
  | cons e settled ih =>
    simp only [totalPaid, bind_eq_ok, orThrow_eq_ok, ih, List.map_cons, List.sum_cons]
    constructor
    · rintro ⟨total₁, ht, h⟩
      rw [h, checkedAdd64_eq_some ht, Nat.add_assoc]
    · intro h
      have hlt := total'.toNat_lt
      have ht := checkedAdd64_of (show total.toNat + e.payout.toNat < 2 ^ 64 by omega)
      exact ⟨_, ht, by rw [h, checkedAdd64_eq_some ht, Nat.add_assoc]⟩

/-! ### The token accounts after the payouts -/

/-- The token map with `n` more tokens at `k`. -/
def creditTokens (tok : K → Option (TokenProgram × TokenAccount K)) (k : K) (n : UInt64) :
    K → Option (TokenProgram × TokenAccount K) :=
  update tok k ((tok k).map fun x => (x.1, { x.2 with amount := x.2.amount + n }))

def creditAll (tok : K → Option (TokenProgram × TokenAccount K)) :
    List (K × UInt64) → K → Option (TokenProgram × TokenAccount K)
  | [] => tok
  | pay :: pays => creditAll (creditTokens tok pay.1 pay.2) pays

variable {tok : K → Option (TokenProgram × TokenAccount K)} {pays : List (K × UInt64)}

theorem creditTokens_zero (k : K) : creditTokens tok k 0 = tok := by
  refine State.update_same ?_
  cases tok k with
  | none => rfl
  | some x => simp

theorem creditAll_update {k : K} {v : Option (TokenProgram × TokenAccount K)}
    (h : ∀ q ∈ pays, q.1 ≠ k) : creditAll (update tok k v) pays = update (creditAll tok pays) k v := by
  induction pays generalizing tok with
  | nil => rfl
  | cons pay pays ih =>
    have hk := h pay List.mem_cons_self
    rw [creditAll, creditAll, ← ih fun q hq => h q (List.mem_cons_of_mem _ hq), creditTokens,
      creditTokens, update_of_ne hk, update_comm hk]

theorem creditAll_of_notMem {k : K} (h : k ∉ pays.map Prod.fst) : creditAll tok pays k = tok k := by
  induction pays generalizing tok with
  | nil => rfl
  | cons pay pays ih =>
    simp only [List.map_cons, List.mem_cons, not_or] at h
    rw [creditAll, ih h.2, creditTokens, update_of_ne h.1]

theorem creditAll_of_mem {pay : K × UInt64} (hnd : (pays.map Prod.fst).Nodup) (h : pay ∈ pays) :
    creditAll tok pays pay.1 =
      (tok pay.1).map fun x => (x.1, { x.2 with amount := x.2.amount + pay.2 }) := by
  induction pays generalizing tok with
  | nil => cases h
  | cons q pays ih =>
    obtain ⟨hq, hnd⟩ := List.nodup_cons.1 hnd
    rcases List.mem_cons.1 h with rfl | h
    · rw [creditAll, creditAll_of_notMem hq, creditTokens, update_self]
    · have hne : pay.1 ≠ q.1 := by
        intro he
        exact hq (he ▸ List.mem_map_of_mem h)
      rw [creditAll, ih hnd h, creditTokens, update_of_ne hne]

/-- One payout on the ledger. -/
theorem payTo_effect {dst : K} {n : UInt64} (hv : s.account vault = .token p₀ t) (hd : dst ≠ vault)
    (h : payTo E ctx p vault mint decimals dst n s = .ok s') :
    (0 < n → ∃ t₁, s.account dst = .token p₀ t₁ ∧ t₁.amount.toNat + n.toNat < 2 ^ 64) ∧
      (∀ k, k ≠ vault → (0 < n → k ≠ dst) → s'.account k = s.account k) ∧
      s'.ledger = { s.ledger with
        token := update (creditTokens s.ledger.token dst n) vault
          (some (p₀, { t with amount := t.amount - n })) } := by
  unfold payTo at h
  split at h
  · rename_i h0
    obtain ⟨t₁, t', q, m, h₁, h₂, -, -, -, -, -, -, hle, hover, rfl⟩ := transferChecked_eq_ok.1 h
    rw [hv] at h₁
    cases h₁
    refine ⟨fun _ => ⟨t', h₂, hover.resolve_left hd.symm⟩, fun k hk hk' => ?_, ?_⟩
    · rw [State.moveTokens_of hv h₂ hd.symm]
      simp [update_of_ne hk, update_of_ne (hk' h0)]
    · have hdst : s.ledger.token dst = some (p, t') := State.token_eq_some.2 h₂
      rw [State.ledger_moveTokens hv h₂ hd.symm, movedTokens, update_comm hd.symm, creditTokens, hdst]
      rfl
  · rename_i hn
    cases h
    obtain rfl : n = 0 := by simpa using hn
    have hvt : s.ledger.token vault = some (p₀, { t with amount := t.amount - 0 }) := by
      simpa using State.token_eq_some.2 hv
    refine ⟨fun h => absurd h (by simp), fun k _ _ => rfl, ?_⟩
    rw [creditTokens_zero, State.update_same hvt]

/-- The payouts on the ledger. -/
theorem payAll_effect (hv : s.account vault = .token p₀ t) (hne : ∀ q ∈ pays, q.1 ≠ vault)
    (hnd : (pays.map Prod.fst).Nodup) (h : payAll E ctx p vault mint decimals pays s = .ok s') :
    (∀ q ∈ pays, 0 < q.2 →
        ∃ t₁, s.account q.1 = .token p₀ t₁ ∧ t₁.amount.toNat + q.2.toNat < 2 ^ 64) ∧
      ∃ n, n.toNat + (pays.map (·.2.toNat)).sum = t.amount.toNat ∧
        s'.account vault = .token p₀ { t with amount := n } ∧
        s'.ledger = { s.ledger with
          token := update (creditAll s.ledger.token pays) vault
            (some (p₀, { t with amount := n })) } := by
  induction pays generalizing s t with
  | nil =>
    obtain rfl := payAll_nil.1 h
    have hvt : s.ledger.token vault = some (p₀, t) := State.token_eq_some.2 hv
    refine ⟨by simp, t.amount, by simp, hv, ?_⟩
    rw [creditAll, State.update_same hvt]
  | cons pay pays ih =>
    obtain ⟨s₁, hs₁, h⟩ := payAll_cons.1 h
    have hd := hne pay List.mem_cons_self
    have hne' : ∀ q ∈ pays, q.1 ≠ vault := fun q hq => hne q (List.mem_cons_of_mem _ hq)
    obtain ⟨hnot, hnd⟩ := List.nodup_cons.1 hnd
    obtain ⟨hle, hv₁⟩ := payTo_vault hv hd hs₁
    obtain ⟨hpos, hacc, hL⟩ := payTo_effect hv hd hs₁
    obtain ⟨hpos', n, hn, hvn, hL'⟩ := ih hv₁ hne' hnd h
    refine ⟨fun q hq hq0 => ?_, n, ?_, hvn, ?_⟩
    · rcases List.mem_cons.1 hq with rfl | hq
      · exact hpos hq0
      · have hqd : q.1 ≠ pay.1 := by
          intro he
          exact hnot (he ▸ List.mem_map_of_mem hq)
        rw [← hacc _ (hne' q hq) fun _ => hqd]
        exact hpos' q hq hq0
    · have hsub := UInt64.toNat_sub_of_le _ _ hle
      have := UInt64.le_iff_toNat_le.1 hle
      simp only [List.map_cons, List.sum_cons] at hn ⊢
      omega
    · rw [hL', hL, creditAll_update hne', update_idem, creditAll]

/-- The payouts touch the vault and their token accounts only. -/
theorem payAll_account (hv : s.account vault = .token p₀ t) (hne : ∀ q ∈ pays, q.1 ≠ vault)
    (h : payAll E ctx p vault mint decimals pays s = .ok s') :
    s'.lamports = s.lamports ∧
      ∀ k, k ≠ vault → k ∉ pays.map Prod.fst → s'.account k = s.account k := by
  induction pays generalizing s t with
  | nil =>
    obtain rfl := payAll_nil.1 h
    exact ⟨rfl, fun _ _ _ => rfl⟩
  | cons pay pays ih =>
    obtain ⟨s₁, hs₁, h⟩ := payAll_cons.1 h
    have hd := hne pay List.mem_cons_self
    obtain ⟨-, hacc, hL⟩ := payTo_effect hv hd hs₁
    obtain ⟨hl, hacc'⟩ := ih (payTo_vault hv hd hs₁).2
      (fun q hq => hne q (List.mem_cons_of_mem _ hq)) h
    refine ⟨hl.trans (congrArg Ledger.lamports hL), fun k hk hm => ?_⟩
    simp only [List.map_cons, List.mem_cons, not_or] at hm
    rw [hacc' k hk hm.2, hacc k hk fun _ => hm.1]

/-- The token program's verdict is all that payouts take from the transaction. -/
theorem payAll_ctx {ctx' : Ctx K} (h : ctx'.refuses = ctx.refuses) :
    payAll E ctx' p vault mint decimals pays s = payAll E ctx p vault mint decimals pays s := by
  induction pays generalizing s with
  | nil => rfl
  | cons pay pays ih => simp only [payAll, payTo, transferChecked, h, ih]

/-- The payouts go through when each token account can take its share. -/
theorem payAll_ok {q : TokenProgram} {m : Mint} (hv : s.account vault = .token p t)
    (hmint : s.account mint = .mint q m) (hdec : m.decimals = decimals) (htm : t.mint = mint)
    (hto : t.owner = vault) (hne : ∀ q ∈ pays, q.1 ≠ vault) (hnd : (pays.map Prod.fst).Nodup)
    (hsum : (pays.map (·.2.toNat)).sum ≤ t.amount.toNat)
    (hpays : ∀ pay ∈ pays, 0 < pay.2 → ∃ t₁, s.account pay.1 = .token p t₁ ∧ t₁.mint = mint ∧
      t₁.amount.toNat + pay.2.toNat < 2 ^ 64 ∧
      ctx.refuses (.transferChecked (E.tokenKey p) vault mint pay.1 vault pay.2) = false) :
    ∃ s', payAll E ctx p vault mint decimals pays s = .ok s' := by
  induction pays generalizing s t with
  | nil => exact ⟨s, rfl⟩
  | cons pay pays ih =>
    have hd := hne pay List.mem_cons_self
    have hne' : ∀ q ∈ pays, q.1 ≠ vault := fun q hq => hne q (List.mem_cons_of_mem _ hq)
    obtain ⟨hnot, hnd⟩ := List.nodup_cons.1 hnd
    simp only [List.map_cons, List.sum_cons] at hsum
    obtain ⟨s₁, hs₁⟩ : ∃ s₁, payTo E ctx p vault mint decimals pay.1 pay.2 s = .ok s₁ := by
      unfold payTo
      split
      · rename_i h0
        obtain ⟨t₁, h₁, hm₁, hlt, hrf⟩ := hpays pay List.mem_cons_self h0
        exact ⟨_, transferChecked_eq_ok.2 ⟨t, t₁, q, m, hv, h₁, hmint, htm, hm₁, hdec, hto, hrf,
          UInt64.le_iff_toNat_le.2 (by omega), .inr hlt, rfl⟩⟩
      · exact ⟨s, rfl⟩
    obtain ⟨hle, hv₁⟩ := payTo_vault hv hd hs₁
    obtain ⟨-, hacc, -⟩ := payTo_effect hv hd hs₁
    have hmv : mint ≠ vault := by rintro rfl; rw [hv] at hmint; cases hmint
    have hmint₁ : s₁.account mint = .mint q m := by
      rw [hacc mint hmv fun h0 he => ?_, hmint]
      obtain ⟨t₁, h₁, -⟩ := hpays pay List.mem_cons_self h0
      rw [← he, hmint] at h₁
      cases h₁
    have hsum₁ : (pays.map (·.2.toNat)).sum ≤ (t.amount - pay.2).toNat := by
      rw [UInt64.toNat_sub_of_le _ _ hle]
      omega
    obtain ⟨s', hs'⟩ := @ih s₁ { t with amount := t.amount - pay.2 } hv₁ hmint₁ htm hto hne' hnd
      hsum₁ fun q hq h0 => by
        have hqd : q.1 ≠ pay.1 := by
          intro he
          exact hnot (he ▸ List.mem_map_of_mem hq)
        rw [hacc _ (hne' q hq) fun _ => hqd]
        exact hpays q (List.mem_cons_of_mem _ hq) h0
    exact ⟨s', payAll_cons.2 ⟨s₁, hs₁, hs'⟩⟩

end

end SafeNudge
