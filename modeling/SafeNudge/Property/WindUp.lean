import SafeNudge.Property.Liveness
import SafeNudge.Property.Retention
import SafeNudge.Property.Tally

/-!
# A group can be wound up

What is left of a settled group can always be closed, by anybody and in any order of its records:
the records once their retention is over, then the group with its gate, then the tallies. None of
the calls can be made to fail by what others do, and afterwards every address of the group is
unused (`winds_up`). A creator with the right list gets there from an open or an active group too.
What is left can always be listed: the records are as many as the group counts, and the tallies are
those of members whose joins the history holds (`exists_listsRecords`, `exists_listsTallies`).
-/

namespace SafeNudge

open Lib Function

variable {K : Type} [DecidableEq K] {E : Env K} {ctx : Ctx K} {h h' : List (StepEntry K)}
  {s s' : State K} {G J : K} {g : GroupConfig K} {c : Int64}

/-- No address of the group at `G`. -/
def Env.Elsewhere (E : Env K) (G k : K) : Prop :=
  ∀ seeds b, E.createProgramAddress seeds b = some k → seeds.groupAt k ≠ G

/-- The open records of the group at `G`, each once and with its rent payer. -/
structure ListsRecords (s : State K) (G : K) (records : List (K × K)) : Prop where
  nodup : (records.map Prod.fst).Nodup
  mem : ∀ k, k ∈ records.map Prod.fst ↔ k ∈ s.recordsOf G
  payer : ∀ x ∈ records, ∀ r, s.record x.1 = some r → x.2 = r.rentPayer

/-- The tallies of the group at `G`, each once, with the member it counts for and its rent payer. -/
structure ListsTallies (E : Env K) (s : State K) (G : K) (tallies : List (K × K × K)) : Prop where
  nodup : (tallies.map Prod.fst).Nodup
  mem : ∀ {M k b t}, E.findProgramAddress (.tally G M) = some (k, b) → s.tally k = some t →
    k ∈ tallies.map Prod.fst
  entry : ∀ x ∈ tallies, (∃ b, E.findProgramAddress (.tally G x.2.1) = some (x.1, b)) ∧
    ∃ t, s.tally x.1 = some t ∧ x.2.2 = t.rentPayer

/-- The records of a live group can be listed. -/
theorem exists_listsRecords (hI : Inv E s.ledger) (hg : s.group G = some g) :
    ∃ records, ListsRecords s G records := by
  obtain ⟨hfin, -⟩ := hI.card_records hg
  let keys := hfin.toFinset.toList
  let payer : K → K := fun k => (s.record k).elim k MemberRecord.rentPayer
  have hfst : (keys.map fun k => (k, payer k)).map Prod.fst = keys := by
    rw [List.map_map]
    exact List.map_id keys
  refine ⟨keys.map fun k => (k, payer k), ?_, fun k => ?_, fun x hx r hr => ?_⟩
  · rw [hfst]
    exact Finset.nodup_toList _
  · rw [hfst, Finset.mem_toList, Set.Finite.mem_toFinset]
  · obtain ⟨k, -, rfl⟩ := List.mem_map.1 hx
    dsimp only [payer] at hr ⊢
    rw [hr]
    rfl

/-- The member that joins. -/
def Action.joiner? : Action K → Option K
  | .call _ (.joinGroup a _ _) _ => some a.member
  | _ => none

/-- The entry for the tally of a member, if there is one. -/
def tallied? (E : Env K) (s : State K) (G M : K) : Option (K × K × K) :=
  (E.findProgramAddress (.tally G M)).bind fun a =>
    (s.tally a.1).map fun t => (a.1, M, t.rentPayer)

omit [DecidableEq K] in
theorem tallied?_eq_some {M : K} {x : K × K × K} : tallied? E s G M = some x ↔
    ∃ k b t, E.findProgramAddress (.tally G M) = some (k, b) ∧ s.tally k = some t ∧
      x = (k, M, t.rentPayer) := by
  simp only [tallied?, Option.bind_eq_some_iff, Option.map_eq_some_iff, Prod.exists,
    exists_and_left, @eq_comm _ x]

/-- The tallies of a group can be listed. -/
theorem exists_listsTallies (hr : Reached E h s) (G : K) :
    ∃ tallies, ListsTallies E s G tallies := by
  let members := (h.filterMap fun e => e.act.joiner?).dedup
  refine ⟨members.filterMap (tallied? E s G), ?_, fun {M k b t} hk ht => ?_, fun x hx => ?_⟩
  · rw [List.map_filterMap]
    refine (List.nodup_dedup _).filterMap fun M M' k hM hM' => ?_
    obtain ⟨x, hx, rfl⟩ := Option.map_eq_some_iff.1 hM
    obtain ⟨y, hy, hyx⟩ := Option.map_eq_some_iff.1 hM'
    obtain ⟨k, b, t, hk, -, rfl⟩ := tallied?_eq_some.1 hx
    obtain ⟨k', b', t', hk', -, rfl⟩ := tallied?_eq_some.1 hy
    obtain rfl : k' = k := hyx
    have hseeds := Env.findProgramAddress_inj hk hk'
    simpa using hseeds
  · -- the join that created the tally is in the history
    obtain ⟨newer, e, expected, hlatest, -, -, hjoin⟩ := tally_since_creation hr hk ht
    obtain ⟨older, rfl⟩ := hlatest.split
    obtain ⟨ctx, a, terms, events, hact, -, rfl, -⟩ := hjoin
    have hmem : a.member ∈ members := by
      rw [List.mem_dedup, List.mem_filterMap]
      exact ⟨e, List.mem_append_right _ List.mem_cons_self, by rw [hact]; rfl⟩
    have hentry := tallied?_eq_some.2 ⟨k, b, t, hk, ht, rfl⟩
    exact List.mem_map.2 ⟨_, List.mem_filterMap.2 ⟨_, hmem, hentry⟩, rfl⟩
  · obtain ⟨M, -, hM⟩ := List.mem_filterMap.1 hx
    obtain ⟨k, b, t, hk, ht, rfl⟩ := tallied?_eq_some.1 hM
    exact ⟨⟨b, hk⟩, t, ht, rfl⟩

def closeRecords (G : K) (records : List (K × K)) : List (Call K) :=
  records.map fun x => .closeMemberRecord ⟨G, x.1, x.2⟩

def closeTallies (G : K) (tallies : List (K × K × K)) : List (Call K) :=
  tallies.map fun x => .closeJoinTally ⟨G, x.1, x.2.2⟩ x.2.1

/-- The calls that close what is left of a settled group. -/
def windUp (G J rentPayer : K) (records : List (K × K)) (tallies : List (K × K × K)) :
    List (Call K) :=
  closeRecords G records ++ .closeGroup ⟨G, rentPayer, J⟩ :: closeTallies G tallies

/-- One call for each entry of a list, when every call goes through and leaves the rest to do. -/
theorem replay_each {α : Type} {call : α → Call K} {p : Ctx K → Prop}
    {todo : List α → State K → Prop} {l : List α} {calls : List (Ctx K × Call K)}
    (hstep : ∀ {ctx h s x l}, Reached E h s → p ctx → todo (x :: l) s →
      ∃ s' events, execute E ctx (call x) s = .ok (s', events) ∧ todo l s')
    (hr : Reached E h s) (hl : todo l s) (hcalls : calls.map Prod.snd = l.map call)
    (hp : ∀ x ∈ calls, p x.1) :
    ∃ h' s', replay E calls h s = some (h', s') ∧ todo [] s' := by
  induction l generalizing h s calls with
  | nil =>
    obtain rfl := List.map_eq_nil_iff.1 hcalls
    exact ⟨h, s, rfl, hl⟩
  | cons x l ih =>
    obtain ⟨⟨ctx, c⟩, calls, rfl, hc, hrest⟩ := List.map_eq_cons_iff.1 hcalls
    obtain ⟨hctx, hrestp⟩ := List.forall_mem_cons.1 hp
    obtain rfl : c = call x := hc
    obtain ⟨s₁, events, hex, hl₁⟩ := hstep hr hctx hl
    obtain ⟨h', s', hrun, hl'⟩ := ih (.snoc hr (.call hex)) hl₁ hrest hrestp
    exact ⟨h', s', by simp only [replay, hex, hrun], hl'⟩

/-! ## Records -/

/-- A record of a settled group closes when its retention is over. -/
theorem closeMemberRecord_succeeds {k : K} {r : MemberRecord K} (hI : Inv E s.ledger)
    (hg : s.group G = some g) (hs : g.isSettled) (hc : recordRetentionEnd E g.settledAt = .ok c)
    (hnow : c ≤ ctx.unixTimestamp) (hk : s.record k = some r) (hG : r.group = G) :
    ∃ currentMembers, closeMemberRecord E ctx ⟨G, k, r.rentPayer⟩ s =
      .ok ((s.set G (.groupConfig { g with currentMembers })).close k r.rentPayer, []) := by
  have hpl := hI.toLayout.placed hk
  have haddr := Env.findProgramAddress_create hpl.address
  rw [hG] at haddr
  -- the record is one of those the group counts
  obtain ⟨pool, hp⟩ := hI.custody hg
  have hmem : k ∈ pool.members := (hp.mem hI.toLayout).2 ⟨r, hk, hG⟩
  have hcount : (1 : UInt8).toNat ≤ g.currentMembers.toNat := by
    rw [← hp.count]
    exact Finset.card_pos.2 ⟨_, hmem⟩
  have hsub := checkedSub8_of hcount
  refine ⟨g.currentMembers - 1, ?_⟩
  simp only [closeMemberRecord, bind_eq_ok, require_eq_ok, loadGroupConfig_eq_ok,
    loadMemberRecord_eq_ok, requireSeeds_eq_ok, requireClose_eq_ok, orThrow_eq_ok, pure_eq_ok,
    exists_const]
  exact ⟨g, hg, r, hk, Env.findProgramAddress_create (hI.group hg).address, hs, c, hc, hnow, haddr,
    rfl, (Env.ne_of_canSign haddr hpl.payer).symm, _, hsub, rfl⟩

/-- The group at `G` is settled as `g`, its open records are those listed, and nothing elsewhere
differs from `s₀`. -/
structure ClosingRecords (E : Env K) (s₀ : State K) (G : K) (g : GroupConfig K)
    (records : List (K × K)) (s : State K) : Prop where
  group : ∃ currentMembers, s.group G = some { g with currentMembers }
  lists : ListsRecords s G records
  tally : s.tally = s₀.tally
  account : ∀ k, E.Elsewhere G k → s.account k = s₀.account k

theorem ClosingRecords.step {s₀ : State K} {x : K × K} {records : List (K × K)}
    (hr : Reached E h s) (hs : g.isSettled) (hc : recordRetentionEnd E g.settledAt = .ok c)
    (hnow : c ≤ ctx.unixTimestamp) (hC : ClosingRecords E s₀ G g (x :: records) s) :
    ∃ s' events, execute E ctx (.closeMemberRecord ⟨G, x.1, x.2⟩) s = .ok (s', events) ∧
      ClosingRecords E s₀ G g records s' := by
  have hI := Reached.inv hr
  obtain ⟨cm₀, hg⟩ := hC.group
  have hl := hC.lists
  obtain ⟨hnew, hnd⟩ := List.nodup_cons.1 hl.nodup
  obtain ⟨r, hk, hrG⟩ := (hl.mem x.1).1 List.mem_cons_self
  obtain ⟨cm, hok⟩ := closeMemberRecord_succeeds hI hg hs hc hnow hk hrG
  rw [← hl.payer x List.mem_cons_self r hk] at hok
  have haddr := Env.findProgramAddress_create (hI.toLayout.placed hk).address
  have hne : G ≠ x.1 := by
    rintro rfl
    rw [(State.views_of_group hg).1] at hk
    cases hk
  -- the record at `x` is gone, the others stay
  have hrec : ∀ k r, ((s.set G (.groupConfig { g with currentMembers := cm })).close x.1 x.2).record
      k = some r ↔ k ≠ x.1 ∧ s.record k = some r := by
    intro k r
    by_cases hkx : k = x.1
    · simp [State.close_eq, hkx, Account.memberRecord?]
    · by_cases hkG : k = G
      · simp [State.close_eq, hkG, hne, (State.views_of_group hg).1, Account.memberRecord?]
      · simp [State.close_eq, hkx, hkG]
  refine ⟨_, [], hok, ⟨cm, ?_⟩, ⟨hnd, fun k => ?_, fun y hy r hr => ?_⟩, ?_, fun k hk => ?_⟩
  · simp [State.close_eq, update_of_ne hne, Account.groupConfig?]
  · have hmem := hl.mem k
    rw [List.map_cons, List.mem_cons] at hmem
    constructor
    · intro hm
      obtain ⟨r, hr, hG⟩ := hmem.1 (.inr hm)
      exact ⟨r, (hrec k r).2 ⟨fun he => hnew (he ▸ hm), hr⟩, hG⟩
    · intro hk'
      obtain ⟨r, hr, hG⟩ := hk'
      obtain ⟨hkx, hr⟩ := (hrec k r).1 hr
      exact (hmem.2 ⟨r, hr, hG⟩).resolve_left hkx
  · exact hl.payer y (List.mem_cons_of_mem _ hy) r ((hrec y.1 r).1 hr).2
  · have htx := (State.views_of_record hk).2.2.1
    have htG := (State.views_of_group hg).2.2.1
    rw [← hC.tally]
    simp [State.close_eq, Account.joinTally?, State.update_same, htx, htG]
  · have hkG : k ≠ G := by
      rintro rfl
      exact hk _ _ (Env.findProgramAddress_create (hI.group hg).address) rfl
    have hkx : k ≠ x.1 := by
      rintro rfl
      exact hk _ _ haddr hrG
    rw [← hC.account k hk]
    simp [State.close_eq, hkx, hkG]

/-! ## The group and its tallies -/

/-- A settled group without records closes, and its gate with it. -/
theorem closeGroup_succeeds {b : UInt8} (hI : Inv E s.ledger) (hg : s.group G = some g)
    (hs : g.isSettled) (h0 : s.recordsOf G = ∅)
    (hJ : E.findProgramAddress (.join G) = some (J, b)) :
    ∃ s' events, closeGroup E ⟨G, g.rentPayer, J⟩ s = .ok (s', events) ∧ s'.account G = .system ∧
      s'.account J = .system ∧ ∀ k, k ≠ G → k ≠ J → s'.account k = s.account k := by
  have hL := hI.toLayout
  have hok := hI.group hg
  have haddr := Env.findProgramAddress_create hok.address
  have hGJ : J ≠ G := Env.address_ne (Env.findProgramAddress_create hJ) haddr (by simp)
  have hcm : g.currentMembers = 0 := by
    have hcard := (hI.card_records hg).2
    rw [h0, Set.ncard_empty] at hcard
    exact UInt8.toNat_inj.1 hcard.symm
  -- what is at the gate address is a gate, or nothing
  obtain ⟨n, s₁, hgate, hJ₁, hkept⟩ : ∃ n s₁, closeJoinGate E J g.rentPayer s = .ok (n, s₁) ∧
      s₁.account J = .system ∧ ∀ k, k ≠ J → s₁.account k = s.account k := by
    unfold closeJoinGate
    cases hgate : s.gate J with
    | none =>
      have hv := hL.gate_vacant hJ hgate
      rw [if_neg (by rw [hv]; exact E.programId_ne_system.symm)]
      exact ⟨0, s, rfl, hv, fun _ _ => rfl⟩
    | some j =>
      rw [if_pos (by rw [State.gate_eq_some.1 hgate]; rfl), (loadJoinGate_eq_ok).2 hgate]
      refine ⟨_, _, rfl, by simp [State.close_eq], fun k hk => ?_⟩
      simp [State.close_eq, hk]
  refine ⟨s₁.close G g.rentPayer,
    [.groupClosed G g.rentPayer (s₁.lamports G) n], ?_, by simp [State.close_eq], ?_, fun k hkG hkJ => ?_⟩
  · simp only [closeGroup, bind_eq_ok, require_eq_ok, loadGroupConfig_eq_ok, requireSeeds_eq_ok,
      requireClose_eq_ok, requireCanonical_eq_ok, pure_eq_ok, exists_const]
    exact ⟨g, hg, haddr, hs, hcm, rfl, (Env.ne_of_canSign haddr hok.payer).symm, b, hJ, (n, s₁), hgate,
      rfl⟩
  · simp [State.close_eq, hGJ, hJ₁]
  · simp [State.close_eq, hkG, hkept k hkJ]

/-- The group at `G` is gone, its tallies are those listed, and nothing elsewhere differs from
`s₀`. -/
structure ClosingTallies (E : Env K) (s₀ : State K) (G : K) (tallies : List (K × K × K))
    (s : State K) : Prop where
  group : s.account G = .system
  lists : ListsTallies E s G tallies
  account : ∀ k, E.Elsewhere G k → s.account k = s₀.account k

theorem ClosingTallies.step {s₀ : State K} {x : K × K × K} {tallies : List (K × K × K)}
    (hr : Reached E h s) (hC : ClosingTallies E s₀ G (x :: tallies) s) :
    ∃ s' events, execute E ctx (.closeJoinTally ⟨G, x.1, x.2.2⟩ x.2.1) s = .ok (s', events) ∧
      ClosingTallies E s₀ G tallies s' := by
  have hl := hC.lists
  obtain ⟨hnew, hnd⟩ := List.nodup_cons.1 hl.nodup
  obtain ⟨⟨⟨b, hx⟩, t, ht, hpay⟩, hentry⟩ := List.forall_mem_cons.1 hl.entry
  have haddr := Env.findProgramAddress_create hx
  have hne : x.1 ≠ t.rentPayer := (Env.ne_of_canSign haddr ((Reached.inv hr).tally ht).1).symm
  have hok : closeJoinTally E ⟨G, x.1, x.2.2⟩ x.2.1 s = .ok (s.close x.1 t.rentPayer, []) := by
    simp only [closeJoinTally, bind_eq_ok, require_eq_ok, loadJoinTally_eq_ok,
      requireCanonical_eq_ok, requireClose_eq_ok, pure_eq_ok, exists_const, hpay]
    refine ⟨t, ht, ?_, b, hx, rfl, hne, trivial⟩
    rw [hC.group]
    exact E.programId_ne_system.symm
  have hxG : G ≠ x.1 := by
    rintro rfl
    have hgone := hC.group
    rw [State.tally_eq_some.1 ht] at hgone
    cases hgone
  have htally : ∀ k t', (s.close x.1 t.rentPayer).tally k = some t' ↔
      k ≠ x.1 ∧ s.tally k = some t' := by
    intro k t'
    by_cases hkx : k = x.1 <;> simp [State.close_eq, hkx, Account.joinTally?]
  refine ⟨_, [], hok, ?_, ⟨hnd, fun {M k b t'} hk hkt => ?_, fun y hy => ?_⟩, fun k hk => ?_⟩
  · simp [State.close_eq, hxG, hC.group]
  · obtain ⟨hkx, hkt⟩ := (htally k t').1 hkt
    exact (List.mem_cons.1 (hl.mem hk hkt)).resolve_left hkx
  · obtain ⟨hb, t', ht', hpay'⟩ := hentry y hy
    exact ⟨hb, t', (htally _ _).2 ⟨fun he => hnew (he ▸ List.mem_map_of_mem hy), ht'⟩, hpay'⟩
  · have hkx : k ≠ x.1 := by
      rintro rfl
      exact hk _ _ haddr rfl
    rw [← hC.account k hk]
    simp [State.close_eq, hkx]

/-! ## The whole winding up -/

/-- Once a group and its tallies are gone, its addresses are unused. -/
theorem Layout.unused (hL : Layout E s.ledger) (hG : s.group G = none)
    (ht : ∀ {M k b t}, E.findProgramAddress (.tally G M) = some (k, b) → s.tally k ≠ some t)
    {seeds : Seeds K} {b : UInt8} {k : K} (hk : E.createProgramAddress seeds b = some k)
    (hat : seeds.groupAt k = G) : s.account k = .system := by
  refine (hL.unused_or_tally hG hk hat).resolve_right ?_
  rintro ⟨M, t, b', hM, -, htk⟩
  exact ht hM htk

/-- From a settled group on. -/
theorem replay_windUp {b : UInt8} {records : List (K × K)} {tallies : List (K × K × K)}
    {calls : List (Ctx K × Call K)} (hr : Reached E h s) (hg : s.group G = some g)
    (hs : g.isSettled) (hJ : E.findProgramAddress (.join G) = some (J, b))
    (hc : recordRetentionEnd E g.settledAt = .ok c) (hrec : ListsRecords s G records)
    (htal : ListsTallies E s G tallies)
    (hcalls : calls.map Prod.snd = windUp G J g.rentPayer records tallies)
    (hnow : ∀ x ∈ calls, c ≤ x.1.unixTimestamp) :
    ∃ h' s', replay E calls h s = some (h', s') ∧
      (∀ {seeds b k}, E.createProgramAddress seeds b = some k → seeds.groupAt k = G →
        s'.account k = .system) ∧
      ∀ k, E.Elsewhere G k → s'.account k = s.account k := by
  -- the calls split as the list they make does
  obtain ⟨calls₁, rest, rfl, hcalls₁, hrest⟩ := List.map_eq_append_iff.1 hcalls
  obtain ⟨⟨ctx, call⟩, calls₂, rfl, hcall, hcalls₂⟩ := List.map_eq_cons_iff.1 hrest
  obtain rfl : call = .closeGroup ⟨G, g.rentPayer, J⟩ := hcall
  obtain ⟨hnow₁, hnow₂⟩ := List.forall_mem_append.1 hnow
  -- the records
  have hC : ClosingRecords E s G g records s := ⟨⟨_, hg⟩, hrec, rfl, fun _ _ => rfl⟩
  obtain ⟨h₁, s₁, hrun₁, hC₁⟩ := replay_each (fun hr hok hC => hC.step hr hs hc hok) hr hC hcalls₁ hnow₁
  have hr₁ := replay_reached hr hrun₁
  obtain ⟨cm, hg₁⟩ := hC₁.group
  have hempty : s₁.recordsOf G = ∅ :=
    Set.eq_empty_of_forall_notMem fun k hk => List.not_mem_nil ((hC₁.lists.mem k).2 hk)
  -- the group and its gate
  obtain ⟨s₂, events, hok₂, hG₂, hJ₂, hkept₂⟩ :=
    closeGroup_succeeds (Reached.inv hr₁) hg₁ hs hempty hJ
  have hr₂ : Reached E (⟨s₁, .call ctx _ events, s₂⟩ :: h₁) s₂ :=
    .snoc hr₁ (.call (show execute E ctx (.closeGroup ⟨G, g.rentPayer, J⟩) s₁ = _ from hok₂))
  have hgone₂ : ∀ {k t}, s₂.tally k = some t → s.tally k = some t := by
    intro k t ht
    have hkG : k ≠ G := by
      rintro rfl
      rw [(State.views_of_vacant hG₂).2.2.2.1] at ht
      cases ht
    have hkJ : k ≠ J := by
      rintro rfl
      rw [(State.views_of_vacant hJ₂).2.2.2.1] at ht
      cases ht
    rw [State.tally, hkept₂ k hkG hkJ] at ht
    exact hC₁.tally ▸ ht
  have haddr := Env.findProgramAddress_create ((Reached.inv hr).group hg).address
  have htal₂ : ListsTallies E s₂ G tallies := by
    refine ⟨htal.nodup, fun hk ht => htal.mem hk (hgone₂ ht), fun x hx => ?_⟩
    obtain ⟨⟨b', hx⟩, t, ht, hpay⟩ := htal.entry x hx
    have hx' := Env.findProgramAddress_create hx
    refine ⟨⟨b', hx⟩, t, ?_, hpay⟩
    rw [State.tally, hkept₂ _ (Env.address_ne hx' haddr (by simp))
      (Env.address_ne hx' (Env.findProgramAddress_create hJ) (by simp))]
    exact (congrFun hC₁.tally _).trans ht
  -- the tallies
  have hT : ClosingTallies E s G tallies s₂ := by
    refine ⟨hG₂, htal₂, fun k hk => ?_⟩
    have hkG : k ≠ G := by
      rintro rfl
      exact hk _ _ haddr rfl
    have hkJ : k ≠ J := by
      rintro rfl
      exact hk _ _ (Env.findProgramAddress_create hJ) rfl
    rw [hkept₂ k hkG hkJ, hC₁.account k hk]
  obtain ⟨h₃, s₃, hrun₃, hT₃⟩ := replay_each (p := fun _ => True) (fun hr _ hT => hT.step hr) hr₂ hT
    hcalls₂ fun _ _ => trivial
  refine ⟨h₃, s₃, ?_, fun hk hat => ?_, hT₃.account⟩
  · rw [replay_append hrun₁]
    simp only [replay, execute, hok₂]
    exact hrun₃
  · refine (Reached.inv (replay_reached hr₂ hrun₃)).unused (State.views_of_vacant hT₃.group).1 ?_ hk hat
    exact fun hM ht => List.not_mem_nil (hT₃.lists.mem hM ht)

/-- A cancelled group has the records and the tallies it had. -/
theorem emergencyCancel_lists {e : EmergencyCancel K} {remaining : List K} {events : List (Event K)}
    {records : List (K × K)} {tallies : List (K × K × K)} (hI : Inv E s.ledger)
    (hg : s.group e.groupConfig = some g)
    (hex : emergencyCancel E ctx e remaining s = .ok (s', events))
    (hrec : ListsRecords s e.groupConfig records) (htal : ListsTallies E s e.groupConfig tallies) :
    (∃ g', s'.group e.groupConfig = some g' ∧ g'.isSettled ∧ g'.settledAt = ctx.unixTimestamp ∧
      g'.rentPayer = g.rentPayer) ∧
    ListsRecords s' e.groupConfig records ∧ ListsTallies E s' e.groupConfig tallies := by
  have hL := hI.toLayout
  have hex : execute E ctx (.emergencyCancel e remaining) s = .ok (s', events) := hex
  have hstep : Step E s _ s' := .call hex
  obtain ⟨ctx', c', events', g₀, g', hact, hg₀, -, hg', hs', hat, -, hrecord⟩ :=
    hstep.settlement hL (G := e.groupConfig) rfl
  obtain ⟨rfl, -, -⟩ := Action.call.inj hact
  -- the fields of its creation stay
  obtain ⟨-, hsame⟩ := hstep.group hL hg
  have hpayer : g'.rentPayer = g.rentPayer := by
    rcases hsame with ⟨-, g'', hg'', hsame, -⟩ | ⟨hclose, -⟩
    · rw [hg'] at hg''
      rw [Option.some.inj hg'', hsame]
    · exact hclose.elim
  have htally : s'.tally = s.tally := by
    funext k
    rcases (execute_effect hL hex).tallyStep k with h | ⟨_, _, _, _, _, _, _, hc, _⟩ | ⟨_, _, _, hc, _⟩
    · exact h
    · cases hc
    · cases hc
  refine ⟨⟨g', hg', hs', hat, hpayer⟩, ⟨hrec.nodup, fun k => ?_, ?_⟩, htal.nodup, ?_, ?_⟩
  · rw [hrec.mem k, State.recordsOf, State.recordsOf, hrecord]
  · rw [hrecord]
    exact hrec.payer
  · rw [htally]
    exact htal.mem
  · rw [htally]
    exact htal.entry

/-- In every reachable state: what is left of a group can be listed, and if the group is settled it
closes in the order of `windUp`, its records in any order, whoever calls, and leaves every address of
the group unused and every other account as it was. From an open or an active group the creator gets
there by `emergency_cancel`. -/
theorem winds_up {b : UInt8} (hr : Reached E h s) (hg : s.group G = some g)
    (hJ : E.findProgramAddress (.join G) = some (J, b)) :
    (∃ records, ListsRecords s G records) ∧ (∃ tallies, ListsTallies E s G tallies) ∧
    ∀ records tallies, ListsRecords s G records → ListsTallies E s G tallies →
    (g.isSettled → ∀ c calls, recordRetentionEnd E g.settledAt = .ok c →
      calls.map Prod.snd = windUp G J g.rentPayer records tallies →
      (∀ x ∈ calls, c ≤ x.1.unixTimestamp) →
      ∃ h' s', replay E calls h s = some (h', s') ∧
        (∀ seeds b k, E.createProgramAddress seeds b = some k → seeds.groupAt k = G →
          s'.account k = .system) ∧
        ∀ k, E.Elsewhere G k → s'.account k = s.account k) ∧
    (¬g.isSettled → ∃ V p t, E.findProgramAddress (.vault G) = some (V, g.vaultBump) ∧
      s.token V = some (p, t) ∧ ∀ ctx e remaining c calls, Signed E ctx e.creator →
      g.creator = e.creator → e.groupConfig = G → e.vault = V → e.mint = g.mint →
      e.tokenProgram = E.tokenKey p → PayableList E ctx s p G V g.mint remaining →
      Closes E ctx p V G →
      (g.currentMembers = 0 → e.mintIsWritable = true ∧ Burns E ctx s p V g.mint) →
      recordRetentionEnd E ctx.unixTimestamp = .ok c →
      calls.map Prod.snd = windUp G J g.rentPayer records tallies →
      (∀ x ∈ calls, c ≤ x.1.unixTimestamp) →
      ∃ h' s', replay E ((ctx, .emergencyCancel e remaining) :: calls) h s = some (h', s') ∧
        ∀ seeds b k, E.createProgramAddress seeds b = some k → seeds.groupAt k = G →
          s'.account k = .system) := by
  have hI := Reached.inv hr
  refine ⟨exists_listsRecords hI hg, exists_listsTallies hr G, fun records tallies hrec htal =>
    ⟨fun hs c calls hc hcalls hnow => ?_, fun hns => ?_⟩⟩
  · obtain ⟨h', s', hrun, hgone, hkept⟩ := replay_windUp hr hg hs hJ hc hrec htal hcalls hnow
    exact ⟨h', s', hrun, fun _ _ _ => hgone, hkept⟩
  · obtain ⟨V, hV, -⟩ := hI.vault hg
    have hV' := Env.findProgramAddress_create hV
    obtain ⟨p, t, ht, -⟩ := hI.vault_held hg hns hV'
    refine ⟨V, p, t, hV, ht, ?_⟩
    rintro ctx e remaining c calls hsig hcr rfl rfl hm htp hl hclose hburn hc hcalls hnow
    have hstatus : g.status = STATUS_OPEN ∨ g.status = STATUS_ACTIVE := by
      rcases (hI.group hg).status with ho | ha | hs
      · exact .inl ho
      · exact .inr ha
      · exact absurd hs hns
    -- the cancellation goes through
    obtain ⟨⟨s₁, events⟩, hex⟩ : ∃ r, emergencyCancel E ctx e remaining s = .ok r := by
      by_cases h0 : g.currentMembers = 0
      · exact emergencyCancel_empty hI hg hstatus hns h0 hV' ht hm htp hsig hcr (hburn h0).1 hl hclose
          (hburn h0).2
      · obtain ⟨X, hX⟩ := settles_of_payable hI hg hns h0 hV' ht hl hclose
        obtain ⟨events, hev⟩ := (emergencyCancel_iff hI hg hstatus h0 hsig hcr).2
          ⟨X, by rw [hm, htp]; exact hX, rfl⟩
        exact ⟨_, hev⟩
    obtain ⟨⟨g', hg', hs', hat, hpayer⟩, hrec', htal'⟩ := emergencyCancel_lists hI hg hex hrec htal
    have hex : execute E ctx (.emergencyCancel e remaining) s = .ok (s₁, events) := hex
    obtain ⟨h', s', hrun, hgone, -⟩ := replay_windUp (.snoc hr (.call hex)) hg' hs' hJ
      (hat.symm ▸ hc) hrec' htal' (hpayer.symm ▸ hcalls) hnow
    refine ⟨h', s', ?_, fun _ _ _ => hgone⟩
    simp only [replay, hex]
    exact hrun

/-- Two members are paid out, and 30 days later what is left of their group is closed. -/
theorem winds_up_distributed : ∃ h s h' s', Reached symbolic h s ∧ (s.group Demo.G).isSome ∧
    replay symbolic ((windUp Demo.G Demo.J (.wallet 0)
      [(Demo.record 2, .wallet 2), (Demo.record 1, .wallet 1)]
      [(Demo.tally 1, .wallet 1, .wallet 1), (Demo.tally 2, .wallet 2, .wallet 2)]).map
      (Demo.tx [] 3801600, ·)) h s = some (h', s') ∧
    ∀ seeds b k, symbolic.createProgramAddress seeds b = some k → seeds.groupAt k = Demo.G →
      s'.account k = .system := by
  have hrun : ((replay symbolic (Demo.started ++ [(Demo.tx [9] 1209600, Demo.distribute [1, 2])]) []
      (world 10000 100)).any fun x =>
      (x.2.group Demo.G).any (fun g => g.status == STATUS_COMPLETED && g.settledAt == 1209600 &&
        g.rentPayer == .wallet 0 && g.currentMembers == 2) &&
      [1, 2].all (fun n =>
        ((x.2.record (Demo.record n)).any fun r => r.group == Demo.G && r.rentPayer == .wallet n) &&
        (x.2.tally (Demo.tally n)).any fun t => t.rentPayer == .wallet n)) = true := by
    decide +kernel
  obtain ⟨⟨h, s⟩, hrun, hs⟩ := (Option.any_eq_true _ _).1 hrun
  simp only [Bool.and_eq_true, Option.any_eq_true, beq_iff_eq, List.all_cons, List.all_nil,
    and_true] at hs
  obtain ⟨⟨g, hg, ⟨⟨hst, hat⟩, hpay⟩, hcm⟩, ⟨⟨r₁, hr₁, hG₁, hp₁⟩, t₁, ht₁, hq₁⟩,
    ⟨r₂, hr₂, hG₂, hp₂⟩, t₂, ht₂, hq₂⟩ := hs
  have hr := replay_reached (.start (world_genesis 10000 100)) hrun
  -- two records are all the group counts
  have hrecs : s.recordsOf Demo.G = {Demo.record 2, Demo.record 1} := by
    obtain ⟨hfin, hcard⟩ := (Reached.inv hr).card_records hg
    refine (Set.eq_of_subset_of_ncard_le ?_ ?_ hfin).symm
    · rintro k (rfl | rfl)
      · exact ⟨r₂, hr₂, hG₂⟩
      · exact ⟨r₁, hr₁, hG₁⟩
    · rw [hcard, hcm, Set.ncard_pair (by decide)]
      decide
  have hrec : ListsRecords s Demo.G [(Demo.record 2, .wallet 2), (Demo.record 1, .wallet 1)] := by
    refine ⟨by decide, fun k => ?_, fun x hx r hr => ?_⟩
    · rw [hrecs]
      simp
    · rcases List.mem_pair.1 hx with rfl | rfl
      · rw [← hp₂, Option.some.inj (hr.symm.trans hr₂)]
      · rw [← hp₁, Option.some.inj (hr.symm.trans hr₁)]
  -- a tally is that of a member who joined
  have htal : ListsTallies symbolic s Demo.G
      [(Demo.tally 1, .wallet 1, .wallet 1), (Demo.tally 2, .wallet 2, .wallet 2)] := by
    refine ⟨by decide, fun {M k b t} hk ht => ?_, fun x hx => ?_⟩
    · obtain ⟨newer, e, -, hlatest, -⟩ := tally_since_creation hr hk ht
      obtain ⟨older, hsplit⟩ := hlatest.split
      have hjoin := hlatest.holds.1
      rcases replay_mem hrun (hsplit ▸ List.mem_append_right _ List.mem_cons_self) with he |
        ⟨x, hx, events, hact⟩
      · cases he
      · have hM : x.2.joins Demo.G M := by
          rw [Did, hact] at hjoin
          exact hjoin
        have hwallet : M = .wallet 1 ∨ M = .wallet 2 := by
          simp only [Demo.started, Demo.joined, List.cons_append, List.nil_append, List.mem_cons,
            List.not_mem_nil, or_false] at hx
          rcases hx with rfl | rfl | rfl | rfl | rfl
          · exact hM.elim
          · exact .inl hM.2.symm
          · exact .inr hM.2.symm
          · exact hM.elim
          · exact hM.elim
        obtain ⟨rfl, -⟩ := Prod.mk.inj (Option.some.inj hk)
        rcases hwallet with rfl | rfl
        · exact List.mem_cons_self
        · exact List.mem_cons_of_mem _ List.mem_cons_self
    · rcases List.mem_pair.1 hx with rfl | rfl
      · exact ⟨⟨255, rfl⟩, t₁, ht₁, hq₁.symm⟩
      · exact ⟨⟨255, rfl⟩, t₂, ht₂, hq₂.symm⟩
  have hset : g.isSettled := .inl hst
  have hend : recordRetentionEnd symbolic g.settledAt = .ok 3801600 := by
    rw [hat]
    decide
  obtain ⟨-, -, hwinds⟩ := winds_up hr hg (symbolic_findProgramAddress _)
  obtain ⟨h', s', hrun', hgone, -⟩ := (hwinds _ _ hrec htal).1 hset 3801600 ((windUp Demo.G Demo.J (.wallet 0) _ _).map (Demo.tx [] 3801600, ·)) hend
    (by rw [hpay, List.map_map]; exact List.map_id _) (by
      intro x hx
      obtain ⟨c, -, rfl⟩ := List.mem_map.1 hx
      exact Int64.le_refl _)
  exact ⟨h, s, h', s', hr, by rw [hg]; rfl, hrun', hgone⟩

end SafeNudge
