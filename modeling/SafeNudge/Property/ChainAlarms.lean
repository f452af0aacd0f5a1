import SafeNudge.Property.Lifecycle
import SafeNudge.Property.Liveness
import SafeNudge.Property.Storage
import SafeNudge.Property.Unsettled

/-!
# From a group on the chain to an alarm and to its settlement

What the unsettled-groups check says about a chain the program can reach: `selected_iff` for what its
filters select among the stored bytes, `Reached.cycleStart` for the cycles it computes with.
`chain_alarms` puts them together, and follows each alarm to the `distribute` that it asks for.
-/

namespace SafeNudge

open Lib Watchdog

variable {K : Type} {E : Env K} {keys : KeyBytes K} {c : Chain K} {answer : List (K × List UInt8)}

/-- What the RPC node answers to the request of the check: each account of this program that its
filters select, with its data. -/
structure Truthful (c : Chain K) (answer : List (K × List UInt8)) : Prop where
  nodup : (answer.map Prod.fst).Nodup
  mem : ∀ {k data}, (k, data) ∈ answer ↔
    c.slot k = .data data ∧ selects unsettledGroupsFilters data = true

/-- The filters reject an account of zeros. -/
theorem selects_zeros {data : List UInt8} (h : ∀ b ∈ data, b = 0) :
    selects unsettledGroupsFilters data = false := by
  cases hs : selects unsettledGroupsFilters data with
  | false => rfl
  | true =>
    unfold selects unsettledGroupsFilters at hs
    rw [List.all_cons, Bool.and_eq_true] at hs
    have hdisc := of_decide_eq_true hs.1
    have hd : (data.drop 0).take 8 = GROUP_DISCRIMINATOR := (bytesAt?_eq_some.1 hdisc).2
    have hne : ∃ b ∈ GROUP_DISCRIMINATOR, b ≠ 0 := by decide +kernel
    obtain ⟨b, hb, hb0⟩ := hne
    rw [← hd] at hb
    exact absurd (h b (List.mem_of_mem_take hb)) hb0

/-- The filters select the active groups, as they are stored. -/
theorem selected_iff (hc : c.Sound E keys) {k : K} {data : List UInt8} :
    c.slot k = .data data ∧ selects unsettledGroupsFilters data = true ↔
      ∃ g, (c.state E keys).group k = some g ∧ g.status = STATUS_ACTIVE ∧
        data = (Account.groupConfig g).image keys := by
  constructor
  · rintro ⟨hk, hs⟩
    have hsound := hk ▸ hc k
    cases hsound with
    | zeros hz =>
      rw [selects_zeros hz] at hs
      cases hs
    | @image a ha =>
      obtain ⟨g, rfl, hact⟩ := (selects_iff ha.isProgram).1 hs
      refine ⟨g, State.group_eq_some.2 ?_, hact, rfl⟩
      show (c.slot k).account E keys = _
      rw [hk]
      exact account_image ha
  · rintro ⟨g, hg, hact, rfl⟩
    exact ⟨(hc.slot_eq (State.group_eq_some.1 hg) trivial).1,
      (selects_iff (a := .groupConfig g) trivial).2 ⟨g, rfl, hact⟩⟩

/-! ## Cycle starts -/

section
variable [DecidableEq K] {s s' : State K} {G : K} {g' : GroupConfig K}

/-- The start of a cycle is the clock of the instruction that writes it. -/
theorem Step.cycleStart {act : Action K} (h : Step E s act s') (hL : Layout E s.ledger)
    (hg' : s'.group G = some g') : (∃ g, s.group G = some g ∧ g'.cycleStart = g.cycleStart) ∨
      g'.cycleStart = 0 ∨
      ∃ ctx call events, act = .call ctx call events ∧ g'.cycleStart = ctx.unixTimestamp := by
  cases h with
  | outside ho => exact .inl ⟨g', (congrFun ho.group G).symm.trans hg', rfl⟩
  | @call ctx call _ _ events hx =>
    have he := execute_effect hL hx
    by_cases hG : call.groupKey = G
    swap
    · exact .inl ⟨g', ((he.frame hL).group (Ne.symm hG)).symm.trans hg', rfl⟩
    subst hG
    have hph := he.phaseStep
    rw [State.ledger_group, State.ledger_group, hg'] at hph
    generalize s.group call.groupKey = o at hph
    cases hph with
    | create => exact .inr (.inl rfl)
    | count => exact .inl ⟨_, rfl, rfl⟩
    | keep => exact .inl ⟨_, rfl, rfl⟩
    | start => exact .inr (.inr ⟨ctx, call, events, rfl, rfl⟩)
    | complete => exact .inl ⟨_, rfl, rfl⟩
    | cancel => exact .inl ⟨_, rfl, rfl⟩

/-- The clock sysvar of a call. -/
def Action.clock? : Action K → Option Int64
  | .call ctx _ _ => some ctx.unixTimestamp
  | .outside => none

/-- The clock was never before 1970. -/
def ClockOk (h : List (StepEntry K)) : Prop := ∀ e ∈ h, ∀ t ∈ e.act.clock?, 0 ≤ t.toInt

theorem Reached.cycleStart {h : List (StepEntry K)} (hr : Reached E h s) (hclock : ClockOk h)
    {g : GroupConfig K} (hg : s.group G = some g) : 0 ≤ g.cycleStart.toInt := by
  induction hr generalizing g with
  | start h0 => exact absurd (by rw [State.group_eq_some.1 hg]; trivial) (h0.program G)
  | snoc hr hst ih =>
    rcases hst.cycleStart (Reached.inv hr).toLayout hg with ⟨g₀, hg₀, he⟩ | he | ⟨ctx, call, ev, ha, he⟩
    · rw [he]
      exact ih (fun e he => hclock e (.tail _ he)) hg₀
    · rw [he]
      exact Int.le_refl 0
    · rw [he]
      refine hclock _ (.head _) _ ?_
      rw [ha]
      rfl

/-! ## The settlement an alarm asks for -/

/-- A `distribute` of the group at `G` with all its members and its vault. -/
structure Settling.Proper (E : Env K) (ctx : Ctx K) (s : State K) (G : K) (d : Distribute K)
    (remaining : List K) : Prop where
  payer : Signed E ctx d.payer
  group : d.groupConfig = G
  vault : ∃ b, E.findProgramAddress (.vault G) = some (d.vault, b)
  mint : ∃ g, s.group G = some g ∧ d.mint = g.mint
  tokenProgram : ∃ p t, s.token d.vault = some (p, t) ∧ d.tokenProgram = E.tokenKey p ∧
    PayableList E ctx s p G d.vault d.mint remaining ∧ Closes E ctx p d.vault G

theorem distribute_proper {ctx : Ctx K} {d : Distribute K} {remaining : List K} {g : GroupConfig K}
    (hI : Inv E s.ledger) (hg : s.group G = some g) (ha : g.status = STATUS_ACTIVE)
    (hend : ∃ ce, g.cycleEnd E = .ok ce ∧ ce ≤ ctx.unixTimestamp)
    (hp : Settling.Proper E ctx s G d remaining) : ∃ r, distribute E ctx d remaining s = .ok r := by
  obtain ⟨hsig, rfl, ⟨b, hb⟩, ⟨g₀, hg₀, hm⟩, p, t, ht, htp, hl, hcl⟩ := hp
  obtain rfl := Option.some.inj (hg₀.symm.trans hg)
  obtain ⟨V, hV, -⟩ := hI.vault hg
  have he := hb.symm.trans hV
  simp only [Option.some.injEq, Prod.mk.injEq] at he
  obtain ⟨rfl, rfl⟩ := he
  have h0 : g₀.currentMembers ≠ 0 := by
    have := UInt8.le_iff_toNat_le.1 ((hI.group hg).active ha).1
    rintro h0
    simp [h0] at this
  obtain ⟨X, hX⟩ := settles_of_payable hI hg (not_settled_of_active ha) h0
    (Env.findProgramAddress_create hV) ht (hm ▸ hl) hcl
  obtain ⟨events, hev⟩ := (distribute_iff hI hg ha hend hsig).2
    ⟨X, by rw [hm, htp]; exact hX, rfl⟩
  exact ⟨_, hev⟩

end

/-! ## The check -/

section
variable [DecidableEq K] {cluster : Cluster} {now grace : Int}

/-- The group at `G` is active, and its cycle ended more than `grace` seconds ago. -/
def State.Overdue (E : Env K) (s : State K) (now grace : Int) (G : K) : Prop :=
  ∃ g ce, s.group G = some g ∧ g.status = STATUS_ACTIVE ∧ g.cycleEnd E = .ok ce ∧
    grace < now - ce.toInt

/-- In a reached state an active group is reported exactly when its cycle ended long enough ago:
its frequency is a known one. -/
theorem isUnsettled_iff {s : State K} {G : K} {g : GroupConfig K} (hI : Inv E s.ledger)
    (hg : s.group G = some g) : IsUnsettled E now grace g ↔ g.status = STATUS_ACTIVE ∧
      ∃ ce, g.cycleEnd E = .ok ce ∧ grace < now - ce.toInt := by
  refine and_congr_right fun ha => ⟨?_, .inr⟩
  rintro (hbad | h)
  · obtain ⟨-, ce, hce⟩ := (hI.group hg).active ha
    obtain ⟨d, hd, -⟩ := GroupConfig.cycleEnd_eq_ok.1 hce
    rw [hbad] at hd
    cases hd
  · exact h

/-- One account of the answer: it decodes, and gives a finding when its group is overdue. -/
theorem evaluate_account {h : List (StepEntry K)} (hr : Reached E h (c.state E keys))
    (hclock : ClockOk h) (hcl : cluster = .devnet ↔ E.devnet = true)
    (hc : c.Sound E keys) (ht : Truthful c answer) (hdate : (Date.ofSecs? now).isSome)
    (hgrace : 0 ≤ grace) (address : String) {x : K × List UInt8} (hx : x ∈ answer) :
    ∃ group found, decodeGroup address x.2 = .ok group ∧
      evaluateGroup group now grace cluster = .ok found ∧
      (found.isSome ↔ (c.state E keys).Overdue E now grace x.1) ∧
      ∀ f ∈ found, f.key = unsettledKey address := by
  have hI := Reached.inv hr
  obtain ⟨g, hg, ha, hdata⟩ := (selected_iff hc).1 (ht.mem.1 hx)
  have hcode := (hr.fits keys (k := x.1) (by rw [State.group_eq_some.1 hg]; trivial)).1
  rw [State.group_eq_some.1 hg] at hcode
  have hend : g.cycleEnd E ≠ .error (.safeNudge .arithmeticOverflow) := by
    obtain ⟨-, ce, hce⟩ := (hI.group hg).active ha
    rw [hce]
    simp
  obtain ⟨found, hev, hsome, hkey⟩ := evaluateGroup_view hcl (hr.cycleStart hclock hg) hend hdate
    hgrace address g.groupCode
  refine ⟨_, found, hdata ▸ decodeGroup_serialize hcode address, hev, ?_, fun f hf => (hkey f hf).1⟩
  rw [hsome, isUnsettled_iff hI hg]
  constructor
  · rintro ⟨-, ce, hce, hlt⟩
    exact ⟨g, ce, hg, ha, hce, hlt⟩
  · rintro ⟨g', ce, hg', ha', hce, hlt⟩
    obtain rfl := Option.some.inj (hg'.symm.trans hg)
    exact ⟨ha', ce, hce, hlt⟩

/-- The check on a truthful answer. -/
theorem unsettledGroups_chain {h : List (StepEntry K)} (hr : Reached E h (c.state E keys))
    (hclock : ClockOk h) (hcl : cluster = .devnet ↔ E.devnet = true) (hc : c.Sound E keys)
    {base58 : K → String} (hb58 : Function.Injective base58) (ht : Truthful c answer)
    (hdate : (Date.ofSecs? now).isSome) (hgrace : 0 ≤ grace) :
    ∃ findings, unsettledGroups (answer.map fun x => (base58 x.1, x.2)) now grace cluster =
        .ok findings ∧ (findings.map (·.key)).Nodup ∧
      (∀ f ∈ findings, ∃ G, f.key = unsettledKey (base58 G)) ∧
      ∀ G, (∃ f ∈ findings, f.key = unsettledKey (base58 G)) ↔
        (c.state E keys).Overdue E now grace G := by
  have : Inhabited Group := ⟨⟨"", 0, 0, 0, 0, ""⟩⟩
  have hacc := fun x (hx : x ∈ answer) =>
    evaluate_account hr hclock hcl hc ht hdate hgrace (base58 x.1) hx
  choose! view found hdec hev hsome hkey using hacc
  refine ⟨answer.filterMap found, ?_, ?_, fun f hf => ?_, fun G => ⟨?_, fun hG => ?_⟩⟩
  · have hgroups : (answer.mapM fun x => decodeGroup (base58 x.1) x.2) = .ok (answer.map view) :=
      mapM_eq_ok hdec
    unfold unsettledGroups
    rw [List.mapM_map]
    change (answer.mapM fun x => decodeGroup (base58 x.1) x.2) >>= _ = _
    rw [hgroups, ok_bind]
    exact evaluateGroups_eq_ok hev
  · have hnodup : (answer.map fun x => unsettledKey (base58 x.1)).Nodup := by
      have := ht.nodup.map fun k k' h => hb58 (unsettledKey_inj h)
      rwa [List.map_map] at this
    exact hnodup.sublist (keys_sublist hkey)
  · obtain ⟨x, hx, hf⟩ := List.mem_filterMap.1 hf
    exact ⟨x.1, hkey x hx f hf⟩
  · rintro ⟨f, hf, hfk⟩
    obtain ⟨x, hx, hf⟩ := List.mem_filterMap.1 hf
    have hG : x.1 = G := hb58 (unsettledKey_inj ((hkey x hx f hf).symm.trans hfk))
    exact hG ▸ (hsome x hx).1 (hf ▸ rfl)
  · obtain ⟨g, ce, hg, ha, hce, hlt⟩ := hG
    have hx : (G, (Account.groupConfig g).image keys) ∈ answer :=
      ht.mem.2 ((selected_iff hc).2 ⟨g, hg, ha, rfl⟩)
    obtain ⟨f, hf⟩ := Option.isSome_iff_exists.1 ((hsome _ hx).2 ⟨g, ce, hg, ha, hce, hlt⟩)
    exact ⟨f, List.mem_filterMap.2 ⟨_, hx, hf⟩, hkey _ hx f hf⟩

/-- On every chain the program can reach, a check that is answered truthfully reports the overdue
groups, each once, and nothing else. Each report can be acted on: while the clock of the chain is at
most the grace period behind the watchdog's, a `distribute` with the group's members goes through,
in the bytes as well. -/
theorem chain_alarms {h : List (Entry (Chain K) (Action K))} (hr : Chain.Reached E keys h c)
    (hclock : ClockOk (h.map (Entry.map (Chain.state E keys))))
    (hcl : cluster = .devnet ↔ E.devnet = true) {base58 : K → String}
    (hb58 : Function.Injective base58) (ht : Truthful c answer)
    (hdate : (Date.ofSecs? now).isSome) (hgrace : 0 ≤ grace) :
    ∃ findings, unsettledGroups (answer.map fun x => (base58 x.1, x.2)) now grace cluster =
        .ok findings ∧ (findings.map (·.key)).Nodup ∧
      (∀ f ∈ findings, ∃ G, f.key = unsettledKey (base58 G)) ∧
      (∀ G, (∃ f ∈ findings, f.key = unsettledKey (base58 G)) ↔
        (c.state E keys).Overdue E now grace G) ∧
      ∀ G ctx d remaining, (∃ f ∈ findings, f.key = unsettledKey (base58 G)) →
        Settling.Proper E ctx (c.state E keys) G d remaining → now - grace ≤ ctx.unixTimestamp.toInt →
          ∃ events c', Chain.Step E keys c (.call ctx (.distribute d remaining) events) c' ∧
            ∃ g, (c'.state E keys).group G = some g ∧ g.status = STATUS_COMPLETED := by
  obtain ⟨hr', hc⟩ := hr.view
  obtain ⟨findings, hok, hnd, hkeys, hiff⟩ :=
    unsettledGroups_chain hr' hclock hcl hc hb58 ht hdate hgrace
  refine ⟨findings, hok, hnd, hkeys, hiff, fun G ctx d remaining hf hp hnow => ?_⟩
  obtain ⟨g, ce, hg, ha, hce, hlt⟩ := (hiff G).1 hf
  obtain ⟨⟨s', events⟩, hx⟩ := distribute_proper (Reached.inv hr') hg ha
    ⟨ce, hce, Int64.le_iff_toInt_le.2 (by omega)⟩ hp
  obtain ⟨c', hst, rfl, -⟩ := step_to_chain hr' hc (.call (c := .distribute d remaining) hx)
  refine ⟨events, c', hst, g.completed ctx.unixTimestamp, ?_, rfl⟩
  have hI := Reached.inv hr'
  obtain ⟨g₀, p, t, rs, total, hS, -, -, -⟩ :=
    distribute_effect hI.toLayout.selfOwned hI.toLayout.placed hx
  obtain rfl : d.groupConfig = G := hp.group
  obtain rfl := Option.some.inj (hS.group.symm.trans hg)
  rw [← State.ledger_group, hS.post]
  exact Function.update_self ..

end

namespace Demo

/-- A text for each short key. -/
def shortText (k : UInt8) : String := String.ofList (.replicate k.toNat 'x')

theorem shortText_inj : Function.Injective shortText := by
  intro k k' h
  have hlen := congrArg List.length (String.ofList_injective h)
  rw [List.length_replicate, List.length_replicate] at hlen
  exact UInt8.toNat_inj.1 hlen

/-- The only group is the one at 30, it is active since 0, and the clock was right. Its members are
wallets 11 and 12, who each paid 5 of 100 tokens. -/
def onlyGroup (h : List (StepEntry UInt8)) (s : State UInt8) : Bool :=
  ((s.group 30).any fun g => g.status = STATUS_ACTIVE ∧ g.cycleEnd short = .ok 1209600 ∧
    g.mint = 20) &&
  ((List.range 256).all fun n => n = 30 ∨ (s.group (.ofNat n)).isNone) &&
  (h.all fun e => e.act.clock? = some 0) && (s.token 31).any (fun x => x.1 = .token) &&
  s.amount 31 = 10 &&
  ((List.range 256).all fun n => n = 33 ∨ n = 35 ∨ (s.record (.ofNat n)).isNone) &&
  [((33 : UInt8), (51 : UInt8), (11 : UInt8)), (35, 52, 12)].all fun x =>
    (s.record x.1).any (fun r => r.group = 30 ∧ r.member = x.2.2) &&
      s.token x.2.1 = some (.token, ⟨20, x.2.2, 95⟩)

/-- Wallet 13 distributes a second after the end of the cycle. -/
def shortDistribute : Distribute UInt8 where
  payer := 13
  groupConfig := 30
  vault := 31
  mint := 20
  tokenProgram := 2

def shortLate : Ctx UInt8 := { shortTx 13 with unixTimestamp := 1209601 }

end Demo

open Demo in
theorem Demo.short_proper {h : List (StepEntry UInt8)} {s : State UInt8} (hp : onlyGroup h s = true) :
    Settling.Proper short shortLate s 30 shortDistribute [33, 51, 35, 52] := by
  simp only [onlyGroup, Bool.and_eq_true, List.all_eq_true, decide_eq_true_eq, Option.any_eq_true,
    List.forall_mem_cons, List.mem_range] at hp
  obtain ⟨⟨⟨⟨⟨⟨⟨g, hg, -, -, hm⟩, -⟩, -⟩, ⟨p, t⟩, ht, rfl⟩, hamt⟩, hrec⟩,
    ⟨⟨r₁, hr₁, hG₁, hM₁⟩, htok₁⟩, ⟨⟨r₂, hr₂, hG₂, hM₂⟩, htok₂⟩, -⟩ := hp
  have htake : ∀ k w : UInt8, s.token k = some (.token, ⟨20, w, 95⟩) →
      Takes short shortLate s .token 31 20 k ⟨20, w, 95⟩ := by
    refine fun k w h => ⟨h, rfl, ?_, fun _ _ => rfl⟩
    rw [hamt]
    exact (by decide : (95 : UInt64).toNat + 10 < 2 ^ 64)
  refine ⟨⟨List.mem_cons_self, rfl⟩, rfl, ⟨255, rfl⟩, ⟨g, hg, hm.symm⟩, .token, t, ht, rfl,
    ⟨[(33, 51), (35, 52)], rfl, by decide, fun k => ⟨fun hk => ?_, fun hk => ?_⟩, fun pair hp => ?_⟩,
    rfl⟩
  · rcases List.mem_pair.1 hk with rfl | rfl
    · exact ⟨r₁, hr₁, hG₁⟩
    · exact ⟨r₂, hr₂, hG₂⟩
  · obtain ⟨r, hr, -⟩ := hk
    rcases hrec k.toNat k.toNat_lt with hk | hk | hk
    · exact List.mem_pair.2 (.inl (UInt8.toNat_inj.1 hk))
    · exact List.mem_pair.2 (.inr (UInt8.toNat_inj.1 hk))
    · rw [UInt8.ofNat_toNat, hr] at hk
      cases hk
  · rcases List.mem_pair.1 hp with rfl | rfl
    · exact ⟨r₁, _, hr₁, hM₁.symm, htake 51 11 htok₁⟩
    · exact ⟨r₂, _, hr₂, hM₂.symm, htake 52 12 htok₂⟩

open Demo in
/-- A chain with a group whose cycle ended a day and a second ago: the check reports it, and a
distribute completes it. -/
theorem chain_alarms_short : ∃ h c answer findings, Chain.Reached short shortKeys h c ∧
    Truthful c answer ∧
    unsettledGroups (answer.map fun x => (shortText x.1, x.2)) 1296001 86400 .mainnet =
      .ok findings ∧ (∃ f ∈ findings, f.key = unsettledKey (shortText 30)) ∧
    ∃ events c', Chain.Step short shortKeys c
        (.call shortLate (.distribute shortDistribute [33, 51, 35, 52]) events) c' ∧
      ∃ g, (c'.state short shortKeys).group 30 = some g ∧ g.status = STATUS_COMPLETED := by
  obtain ⟨h₀, s, hr, hp⟩ := replay_exists shortStarted shortWorld_genesis onlyGroup (by decide +kernel)
  have hproper := Demo.short_proper hp
  obtain ⟨h, c, hrun, rfl, rfl⟩ := hr.stored shortKeys
  simp only [onlyGroup, Bool.and_eq_true, List.all_eq_true, decide_eq_true_eq] at hp
  obtain ⟨⟨⟨⟨⟨⟨hg, honly⟩, hclock⟩, -⟩, -⟩, -⟩, -⟩ := hp
  obtain ⟨g, hg, ha⟩ := (Option.any_eq_true _ _).1 hg
  rw [decide_eq_true_eq] at ha
  have hc := hrun.view.2
  have ht : Truthful c [(30, (Account.groupConfig g).image shortKeys)] := by
    refine ⟨List.nodup_singleton _, fun {k data} => ?_⟩
    rw [selected_iff hc, List.mem_singleton, Prod.mk.injEq]
    constructor
    · rintro ⟨rfl, rfl⟩
      exact ⟨g, hg, ha.1, rfl⟩
    · rintro ⟨g', hg', -, rfl⟩
      have hk : k = 30 := by
        rcases honly k.toNat (List.mem_range.2 k.toNat_lt) with hk | hk
        · exact UInt8.toNat_inj.1 hk
        · rw [UInt8.ofNat_toNat, hg'] at hk
          cases hk
      subst hk
      exact ⟨rfl, by rw [Option.some.inj (hg'.symm.trans hg)]⟩
  have hclock' : ClockOk (h.map (Entry.map (Chain.state short shortKeys))) := by
    intro e he t ht
    rw [hclock e he, Option.mem_some] at ht
    exact ht ▸ by decide
  obtain ⟨findings, hok, -, -, hiff, hact⟩ := @chain_alarms _ short shortKeys c _ _ .mainnet 1296001
    86400 h hrun hclock' (by decide) _ shortText_inj ht (by decide) (by decide)
  have hfound := (hiff 30).2 ⟨g, 1209600, hg, ha.1, ha.2.1, by decide⟩
  exact ⟨h, c, _, findings, hrun, ht, hok, hfound, hact 30 _ _ _ hfound hproper (by decide)⟩

end SafeNudge
