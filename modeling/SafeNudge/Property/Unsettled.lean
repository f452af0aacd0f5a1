import SafeNudge.Property.Decoding
import SafeNudge.Property.Period
import SafeNudge.Watchdog.Evaluate

/-!
# The watchdog reports the groups anyone can settle

The period tables of the program and of the watchdog agree (`lookup_periodSecs`), and so do the
cycle ends they give (`cycleEnd_view`). `evaluateGroup_view` follows one group through the check;
`unsettled_groups_reported` is the check on a list of accounts.
-/

namespace SafeNudge

open Lib Watchdog

variable {K : Type} {E : Env K} {cluster : Cluster} {frequency : UInt8} {g : GroupConfig K}
  {ce : Int64} {now grace : Int}

/-! ## Cycle ends -/

/-- A frequency is a known one or is rejected. -/
theorem periodDurationSecs_eq_error :
    periodDurationSecs E frequency = .error (.safeNudge .invalidFrequency) ↔
      ∀ d, periodDurationSecs E frequency ≠ .ok d := by
  have h7 : checkedMulI64 7 DAY = some 604800 := by decide
  have h14 : checkedMulI64 14 DAY = some 1209600 := by decide
  have h30 : checkedMulI64 30 DAY = some 2592000 := by decide
  unfold periodDurationSecs
  rw [h7, h14, h30]
  split
  · simp
  split
  · simp
  split
  · simp
  split <;> simp

/-- The period table of a cluster is the one its build of the program has. -/
theorem lookup_periodSecs (hc : cluster = .devnet ↔ E.devnet = true) {d : Int} :
    (PERIOD_SECS cluster).lookup frequency.toNat = some d ↔
      ∃ d', periodDurationSecs E frequency = .ok d' ∧ d = d'.toInt := by
  simp only [periodDurationSecs_eq_ok, ← UInt8.toNat_inj]
  generalize frequency.toNat = n
  have hperiods : (604800 : Int64).toInt = 604800 ∧ (1209600 : Int64).toInt = 1209600 ∧
      (2592000 : Int64).toInt = 2592000 ∧ (300 : Int64).toInt = 300 := by decide
  obtain ⟨h7, h14, h30, h300⟩ := hperiods
  cases cluster with
  | mainnet =>
    have hdev : E.devnet = false := by simpa using hc
    rcases n with _ | _ | _ | n <;>
      simp [PERIOD_SECS, List.lookup_cons, List.lookup_nil, Watchdog.DAY, hdev, h7, h14, h30, eq_comm]
  | devnet =>
    have hdev : E.devnet = true := hc.1 rfl
    rcases n with _ | _ | _ | _ | n <;>
      simp [PERIOD_SECS, List.lookup_cons, List.lookup_nil, Watchdog.DAY, hdev, h7, h14, h30, h300, eq_comm]

/-- The cycle end the watchdog computes is the one the program computes. -/
theorem cycleEnd_view (hc : cluster = .devnet ↔ E.devnet = true) {address code : String} :
    Watchdog.cycleEnd (g.view address code) cluster = some ce.toInt ↔ g.cycleEnd E = .ok ce := by
  rw [GroupConfig.cycleEnd_eq_ok]
  unfold Watchdog.cycleEnd
  simp only [Option.bind_eq_bind, Option.bind_eq_some_iff, Option.pure_def, Option.some_inj]
  constructor
  · intro ⟨d, hd, hce⟩
    obtain ⟨d', hd', rfl⟩ := (lookup_periodSecs hc).1 hd
    exact ⟨d', hd', hce.symm⟩
  · intro ⟨d', hd', hce⟩
    exact ⟨d'.toInt, (lookup_periodSecs hc).2 ⟨d', hd', rfl⟩, hce.symm⟩

theorem cycleEnd_view_none (hc : cluster = .devnet ↔ E.devnet = true) {address code : String} :
    Watchdog.cycleEnd (g.view address code) cluster = none ↔
      periodDurationSecs E g.frequency = .error (.safeNudge .invalidFrequency) := by
  rw [periodDurationSecs_eq_error]
  unfold Watchdog.cycleEnd
  simp only [Option.bind_eq_bind, Option.pure_def, Option.bind_eq_none_iff, reduceCtorEq,
    imp_false]
  constructor
  · intro h d hd
    exact h d.toInt ((lookup_periodSecs hc).2 ⟨d, hd, rfl⟩)
  · intro h d hd
    obtain ⟨d', hd', -⟩ := (lookup_periodSecs hc).1 hd
    exact h d' hd'

/-- A cycle end that does not overflow exists for every known frequency. -/
theorem GroupConfig.cycleEnd_known (hend : g.cycleEnd E ≠ .error (.safeNudge .arithmeticOverflow)) :
    periodDurationSecs E g.frequency = .error (.safeNudge .invalidFrequency) ∨
      ∃ ce, g.cycleEnd E = .ok ce := by
  rcases hp : periodDurationSecs E g.frequency with e | d
  · left
    rw [← hp, periodDurationSecs_eq_error, hp]
    intro d hd
    cases hd
  · right
    revert hend
    unfold GroupConfig.cycleEnd
    rw [hp, ok_bind]
    rcases checkedMulI64 (.ofInt g.totalPeriods.toNat) d with _ | m
    · exact fun hend => absurd rfl hend
    · rw [orThrow_some, ok_bind]
      rcases checkedAddI64 g.cycleStart m with _ | ce
      · exact fun hend => absurd rfl hend
      · exact fun _ => ⟨ce, rfl⟩

/-! ## One group -/

/-- The groups to report: active ones whose cycle ended more than `grace` seconds ago, or whose
frequency is unknown. -/
def IsUnsettled (E : Env K) (now grace : Int) (g : GroupConfig K) : Prop :=
  g.status = STATUS_ACTIVE ∧
    (periodDurationSecs E g.frequency = .error (.safeNudge .invalidFrequency) ∨
      ∃ ce, g.cycleEnd E = .ok ce ∧ grace < now - ce.toInt)

/-- The report that a cycle ended. -/
def Watchdog.Finding.saysNobodyRanDistribute (f : Finding) : Prop :=
  "Nobody ran distribute.".toList <:+ f.text.toList

theorem isoFromSecs_ok {secs : Int} (h0 : 0 ≤ secs) (hnow : secs ≤ now)
    (hdate : (Date.ofSecs? now).isSome) : ∃ text, isoFromSecs secs = .ok text := by
  unfold Date.ofSecs? at hdate
  split at hdate
  · unfold isoFromSecs Date.ofSecs?
    rw [dif_pos (by omega)]
    exact ⟨_, rfl⟩
  · cases hdate

/-- The report of an unknown frequency says something else. -/
theorem not_saysNobodyRanDistribute {f : Finding} {text : String}
    (h : f.text = text ++ "; cannot compute its cycle end.") : ¬f.saysNobodyRanDistribute := by
  intro hsays
  have hsuffix : "; cannot compute its cycle end.".toList <:+ f.text.toList := by
    rw [h, String.toList_append]
    exact List.suffix_append _ _
  have hshort : "Nobody ran distribute.".toList <:+ "; cannot compute its cycle end.".toList :=
    List.suffix_of_suffix_length_le hsays hsuffix (by decide)
  exact absurd hshort (by decide)

/-- One group through the check. -/
theorem evaluateGroup_view (hc : cluster = .devnet ↔ E.devnet = true) (h0 : 0 ≤ g.cycleStart.toInt)
    (hend : g.cycleEnd E ≠ .error (.safeNudge .arithmeticOverflow))
    (hdate : (Date.ofSecs? now).isSome) (hgrace : 0 ≤ grace) (address code : String) :
    ∃ found, evaluateGroup (g.view address code) now grace cluster = .ok found ∧
      (found.isSome ↔ IsUnsettled E now grace g) ∧
      ∀ f ∈ found, f.key = unsettledKey address ∧
        (f.saysNobodyRanDistribute → ∃ ce, g.cycleEnd E = .ok ce ∧ grace < now - ce.toInt) := by
  unfold evaluateGroup IsUnsettled
  by_cases hs : g.status = STATUS_ACTIVE
  · have hs' : (g.view address code).status = Watchdog.STATUS_ACTIVE := by
      unfold GroupConfig.view
      rw [hs]
      rfl
    rw [if_neg (not_not.2 hs')]
    rcases GroupConfig.cycleEnd_known hend with hunknown | ⟨ce, hce⟩
    · rw [(cycleEnd_view_none hc).2 hunknown]
      refine ⟨some _, rfl, iff_of_true rfl ⟨hs, .inl hunknown⟩, ?_⟩
      intro f hf
      cases hf
      exact ⟨rfl, fun hsays => absurd hsays (not_saysNobodyRanDistribute rfl)⟩
    · have hunknown : periodDurationSecs E g.frequency ≠ .error (.safeNudge .invalidFrequency) := by
        intro hu
        have hnone : Watchdog.cycleEnd (g.view address code) cluster = none :=
          (cycleEnd_view_none hc).2 hu
        rw [(cycleEnd_view hc).2 hce] at hnone
        cases hnone
      have hlo : g.cycleStart.toInt ≤ ce.toInt := by
        obtain ⟨d, hd, hsum⟩ := GroupConfig.cycleEnd_eq_ok.1 hce
        have := periodDurationSecs_range hd
        have : 0 ≤ (g.totalPeriods.toNat : Int) * d.toInt := Int.mul_nonneg (by omega) (by omega)
        omega
      rw [(cycleEnd_view hc).2 hce]
      dsimp only
      by_cases hlate : now - ce.toInt ≤ grace
      · rw [if_pos hlate]
        refine ⟨none, rfl, iff_of_false nofun ?_, nofun⟩
        intro ⟨_, hreport⟩
        rcases hreport with hu | ⟨ce', hce', hlt⟩
        · exact hunknown hu
        · rw [hce] at hce'
          cases hce'
          omega
      · rw [if_neg hlate]
        obtain ⟨ended, hended⟩ : ∃ text, isoFromSecs ce.toInt = .ok text :=
          isoFromSecs_ok (by omega) (by omega) hdate
        rw [hended, ok_bind]
        refine ⟨some _, rfl, iff_of_true rfl ⟨hs, .inr ⟨ce, hce, by omega⟩⟩, ?_⟩
        intro f hf
        cases hf
        exact ⟨rfl, fun _ => ⟨ce, hce, by omega⟩⟩
  · have hs' : (g.view address code).status ≠ Watchdog.STATUS_ACTIVE := fun h =>
      hs (UInt8.toNat_inj.1 h)
    rw [if_pos hs']
    exact ⟨none, rfl, iff_of_false nofun fun h => hs h.1, nofun⟩

/-! ## The check -/

theorem evaluateGroups_eq_ok {α : Type} {l : List α} {view : α → Group}
    {found : α → Option Finding}
    (h : ∀ a ∈ l, evaluateGroup (view a) now grace cluster = .ok (found a)) :
    evaluateGroups (l.map view) now grace cluster = .ok (l.filterMap found) := by
  induction l with
  | nil => rfl
  | cons a l ih =>
    rw [List.map_cons, evaluateGroups, h a List.mem_cons_self, ok_bind,
      ih fun x hx => h x (List.mem_cons_of_mem _ hx), ok_bind, List.filterMap_cons]
    cases found a <;> rfl

/-- Findings carry the keys of the elements they are about, in order. -/
theorem keys_sublist {α : Type} {l : List α} {found : α → Option Finding} {key : α → String}
    (h : ∀ a ∈ l, ∀ f ∈ found a, f.key = key a) :
    ((l.filterMap found).map (·.key)).Sublist (l.map key) := by
  induction l with
  | nil => exact .slnil
  | cons a l ih =>
    have hl := ih fun x hx => h x (List.mem_cons_of_mem _ hx)
    rw [List.filterMap_cons, List.map_cons]
    rcases hf : found a with _ | f
    · exact hl.cons _
    · rw [List.map_cons, h a List.mem_cons_self f hf]
      exact hl.cons_cons _

/-- The cycle-end check of `distribute` at a time. -/
theorem cycleNotEndedCheck_eq_ok {t : Int64} : cycleNotEndedCheck E g t = .ok () ↔
    ∃ ce, g.cycleEnd E = .ok ce ∧ ce.toInt ≤ t.toInt := by
  simp only [cycleNotEndedCheck, bind_eq_ok, require_eq_ok, Int64.le_iff_toInt_le]

/-- An account with a group, as the chain gives it: its address, the group, and what the serialized
group leaves of the data. -/
structure GroupAccount (K : Type) where
  address : String
  group : GroupConfig K
  padding : List UInt8

def GroupAccount.data (keyBytes : K → Vector UInt8 32) (a : GroupAccount K) : List UInt8 :=
  (Account.groupConfig a.group).serialize keyBytes ++ a.padding

/-- The watchdog of a cluster computes the cycle ends of the build the cluster runs. The check
reports each unsettled group once and no other group: where it says that nobody ran `distribute`,
the cycle-end check of `distribute` passes, and it reports every active group on which that check
has passed for longer than the grace period. -/
theorem unsettled_groups_reported (keyBytes : K → Vector UInt8 32)
    (hc : cluster = .devnet ↔ E.devnet = true) {accounts : List (GroupAccount K)}
    (haddress : (accounts.map (·.address)).Nodup)
    (hstart : ∀ a ∈ accounts, 0 ≤ a.group.cycleStart.toInt)
    (hend : ∀ a ∈ accounts, a.group.cycleEnd E ≠ .error (.safeNudge .arithmeticOverflow))
    (hdate : (Date.ofSecs? now).isSome) (hgrace : 0 ≤ grace) :
    (∀ a ∈ accounts, ∃ group, decodeGroup a.address (a.data keyBytes) = .ok group ∧
      Watchdog.cycleEnd group cluster = (a.group.cycleEnd E).toOption.map Int64.toInt ∧
      (Watchdog.cycleEnd group cluster = none ↔
        periodDurationSecs E a.group.frequency = .error (.safeNudge .invalidFrequency))) ∧
    ∃ findings,
      unsettledGroups (accounts.map fun a => (a.address, a.data keyBytes)) now grace cluster =
        .ok findings ∧
      (findings.map (·.key)).Nodup ∧
      (∀ f ∈ findings, ∃ a ∈ accounts, f.key = unsettledKey a.address ∧
        IsUnsettled E now grace a.group ∧
        (f.saysNobodyRanDistribute → cycleNotEndedCheck E a.group (.ofInt now) = .ok ())) ∧
      (∀ a ∈ accounts, IsUnsettled E now grace a.group →
        ∃ f ∈ findings, f.key = unsettledKey a.address) ∧
      ∀ a ∈ accounts, ∀ t : Int64, a.group.status = STATUS_ACTIVE →
        cycleNotEndedCheck E a.group t = .ok () → grace < now - t.toInt →
          ∃ f ∈ findings, f.key = unsettledKey a.address := by
  have hdecode : ∀ a : GroupAccount K, ∃ code, decodeGroup a.address (a.data keyBytes) =
      .ok (a.group.view a.address code) := fun a => ⟨_, decodeGroup_view a.group a.padding a.address⟩
  choose code hcode using hdecode
  have hfound := fun a (ha : a ∈ accounts) => evaluateGroup_view hc (hstart a ha) (hend a ha) hdate
    hgrace a.address (code a)
  choose! found heval hsome hkey using hfound
  have hcheck : unsettledGroups (accounts.map fun a => (a.address, a.data keyBytes)) now grace
      cluster = .ok (accounts.filterMap found) := by
    have hgroups : (accounts.mapM fun a => decodeGroup a.address (a.data keyBytes)) =
        .ok (accounts.map fun a => a.group.view a.address (code a)) := mapM_eq_ok fun a _ => hcode a
    unfold unsettledGroups
    rw [List.mapM_map]
    change (accounts.mapM fun a => decodeGroup a.address (a.data keyBytes)) >>= _ = _
    rw [hgroups, ok_bind]
    exact evaluateGroups_eq_ok heval
  have hnow : (Int64.ofInt now).toInt = now := by
    unfold Date.ofSecs? at hdate
    split at hdate
    · exact Int64.toInt_ofInt_of_le (by omega) (by omega)
    · cases hdate
  have hreport : ∀ a ∈ accounts, IsUnsettled E now grace a.group →
      ∃ f ∈ accounts.filterMap found, f.key = unsettledKey a.address := by
    intro a ha hu
    obtain ⟨f, hf⟩ := Option.isSome_iff_exists.1 ((hsome a ha).2 hu)
    exact ⟨f, List.mem_filterMap.2 ⟨a, ha, hf⟩, (hkey a ha f hf).1⟩
  refine ⟨fun a ha => ⟨_, hcode a, ?_, cycleEnd_view_none hc⟩, _, hcheck, ?_, ?_, hreport, ?_⟩
  · rcases GroupConfig.cycleEnd_known (hend a ha) with hunknown | ⟨ce, hce⟩
    · rw [(cycleEnd_view_none hc).2 hunknown, GroupConfig.cycleEnd, hunknown]
      rfl
    · rw [(cycleEnd_view hc).2 hce, hce]
      rfl
  · have hnodup : (accounts.map fun a => unsettledKey a.address).Nodup := by
      have := haddress.map fun x y h => unsettledKey_inj h
      rwa [List.map_map] at this
    exact hnodup.sublist (keys_sublist fun a ha f hf => (hkey a ha f hf).1)
  · intro f hf
    obtain ⟨a, ha, hfa⟩ := List.mem_filterMap.1 hf
    refine ⟨a, ha, (hkey a ha f hfa).1, (hsome a ha).1 (hfa ▸ rfl), fun hsays => ?_⟩
    obtain ⟨ce, hce, hlate⟩ := (hkey a ha f hfa).2 hsays
    rw [cycleNotEndedCheck_eq_ok, hnow]
    exact ⟨ce, hce, by omega⟩
  · intro a ha t hactive hpast hlate
    obtain ⟨ce, hce, hle⟩ := cycleNotEndedCheck_eq_ok.1 hpast
    exact hreport a ha ⟨hactive, .inr ⟨ce, hce, by omega⟩⟩

/-- Two groups on mainnet, one second after the grace period of the first. The second has a
frequency only devnet knows. -/
def Demo.watched : List (GroupAccount SymbolicKey) :=
  [⟨"GroupA", { stored with cycleStart := 0 }, []⟩,
    ⟨"GroupB", { stored with cycleStart := 0, frequency := 3 }, []⟩]

theorem unsettled_groups_reported_watched :
    ∃ findings, unsettledGroups (Demo.watched.map fun a => (a.address, a.data fun _ =>
        .replicate 32 0)) 1296001 86400 .mainnet = .ok findings ∧
      (∃ f ∈ findings, f.key = "unsettled:GroupA") ∧ ∃ f ∈ findings, f.key = "unsettled:GroupB" := by
  obtain ⟨-, findings, hcheck, -, -, hreport, -⟩ :=
    @unsettled_groups_reported SymbolicKey symbolic .mainnet 1296001 86400
      (fun _ => .replicate 32 0) (by decide) Demo.watched (by decide) (by decide) (by decide)
      (by decide) (by decide)
  exact ⟨findings, hcheck, hreport _ List.mem_cons_self ⟨rfl, .inr ⟨1209600, by decide, by decide⟩⟩,
    hreport _ (.tail _ List.mem_cons_self) ⟨rfl, .inl (by decide)⟩⟩

end SafeNudge
