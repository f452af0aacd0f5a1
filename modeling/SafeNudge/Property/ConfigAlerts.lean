import SafeNudge.Lib.Stretch
import SafeNudge.Property.Alerts
import SafeNudge.Watchdog.Config

/-!
# Config alerts over sequences of runs

The runs with an invalid configuration, newest first. Dry runs send nothing and leave the marker
alone, and of the others the marker always is that of the last (`markerAfter_cons`). So a run alerts
exactly if it does not continue the one before it, and a text is sent on a day as often as it begins
a stretch of runs there (`timesSent_eq_stretches`).
-/

namespace SafeNudge.Watchdog

open Lib

def ConfigRun.text (r : ConfigRun) : String := configText r.errors

/-- The run is one with the text, on the UTC day. -/
def ConfigRun.Says (day : Int) (text : String) (r : ConfigRun) : Prop :=
  r.now.utcDay = day ∧ r.text = text

instance (day : Int) (text : String) : DecidablePred (ConfigRun.Says day text) :=
  fun _ => inferInstanceAs (Decidable (_ ∧ _))

/-- Telegram is set up, and the send and the write of the marker succeed. -/
def ConfigRun.Succeeds (r : ConfigRun) : Prop :=
  r.telegram = true ∧ r.send = .ok ∧ r.write = true

/-- The marker after runs, newest first; there is none before the first. -/
def markerAfter : List ConfigRun → Option String
  | [] => none
  | r :: h => (reportInvalidConfig (markerAfter h) r).2

/-- What the run `r` after the history `h` sends. -/
def alertOf (h : List ConfigRun) (r : ConfigRun) : Option String :=
  (reportInvalidConfig (markerAfter h) r).1

/-- How often a text is sent on a UTC day. -/
def timesSent (day : Int) (text : String) : List ConfigRun → Nat
  | [] => 0
  | r :: h =>
    timesSent day text h + if r.now.utcDay = day ∧ alertOf h r = some text then 1 else 0

/-- Every text is sent at most once on a day, and at least once on a day it occurs on. -/
def AlertedOnce (h : List ConfigRun) : Prop :=
  (∀ day text, timesSent day text h ≤ 1) ∧ ∀ r ∈ h, 1 ≤ timesSent r.now.utcDay r.text h

/-! ## What decides it -/

/-- The runs that are no dry runs. -/
def live (h : List ConfigRun) : List ConfigRun := h.filter fun r => !r.dryRun

/-- The run has the text of the one before it, on the same day as far as ISO texts tell. -/
def Continues (r r' : ConfigRun) : Prop :=
  r.text = r'.text ∧ (r.now.utcDay = r'.now.utcDay ∨ InOneExpandedMonth r.now r'.now)

instance : DecidableRel Continues := fun _ _ => inferInstanceAs (Decidable (_ ∧ _))

/-- Between two runs of a day with one text there is no run with another. -/
def NoReturn (h : List ConfigRun) : Prop :=
  ∀ r m r', [r, m, r'].Sublist h → r.now.utcDay = r'.now.utcDay → r.text = r'.text →
    m.text = r.text

variable {h : List ConfigRun} {r r' : ConfigRun} {day : Int} {text : String}

/-! ## One run -/

/-- Markers tell the text, and the day as far as ISO texts do. -/
theorem configMarker_eq_iff :
    configMarker r.text r.now = configMarker r'.text r'.now ↔ Continues r r' := by
  have hparts : configMarker r.text r.now = configMarker r'.text r'.now ↔
      r.now.toISOString.toList.take 10 = r'.now.toISOString.toList.take 10 ∧ r.text = r'.text := by
    unfold configMarker
    constructor
    · intro h
      have hchars := congrArg String.toList h
      simp only [String.toList_append, String.toList_ofList, List.append_assoc] at hchars
      obtain ⟨hday, hrest⟩ := List.append_inj hchars
        ((Date.length_iso_take _).trans (Date.length_iso_take _).symm)
      exact ⟨hday, String.toList_inj.1 (List.append_cancel_left hrest)⟩
    · rintro ⟨hday, htext⟩
      rw [hday, htext]
  rw [hparts, Date.iso_take_eq_iff, and_comm]
  rfl

theorem reportInvalidConfig_of_succeeds (hs : r.Succeeds) (hd : r.dryRun = false)
    (marker : Option String) : reportInvalidConfig marker r =
      (if some (configMarker r.text r.now) = marker then none else some r.text,
        some (configMarker r.text r.now)) := by
  obtain ⟨htelegram, hsend, hwrite⟩ := hs
  unfold reportInvalidConfig configAlert ConfigRun.text
  dsimp only
  rw [htelegram, hd, hsend, hwrite]
  by_cases hm : some (configMarker (configText r.errors) r.now) = marker
  · simp [hm]
  · simp [hm]

theorem reportInvalidConfig_of_dryRun (hd : r.dryRun = true) (marker : Option String) :
    reportInvalidConfig marker r = (none, marker) := by
  unfold reportInvalidConfig
  rw [hd, Bool.or_true, if_pos rfl]

/-- After a run the marker is that of the run. -/
theorem markerAfter_cons (hs : r.Succeeds) (hd : r.dryRun = false) :
    markerAfter (r :: h) = some (configMarker r.text r.now) := by
  rw [markerAfter, reportInvalidConfig_of_succeeds hs hd]

theorem alertOf_eq_some (hs : ∀ r ∈ h, r.Succeeds) (hd : ∀ r ∈ h, r.dryRun = false)
    (hr : r.Succeeds) (hdr : r.dryRun = false) :
    alertOf h r = some text ↔ r.text = text ∧ ∀ r' ∈ h.head?, ¬Continues r r' := by
  rw [alertOf, reportInvalidConfig_of_succeeds hr hdr]
  cases h with
  | nil => simp [markerAfter]
  | cons r' h =>
    rw [markerAfter_cons (hs r' List.mem_cons_self) (hd r' List.mem_cons_self)]
    simp only [Option.some_inj, configMarker_eq_iff]
    by_cases hc : Continues r r'
    · simp [hc]
    · simp [hc]

/-! ## Sequences of runs -/

theorem markerAfter_live : markerAfter (live h) = markerAfter h := by
  induction h with
  | nil => rfl
  | cons r h ih =>
    cases hd : r.dryRun with
    | false =>
      rw [live, List.filter_cons_of_pos (by simp [hd]), ← live, markerAfter, ih, ← markerAfter]
    | true =>
      rw [live, List.filter_cons_of_neg (by simp [hd]), ← live, ih, markerAfter,
        reportInvalidConfig_of_dryRun hd]

/-- Dry runs send nothing. -/
theorem timesSent_live : timesSent day text (live h) = timesSent day text h := by
  induction h with
  | nil => rfl
  | cons r h ih =>
    cases hd : r.dryRun with
    | false =>
      rw [live, List.filter_cons_of_pos (by simp [hd]), ← live, timesSent, ih, timesSent, alertOf,
        markerAfter_live, ← alertOf]
    | true =>
      rw [live, List.filter_cons_of_neg (by simp [hd]), ← live, ih, timesSent, alertOf,
        reportInvalidConfig_of_dryRun hd]
      simp

theorem timesSent_eq_stretches (hs : ∀ r ∈ h, r.Succeeds) (hd : ∀ r ∈ h, r.dryRun = false) :
    timesSent day text h = stretches (ConfigRun.Says day text) Continues h := by
  induction h with
  | nil => rfl
  | cons r h ih =>
    obtain ⟨hr, hs⟩ := List.forall_mem_cons.1 hs
    obtain ⟨hdr, hd⟩ := List.forall_mem_cons.1 hd
    rw [timesSent, stretches, ih hs hd]
    simp only [alertOf_eq_some hs hd hr hdr, ConfigRun.Says, and_assoc]

/-- In a year written without a sign, a run continues exactly those of its day and text. -/
theorem continues_iff (hy : ¬Date.IsExpandedYear (civil day).year) (hr : r.Says day text) :
    Continues r r' ↔ r'.Says day text := by
  obtain ⟨rfl, rfl⟩ := hr
  unfold Continues ConfigRun.Says
  rw [or_iff_left fun hm => hy hm.1, and_comm, eq_comm, @eq_comm _ r.text]

/-- With times that do not decrease, what stands between two runs of a day is of that day. -/
theorem NoReturn.together (hn : NoReturn h) (ht : h.Pairwise fun r r' => r'.now.ms ≤ r.now.ms) :
    Together (ConfigRun.Says day text) h := by
  rintro r m r' hsub ⟨hr, htext⟩ ⟨hr', htext'⟩
  have htimes : m.now.ms ≤ r.now.ms ∧ r'.now.ms ≤ m.now.ms := by
    have hsorted := ht.sublist hsub
    simp only [List.pairwise_cons, List.mem_cons, List.not_mem_nil, or_false] at hsorted
    exact ⟨hsorted.1 m (.inl rfl), hsorted.2.1 r' rfl⟩
  have hm : m.now.utcDay = day := by
    unfold Date.utcDay at hr hr' ⊢
    omega
  exact ⟨hm, (hn r m r' hsub (hr.trans hr'.symm) (htext.trans htext'.symm)).trans htext⟩

/-- Exactly when every text has one stretch on each of its days. -/
theorem alertedOnce_iff (hs : ∀ r ∈ h, r.Succeeds) : AlertedOnce h ↔
    ∀ r ∈ h, stretches (ConfigRun.Says r.now.utcDay r.text) Continues (live h) = 1 := by
  have hsent : ∀ day text,
      timesSent day text h = stretches (ConfigRun.Says day text) Continues (live h) := by
    intro day text
    rw [← timesSent_live]
    apply timesSent_eq_stretches
    · exact fun r hr => hs r (List.mem_of_mem_filter hr)
    · exact fun r hr => by simpa using List.of_mem_filter hr
  unfold AlertedOnce
  simp only [hsent]
  constructor
  · rintro ⟨hmost, hleast⟩ r hr
    exact Nat.le_antisymm (hmost _ _) (hleast r hr)
  · intro hone
    refine ⟨fun day text => ?_, fun r hr => (hone r hr).ge⟩
    by_cases hr : ∃ r ∈ h, r.Says day text
    · obtain ⟨r, hr, rfl, rfl⟩ := hr
      exact (hone r hr).le
    · have hnone : ∀ r ∈ live h, ¬r.Says day text := fun r hr' hsays =>
        hr ⟨r, List.mem_of_mem_filter hr', hsays⟩
      rw [stretches_of_not hnone]
      exact Nat.zero_le 1

/-- Over runs whose sends and writes succeed, in order of time, every text is sent exactly once on
each UTC day it occurs on if and only if it has one stretch there among the runs that are no dry
runs. In the years ISO texts write without a sign that is: no text comes back on a day after
another one, and what a dry run has to say some other run of its day says too. -/
theorem config_alerts (hs : ∀ r ∈ h, r.Succeeds)
    (ht : h.Pairwise fun r r' => r'.now.ms ≤ r.now.ms) :
    (AlertedOnce h ↔
      ∀ r ∈ h, stretches (ConfigRun.Says r.now.utcDay r.text) Continues (live h) = 1) ∧
    ((∀ r ∈ h, ¬Date.IsExpandedYear (civil r.now.utcDay).year) →
      (AlertedOnce h ↔
        NoReturn (live h) ∧ ∀ r ∈ h, ∃ r' ∈ live h, r'.Says r.now.utcDay r.text)) := by
  refine ⟨alertedOnce_iff hs, fun hy => ?_⟩
  have hsub : (live h).Sublist h := List.filter_sublist
  have hcontinues : ∀ r ∈ h, ∀ a b, a.Says r.now.utcDay r.text →
      (Continues a b ↔ b.Says r.now.utcDay r.text) := fun r hr _ _ => continues_iff (hy r hr)
  rw [alertedOnce_iff hs]
  constructor
  · intro hone
    constructor
    · intro r m r' hrun hday htext
      have hr := hsub.subset (hrun.subset List.mem_cons_self)
      have htogether := (stretches_le_one_iff (hcontinues r hr)).1 (hone r hr).le
      exact (htogether r m r' hrun ⟨rfl, rfl⟩ ⟨hday.symm, htext.symm⟩).2
    · intro r hr
      by_contra hnone
      rw [not_exists] at hnone
      have hzero := stretches_of_not (c := Continues) fun r' hr' hsays => hnone r' ⟨hr', hsays⟩
      exact absurd ((hone r hr).symm.trans hzero) Nat.one_ne_zero
  · rintro ⟨hreturn, hlive⟩ r hr
    obtain ⟨r', hr', hsays⟩ := hlive r hr
    apply Nat.le_antisymm
    · exact (stretches_le_one_iff (hcontinues r hr)).2 (hreturn.together (ht.sublist hsub))
    · exact one_le_stretches (hcontinues r hr) hr' hsays

namespace Demo

/-- A run that succeeds, at a time in milliseconds. -/
def configRun (ms : Int) (h : -8640000000000000 ≤ ms ∧ ms ≤ 8640000000000000) (errors : List String) :
    ConfigRun where
  errors
  now := ⟨ms, h⟩
  telegram := true
  dryRun := false
  send := .ok
  write := true

/-- On 2026-10-16 two runs with one text, then one with another, which is that of the next day. -/
def inTurn : List ConfigRun :=
  [configRun 1792195200000 (by decide) ["CLUSTER must be devnet or mainnet"],
    configRun 1792148400000 (by decide) ["CLUSTER must be devnet or mainnet"],
    configRun 1792146600000 (by decide) ["PROGRAM_ID is not a valid address"],
    configRun 1792144800000 (by decide) ["PROGRAM_ID is not a valid address"]]

/-- On 2026-10-16 the text of the first run comes back after another one. -/
def alternating : List ConfigRun :=
  [configRun 1792148400000 (by decide) ["PROGRAM_ID is not a valid address"],
    configRun 1792146600000 (by decide) ["CLUSTER must be devnet or mainnet"],
    configRun 1792144800000 (by decide) ["PROGRAM_ID is not a valid address"]]

end Demo

theorem config_alerts_in_turn : AlertedOnce Demo.inTurn :=
  (config_alerts (h := Demo.inTurn) (by simp [Demo.inTurn, Demo.configRun, ConfigRun.Succeeds])
    (by decide)).1.2 (by decide +kernel)

theorem config_alert_repeated : (∀ r ∈ Demo.alternating, r.Succeeds) ∧
    (Demo.alternating.Pairwise fun r r' => r'.now.ms ≤ r.now.ms) ∧ ¬AlertedOnce Demo.alternating := by
  refine ⟨by simp [Demo.alternating, Demo.configRun, ConfigRun.Succeeds], by decide, fun h => ?_⟩
  have hmost := h.1 20742 (configText ["PROGRAM_ID is not a valid address"])
  exact absurd hmost (by decide +kernel)

end SafeNudge.Watchdog
