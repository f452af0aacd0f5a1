import SafeNudge.Watchdog.Rounds

/-!
# Alerts over whole runs of the watchdog

The history of the watchdog is the list of its rounds, newest first. What should be open is a
function of it: the findings of the last round in which a check succeeded, and its `rpc` finding
after enough failed rounds (`expected`), since the round in which the key appeared (`openedAt`).
`openFindings_iff` and `failures_eq` show that the state holds exactly that, by induction on the
history; `changes_alternate` and `heartbeats_sentBy` read the messages off the states.
-/

namespace SafeNudge.Watchdog

open Lib

/-- One run of the watchdog: the results of its checks and its time. -/
structure Round where
  results : List CheckResult
  now : Date

def stateAfter (t : Nat) : List Round → State
  | [] => EMPTY_STATE
  | r :: h => (step (stateAfter t h) r.results r.now t).2

/-- The messages of the round `r` after the history `h`. -/
def sentBy (t : Nat) (h : List Round) (r : Round) : List Message :=
  (step (stateAfter t h) r.results r.now t).1

/-! ## What should be open -/

/-- The result of a check. -/
def Round.result? (r : Round) (check : String) : Option CheckResult :=
  r.results.find? fun x => x.check = check

/-- The length of the current streak of failed rounds of a check. -/
def streak (check : String) : List Round → Nat
  | [] => 0
  | r :: h =>
    match r.result? check with
    | some (.error _ _) => streak check h + 1
    | _ => 0

/-- The findings of the last round in which a check succeeded. -/
def lastFindings (check : String) : List Round → List Finding
  | [] => []
  | r :: h =>
    match r.result? check with
    | some (.findings _ findings) => findings
    | _ => lastFindings check h

/-- The error of a check in the newest round. -/
def lastError (check : String) : List Round → String
  | [] => ""
  | r :: _ =>
    match r.result? check with
    | some (.error _ error) => error
    | _ => ""

/-- What should be open for a check: the findings of its last successful round, and `rpc:<check>`
from `t` failed rounds in a row on. -/
def expected (t : Nat) (check : String) (h : List Round) : List Finding :=
  lastFindings check h ++ rpcFindings check (lastError check h) (streak check h) t

/-- One of the checks should have the key open. -/
def isPresent (t : Nat) (checks : List String) (key : String) (h : List Round) : Bool :=
  checks.any fun check => (expected t check h).any fun f => f.key = key

/-- The time of the round in which the current presence of the key began. -/
def openedAt (t : Nat) (checks : List String) (key : String) : List Round → Option Date
  | [] => none
  | r :: h =>
    if isPresent t checks key (r :: h) then
      if isPresent t checks key h then openedAt t checks key h else some r.now
    else none

/-- The rounds of a watchdog with these checks: each gives every check exactly one result, keys
within a result are distinct and belong to one check, and no key takes the place of an `rpc:` key
or of a name every object has. -/
structure WellFormed (checks : List String) (h : List Round) : Prop where
  nodup : checks.Nodup
  /-- Times do not decrease; the newest round comes first. -/
  times : h.Pairwise fun r r' => r'.now.ms ≤ r.now.ms
  results : ∀ r ∈ h, (r.results.map CheckResult.check).Perm checks
  distinct : ∀ r ∈ h, ∀ x ∈ r.results, x.Distinct
  disjoint : ∀ {r c fs r' c' fs' f f'}, r ∈ h → .findings c fs ∈ r.results → f ∈ fs →
    r' ∈ h → .findings c' fs' ∈ r'.results → f' ∈ fs' → f.key = f'.key → c = c'
  rpc : ∀ {r c fs f}, r ∈ h → .findings c fs ∈ r.results → f ∈ fs →
    ¬"rpc:".toList <+: f.key.toList
  own : ∀ {r c fs f}, r ∈ h → .findings c fs ∈ r.results → f ∈ fs → f.key ∉ Record.inherited
  checks_own : ∀ c ∈ checks, c ∉ Record.inherited

variable {t : Nat} {checks : List String} {h : List Round} {r : Round} {check key error : String}
  {findings : List Finding} {f : Finding} {x : OpenFinding}

theorem WellFormed.tail (hw : WellFormed checks (r :: h)) : WellFormed checks h where
  nodup := hw.nodup
  times := (List.pairwise_cons.1 hw.times).2
  results r' hr' := hw.results r' (.tail _ hr')
  distinct r' hr' := hw.distinct r' (.tail _ hr')
  disjoint hr hx hf hr' := hw.disjoint (.tail _ hr) hx hf (.tail _ hr')
  rpc hr := hw.rpc (.tail _ hr)
  own hr := hw.own (.tail _ hr)
  checks_own := hw.checks_own

/-! ## Results of a round -/

/-- Every check has the result it gave. -/
theorem result?_eq_some {x : CheckResult} (hr : (r.results.map CheckResult.check).Nodup) :
    r.result? check = some x ↔ x ∈ r.results ∧ x.check = check := by
  unfold Round.result?
  constructor
  · intro h
    exact ⟨List.mem_of_find?_eq_some h, by simpa using List.find?_some h⟩
  · intro ⟨hx, hc⟩
    have hsome : (r.results.find? fun x => x.check = check).isSome := by
      rw [List.find?_isSome]
      exact ⟨x, hx, by simpa using hc⟩
    obtain ⟨y, hy⟩ := Option.isSome_iff_exists.1 hsome
    have hyc : y.check = check := by simpa using List.find?_some hy
    rw [hy, List.inj_on_of_nodup_map hr (List.mem_of_find?_eq_some hy) hx (hyc.trans hc.symm)]

theorem WellFormed.result (hw : WellFormed checks (r :: h)) {x : CheckResult} :
    r.result? check = some x ↔ x ∈ r.results ∧ x.check = check :=
  result?_eq_some ((hw.results r List.mem_cons_self).nodup_iff.2 hw.nodup)

/-- A check of the watchdog has a result in every round. -/
theorem WellFormed.exists_result (hw : WellFormed checks (r :: h)) (hc : check ∈ checks) :
    ∃ x ∈ r.results, x.check = check :=
  List.mem_map.1 ((hw.results r List.mem_cons_self).mem_iff.2 hc)

theorem WellFormed.check_mem (hw : WellFormed checks (r :: h)) {x : CheckResult}
    (hx : x ∈ r.results) : x.check ∈ checks :=
  (hw.results r List.mem_cons_self).mem_iff.1 (List.mem_map_of_mem hx)

/-! ## Keys -/

theorem mem_lastFindings (hw : WellFormed checks h) (hf : f ∈ lastFindings check h) :
    ∃ r ∈ h, ∃ findings, .findings check findings ∈ r.results ∧ f ∈ findings := by
  induction h with
  | nil => cases hf
  | cons r h ih =>
    unfold lastFindings at hf
    split at hf
    · rename_i c findings hres
      obtain ⟨hmem, hc⟩ := hw.result.1 hres
      subst hc
      exact ⟨r, List.mem_cons_self, findings, hmem, hf⟩
    · obtain ⟨r', hr', rest⟩ := ih hw.tail hf
      exact ⟨r', .tail _ hr', rest⟩

theorem mem_rpcFindings {n : Nat} : f ∈ rpcFindings check error n t ↔
    t ≤ n ∧ f = ⟨rpcKey check, .error, "Check " ++ check ++ " failed: " ++ escapeHtml error⟩ := by
  unfold rpcFindings
  split
  · simp
    omega
  · simp
    omega

theorem rpcKey_inj {c c' : String} (h : rpcKey c = rpcKey c') : c = c' :=
  (String.append_right_inj _).1 h

theorem rpcKey_begins (check : String) : "rpc:".toList <+: (rpcKey check).toList := by
  unfold rpcKey
  rw [String.toList_append]
  exact List.prefix_append _ _

theorem inherited_begins_otherwise : ∀ n ∈ Record.inherited, ¬"rpc:".toList <+: n.toList := by
  decide

/-- A key is expected of one check. -/
theorem expected_unique (hw : WellFormed checks h) {c c' : String} {f' : Finding}
    (hf : f ∈ expected t c h) (hf' : f' ∈ expected t c' h) (hk : f.key = f'.key) : c = c' := by
  rcases List.mem_append.1 hf with hl | hr <;> rcases List.mem_append.1 hf' with hl' | hr'
  · obtain ⟨r, hr, fs, hx, hfs⟩ := mem_lastFindings hw hl
    obtain ⟨r', hr', fs', hx', hfs'⟩ := mem_lastFindings hw hl'
    exact hw.disjoint hr hx hfs hr' hx' hfs' hk
  · obtain ⟨r, hr, fs, hx, hfs⟩ := mem_lastFindings hw hl
    obtain ⟨-, rfl⟩ := mem_rpcFindings.1 hr'
    exact absurd (hk ▸ rpcKey_begins c') (hw.rpc hr hx hfs)
  · obtain ⟨-, rfl⟩ := mem_rpcFindings.1 hr
    obtain ⟨r, hmem, fs, hx, hfs⟩ := mem_lastFindings hw hl'
    exact absurd (hk ▸ rpcKey_begins c) (hw.rpc hmem hx hfs)
  · obtain ⟨-, rfl⟩ := mem_rpcFindings.1 hr
    obtain ⟨-, rfl⟩ := mem_rpcFindings.1 hr'
    exact rpcKey_inj hk

theorem expected_own (hw : WellFormed checks h) (hf : f ∈ expected t check h) :
    f.key ∉ Record.inherited := by
  rcases List.mem_append.1 hf with hl | hr
  · obtain ⟨r, hr, fs, hx, hfs⟩ := mem_lastFindings hw hl
    exact hw.own hr hx hfs
  · obtain ⟨-, rfl⟩ := mem_rpcFindings.1 hr
    exact fun hm => inherited_begins_otherwise _ hm (rpcKey_begins check)

theorem isPresent_iff : isPresent t checks key h = true ↔
    ∃ c ∈ checks, ∃ f ∈ expected t c h, f.key = key := by
  simp only [isPresent, List.any_eq_true, decide_eq_true_eq]

theorem openedAt_of_isPresent (ht : 0 < t) (hp : isPresent t checks key h = true) :
    ∃ d, openedAt t checks key h = some d := by
  induction h with
  | nil =>
    obtain ⟨c, -, f, hf, -⟩ := isPresent_iff.1 hp
    rcases List.mem_append.1 hf with hl | hr
    · cases hl
    · exact absurd (mem_rpcFindings.1 hr).1 (Nat.not_le.2 ht)
  | cons r h ih =>
    unfold openedAt
    rw [if_pos hp]
    split
    · exact ih ‹_›
    · exact ⟨r.now, rfl⟩

/-! ## A round more -/

section
variable (hw : WellFormed checks (r :: h)) {c : String}
include hw

theorem result?_error (hy : .error c error ∈ r.results) : r.result? c = some (.error c error) :=
  hw.result.2 ⟨hy, rfl⟩

theorem result?_findings (hy : .findings c findings ∈ r.results) :
    r.result? c = some (.findings c findings) :=
  hw.result.2 ⟨hy, rfl⟩

theorem expected_error (hy : .error c error ∈ r.results) : expected t c (r :: h) =
    lastFindings c h ++ rpcFindings c error (streak c h + 1) t := by
  unfold expected
  rw [streak, lastFindings, lastError, result?_error hw hy]

theorem expected_findings (ht : 0 < t) (hy : .findings c findings ∈ r.results) :
    expected t c (r :: h) = findings := by
  have hnone : rpcFindings c (lastError c (r :: h)) 0 t = [] := if_pos ht
  unfold expected
  rw [streak, lastFindings, result?_findings hw hy]
  exact (congrArg (findings ++ ·) hnone).trans (List.append_nil _)

end

theorem openedAt_cons (hp : isPresent t checks key (r :: h) = true)
    (hold : isPresent t checks key h = true) :
    openedAt t checks key (r :: h) = openedAt t checks key h := by
  rw [openedAt, if_pos hp, if_pos hold]

/-! ## The state -/

/-- The state holds what the history says. -/
structure Tracks (t : Nat) (checks : List String) (h : List Round) (s : State) : Prop where
  failures : ∀ c, s.failures.get? c = if streak c h = 0 then none else some (streak c h)
  openFindings : ∀ k x, s.openFindings.get? k = some x ↔ ∃ c ∈ checks, ∃ f ∈ expected t c h,
    f.key = k ∧ ∃ d, openedAt t checks k h = some d ∧
      x = { f with check := c, since := d.toISOString }

variable {prev : State}

theorem Tracks.isPresent (hs : Tracks t checks h prev) (ht : 0 < t) :
    (prev.openFindings.get? key).isSome = isPresent t checks key h := by
  rw [Bool.eq_iff_iff, isPresent_iff, Option.isSome_iff_exists]
  constructor
  · intro ⟨x, hx⟩
    obtain ⟨c, hc, f, hf, hk, -⟩ := (hs.openFindings key x).1 hx
    exact ⟨c, hc, f, hf, hk⟩
  · intro ⟨c, hc, f, hf, hk⟩
    obtain ⟨d, hd⟩ := openedAt_of_isPresent ht (isPresent_iff.2 ⟨c, hc, f, hf, hk⟩)
    exact ⟨_, (hs.openFindings key _).2 ⟨c, hc, f, hf, hk, d, hd, rfl⟩⟩

/-- A finding of a round is open since its presence began. -/
theorem Tracks.asOpen_eq (hs : Tracks t checks h prev) (ht : 0 < t) (hc : check ∈ checks)
    (hf : f ∈ expected t check (r :: h)) : x = asOpen prev r.now.toISOString check f ↔
      ∃ d, openedAt t checks f.key (r :: h) = some d ∧
        x = { f with check, since := d.toISOString } := by
  have hp : Watchdog.isPresent t checks f.key (r :: h) = true :=
    isPresent_iff.2 ⟨check, hc, f, hf, rfl⟩
  have hsince : ∃ d, openedAt t checks f.key (r :: h) = some d ∧
      ((prev.openFindings.get? f.key).map OpenFinding.since).getD r.now.toISOString =
        d.toISOString := by
    unfold openedAt
    rw [if_pos hp]
    by_cases hold : Watchdog.isPresent t checks f.key h = true
    · obtain ⟨c', hc', f', hf', hk⟩ := isPresent_iff.1 hold
      obtain ⟨d, hd⟩ := openedAt_of_isPresent ht hold
      rw [if_pos hold, (hs.openFindings f.key _).2 ⟨c', hc', f', hf', hk, d, hd, rfl⟩]
      exact ⟨d, hd, rfl⟩
    · have hnone : prev.openFindings.get? f.key = none := by
        rw [← Option.not_isSome_iff_eq_none, hs.isPresent ht]
        exact hold
      rw [if_neg hold, hnone]
      exact ⟨r.now, rfl, rfl⟩
  obtain ⟨d, hd, hiso⟩ := hsince
  unfold asOpen
  rw [hiso]
  constructor
  · intro hx
    exact ⟨d, hd, hx⟩
  · intro ⟨d', hd', hx⟩
    rw [hd] at hd'
    cases hd'
    exact hx

theorem lookup_entriesOf {nowIso : String} (hd : (findings.map Finding.key).Nodup) :
    (entriesOf prev nowIso check findings).lookup key = some x ↔
      ∃ f ∈ findings, f.key = key ∧ x = asOpen prev nowIso check f := by
  rw [← mem_iff_lookup (nodup_entriesOf hd)]
  unfold entriesOf
  rw [List.mem_map]
  refine exists_congr fun f => and_congr_right fun _ => ?_
  rw [Prod.mk.injEq]
  exact and_congr_right fun _ => eq_comm

theorem lookup_rpc_eq_none {nowIso : String} {n : Nat} :
    (entriesOf prev nowIso check (rpcFindings check error n t)).lookup key = none ↔
      ¬(t ≤ n ∧ key = rpcKey check) := by
  rw [Option.eq_none_iff_forall_ne_some]
  constructor
  · intro hnone ⟨hle, hk⟩
    exact hnone _ ((lookup_entriesOf nodup_rpcFindings).2
      ⟨_, mem_rpcFindings.2 ⟨hle, rfl⟩, hk.symm, rfl⟩)
  · intro hk x hx
    obtain ⟨f, hf, hfk, -⟩ := (lookup_entriesOf nodup_rpcFindings).1 hx
    obtain ⟨hle, rfl⟩ := mem_rpcFindings.1 hf
    exact hk ⟨hle, hfk.symm⟩

/-- What stays open in a failed round: the findings of the last successful one. -/
theorem Tracks.kept (hw : WellFormed checks (r :: h)) (hs : Tracks t checks h prev)
    {c e : String} (hc : c ∈ checks) (hy : .error c e ∈ r.results)
    (hk : ¬(t ≤ streak c h + 1 ∧ key = rpcKey c)) :
    (prev.openFindings.get? key).filter (fun x => x.check = c) = some x ↔
      ∃ f ∈ lastFindings c h, f.key = key ∧ ∃ d, openedAt t checks key (r :: h) = some d ∧
        x = { f with check := c, since := d.toISOString } := by
  have hmem : ∀ f ∈ lastFindings c h, f ∈ expected t c (r :: h) ∧ f ∈ expected t c h := by
    intro f hf
    rw [expected_error hw hy]
    exact ⟨List.mem_append_left _ hf, List.mem_append_left _ hf⟩
  have hopened : ∀ f ∈ lastFindings c h, f.key = key →
      openedAt t checks key (r :: h) = openedAt t checks key h := by
    intro f hf hfk
    obtain ⟨hnew, hold⟩ := hmem f hf
    exact openedAt_cons (isPresent_iff.2 ⟨c, hc, f, hnew, hfk⟩) (isPresent_iff.2 ⟨c, hc, f, hold, hfk⟩)
  rw [Option.filter_eq_some_iff, hs.openFindings, decide_eq_true_eq]
  constructor
  · intro ⟨⟨c', hc', f, hf, hfk, d, hd, hx⟩, hxc⟩
    subst hx
    change c' = c at hxc
    subst hxc
    rcases List.mem_append.1 hf with hl | hr
    · exact ⟨f, hl, hfk, d, (hopened f hl hfk).trans hd, rfl⟩
    · obtain ⟨hle, rfl⟩ := mem_rpcFindings.1 hr
      exact absurd ⟨Nat.le_succ_of_le hle, hfk.symm⟩ hk
  · intro ⟨f, hf, hfk, d, hd, hx⟩
    subst hx
    exact ⟨⟨c, hc, f, (hmem f hf).2, hfk, d, (hopened f hf hfk).symm.trans hd, rfl⟩, rfl⟩

/-- What a result says about a key is what should be open. -/
theorem contribution_eq_some (ht : 0 < t) (hw : WellFormed checks (r :: h))
    (hs : Tracks t checks h prev) {y : CheckResult} (hy : y ∈ r.results) :
    contribution prev r.now.toISOString t y key = some x ↔
      ∃ f ∈ expected t y.check (r :: h), f.key = key ∧
        ∃ d, openedAt t checks key (r :: h) = some d ∧
          x = { f with check := y.check, since := d.toISOString } := by
  have hc := hw.check_mem hy
  have hentry : ∀ f ∈ expected t y.check (r :: h),
      (f.key = key ∧ x = asOpen prev r.now.toISOString y.check f ↔ f.key = key ∧
        ∃ d, openedAt t checks key (r :: h) = some d ∧
          x = { f with check := y.check, since := d.toISOString }) := by
    intro f hf
    refine and_congr_right fun hk => ?_
    subst hk
    exact hs.asOpen_eq ht hc hf
  cases y with
  | findings c fs =>
    have hexp := expected_findings hw ht hy
    change (entriesOf prev r.now.toISOString c fs).lookup key = some x ↔ _
    rw [lookup_entriesOf (hw.distinct r List.mem_cons_self _ hy)]
    dsimp only [CheckResult.check] at hentry ⊢
    rw [hexp] at hentry ⊢
    exact exists_congr fun f => and_congr_right (hentry f)
  | error c e =>
    have hfailed : (prev.failures.get? c).getD 0 = streak c h := by
      rw [hs.failures]
      split
      · exact Eq.symm ‹_›
      · rfl
    have hexp := @expected_error t checks h r e hw c hy
    unfold contribution
    dsimp only [CheckResult.check] at hentry ⊢
    rw [hexp] at hentry ⊢
    rw [hfailed, Option.or_eq_some_iff, lookup_entriesOf nodup_rpcFindings]
    constructor
    · intro hx
      rcases hx with ⟨f, hf, hfx⟩ | ⟨hnone, hkept⟩
      · exact ⟨f, List.mem_append_right _ hf, (hentry f (List.mem_append_right _ hf)).1 hfx⟩
      · obtain ⟨f, hf, hfx⟩ := (hs.kept hw hc hy (lookup_rpc_eq_none.1 hnone)).1 hkept
        exact ⟨f, List.mem_append_left _ hf, hfx⟩
    · intro ⟨f, hf, hfx⟩
      rcases List.mem_append.1 hf with hl | hr
      · right
        have hk : ¬(t ≤ streak c h + 1 ∧ key = rpcKey c) := by
          intro ⟨_, hk⟩
          obtain ⟨r', hr', fs, hfs, hmem⟩ := mem_lastFindings hw.tail hl
          have hown := hw.rpc (.tail _ hr') hfs hmem
          rw [hfx.1, hk] at hown
          exact hown (rpcKey_begins c)
        exact ⟨lookup_rpc_eq_none.2 hk, (hs.kept hw hc hy hk).2 ⟨f, hl, hfx⟩⟩
      · exact .inl ⟨f, hr, (hentry f hf).2 hfx⟩

/-- One round keeps the state true to the history. -/
theorem Tracks.step (ht : 0 < t) (hw : WellFormed checks (r :: h)) (hs : Tracks t checks h prev) :
    Tracks t checks (r :: h) (step prev r.results r.now t).2 where
  failures c := by
    apply Option.ext
    intro n
    rw [failures_step]
    have hprev : (prev.failures.get? c).getD 0 = streak c h := by
      rw [hs.failures]
      split
      · exact Eq.symm ‹_›
      · rfl
    rw [hprev, streak]
    constructor
    · intro ⟨e, he, hn⟩
      rw [result?_error hw he, hn]
      rfl
    · intro hn
      split at hn
      · rename_i c' e hres
        obtain ⟨hmem, hc⟩ := hw.result.1 hres
        change c' = c at hc
        subst hc
        exact ⟨e, hmem, (Option.some.inj hn).symm⟩
      · cases hn
  openFindings k x := by
    have hunique : r.results.Pairwise fun y y' =>
        contribution prev r.now.toISOString t y k = none ∨
          contribution prev r.now.toISOString t y' k = none := by
      have hchecks : r.results.Pairwise fun y y' => y.check ≠ y'.check :=
        List.pairwise_map.1 ((hw.results r List.mem_cons_self).nodup_iff.2 hw.nodup)
      refine hchecks.imp_of_mem fun {y y'} hy hy' hne => ?_
      by_contra hboth
      obtain ⟨hsome, hsome'⟩ := not_or.1 hboth
      obtain ⟨x, hx⟩ := Option.ne_none_iff_exists'.1 hsome
      obtain ⟨x', hx'⟩ := Option.ne_none_iff_exists'.1 hsome'
      obtain ⟨f, hf, hk, -⟩ := (contribution_eq_some ht hw hs hy).1 hx
      obtain ⟨f', hf', hk', -⟩ := (contribution_eq_some ht hw hs hy').1 hx'
      exact hne (expected_unique hw hf hf' (hk.trans hk'.symm))
    rw [openFindings_step (hw.distinct r List.mem_cons_self) hunique]
    constructor
    · intro ⟨y, hy, hx⟩
      exact ⟨y.check, hw.check_mem hy, (contribution_eq_some ht hw hs hy).1 hx⟩
    · intro ⟨c, hc, hx⟩
      obtain ⟨y, hy, rfl⟩ := hw.exists_result hc
      exact ⟨y, hy, (contribution_eq_some ht hw hs hy).2 hx⟩

/-- The state after any history holds what the history says. -/
theorem tracks (ht : 0 < t) (hw : WellFormed checks h) : Tracks t checks h (stateAfter t h) := by
  induction h with
  | nil =>
    refine ⟨fun c => rfl, fun k x => iff_of_false nofun ?_⟩
    intro ⟨c, _, f, hf, _⟩
    rcases List.mem_append.1 hf with hl | hr
    · cases hl
    · exact absurd (mem_rpcFindings.1 hr).1 (Nat.not_le.2 ht)
  | cons r h ih => exact (ih hw.tail).step ht hw

/-! ## Messages about findings -/

/-- The messages about a key over a history, oldest first. -/
def changes (t : Nat) (key : String) : List Round → List Change
  | [] => []
  | r :: h => changes t key h ++ (sentBy t h r).filterMap (Message.about key)

/-- A name every object has is not a key. -/
theorem get?_inherited (ht : 0 < t) (hw : WellFormed checks h) (hk : key ∈ Record.inherited) :
    (stateAfter t h).openFindings.get? key = none := by
  rw [Option.eq_none_iff_forall_ne_some]
  intro x hx
  obtain ⟨c, -, f, hf, rfl, -⟩ := ((tracks ht hw).openFindings key x).1 hx
  exact expected_own hw hf hk

/-- The messages about a key alternate, and the last one says whether it is open. -/
theorem changes_alternate (ht : 0 < t) (hw : WellFormed checks h) :
    Alternates (changes t key h) ((stateAfter t h).openFindings.get? key).isSome := by
  induction h with
  | nil => exact .nil nofun
  | cons r h ih =>
    have hih := ih hw.tail
    by_cases hk : key ∈ Record.inherited
    · have hold := get?_inherited ht hw.tail hk
      have hnew := get?_inherited ht hw hk
      rw [hold] at hih
      rw [changes, sentBy, filterMap_step, filterMap_transitions, hold, hnew]
      change (step (stateAfter t h) r.results r.now t).2.openFindings.get? key = none at hnew
      rw [hnew]
      simpa using hih
    · exact step_alternates hk hih

/-! ## Heartbeats -/

theorem lastHeartbeatDay_stateAfter :
    (stateAfter t h).lastHeartbeatDay = h.head?.map fun r => today r.now := by
  cases h with
  | nil => rfl
  | cons r h => exact lastHeartbeatDay_step

theorem today_eq_iff {d d' : Date} : today d = today d' ↔
    d.toISOString.toList.take 10 = d'.toISOString.toList.take 10 := by
  unfold today
  rw [String.ofList_inj]

/-- Two times in one month of a year that ISO texts write with a sign. -/
def InOneExpandedMonth (d d' : Date) : Prop :=
  Date.IsExpandedYear (civil d.utcDay).year ∧ (civil d.utcDay).year = (civil d'.utcDay).year ∧
    (civil d.utcDay).month = (civil d'.utcDay).month

instance (d d' : Date) : Decidable (InOneExpandedMonth d d') :=
  inferInstanceAs (Decidable (_ ∧ _ ∧ _))

/-- No two rounds in a row fall on different days of one month of a year before 0 or after 9999. -/
def DaysTold (h : List Round) : Prop :=
  ∀ r r' older, r :: r' :: older <:+ h → InOneExpandedMonth r.now r'.now →
    r.now.utcDay = r'.now.utcDay

/-- Every UTC day with a round has one heartbeat, sent in the first round of the day. -/
def DailyHeartbeat (t : Nat) (h : List Round) : Prop :=
  ∀ r older, r :: older <:+ h → (sentBy t older r).countP Message.isHeartbeat =
    if ∀ r' ∈ older, r'.now.utcDay ≠ r.now.utcDay then 1 else 0

/-- With times that do not decrease, the first round of a day is the one whose predecessor was on
another day. -/
theorem first_of_day {r' : Round} {older : List Round}
    (ht : (r :: r' :: older).Pairwise fun r r' => r'.now.ms ≤ r.now.ms) :
    (∀ x ∈ r' :: older, x.now.utcDay ≠ r.now.utcDay) ↔ r.now.utcDay ≠ r'.now.utcDay := by
  rw [List.pairwise_cons, List.pairwise_cons] at ht
  obtain ⟨hr, hr', -⟩ := ht
  constructor
  · intro h
    exact (h r' List.mem_cons_self).symm
  · intro hne x hx hxr
    have hle : x.now.utcDay ≤ r'.now.utcDay ∧ r'.now.utcDay ≤ r.now.utcDay := by
      have h₁ := hr r' List.mem_cons_self
      have h₂ : x.now.ms ≤ r'.now.ms := by
        rcases List.mem_cons.1 hx with rfl | hx
        · exact Int.le_refl _
        · exact hr' x hx
      unfold Date.utcDay
      omega
    omega

theorem dailyHeartbeat_iff (hw : WellFormed checks h) : DailyHeartbeat t h ↔ DaysTold h := by
  have hround : ∀ r r' older, r :: r' :: older <:+ h →
      ((sentBy t (r' :: older) r).countP Message.isHeartbeat =
        (if ∀ x ∈ r' :: older, x.now.utcDay ≠ r.now.utcDay then 1 else 0) ↔
        (InOneExpandedMonth r.now r'.now → r.now.utcDay = r'.now.utcDay)) := by
    intro r r' older hs
    have hfirst := first_of_day (hw.times.sublist hs.sublist)
    have hcount : (sentBy t (r' :: older) r).countP Message.isHeartbeat =
        if r.now.utcDay = r'.now.utcDay ∨ InOneExpandedMonth r.now r'.now then 0 else 1 := by
      have hday : (stateAfter t (r' :: older)).lastHeartbeatDay = some (today r.now) ↔
          r.now.utcDay = r'.now.utcDay ∨ InOneExpandedMonth r.now r'.now := by
        rw [lastHeartbeatDay_stateAfter, List.head?_cons, Option.map_some, Option.some_inj,
          eq_comm, today_eq_iff, Date.iso_take_eq_iff]
        rfl
      rw [sentBy, countP_step]
      simp only [hday]
    rw [hcount]
    simp only [hfirst]
    by_cases hday : r.now.utcDay = r'.now.utcDay <;>
      by_cases hmonth : InOneExpandedMonth r.now r'.now <;> simp [hday, hmonth]
  constructor
  · intro hdaily r r' older hs
    exact (hround r r' older hs).1 (hdaily r _ hs)
  · intro htold r older hs
    cases older with
    | nil =>
      rw [sentBy, countP_step, lastHeartbeatDay_stateAfter, List.head?_nil, Option.map_none,
        if_neg (Option.some_ne_none _).symm, if_pos fun _ hx => absurd hx List.not_mem_nil]
    | cons r' older => exact (hround r r' older hs).2 (htold r r' older hs)

/-- Days are told apart in the years 0 to 9999. -/
theorem daysTold_of_years (hy : ∀ r ∈ h, ¬Date.IsExpandedYear (civil r.now.utcDay).year) :
    DaysTold h := by
  intro r r' older hs hmonth
  exact absurd hmonth.1 (hy r (hs.subset List.mem_cons_self))

/-! ## Runs -/

/-- Over every history: `failures` counts the current streak of each check; the open findings are
those of the last successful round of their check and `rpc:<check>` from `t` failures in a row on,
each open since its presence began; and the messages about a key alternate, the last one saying
whether it is open. Every day has its one heartbeat exactly if days are told apart, which two
rounds in a row in one month of a year before 0 or after 9999 are not. -/
theorem watchdog_runs (ht : 0 < t) (hw : WellFormed checks h) :
    (∀ c, (stateAfter t h).failures.get? c = if streak c h = 0 then none else some (streak c h)) ∧
    (∀ k x, (stateAfter t h).openFindings.get? k = some x ↔ ∃ c ∈ checks, ∃ f ∈ expected t c h,
      f.key = k ∧ ∃ d, openedAt t checks k h = some d ∧
        x = { f with check := c, since := d.toISOString }) ∧
    (∀ k, Alternates (changes t k h) ((stateAfter t h).openFindings.get? k).isSome) ∧
    (DailyHeartbeat t h ↔ DaysTold h) :=
  ⟨(tracks ht hw).failures, (tracks ht hw).openFindings, fun _ => changes_alternate ht hw,
    dailyHeartbeat_iff hw⟩

namespace Demo

/-- A round of the one check at a time in milliseconds. -/
def round (ms : Int) (h : -8640000000000000 ≤ ms ∧ ms ≤ 8640000000000000)
    (findings : List Finding) : Round :=
  ⟨[.findings "upgrade-authority" findings], ⟨ms, h⟩⟩

def failing (ms : Int) (h : -8640000000000000 ≤ ms ∧ ms ≤ 8640000000000000) (error : String) :
    Round :=
  ⟨[.error "upgrade-authority" error], ⟨ms, h⟩⟩

def changed : Finding := ⟨"upgrade-authority", .critical, "changed"⟩

/-- On 2026-10-12 a finding appears, and on the next day the check fails twice. -/
def appeared : List Round :=
  [failing 1791850500000 (by decide) "HTTP 502", failing 1791849900000 (by decide) "HTTP 500",
    round 1791799800000 (by decide) [changed], round 1791799200000 (by decide) []]

/-- The first two days of the year 10000. -/
def newYear : List Round :=
  [round 253402387200000 (by decide) [], round 253402300800000 (by decide) []]

/-- The results of these rounds. -/
def results : List CheckResult :=
  [.findings "upgrade-authority" [], .findings "upgrade-authority" [changed],
    .error "upgrade-authority" "HTTP 500", .error "upgrade-authority" "HTTP 502"]

end Demo

theorem Demo.key_of_mem_results {c : String} {fs : List Finding}
    (hx : CheckResult.findings c fs ∈ Demo.results) (hf : f ∈ fs) :
    c = "upgrade-authority" ∧ f = Demo.changed := by
  rcases List.mem_cons.1 hx with hx | hx
  · rw [(CheckResult.findings.inj hx).2] at hf
    cases hf
  rcases List.mem_cons.1 hx with hx | hx
  · obtain ⟨rfl, rfl⟩ := CheckResult.findings.inj hx
    exact ⟨rfl, List.mem_singleton.1 hf⟩
  rcases List.mem_pair.1 hx with hx | hx
  · cases hx
  · cases hx

theorem Demo.wellFormed (hr : ∀ r ∈ h, ∃ x ∈ Demo.results, r.results = [x])
    (ht : h.Pairwise fun r r' => r'.now.ms ≤ r.now.ms) :
    WellFormed ["upgrade-authority"] h := by
  have hcheck : ∀ x ∈ Demo.results, x.check = "upgrade-authority" := by decide
  have hmem : ∀ {r x}, r ∈ h → x ∈ r.results → x ∈ Demo.results := by
    intro r x hrh hx
    obtain ⟨y, hy, hres⟩ := hr r hrh
    rw [hres] at hx
    rwa [List.mem_singleton.1 hx]
  have hkey : ∀ {r c fs f}, r ∈ h → CheckResult.findings c fs ∈ r.results → f ∈ fs →
      c = "upgrade-authority" ∧ f.key = "upgrade-authority" := by
    intro r c fs f hrh hx hf
    obtain ⟨hc, rfl⟩ := Demo.key_of_mem_results (hmem hrh hx) hf
    exact ⟨hc, rfl⟩
  refine ⟨by decide, ht, fun r hrh => ?_, fun r hrh x hx => ?_, ?_, ?_, ?_, by decide⟩
  · obtain ⟨x, hx, hres⟩ := hr r hrh
    rw [hres, List.map_singleton, hcheck x hx]
  · have hdistinct : ∀ x ∈ Demo.results, x.Distinct := by
      simp [Demo.results, CheckResult.Distinct]
    exact hdistinct x (hmem hrh hx)
  · intro r c fs r' c' fs' f f' hrh hx hf hrh' hx' hf' _
    rw [(hkey hrh hx hf).1, (hkey hrh' hx' hf').1]
  · intro r c fs f hrh hx hf
    rw [(hkey hrh hx hf).2]
    decide
  · intro r c fs f hrh hx hf
    rw [(hkey hrh hx hf).2]
    decide

/-- The finding that appeared is kept while the check fails, and the second failure in a row opens
that of the check. -/
theorem watchdog_runs_appeared :
    (stateAfter 2 Demo.appeared).failures.get? "upgrade-authority" = some 2 ∧
    (stateAfter 2 Demo.appeared).openFindings.get? "upgrade-authority" =
      some ⟨Demo.changed, "upgrade-authority", "2026-10-12T10:10:00.000Z"⟩ ∧
    (stateAfter 2 Demo.appeared).openFindings.get? "rpc:upgrade-authority" =
      some ⟨⟨"rpc:upgrade-authority", .error, "Check upgrade-authority failed: HTTP 502"⟩,
        "upgrade-authority", "2026-10-13T00:15:00.000Z"⟩ ∧
    (∀ k, Alternates (changes 2 k Demo.appeared)
      ((stateAfter 2 Demo.appeared).openFindings.get? k).isSome) ∧
    DailyHeartbeat 2 Demo.appeared := by
  obtain ⟨hfailures, hopen, halternate, hdaily⟩ := @watchdog_runs 2 ["upgrade-authority"]
    Demo.appeared (by decide) (Demo.wellFormed (by decide) (by decide))
  have hchanged : Demo.changed ∈ expected 2 "upgrade-authority" Demo.appeared := by decide +kernel
  have hrpc : ⟨"rpc:upgrade-authority", .error, "Check upgrade-authority failed: HTTP 502"⟩ ∈
      expected 2 "upgrade-authority" Demo.appeared := by decide +kernel
  refine ⟨hfailures "upgrade-authority", ?_, ?_, halternate,
    hdaily.2 (daysTold_of_years (by decide))⟩
  · exact (hopen _ _).2 ⟨_, List.mem_cons_self, _, hchanged, rfl, ⟨1791799800000, by decide⟩,
      by decide +kernel, by decide +kernel⟩
  · exact (hopen _ _).2 ⟨_, List.mem_cons_self, _, hrpc, rfl, ⟨1791850500000, by decide⟩,
      by decide +kernel, by decide +kernel⟩

theorem heartbeat_missing : WellFormed ["upgrade-authority"] Demo.newYear ∧
    ¬DailyHeartbeat 2 Demo.newYear := by
  refine ⟨Demo.wellFormed (by decide) (by decide), fun h => ?_⟩
  have hcount := h _ _ (List.suffix_refl _)
  exact absurd hcount (by decide +kernel)

end SafeNudge.Watchdog
