import SafeNudge.Property.Alerts
import SafeNudge.Property.Display

/-!
# What is open after runs of the checks

`Property/Alerts` is about any checks that keep their keys apart. Those of `main` do
(`wellFormed_rounds`): the addresses of the groups make different keys, since base 58 tells two
accounts apart. So what is open after any runs can be read off the answers of the node
(`alarms_followed`): a finding is open if the newest answer its check could use says so, and that of
a check itself if its last runs failed. Runs that fail to send or to write are not counted
(`completed`).
-/

namespace SafeNudge.Watchdog

open Lib

/-! ## One check -/

/-- The group is reported: it is active, and its cycle ended too long ago or has an unknown end. -/
def Group.IsUnsettled (group : Group) (nowSecs graceSecs : Int) (cluster : Cluster) : Prop :=
  group.status = STATUS_ACTIVE ∧ ∀ end_, cycleEnd group cluster = some end_ → graceSecs < nowSecs - end_

section
variable {group : Group} {groups : List Group} {nowSecs graceSecs : Int} {cluster : Cluster}
  {found : Option Finding} {findings : List Finding} {k : String}

theorem evaluateGroup_eq_ok (h : evaluateGroup group nowSecs graceSecs cluster = .ok found) :
    found.map Finding.key = none ∧ ¬group.IsUnsettled nowSecs graceSecs cluster ∨
      found.map Finding.key = some (unsettledKey group.address) ∧
        group.IsUnsettled nowSecs graceSecs cluster := by
  unfold evaluateGroup at h
  split at h
  · rename_i hs
    obtain rfl := Except.ok.inj h
    exact .inl ⟨rfl, fun hu => hs hu.1⟩
  rename_i hs
  split at h
  · rename_i hend
    obtain rfl := Except.ok.inj h
    refine .inr ⟨rfl, not_not.1 hs, fun end_ he => ?_⟩
    rw [hend] at he
    cases he
  rename_i end_ hend
  dsimp only at h
  split at h
  · rename_i hlate
    obtain rfl := Except.ok.inj h
    refine .inl ⟨rfl, fun hu => ?_⟩
    have := hu.2 end_ hend
    omega
  · rename_i hlate
    obtain ⟨ended, -, hfound⟩ := bind_eq_ok.1 h
    obtain rfl := Except.ok.inj hfound
    refine .inr ⟨rfl, not_not.1 hs, fun e he => ?_⟩
    obtain rfl := Option.some.inj (hend.symm.trans he)
    omega

/-- Each group has at most one finding, under its own key. -/
theorem keys_evaluateGroups (h : evaluateGroups groups nowSecs graceSecs cluster = .ok findings) :
    (findings.map Finding.key).Sublist (groups.map fun group => unsettledKey group.address) := by
  induction groups generalizing findings with
  | nil =>
    obtain rfl := Except.ok.inj h
    exact .slnil
  | cons group groups ih =>
    simp only [evaluateGroups, bind_eq_ok, pure_eq_ok] at h
    obtain ⟨found, hfound, rest, hrest, rfl⟩ := h
    have hsub := ih hrest
    rw [List.map_append, List.map_cons]
    rcases evaluateGroup_eq_ok hfound with ⟨hkey, -⟩ | ⟨hkey, -⟩
    · obtain rfl := Option.map_eq_none_iff.1 hkey
      exact hsub.cons _
    · obtain ⟨f, rfl, hf⟩ := Option.map_eq_some_iff.1 hkey
      simpa [hf] using hsub

/-- The keys are those of the unsettled groups. -/
theorem mem_keys_evaluateGroups
    (h : evaluateGroups groups nowSecs graceSecs cluster = .ok findings) :
    k ∈ findings.map Finding.key ↔ ∃ group ∈ groups,
      k = unsettledKey group.address ∧ group.IsUnsettled nowSecs graceSecs cluster := by
  induction groups generalizing findings with
  | nil =>
    obtain rfl := Except.ok.inj h
    simp
  | cons group groups ih =>
    simp only [evaluateGroups, bind_eq_ok, pure_eq_ok] at h
    obtain ⟨found, hfound, rest, hrest, rfl⟩ := h
    rw [List.map_append, List.mem_append, ih hrest, List.exists_mem_cons_iff]
    rcases evaluateGroup_eq_ok hfound with ⟨hkey, hu⟩ | ⟨hkey, hu⟩
    · obtain rfl := Option.map_eq_none_iff.1 hkey
      simp [hu]
    · obtain ⟨f, rfl, hf⟩ := Option.map_eq_some_iff.1 hkey
      simp [hu, hf]

end

section
variable {K : Type} {W : Web3 K} {fs : List Finding} {h : List (CheckedRun K)} {r : CheckedRun K}
  {t : Nat} {c k : String} {start : StateFile}

theorem evaluateAuthority_keys {expected actual : Option String} :
    k ∈ (evaluateAuthority expected actual).map Finding.key ↔
      k = "upgrade-authority" ∧ actual ≠ expected := by
  unfold evaluateAuthority
  split
  · rename_i h
    simp [h]
  · rename_i h
    simp [Ne.symm h]

/-! ## A run -/

/-- What a check of the run gave. -/
def CheckedRun.outcome (r : CheckedRun K) (run : Check K) : Except String (List Finding) :=
  (run r.conn r.config r.nowSecs).2

/-- The node lists the account, and it is the group. -/
def CheckedRun.FindsAt (W : Web3 K) (r : CheckedRun K) (key : K) (group : Group) : Prop :=
  ∃ accounts data, r.conn.getProgramAccounts r.config.programId unsettledGroupsFilters = .ok accounts ∧
    (key, data) ∈ accounts ∧ decodeGroup (W.toBase58 key) data = .ok group

/-- The node lists no account twice. -/
def CheckedRun.ListsOnce (r : CheckedRun K) : Prop :=
  ∀ accounts, r.conn.getProgramAccounts r.config.programId unsettledGroupsFilters = .ok accounts →
    (accounts.map Prod.fst).Nodup

/-- The groups the check evaluates are those listed, in order. -/
theorem unsettledGroups_outcome (h : r.outcome (checkUnsettledGroups W) = .ok fs) :
    ∃ accounts groups,
      r.conn.getProgramAccounts r.config.programId unsettledGroupsFilters = .ok accounts ∧
      List.Forall₂ (fun a group => decodeGroup (W.toBase58 a.1) a.2 = .ok group) accounts groups ∧
      evaluateGroups groups r.nowSecs r.config.graceSecs r.config.cluster = .ok fs := by
  obtain ⟨groups, hgroups, hfs⟩ := checkUnsettledGroups_eq_ok.1 h
  simp only [activeGroups, bind_eq_ok, thrown_eq_ok] at hgroups
  obtain ⟨accounts, haccounts, hgroups⟩ := hgroups
  exact ⟨accounts, groups, haccounts, forall₂_of_mapM_eq_ok hgroups, hfs⟩

theorem nodup_unsettled (hW : W.Lawful) (honce : r.ListsOnce)
    (h : r.outcome (checkUnsettledGroups W) = .ok fs) : (fs.map Finding.key).Nodup := by
  obtain ⟨accounts, groups, haccounts, hdecoded, hfs⟩ := unsettledGroups_outcome h
  have haddress : groups.map (fun group => unsettledKey group.address) =
      (accounts.map Prod.fst).map fun key => unsettledKey (W.toBase58 key) := by
    rw [List.map_map, ← List.forall₂_eq_eq_eq, List.forall₂_map_left_iff, List.forall₂_map_right_iff]
    exact hdecoded.flip.imp fun group a hd => congrArg unsettledKey (decodeGroup_address hd)
  have hsub := keys_evaluateGroups hfs
  rw [haddress] at hsub
  have hnodup := (honce accounts haccounts).map fun key key' he =>
    hW.toBase58_inj (unsettledKey_inj he)
  exact hnodup.sublist hsub

theorem mem_unsettled (h : r.outcome (checkUnsettledGroups W) = .ok fs) :
    k ∈ fs.map Finding.key ↔ ∃ key group, r.FindsAt W key group ∧
      k = unsettledKey (W.toBase58 key) ∧
        group.IsUnsettled r.nowSecs r.config.graceSecs r.config.cluster := by
  obtain ⟨accounts, groups, haccounts, hdecoded, hfs⟩ := unsettledGroups_outcome h
  rw [mem_keys_evaluateGroups hfs]
  constructor
  · intro hg
    obtain ⟨group, hg, hk, hu⟩ := hg
    obtain ⟨a, ha, hd⟩ := exists_of_mem_forall₂ hdecoded.flip hg
    exact ⟨a.1, group, ⟨accounts, a.2, haccounts, ha, hd⟩, decodeGroup_address hd ▸ hk, hu⟩
  · intro hfound
    obtain ⟨key, group, ⟨accounts', data, haccounts', ha, hd⟩, hk, hu⟩ := hfound
    obtain rfl := Except.ok.inj (haccounts.symm.trans haccounts')
    obtain ⟨group', hg, hd'⟩ := exists_of_mem_forall₂ hdecoded ha
    obtain rfl := Except.ok.inj (hd.symm.trans hd')
    exact ⟨group, hg, by rw [hk, decodeGroup_address hd], hu⟩

/-- The result a run gives for a check. -/
def CheckedRun.result (r : CheckedRun K) (check : String × Check K) : CheckResult :=
  (runCheck r.conn r.config r.nowSecs r.secrets check).2

theorem toMainRun_results : (r.toMainRun W).results = (CHECKS W).map r.result := by
  rw [CheckedRun.toMainRun, runChecks, List.map_map]
  rfl

theorem result_cases (r : CheckedRun K) (check : String) (run : Check K) :
    (∃ fs, r.outcome run = .ok fs ∧ r.result (check, run) = .findings check fs) ∨
      ∃ e, r.outcome run = .error e ∧
        r.result (check, run) = .error check (redacted e r.secrets) :=
  runCheck_cases r.conn r.config r.nowSecs r.secrets check run

theorem check_result {check : String × Check K} : (r.result check).check = check.1 := by
  rcases result_cases r check.1 check.2 with ⟨fs, -, h⟩ | ⟨e, -, h⟩
  · exact congrArg CheckResult.check h
  · exact congrArg CheckResult.check h

/-! ## Completed runs -/

/-- The runs that sent their messages and stored their state, newest first. -/
def completed (W : Web3 K) (start : StateFile) : List (CheckedRun K) → List (CheckedRun K)
  | [] => []
  | r :: h =>
    if (main (fileAfter W start h) (r.toMainRun W)).exitCode = 2 then completed W start h
    else r :: completed W start h

theorem completed_sublist : (completed W start h).Sublist h := by
  induction h with
  | nil => exact .slnil
  | cons r h ih =>
    unfold completed
    split
    · exact ih.cons _
    · exact ih.cons_cons _

def CheckedRun.toRound (W : Web3 K) (r : CheckedRun K) : Round := ⟨(r.toMainRun W).results, r.now⟩

/-- The state file holds the state after the completed runs. -/
theorem readState_fileAfter (ht : ∀ r ∈ h, r.failuresBeforeAlert = t) :
    readState (fileAfter W .missing h) =
      (stateAfter t ((completed W .missing h).map (CheckedRun.toRound W)), false) := by
  induction h with
  | nil => rfl
  | cons r h ih =>
    obtain ⟨hr, hh⟩ := List.forall_mem_cons.1 ht
    have ih := ih hh
    have hfile : fileAfter W .missing (r :: h) =
        (main (fileAfter W .missing h) (r.toMainRun W)).file := rfl
    rw [hfile]
    by_cases hs : (r.toMainRun W).Succeeds (fileAfter W .missing h)
    · obtain ⟨hexit, -, hnew⟩ := main_succeeds hs
      rw [hnew, completed, if_neg hexit, List.map_cons, MainRun.step_eq, ih]
      subst hr
      rfl
    · obtain ⟨hexit, -, hold⟩ := main_fails hs
      rw [hold, completed, if_pos hexit, ih]

/-! ## Rounds -/

/-- The newest run in which a check succeeded. -/
def newest (run : Check K) (h : List (CheckedRun K)) : Option (CheckedRun K) :=
  h.find? fun r => (r.outcome run).isOk

theorem nodup_checks : ((CHECKS W).map Prod.fst).Nodup := by
  have hnames : ["upgrade-authority", "unsettled-groups"].Nodup := by decide
  exact hnames

theorem results_check :
    (r.toRound W).results.map CheckResult.check = (CHECKS W).map Prod.fst := by
  have hcheck : CheckResult.check ∘ r.result = Prod.fst := funext fun _ => check_result
  have hresults : (r.toRound W).results = (CHECKS W).map r.result := toMainRun_results
  rw [hresults, List.map_map, hcheck]

theorem result?_toRound {check : String} {run : Check K} (hc : (check, run) ∈ CHECKS W) :
    (r.toRound W).result? check = some (r.result (check, run)) := by
  have hnodup : ((r.toRound W).results.map CheckResult.check).Nodup :=
    results_check ▸ nodup_checks
  have hresults : (r.toRound W).results = (CHECKS W).map r.result := toMainRun_results
  refine (result?_eq_some hnodup).2 ⟨?_, check_result⟩
  rw [hresults]
  exact List.mem_map_of_mem hc

section
variable {check : String} {run : Check K} (hc : (check, run) ∈ CHECKS W)
include hc

theorem mem_lastFindings_rounds {f : Finding} :
    f ∈ lastFindings check (h.map (CheckedRun.toRound W)) ↔
      ∃ r fs, newest run h = some r ∧ r.outcome run = .ok fs ∧ f ∈ fs := by
  induction h with
  | nil => simp [lastFindings, newest]
  | cons r h ih =>
    rw [List.map_cons, lastFindings, result?_toRound hc, newest, List.find?_cons]
    rcases result_cases r check run with ⟨fs, hok, hres⟩ | ⟨e, herr, hres⟩
    · rw [hres, hok]
      simp [Except.isOk, Except.toBool, hok]
    · rw [hres, herr]
      exact ih

theorem le_streak_rounds : t ≤ streak check (h.map (CheckedRun.toRound W)) ↔
    t ≤ h.length ∧ ∀ r ∈ h.take t, ∃ e, r.outcome run = .error e := by
  induction h generalizing t with
  | nil => cases t <;> simp [streak]
  | cons r h ih =>
    rw [List.map_cons, streak, result?_toRound hc]
    cases t with
    | zero => simp
    | succ t =>
      rcases result_cases r check run with ⟨fs, hok, hres⟩ | ⟨e, herr, hres⟩
      · simp [hres, hok]
      · simp [hres, herr, ih]

end

/-! ## Keys -/

/-- The keys of a check. -/
inductive KeyOf : String → String → Prop where
  | authority : KeyOf "upgrade-authority" "upgrade-authority"
  | unsettled (address : String) : KeyOf "unsettled-groups" (unsettledKey address)

theorem unsettledKey_begins (address : String) :
    "unsettled:".toList <+: (unsettledKey address).toList := by
  unfold unsettledKey
  rw [String.toList_append]
  exact List.prefix_append _ _

theorem unsettledKey_ne {address key : String} (h : ¬"unsettled:".toList <+: key.toList) :
    unsettledKey address ≠ key :=
  fun he => h (he ▸ unsettledKey_begins address)

namespace KeyOf

theorem unique {c' : String} (h : KeyOf c k) (h' : KeyOf c' k) : c = c' := by
  have hne : ∀ address, unsettledKey address ≠ "upgrade-authority" := fun _ =>
    unsettledKey_ne (by decide)
  generalize hk : k = key at h'
  cases h with
  | authority =>
    cases h' with
    | authority => rfl
    | unsettled address => exact absurd hk.symm (hne address)
  | unsettled address =>
    cases h' with
    | authority => exact absurd hk (hne address)
    | unsettled => rfl

theorem not_rpc (h : KeyOf c k) : ¬"rpc:".toList <+: k.toList := by
  cases h with
  | authority => decide
  | unsettled address =>
    intro hrpc
    have hprefix := List.prefix_of_prefix_length_le hrpc (unsettledKey_begins address) (by decide)
    exact absurd hprefix (by decide)

theorem own (h : KeyOf c k) : k ∉ Record.inherited := by
  cases h with
  | authority => decide
  | unsettled address =>
    have hnone : ∀ n ∈ Record.inherited, ¬"unsettled:".toList <+: n.toList := by decide
    exact fun hm => hnone _ hm (unsettledKey_begins address)

end KeyOf

theorem nodup_authority {expected actual : Option String} :
    ((evaluateAuthority expected actual).map Finding.key).Nodup := by
  unfold evaluateAuthority
  split
  · exact .nil
  · exact List.nodup_singleton _

/-- The findings of a check of `main` have its keys, each once. -/
theorem keyOf_outcome (hW : W.Lawful) (honce : r.ListsOnce) {check : String × Check K}
    (hc : check ∈ CHECKS W) (h : r.outcome check.2 = .ok fs) :
    (fs.map Finding.key).Nodup ∧ ∀ f ∈ fs, KeyOf check.1 f.key := by
  rcases List.mem_pair.1 hc with rfl | rfl
  · have hout : (checkUpgradeAuthority W r.conn r.config r.nowSecs).2 = .ok fs := h
    obtain ⟨actual, -, rfl⟩ := checkUpgradeAuthority_eq_ok.1 hout
    refine ⟨nodup_authority, fun f hf => ?_⟩
    rw [(evaluateAuthority_keys.1 (List.mem_map_of_mem hf)).1]
    exact .authority
  · refine ⟨nodup_unsettled hW honce h, fun f hf => ?_⟩
    obtain ⟨key, group, -, hk, -⟩ := (mem_unsettled h).1 (List.mem_map_of_mem hf)
    rw [hk]
    exact .unsettled _

theorem keyOf_findings (hW : W.Lawful) (honce : r.ListsOnce)
    (h : .findings c fs ∈ (r.toRound W).results) :
    (fs.map Finding.key).Nodup ∧ ∀ f ∈ fs, KeyOf c f.key := by
  have hresults : (r.toRound W).results = (CHECKS W).map r.result := toMainRun_results
  rw [hresults] at h
  obtain ⟨⟨check, run⟩, hc, hres⟩ := List.mem_map.1 h
  rcases result_cases r check run with ⟨fs', hok, hfs⟩ | ⟨e, -, he⟩
  · obtain ⟨rfl, rfl⟩ := CheckResult.findings.inj (hfs.symm.trans hres)
    exact keyOf_outcome hW honce hc hok
  · rw [he] at hres
    cases hres

/-- The checks of `main` keep their keys apart. -/
theorem wellFormed_rounds (hW : W.Lawful) (htimes : h.Pairwise fun r r' => r'.now.ms ≤ r.now.ms)
    (honce : ∀ r ∈ h, r.ListsOnce) :
    WellFormed ["upgrade-authority", "unsettled-groups"] (h.map (CheckedRun.toRound W)) := by
  have hkeys : ∀ {x c fs}, x ∈ h.map (CheckedRun.toRound W) → .findings c fs ∈ x.results →
      (fs.map Finding.key).Nodup ∧ ∀ f ∈ fs, KeyOf c f.key := by
    intro x c fs hx hfs
    obtain ⟨r, hr, rfl⟩ := List.mem_map.1 hx
    exact keyOf_findings hW (honce r hr) hfs
  refine ⟨by decide, List.pairwise_map.2 htimes, fun x hx => ?_, fun x hx y hy => ?_, ?_, ?_, ?_,
    by decide⟩
  · obtain ⟨r, -, rfl⟩ := List.mem_map.1 hx
    rw [results_check]
    exact .refl _
  · cases y with
    | error => trivial
    | findings c fs => exact (hkeys hx hy).1
  · intro x c fs x' c' fs' f f' hx hfs hf hx' hfs' hf' hk
    have hkey' := (hkeys hx' hfs').2 f' hf'
    exact ((hkeys hx hfs).2 f hf).unique (hk ▸ hkey')
  · exact fun hx hfs hf => ((hkeys hx hfs).2 _ hf).not_rpc
  · exact fun hx hfs hf => ((hkeys hx hfs).2 _ hf).own

/-! ## What is open -/

/-- A check failed in the last `t` runs. -/
def FailedLast (t : Nat) (run : Check K) (h : List (CheckedRun K)) : Prop :=
  t ≤ h.length ∧ ∀ r ∈ h.take t, ∃ e, r.outcome run = .error e

theorem mem_of_newest {run : Check K} (hr : newest run h = some r) : r ∈ h :=
  List.mem_of_find?_eq_some hr

theorem outcome_of_newest {run : Check K} (hr : newest run h = some r) :
    ∃ fs, r.outcome run = .ok fs := by
  have hok : (r.outcome run).isOk = true := by simpa using List.find?_some hr
  exact isOk_eq_true.1 hok

section
variable (hW : W.Lawful) (ht : 0 < t) (hlimit : ∀ r ∈ h, r.failuresBeforeAlert = t)
  (htimes : h.Pairwise fun r r' => r'.now.ms ≤ r.now.ms) (honce : ∀ r ∈ h, r.ListsOnce)
include hW ht hlimit htimes honce

theorem isOpen_iff : (fileAfter W .missing h).IsOpen k ↔ ∃ check ∈ CHECKS W,
    (∃ r fs, newest check.2 (completed W .missing h) = some r ∧ r.outcome check.2 = .ok fs ∧
      k ∈ fs.map Finding.key) ∨
    k = rpcKey check.1 ∧ FailedLast t check.2 (completed W .missing h) := by
  have hw : WellFormed ["upgrade-authority", "unsettled-groups"]
      ((completed W .missing h).map (CheckedRun.toRound W)) :=
    wellFormed_rounds hW (htimes.sublist completed_sublist) fun r hr =>
      honce r (completed_sublist.subset hr)
  have hchecks : ["upgrade-authority", "unsettled-groups"] = (CHECKS W).map Prod.fst := rfl
  rw [StateFile.IsOpen, readState_fileAfter hlimit, (tracks ht hw).isPresent ht, isPresent_iff,
    hchecks]
  simp only [List.mem_map, exists_exists_and_eq_and]
  refine exists_congr fun check => and_congr_right fun hc => ?_
  have hlast : ∀ f, f ∈ lastFindings check.1
      ((completed W .missing h).map (CheckedRun.toRound W)) ↔ _ :=
    fun f => mem_lastFindings_rounds hc
  have hstreak : t ≤ streak check.1 ((completed W .missing h).map (CheckedRun.toRound W)) ↔
      FailedLast t check.2 (completed W .missing h) := le_streak_rounds hc
  simp only [expected, List.mem_append, hlast, mem_rpcFindings, hstreak]
  constructor
  · intro hf
    obtain ⟨f, ⟨r, fs, hr, hok, hf⟩ | ⟨hfailed, rfl⟩, hk⟩ := hf
    · exact .inl ⟨r, fs, hr, hok, f, hf, hk⟩
    · exact .inr ⟨hk.symm, hfailed⟩
  · intro hopen
    rcases hopen with ⟨r, fs, hr, hok, f, hf, hk⟩ | ⟨hk, hfailed⟩
    · exact ⟨f, .inl ⟨r, fs, hr, hok, hf⟩, hk⟩
    · exact ⟨_, .inr ⟨hfailed, rfl⟩, hk.symm⟩

/-- A key of a check is open if the newest result of the check has it. -/
theorem isOpen_keyOf {check : String × Check K} (hc : check ∈ CHECKS W) (hk : KeyOf check.1 k) :
    (fileAfter W .missing h).IsOpen k ↔ ∃ r fs,
      newest check.2 (completed W .missing h) = some r ∧ r.outcome check.2 = .ok fs ∧
        k ∈ fs.map Finding.key := by
  rw [isOpen_iff hW ht hlimit htimes honce]
  constructor
  · intro hopen
    obtain ⟨check', hc', ⟨r, fs, hr, hok, hmem⟩ | ⟨rfl, -⟩⟩ := hopen
    · have honce' := honce r (completed_sublist.subset (mem_of_newest hr))
      obtain ⟨f, hf, rfl⟩ := List.mem_map.1 hmem
      have hsame : check'.1 = check.1 := ((keyOf_outcome hW honce' hc' hok).2 f hf).unique hk
      obtain rfl := List.inj_on_of_nodup_map nodup_checks hc' hc hsame
      exact ⟨r, fs, hr, hok, hmem⟩
    · exact absurd (rpcKey_begins _) hk.not_rpc
  · exact fun hopen => ⟨check, hc, .inl hopen⟩

theorem isOpen_rpcKey {check : String × Check K} (hc : check ∈ CHECKS W) :
    (fileAfter W .missing h).IsOpen (rpcKey check.1) ↔
      FailedLast t check.2 (completed W .missing h) := by
  rw [isOpen_iff hW ht hlimit htimes honce]
  constructor
  · intro hopen
    obtain ⟨check', hc', ⟨r, fs, hr, hok, hmem⟩ | ⟨hk, hfailed⟩⟩ := hopen
    · have honce' := honce r (completed_sublist.subset (mem_of_newest hr))
      obtain ⟨f, hf, hk⟩ := List.mem_map.1 hmem
      have hkey := ((keyOf_outcome hW honce' hc' hok).2 f hf).not_rpc
      exact absurd (hk ▸ rpcKey_begins _) hkey
    · obtain rfl := List.inj_on_of_nodup_map nodup_checks hc' hc (rpcKey_inj hk).symm
      exact hfailed
  · exact fun hfailed => ⟨check, hc, .inr ⟨rfl, hfailed⟩⟩

theorem isOpen_authority : (fileAfter W .missing h).IsOpen "upgrade-authority" ↔ ∃ r actual,
    newest (checkUpgradeAuthority W) (completed W .missing h) = some r ∧
      upgradeAuthority W r.conn r.config.programId = .ok actual ∧
        actual ≠ r.config.expectedAuthority := by
  rw [isOpen_keyOf hW ht hlimit htimes honce List.mem_cons_self .authority]
  constructor
  · intro hopen
    obtain ⟨r, fs, hr, hok, hk⟩ := hopen
    have hout : (checkUpgradeAuthority W r.conn r.config r.nowSecs).2 = .ok fs := hok
    obtain ⟨actual, hactual, rfl⟩ := checkUpgradeAuthority_eq_ok.1 hout
    exact ⟨r, actual, hr, hactual, (evaluateAuthority_keys.1 hk).2⟩
  · intro hdiffers
    obtain ⟨r, actual, hr, hactual, hne⟩ := hdiffers
    have hout : (checkUpgradeAuthority W r.conn r.config r.nowSecs).2 = .ok _ :=
      checkUpgradeAuthority_eq_ok.2 ⟨actual, hactual, rfl⟩
    exact ⟨r, _, hr, hout, evaluateAuthority_keys.2 ⟨rfl, hne⟩⟩

theorem isOpen_unsettled (key : K) :
    (fileAfter W .missing h).IsOpen (unsettledKey (W.toBase58 key)) ↔ ∃ r group,
      newest (checkUnsettledGroups W) (completed W .missing h) = some r ∧ r.FindsAt W key group ∧
        group.IsUnsettled r.nowSecs r.config.graceSecs r.config.cluster := by
  rw [isOpen_keyOf hW ht hlimit htimes honce (.tail _ List.mem_cons_self) (.unsettled _)]
  constructor
  · intro hopen
    obtain ⟨r, fs, hr, hok, hk⟩ := hopen
    obtain ⟨key', group, hfinds, he, hu⟩ := (mem_unsettled hok).1 hk
    obtain rfl := hW.toBase58_inj (unsettledKey_inj he)
    exact ⟨r, group, hr, hfinds, hu⟩
  · intro hreported
    obtain ⟨r, group, hr, hfinds, hu⟩ := hreported
    obtain ⟨fs, hok⟩ := outcome_of_newest hr
    exact ⟨r, fs, hr, hok, (mem_unsettled hok).2 ⟨key, group, hfinds, rfl, hu⟩⟩

theorem eq_of_isOpen (hopen : (fileAfter W .missing h).IsOpen k) : k = "upgrade-authority" ∨
    (∃ key, k = unsettledKey (W.toBase58 key)) ∨ ∃ check ∈ CHECKS W, k = rpcKey check.1 := by
  obtain ⟨check, hc, ⟨r, fs, -, hok, hk⟩ | ⟨rfl, -⟩⟩ :=
    (isOpen_iff hW ht hlimit htimes honce).1 hopen
  · rcases List.mem_pair.1 hc with rfl | rfl
    · have hout : (checkUpgradeAuthority W r.conn r.config r.nowSecs).2 = .ok fs := hok
      obtain ⟨actual, -, rfl⟩ := checkUpgradeAuthority_eq_ok.1 hout
      exact .inl (evaluateAuthority_keys.1 hk).1
    · obtain ⟨key, group, -, he, -⟩ := (mem_unsettled hok).1 hk
      exact .inr (.inl ⟨key, he⟩)
  · exact .inr (.inr ⟨check, hc, rfl⟩)

end

/-- After any runs of the watchdog that begin without a state file, whichever of them fail to send
or to write: the finding about the upgrade authority is open if and only if the newest answer shows
another one than expected, that of a group if and only if the newest listing shows it unsettled, and
that of a check if and only if the check failed in the last `t` completed runs. Nothing else is
open. -/
theorem alarms_followed (hW : W.Lawful) (ht : 0 < t) (hlimit : ∀ r ∈ h, r.failuresBeforeAlert = t)
    (htimes : h.Pairwise fun r r' => r'.now.ms ≤ r.now.ms) (honce : ∀ r ∈ h, r.ListsOnce) :
    ((fileAfter W .missing h).IsOpen "upgrade-authority" ↔ ∃ r actual,
      newest (checkUpgradeAuthority W) (completed W .missing h) = some r ∧
        upgradeAuthority W r.conn r.config.programId = .ok actual ∧
          actual ≠ r.config.expectedAuthority) ∧
    (∀ key, (fileAfter W .missing h).IsOpen (unsettledKey (W.toBase58 key)) ↔ ∃ r group,
      newest (checkUnsettledGroups W) (completed W .missing h) = some r ∧ r.FindsAt W key group ∧
        group.IsUnsettled r.nowSecs r.config.graceSecs r.config.cluster) ∧
    (∀ check ∈ CHECKS W, (fileAfter W .missing h).IsOpen (rpcKey check.1) ↔
      FailedLast t check.2 (completed W .missing h)) ∧
    ∀ k, (fileAfter W .missing h).IsOpen k → k = "upgrade-authority" ∨
      (∃ key, k = unsettledKey (W.toBase58 key)) ∨ ∃ check ∈ CHECKS W, k = rpcKey check.1 :=
  ⟨isOpen_authority hW ht hlimit htimes honce, isOpen_unsettled hW ht hlimit htimes honce,
    fun _ => isOpen_rpcKey hW ht hlimit htimes honce, fun _ => eq_of_isOpen hW ht hlimit htimes honce⟩

end

/-! ## Four runs -/

namespace Demo

/-- The key of the upgradeable loader. -/
def loader : Vector UInt8 32 :=
  #v[2, 168, 246, 145, 78, 136, 161, 176, 226, 16, 21, 62, 247, 99, 174, 43, 0, 194, 185, 61, 22,
    193, 36, 210, 192, 83, 122, 16, 4, 128, 0, 0]

/-- A node with a program that has an upgrade authority, and with one unsettled group. -/
def upgradeable : Connection (Vector UInt8 32) where
  getAccountInfo k :=
    if k = .replicate 32 7 then .ok (some ⟨loader, [2, 0, 0, 0] ++ .replicate 32 8⟩)
    else .ok (some ⟨loader, [3, 0, 0, 0] ++ .replicate 8 0 ++ [1] ++ .replicate 32 9⟩)
  getProgramAccounts _ _ := .ok [(.replicate 32 7, hostileGroup)]
  rangeError := ""

/-- A node that does not know the program, and no group any more. -/
def lagging : Connection (Vector UInt8 32) where
  getAccountInfo _ := .ok none
  getProgramAccounts _ _ := .ok []
  rangeError := ""

def watchRun (conn : Connection (Vector UInt8 32)) (answers : Answers) :
    CheckedRun (Vector UInt8 32) :=
  { hostileRun with conn, answers, failuresBeforeAlert := 2 }

/-- The third run cannot write its state. -/
def watched : List (CheckedRun (Vector UInt8 32)) :=
  [watchRun lagging ⟨fun _ => .ok, true⟩, watchRun upgradeable ⟨fun _ => .ok, false⟩,
    watchRun lagging ⟨fun _ => .ok, true⟩, watchRun upgradeable ⟨fun _ => .ok, true⟩]

end Demo

/-- The authority seen in the first run stays reported while the check fails, the group does not, and
the second failed run in a row is reported too. -/
theorem alarms_followed_watched :
    (fileAfter base58 .missing Demo.watched).IsOpen "upgrade-authority" ∧
    ¬(fileAfter base58 .missing Demo.watched).IsOpen
      (unsettledKey (base58.toBase58 (.replicate 32 7))) ∧
    (fileAfter base58 .missing Demo.watched).IsOpen "rpc:upgrade-authority" ∧
    ¬(fileAfter base58 .missing Demo.watched).IsOpen "rpc:unsettled-groups" := by
  have hlimit : ∀ r ∈ Demo.watched, r.failuresBeforeAlert = 2 := by
    intro r hr
    simp only [Demo.watched, List.mem_cons, List.not_mem_nil, or_false] at hr
    rcases hr with rfl | rfl | rfl | rfl <;> rfl
  have honce : ∀ r ∈ Demo.watched, r.ListsOnce := by
    intro r hr accounts haccounts
    simp only [Demo.watched, List.mem_cons, List.not_mem_nil, or_false] at hr
    rcases hr with rfl | rfl | rfl | rfl <;>
    · obtain rfl := Except.ok.inj haccounts
      simp
  obtain ⟨hauthority, hgroup, hrpc, -⟩ := @alarms_followed (Vector UInt8 32) base58 Demo.watched 2
    base58_lawful (by decide) hlimit (by simp [Demo.watched, Demo.watchRun]) honce
  have hcompleted : completed base58 .missing Demo.watched =
      [Demo.watchRun Demo.lagging ⟨fun _ => .ok, true⟩,
        Demo.watchRun Demo.lagging ⟨fun _ => .ok, true⟩,
        Demo.watchRun Demo.upgradeable ⟨fun _ => .ok, true⟩] := by
    have hsent : ∀ conn file,
        ((Demo.watchRun conn ⟨fun _ => .ok, true⟩).toMainRun base58).Succeeds file :=
      fun _ _ => ⟨fun _ _ => rfl, rfl⟩
    have hunwritten : ∀ file,
        ¬((Demo.watchRun Demo.upgradeable ⟨fun _ => .ok, false⟩).toMainRun base58).Succeeds file :=
      fun file hs => Bool.false_ne_true hs.2
    rw [Demo.watched, completed, if_neg (main_succeeds (hsent _ _)).1, completed,
      if_pos (main_fails (hunwritten _)).1, completed, if_neg (main_succeeds (hsent _ _)).1,
      completed, if_neg (main_succeeds (hsent _ _)).1, completed]
  have hauthorized : newest (checkUpgradeAuthority base58) (completed base58 .missing Demo.watched) =
      some (Demo.watchRun Demo.upgradeable ⟨fun _ => .ok, true⟩) := by
    rw [hcompleted, newest, List.find?_cons_of_neg (by decide), List.find?_cons_of_neg (by decide),
      List.find?_cons_of_pos (by decide +kernel)]
  have hlisted : newest (checkUnsettledGroups base58) (completed base58 .missing Demo.watched) =
      some (Demo.watchRun Demo.lagging ⟨fun _ => .ok, true⟩) := by
    rw [hcompleted, newest, List.find?_cons_of_pos (by decide)]
  have hactual : upgradeAuthority base58 Demo.upgradeable (.replicate 32 7) =
      .ok (some (base58.toBase58 (.replicate 32 9))) := by
    decide +kernel
  have hfailed : ∀ answers, ∃ e, (Demo.watchRun Demo.lagging answers).outcome
      (checkUpgradeAuthority base58) = .error e := fun _ => ⟨"program account not found", rfl⟩
  refine ⟨hauthority.2 ⟨_, _, hauthorized, hactual, by decide⟩, ?_,
    (hrpc _ List.mem_cons_self).2 ?_, ?_⟩
  · rw [hgroup, hlisted]
    intro hreported
    obtain ⟨r, group, hr, ⟨accounts, data, haccounts, ha, -⟩, -⟩ := hreported
    obtain rfl := Option.some.inj hr
    obtain rfl := Except.ok.inj haccounts
    cases ha
  · rw [hcompleted]
    refine ⟨by decide, fun r hr => ?_⟩
    rcases List.mem_pair.1 hr with rfl | rfl
    · exact hfailed _
    · exact hfailed _
  · intro hopen
    have hlast := (hrpc _ (.tail _ List.mem_cons_self)).1 hopen
    rw [hcompleted] at hlast
    obtain ⟨e, he⟩ := hlast.2 _ List.mem_cons_self
    cases he

end SafeNudge.Watchdog
