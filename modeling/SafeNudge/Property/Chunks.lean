import Mathlib.Data.List.Dedup
import SafeNudge.Property.Delivery
import SafeNudge.Property.StateFile

/-!
# The length of a chunk

`chunk` cuts between messages only, so all its texts fit exactly if every message does
(`chunks_fit_iff`). The messages of a run are those about the last finding under each key
(`get?_openFindings_step`), whose lengths say when that is (`Fits`). The names of the properties
every object inherits, which `in` and a lookup find in an empty object too, are set aside as names
of checks and keys (`CheckResult.Own`, `State.Own`).
-/

namespace SafeNudge.Watchdog

open Lib

/-- Every text `chunk` makes of the messages is within the limit, and together they are the
messages, in order. -/
def TextsFit (messages : List Message) : Prop :=
  (∀ text ∈ chunk (messages.map Message.text), utf16Length text ≤ TELEGRAM_MAX_CHARS) ∧
    "\n\n".intercalate (chunk (messages.map Message.text)) =
      "\n\n".intercalate (messages.map Message.text)

variable {messages current : List Message} {chunks : List (List Message)} {m : Message}
  {s s' key text day : String} {keys : List String} {severity : Severity}

/-! ## Lengths -/

theorem utf16Length_append : utf16Length (s ++ s') = utf16Length s + utf16Length s' := by
  unfold utf16Length
  rw [String.toList_append, List.map_append, List.sum_append]

theorem length_joined_append (hc : current ≠ []) : utf16Length (joined (current ++ [m])) =
    utf16Length (joined current) + 2 + utf16Length m.text := by
  have hblank : utf16Length "\n\n" = 2 := by decide
  rw [joined_append hc, utf16Length_append, utf16Length_append, hblank]

/-- The length of a message about a finding, without its key and text. -/
def Severity.frame : Severity → Nat
  | .critical => 22
  | .error => 19

theorem length_opened : utf16Length (Message.opened key severity text).text =
    utf16Length key + utf16Length text + severity.frame := by
  have hframe : utf16Length (ICON severity) + utf16Length " <b>" + utf16Length "</b> · " +
      utf16Length severity.name + utf16Length "\n" = severity.frame := by
    cases severity <;> decide
  unfold Message.text
  simp only [utf16Length_append]
  omega

theorem length_resolved : utf16Length (Message.resolved key).text = utf16Length key + 19 := by
  have hframe : utf16Length "✓ resolved: <b>" + utf16Length "</b>" = 19 := by decide
  unfold Message.text
  simp only [utf16Length_append]
  omega

theorem length_lines : ∀ {l : List String}, l ≠ [] →
    utf16Length ("\n".intercalate l) + 1 = (l.map fun s => utf16Length s + 1).sum
  | [s], _ => by simp
  | s :: s' :: l, _ => by
    have hbreak : utf16Length "\n" = 1 := by decide
    have ih := length_lines (List.cons_ne_nil s' l)
    rw [String.intercalate_cons_cons, utf16Length_append, utf16Length_append, hbreak,
      List.map_cons, List.sum_cons, ← ih]
    omega

/-- A heartbeat that lists no key has a fixed length. -/
theorem length_heartbeat_nil :
    utf16Length (Message.heartbeat day []).text = utf16Length day + 42 := by
  have hframe : utf16Length "💚 SafeNudge watchdog " + utf16Length ": all checks passed." = 42 := by
    decide
  unfold Message.text
  simp only [utf16Length_append]
  omega

theorem length_heartbeat (hk : keys ≠ []) : utf16Length (Message.heartbeat day keys).text + 1 =
    utf16Length day + utf16Length (toString keys.length) + 42 +
      (keys.map fun k => utf16Length k + 3).sum := by
  have hframe : utf16Length "🟠 SafeNudge watchdog " + utf16Length ": " +
      utf16Length " open finding(s):\n" = 42 := by decide
  have hbullet : utf16Length "• " = 2 := by decide
  have hlines : utf16Length ("\n".intercalate (keys.map fun k => "• " ++ k)) + 1 =
      (keys.map fun k => utf16Length k + 3).sum := by
    rw [length_lines (mt List.map_eq_nil_iff.1 hk), List.map_map]
    congr 1
    apply List.map_congr_left
    intro k _
    dsimp only [Function.comp_apply]
    rw [utf16Length_append, hbullet]
    omega
  cases keys with
  | nil => exact absurd rfl hk
  | cons k keys =>
    unfold Message.text
    simp only [utf16Length_append]
    omega

/-! ## Chunks -/

theorem groupLoop_fits : (∀ c ∈ groupLoop current messages,
      utf16Length (joined c) ≤ TELEGRAM_MAX_CHARS) ↔
    (current ≠ [] → utf16Length (joined current) ≤ TELEGRAM_MAX_CHARS) ∧
      ∀ m ∈ messages, utf16Length m.text ≤ TELEGRAM_MAX_CHARS := by
  induction messages generalizing current with
  | nil =>
    unfold groupLoop
    split
    · simp [‹current ≠ []›]
    · simp [‹¬current ≠ []›]
  | cons m messages ih =>
    rw [List.forall_mem_cons, groupLoop]
    by_cases hc : current = []
    · subst hc
      simp [ih, joined_singleton]
    · by_cases hlong :
        TELEGRAM_MAX_CHARS < utf16Length (joined current) + 2 + utf16Length m.text
      · rw [if_pos ⟨hc, hlong⟩, List.forall_mem_cons, ih, joined_singleton]
        simp [hc]
      · have hfits : utf16Length (joined (current ++ [m])) ≤ TELEGRAM_MAX_CHARS := by
          rw [length_joined_append hc]
          omega
        have hcurrent : utf16Length (joined current) ≤ TELEGRAM_MAX_CHARS ∧
            utf16Length m.text ≤ TELEGRAM_MAX_CHARS := by
          omega
        rw [if_neg fun h => hlong h.2, ih]
        simp [hfits, hcurrent]

/-- The texts of groups, one after the other, are the text of their messages. -/
theorem intercalate_joined : ∀ {chunks : List (List Message)}, (∀ c ∈ chunks, c ≠ []) →
    "\n\n".intercalate (chunks.map joined) = joined chunks.flatten
  | [], _ => rfl
  | [c], _ => by simp
  | c :: c' :: chunks, hc => by
    obtain ⟨hne, hrest⟩ := List.forall_mem_cons.1 hc
    have hflat : (c' :: chunks).flatten ≠ [] := by
      rw [List.flatten_cons]
      exact mt List.append_eq_nil_iff.1 fun h => hrest c' List.mem_cons_self h.1
    have ih := intercalate_joined hrest
    rw [List.map_cons, List.map_cons, String.intercalate_cons_cons, ← List.map_cons, ih,
      @List.flatten_cons _ c, joined_append_of_ne_nil hne hflat]

theorem intercalate_chunk : "\n\n".intercalate (chunk (messages.map Message.text)) =
    "\n\n".intercalate (messages.map Message.text) := by
  rw [chunk_text, intercalate_joined fun c hc => ne_nil_of_mem_chunkMessages hc,
    flatten_chunkMessages, joined]

theorem textsFit_iff :
    TextsFit messages ↔ ∀ m ∈ messages, utf16Length m.text ≤ TELEGRAM_MAX_CHARS := by
  unfold TextsFit
  rw [and_iff_left intercalate_chunk, chunk_text, List.forall_mem_map, chunkMessages, groupLoop_fits]
  simp

/-! ## The messages of a run -/

/-- The findings a result puts under keys, in order; the last one under a key stays. -/
def assigned (prev : State) (t : Nat) : CheckResult → List (String × Finding)
  | .error check error =>
    ((prev.openFindings.entries.filter fun e => e.2.check = check).map fun e => (e.1, e.2.toFinding)) ++
      (rpcFindings check error ((prev.failures.get? check).getD 0 + 1) t).map fun f => (f.key, f)
  | .findings _ findings => findings.map fun f => (f.key, f)

/-- The keys the results put findings under. -/
def keysOf (prev : State) (results : List CheckResult) (t : Nat) : List String :=
  ((results.flatMap (assigned prev t)).map Prod.fst).dedup

/-- What is new, what is over and what a due heartbeat lists is short enough. -/
structure Fits (prev : State) (results : List CheckResult) (now : Date) (t : Nat) : Prop where
  opened : ∀ k f, (results.flatMap (assigned prev t)).reverse.lookup k = some f →
    k ∉ prev.openFindings.keys →
      utf16Length k + utf16Length f.text + f.severity.frame ≤ TELEGRAM_MAX_CHARS
  resolved : ∀ k ∈ prev.openFindings.keys, k ∉ keysOf prev results t →
    utf16Length k + 19 ≤ TELEGRAM_MAX_CHARS
  heartbeat : prev.lastHeartbeatDay ≠ some (today now) → keysOf prev results t ≠ [] →
    utf16Length (toString (keysOf prev results t).length) + 51 +
      ((keysOf prev results t).map fun k => utf16Length k + 3).sum ≤ TELEGRAM_MAX_CHARS

variable {prev : State} {results : List CheckResult} {now : Date} {t : Nat} {nowIso : String}
  {k : String}

/-- The loop over the results assigns their findings one after the other. -/
theorem openFindings_foldl {acc : Record OpenFinding × Record Nat} :
    ∃ l : List (String × OpenFinding),
      (results.foldl (applyResult prev nowIso t) acc).1 = acc.1.setAll l ∧
        l.map (fun e => (e.1, e.2.toFinding)) = results.flatMap (assigned prev t) := by
  induction results generalizing acc with
  | nil => exact ⟨[], rfl, rfl⟩
  | cons r results ih =>
    obtain ⟨l, hl, hmap⟩ := @ih (applyResult prev nowIso t acc r)
    have hr : ∃ l' : List (String × OpenFinding), (applyResult prev nowIso t acc r).1 =
        acc.1.setAll l' ∧ l'.map (fun e => (e.1, e.2.toFinding)) = assigned prev t r := by
      cases r with
      | error check error =>
        refine ⟨(prev.openFindings.entries.filter fun e => e.2.check = check) ++
          entriesOf prev nowIso check
            (rpcFindings check error ((prev.failures.get? check).getD 0 + 1) t), ?_, ?_⟩
        · unfold applyResult
          dsimp only
          rw [openAll_eq, keepOpen_eq, Record.setAll_append]
        · unfold assigned entriesOf
          rw [List.map_append, List.map_map]
          rfl
      | findings check findings =>
        refine ⟨entriesOf prev nowIso check findings, openAll_eq, ?_⟩
        unfold assigned entriesOf
        rw [List.map_map]
        rfl
    obtain ⟨l', hl', hmap'⟩ := hr
    refine ⟨l' ++ l, ?_, ?_⟩
    · rw [List.foldl_cons, hl, hl', Record.setAll_append]
    · rw [List.map_append, hmap, hmap', List.flatMap_cons]

theorem lookup_map {α β : Type} (g : α → β) (l : List (String × α)) :
    (l.map fun e => (e.1, g e.2)).lookup k = (l.lookup k).map g := by
  induction l with
  | nil => rfl
  | cons e l ih =>
    rw [List.map_cons, List.lookup_cons, List.lookup_cons, ih]
    cases k == e.1 <;> rfl

/-- The finding open under a key is the last one the results put there. -/
theorem get?_openFindings_step :
    ((step prev results now t).2.openFindings.get? k).map OpenFinding.toFinding =
      (results.flatMap (assigned prev t)).reverse.lookup k := by
  obtain ⟨l, hl, hmap⟩ := @openFindings_foldl prev results t now.toISOString (.empty, .empty)
  have hopen : (step prev results now t).2.openFindings = Record.empty.setAll l := hl
  rw [hopen, Record.get?_setAll_reverse, Record.get?_empty, Option.or_none, ← lookup_map,
    List.map_reverse, hmap]

/-- The keys that are open then are those the results put findings under. -/
theorem keysOf_perm : (step prev results now t).2.openFindings.keys.Perm (keysOf prev results t) := by
  have hkeys : (step prev results now t).2.openFindings.keys.Nodup :=
    (step prev results now t).2.openFindings.nodup
  have hkeysOf : (keysOf prev results t).Nodup := List.nodup_dedup _
  apply (List.perm_ext_iff_of_nodup hkeys hkeysOf).2
  intro k
  have hsome : ((step prev results now t).2.openFindings.get? k).isSome =
      ((results.flatMap (assigned prev t)).reverse.lookup k).isSome := by
    rw [← get?_openFindings_step, Option.isSome_map]
  rw [Record.mem_keys, hsome, List.lookup_isSome_iff, keysOf, List.mem_dedup, List.mem_map]
  simp only [List.mem_reverse, beq_iff_eq, @eq_comm _ k]

/-! ## Names that objects inherit -/

/-- No key that is open has the name of a property every object inherits. -/
def State.Own (s : State) : Prop := ∀ k ∈ s.openFindings.keys, k ∉ Record.inherited

theorem State.own_empty : EMPTY_STATE.Own := List.forall_mem_nil _

theorem rpcKey_not_inherited {check : String} : rpcKey check ∉ Record.inherited :=
  fun hk => inherited_begins_otherwise _ hk (rpcKey_begins check)

theorem own_of_mem_assigned {r : CheckResult} {f : Finding} (hprev : prev.Own) (hr : r.Own)
    (h : (k, f) ∈ assigned prev t r) : k ∉ Record.inherited := by
  cases r with
  | error check error =>
    rcases List.mem_append.1 h with h | h
    · obtain ⟨e, he, hk⟩ := List.mem_map.1 h
      obtain rfl := congrArg Prod.fst hk
      exact hprev e.1 (List.mem_map_of_mem (List.mem_of_mem_filter he))
    · obtain ⟨f', hf', hk⟩ := List.mem_map.1 h
      obtain rfl := congrArg Prod.fst hk
      obtain ⟨-, rfl⟩ := mem_rpcFindings.1 hf'
      exact rpcKey_not_inherited
  | findings check findings =>
    obtain ⟨f', hf', hk⟩ := List.mem_map.1 h
    obtain rfl := congrArg Prod.fst hk
    exact hr.2 check findings rfl f' hf'

/-- A step leaves no such key open. -/
theorem State.Own.step (hprev : prev.Own) (hr : ∀ r ∈ results, r.Own) :
    (step prev results now t).2.Own := by
  intro k hk
  rw [keysOf_perm.mem_iff, keysOf, List.mem_dedup] at hk
  obtain ⟨e, he, rfl⟩ := List.mem_map.1 hk
  obtain ⟨r, hmem, he⟩ := List.mem_flatMap.1 he
  exact own_of_mem_assigned hprev (hr r hmem) he

theorem own_stateReset : STATE_RESET_RESULT.Own := by
  refine ⟨by decide, fun check findings he f hf => ?_⟩
  cases he
  rw [List.mem_singleton.1 hf]
  decide

theorem own_results {reset : Bool} (hr : ∀ r ∈ results, r.Own) :
    ∀ r ∈ if reset then results ++ [STATE_RESET_RESULT] else results, r.Own := by
  cases reset with
  | false => exact hr
  | true => exact List.forall_mem_append.2 ⟨hr, List.forall_mem_singleton.2 own_stateReset⟩

/-- The states of the watchdog have none. -/
theorem Reachable.own {s : State} (hs : Reachable s) : s.Own := by
  induction hs with
  | empty => exact State.own_empty
  | step _ hr _ ih => exact ih.step hr
  | reset _ hr _ _ =>
    exact State.own_empty.step (List.forall_mem_append.2
      ⟨hr, List.forall_mem_singleton.2 own_stateReset⟩)

theorem State.Own.has_eq (hprev : prev.Own) (hk : k ∈ prev.openFindings.keys ∨ k ∉ Record.inherited) :
    prev.openFindings.has k = false ↔ k ∉ prev.openFindings.keys := by
  rw [Record.has_eq (hk.elim (hprev k) id), Record.mem_keys, Bool.not_eq_true]

/-! ## What fits -/

theorem fits_opened (hprev : prev.Own) (hr : ∀ r ∈ results, r.Own) :
    (∀ m ∈ ((step prev results now t).2.openFindings.entries.filter
      fun e => !prev.openFindings.has e.1).map fun e => Message.opened e.1 e.2.severity e.2.text,
        utf16Length m.text ≤ TELEGRAM_MAX_CHARS) ↔
    ∀ k f, (results.flatMap (assigned prev t)).reverse.lookup k = some f →
      k ∉ prev.openFindings.keys →
        utf16Length k + utf16Length f.text + f.severity.frame ≤ TELEGRAM_MAX_CHARS := by
  have hown : ∀ k x, (step prev results now t).2.openFindings.get? k = some x →
      (prev.openFindings.has k = false ↔ k ∉ prev.openFindings.keys) := by
    intro k x hx
    apply hprev.has_eq
    right
    exact hprev.step hr k (Record.mem_keys.2 (Option.isSome_of_eq_some hx))
  simp only [List.forall_mem_map, List.mem_filter, Bool.not_eq_true', and_imp, length_opened,
    ← @get?_openFindings_step prev results now t, Option.map_eq_some_iff]
  constructor
  · rintro h k _ ⟨x, hx, rfl⟩ hnew
    exact h (k, x) (Record.mem_entries.2 hx) ((hown k x hx).2 hnew)
  · intro h e he hnew
    have hx := Record.mem_entries.1 he
    exact h e.1 e.2.toFinding ⟨e.2, hx, rfl⟩ ((hown e.1 e.2 hx).1 hnew)

theorem fits_resolved (hprev : prev.Own) (hr : ∀ r ∈ results, r.Own) :
    (∀ m ∈ (prev.openFindings.keys.filter
      fun key => !(step prev results now t).2.openFindings.has key).map Message.resolved,
        utf16Length m.text ≤ TELEGRAM_MAX_CHARS) ↔
    ∀ k ∈ prev.openFindings.keys, k ∉ keysOf prev results t →
      utf16Length k + 19 ≤ TELEGRAM_MAX_CHARS := by
  have hhas : ∀ k ∈ prev.openFindings.keys,
      ((step prev results now t).2.openFindings.has k = false ↔ k ∉ keysOf prev results t) := by
    intro k hk
    rw [(hprev.step hr).has_eq (.inr (hprev k hk)), keysOf_perm.mem_iff]
  simp only [List.forall_mem_map, List.mem_filter, Bool.not_eq_true', and_imp, length_resolved]
  exact forall₂_congr fun k hk => by rw [hhas k hk]

theorem length_today : utf16Length (today now) = 10 := by
  unfold utf16Length today
  have hone : ((now.toISOString.toList.take 10).map fun c => if c.toNat < 0x10000 then 1 else 2) =
      (now.toISOString.toList.take 10).map fun _ => 1 := by
    apply List.map_congr_left
    intro c hc
    exact if_pos (Nat.lt_trans (Date.ascii_iso_take now c hc) (by decide))
  rw [String.toList_ofList, hone, List.map_const', List.sum_replicate_nat, Date.length_iso_take]

theorem fits_heartbeat : (∀ m ∈ (if prev.lastHeartbeatDay ≠ some (today now) then
      [Message.heartbeat (today now) (step prev results now t).2.openFindings.keys] else []),
        utf16Length m.text ≤ TELEGRAM_MAX_CHARS) ↔
    (prev.lastHeartbeatDay ≠ some (today now) → keysOf prev results t ≠ [] →
      utf16Length (toString (keysOf prev results t).length) + 51 +
        ((keysOf prev results t).map fun k => utf16Length k + 3).sum ≤ TELEGRAM_MAX_CHARS) := by
  have hperm := @keysOf_perm prev results now t
  split
  · rename_i hday
    rw [List.forall_mem_singleton, forall_prop_of_true hday]
    by_cases hk : keysOf prev results t = []
    · have hnil : (step prev results now t).2.openFindings.keys = [] := by
        rw [hk] at hperm
        exact hperm.eq_nil
      rw [hnil, length_heartbeat_nil, length_today]
      exact iff_of_true (by decide) fun h => absurd hk h
    · have hne : (step prev results now t).2.openFindings.keys ≠ [] := by
        intro h
        rw [h] at hperm
        exact hk hperm.nil_eq.symm
      have hlength := @length_heartbeat (today now) _ hne
      rw [length_today, hperm.length_eq, (hperm.map fun k => utf16Length k + 3).sum_nat] at hlength
      rw [forall_prop_of_true hk]
      omega
  · rename_i hday
    exact iff_of_true (List.forall_mem_nil _) fun h => absurd h hday

theorem fits_iff (hprev : prev.Own) (hr : ∀ r ∈ results, r.Own) :
    (∀ m ∈ (step prev results now t).1, utf16Length m.text ≤ TELEGRAM_MAX_CHARS) ↔
      Fits prev results now t := by
  rw [messages_step, transitions, List.forall_mem_append, List.forall_mem_append,
    fits_opened hprev hr, fits_resolved hprev hr, fits_heartbeat]
  exact ⟨fun ⟨⟨hopened, hresolved⟩, hheartbeat⟩ => ⟨hopened, hresolved, hheartbeat⟩,
    fun ⟨hopened, hresolved, hheartbeat⟩ => ⟨⟨hopened, hresolved⟩, hheartbeat⟩⟩

/-! ## Runs -/

/-- What a run has to say on a state file fits. -/
def MainRun.Fits (r : MainRun) (file : StateFile) : Prop :=
  Watchdog.Fits (readState file).1
    (if (readState file).2 then r.results ++ [STATE_RESET_RESULT] else r.results) r.now
    r.failuresBeforeAlert

theorem own_readState {file : StateFile} (hfile : ∀ s, file = .state s → s.Own) :
    (readState file).1.Own := by
  cases file with
  | state s => exact hfile s rfl
  | missing | unreadable => exact State.own_empty

/-- The state file a history of runs leaves has no such key. -/
theorem own_worldAfter {start : StateFile} {h : List MainRun} (hstart : ∀ s, start = .state s → s.Own)
    (hh : ∀ r ∈ h, ∀ x ∈ r.results, x.Own) : ∀ s, (worldAfter start h).file = .state s → s.Own := by
  induction h with
  | nil => exact hstart
  | cons r h ih =>
    obtain ⟨hr, hh⟩ := List.forall_mem_cons.1 hh
    have hread := own_readState (ih hh)
    intro s hs
    rcases @main_file (worldAfter start h).file r with hfile | hfile
    · exact ih hh s (hfile ▸ hs)
    · obtain rfl := StateFile.state.inj (hfile.symm.trans hs)
      exact hread.step (own_results hr)

/-- The chunks of a step always are its messages, in order, and exactly if what it has to say fits
they are within the limit; in a sequence of runs they are if that is so in every run. -/
theorem texts_fit {prev : State} {results : List CheckResult} (hprev : prev.Own)
    (hr : ∀ r ∈ results, r.Own) (now : Date) (t : Nat) {start : StateFile} {h : List MainRun}
    (hstart : ∀ s, start = .state s → s.Own) (hh : ∀ r ∈ h, ∀ x ∈ r.results, x.Own) :
    "\n\n".intercalate (chunk ((step prev results now t).1.map Message.text)) =
      "\n\n".intercalate ((step prev results now t).1.map Message.text) ∧
    (TextsFit (step prev results now t).1 ↔ Fits prev results now t) ∧
    ((∀ r older, r :: older <:+ h → TextsFit (r.step (worldAfter start older).file).1) ↔
      ∀ r older, r :: older <:+ h → r.Fits (worldAfter start older).file) := by
  refine ⟨intercalate_chunk, textsFit_iff.trans (fits_iff hprev hr), ?_⟩
  apply forall₃_congr
  intro r older hsuffix
  have hmem : ∀ x ∈ r :: older, x ∈ h := fun x hx => hsuffix.subset hx
  have hfile := own_worldAfter hstart fun x hx => hh x (hmem x (List.mem_cons_of_mem _ hx))
  have hresults := hh r (hmem r List.mem_cons_self)
  exact textsFit_iff.trans (fits_iff (own_readState hfile) (own_results hresults))

namespace Demo

/-- The check that failed on 2026-10-14 passes on the next day, and the other one finds something. -/
def recovered : MainRun where
  results := [.findings "upgrade-authority" [changed], .findings "unsettled-groups" []]
  now := ⟨1792058400000, by decide⟩
  failuresBeforeAlert := 1
  answers := ⟨fun _ => .ok, true⟩

end Demo

theorem Demo.failedOnce_reachable : Reachable Demo.failedOnce := by
  refine .step .empty (List.forall_mem_singleton.2 ⟨?_, ?_⟩) Nat.one_pos
  · exact (by decide : "unsettled-groups" ∉ Record.inherited)
  · intro _ _ he
    cases he

theorem Demo.recovered_own : ∀ r ∈ Demo.recovered.results, r.Own := by
  intro r hr
  rcases List.mem_cons.1 hr with rfl | hr
  · refine ⟨(by decide : "upgrade-authority" ∉ Record.inherited), fun _ _ he f hf => ?_⟩
    cases he
    rw [List.mem_singleton.1 hf]
    exact (by decide : "upgrade-authority" ∉ Record.inherited)
  · rw [List.mem_singleton.1 hr]
    refine ⟨(by decide : "unsettled-groups" ∉ Record.inherited), fun _ _ he f hf => ?_⟩
    cases he
    cases hf

theorem Demo.recovered_fits :
    Fits Demo.failedOnce Demo.recovered.results Demo.recovered.now 1 := by
  have hassigned : Demo.recovered.results.flatMap (assigned Demo.failedOnce 1) =
      [("upgrade-authority", Demo.changed)] := rfl
  have hkeys : Demo.failedOnce.openFindings.keys = ["rpc:unsettled-groups"] := by decide
  refine ⟨fun k f h _ => ?_, fun k hk _ => ?_, fun _ _ => ?_⟩
  · rw [hassigned] at h
    obtain ⟨l, l', hl, -⟩ := List.lookup_eq_some_iff.1 h
    have hmem : (k, f) ∈ [("upgrade-authority", Demo.changed)] := by
      rw [← List.mem_reverse, hl]
      exact List.mem_append_right _ List.mem_cons_self
    cases List.mem_singleton.1 hmem
    decide
  · rw [hkeys] at hk
    rw [List.mem_singleton.1 hk]
    decide
  · rw [keysOf, hassigned]
    decide

theorem texts_fit_recovered :
    TextsFit (step Demo.failedOnce Demo.recovered.results Demo.recovered.now 1).1 ∧
      ∀ r older, r :: older <:+ [Demo.recovered] →
        TextsFit (r.step (worldAfter (.state Demo.failedOnce) older).file).1 := by
  have hown := Demo.failedOnce_reachable.own
  have hstart : ∀ s, StateFile.state Demo.failedOnce = .state s → s.Own := by
    intro s hs
    cases hs
    exact hown
  obtain ⟨-, hstep, hruns⟩ := texts_fit hown Demo.recovered_own Demo.recovered.now 1 hstart
    (List.forall_mem_singleton.2 Demo.recovered_own)
  refine ⟨hstep.2 Demo.recovered_fits, hruns.2 fun r older hsuffix => ?_⟩
  rcases List.suffix_cons_iff.1 hsuffix with he | hsuffix
  · cases he
    exact Demo.recovered_fits
  · cases List.eq_nil_of_suffix_nil hsuffix

/-! ## A text that is too long -/

theorem replaceAll_of_not_mem {c : Char} {by_ : String} (hc : c ∉ s.toList) :
    replaceAll s c by_ = s := by
  have hself : ∀ l : List Char, c ∉ l → (l.flatMap fun d => if d = c then by_.toList else [d]) = l := by
    intro l hl
    induction l with
    | nil => rfl
    | cons d l ih =>
      rw [List.mem_cons, not_or] at hl
      rw [List.flatMap_cons, if_neg (Ne.symm hl.1), ih hl.2, List.singleton_append]
  unfold replaceAll
  rw [hself _ hc, String.ofList_toList]

namespace Demo

/-- An error text of a length. -/
def errorText (n : Nat) : String := String.ofList (.replicate n 'x')

end Demo

theorem Demo.escapeHtml_errorText (n : Nat) :
    escapeHtml (Demo.errorText n) = Demo.errorText n := by
  have hnot : ∀ c : Char, c ≠ 'x' → c ∉ (Demo.errorText n).toList := by
    intro c hc hmem
    rw [Demo.errorText, String.toList_ofList] at hmem
    exact hc (List.eq_of_mem_replicate hmem)
  unfold escapeHtml
  rw [replaceAll_of_not_mem (hnot '&' (by decide)), replaceAll_of_not_mem (hnot '<' (by decide)),
    replaceAll_of_not_mem (hnot '>' (by decide))]

theorem Demo.length_errorText (n : Nat) : utf16Length (Demo.errorText n) = n := by
  unfold utf16Length Demo.errorText
  rw [String.toList_ofList, List.map_replicate, List.sum_replicate_nat]
  exact Nat.mul_one n

/-- What fits of the error of a check that opens a finding in its first run. -/
theorem length_error_of_textsFit {check error : String} (hc : check ∉ Record.inherited)
    (h : TextsFit (step EMPTY_STATE [.error check error] now 1).1) :
    utf16Length (escapeHtml error) < TELEGRAM_MAX_CHARS := by
  have hown : ∀ r ∈ [CheckResult.error check error], r.Own := by
    intro r hr
    rw [List.mem_singleton.1 hr]
    refine ⟨hc, fun _ _ he => ?_⟩
    cases he
  rw [textsFit_iff, fits_iff State.own_empty hown] at h
  have hassigned : assigned EMPTY_STATE 1 (.error check error) = [(rpcKey check,
      ⟨rpcKey check, .error, "Check " ++ check ++ " failed: " ++ escapeHtml error⟩)] := rfl
  have hnew : rpcKey check ∉ EMPTY_STATE.openFindings.keys := List.not_mem_nil
  have hfits := h.opened (rpcKey check) _
    (by rw [List.flatMap_singleton, hassigned, List.reverse_singleton, List.lookup_cons_self]) hnew
  simp only [utf16Length_append, Severity.frame] at hfits
  omega

theorem text_too_long :
    ¬TextsFit (step EMPTY_STATE [.error "unsettled-groups" (Demo.errorText 4000)]
      ⟨1791799200000, by decide⟩ 1).1 := by
  intro h
  have hlength := length_error_of_textsFit (by decide) h
  rw [Demo.escapeHtml_errorText, Demo.length_errorText] at hlength
  exact Nat.lt_irrefl _ hlength

end SafeNudge.Watchdog
