import SafeNudge.Watchdog.Rounds
import SafeNudge.Watchdog.StateFile

/-!
# The watchdog reads back what it wrote

`Stored` is what `step` gives every state and the validator asks of it: failure counts are positive,
and the entries stand in the order a text gives them back in. `stateOf?_toJson` reads such a state
back, `Reachable.stored` says that every state the watchdog reaches is one.
-/

namespace SafeNudge.Watchdog

open Lib

/-- No check or key has the name of a property every object inherits. -/
def CheckResult.Own (r : CheckResult) : Prop :=
  r.check ∉ Record.inherited ∧
    ∀ check findings, r = .findings check findings → ∀ f ∈ findings, f.key ∉ Record.inherited

/-- The states of the watchdog. A run whose state file is unreadable starts over. -/
inductive Reachable : State → Prop where
  | empty : Reachable EMPTY_STATE
  | step {s : State} {results : List CheckResult} {now : Date} {t : Nat} :
      Reachable s → (∀ r ∈ results, r.Own) → 0 < t → Reachable (step s results now t).2
  | reset {s : State} {results : List CheckResult} {now : Date} {t : Nat} :
      Reachable s → (∀ r ∈ results, r.Own) → 0 < t →
        Reachable (step EMPTY_STATE (results ++ [STATE_RESET_RESULT]) now t).2

/-- What a stored state keeps. -/
structure Stored (s : State) : Prop where
  openFindings : s.openFindings.IsOrdered
  failures : s.failures.IsOrdered
  positive : ∀ e ∈ s.failures.entries, 0 < e.2

variable {s : State} {results : List CheckResult} {now : Date} {t : Nat}

/-! ## Reading -/

theorem Severity.ofJson?_name (severity : Severity) :
    Severity.ofJson? (.string severity.name) = some severity := by
  cases severity <;> rfl

/-- The validator accepts what the cast can read. -/
theorem isOpenFinding_eq (v : Json) : isOpenFinding v = (asOpenFinding v).isSome := by
  unfold isOpenFinding asOpenFinding
  cases v.record? with
  | none => rfl
  | some o =>
    dsimp only [bind, Option.bind_some]
    rw [List.all_cons, List.all_cons, List.all_cons, List.all_cons, List.all_nil]
    cases (o.get? "key").bind Json.string? <;> cases (o.get? "severity").bind Severity.ofJson? <;>
      cases (o.get? "text").bind Json.string? <;> cases (o.get? "check").bind Json.string? <;>
      cases (o.get? "since").bind Json.string? <;> rfl

theorem get?_members {l : List (String × Json)} {k : String} (hl : (l.map Prod.fst).Nodup) :
    (Record.empty.setAll l).get? k = l.lookup k := by
  rw [Record.get?_setAll hl, Record.get?_empty, Option.or_none]

theorem asOpenFinding_toJson (f : OpenFinding) : asOpenFinding f.toJson = some f := by
  have hnodup : ([("key", Json.string f.key), ("severity", .string f.severity.name),
      ("text", .string f.text), ("check", .string f.check), ("since", .string f.since)].map
        Prod.fst).Nodup := by
    simp only [List.map_cons, List.map_nil]
    decide
  unfold asOpenFinding OpenFinding.toJson Json.record?
  dsimp only [bind, Option.bind_some]
  simp only [get?_members hnodup]
  simp [List.lookup_cons, Json.string?, Severity.ofJson?_name]

theorem positiveInteger_natCast {n : Nat} (hn : 0 < n) :
    isPositiveInteger (.number n) = true ∧ asPositiveInteger (.number n) = some n := by
  have hpos : isPositiveInteger (.number n) = true := by
    have hcast : (0 : Rat) < n := Rat.natCast_pos.2 hn
    unfold isPositiveInteger
    simp [hcast]
  refine ⟨hpos, ?_⟩
  unfold asPositiveInteger
  dsimp only
  rw [if_pos hpos]
  simp

theorem openOf?_toJson {opened : Record OpenFinding} (ho : opened.IsOrdered) :
    openOf? (some (.object (opened.entries.map fun e => (e.1, e.2.toJson)))) = some opened := by
  have hall : ((Record.empty.setAll (opened.entries.map fun e => (e.1, e.2.toJson))).entries.all
      fun e => isOpenFinding e.2) = true := by
    rw [Record.entries_setAll_map ho, List.all_map, List.all_eq_true]
    intro e _
    dsimp only [Function.comp_apply]
    rw [isOpenFinding_eq, asOpenFinding_toJson]
    rfl
  unfold openOf?
  dsimp only [Option.bind_some, Json.record?]
  rw [if_pos hall, Record.filterMap_setAll_map ho fun e _ => asOpenFinding_toJson e.2]

theorem dayOf?_ofString? (day : Option String) : dayOf? (some (.ofString? day)) = some day := by
  cases day <;> rfl

theorem failuresOf?_toJson {failures : Record Nat} (ho : failures.IsOrdered)
    (hpos : ∀ e ∈ failures.entries, 0 < e.2) :
    failuresOf? (some (.object (failures.entries.map fun e => (e.1, .number e.2)))) =
      some failures := by
  have hall : ((Record.empty.setAll
      (failures.entries.map fun e => (e.1, Json.number e.2))).entries.all fun e =>
        isPositiveInteger e.2) = true := by
    rw [Record.entries_setAll_map (g := fun n : Nat => Json.number n) ho, List.all_map,
      List.all_eq_true]
    exact fun e he => (positiveInteger_natCast (hpos e he)).1
  unfold failuresOf?
  dsimp only [Json.record?]
  rw [if_pos hall, Record.filterMap_setAll_map (g := fun n : Nat => Json.number n) ho
    fun e he => (positiveInteger_natCast (hpos e he)).2]

/-- A stored state is read back. -/
theorem stateOf?_toJson (hs : Stored s) : stateOf? s.toJson = some s := by
  have hnodup : ([("open", Json.object (s.openFindings.entries.map fun e => (e.1, e.2.toJson))),
      ("lastHeartbeatDay", .ofString? s.lastHeartbeatDay),
      ("failures", .object (s.failures.entries.map fun e => (e.1, .number e.2)))].map
        Prod.fst).Nodup := by
    simp only [List.map_cons, List.map_nil]
    decide
  unfold stateOf? State.toJson Json.record?
  simp only [bind, Option.bind_some, get?_members hnodup]
  simp [List.lookup_cons, openOf?_toJson hs.openFindings, dayOf?_ofString?,
    failuresOf?_toJson hs.failures hs.positive]

/-! ## Runs -/

theorem stored_empty : Stored EMPTY_STATE :=
  ⟨Record.isOrdered_empty, Record.isOrdered_empty, List.forall_mem_nil _⟩

theorem ordered_applyResult {prev : State} {nowIso : String} {r : CheckResult}
    {acc : Record OpenFinding × Record Nat} (h : acc.1.IsOrdered ∧ acc.2.IsOrdered) :
    (applyResult prev nowIso t acc r).1.IsOrdered ∧ (applyResult prev nowIso t acc r).2.IsOrdered := by
  cases r with
  | error check error =>
    unfold applyResult
    dsimp only
    rw [openAll_eq, keepOpen_eq]
    exact ⟨h.1.setAll.setAll, h.2.set ..⟩
  | findings check findings =>
    unfold applyResult
    dsimp only
    rw [openAll_eq]
    exact ⟨h.1.setAll, h.2⟩

/-- Every state a run leaves can be read back, whatever it started from. -/
theorem stored_step (s : State) : Stored (step s results now t).2 := by
  have hordered : ∀ (acc : Record OpenFinding × Record Nat), acc.1.IsOrdered ∧ acc.2.IsOrdered →
      (results.foldl (applyResult s now.toISOString t) acc).1.IsOrdered ∧
        (results.foldl (applyResult s now.toISOString t) acc).2.IsOrdered := by
    intro acc h
    induction results generalizing acc with
    | nil => exact h
    | cons r results ih => exact ih _ (ordered_applyResult h)
  have hacc := hordered (.empty, .empty) ⟨Record.isOrdered_empty, Record.isOrdered_empty⟩
  refine ⟨hacc.1, hacc.2, fun e he => ?_⟩
  obtain ⟨error, -, hn⟩ := failures_step.1 (Record.mem_entries.1 he)
  rw [hn]
  exact Nat.succ_pos _

theorem Reachable.stored (hs : Reachable s) : Stored s := by
  cases hs with
  | empty => exact stored_empty
  | step => exact stored_step _
  | reset => exact stored_step _

/-- The watchdog never discards its own state: what it stored for a state it reached is read back as
that state, where `JSON.parse` undoes `JSON.stringify` on it, and the next run does not open
`state-reset`. -/
theorem state_read_back {parse : String → Option Json} {stringify : Json → String}
    (hs : Reachable s) (hjson : parse (stringify s.toJson ++ "\n") = some s.toJson) :
    parseState parse (stateText stringify s) = (s, false) ∧
      readState (.ofText parse (some (stateText stringify s))) = (s, false) := by
  have hparse : parseState parse (stateText stringify s) = (s, false) := by
    unfold parseState stateText
    rw [hjson]
    dsimp only
    rw [stateOf?_toJson hs.stored]
  refine ⟨hparse, ?_⟩
  unfold StateFile.ofText
  dsimp only
  rw [hparse]
  rfl

namespace Demo

/-- The state after a first run on 2026-10-14 in which a check failed. -/
def failedOnce : State :=
  (step EMPTY_STATE [.error "unsettled-groups" "HTTP 500"] ⟨1791972000000, by decide⟩ 1).2

def failedJson : Json :=
  .object [("open", .object [("rpc:unsettled-groups", .object [("key", .string "rpc:unsettled-groups"),
      ("severity", .string "error"), ("text", .string "Check unsettled-groups failed: HTTP 500"),
      ("check", .string "unsettled-groups"), ("since", .string "2026-10-14T10:00:00.000Z")])]),
    ("lastHeartbeatDay", .string "2026-10-14"),
    ("failures", .object [("unsettled-groups", .number 1)])]

/-- `JSON.stringify` of it, with an indentation of 2. -/
def failedText : String :=
  "\n".intercalate
    ["\x7b", "  \"open\": \x7b", "    \"rpc:unsettled-groups\": \x7b",
      "      \"key\": \"rpc:unsettled-groups\",", "      \"severity\": \"error\",",
      "      \"text\": \"Check unsettled-groups failed: HTTP 500\",",
      "      \"check\": \"unsettled-groups\",", "      \"since\": \"2026-10-14T10:00:00.000Z\"",
      "    \x7d", "  \x7d,", "  \"lastHeartbeatDay\": \"2026-10-14\",", "  \"failures\": \x7b",
      "    \"unsettled-groups\": 1", "  \x7d", "\x7d"]

end Demo

theorem Demo.toJson_failedOnce : Demo.failedOnce.toJson = Demo.failedJson := by
  rfl

theorem state_read_back_failed :
    parseState (fun text => if text = Demo.failedText ++ "\n" then some Demo.failedJson else none)
      (Demo.failedText ++ "\n") = (Demo.failedOnce, false) := by
  have hreachable : Reachable Demo.failedOnce :=
    .step .empty (by simp [CheckResult.Own, CheckResult.check]; decide) Nat.one_pos
  have hjson := congrArg some Demo.toJson_failedOnce.symm
  exact (@state_read_back _ _ (fun _ => Demo.failedText) hreachable ((if_pos rfl).trans hjson)).1

end SafeNudge.Watchdog
