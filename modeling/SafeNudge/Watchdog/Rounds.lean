import SafeNudge.Watchdog.Step
import Mathlib.Data.List.Chain

/-!
# What one run leaves

`contribution` is what the result of one check says about a key. `get?_applyResult` reads a round
of the loop as one, `openFindings_step` and `failures_step` the loop, where no two checks say
something about the same key, and `filterMap_transitions` the messages about a key.
-/

namespace SafeNudge.Watchdog

open Lib

variable {prev : State} {nowIso check error k : String} {t n : Nat} {findings : List Finding}
  {acc : Record OpenFinding × Record Nat} {r : CheckResult} {results : List CheckResult}
  {x : OpenFinding}

/-- The entries of findings. -/
def entriesOf (prev : State) (nowIso check : String) (findings : List Finding) :
    List (String × OpenFinding) :=
  findings.map fun f => (f.key, asOpen prev nowIso check f)

/-- What a result says about a key: a finding of it, or one that stays open. -/
def contribution (prev : State) (nowIso : String) (t : Nat) : CheckResult → String → Option OpenFinding
  | .error check error, k =>
    let failed := (prev.failures.get? check).getD 0 + 1
    ((entriesOf prev nowIso check (rpcFindings check error failed t)).lookup k).or
      ((prev.openFindings.get? k).filter fun f => f.check = check)
  | .findings check findings, k => (entriesOf prev nowIso check findings).lookup k

theorem openAll_eq {opened : Record OpenFinding} : openAll prev nowIso check findings opened =
    opened.setAll (entriesOf prev nowIso check findings) := by
  unfold openAll Record.setAll entriesOf
  rw [List.foldl_map]

theorem keepOpen_eq {opened : Record OpenFinding} : keepOpen prev check opened =
    opened.setAll (prev.openFindings.entries.filter fun e => e.2.check = check) := by
  unfold keepOpen Record.setAll
  rw [List.foldl_filter]
  simp only [decide_eq_true_eq]

theorem nodup_entriesOf (h : (findings.map Finding.key).Nodup) :
    ((entriesOf prev nowIso check findings).map Prod.fst).Nodup := by
  unfold entriesOf
  rw [List.map_map]
  exact h

theorem nodup_rpcFindings : ((rpcFindings check error n t).map Finding.key).Nodup := by
  unfold rpcFindings
  split
  · exact .nil
  · exact List.nodup_singleton _

/-- The findings of one result are distinct. -/
def CheckResult.Distinct : CheckResult → Prop
  | .error _ _ => True
  | .findings _ findings => (findings.map Finding.key).Nodup

/-- One round of the loop. -/
theorem get?_applyResult (hr : r.Distinct) : (applyResult prev nowIso t acc r).1.get? k =
    (contribution prev nowIso t r k).or (acc.1.get? k) := by
  cases r with
  | error check error =>
    unfold applyResult contribution
    dsimp only
    rw [openAll_eq, keepOpen_eq, Record.get?_setAll (nodup_entriesOf nodup_rpcFindings),
      Record.get?_setAll (prev.openFindings.nodup.sublist (List.filter_sublist.map _)),
      lookup_filter prev.openFindings.nodup fun f => decide (f.check = check), Option.or_assoc]
    rfl
  | findings check findings =>
    unfold applyResult contribution
    dsimp only
    rw [openAll_eq, Record.get?_setAll (nodup_entriesOf hr)]

/-- The loop, on one key: what the one result that speaks about it says. -/
theorem get?_foldl_applyResult (hd : ∀ r ∈ results, r.Distinct)
    (hu : results.Pairwise fun r r' =>
      contribution prev nowIso t r k = none ∨ contribution prev nowIso t r' k = none) :
    (results.foldl (applyResult prev nowIso t) acc).1.get? k = some x ↔
      (∃ r ∈ results, contribution prev nowIso t r k = some x) ∨
        ((∀ r ∈ results, contribution prev nowIso t r k = none) ∧ acc.1.get? k = some x) := by
  induction results generalizing acc with
  | nil => simp
  | cons r results ih =>
    rw [List.pairwise_cons] at hu
    rw [List.foldl_cons, ih (fun r' hr' => hd r' (.tail _ hr')) hu.2,
      get?_applyResult (hd r List.mem_cons_self), List.exists_mem_cons_iff, List.forall_mem_cons]
    rcases hr : contribution prev nowIso t r k with _ | y
    · simp
    · have hrest : ∀ r' ∈ results, contribution prev nowIso t r' k = none := by
        intro r' hr'
        rcases hu.1 r' hr' with h | h
        · rw [hr] at h
          cases h
        · exact h
      have hnone : ¬∃ r' ∈ results, contribution prev nowIso t r' k = some x := by
        intro ⟨r', hr', h⟩
        rw [hrest r' hr'] at h
        cases h
      simpa [hnone] using fun _ => hrest

theorem openFindings_step {now : Date} (hd : ∀ r ∈ results, r.Distinct)
    (hu : results.Pairwise fun r r' => contribution prev now.toISOString t r k = none ∨
      contribution prev now.toISOString t r' k = none) :
    (step prev results now t).2.openFindings.get? k = some x ↔
      ∃ r ∈ results, contribution prev now.toISOString t r k = some x := by
  unfold step
  rw [get?_foldl_applyResult hd hu]
  simp

/-- The loop, on the failures of one check. -/
theorem get?_foldl_failures :
    (results.foldl (applyResult prev nowIso t) acc).2.get? check = some n ↔
      (∃ error, .error check error ∈ results ∧ n = (prev.failures.get? check).getD 0 + 1) ∨
        ((∀ error, .error check error ∉ results) ∧ acc.2.get? check = some n) := by
  induction results generalizing acc with
  | nil => simp
  | cons r results ih =>
    rw [List.foldl_cons, ih]
    cases r with
    | findings c findings => simp [applyResult]
    | error c error =>
      have hset : (applyResult prev nowIso t acc (.error c error)).2 =
          acc.2.set c ((prev.failures.get? c).getD 0 + 1) := rfl
      rw [hset, Record.get?_set]
      by_cases hc : check = c
      · subst hc
        rw [if_pos rfl]
        constructor
        · intro h
          rcases h with ⟨e, he, hn⟩ | ⟨-, hn⟩
          · exact .inl ⟨e, .tail _ he, hn⟩
          · exact .inl ⟨error, List.mem_cons_self, (Option.some.inj hn).symm⟩
        · intro h
          rcases h with ⟨-, -, hn⟩ | ⟨hnone, -⟩
          · by_cases hmem : ∃ e, CheckResult.error check e ∈ results
            · obtain ⟨e, he⟩ := hmem
              exact .inl ⟨e, he, hn⟩
            · exact .inr ⟨fun e he => hmem ⟨e, he⟩, hn ▸ rfl⟩
          · exact absurd List.mem_cons_self (hnone error)
      · simp [hc]

theorem failures_step {now : Date} :
    (step prev results now t).2.failures.get? check = some n ↔
      ∃ error, .error check error ∈ results ∧ n = (prev.failures.get? check).getD 0 + 1 := by
  unfold step
  rw [get?_foldl_failures]
  simp

/-! ## Messages about a key -/

/-- What a message says about a finding. -/
inductive Change where
  | opened
  | resolved
  deriving DecidableEq

def Message.about (k : String) : Message → Option Change
  | .opened key _ _ => if key = k then some .opened else none
  | .resolved key => if key = k then some .resolved else none
  | .heartbeat _ _ => none

theorem filterMap_key {α β : Type} {l : List (String × α)} (hl : (l.map Prod.fst).Nodup) (b : β) :
    (l.filterMap fun e => if e.1 = k then some b else none) =
      if k ∈ l.map Prod.fst then [b] else [] := by
  induction l with
  | nil => rfl
  | cons e l ih =>
    rw [List.map_cons, List.nodup_cons] at hl
    rw [List.filterMap_cons, ih hl.2, List.map_cons]
    by_cases he : e.1 = k
    · subst he
      simp [hl.1]
    · have hmem : k ∈ e.1 :: l.map Prod.fst ↔ k ∈ l.map Prod.fst := by
        rw [List.mem_cons]
        exact or_iff_right fun h => he h.symm
      rw [if_neg he]
      exact if_congr hmem.symm rfl rfl

theorem mem_keys_filter {o : Record OpenFinding} {p : String → Bool} :
    k ∈ (o.entries.filter fun e => p e.1).map Prod.fst ↔ (o.get? k).isSome ∧ p k = true := by
  rw [← Record.mem_keys]
  unfold Record.keys
  rw [List.mem_map, List.mem_map]
  constructor
  · intro ⟨e, he, hk⟩
    obtain ⟨hmem, hp⟩ := List.mem_filter.1 he
    exact ⟨⟨e, hmem, hk⟩, hk ▸ hp⟩
  · intro ⟨⟨e, he, hk⟩, hp⟩
    exact ⟨e, List.mem_filter.2 ⟨he, hk ▸ hp⟩, hk⟩

/-- The messages of a run about a key: at most one. -/
theorem filterMap_transitions {prev opened : Record OpenFinding} :
    (transitions prev opened).filterMap (Message.about k) =
      (if (opened.get? k).isSome ∧ prev.has k = false then [.opened] else []) ++
        if (prev.get? k).isSome ∧ opened.has k = false then [.resolved] else [] := by
  have hkeys : ∀ (o : Record OpenFinding) (p : String → Bool) (c : Change),
      ((o.entries.filter fun e => p e.1).filterMap fun e => if e.1 = k then some c else none) =
        if (o.get? k).isSome ∧ p k = true then [c] else [] := by
    intro o p c
    rw [filterMap_key (o.nodup.sublist (List.filter_sublist.map _)) c]
    simp only [mem_keys_filter]
  unfold transitions Record.keys
  rw [List.filterMap_append, List.filter_map, List.filterMap_map, List.filterMap_map,
    List.filterMap_map]
  have hopened := hkeys opened (fun key => !prev.has key) .opened
  have hresolved := hkeys prev (fun key => !opened.has key) .resolved
  simp only [Bool.not_eq_true'] at hopened hresolved
  rw [← hopened, ← hresolved]
  rfl

/-- The messages about one key alternate, from an opened one on, and the last one says whether the
key is open. -/
structure Alternates (l : List Change) (isOpen : Prop) : Prop where
  chain : l.IsChain (· ≠ ·)
  head : l.head? ≠ some .resolved
  last : l.getLast? = some .opened ↔ isOpen

namespace Alternates

variable {l : List Change} {p q : Prop}

theorem nil (hp : ¬p) : Alternates [] p := ⟨.nil, nofun, iff_of_false nofun hp⟩

theorem congr (h : Alternates l p) (hpq : p ↔ q) : Alternates l q := ⟨h.chain, h.head, h.last.trans hpq⟩

theorem opened (h : Alternates l p) (hp : ¬p) (hq : q) : Alternates (l ++ [.opened]) q where
  chain := by
    rw [List.isChain_append]
    refine ⟨h.chain, .singleton _, fun x hx y hy => ?_⟩
    cases hy
    intro hxo
    exact hp (h.last.1 (hxo ▸ hx))
  head := by
    rcases l with _ | ⟨c, l⟩
    · exact nofun
    · exact h.head
  last := iff_of_true (by rw [List.getLast?_concat]) hq

theorem resolved (h : Alternates l p) (hp : p) (hq : ¬q) : Alternates (l ++ [.resolved]) q where
  chain := by
    rw [List.isChain_append]
    refine ⟨h.chain, .singleton _, fun x hx y hy => ?_⟩
    cases hy
    rw [h.last.2 hp] at hx
    cases hx
    exact nofun
  head := by
    rcases l with _ | ⟨c, l⟩
    · exact absurd (h.last.2 hp) nofun
    · exact h.head
  last := by
    rw [List.getLast?_concat]
    exact iff_of_false nofun hq

/-- A run adds at most one message about a key. -/
theorem step (h : Alternates l p) [Decidable p] [Decidable q] : Alternates
    (l ++ ((if q ∧ ¬p then [.opened] else []) ++ if p ∧ ¬q then [.resolved] else [])) q := by
  by_cases hp : p <;> by_cases hq : q
  · simpa [hp, hq] using h.congr (iff_of_true hp hq)
  · simpa [hp, hq] using h.resolved hp hq
  · simpa [hp, hq] using h.opened hp hq
  · simpa [hp, hq] using h.congr (iff_of_false hp hq)

end Alternates

/-! ## The heartbeat -/

/-- The day a run gives to its heartbeat. -/
def today (now : Date) : String := String.ofList (now.toISOString.toList.take 10)

def Message.isHeartbeat : Message → Bool
  | .heartbeat _ _ => true
  | _ => false

theorem messages_step {now : Date} : (step prev results now t).1 =
    transitions prev.openFindings (step prev results now t).2.openFindings ++
      if prev.lastHeartbeatDay ≠ some (today now) then
        [.heartbeat (today now) (step prev results now t).2.openFindings.keys]
      else [] :=
  rfl

theorem lastHeartbeatDay_step {now : Date} :
    (step prev results now t).2.lastHeartbeatDay = some (today now) :=
  rfl

theorem filterMap_step {now : Date} : (step prev results now t).1.filterMap (Message.about k) =
    (transitions prev.openFindings (step prev results now t).2.openFindings).filterMap
      (Message.about k) := by
  rw [messages_step, List.filterMap_append]
  split
  · exact List.append_nil _
  · exact List.append_nil _

/-- What a run sends about a key continues what was sent before. -/
theorem step_alternates {now : Date} {l : List Change} (hk : k ∉ Record.inherited)
    (h : Alternates l (prev.openFindings.get? k).isSome) :
    Alternates (l ++ (step prev results now t).1.filterMap (Message.about k))
      ((step prev results now t).2.openFindings.get? k).isSome := by
  have hstep := h.step (q := ((step prev results now t).2.openFindings.get? k).isSome = true)
  rw [filterMap_step, filterMap_transitions, Record.has_eq hk, Record.has_eq hk]
  simpa only [Bool.not_eq_true] using hstep

theorem countP_step {now : Date} : (step prev results now t).1.countP Message.isHeartbeat =
    if prev.lastHeartbeatDay = some (today now) then 0 else 1 := by
  have hnone : ∀ m ∈ transitions prev.openFindings (step prev results now t).2.openFindings,
      ¬m.isHeartbeat = true := by
    intro m hm
    rcases List.mem_append.1 hm with h | h
    · obtain ⟨e, -, rfl⟩ := List.mem_map.1 h
      exact nofun
    · obtain ⟨e, -, rfl⟩ := List.mem_map.1 h
      exact nofun
  rw [messages_step, List.countP_append, List.countP_eq_zero.2 hnone, Nat.zero_add]
  by_cases hday : prev.lastHeartbeatDay = some (today now)
  · rw [if_neg (not_not.2 hday), if_pos hday]
    rfl
  · rw [if_pos hday, if_neg hday]
    rfl

end SafeNudge.Watchdog
