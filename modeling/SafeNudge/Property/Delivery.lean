import SafeNudge.Property.Alerts
import SafeNudge.Watchdog.Main

/-!
# What a failed run has delivered

`main_eq_of_fails` says when a run fails and what it leaves: the state file stays as it was, but
chunks sent before the failure have arrived. `allOrNothing_iff` gives the runs that deliver nothing
when they fail, and `delivered_matches_state` what holds of a sequence of such runs.
-/

namespace SafeNudge.Watchdog

open Lib

variable {messages current : List Message} {chunks : List (List Message)} {m : Message}
  {send : Nat → Sent} {i : Nat} {file : StateFile} {r : MainRun} {h : List MainRun} {key : String}

/-! ## Chunks -/

theorem text_ne_empty : m.text ≠ "" := by
  have hne : ∀ {a b : String}, a ≠ "" → a ++ b ≠ "" := by
    intro a b ha hab
    exact ha (String.append_eq_empty_iff.1 hab).1
  cases m with
  | opened key severity text =>
    unfold Message.text
    cases severity <;> exact hne (hne (hne (hne (hne (hne (by decide))))))
  | resolved key => exact hne (hne (by decide))
  | heartbeat today keys =>
    cases keys with
    | nil => exact hne (hne (by decide))
    | cons k keys => exact hne (hne (hne (hne (hne (by decide)))))

theorem joined_singleton : joined [m] = m.text := String.intercalate_singleton

theorem joined_append_of_ne_nil {c c' : List Message} (hc : c ≠ []) (hc' : c' ≠ []) :
    joined (c ++ c') = joined c ++ "\n\n" ++ joined c' := by
  unfold joined
  rw [List.map_append, String.intercalate_append_of_ne_nil (mt List.map_eq_nil_iff.1 hc)
    (mt List.map_eq_nil_iff.1 hc')]

theorem joined_append (hc : current ≠ []) :
    joined (current ++ [m]) = joined current ++ "\n\n" ++ m.text := by
  rw [joined_append_of_ne_nil hc (List.cons_ne_nil _ _), joined_singleton]

theorem joined_ne_empty (hc : current ≠ []) : joined current ≠ "" := by
  rcases current with _ | ⟨m, _ | ⟨m', ms⟩⟩
  · exact absurd rfl hc
  · rw [joined_singleton]
    exact text_ne_empty
  · unfold joined
    rw [List.map_cons, List.map_cons, String.intercalate_cons_cons]
    intro he
    exact text_ne_empty (String.append_eq_empty_iff.1 (String.append_eq_empty_iff.1 he).1).1

/-- The loop of `chunk` builds the texts of the groups. -/
theorem chunkLoop_joined : chunkLoop (joined current) (messages.map Message.text) =
    (groupLoop current messages).map joined := by
  induction messages generalizing current with
  | nil =>
    unfold chunkLoop groupLoop
    by_cases hc : current = []
    · subst hc
      rfl
    · rw [if_pos (joined_ne_empty hc), if_pos hc]
      rfl
  | cons m messages ih =>
    rw [List.map_cons, chunkLoop, groupLoop]
    by_cases hc : current = []
    · subst hc
      have hempty : joined [] = "" := rfl
      simp only [hempty, ne_eq, not_true_eq_false, false_and, if_false, List.nil_append]
      rw [← joined_singleton, ih]
    · have hjoined := joined_ne_empty hc
      simp only [ne_eq, hjoined, hc, not_false_eq_true, true_and, if_true]
      split
      · rw [List.map_cons, ← ih, joined_singleton]
      · rw [← joined_append hc, ih]

/-- `chunk` sends these messages, each in one chunk. -/
theorem chunk_text : chunk (messages.map Message.text) =
    (chunkMessages messages).map joined :=
  @chunkLoop_joined messages []

theorem groupLoop_spec : (groupLoop current messages).flatten = current ++ messages ∧
    ∀ c ∈ groupLoop current messages, c ≠ [] := by
  induction messages generalizing current with
  | nil =>
    unfold groupLoop
    split
    · simpa using ‹current ≠ []›
    · simpa using ‹¬current ≠ []›
  | cons m messages ih =>
    unfold groupLoop
    split
    · obtain ⟨hflat, hne⟩ := @ih [m]
      refine ⟨?_, ?_⟩
      · rw [List.flatten_cons, hflat]
        rfl
      · intro c hc
        rcases List.mem_cons.1 hc with rfl | hc
        · exact And.left ‹_ ∧ _›
        · exact hne c hc
    · obtain ⟨hflat, hne⟩ := @ih (current ++ [m])
      refine ⟨?_, hne⟩
      rw [hflat, List.append_assoc]
      rfl

theorem flatten_chunkMessages : (chunkMessages messages).flatten = messages := groupLoop_spec.1

theorem ne_nil_of_mem_chunkMessages {c : List Message} (hc : c ∈ chunkMessages messages) : c ≠ [] :=
  groupLoop_spec.2 c hc

theorem chunkMessages_eq_nil : chunkMessages messages = [] ↔ messages = [] := by
  constructor
  · intro h
    rw [← @flatten_chunkMessages messages, h]
    rfl
  · intro h
    subst h
    rfl

/-! ## Sending -/

theorem sendAll_ok : (sendAll send i chunks).2 = true ↔
    ∀ j < chunks.length, send (i + j) = .ok := by
  induction chunks generalizing i with
  | nil => simp [sendAll]
  | cons c chunks ih =>
    unfold sendAll
    constructor
    · intro h j hj
      split at h
      · rename_i heq
        cases j with
        | zero => exact heq
        | succ j =>
          have := ih.1 h j (Nat.lt_of_succ_lt_succ hj)
          rwa [Nat.add_assoc, Nat.add_comm 1] at this
      · cases h
    · intro h
      have hrest : ∀ j < chunks.length, send (i + 1 + j) = .ok := by
        intro j hj
        rw [Nat.add_assoc, Nat.add_comm 1]
        exact h (j + 1) (Nat.succ_lt_succ hj)
      have hfirst : send i = .ok := h 0 (Nat.succ_pos _)
      rw [hfirst]
      exact ih.2 hrest

/-- All chunks are delivered if no request fails. -/
theorem sendAll_delivered (hok : (sendAll send i chunks).2 = true) :
    (sendAll send i chunks).1 = chunks.flatten := by
  induction chunks generalizing i with
  | nil => rfl
  | cons c chunks ih =>
    unfold sendAll at hok ⊢
    split
    · rename_i heq
      rw [heq] at hok
      rw [List.flatten_cons, ← ih hok]
    · rename_i heq
      rw [heq] at hok
      cases hok

/-- Nothing is delivered if the first request fails and its message does not arrive. -/
theorem sendAll_eq_nil {c : List Message} (hc : c ≠ []) :
    (sendAll send i (c :: chunks)).1 = [] ↔ send i = .failed false := by
  unfold sendAll
  split
  · rename_i heq
    simp [heq, hc]
  · rename_i delivered heq
    cases delivered <;> simp [heq, hc]

/-! ## One run -/

/-- Every request of the run succeeds, and so does the write. -/
def MainRun.Succeeds (r : MainRun) (file : StateFile) : Prop :=
  (∀ i < (chunkMessages (r.step file).1).length, r.answers.send i = .ok) ∧ r.answers.write = true

/-- The run has no message, or its first request fails and delivers nothing. -/
def MainRun.DeliversNothing (r : MainRun) (file : StateFile) : Prop :=
  (r.step file).1 = [] ∨ r.answers.send 0 = .failed false

/-- A run that fails delivered none of its messages and left the state file as it was. -/
def AllOrNothing (file : StateFile) (r : MainRun) : Prop :=
  (main file r).exitCode = 2 → (main file r).delivered = [] ∧ (main file r).file = file

theorem main_succeeds (hs : r.Succeeds file) : (main file r).exitCode ≠ 2 ∧
    (main file r).delivered = (r.step file).1 ∧ (main file r).file = .state (r.step file).2 := by
  have hok : (sendAll r.answers.send 0 (chunkMessages (r.step file).1)).2 = true := by
    rw [sendAll_ok]
    intro j hj
    rw [Nat.zero_add]
    exact hs.1 j hj
  have hdelivered := sendAll_delivered hok
  rw [flatten_chunkMessages] at hdelivered
  unfold main
  dsimp only
  rw [if_pos ⟨hok, hs.2⟩]
  refine ⟨?_, hdelivered, rfl⟩
  dsimp only
  split <;> decide

theorem main_fails (hs : ¬r.Succeeds file) : (main file r).exitCode = 2 ∧
    (main file r).delivered = (sendAll r.answers.send 0 (chunkMessages (r.step file).1)).1 ∧
    (main file r).file = file := by
  have hok : ¬((sendAll r.answers.send 0 (chunkMessages (r.step file).1)).2 = true ∧
      r.answers.write = true) := by
    rw [sendAll_ok]
    simp only [Nat.zero_add]
    exact hs
  unfold main
  dsimp only
  rw [if_neg hok]
  exact ⟨rfl, rfl, rfl⟩

/-- A run leaves the state file as it was or replaces it by the state of its step. -/
theorem main_file : (main file r).file = file ∨ (main file r).file = .state (r.step file).2 := by
  by_cases hs : r.Succeeds file
  · exact .inr (main_succeeds hs).2.2
  · exact .inl (main_fails hs).2.2

theorem sendAll_chunkMessages_eq_nil :
    (sendAll send 0 (chunkMessages messages)).1 = [] ↔ messages = [] ∨ send 0 = .failed false := by
  rcases hc : chunkMessages messages with _ | ⟨c, chunks⟩
  · exact iff_of_true rfl (.inl (chunkMessages_eq_nil.1 hc))
  · have hne : c ≠ [] := ne_nil_of_mem_chunkMessages (hc ▸ List.mem_cons_self)
    have hmessages : messages ≠ [] := by
      intro h
      rw [chunkMessages_eq_nil.2 h] at hc
      cases hc
    rw [sendAll_eq_nil hne]
    exact (or_iff_right hmessages).symm

/-- A run is all or nothing exactly if it succeeds or delivers nothing. -/
theorem allOrNothing_iff : AllOrNothing file r ↔ r.Succeeds file ∨ r.DeliversNothing file := by
  by_cases hs : r.Succeeds file
  · exact iff_of_true (fun h => absurd h (main_succeeds hs).1) (.inl hs)
  · obtain ⟨hexit, hdelivered, hfile⟩ := main_fails hs
    unfold AllOrNothing MainRun.DeliversNothing
    rw [or_iff_right hs, hdelivered, hfile, sendAll_chunkMessages_eq_nil]
    exact ⟨fun h => (h hexit).1, fun h _ => ⟨h, rfl⟩⟩

/-! ## Sequences of runs -/

/-- The state file and all messages delivered so far, oldest first. -/
structure World where
  file : StateFile
  delivered : List Message

/-- The world after runs, newest first, from a state file on. -/
def worldAfter (start : StateFile) : List MainRun → World
  | [] => ⟨start, []⟩
  | r :: h =>
    let w := worldAfter start h
    let result := main w.file r
    ⟨result.file, w.delivered ++ result.delivered⟩

/-- The key is in the open map that the file holds. -/
def StateFile.IsOpen (file : StateFile) (key : String) : Prop :=
  ((readState file).1.openFindings.get? key).isSome = true

instance (file : StateFile) (key : String) : Decidable (file.IsOpen key) :=
  inferInstanceAs (Decidable (_ = _))

/-- What was delivered about a key tells whether the file has it open. -/
theorem delivered_alternates {start : StateFile} (hstart : ¬start.IsOpen key)
    (hkey : key ∉ Record.inherited)
    (hh : ∀ r older, r :: older <:+ h → r.Succeeds (worldAfter start older).file ∨
      r.DeliversNothing (worldAfter start older).file) :
    Alternates ((worldAfter start h).delivered.filterMap (Message.about key))
      ((worldAfter start h).file.IsOpen key) := by
  induction h with
  | nil => exact .nil hstart
  | cons r h ih =>
    have hih := ih fun r' older hs => hh r' older (hs.trans (List.suffix_cons _ _))
    unfold worldAfter
    dsimp only
    rw [List.filterMap_append]
    by_cases hs : r.Succeeds (worldAfter start h).file
    · obtain ⟨-, hdelivered, hfile⟩ := main_succeeds hs
      rw [hdelivered, hfile]
      exact step_alternates hkey hih
    · obtain ⟨hexit, -, hfile⟩ := main_fails hs
      have hnothing := (allOrNothing_iff.2 (hh r h (List.suffix_refl _)) hexit).1
      rw [hnothing, hfile]
      simpa using hih

/-- A run that fails is all or nothing exactly if it has no message or its first request fails and
delivers nothing. In a sequence of runs that all succeed or fail so, from a file without open
findings on, after each run that completes the last message delivered about a key is an opened one
exactly if the file has the key open. -/
theorem failed_runs (file : StateFile) (r : MainRun) (start : StateFile) (h : List MainRun) :
    (AllOrNothing file r ↔ r.Succeeds file ∨ r.DeliversNothing file) ∧
    ((∀ key, ¬start.IsOpen key) →
      (∀ r older, r :: older <:+ h → r.Succeeds (worldAfter start older).file ∨
        r.DeliversNothing (worldAfter start older).file) →
      ∀ r older, r :: older <:+ h → (main (worldAfter start older).file r).exitCode ≠ 2 →
        ∀ key ∉ Record.inherited,
          (((worldAfter start (r :: older)).delivered.filterMap (Message.about key)).getLast? =
              some .opened ↔ (worldAfter start (r :: older)).file.IsOpen key)) := by
  refine ⟨allOrNothing_iff, fun hstart hh r older hs _ key hkey => ?_⟩
  exact (delivered_alternates (hstart key) hkey fun r' older' hs' =>
    hh r' older' (hs'.trans hs)).last

namespace Demo

/-- A run whose requests succeed. -/
def run (ms : Int) (h : -8640000000000000 ≤ ms ∧ ms ≤ 8640000000000000) (findings : List Finding)
    (write : Bool) : MainRun :=
  ⟨(round ms h findings).results, ⟨ms, h⟩, 2, ⟨fun _ => .ok, write⟩⟩

/-- A finding appears and is stored. -/
def stored : MainRun := run 1791885600000 (by decide) [changed] true

/-- It appears, but the state file is not replaced. -/
def notStored : MainRun := run 1791885600000 (by decide) [changed] false

/-- It is gone in the next run. -/
def cleared : MainRun := run 1791886200000 (by decide) [] true

/-- Telegram refuses the message that says so. -/
def refused : MainRun := { cleared with answers := ⟨fun _ => .failed false, true⟩ }

end Demo

theorem failed_runs_refused :
    (AllOrNothing .missing Demo.refused ↔
      Demo.refused.Succeeds .missing ∨ Demo.refused.DeliversNothing .missing) ∧
    (((worldAfter .missing [Demo.cleared, Demo.refused, Demo.stored]).delivered.filterMap
        (Message.about "upgrade-authority")).getLast? = some .opened ↔
      (worldAfter .missing [Demo.cleared, Demo.refused, Demo.stored]).file.IsOpen
        "upgrade-authority") := by
  obtain ⟨hrun, hruns⟩ := failed_runs .missing Demo.refused .missing
    [Demo.cleared, Demo.refused, Demo.stored]
  refine ⟨hrun, hruns (fun _ => nofun) ?_ _ _ (List.suffix_refl _) (by decide +kernel) _ (by decide)⟩
  intro r older hs
  rcases List.suffix_cons_iff.1 hs with he | hs
  · cases he
    exact .inl ⟨fun _ _ => rfl, rfl⟩
  rcases List.suffix_cons_iff.1 hs with he | hs
  · cases he
    exact .inr (.inr rfl)
  rcases List.suffix_cons_iff.1 hs with he | hs
  · cases he
    exact .inl ⟨fun _ _ => rfl, rfl⟩
  · cases List.eq_nil_of_suffix_nil hs

theorem delivered_not_stored : ¬AllOrNothing .missing Demo.notStored ∧
    (main (worldAfter .missing [Demo.notStored]).file Demo.cleared).exitCode ≠ 2 ∧
    ((worldAfter .missing [Demo.cleared, Demo.notStored]).delivered.filterMap
      (Message.about "upgrade-authority")).getLast? = some .opened ∧
    ¬(worldAfter .missing [Demo.cleared, Demo.notStored]).file.IsOpen "upgrade-authority" := by
  refine ⟨fun h => ?_, by decide +kernel, by decide +kernel, by decide +kernel⟩
  have hnone := (h (by decide +kernel)).1
  exact absurd hnone (by decide +kernel)

end SafeNudge.Watchdog
