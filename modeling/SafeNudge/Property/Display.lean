import SafeNudge.Lib.Markup
import SafeNudge.Property.Chunks
import SafeNudge.Watchdog.Checks
import SafeNudge.Watchdog.Config

/-!
# What Telegram displays

The watchdog sends its texts as HTML. `Report` is what a finding is about and `Report.pieces` what
it is to display. `CheckedRun.Says` is what a run has to report: the decoded groups, the authority
and the redacted errors its checks got from the node. Every finding of the checks is the markup of
such a report (`runChecks_reported`), every open finding one of this or an earlier run
(`step_reported`), and so is every message. A strict reader of the markup gives the pieces back
(`read_markup`), whatever a group's code or an error holds: it is displayed as it is and never read
as markup.
-/

namespace SafeNudge.Watchdog

open Lib

/-! ## Pieces of a text -/

/-- The part of HTML the texts use. -/
def HTML : Dialect where
  tags := ["b".toList, "code".toList]
  entities := [("amp".toList, '&'), ("lt".toList, '<'), ("gt".toList, '>')]

/-- A piece of a displayed text. -/
inductive Piece where
  | plain (s : String)
  | bold (s : String)
  | code (s : String)

def Piece.text : Piece → String
  | .plain s | .bold s | .code s => s

def Piece.styles : Piece → List (List Char)
  | .plain _ => []
  | .bold _ => ["b".toList]
  | .code _ => ["code".toList]

/-- What a reader sees. -/
def Piece.shown (p : Piece) : List Shown := p.text.toList.map (p.styles, ·)

/-- What is written. -/
def Piece.markup : Piece → String
  | .plain s => escapeHtml s
  | .bold s => "<b>" ++ escapeHtml s ++ "</b>"
  | .code s => "<code>" ++ escapeHtml s ++ "</code>"

def markup (ps : List Piece) : String := String.join (ps.map Piece.markup)

def shown (ps : List Piece) : List Shown := ps.flatMap Piece.shown

section
variable {s : String} {stack : List (List Char)} {ps ps' : List Piece}

/-- The three replacements, character by character. -/
def escapeChar (c : Char) : List Char :=
  if c = '&' then "&amp;".toList
  else if c = '<' then "&lt;".toList
  else if c = '>' then "&gt;".toList
  else [c]

/-- A mark is replaced once: what replaces it holds only marks that were replaced before. -/
theorem flatMap_escapeChar (c : Char) :
    ((if c = '&' then "&amp;".toList else [c]).flatMap fun d =>
      if d = '<' then "&lt;".toList else [d]).flatMap (fun d =>
        if d = '>' then "&gt;".toList else [d]) = escapeChar c := by
  unfold escapeChar
  by_cases ha : c = '&'
  · subst ha
    decide
  by_cases hl : c = '<'
  · subst hl
    decide
  simp only [ha, hl, if_false, List.flatMap_singleton]

theorem toList_escapeHtml : (escapeHtml s).toList = s.toList.flatMap escapeChar := by
  unfold escapeHtml replaceAll
  simp only [String.toList_ofList, List.flatMap_assoc]
  refine List.flatMap_congr fun c _ => ?_
  rw [← flatMap_escapeChar, List.flatMap_assoc]

theorem reads_escapeChar (c : Char) : HTML.Reads stack (escapeChar c) [(stack, c)] := by
  unfold escapeChar
  split_ifs with ha hl hg
  · subst ha
    have h : HTML.entities.lookup "amp".toList = some '&' := rfl
    exact .entity h (by decide)
  · subst hl
    have h : HTML.entities.lookup "lt".toList = some '<' := rfl
    exact .entity h (by decide)
  · subst hg
    have h : HTML.entities.lookup "gt".toList = some '>' := rfl
    exact .entity h (by decide)
  · exact .char ⟨hl, hg, ha⟩

theorem reads_escapeHtml : HTML.Reads stack (escapeHtml s).toList (s.toList.map (stack, ·)) := by
  rw [toList_escapeHtml]
  exact .flatMap fun c _ => reads_escapeChar c

/-- An escaped text inside a tag. -/
theorem reads_tagged {name : List Char} (ht : name ∈ HTML.tags) (hc : '/' :: name ∉ HTML.tags)
    (h : '>' ∉ name) :
    HTML.Reads [] ('<' :: (name ++ '>' :: ((escapeHtml s).toList ++ '<' :: '/' :: (name ++ ['>']))))
      (s.toList.map ([name], ·)) :=
  .element ht hc h reads_escapeHtml

theorem reads_markup_piece (p : Piece) : HTML.Reads [] p.markup.toList p.shown := by
  cases p with
  | plain s => exact reads_escapeHtml
  | bold s =>
    have ht : "b".toList ∈ HTML.tags := by decide
    have h := reads_tagged (s := s) ht (by decide) (by decide)
    simpa [Piece.markup, Piece.shown, Piece.styles, Piece.text] using h
  | code s =>
    have ht : "code".toList ∈ HTML.tags := by decide
    have h := reads_tagged (s := s) ht (by decide) (by decide)
    simpa [Piece.markup, Piece.shown, Piece.styles, Piece.text] using h

theorem toList_markup : (markup ps).toList = ps.flatMap fun p => p.markup.toList := by
  induction ps with
  | nil => rfl
  | cons p ps ih =>
    rw [List.flatMap_cons, ← ih, markup, List.map_cons, String.join_cons, String.toList_append]
    rfl

/-- The markup of pieces is read as these pieces. -/
theorem read_markup : HTML.read (markup ps).toList = some (shown ps) := by
  rw [toList_markup]
  exact (Dialect.Reads.flatten fun p _ => reads_markup_piece p).read

theorem markup_cons {p : Piece} : markup (p :: ps) = p.markup ++ markup ps := String.join_cons

theorem markup_append : markup (ps ++ ps') = markup ps ++ markup ps' := by
  induction ps with
  | nil => exact (String.empty_append (s := markup ps')).symm
  | cons p ps ih => rw [List.cons_append, markup_cons, ih, markup_cons, String.append_assoc]

end

/-! ## Texts that need no escaping -/

/-- The text holds no character of a mark. -/
def Plain (s : String) : Prop := ∀ c ∈ s.toList, Dialect.IsPlain c

-- written out, as the whole library also decides it by going through all characters
instance (s : String) : Decidable (Plain s) := List.decidableBAll Dialect.IsPlain s.toList

section
variable {s s' : String} {n w : Nat} {l : List String}

theorem escapeHtml_of_plain (h : Plain s) : escapeHtml s = s := by
  have hchar : ∀ c ∈ s.toList, escapeChar c = [c] := by
    intro c hc
    obtain ⟨hl, hg, ha⟩ := h c hc
    rw [escapeChar, if_neg ha, if_neg hl, if_neg hg]
  rw [← String.toList_inj, toList_escapeHtml, List.flatMap_congr hchar, List.flatMap_singleton']

theorem Plain.append (h : Plain s) (h' : Plain s') : Plain (s ++ s') := by
  intro c hc
  rw [String.toList_append] at hc
  exact (List.mem_append.1 hc).elim (h c) (h' c)

theorem isPlain_of_isAlphanum {c : Char} (h : c.isAlphanum) : Dialect.IsPlain c := by
  have hne : ∀ mark : Char, mark.isAlphanum = false → c ≠ mark := by
    intro mark hmark hc
    rw [hc, hmark] at h
    cases h
  exact ⟨hne _ (by decide), hne _ (by decide), hne _ (by decide)⟩

theorem plain_of_isAlphanum (h : ∀ c ∈ s.toList, c.isAlphanum) : Plain s :=
  fun c hc => isPlain_of_isAlphanum (h c hc)

theorem plain_nat : Plain (toString n) := by
  intro c hc
  have hd : c.isDigit := Nat.isDigit_of_mem_toDigits (by decide) (by decide)
    (Nat.toList_repr ▸ hc)
  exact isPlain_of_isAlphanum (by simp [Char.isAlphanum, hd])

theorem plain_int {i : Int} : Plain (toString i) := by
  cases i with
  | ofNat n => exact plain_nat
  | negSucc n => exact Plain.append (s := "-") (by decide) (plain_nat (n := n + 1))

theorem Plain.intercalate {sep : String} (hsep : Plain sep) (h : ∀ s ∈ l, Plain s) :
    Plain (sep.intercalate l) := by
  induction l with
  | nil => exact fun c hc => by cases hc
  | cons s l ih =>
    have hl := ih fun x hx => h x (List.mem_cons_of_mem _ hx)
    have hs := h s List.mem_cons_self
    cases l with
    | nil => exact hs
    | cons s' l =>
      rw [String.intercalate_cons_cons]
      exact (hs.append hsep).append hl

theorem isPlain_of_mem_digits {c : Char} (h : c ∈ digits w n) : Dialect.IsPlain c := by
  have hall : ∀ i < 10, Dialect.IsPlain (Nat.digitChar i) := by decide
  induction w generalizing n with
  | zero => cases h
  | succ w ih =>
    rcases List.mem_append.1 h with h | h
    · exact ih h
    · rw [List.mem_singleton.1 h]
      exact hall _ (Nat.mod_lt _ (by decide))

theorem plain_iso (d : Date) : Plain d.toISOString := by
  have hd : ∀ w n, ∀ c ∈ digits w n, Dialect.IsPlain c := fun _ _ _ => isPlain_of_mem_digits
  have hyear : ∀ y, ∀ c ∈ Date.isoYear y, Dialect.IsPlain c := by
    intro y
    unfold Date.isoYear
    split
    · exact List.forall_mem_cons.2 ⟨by split <;> decide, hd 6 _⟩
    · exact hd 4 _
  unfold Plain
  rw [Date.toISOString, String.toList_ofList]
  simp only [Date.isoDay, Date.isoTime, List.forall_mem_append, List.forall_mem_cons]
  exact ⟨⟨⟨hyear _, by decide, hd _ _⟩, by decide, hd _ _⟩, by decide,
    ⟨⟨⟨hd _ _, by decide, hd _ _⟩, by decide, hd _ _⟩, by decide, hd _ _⟩, by decide,
    List.forall_mem_nil _⟩

end

/-! ## What the findings say -/

/-- What a finding is about. -/
inductive Report where
  | authority (expected actual : Option String)
  | unknownFrequency (group : Group) (cluster : Cluster)
  | overdue (group : Group) (hours : Int) (ended : String)
  | failed (check error : String)
  | stateReset

namespace Report

def key : Report → String
  | .authority .. => "upgrade-authority"
  | .unknownFrequency group _ => unsettledKey group.address
  | .overdue group .. => unsettledKey group.address
  | .failed check _ => rpcKey check
  | .stateReset => "state-reset"

def severity : Report → Severity
  | .authority .. => .critical
  | _ => .error

def holder : Option String → Piece
  | none => .plain "none (immutable)"
  | some a => .code a

def label (group : Group) : List Piece :=
  [.plain "Group ", .code group.code, .plain (" (" ++ group.address ++ ")")]

def pieces : Report → List Piece
  | .authority expected actual =>
    [.plain "Upgrade authority is ", holder actual, .plain ", expected ", holder expected, .plain "."]
  | .unknownFrequency group cluster => label group ++
    [.plain (" has frequency " ++ toString group.frequency ++ ", unknown on " ++ cluster.name ++
      "; cannot compute its cycle end.")]
  | .overdue group hours ended => label group ++
    [.plain (" is Active " ++ toString hours ++ " h after its cycle ended (" ++ ended ++
      "). Nobody ran distribute.")]
  | .failed check error => [.plain ("Check " ++ check ++ " failed: " ++ error)]
  | .stateReset => [.plain "The state file was unreadable and was reset. Open findings and failure counts from earlier runs are lost."]

/-- What is written as it is: addresses, names of checks and times. -/
def bare : Report → List String
  | .authority expected actual => expected.toList ++ actual.toList
  | .unknownFrequency group _ => [group.address]
  | .overdue group _ ended => [group.address, ended]
  | .failed check _ => [check]
  | .stateReset => []

/-- A code and an error may be any text. -/
def Valid (r : Report) : Prop := ∀ s ∈ r.bare, Plain s

def finding (r : Report) : Finding := ⟨r.key, r.severity, markup r.pieces⟩

end Report

/-- What is said of a group: that its end cannot be told, or that it is over. -/
inductive Report.About (group : Group) (nowSecs graceSecs : Int) (cluster : Cluster) : Report → Prop
  | unknownFrequency : group.status = STATUS_ACTIVE → cycleEnd group cluster = none →
      About group nowSecs graceSecs cluster (.unknownFrequency group cluster)
  | overdue {end_ : Int} {ended : String} : group.status = STATUS_ACTIVE →
      cycleEnd group cluster = some end_ → graceSecs < nowSecs - end_ → isoFromSecs end_ = .ok ended →
      About group nowSecs graceSecs cluster (.overdue group ((nowSecs - end_).tdiv 3600) ended)

/-- The finding is the markup of one of these reports. -/
def IsReported (said : Report → Prop) (f : Finding) : Prop := ∃ r, said r ∧ f = r.finding

section
variable {s s' : String} {expected actual : Option String} {group : Group} {nowSecs graceSecs : Int}
  {cluster : Cluster} {f : Finding} {r : Report}

theorem Report.plain_key (h : r.Valid) : Plain r.key := by
  cases r with
  | authority => exact (by decide : Plain "upgrade-authority")
  | stateReset => exact (by decide : Plain "state-reset")
  | unknownFrequency => exact Plain.append (s := "unsettled:") (by decide) (h _ (.head _))
  | overdue => exact Plain.append (s := "unsettled:") (by decide) (h _ (.head _))
  | failed => exact Plain.append (s := "rpc:") (by decide) (h _ (.head _))

/-- Text that needs no escaping is written as it is. -/
theorem markup_plain {ps : List Piece} (h : Plain s) : markup (.plain s :: ps) = s ++ markup ps := by
  rw [markup_cons, Piece.markup, escapeHtml_of_plain h]

theorem markup_nil : markup [] = "" := rfl

theorem escapeHtml_append : escapeHtml (s ++ s') = escapeHtml s ++ escapeHtml s' := by
  rw [← String.toList_inj]
  simp only [toList_escapeHtml, String.toList_append, List.flatMap_append]

theorem markup_holder {a : Option String} (h : ∀ x ∈ a, Plain x) : (Report.holder a).markup =
    present a := by
  cases a with
  | none => exact escapeHtml_of_plain (by decide)
  | some a => rw [Report.holder, Piece.markup, escapeHtml_of_plain (h a rfl), present]

theorem mem_evaluateAuthority (he : ∀ a ∈ expected, Plain a) (ha : ∀ a ∈ actual, Plain a) :
    f ∈ evaluateAuthority expected actual ↔
      expected ≠ actual ∧ f = (Report.authority expected actual).finding := by
  unfold evaluateAuthority
  split
  · rename_i heq
    exact iff_of_false List.not_mem_nil fun h => h.1 heq
  · rename_i hne
    rw [and_iff_right hne, List.mem_singleton, Report.finding, Report.pieces,
      markup_plain (by decide), markup_cons, markup_holder ha, markup_plain (by decide), markup_cons,
      markup_holder he, markup_plain (by decide), markup_nil]
    simp only [String.append_assoc, String.append_empty]
    rfl

/-- What is said of a group, after its label. -/
theorem markup_label (h : Plain group.address) (hs : Plain s) :
    markup (Report.label group ++ [.plain s]) = "Group <code>" ++ escapeHtml group.code ++
      "</code> (" ++ group.address ++ ")" ++ s := by
  have hplain : Plain (" (" ++ group.address ++ ")") :=
    (Plain.append (by decide) h).append (by decide)
  have hopen : "Group " ++ ("<code>" ++ "") = "Group <code>" := by decide
  have hclose : "</code>" ++ (" (" ++ "") = "</code> (" := by decide
  rw [Report.label, List.cons_append, List.cons_append, List.singleton_append,
    markup_plain (by decide), markup_cons, Piece.markup, markup_plain hplain, markup_plain hs,
    markup_nil, ← hopen, ← hclose]
  simp only [String.append_assoc, String.append_empty]

theorem plain_isoFromSecs {secs : Int} {ended : String} (h : isoFromSecs secs = .ok ended) :
    Plain ended := by
  unfold isoFromSecs at h
  obtain ⟨date, -, hdate⟩ := bind_eq_ok.1 h
  rw [← Except.ok.inj hdate]
  exact plain_iso date

theorem Report.About.valid (h : Plain group.address)
    (hr : r.About group nowSecs graceSecs cluster) : r.Valid := by
  cases hr with
  | unknownFrequency => exact List.forall_mem_singleton.2 h
  | overdue _ _ _ hended =>
    exact List.forall_mem_cons.2 ⟨h, List.forall_mem_singleton.2 (plain_isoFromSecs hended)⟩

theorem evaluateGroup_reported (h : Plain group.address)
    (hf : evaluateGroup group nowSecs graceSecs cluster = .ok (some f)) :
    IsReported (Report.About group nowSecs graceSecs cluster) f := by
  have hcluster : Plain cluster.name := by cases cluster <;> decide
  unfold evaluateGroup at hf
  split at hf
  · cases hf
  rename_i hstatus
  have hactive := not_not.1 hstatus
  split at hf
  · rename_i hnone
    obtain rfl := Option.some.inj (Except.ok.inj hf)
    refine ⟨_, .unknownFrequency hactive hnone, ?_⟩
    have hrest : Plain (" has frequency " ++ toString group.frequency ++ ", unknown on " ++
        cluster.name ++ "; cannot compute its cycle end.") :=
      ((((Plain.append (by decide) plain_nat).append (by decide)).append hcluster).append
        (by decide))
    rw [Report.finding, Report.pieces, markup_label h hrest]
    simp only [String.append_assoc]
    rfl
  · rename_i end_ hend
    dsimp only at hf
    split at hf
    · cases hf
    rename_i hover
    rw [bind_eq_ok] at hf
    obtain ⟨ended, hended, hf⟩ := hf
    obtain rfl := Option.some.inj (Except.ok.inj hf)
    refine ⟨_, .overdue hactive hend (Int.not_le.1 hover) hended, ?_⟩
    have hrest : Plain (" is Active " ++ toString ((nowSecs - end_).tdiv 3600) ++
        " h after its cycle ended (" ++ ended ++ "). Nobody ran distribute.") :=
      ((((Plain.append (by decide) plain_int).append (by decide)).append
        (plain_isoFromSecs hended)).append (by decide))
    rw [Report.finding, Report.pieces, markup_label h hrest]
    simp only [String.append_assoc]
    rfl

theorem evaluateGroups_reported {groups : List Group} {findings : List Finding}
    (h : ∀ group ∈ groups, Plain group.address)
    (hf : evaluateGroups groups nowSecs graceSecs cluster = .ok findings) :
    ∀ f ∈ findings, ∃ group ∈ groups, IsReported (Report.About group nowSecs graceSecs cluster) f := by
  induction groups generalizing findings with
  | nil =>
    obtain rfl := Except.ok.inj hf
    exact fun f hf => by cases hf
  | cons group groups ih =>
    simp only [evaluateGroups, bind_eq_ok, pure_eq_ok] at hf
    obtain ⟨found, hfound, rest, hrest, rfl⟩ := hf
    intro f hf
    rcases List.mem_append.1 hf with hf | hf
    · obtain rfl := Option.mem_toList.1 hf
      exact ⟨group, List.mem_cons_self, evaluateGroup_reported (h group List.mem_cons_self) hfound⟩
    · obtain ⟨g, hg, hreported⟩ := ih (fun g hg => h g (List.mem_cons_of_mem _ hg)) hrest f hf
      exact ⟨g, List.mem_cons_of_mem _ hg, hreported⟩

theorem eq_finding_of_mem_rpcFindings {check error : String} {n t : Nat} (h : Plain check)
    (hf : f ∈ rpcFindings check error n t) : f = (Report.failed check error).finding := by
  obtain ⟨-, rfl⟩ := mem_rpcFindings.1 hf
  have hplain : Plain ("Check " ++ check ++ " failed: ") :=
    (Plain.append (by decide) h).append (by decide)
  rw [Report.finding, Report.pieces, markup_cons, markup_nil, Piece.markup, escapeHtml_append,
    escapeHtml_of_plain hplain, String.append_empty]
  rfl

end

/-! ## Open findings and messages -/

/-- What a check says is the markup of such reports. -/
def CheckResult.Reported (said : Report → Prop) : CheckResult → Prop
  | .error check e => said (.failed check e)
  | .findings _ fs => ∀ f ∈ fs, IsReported said f

/-- What is open is the markup of such reports, each under its key. -/
def State.Reported (said : Report → Prop) (s : State) : Prop :=
  ∀ k x, s.openFindings.get? k = some x → x.key = k ∧ IsReported said x.toFinding

/-- The pieces of a message: what was opened is of this run, what was resolved of an earlier one. -/
inductive Displays (today : String) (now before : Report → Prop) : Message → List Piece → Prop where
  | opened {r : Report} : now r → Displays today now before
      (.opened r.key r.severity (markup r.pieces))
      (.plain (ICON r.severity ++ " ") :: .bold r.key :: .plain (" · " ++ r.severity.name ++ "\n") ::
        r.pieces)
  | resolved {r : Report} : before r → Displays today now before (.resolved r.key)
      [.plain "✓ resolved: ", .bold r.key]
  | heartbeat {keys : List String} : (∀ k ∈ keys, ∃ r, (now r ∨ before r) ∧ k = r.key) →
      Displays today now before (.heartbeat today keys) [.plain (Message.heartbeat today keys).text]

section
variable {prev : State} {results : List CheckResult} {date : Date} {t : Nat} {m : Message}
  {ps : List Piece} {keys : List String} {said now before : Report → Prop}

theorem stateReset_reported (h : said .stateReset) : STATE_RESET_RESULT.Reported said := by
  intro f hf
  rw [List.mem_singleton.1 hf]
  refine ⟨.stateReset, h, ?_⟩
  rw [Report.finding, Report.pieces, markup_plain (by decide +kernel), markup_nil,
    String.append_empty]
  rfl

/-- What a result puts under a key is of this run, or was open under it before. -/
theorem assigned_reported {r : CheckResult} (hnow : ∀ r, now r → r.Valid)
    (hprev : prev.Reported before) (hr : r.Reported now) {k : String} {f : Finding}
    (h : (k, f) ∈ assigned prev t r) : f.key = k ∧
      (IsReported now f ∨ (prev.openFindings.get? k).isSome ∧ IsReported before f) := by
  cases r with
  | error check error =>
    rcases List.mem_append.1 h with h | h
    · obtain ⟨⟨k', x⟩, hx, he⟩ := List.mem_map.1 h
      obtain ⟨rfl, rfl⟩ := Prod.mk.inj he
      have hx := prev.openFindings.mem_entries.1 (List.mem_filter.1 hx).1
      obtain ⟨hk, hbefore⟩ := hprev _ x hx
      exact ⟨hk, .inr ⟨Option.isSome_of_eq_some hx, hbefore⟩⟩
    · obtain ⟨f', hf', he⟩ := List.mem_map.1 h
      obtain ⟨rfl, rfl⟩ := Prod.mk.inj he
      have hcheck : Plain check := hnow _ hr check (.head _)
      exact ⟨rfl, .inl ⟨_, hr, eq_finding_of_mem_rpcFindings hcheck hf'⟩⟩
  | findings check findings =>
    obtain ⟨f', hf', he⟩ := List.mem_map.1 h
    obtain ⟨rfl, rfl⟩ := Prod.mk.inj he
    exact ⟨rfl, .inl (hr _ hf')⟩

/-- What is open after a step is of this run, or was open before. -/
theorem step_reported (hnow : ∀ r, now r → r.Valid) (hprev : prev.Reported before)
    (hr : ∀ r ∈ results, r.Reported now) {k : String} {x : OpenFinding}
    (hx : (step prev results date t).2.openFindings.get? k = some x) : x.key = k ∧
      (IsReported now x.toFinding ∨
        (prev.openFindings.get? k).isSome ∧ IsReported before x.toFinding) := by
  have h := @get?_openFindings_step prev results date t k
  rw [hx, Option.map_some] at h
  obtain ⟨l₁, l₂, hl, -⟩ := List.lookup_eq_some_iff.1 h.symm
  have hmem : (k, x.toFinding) ∈ results.flatMap (assigned prev t) := by
    rw [← List.mem_reverse, hl]
    exact List.mem_append_right _ List.mem_cons_self
  obtain ⟨r, hrm, hkr⟩ := List.mem_flatMap.1 hmem
  exact assigned_reported hnow hprev (hr r hrm) hkr

theorem State.Reported.step (hnow : ∀ r, now r → r.Valid) (hprev : prev.Reported before)
    (hr : ∀ r ∈ results, r.Reported now) :
    (step prev results date t).2.Reported fun r => now r ∨ before r := by
  intro k x hx
  obtain ⟨hk, h⟩ := step_reported hnow hprev hr hx
  refine ⟨hk, ?_⟩
  rcases h with ⟨r, hr, hf⟩ | ⟨-, r, hr, hf⟩
  · exact ⟨r, .inl hr, hf⟩
  · exact ⟨r, .inr hr, hf⟩

theorem State.Reported.mono {s : State} (hs : s.Reported said) (h : ∀ r, said r → now r) :
    s.Reported now := by
  intro k x hx
  obtain ⟨hk, r, hr, hf⟩ := hs k x hx
  exact ⟨hk, r, h r hr, hf⟩

theorem plain_today : Plain (today date) := by
  intro c hc
  rw [today, String.toList_ofList] at hc
  exact plain_iso date c (List.mem_of_mem_take hc)

theorem plain_heartbeat (h : ∀ k ∈ keys, Plain k) :
    Plain (Message.heartbeat (today date) keys).text := by
  cases keys with
  | nil => exact ((Plain.append (by decide) plain_today).append (by decide))
  | cons k keys =>
    have hlines : Plain ("\n".intercalate ((k :: keys).map fun k => "• " ++ k)) := by
      refine .intercalate (by decide) fun s hs => ?_
      obtain ⟨k', hk', rfl⟩ := List.mem_map.1 hs
      exact Plain.append (by decide) (h k' hk')
    exact (((((Plain.append (by decide) plain_today).append (by decide)).append plain_nat).append
      (by decide)).append hlines)

theorem plain_icon {severity : Severity} : Plain (ICON severity ++ " ") := by
  cases severity <;> decide

theorem plain_severity {severity : Severity} : Plain (" · " ++ severity.name ++ "\n") := by
  cases severity <;> decide

/-- A message is the markup of its pieces. -/
theorem Displays.text_eq (hnow : ∀ r, now r → r.Valid) (hbefore : ∀ r, before r → r.Valid)
    (h : Displays (today date) now before m ps) : m.text = markup ps := by
  cases h with
  | opened hr =>
    have hopen : " " ++ "<b>" = " <b>" := by decide
    have hclose : "</b>" ++ " · " = "</b> · " := by decide
    rw [markup_plain plain_icon, markup_cons, Piece.markup,
      escapeHtml_of_plain (Report.plain_key (hnow _ hr)), markup_plain plain_severity]
    unfold Message.text
    rw [← hopen, ← hclose]
    simp only [String.append_assoc]
  | resolved hr =>
    have hopen : "✓ resolved: " ++ "<b>" = "✓ resolved: <b>" := by decide
    rw [markup_plain (by decide), markup_cons, Piece.markup,
      escapeHtml_of_plain (Report.plain_key (hbefore _ hr)), markup_nil]
    unfold Message.text
    rw [← hopen]
    simp only [String.append_assoc, String.append_empty]
  | @heartbeat keys hkeys =>
    have hplain : ∀ k ∈ keys, Plain k := by
      intro k hk
      obtain ⟨r, hr, rfl⟩ := hkeys k hk
      exact Report.plain_key (hr.elim (hnow r) (hbefore r))
    rw [markup_plain (plain_heartbeat hplain), markup_nil, String.append_empty]

theorem IsReported.report {x : OpenFinding} {k : String} (hk : x.key = k)
    (h : IsReported said x.toFinding) : ∃ r : Report, said r ∧ k = r.key ∧
      x.severity = r.severity ∧ x.text = markup r.pieces := by
  obtain ⟨r, hr, hf⟩ := h
  exact ⟨r, hr, hk ▸ congrArg Finding.key hf, congrArg Finding.severity hf,
    congrArg Finding.text hf⟩

/-- A message of a step displays what the run or an earlier one reported. -/
theorem displays_of_mem (hnow : ∀ r, now r → r.Valid) (hprev : prev.Reported before)
    (hr : ∀ r ∈ results, r.Reported now) (hm : m ∈ (step prev results date t).1) :
    ∃ ps, Displays (today date) now before m ps := by
  have hnext : (step prev results date t).2.Reported fun r => now r ∨ before r := hprev.step hnow hr
  rw [messages_step, List.mem_append] at hm
  rcases hm with hm | hm
  · rcases List.mem_append.1 hm with hm | hm
    · -- a new key was not open, so its finding is one of this run
      obtain ⟨⟨k, x⟩, hx, rfl⟩ := List.mem_map.1 hm
      obtain ⟨hmem, hnew⟩ := List.mem_filter.1 hx
      obtain ⟨hk, hx⟩ := step_reported hnow hprev hr (Record.mem_entries.1 hmem)
      have hnone : ¬(prev.openFindings.get? k).isSome := by
        intro hsome
        simp [Record.has, hsome] at hnew
      obtain ⟨r, hr, rfl, hseverity, htext⟩ := (hx.resolve_right fun h => hnone h.1).report hk
      dsimp only
      rw [hseverity, htext]
      exact ⟨_, .opened hr⟩
    · obtain ⟨k, hk, rfl⟩ := List.mem_map.1 hm
      obtain ⟨x, hx⟩ := Option.isSome_iff_exists.1
        (Record.mem_keys.1 (List.mem_filter.1 hk).1)
      obtain ⟨hkey, hx⟩ := hprev k x hx
      obtain ⟨r, hr, rfl, -⟩ := hx.report hkey
      exact ⟨_, .resolved hr⟩
  · split at hm
    · rw [List.mem_singleton.1 hm]
      refine ⟨_, .heartbeat fun k hk => ?_⟩
      obtain ⟨x, hx⟩ := Option.isSome_iff_exists.1 (Record.mem_keys.1 hk)
      obtain ⟨hkey, hx⟩ := hnext k x hx
      obtain ⟨r, hr, he, -⟩ := hx.report hkey
      exact ⟨r, hr, he⟩
    · cases hm

/-! ## Chunks -/

/-- Several messages in one text, as `chunk` joins them. -/
theorem joined_eq_markup {c : List Message} {pss : List (List Piece)}
    (h : List.Forall₂ (fun m ps => m.text = markup ps) c pss) :
    joined c = markup ([Piece.plain "\n\n"].intercalate pss) := by
  induction h with
  | nil => rfl
  | @cons m ps c pss hm hc ih =>
    cases hc with
    | nil =>
      rw [joined, List.map_cons, List.map_nil, String.intercalate_singleton,
        List.intercalate_singleton, hm]
    | @cons m' ps' c pss hm' hc =>
      rw [joined, List.map_cons] at ih
      rw [joined, List.map_cons, List.map_cons, String.intercalate_cons_cons, ih,
        List.intercalate_cons_cons, List.append_assoc, markup_append, List.singleton_append,
        markup_plain (by decide), hm, String.append_assoc]

end

/-! ## Runs -/

/-- A run with what its checks start from. -/
structure CheckedRun (K : Type) where
  conn : Connection K
  config : CheckConfig K
  nowSecs : Int
  secrets : List String
  now : Date
  failuresBeforeAlert : Nat
  answers : Answers

/-- Its results are those of its checks. -/
def CheckedRun.toMainRun {K : Type} (W : Web3 K) (r : CheckedRun K) : MainRun where
  results := (runChecks W r.conn r.config r.nowSecs r.secrets).2
  now := r.now
  failuresBeforeAlert := r.failuresBeforeAlert
  answers := r.answers

section
variable {K : Type} {W : Web3 K} {start file : StateFile} {h older : List (CheckedRun K)}
  {r : CheckedRun K} {report : Report}

/-- The node has the account of the group. -/
def CheckedRun.Finds (W : Web3 K) (r : CheckedRun K) (group : Group) : Prop :=
  ∃ accounts, r.conn.getProgramAccounts r.config.programId unsettledGroupsFilters = .ok accounts ∧
    ∃ a ∈ accounts, decodeGroup (W.toBase58 a.1) a.2 = .ok group

/-- What a run on a state file has to report. -/
inductive CheckedRun.Says (W : Web3 K) (r : CheckedRun K) (file : StateFile) : Report → Prop where
  | authority {actual : Option String} : upgradeAuthority W r.conn r.config.programId = .ok actual →
      r.config.expectedAuthority ≠ actual →
        Says W r file (.authority r.config.expectedAuthority actual)
  | group {group : Group} {report : Report} : r.Finds W group →
      report.About group r.nowSecs r.config.graceSecs r.config.cluster → Says W r file report
  | failed {check : String} {run : Check K} {e : String} : (check, run) ∈ CHECKS W →
      (run r.conn r.config r.nowSecs).2 = .error e →
        Says W r file (.failed check (redacted e r.secrets))
  | stateReset : (readState file).2 = true → Says W r file .stateReset

/-- An expected authority was read from a key. -/
def CheckedRun.ExpectsKey (W : Web3 K) (r : CheckedRun K) : Prop :=
  ∀ a ∈ r.config.expectedAuthority, ∃ k, a = W.toBase58 k

/-- The state file after runs, newest first. -/
def fileAfter (W : Web3 K) (start : StateFile) (h : List (CheckedRun K)) : StateFile :=
  (worldAfter start (h.map (CheckedRun.toMainRun W))).file

/-- What one of the runs had to report. -/
def Said (W : Web3 K) (start : StateFile) (h : List (CheckedRun K)) (report : Report) : Prop :=
  ∃ r older, r :: older <:+ h ∧ r.Says W (fileAfter W start older) report

theorem Web3.Lawful.plain (hW : W.Lawful) (k : K) : Plain (W.toBase58 k) :=
  plain_of_isAlphanum fun _ hc => hW.isAlphanum hc

theorem CheckedRun.ExpectsKey.plain (hW : W.Lawful) (he : r.ExpectsKey W) :
    ∀ a ∈ r.config.expectedAuthority, Plain a := by
  intro a ha
  obtain ⟨k, rfl⟩ := he a ha
  exact hW.plain k

theorem plain_upgradeAuthority (hW : W.Lawful) {conn : Connection K} {programId : K}
    {actual : Option String} (h : upgradeAuthority W conn programId = .ok actual) :
    ∀ a ∈ actual, Plain a := by
  simp only [upgradeAuthority, bind_eq_ok, pure_eq_ok] at h
  obtain ⟨-, -, -, -, -, -, -, -, -, -, -, -, authority, -, rfl⟩ := h
  intro a ha
  obtain ⟨bytes, -, rfl⟩ := Option.map_eq_some_iff.1 ha
  exact hW.plain _

theorem plain_address (hW : W.Lawful) {pubkey : K} {data : List UInt8} {group : Group}
    (h : decodeGroup (W.toBase58 pubkey) data = .ok group) : Plain group.address :=
  decodeGroup_address h ▸ hW.plain pubkey

/-- What a run reports can be told in plain keys. -/
theorem CheckedRun.Says.valid (hW : W.Lawful) (he : r.ExpectsKey W) (h : r.Says W file report) :
    report.Valid := by
  cases h with
  | authority hactual _ =>
    intro s hs
    rcases List.mem_append.1 hs with hs | hs
    · exact he.plain hW s (Option.mem_toList.1 hs)
    · exact plain_upgradeAuthority hW hactual s (Option.mem_toList.1 hs)
  | group hfinds habout =>
    obtain ⟨_, -, a, -, ha⟩ := hfinds
    exact habout.valid (plain_address hW ha)
  | @failed check run e hcheck _ =>
    have hplain : Plain check := by
      rcases List.mem_cons.1 hcheck with hcheck | hcheck
      · rw [(Prod.mk.inj hcheck).1]
        decide
      · rw [(Prod.mk.inj (List.mem_singleton.1 hcheck)).1]
        decide
    exact List.forall_mem_singleton.2 hplain
  | stateReset _ => exact List.forall_mem_nil _

theorem checkUpgradeAuthority_reported (hW : W.Lawful) (he : r.ExpectsKey W) {fs : List Finding}
    (hf : (checkUpgradeAuthority W r.conn r.config r.nowSecs).2 = .ok fs) :
    ∀ f ∈ fs, IsReported (r.Says W file) f := by
  obtain ⟨actual, hactual, rfl⟩ := checkUpgradeAuthority_eq_ok.1 hf
  intro f hf
  obtain ⟨hne, rfl⟩ :=
    (mem_evaluateAuthority (he.plain hW) (plain_upgradeAuthority hW hactual)).1 hf
  exact ⟨_, .authority hactual hne, rfl⟩

theorem checkUnsettledGroups_reported (hW : W.Lawful) {fs : List Finding}
    (hf : (checkUnsettledGroups W r.conn r.config r.nowSecs).2 = .ok fs) :
    ∀ f ∈ fs, IsReported (r.Says W file) f := by
  obtain ⟨groups, hgroups, hfs⟩ := checkUnsettledGroups_eq_ok.1 hf
  simp only [activeGroups, bind_eq_ok, thrown_eq_ok] at hgroups
  obtain ⟨accounts, haccounts, hgroups⟩ := hgroups
  have hfinds : ∀ group ∈ groups, r.Finds W group := by
    intro group hg
    obtain ⟨a, ha, hdecode⟩ := mem_of_mapM_eq_ok hgroups hg
    exact ⟨accounts, haccounts, a, ha, hdecode⟩
  have hplain : ∀ group ∈ groups, Plain group.address := by
    intro group hg
    obtain ⟨_, -, a, -, ha⟩ := hfinds group hg
    exact plain_address hW ha
  intro f hf'
  obtain ⟨group, hg, report, habout, rfl⟩ := evaluateGroups_reported hplain hfs f hf'
  exact ⟨report, .group (hfinds group hg) habout, rfl⟩

/-- A round of the loop over the checks. -/
theorem runCheck_reported {check : String} {run : Check K} (hcheck : (check, run) ∈ CHECKS W)
    (h : ∀ fs, (run r.conn r.config r.nowSecs).2 = .ok fs →
      ∀ f ∈ fs, IsReported (r.Says W file) f) :
    (runCheck r.conn r.config r.nowSecs r.secrets (check, run)).2.Reported (r.Says W file) := by
  rcases runCheck_cases r.conn r.config r.nowSecs r.secrets check run with
    ⟨fs, hok, hresult⟩ | ⟨e, herr, hresult⟩
  · rw [hresult]
    exact h fs hok
  · rw [hresult]
    exact .failed hcheck herr

theorem runChecks_reported (hW : W.Lawful) (he : r.ExpectsKey W) :
    ∀ x ∈ (r.toMainRun W).results, x.Reported (r.Says W file) := by
  intro x hx
  rw [CheckedRun.toMainRun, runChecks, List.map_map] at hx
  obtain ⟨⟨check, run⟩, hcheck, rfl⟩ := List.mem_map.1 hx
  apply runCheck_reported hcheck
  rcases List.mem_cons.1 hcheck with hc | hc
  · rw [(Prod.mk.inj hc).2]
    exact fun _ => checkUpgradeAuthority_reported hW he
  · rw [(Prod.mk.inj (List.mem_singleton.1 hc)).2]
    exact fun _ => checkUnsettledGroups_reported hW

/-- The results of a run on a state file, the reset among them. -/
theorem MainRun.step_eq (r : MainRun) (file : StateFile) : r.step file =
    Watchdog.step (readState file).1
      (if (readState file).2 then r.results ++ [STATE_RESET_RESULT] else r.results) r.now
      r.failuresBeforeAlert :=
  rfl

theorem results_reported (hW : W.Lawful) (he : r.ExpectsKey W) :
    ∀ x ∈ if (readState file).2 then (r.toMainRun W).results ++ [STATE_RESET_RESULT]
      else (r.toMainRun W).results, x.Reported (r.Says W file) := by
  intro x hx
  split at hx
  · rename_i hreset
    rcases List.mem_append.1 hx with hx | hx
    · exact runChecks_reported hW he x hx
    · rw [List.mem_singleton.1 hx]
      exact stateReset_reported (.stateReset hreset)
  · exact runChecks_reported hW he x hx

theorem readState_reported {said : Report → Prop} (hfile : ∀ s, file = .state s → s.Reported said) :
    (readState file).1.Reported said := by
  cases file with
  | state s => exact hfile s rfl
  | missing | unreadable =>
    intro k x hx
    cases hx

/-- The state a run is to store holds what it reports and what the file held. -/
theorem CheckedRun.step_reported {before : Report → Prop} (hW : W.Lawful) (he : r.ExpectsKey W)
    (hfile : ∀ s, file = .state s → s.Reported before) :
    ((r.toMainRun W).step file).2.Reported fun report => r.Says W file report ∨ before report := by
  rw [MainRun.step_eq]
  exact (readState_reported hfile).step (fun _ => CheckedRun.Says.valid hW he)
    (results_reported hW he)

/-- A state file that runs wrote holds what they reported. -/
theorem fileAfter_reported (hW : W.Lawful) (hstart : ∀ s, start ≠ .state s)
    (hh : ∀ r ∈ h, r.ExpectsKey W) :
    ∀ s, fileAfter W start h = .state s → s.Reported (Said W start h) := by
  induction h with
  | nil => exact fun s hs => absurd hs (hstart s)
  | cons r h ih =>
    obtain ⟨hr, hh⟩ := List.forall_mem_cons.1 hh
    have ih := ih hh
    have hbefore : ∀ report, Said W start h report → Said W start (r :: h) report := by
      intro report hold
      obtain ⟨r', older, hsuffix, hrun⟩ := hold
      exact ⟨r', older, hsuffix.trans (List.suffix_cons _ _), hrun⟩
    have hnow : ∀ report, r.Says W (fileAfter W start h) report →
        Said W start (r :: h) report := fun report hrun => ⟨r, h, List.suffix_rfl, hrun⟩
    intro s hs
    rcases @main_file (fileAfter W start h) (r.toMainRun W) with hfile | hfile
    · exact (ih s (hfile ▸ hs)).mono hbefore
    · obtain rfl := StateFile.state.inj (hfile.symm.trans hs)
      exact (CheckedRun.step_reported hW hr ih).mono fun report hsaid =>
        hsaid.elim (hnow report) (hbefore report)

theorem Said.valid (hW : W.Lawful) (hh : ∀ r ∈ h, r.ExpectsKey W) (hs : Said W start h report) :
    report.Valid := by
  obtain ⟨r, older, hsuffix, hsaid⟩ := hs
  exact hsaid.valid hW (hh r (hsuffix.subset List.mem_cons_self))

theorem configText_eq_markup {errors : List String} : configText errors =
    markup [.plain ("🔴 watchdog config invalid: " ++ "; ".intercalate errors)] := by
  have hplain : Plain "🔴 watchdog config invalid: " := by decide
  rw [markup_cons, markup_nil, Piece.markup, escapeHtml_append, String.append_empty]
  exact congrArg (· ++ escapeHtml ("; ".intercalate errors)) (escapeHtml_of_plain hplain).symm

/-- Over any runs of the watchdog that begin without a state file, or with one that is reset, every
text sent to Telegram is well-formed HTML, and a reader sees exactly the pieces of its messages: of
one that opens a finding what this run has to report, the code of the group, the authority or the
redacted error it got; of another the keys of what this or an earlier run had to report. They are
displayed as they are and not read as markup. So is the text of an invalid configuration. -/
theorem texts_displayed (hW : W.Lawful) (hstart : ∀ s, start ≠ .state s)
    (hh : ∀ r ∈ h, r.ExpectsKey W) :
    (∀ r older, r :: older <:+ h →
      ∀ c ∈ chunkMessages ((r.toMainRun W).step (fileAfter W start older)).1,
        ∃ pss, List.Forall₂ (Displays (today r.now) (r.Says W (fileAfter W start older))
            (Said W start older)) c pss ∧
          HTML.read (joined c).toList = some (shown ([Piece.plain "\n\n"].intercalate pss))) ∧
    ∀ errors, HTML.read (configText errors).toList =
      some (shown [.plain ("🔴 watchdog config invalid: " ++ "; ".intercalate errors)]) := by
  refine ⟨fun r older hr c hc => ?_, fun errors => ?_⟩
  · have hmem : ∀ x ∈ r :: older, x ∈ h := fun x hx => hr.subset hx
    have hexpects := hh r (hmem r List.mem_cons_self)
    have holder : ∀ x ∈ older, x.ExpectsKey W := fun x hx => hh x (hmem x (.tail _ hx))
    have hmessages : ∀ m ∈ c, ∃ ps, Displays (today r.now) (r.Says W (fileAfter W start older))
        (Said W start older) m ps := by
      intro m hm
      have hsent : m ∈ ((r.toMainRun W).step (fileAfter W start older)).1 := by
        rw [← @flatten_chunkMessages ((r.toMainRun W).step (fileAfter W start older)).1]
        exact List.mem_flatten.2 ⟨c, hc, hm⟩
      rw [MainRun.step_eq] at hsent
      exact displays_of_mem (fun _ => CheckedRun.Says.valid hW hexpects)
        (readState_reported (fileAfter_reported hW hstart holder))
        (results_reported hW hexpects) hsent
    obtain ⟨pss, hpss⟩ := exists_forall₂ hmessages
    have htexts := hpss.imp fun m ps hm =>
      hm.text_eq (fun _ => CheckedRun.Says.valid hW hexpects) fun _ => Said.valid hW holder
    exact ⟨pss, hpss, joined_eq_markup htexts ▸ read_markup⟩
  · rw [configText_eq_markup]
    exact read_markup

end

/-! ## Runs that report markup -/

namespace Demo

/-- The data of an active group of an unknown frequency whose code is markup. -/
def hostileGroup : List UInt8 :=
  GROUP_DISCRIMINATOR ++ .replicate 120 0 ++ [9, 0, 0, 0, 1] ++ .replicate 75 0 ++ [4, 0, 0, 0] ++
    Utf8.encode "<b>x"

/-- A node that answers with markup. -/
def hostile : Connection (Vector UInt8 32) where
  getAccountInfo _ := .error "<b>down"
  getProgramAccounts _ _ := .ok [(.replicate 32 7, hostileGroup)]
  rangeError := ""

def hostileRun : CheckedRun (Vector UInt8 32) where
  conn := hostile
  config := ⟨.replicate 32 7, none, .devnet, 86400⟩
  nowSecs := 0
  secrets := []
  now := ⟨0, by decide⟩
  failuresBeforeAlert := 1
  answers := ⟨fun _ => .ok, true⟩

/-- The group is gone on the next day. -/
def emptiedRun : CheckedRun (Vector UInt8 32) :=
  { hostileRun with
    conn := { hostile with getProgramAccounts := fun _ _ => .ok [] }
    nowSecs := 86400
    now := ⟨86400000, by decide⟩ }

end Demo

theorem texts_displayed_hostile :
    ((Demo.hostileRun.toMainRun base58).step .missing).1 =
      [.opened "rpc:upgrade-authority" .error "Check upgrade-authority failed: &lt;b&gt;down",
        .opened "unsettled:US517G5965aydkZ46HS38QLi7UQiSojurfbQfKCELFx" .error
          "Group <code>&lt;b&gt;x</code> (US517G5965aydkZ46HS38QLi7UQiSojurfbQfKCELFx) has frequency 9, unknown on devnet; cannot compute its cycle end.",
        .heartbeat "1970-01-01"
          ["rpc:upgrade-authority", "unsettled:US517G5965aydkZ46HS38QLi7UQiSojurfbQfKCELFx"]] ∧
    ∀ r older, r :: older <:+ [Demo.emptiedRun, Demo.hostileRun] →
      ∀ c ∈ chunkMessages ((r.toMainRun base58).step (fileAfter base58 .missing older)).1,
        ∃ pss, List.Forall₂ (Displays (today r.now) (r.Says base58 (fileAfter base58 .missing older))
            (Said base58 .missing older)) c pss ∧
          HTML.read (joined c).toList = some (shown ([Piece.plain "\n\n"].intercalate pss)) := by
  have hexpects : ∀ r ∈ [Demo.emptiedRun, Demo.hostileRun], r.ExpectsKey base58 := by
    intro r hr a ha
    rcases List.mem_cons.1 hr with rfl | hr
    · cases ha
    · rw [List.mem_singleton.1 hr] at ha
      cases ha
  have hmissing : ∀ s, StateFile.missing ≠ .state s := fun s hs => by cases hs
  exact ⟨by decide +kernel, (texts_displayed base58_lawful hmissing hexpects).1⟩

end SafeNudge.Watchdog
