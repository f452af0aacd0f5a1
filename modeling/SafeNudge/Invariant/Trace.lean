import SafeNudge.Invariant.Run

/-!
# What one step does to an account

The history of a run is read through a few kinds of calls: `creates`, `closes`, `gates`, `joins`
and `closesTally`. For each account type one lemma says which of them can make an account appear,
change or disappear (`Step.group`, `Step.recordStep`, `Effect.gateStep`, `Effect.tallyStep`); every
statement about the past of an account is an induction over the run with these.
-/

namespace SafeNudge

open Lib Function

variable {K : Type}

/-! ## Kinds of calls -/

def Call.creates (G : K) : Call K → Prop
  | .createGroup a .. => a.groupConfig = G
  | _ => False

def Call.closes (G : K) : Call K → Prop
  | .closeGroup a => a.groupConfig = G
  | _ => False

def Call.gates (G : K) : Call K → Prop
  | .setJoinAuthority a _ => a.groupConfig = G
  | _ => False

def Call.joins (G M : K) : Call K → Prop
  | .joinGroup a .. => a.groupConfig = G ∧ a.member = M
  | _ => False

/-- Names the record slot at `k`. -/
def Call.namesRecord (k : K) : Call K → Prop
  | .joinGroup a .. => a.memberRecord = k
  | .leaveGroup a => a.memberRecord = k
  | .deposit a => a.memberRecord = k
  | .closeMemberRecord a => a.memberRecord = k
  | _ => False

def Call.closesTally (k : K) : Call K → Prop
  | .closeJoinTally a _ => a.joinTally = k
  | _ => False

instance [DecidableEq K] (G : K) : DecidablePred (Call.creates G)
  | .createGroup a .. => inferInstanceAs (Decidable (a.groupConfig = G))
  | .joinGroup .. | .leaveGroup _ | .startCycle _ | .deposit _ | .distribute .. |
    .emergencyCancel .. | .refundVaultRent _ | .closeMemberRecord _ | .closeGroup _ |
    .closeJoinTally .. | .setJoinAuthority .. => inferInstanceAs (Decidable False)

instance [DecidableEq K] (G M : K) : DecidablePred (Call.joins G M)
  | .joinGroup a .. => inferInstanceAs (Decidable (a.groupConfig = G ∧ a.member = M))
  | .createGroup .. | .leaveGroup _ | .startCycle _ | .deposit _ | .distribute .. |
    .emergencyCancel .. | .refundVaultRent _ | .closeMemberRecord _ | .closeGroup _ |
    .closeJoinTally .. | .setJoinAuthority .. => inferInstanceAs (Decidable False)

/-- The action is a call with `p`. -/
def Action.Is (p : Call K → Prop) : Action K → Prop
  | .call _ c _ => p c
  | .outside => False

instance (p : Call K → Prop) [DecidablePred p] : DecidablePred (Action.Is p) := fun a => by
  cases a <;> dsimp only [Action.Is] <;> infer_instance

/-- The entry records a call with `p`. -/
def Did (p : Call K → Prop) (e : StepEntry K) : Prop := e.act.Is p

instance (p : Call K → Prop) [DecidablePred p] : DecidablePred (Did p) := fun e =>
  inferInstanceAs (Decidable (e.act.Is p))

/-! ## What stays of an account that changes -/

/-- The fields of a group that no instruction changes. -/
def GroupConfig.SameInstance (g g' : GroupConfig K) : Prop :=
  g' = { g with
    cycleStart := g'.cycleStart
    settledAt := g'.settledAt
    currentMembers := g'.currentMembers
    status := g'.status }

/-- The fields of a record that no instruction changes. -/
def MemberRecord.SameMember (r r' : MemberRecord K) : Prop :=
  r' = { r with
    totalDeposited := r'.totalDeposited
    depositsMade := r'.depositsMade
    periodsDeposited := r'.periodsDeposited }

namespace GroupConfig.SameInstance

variable {g g' g'' : GroupConfig K}

theorem refl (g : GroupConfig K) : g.SameInstance g := rfl

theorem terms (h : g.SameInstance g') : g'.terms = g.terms := by rw [h]; rfl

theorem mint (h : g.SameInstance g') : g'.mint = g.mint := by rw [h]

theorem vaultBump (h : g.SameInstance g') : g'.vaultBump = g.vaultBump := by rw [h]

end GroupConfig.SameInstance

namespace MemberRecord.SameMember

variable {r r' : MemberRecord K}

theorem refl (r : MemberRecord K) : r.SameMember r := rfl

theorem group (h : r.SameMember r') : r'.group = r.group := by rw [h]

theorem member (h : r.SameMember r') : r'.member = r.member := by rw [h]

theorem rentPayer (h : r.SameMember r') : r'.rentPayer = r.rentPayer := by rw [h]

end MemberRecord.SameMember

variable [DecidableEq K] {E : Env K} {ctx : Ctx K} {L L' : Ledger K} {events : List (Event K)}
  {c : Call K}

/-! ## Groups -/

/-- What a call does to the group it names. -/
inductive GroupStep (c : Call K) : Option (GroupConfig K) → Option (GroupConfig K) → Prop where
  | create {g : GroupConfig K} : c.creates c.groupKey → g.currentMembers = 0 →
      g.status = STATUS_OPEN → GroupStep c none (some g)
  | write {g g' : GroupConfig K} : ¬c.creates c.groupKey → ¬c.closes c.groupKey →
      g.SameInstance g' → (g.isSettled → g'.isSettled) → GroupStep c (some g) (some g')
  | close {g : GroupConfig K} : c.closes c.groupKey → g.isSettled → g.currentMembers = 0 →
      GroupStep c (some g) none
  | absent {k : K} : c.closesTally k → GroupStep c none none

theorem Effect.groupStep (h : Effect E ctx L L' events c) :
    GroupStep c (L.group c.groupKey) (L'.group c.groupKey) := by
  cases h with
  | createGroup h =>
    obtain ⟨p, m, b, vb, n₁, n₂, -, -, -, -, -, -, -, rfl⟩ := h.post
    simp only [Call.groupKey, update_self, h.unused.1]
    exact .create rfl rfl rfl
  | joinGroup h =>
    obtain ⟨p, mt, vt, b, cm, joins, -, -, -, -, -, -, -, -, -, -, -, rfl, -⟩ := h.post
    simp only [Call.groupKey, update_self, h.group]
    exact .write nofun nofun rfl id
  | leaveGroup h =>
    obtain ⟨p, mt, vt, cm, -, -, -, -, -, -, -, -, -, rfl, -⟩ := h.post
    simp only [Call.groupKey, update_self, h.group]
    exact .write nofun nofun rfl id
  | startCycle h =>
    rw [h.post]
    simp only [Call.groupKey, update_self, h.group]
    refine .write nofun nofun (by rw [h.group']; rfl) fun hs => ?_
    exact absurd hs (not_settled_of_open h.isOpen)
  | deposit h =>
    obtain ⟨p, mt, vt, -, -, -, -, -, -, -, -, hpost⟩ := h.post
    rw [hpost]
    simp only [Call.groupKey, h.group]
    exact .write nofun nofun rfl id
  | distribute h =>
    rw [h.post]
    simp only [Call.groupKey, update_self, h.group]
    exact .write nofun nofun rfl fun _ => GroupConfig.completed_isSettled ..
  | emergencyCancel _ h =>
    rw [h.post]
    simp only [Call.groupKey, update_self, h.group]
    exact .write nofun nofun rfl fun _ => GroupConfig.cancelled_isSettled ..
  | refundVaultRent h =>
    rw [h.post]
    simp only [Call.groupKey, h.group]
    exact .write nofun nofun rfl id
  | closeMemberRecord h =>
    obtain ⟨cm, -, rfl⟩ := h.post
    simp only [Call.groupKey, update_self, h.group]
    exact .write nofun nofun rfl id
  | closeGroup h =>
    obtain ⟨n, -, rfl, -⟩ := h.post
    simp only [Call.groupKey, update_self, h.group]
    exact .close rfl h.settled h.empty
  | closeJoinTally h =>
    rw [h.post]
    simp only [Call.groupKey, h.closed]
    exact .absent rfl
  | setJoinAuthority h =>
    obtain ⟨n, -, -, rfl⟩ := h.post
    simp only [Call.groupKey, h.group]
    exact .write nofun nofun rfl id

omit [DecidableEq K] in
theorem Call.creates_groupKey {G : K} (h : c.creates G) : c.groupKey = G := by
  cases c <;> first | exact h | exact h.elim

omit [DecidableEq K] in
theorem Call.closes_groupKey {G : K} (h : c.closes G) : c.groupKey = G := by
  cases c <;> first | exact h | exact h.elim

section
variable {s s' : State K} {act : Action K}

/-- A live group stays the same instance until it is closed, and is not created twice. -/
theorem Step.group (h : Step E s act s') (hL : Layout E s.ledger) {G : K} {g : GroupConfig K}
    (hg : s.group G = some g) :
    ¬act.Is (Call.creates G) ∧
      ((¬act.Is (Call.closes G) ∧ ∃ g', s'.group G = some g' ∧ g.SameInstance g' ∧
          (g.isSettled → g'.isSettled)) ∨
        (act.Is (Call.closes G) ∧ s'.group G = none ∧ g.isSettled ∧ g.currentMembers = 0)) := by
  cases h with
  | @call ctx c _ _ events h =>
    have he := execute_effect hL h
    by_cases hG : c.groupKey = G
    · subst hG
      have hs := he.groupStep
      rw [State.ledger_group, State.ledger_group, hg] at hs
      generalize hg' : s'.group c.groupKey = o at hs
      cases hs with
      | write hc hcl hi hset => exact ⟨hc, .inl ⟨hcl, _, rfl, hi, hset⟩⟩
      | close hc hset h0 =>
        refine ⟨fun hcr => ?_, .inr ⟨hc, rfl, hset, h0⟩⟩
        cases c <;> first | exact hc | exact hcr
    · refine ⟨fun hc => hG (Call.creates_groupKey hc), .inl
        ⟨fun hc => hG (Call.closes_groupKey hc), g, ?_, .refl g, id⟩⟩
      exact ((he.frame hL).group (Ne.symm hG)).trans hg
  | outside h => exact ⟨id, .inl ⟨id, g, (congrFun h.group G).trans hg, .refl g, id⟩⟩

/-- A group appears only in its creation, open and without members. -/
theorem Step.group_new (h : Step E s act s') (hL : Layout E s.ledger) {G : K} {g : GroupConfig K}
    (hg : s'.group G = some g) (hn : s.group G = none) :
    act.Is (Call.creates G) ∧ g.currentMembers = 0 ∧ g.status = STATUS_OPEN := by
  cases h with
  | @call ctx c _ _ events h =>
    have he := execute_effect hL h
    by_cases hG : c.groupKey = G
    · subst hG
      have hs := he.groupStep
      rw [State.ledger_group, State.ledger_group, hg, hn] at hs
      cases hs with
      | create hc h0 ho => exact ⟨hc, h0, ho⟩
    · have := ((he.frame hL).group (Ne.symm hG)).symm.trans hg
      rw [State.ledger_group, hn] at this
      cases this
  | outside h =>
    have := (congrFun h.group G).symm.trans hg
    rw [State.ledger_group, hn] at this
    cases this

/-! ## Records -/

/-- What a step does to the record slot at `k`. -/
inductive RecordStep (E : Env K) (s : State K) (act : Action K) (k : K) :
    Option (MemberRecord K) → Option (MemberRecord K) → Prop where
  | keep {o : Option (MemberRecord K)} : ¬act.Is (Call.namesRecord k) → RecordStep E s act k o o
  | join {ctx : Ctx K} {a : JoinGroup K} {terms : GroupTerms K} {expected : Option UInt32}
      {cm b : UInt8} {joins : UInt32} {g : GroupConfig K} :
      act = .call ctx (.joinGroup a terms expected)
        [.memberJoined a.groupConfig a.member a.rentPayer g.depositAmount cm joins] →
      a.memberRecord = k → s.group a.groupConfig = some g → g.status = STATUS_OPEN →
      RecordStep E s act k none (some (a.newRecord g.depositAmount b))
  | deposit {ctx : Ctx K} {a : Deposit K} {g : GroupConfig K} {r r' : MemberRecord K}
      {duration : Int64} {period : UInt8} :
      act = .call ctx (.deposit a)
        [.depositMade a.groupConfig a.member period g.depositAmount r'.depositsMade] →
      a.memberRecord = k → s.group a.groupConfig = some g → g.status = STATUS_ACTIVE →
      r.group = a.groupConfig ∧ r.member = a.member →
      g.currentPeriod ctx.unixTimestamp duration = .ok period →
      r.mark period g.depositAmount = .ok r' → RecordStep E s act k (some r) (some r')
  | leave {ctx : Ctx K} {a : LeaveGroup K} {cm : UInt8} {g : GroupConfig K} {r : MemberRecord K} :
      act = .call ctx (.leaveGroup a)
        [.memberLeft a.groupConfig a.member r.totalDeposited cm] →
      a.memberRecord = k → s.group a.groupConfig = some g → g.status = STATUS_OPEN →
      r.group = a.groupConfig ∧ r.member = a.member → Signed E ctx a.member →
      RecordStep E s act k (some r) none
  | close {ctx : Ctx K} {a : CloseMemberRecord K} {c : Int64} {g : GroupConfig K}
      {r : MemberRecord K} : act = .call ctx (.closeMemberRecord a) [] → a.memberRecord = k →
      s.group a.groupConfig = some g → g.isSettled → r.group = a.groupConfig →
      recordRetentionEnd E g.settledAt = .ok c → c ≤ ctx.unixTimestamp →
      RecordStep E s act k (some r) none

theorem Effect.recordStep {s s' : State K} (hL : Layout E s.ledger)
    (h : Effect E ctx s.ledger s'.ledger events c) (k : K) :
    RecordStep E s (.call ctx c events) k (s.record k) (s'.record k) := by
  have keep : s'.record k = s.record k → ¬c.namesRecord k →
      RecordStep E s (.call ctx c events) k (s.record k) (s'.record k) := fun h hn => h ▸ .keep hn
  cases h with
  | @joinGroup a _ _ g _ _ _ h =>
    obtain ⟨p, mt, vt, b, cm, joins, -, -, -, -, -, -, -, -, -, -, -, hpost, rfl⟩ := h.post
    have hrec : s'.record = update s.record a.memberRecord (some (a.newRecord g.depositAmount b)) :=
      congrArg Ledger.record hpost
    by_cases he : a.memberRecord = k
    · have hold : s.record k = none := he ▸ h.unused
      have hnew : s'.record k = some (a.newRecord g.depositAmount b) := by
        rw [hrec, he, update_self]
      rw [hold, hnew]
      exact .join rfl he h.group h.isOpen
    · exact keep (by rw [hrec, update_of_ne (Ne.symm he)]) he
  | @leaveGroup a g r h =>
    obtain ⟨p, mt, vt, cm, -, -, -, -, -, -, -, -, -, hpost, rfl⟩ := h.post
    have hrec : s'.record = update s.record a.memberRecord none := congrArg Ledger.record hpost
    by_cases he : a.memberRecord = k
    · have hold : s.record k = some r := he ▸ h.record
      have hnew : s'.record k = none := by rw [hrec, he, update_self]
      rw [hold, hnew]
      exact .leave rfl he h.group h.isOpen (hL.record_eq h.record h.address) h.member
    · exact keep (by rw [hrec, update_of_ne (Ne.symm he)]) he
  | @deposit a g r h =>
    obtain ⟨duration, ce, period, r', -, -, -, hper, hmark, hrec, rfl⟩ := h.period
    rw [State.ledger_record] at hrec
    by_cases he : a.memberRecord = k
    · have hold : s.record k = some r := he ▸ h.record
      have hnew : s'.record k = some r' := by rw [hrec, he, update_self]
      rw [hold, hnew]
      exact .deposit rfl he h.group h.active h.record_eq hper hmark
    · exact keep (by rw [hrec, update_of_ne (Ne.symm he)]; rfl) he
  | @closeMemberRecord a g r h =>
    obtain ⟨cm, -, hpost⟩ := h.post
    obtain ⟨end_, hend, hle⟩ := h.retention
    obtain rfl := h.events
    have hrec : s'.record = update s.record a.memberRecord none := congrArg Ledger.record hpost
    by_cases he : a.memberRecord = k
    · have hold : s.record k = some r := he ▸ h.record
      have hnew : s'.record k = none := by rw [hrec, he, update_self]
      rw [hold, hnew]
      exact .close rfl he h.group h.settled (hL.record_eq h.record h.address).1 hend hle
    · exact keep (by rw [hrec, update_of_ne (Ne.symm he)]) he
  | createGroup h =>
    obtain ⟨p, m, b, vb, n₁, n₂, -, -, -, -, -, -, -, hpost⟩ := h.post
    exact keep (congrFun (congrArg Ledger.record hpost) k) id
  | startCycle h => exact keep (congrFun (congrArg Ledger.record h.post) k) id
  | distribute h => exact keep (congrFun (congrArg Ledger.record h.post) k) id
  | emergencyCancel _ h => exact keep (congrFun (congrArg Ledger.record h.post) k) id
  | refundVaultRent h => exact keep (congrFun (congrArg Ledger.record h.post) k) id
  | closeGroup h =>
    obtain ⟨n, -, hpost, -⟩ := h.post
    exact keep (congrFun (congrArg Ledger.record hpost) k) id
  | closeJoinTally h => exact keep (congrFun (congrArg Ledger.record h.post) k) id
  | setJoinAuthority h =>
    obtain ⟨n, -, -, hpost⟩ := h.post
    exact keep (congrFun (congrArg Ledger.record hpost) k) id

theorem Step.recordStep (h : Step E s act s') (hL : Layout E s.ledger) (k : K) :
    RecordStep E s act k (s.record k) (s'.record k) := by
  cases h with
  | call h => exact (execute_effect hL h).recordStep hL k
  | outside h =>
    have : s'.record k = s.record k := congrFun h.record k
    exact this ▸ .keep id

omit [DecidableEq K] in
/-- A record is the record of before, or that of a join. -/
theorem RecordStep.back {s : State K} {act : Action K} {k : K} {o : Option (MemberRecord K)}
    {r' : MemberRecord K} (h : RecordStep E s act k o (some r')) :
    (∃ r, o = some r ∧ r.SameMember r') ∨ (o = none ∧ act.Is (Call.joins r'.group r'.member)) := by
  cases h with
  | keep => exact .inl ⟨r', rfl, .refl r'⟩
  | join hact => exact .inr ⟨rfl, by rw [hact]; exact ⟨rfl, rfl⟩⟩
  | @deposit _ _ _ r _ _ _ _ _ _ _ _ _ hmark =>
    obtain ⟨-, made, total, -, -, rfl⟩ := MemberRecord.mark_eq_ok.1 hmark
    exact .inl ⟨r, rfl, rfl⟩

theorem Step.record_back (h : Step E s act s') (hL : Layout E s.ledger) {k : K}
    {r' : MemberRecord K} (hr : s'.record k = some r') :
    (∃ r, s.record k = some r ∧ r.SameMember r') ∨
      (s.record k = none ∧ act.Is (Call.joins r'.group r'.member)) :=
  RecordStep.back (hr ▸ h.recordStep hL k)

/-! ## Events -/

def Action.emitted : Action K → List (Event K)
  | .call _ _ events => events
  | .outside => []

/-- The events of some steps, newest first. -/
def eventLog (l : List (StepEntry K)) : List (Event K) := l.flatMap fun e => e.act.emitted.reverse

/-- The group and the member of an event about one membership. -/
def Event.membership? : Event K → Option (K × K)
  | .memberJoined group member .. => some (group, member)
  | .memberLeft group member .. => some (group, member)
  | .depositMade group member .. => some (group, member)
  | _ => none

/-- Events about a membership come from instructions that name its record. -/
theorem Effect.membership_names {s s' : State K} (hL : Layout E s.ledger)
    (h : Effect E ctx s.ledger s'.ledger events c) {G M k : K} {b : UInt8}
    (hk : E.findProgramAddress (.member G M) = some (k, b)) {ev : Event K} (hev : ev ∈ events)
    (hm : ev.membership? = some (G, M)) : c.namesRecord k := by
  have hnone : ∀ {ev : Event K}, ev.membership? = none → ¬(ev.membership? = some (G, M)) :=
    fun h h' => by rw [h] at h'; cases h'
  cases h with
  | joinGroup h =>
    obtain ⟨p, mt, vt, b', cm, joins, -, -, -, -, -, -, -, -, hR, -, -, -, rfl⟩ := h.post
    obtain rfl := List.mem_singleton.1 hev
    simp only [Event.membership?, Option.some.injEq, Prod.mk.injEq] at hm
    obtain ⟨rfl, rfl⟩ := hm
    exact (Prod.mk.inj (Option.some.inj (hR.symm.trans hk))).1
  | leaveGroup h =>
    obtain ⟨hG, hM⟩ := hL.record_eq h.record h.address
    have hR := (hL.placed h.record).address
    rw [hG, hM] at hR
    obtain ⟨p, mt, vt, cm, -, -, -, -, -, -, -, -, -, -, rfl⟩ := h.post
    obtain rfl := List.mem_singleton.1 hev
    simp only [Event.membership?, Option.some.injEq, Prod.mk.injEq] at hm
    obtain ⟨rfl, rfl⟩ := hm
    exact (Prod.mk.inj (Option.some.inj (hR.symm.trans hk))).1
  | deposit h =>
    have hR := (hL.placed h.record).address
    rw [h.record_eq.1, h.record_eq.2] at hR
    obtain ⟨duration, ce, period, r', -, -, -, -, -, -, rfl⟩ := h.period
    obtain rfl := List.mem_singleton.1 hev
    simp only [Event.membership?, Option.some.injEq, Prod.mk.injEq] at hm
    obtain ⟨rfl, rfl⟩ := hm
    exact (Prod.mk.inj (Option.some.inj (hR.symm.trans hk))).1
  | distribute _ _ _ he =>
    rw [he] at hev
    rcases List.mem_append.1 hev with hev | hev
    · obtain ⟨x, -, rfl⟩ := List.mem_map.1 hev
      exact absurd hm (hnone rfl)
    · obtain rfl := List.mem_singleton.1 hev
      exact absurd hm (hnone rfl)
  | emergencyCancel _ _ _ _ he =>
    rw [he] at hev
    obtain rfl := List.mem_singleton.1 hev
    exact absurd hm (hnone rfl)
  | createGroup h =>
    rw [h.events] at hev
    obtain rfl := List.mem_singleton.1 hev
    exact absurd hm (hnone rfl)
  | startCycle h =>
    obtain ⟨ce, -, he⟩ := h.cycleEnd
    rw [he] at hev
    obtain rfl := List.mem_singleton.1 hev
    exact absurd hm (hnone rfl)
  | closeGroup h =>
    obtain ⟨n, -, -, he⟩ := h.post
    rw [he] at hev
    obtain rfl := List.mem_singleton.1 hev
    exact absurd hm (hnone rfl)
  | setJoinAuthority h =>
    rw [h.events] at hev
    obtain rfl := List.mem_singleton.1 hev
    exact absurd hm (hnone rfl)
  | refundVaultRent h =>
    rw [h.events] at hev
    cases hev
  | closeMemberRecord h =>
    rw [h.events] at hev
    cases hev
  | closeJoinTally h =>
    rw [h.events] at hev
    cases hev

/-- A step that does not name the record of a membership emits no event about it. -/
theorem Step.membership_ne (h : Step E s act s') (hL : Layout E s.ledger) {G M k : K} {b : UInt8}
    (hk : E.findProgramAddress (.member G M) = some (k, b)) (hn : ¬act.Is (Call.namesRecord k)) :
    ∀ ev ∈ act.emitted, ev.membership? ≠ some (G, M) := by
  intro ev hev hm
  cases h with
  | outside => cases hev
  | call h => exact hn ((execute_effect hL h).membership_names hL hk hev hm)

/-- A member with an open record does not join again. -/
theorem Step.not_joins (h : Step E s act s') (hL : Layout E s.ledger) {k : K}
    {r : MemberRecord K} (hr : s.record k = some r) : ¬act.Is (Call.joins r.group r.member) := by
  intro hj
  cases h with
  | @call ctx c _ _ events hexec =>
    cases execute_effect hL hexec with
    | @joinGroup a _ _ _ _ _ _ h =>
      obtain ⟨p, mt, vt, b, cm, joins, -, -, -, -, -, -, -, -, hR, -⟩ := h.post
      have haddr := (hL.placed hr).address
      rw [← hj.1, ← hj.2, hR] at haddr
      have hk : a.memberRecord = k := (Prod.mk.inj (Option.some.inj haddr)).1
      have hnone : s.record a.memberRecord = none := h.unused
      rw [hk, hr] at hnone
      cases hnone
    | _ => exact hj
  | outside => exact hj

/-! ## Gates -/

/-- A gate is set once, and removed only with its group. -/
theorem Effect.gateStep (h : Effect E ctx L L' events c) (k : K) :
    L'.gate k = L.gate k ∨
      (∃ a authority, c = .setJoinAuthority a authority ∧ a.joinGate = k ∧ L.gate k = none ∧
        L'.gate k = some { authority }) ∨
      (∃ a, c = .closeGroup a ∧ a.joinGate = k ∧ L'.gate k = none) := by
  cases h with
  | @setJoinAuthority a authority _ h =>
    obtain ⟨n, -, -, rfl⟩ := h.post
    by_cases he : k = a.joinGate
    · subst he
      exact .inr (.inl ⟨a, authority, rfl, rfl, h.unused, update_self ..⟩)
    · exact .inl (update_of_ne he ..)
  | @closeGroup a _ h =>
    obtain ⟨n, -, rfl, -⟩ := h.post
    by_cases he : k = a.joinGate
    · subst he
      exact .inr (.inr ⟨a, rfl, rfl, update_self ..⟩)
    · exact .inl (update_of_ne he ..)
  | createGroup h =>
    obtain ⟨p, m, b, vb, n₁, n₂, -, -, -, -, -, -, -, rfl⟩ := h.post
    exact .inl rfl
  | joinGroup h =>
    obtain ⟨p, mt, vt, b, cm, joins, -, -, -, -, -, -, -, -, -, -, -, rfl, -⟩ := h.post
    exact .inl rfl
  | leaveGroup h =>
    obtain ⟨p, mt, vt, cm, -, -, -, -, -, -, -, -, -, rfl, -⟩ := h.post
    exact .inl rfl
  | deposit h =>
    obtain ⟨p, mt, vt, -, -, -, -, -, -, -, -, hpost⟩ := h.post
    exact .inl (by rw [hpost])
  | closeMemberRecord h =>
    obtain ⟨cm, -, rfl⟩ := h.post
    exact .inl rfl
  | startCycle h => exact .inl (by rw [h.post])
  | distribute h => exact .inl (by rw [h.post])
  | emergencyCancel _ h => exact .inl (by rw [h.post])
  | refundVaultRent h => exact .inl (by rw [h.post])
  | closeJoinTally h => exact .inl (by rw [h.post])

/-! ## Tallies -/

/-- Only a join changes a tally, and only `close_join_tally` removes one. -/
theorem Effect.tallyStep (h : Effect E ctx L L' events c) (k : K) :
    L'.tally k = L.tally k ∨
      (∃ a terms expected g t n₁ n₂, c = .joinGroup a terms expected ∧ a.joinTally = k ∧
        JoinGroup.Effect E ctx a terms expected L L' events g t n₁ n₂) ∨
      (∃ a member t, c = .closeJoinTally a member ∧ a.joinTally = k ∧
        CloseJoinTally.Effect E a member L L' events t) := by
  cases h with
  | @joinGroup a terms expected g t n₁ n₂ h =>
    by_cases he : k = a.joinTally
    · exact .inr (.inl ⟨a, terms, expected, g, t, n₁, n₂, rfl, he.symm, h⟩)
    · obtain ⟨p, mt, vt, b, cm, joins, -, -, -, -, -, -, -, -, -, -, -, rfl, -⟩ := h.post
      exact .inl (update_of_ne he ..)
  | @closeJoinTally a member t h =>
    by_cases he : k = a.joinTally
    · exact .inr (.inr ⟨a, member, t, rfl, he.symm, h⟩)
    · exact .inl (by rw [h.post]; exact update_of_ne he ..)
  | createGroup h =>
    obtain ⟨p, m, b, vb, n₁, n₂, -, -, -, -, -, -, -, rfl⟩ := h.post
    exact .inl rfl
  | leaveGroup h =>
    obtain ⟨p, mt, vt, cm, -, -, -, -, -, -, -, -, -, rfl, -⟩ := h.post
    exact .inl rfl
  | deposit h =>
    obtain ⟨p, mt, vt, -, -, -, -, -, -, -, -, hpost⟩ := h.post
    exact .inl (by rw [hpost])
  | closeMemberRecord h =>
    obtain ⟨cm, -, rfl⟩ := h.post
    exact .inl rfl
  | closeGroup h =>
    obtain ⟨n, -, rfl, -⟩ := h.post
    exact .inl rfl
  | setJoinAuthority h =>
    obtain ⟨n, -, -, rfl⟩ := h.post
    exact .inl rfl
  | startCycle h => exact .inl (by rw [h.post])
  | distribute h => exact .inl (by rw [h.post])
  | emergencyCancel _ h => exact .inl (by rw [h.post])
  | refundVaultRent h => exact .inl (by rw [h.post])

end

end SafeNudge
