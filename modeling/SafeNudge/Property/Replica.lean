import SafeNudge.Property.EventLog
import SafeNudge.Property.Isolation

/-!
# The event log tells what the accounts hold

`replica G log` is what a reader of the log alone knows of the group at `G`: one `follow` for each
event. `Reflects` compares it with the accounts. Every instruction keeps it (`Effect.reflects`), so
that it holds of every run (`log_replays`). What the log is silent about is the frequency of a group
before its cycle starts, and what closes without an event: after a settlement its records, and once
the group is gone its tallies.
-/

namespace SafeNudge

open Lib Function

variable {K : Type}

/-- What the log says of a membership. -/
structure MemberView (K : Type) where
  rentPayer : K
  totalDeposited : UInt64
  depositsMade : UInt8
  periodsDeposited : Vector Bool 52
  deriving DecidableEq

/-- What the log says of a group. -/
structure GroupView (K : Type) where
  creator : K
  rentPayer : K
  mint : K
  depositAmount : UInt64
  totalPeriods : UInt8
  maxMembers : UInt8
  currentMembers : UInt8
  status : UInt8
  cycleStart : Int64
  cycleEnd : Int64
  authority : Option K
  members : K → Option (MemberView K)

def MemberRecord.view (r : MemberRecord K) : MemberView K where
  rentPayer := r.rentPayer
  totalDeposited := r.totalDeposited
  depositsMade := r.depositsMade
  periodsDeposited := r.periodsDeposited

namespace MemberView

/-- After the first deposit. -/
def joined (rentPayer : K) (amount : UInt64) : MemberView K where
  rentPayer
  totalDeposited := amount
  depositsMade := 1
  periodsDeposited := (Vector.replicate 52 false).set 0 true first_period_lt

def deposited (m : MemberView K) (period : UInt8) (amount : UInt64) (depositsMade : UInt8) :
    MemberView K :=
  { m with
    totalDeposited := m.totalDeposited + amount
    depositsMade
    periodsDeposited := m.periodsDeposited.setIfInBounds period.toNat true }

end MemberView

variable [DecidableEq K]

namespace GroupView

def created (creator rentPayer mint : K) (depositAmount : UInt64) (totalPeriods maxMembers : UInt8) :
    GroupView K where
  creator
  rentPayer
  mint
  depositAmount
  totalPeriods
  maxMembers
  currentMembers := 0
  status := STATUS_OPEN
  cycleStart := 0
  cycleEnd := 0
  authority := none
  members _ := none

/-- An event between the creation and the close of a group. -/
def apply (v : GroupView K) : Event K → GroupView K
  | .memberJoined _ member rentPayer amount currentMembers _ =>
    { v with
      currentMembers
      members := update v.members member (some (.joined rentPayer amount)) }
  | .memberLeft _ member _ currentMembers =>
    { v with currentMembers, members := update v.members member none }
  | .cycleStarted _ _ cycleStart cycleEnd =>
    { v with status := STATUS_ACTIVE, cycleStart, cycleEnd }
  | .depositMade _ member period amount depositsMade =>
    { v with
      members := update v.members member
        ((v.members member).map (·.deposited period amount depositsMade)) }
  | .groupSettled .. => { v with status := STATUS_COMPLETED }
  | .groupCancelled .. => { v with status := STATUS_CANCELLED }
  | .joinAuthoritySet _ _ authority => { v with authority := some authority }
  | .memberSettled _ | .groupCreated .. | .groupClosed .. => v

end GroupView

/-- One event, to a reader that follows the group at `G`. -/
def follow (G : K) (o : Option (GroupView K)) (ev : Event K) : Option (GroupView K) :=
  if ev.group = G then
    match ev with
    | .groupCreated _ creator rentPayer mint depositAmount totalPeriods maxMembers =>
      some (.created creator rentPayer mint depositAmount totalPeriods maxMembers)
    | .groupClosed .. => none
    | ev => o.map (·.apply ev)
  else o

/-- What a log with the newest event first says of the group at `G`. -/
def replica (G : K) (log : List (Event K)) : Option (GroupView K) :=
  log.foldr (fun ev o => follow G o ev) none

/-- The joins of `M` at `G` an event reports. -/
def Event.joins? (G M : K) : Event K → Option UInt32
  | .memberJoined group member _ _ _ joins =>
    if group = G ∧ member = M then some joins else none
  | _ => none

/-- The joins reported last, in a log with the newest event first. -/
def lastJoins? (G M : K) (log : List (Event K)) : Option UInt32 := log.findSome? (Event.joins? G M)

/-! ## The accounts and the log -/

/-- The accounts of a live group are as a reader sees them. -/
structure Shows (E : Env K) (L : Ledger K) (G : K) (g : GroupConfig K) (v : GroupView K) : Prop where
  creator : v.creator = g.creator
  rentPayer : v.rentPayer = g.rentPayer
  mint : v.mint = g.mint
  depositAmount : v.depositAmount = g.depositAmount
  totalPeriods : v.totalPeriods = g.totalPeriods
  maxMembers : v.maxMembers = g.maxMembers
  /-- The records of a settled group close without an event. -/
  currentMembers : ¬g.isSettled → v.currentMembers = g.currentMembers
  status : v.status = g.status
  cycleStart : v.cycleStart = g.cycleStart
  cycleEnd : g.status = STATUS_ACTIVE → g.cycleEnd E = .ok v.cycleEnd
  authority : ∀ J b, E.findProgramAddress (.join G) = some (J, b) →
    v.authority = (L.gate J).map JoinGate.authority
  members : ∀ M k b, E.findProgramAddress (.member G M) = some (k, b) →
    v.members M = (L.record k).map MemberRecord.view ∨ g.isSettled ∧ L.record k = none

def Reflects (E : Env K) (L : Ledger K) (G : K) : Option (GroupView K) → Prop
  | none => L.group G = none
  | some v => ∃ g, L.group G = some g ∧ Shows E L G g v

section
variable {E : Env K} {ctx : Ctx K} {L L' : Ledger K} {G : K} {g g' : GroupConfig K} {v : GroupView K}
  {o : Option (GroupView K)} {events : List (Event K)} {c : Call K}

omit [DecidableEq K] in
theorem Reflects.some_of (h : Reflects E L G o) (hg : L.group G = some g) :
    ∃ v, o = some v ∧ Shows E L G g v := by
  cases o with
  | none => cases hg.symm.trans h
  | some v =>
    obtain ⟨g₀, hg₀, hv⟩ := h
    obtain rfl := Option.some.inj (hg₀.symm.trans hg)
    exact ⟨v, rfl, hv⟩

omit [DecidableEq K] in
theorem Reflects.none_of (h : Reflects E L G o) (hg : L.group G = none) : o = none := by
  cases o with
  | none => rfl
  | some v =>
    obtain ⟨g₀, hg₀, -⟩ := h
    cases hg.symm.trans hg₀

/-- An event that neither creates nor closes a group. -/
theorem follow_some {ev : Event K} (hG : ev.group = G)
    (hc : ∀ creator payer mint n p m, ev ≠ .groupCreated G creator payer mint n p m)
    (hx : ∀ payer n j, ev ≠ .groupClosed G payer n j) : follow G (some v) ev = some (v.apply ev) := by
  subst hG
  unfold follow
  rw [if_pos rfl]
  cases ev with
  | groupCreated => exact absurd rfl (hc _ _ _ _ _ _)
  | groupClosed => exact absurd rfl (hx _ _ _)
  | _ => rfl

/-- An instruction that emits one such event. -/
theorem foldl_follow_one {ev : Event K} (hG : ev.group = G)
    (hc : ∀ creator payer mint n p m, ev ≠ .groupCreated G creator payer mint n p m)
    (hx : ∀ payer n j, ev ≠ .groupClosed G payer n j) :
    [ev].foldl (follow G) (some v) = some (v.apply ev) := by
  rw [List.foldl_cons, List.foldl_nil, follow_some hG hc hx]

theorem follow_ne {ev : Event K} (hG : ev.group ≠ G) : follow G o ev = o := if_neg hG

theorem foldl_follow_ne (h : ∀ ev ∈ events, ev.group ≠ G) : events.foldl (follow G) o = o := by
  induction events with
  | nil => rfl
  | cons ev events ih =>
    rw [List.foldl_cons, follow_ne (h ev List.mem_cons_self)]
    exact ih fun x hx => h x (List.mem_cons_of_mem _ hx)

/-- The results of the members do not change what is known of a group. -/
theorem foldl_follow_memberSettled {es : List (MemberSettled K)} (h : ∀ e ∈ es, e.group = G) :
    (es.map Event.memberSettled).foldl (follow G) (some v) = some v := by
  induction es with
  | nil => rfl
  | cons e es ih =>
    have he : (Event.memberSettled e).group = G := h e List.mem_cons_self
    rw [List.map_cons, List.foldl_cons, follow_some he (by simp) (by simp)]
    exact ih fun x hx => h x (List.mem_cons_of_mem _ hx)

namespace Shows

omit [DecidableEq K] in
theorem member (h : Shows E L G g v) (hns : ¬g.isSettled) {M k : K} {b : UInt8}
    (hk : E.findProgramAddress (.member G M) = some (k, b)) :
    v.members M = (L.record k).map MemberRecord.view :=
  (h.members M k b hk).resolve_right fun hs => hns hs.1

/-- One membership changes, in the accounts and in the view. -/
theorem members_update (h : Shows E L G g v) (hns : ¬g.isSettled) {M₀ k₀ : K} {b₀ : UInt8}
    (h₀ : E.findProgramAddress (.member G M₀) = some (k₀, b₀)) (r : Option (MemberRecord K))
    {M k : K} {b : UInt8} (hk : E.findProgramAddress (.member G M) = some (k, b)) :
    update v.members M₀ (r.map MemberRecord.view) M =
      (update L.record k₀ r k).map MemberRecord.view := by
  by_cases hM : M = M₀
  · subst hM
    have hkk : k = k₀ := congrArg Prod.fst (Option.some.inj (hk.symm.trans h₀))
    rw [update_self, hkk, update_self]
  · have hne : k ≠ k₀ := Env.address_ne (E.findProgramAddress_create hk)
      (E.findProgramAddress_create h₀) (by simpa using hM)
    rw [update_of_ne hM, update_of_ne hne, h.member hns hk]

end Shows

omit [DecidableEq K] in
/-- A change the log is silent about leaves the accounts of the group. -/
theorem Reflects.congr (ho : Reflects E L G o) (hg : L'.group G = L.group G)
    (hgate : ∀ J b, E.findProgramAddress (.join G) = some (J, b) → L'.gate J = L.gate J)
    (hrecord : ∀ M k b, E.findProgramAddress (.member G M) = some (k, b) →
      L'.record k = L.record k) : Reflects E L' G o := by
  cases o with
  | none => exact hg.trans ho
  | some v =>
    obtain ⟨g, hg₀, hv⟩ := ho
    exact ⟨g, hg.trans hg₀, { hv with
      authority := fun J b hJ => by rw [hgate J b hJ]; exact hv.authority J b hJ
      members := fun M k b hk => by rw [hrecord M k b hk]; exact hv.members M k b hk }⟩

/-! ## One instruction -/

/-- Nothing of a group is left at its addresses when it is not live. -/
theorem Layout.no_accounts (hL : Layout E L) (hG : L.group G = none) :
    (∀ J b, E.findProgramAddress (.join G) = some (J, b) → L.gate J = none) ∧
      ∀ M k b, E.findProgramAddress (.member G M) = some (k, b) → L.record k = none := by
  refine ⟨fun J b hJ => ?_, fun M k b hk => ?_⟩
  · cases hj : L.gate J with
    | none => rfl
    | some j =>
      obtain ⟨-, G', g', b', hg', hJ'⟩ := hL.gate hj
      have hs := E.findProgramAddress_inj hJ hJ'
      simp only [Seeds.join.injEq] at hs
      subst hs
      cases hG.symm.trans hg'
  · cases hr : L.record k with
    | none => rfl
    | some r =>
      obtain ⟨-, -, g', hg'⟩ := hL.record hr
      rw [(hL.record_eq hr (E.findProgramAddress_create hk)).1] at hg'
      cases hG.symm.trans hg'

/-- A record found with its own bump is at the address found for its member. -/
theorem Layout.record_found (hL : Layout E L) {k M : K} {b : UInt8} {r : MemberRecord K}
    (hr : L.record k = some r) (hk : E.createProgramAddress (.member G M) b = some k) :
    E.findProgramAddress (.member G M) = some (k, r.bump) := by
  obtain ⟨rfl, rfl⟩ := hL.record_eq hr hk
  exact (hL.placed hr).address

/-- A new group is as `GroupCreated` says. -/
theorem CreateGroup.Effect.shows {a : CreateGroup K} {groupCode : String} {depositAmount : UInt64}
    {frequency totalPeriods maxMembers : UInt8} (hL : Layout E L)
    (h : CreateGroup.Effect E ctx a groupCode depositAmount frequency totalPeriods maxMembers L L'
      events) :
    Reflects E L' a.groupConfig (some (.created a.creator a.rentPayer a.mint depositAmount
      totalPeriods maxMembers)) := by
  obtain ⟨p, m, b, vb, n₁, n₂, -, -, -, -, -, -, -, rfl⟩ := h.post
  obtain ⟨hgate, hrecord⟩ := hL.no_accounts h.unused.1
  refine ⟨_, update_self .., rfl, rfl, rfl, rfl, rfl, rfl, fun _ => rfl, rfl, rfl, (fun ha => by cases ha), ?_, ?_⟩
  · intro J b hJ
    rw [hgate J b hJ]
    rfl
  · intro M k b hk
    rw [hrecord M k b hk]
    exact .inl rfl

theorem JoinGroup.Effect.shows {a : JoinGroup K} {terms : GroupTerms K} {expected : Option UInt32}
    {t : JoinTally K} {n₁ n₂ : Nat} (hv : Shows E L a.groupConfig g v)
    (h : JoinGroup.Effect E ctx a terms expected L L' events g t n₁ n₂) :
    Reflects E L' a.groupConfig (events.foldl (follow a.groupConfig) (some v)) := by
  have hns := not_settled_of_open h.isOpen
  obtain ⟨p, mt, vt, b, cm, joins, -, -, -, -, -, -, -, -, hk₀, -, -, rfl, rfl⟩ := h.post
  rw [foldl_follow_one (by rfl) (by simp) (by simp)]
  exact ⟨_, update_self .., { hv with
    currentMembers := fun _ => rfl
    members := fun M k b hk =>
      .inl (hv.members_update hns hk₀ (some (a.newRecord g.depositAmount _)) hk) }⟩

theorem LeaveGroup.Effect.shows {a : LeaveGroup K} {r : MemberRecord K} (hL : Layout E L)
    (hv : Shows E L a.groupConfig g v) (h : LeaveGroup.Effect E ctx a L L' events g r) :
    Reflects E L' a.groupConfig (events.foldl (follow a.groupConfig) (some v)) := by
  have hns := not_settled_of_open h.isOpen
  have hk₀ := hL.record_found h.record h.address
  obtain ⟨p, mt, vt, cm, -, -, -, -, -, -, -, -, -, rfl, rfl⟩ := h.post
  rw [foldl_follow_one (by rfl) (by simp) (by simp)]
  exact ⟨_, update_self .., { hv with
    currentMembers := fun _ => rfl
    members := fun M k b hk => .inl (hv.members_update hns hk₀ none hk) }⟩

theorem StartCycle.Effect.shows {a : StartCycle K} (hv : Shows E L a.groupConfig g v)
    (h : StartCycle.Effect E ctx a L L' events g g') :
    Reflects E L' a.groupConfig (events.foldl (follow a.groupConfig) (some v)) := by
  have hns := not_settled_of_open h.isOpen
  obtain ⟨c, hc, rfl⟩ := h.cycleEnd
  obtain rfl := h.post
  obtain rfl := h.group'
  rw [foldl_follow_one (by rfl) (by simp) (by simp)]
  exact ⟨_, update_self .., { hv with
    currentMembers := fun _ => hv.currentMembers hns
    status := rfl
    cycleStart := rfl
    cycleEnd := fun _ => hc
    members := fun M k b hk => .inl (hv.member hns hk) }⟩

omit [DecidableEq K] in
theorem MemberRecord.view_mark {r r' : MemberRecord K} {period : UInt8} {n : UInt64}
    (h : r.mark period n = .ok r') :
    r'.view = r.view.deposited period n r'.depositsMade := by
  obtain ⟨-, made, total, -, htotal, rfl⟩ := MemberRecord.mark_eq_ok.1 h
  unfold checkedAdd64 at htotal
  obtain rfl := Option.some.inj (Option.ite_none_right_eq_some.1 htotal).2
  rfl

theorem Deposit.Effect.shows {a : Deposit K} {r : MemberRecord K} (hL : Layout E L)
    (hv : Shows E L a.groupConfig g v) (h : Deposit.Effect E ctx a L L' events g r) :
    Reflects E L' a.groupConfig (events.foldl (follow a.groupConfig) (some v)) := by
  have hns := not_settled_of_active h.active
  have hk₀ := hL.record_found h.record h.address
  obtain ⟨p, mt, vt, -, -, -, -, -, -, -, -, hpost⟩ := h.post
  obtain ⟨d, c, period, r', -, -, -, -, hmark, hrec, rfl⟩ := h.period
  have hgroup : L'.group a.groupConfig = some g := by rw [hpost]; exact h.group
  have hgate : L'.gate = L.gate := by rw [hpost]
  have hmember : v.members a.member = some r.view := by
    rw [hv.member hns hk₀, h.record]
    rfl
  rw [foldl_follow_one (by rfl) (by simp) (by simp)]
  refine ⟨g, hgroup, { hv with
    authority := fun J b hJ => by rw [hgate]; exact hv.authority J b hJ
    members := fun M k b hk => .inl ?_ }⟩
  rw [hrec, ← hv.members_update hns hk₀ (some r') hk, Option.map_some, r.view_mark hmark]
  simp only [GroupView.apply, hmember, Option.map_some]

/-- The records of a group outlive its settlement. -/
theorem Settled.shows {vault : K} {remaining : List K} {p : TokenProgram} {t : TokenAccount K}
    {rs : List (MemberRecord K)} {burned : UInt64} {v' : GroupView K}
    (hv : Shows E L G g v) (h : Settled E L L' G vault remaining g g' p t rs burned)
    (hns : ¬g.isSettled) (hs : g'.isSettled) (hg : g.SameInstance g')
    (hstart : g'.cycleStart = g.cycleStart) (hv' : v' = { v with status := g'.status }) :
    Reflects E L' G (some v') := by
  obtain rfl := h.post
  subst hv'
  rw [hg] at hs ⊢
  exact ⟨_, update_self .., { hv with
    currentMembers := fun h => absurd hs h
    status := rfl
    cycleStart := hv.cycleStart.trans hstart.symm
    cycleEnd := fun ha => absurd hs (not_settled_of_active ha)
    members := fun M k b hk => .inl (hv.member hns hk) }⟩

theorem SetJoinAuthority.Effect.shows {a : SetJoinAuthority K} {authority : K}
    (hv : Shows E L a.groupConfig g v)
    (h : SetJoinAuthority.Effect E ctx a authority L L' events g) :
    Reflects E L' a.groupConfig (events.foldl (follow a.groupConfig) (some v)) := by
  obtain ⟨b₀, hJ₀⟩ := h.address
  obtain ⟨n, -, -, rfl⟩ := h.post
  rw [h.events, foldl_follow_one (by rfl) (by simp) (by simp)]
  refine ⟨g, h.group, { hv with authority := fun J b hJ => ?_ }⟩
  have hJJ : J = a.joinGate := congrArg Prod.fst (Option.some.inj (hJ.symm.trans hJ₀))
  have hgate : update L.gate a.joinGate (some { authority }) J = some { authority } := by
    rw [hJJ, update_self]
  exact (congrArg (Option.map JoinGate.authority) hgate).symm

theorem CloseMemberRecord.Effect.shows {a : CloseMemberRecord K} {r : MemberRecord K}
    (hv : Shows E L a.groupConfig g v) (h : CloseMemberRecord.Effect E ctx a L L' events g r) :
    Reflects E L' a.groupConfig (some v) := by
  obtain ⟨cm, -, rfl⟩ := h.post
  refine ⟨_, update_self .., { hv with
    currentMembers := fun hns => absurd h.settled hns
    members := fun M k b hk => ?_ }⟩
  by_cases he : k = a.memberRecord
  · subst he
    exact .inr ⟨h.settled, update_self ..⟩
  · dsimp only
    rw [update_of_ne he]
    exact hv.members M k b hk

/-- One instruction, to a reader that follows the group it names. -/
theorem Effect.reflects_own (hI : Inv E L) (h : Effect E ctx L L' events c)
    (ho : Reflects E L c.groupKey o) :
    Reflects E L' c.groupKey (events.foldl (follow c.groupKey) o) := by
  have hL := hI.toLayout
  have hgroup := h.event_group
  cases h with
  | createGroup h =>
    rw [h.events, List.foldl_cons, List.foldl_nil, follow, if_pos (by rfl)]
    exact h.shows hL
  | joinGroup h =>
    obtain ⟨v, rfl, hv⟩ := ho.some_of h.group
    exact h.shows hv
  | leaveGroup h =>
    obtain ⟨v, rfl, hv⟩ := ho.some_of h.group
    exact h.shows hL hv
  | startCycle h =>
    obtain ⟨v, rfl, hv⟩ := ho.some_of h.group
    exact h.shows hv
  | deposit h =>
    obtain ⟨v, rfl, hv⟩ := ho.some_of h.group
    exact h.shows hL hv
  | @distribute a remaining g p t rs total h hpass _ he =>
    obtain ⟨v, rfl, hv⟩ := ho.some_of h.group
    subst he
    rw [List.foldl_append, foldl_follow_memberSettled,
      foldl_follow_one (by rfl) (by simp) (by simp)]
    · exact h.shows hv (not_settled_of_active hpass.active) (.inl rfl) rfl rfl rfl
    · intro e he
      exact hgroup (.memberSettled e) (List.mem_append_left _ (List.mem_map_of_mem he))
  | emergencyCancel _ h hpass _ he =>
    obtain ⟨v, rfl, hv⟩ := ho.some_of h.group
    subst he
    rw [foldl_follow_one (by rfl) (by simp) (by simp)]
    exact h.shows hv (hpass.status.elim not_settled_of_open not_settled_of_active) (.inr rfl)
      rfl rfl rfl
  | closeGroup h =>
    obtain ⟨v, rfl, hv⟩ := ho.some_of h.group
    obtain ⟨n, -, rfl, rfl⟩ := h.post
    rw [List.foldl_cons, List.foldl_nil, follow, if_pos (by rfl)]
    exact update_self ..
  | setJoinAuthority h =>
    obtain ⟨v, rfl, hv⟩ := ho.some_of h.group
    exact h.shows hv
  | refundVaultRent h =>
    obtain rfl := h.events
    obtain rfl := h.post
    exact ho.congr rfl (fun _ _ _ => rfl) fun _ _ _ _ => rfl
  | closeMemberRecord h =>
    obtain ⟨v, rfl, hv⟩ := ho.some_of h.group
    obtain rfl := h.events
    exact h.shows hv
  | closeJoinTally h =>
    obtain rfl := ho.none_of h.closed
    obtain rfl := h.events
    obtain rfl := h.post
    exact h.closed

/-- What other groups do does not change a group, nor what its reader sees. -/
theorem Effect.reflects (hI : Inv E L) (h : Effect E ctx L L' events c) (ho : Reflects E L G o) :
    Reflects E L' G (events.foldl (follow G) o) := by
  by_cases hG : c.groupKey = G
  · subst hG
    exact h.reflects_own hI ho
  · have hL := hI.toLayout
    rw [foldl_follow_ne fun ev hev he => hG ((h.event_group ev hev).symm.trans he)]
    refine ho.congr ((h.frame hL).group (Ne.symm hG)) (fun J b hJ => ?_) fun M k b hk => ?_
    · exact (h.sameAt hL (E.findProgramAddress_create hJ) (Ne.symm hG)).gate
    · exact (h.sameAt hL (E.findProgramAddress_create hk) (Ne.symm hG)).record

/-- One step, to a reader that follows the group at `G`. -/
theorem Step.reflects {s s' : State K} {act : Action K} (hI : Inv E s.ledger)
    (h : Step E s act s') (ho : Reflects E s.ledger G o) :
    Reflects E s'.ledger G (act.emitted.foldl (follow G) o) := by
  cases h with
  | call h => exact (execute_effect hI.toLayout h).reflects hI ho
  | outside h =>
    refine ho.congr (congrFun h.group G) (fun J _ _ => ?_) fun _ k _ _ => ?_
    · exact congrFun h.gate J
    · exact congrFun h.record k

/-! ## Runs -/

section
variable {h newer : List (StepEntry K)} {s s' : State K} {act : Action K} {log : List (Event K)}

theorem replica_append {log' : List (Event K)} :
    replica G (log'.reverse ++ log) = log'.foldl (follow G) (replica G log) := by
  unfold replica
  rw [List.foldr_append, List.foldr_reverse]

theorem Reached.reflects (hr : Reached E h s) : Reflects E s.ledger G (replica G (eventLog h)) := by
  induction hr with
  | start h0 =>
    cases hg : State.group _ G with
    | none => exact hg
    | some g =>
      have := h0.program G
      rw [State.group_eq_some.1 hg] at this
      exact absurd trivial this
  | snoc hr hs ih =>
    rw [eventLog_cons, replica_append]
    exact hs.reflects (Reached.inv hr) ih

/-- An instruction other than `join_group` reports no join. -/
theorem Effect.no_joins (h : Effect E ctx L L' events c) {M : K}
    (hc : ∀ a terms expected, c ≠ .joinGroup a terms expected) :
    ∀ ev ∈ events, ev.joins? G M = none := by
  have single : ∀ {ev₀ : Event K}, events = [ev₀] → ev₀.joins? G M = none →
      ∀ ev ∈ events, ev.joins? G M = none := by
    intro ev₀ he h₀
    rw [he]
    exact List.forall_mem_singleton.2 h₀
  have silent : events = [] → ∀ ev ∈ events, ev.joins? G M = none := by
    intro he
    rw [he]
    exact List.forall_mem_nil _
  cases h with
  | createGroup h => exact single h.events rfl
  | joinGroup => exact absurd rfl (hc _ _ _)
  | leaveGroup h =>
    obtain ⟨p, mt, vt, cm, -, -, -, -, -, -, -, -, -, -, he⟩ := h.post
    exact single he rfl
  | startCycle h =>
    obtain ⟨ce, -, he⟩ := h.cycleEnd
    exact single he rfl
  | deposit h =>
    obtain ⟨duration, ce, period, r', -, -, -, -, -, -, he⟩ := h.period
    exact single he rfl
  | distribute _ _ _ he =>
    rw [he]
    intro ev hev
    rcases List.mem_append.1 hev with hev | hev
    · obtain ⟨x, -, rfl⟩ := List.mem_map.1 hev
      rfl
    · rw [List.mem_singleton.1 hev]
      rfl
  | emergencyCancel _ _ _ _ he => exact single he rfl
  | closeGroup h =>
    obtain ⟨n, -, -, he⟩ := h.post
    exact single he rfl
  | setJoinAuthority h => exact single h.events rfl
  | refundVaultRent h => exact silent h.events
  | closeMemberRecord h => exact silent h.events
  | closeJoinTally h => exact silent h.events

theorem lastJoins?_append_of_forall {M : K} (h : ∀ ev ∈ events, ev.joins? G M = none) :
    lastJoins? G M (events.reverse ++ log) = lastJoins? G M log := by
  have hnone : events.reverse.findSome? (Event.joins? G M) = none :=
    List.findSome?_eq_none_iff.2 fun ev hev => h ev (List.mem_reverse.1 hev)
  rw [lastJoins?, List.findSome?_append, hnone, Option.none_or]
  rfl

/-- A join counts itself in the tally of its member, and no other tally. -/
theorem JoinGroup.Effect.lastJoins {a : JoinGroup K} {terms : GroupTerms K}
    {expected : Option UInt32} {t : JoinTally K} {n₁ n₂ : Nat}
    (h : JoinGroup.Effect E ctx a terms expected L L' events g t n₁ n₂) {M T : K} {b : UInt8}
    (hT : E.findProgramAddress (.tally G M) = some (T, b))
    (ho : ∀ t, L.tally T = some t → lastJoins? G M log = some t.joins) :
    ∀ t, L'.tally T = some t → lastJoins? G M (events.reverse ++ log) = some t.joins := by
  intro t' ht'
  obtain ⟨b₀, hT₀⟩ := h.tallyAddress
  obtain ⟨p, mt, vt, rb, cm, joins, -, -, -, -, -, -, -, -, -, -, -, hpost, rfl⟩ := h.post
  rw [hpost] at ht'
  dsimp only at ht'
  by_cases hM : a.groupConfig = G ∧ a.member = M
  · obtain ⟨rfl, rfl⟩ := hM
    have hTT : T = a.joinTally := congrArg Prod.fst (Option.some.inj (hT.symm.trans hT₀))
    subst hTT
    rw [update_self] at ht'
    obtain rfl := Option.some.inj ht'
    simp [lastJoins?, Event.joins?]
  · have hne : T ≠ a.joinTally := by
      apply Env.address_ne (E.findProgramAddress_create hT) (E.findProgramAddress_create hT₀)
      intro hs
      obtain ⟨rfl, rfl⟩ := Seeds.tally.inj hs
      exact hM ⟨rfl, rfl⟩
    rw [update_of_ne hne] at ht'
    have hquiet : Event.joins? G M (.memberJoined a.groupConfig a.member a.rentPayer
        g.depositAmount cm joins) = none := if_neg hM
    rw [lastJoins?_append_of_forall (List.forall_mem_singleton.2 hquiet)]
    exact ho t' ht'

/-- A stored tally counts the joins reported last. -/
theorem Effect.lastJoins (h : Effect E ctx L L' events c) {M T : K} {b : UInt8}
    (hT : E.findProgramAddress (.tally G M) = some (T, b))
    (ho : ∀ t, L.tally T = some t → lastJoins? G M log = some t.joins) :
    ∀ t, L'.tally T = some t → lastJoins? G M (events.reverse ++ log) = some t.joins := by
  by_cases hc : ∀ a terms expected, c ≠ .joinGroup a terms expected
  · intro t ht
    rw [lastJoins?_append_of_forall (h.no_joins hc)]
    rcases h.tallyStep T with hsame | ⟨a, terms, expected, g, t, n₁, n₂, hj, -, -⟩ |
      ⟨a, member, t, -, rfl, h⟩
    · exact ho t (hsame.symm.trans ht)
    · exact absurd hj (hc a terms expected)
    · rw [h.post] at ht
      cases (update_self ..).symm.trans ht
  · obtain ⟨a, terms, expected, rfl⟩ : ∃ a terms expected, c = .joinGroup a terms expected := by
      simpa using hc
    cases h with
    | joinGroup h => exact h.lastJoins hT ho

theorem Reached.lastJoins (hr : Reached E h s) {M T : K} {b : UInt8}
    (hT : E.findProgramAddress (.tally G M) = some (T, b)) :
    ∀ t, s.tally T = some t → lastJoins? G M (eventLog h) = some t.joins := by
  induction hr with
  | start h0 =>
    intro t ht
    have := h0.program T
    rw [State.tally_eq_some.1 ht] at this
    exact absurd trivial this
  | snoc hr hs ih =>
    rw [eventLog_cons]
    cases hs with
    | call hx => exact (execute_effect (Reached.inv hr).toLayout hx).lastJoins hT ih
    | outside hx =>
      intro t ht
      exact ih t ((congrFun hx.tally T).symm.trans ht)

/-- In every run, what a reader of the event log alone knows of the group at an address is what its
accounts hold: whether a group lives there, its terms other than the frequency, its status, cycle
and join authority, and until it is settled its members with every deposit of each; after the
settlement the records that are still open. The frequency is in no event; it shows in the cycle end
of an active group. A stored tally counts the joins the log reports last. -/
theorem log_replays (hr : Reached E h s) (G : K) :
    (∀ g, s.group G = some g → ∃ v, replica G (eventLog h) = some v ∧ Shows E s.ledger G g v) ∧
      (s.group G = none → replica G (eventLog h) = none) ∧
      ∀ M T b t, E.findProgramAddress (.tally G M) = some (T, b) → s.tally T = some t →
        lastJoins? G M (eventLog h) = some t.joins :=
  ⟨fun _ hg => (Reached.reflects hr).some_of hg, (Reached.reflects hr).none_of,
    fun _ _ _ _ hT => Reached.lastJoins hr hT _⟩

end

/-- The log of a group whose cycle has started. -/
theorem log_replays_started : ∃ h s g v, Reached symbolic h s ∧ s.group Demo.G = some g ∧
    g.status = STATUS_ACTIVE ∧ replica Demo.G (eventLog h) = some v ∧
    Shows symbolic s.ledger Demo.G g v := by
  obtain ⟨h, s, hr, hs⟩ := replay_exists Demo.started (world_genesis 10000 100)
    (fun _ s => (s.group Demo.G).any fun g => g.status == STATUS_ACTIVE) (by decide +kernel)
  simp only [Option.any_eq_true, beq_iff_eq] at hs
  obtain ⟨g, hg, ha⟩ := hs
  obtain ⟨v, hv, hshows⟩ := (log_replays hr Demo.G).1 g hg
  exact ⟨h, s, g, v, hr, hg, ha, hv, hshows⟩

end

end SafeNudge
