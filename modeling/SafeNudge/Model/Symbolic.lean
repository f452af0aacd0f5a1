import SafeNudge.Model.Run

/-!
# A symbolic runtime

The laws of `Env` can be met: `symbolic` has keys that are terms, and derives the address of seeds
and a bump as the term that names them. Runs on it evaluate, so `replay` executes a list of calls
and gives the history and the state they reach.
-/

namespace SafeNudge

open Lib

inductive SymbolicKey where
  | program
  | system
  | tokenProgram
  | token2022Program
  | nativeMint
  | nativeMint2022
  | instructionsSysvar
  | wallet (n : Nat)
  | mint (n : Nat)
  | associated (owner program mint : SymbolicKey)
  | group (code : String) (bump : UInt8)
  | vault (group : SymbolicKey) (bump : UInt8)
  | member (group member : SymbolicKey) (bump : UInt8)
  | join (group : SymbolicKey) (bump : UInt8)
  | tally (group member : SymbolicKey) (bump : UInt8)
  deriving DecidableEq

namespace SymbolicKey

/-- The address of seeds and a bump. -/
def derive : Seeds SymbolicKey → UInt8 → SymbolicKey
  | .group code, b => .group code b
  | .vault G, b => .vault G b
  | .member G M, b => .member G M b
  | .join G, b => .join G b
  | .tally G M, b => .tally G M b

def isWallet : SymbolicKey → Bool
  | .wallet _ => true
  | _ => false

theorem derive_inj {s s' : Seeds SymbolicKey} {b b' : UInt8} (h : derive s b = derive s' b') :
    s = s' ∧ b = b' := by
  cases s <;> cases s' <;> simp_all [derive]

theorem derive_isWallet (s : Seeds SymbolicKey) (b : UInt8) : (derive s b).isWallet = false := by
  cases s <;> rfl

end SymbolicKey

open SymbolicKey

/-- The symbolic runtime: no derived address is on the curve, and wallets sign. -/
def symbolic : Env SymbolicKey where
  programId := .program
  systemProgram := .system
  tokenProgram := .tokenProgram
  token2022Program := .token2022Program
  nativeMint := .nativeMint
  nativeMint2022 := .nativeMint2022
  instructionsSysvar := .instructionsSysvar
  devnet := false
  associatedTokenAddress := .associated
  createProgramAddress s b := some (derive s b)
  canSign := isWallet
  programs_nodup := by decide
  createProgramAddress_inj h h' := derive_inj (Option.some.inj (h.trans h'.symm))
  createProgramAddress_canSign := by
    rintro s b k h
    rw [← Option.some.inj h]
    exact derive_isWallet s b

theorem symbolic_findProgramAddress (s : Seeds SymbolicKey) :
    symbolic.findProgramAddress s = some (derive s 255, 255) := rfl

/-- A world before the program: wallets hold `lamports`, the mint `.mint 0` is a plain SPL mint,
and every wallet has an associated token account with `tokens`. -/
def world (lamports : Nat) (tokens : UInt64) : State SymbolicKey where
  lamports k := if k.isWallet then lamports else 0
  account
    | .mint 0 => .mint .token { decimals := 6, supply := tokens, extensions := some [] }
    | .associated (.wallet n) .tokenProgram (.mint 0) =>
      .token .token { mint := .mint 0, owner := .wallet n, amount := tokens }
    | _ => .system

theorem world_genesis (lamports : Nat) (tokens : UInt64) :
    Genesis symbolic (world lamports tokens) := by
  refine ⟨fun k => ?_, fun {seeds b k} h => ?_⟩
  · unfold world
    dsimp only
    split <;> exact id
  · rw [← Option.some.inj h]
    cases seeds <;> rfl

/-! ## Replay -/

variable {K : Type} [DecidableEq K]

/-- Executes the calls in order, on top of the history `h`. -/
def replay (E : Env K) : List (Ctx K × Call K) → List (StepEntry K) → State K →
    Option (List (StepEntry K) × State K)
  | [], h, s => some (h, s)
  | (ctx, c) :: calls, h, s =>
    match execute E ctx c s with
    | .ok (s', events) => replay E calls (⟨s, .call ctx c events, s'⟩ :: h) s'
    | .error _ => none

theorem replay_reached {E : Env K} {calls : List (Ctx K × Call K)} {h h' : List (StepEntry K)}
    {s s' : State K} (hr : Reached E h s) (he : replay E calls h s = some (h', s')) :
    Reached E h' s' := by
  induction calls generalizing h s with
  | nil =>
    cases he
    exact hr
  | cons call calls ih =>
    simp only [replay] at he
    split at he
    · exact ih (.snoc hr (.call ‹_›)) he
    · cases he

theorem replay_append {E : Env K} {calls calls' : List (Ctx K × Call K)} {h h' : List (StepEntry K)}
    {s s' : State K}
    (hc : replay E calls h s = some (h', s')) :
    replay E (calls ++ calls') h s = replay E calls' h' s' := by
  induction calls generalizing h s with
  | nil =>
    cases hc
    rfl
  | cons x calls ih =>
    simp only [replay] at hc
    split at hc
    · rename_i hx
      simp only [List.cons_append, replay, hx]
      exact ih hc
    · cases hc

/-- The history of a replay holds its calls. -/
theorem replay_mem {E : Env K} {calls : List (Ctx K × Call K)} {h h' : List (StepEntry K)}
    {s s' : State K} (hc : replay E calls h s = some (h', s')) {e : StepEntry K} (he : e ∈ h') :
    e ∈ h ∨ ∃ x ∈ calls, ∃ events, e.act = .call x.1 x.2 events := by
  induction calls generalizing h s with
  | nil =>
    cases hc
    exact .inl he
  | cons x calls ih =>
    simp only [replay] at hc
    split at hc
    · rcases ih hc with he | ⟨y, hy, hev⟩
      · rcases List.mem_cons.1 he with rfl | he
        · exact .inr ⟨x, List.mem_cons_self, _, rfl⟩
        · exact .inl he
      · exact .inr ⟨y, List.mem_cons_of_mem _ hy, hev⟩
    · cases hc

/-- A run that replays up to a state with `p` is a run of the program. -/
theorem replay_exists {E : Env K} (calls : List (Ctx K × Call K)) {s : State K}
    (h0 : Genesis E s) (p : List (StepEntry K) → State K → Bool)
    (hp : ((replay E calls [] s).any fun x => p x.1 x.2) = true) :
    ∃ h s', Reached E h s' ∧ p h s' = true := by
  obtain ⟨⟨h, s'⟩, he, hps⟩ := (Option.any_eq_true _ _).1 hp
  exact ⟨h, s', replay_reached (.start h0) he, hps⟩

/-! ## A group on the symbolic runtime

The calls on the group with code "a" for a weekly deposit of 5 tokens over two periods; member `n`
is the wallet `n`, and wallet 0 creates the group. -/

namespace Demo

def G : SymbolicKey := .group "a" 255
def V : SymbolicKey := .vault G 255
def J : SymbolicKey := .join G 255
def token (n : Nat) : SymbolicKey := .associated (.wallet n) .tokenProgram (.mint 0)
def record (n : Nat) : SymbolicKey := .member G (.wallet n) 255
def tally (n : Nat) : SymbolicKey := .tally G (.wallet n) 255

/-- A transaction these wallets sign, at a time, with a rent rate of one lamport. -/
def tx (signers : List Nat) (unixTimestamp : Int64) : Ctx SymbolicKey where
  signers := signers.map .wallet
  unixTimestamp
  rent := ⟨1, Nat.one_pos⟩
  firstInstruction := ⟨.program, []⟩
  refuses _ := false

def create : Call SymbolicKey :=
  .createGroup
    { creator := .wallet 0, rentPayer := .wallet 0, groupConfig := G, vault := V, mint := .mint 0,
      tokenProgram := .tokenProgram }
    "a" 5 0 2 3

/-- Another group of the same creator and mint. -/
def other : SymbolicKey := .group "b" 255

def createOther : Call SymbolicKey :=
  .createGroup
    { creator := .wallet 0, rentPayer := .wallet 0, groupConfig := other, vault := .vault other 255,
      mint := .mint 0, tokenProgram := .tokenProgram }
    "b" 7 0 3 4

def setGate (n : Nat) : Call SymbolicKey :=
  .setJoinAuthority
    { creator := .wallet 0, rentPayer := .wallet 0, groupConfig := G, joinGate := J } (.wallet n)

/-- A join that `payer` pays for. -/
def joinFrom (payer : Nat) (n : Nat) (authority : SymbolicKey) (expected : Option UInt32) :
    Call SymbolicKey :=
  .joinGroup
    { member := .wallet n, rentPayer := .wallet payer, groupConfig := G, memberRecord := record n,
      memberTokenAccount := token n, vault := V, mint := .mint 0, tokenProgram := .tokenProgram,
      joinGate := J, joinAuthority := authority, instructionsSysvar := .instructionsSysvar,
      joinTally := tally n }
    ⟨.wallet 0, 5, 0, 2⟩ expected

def join (n : Nat) : Call SymbolicKey := joinFrom n n .program none

def leaveAccounts (n : Nat) : LeaveGroup SymbolicKey where
  member := .wallet n
  groupConfig := G
  memberRecord := record n
  rentPayer := .wallet n
  memberTokenAccount := token n
  vault := V
  mint := .mint 0
  tokenProgram := .tokenProgram

def leave (n : Nat) : Call SymbolicKey := .leaveGroup (leaveAccounts n)

def start : Call SymbolicKey := .startCycle { creator := .wallet 0, groupConfig := G }

/-- A list of remaining accounts for these members. -/
def members (ns : List Nat) : List SymbolicKey := ns.flatMap fun n => [record n, token n]

def distributeAccounts : Distribute SymbolicKey where
  payer := .wallet 9
  groupConfig := G
  vault := V
  mint := .mint 0
  tokenProgram := .tokenProgram

def distribute (ns : List Nat) : Call SymbolicKey := .distribute distributeAccounts (members ns)

def cancelAccounts : EmergencyCancel SymbolicKey where
  creator := .wallet 0
  groupConfig := G
  vault := V
  mint := .mint 0
  tokenProgram := .tokenProgram
  mintIsWritable := true

def cancel (ns : List Nat) : Call SymbolicKey := .emergencyCancel cancelAccounts (members ns)

def close : Call SymbolicKey :=
  .closeGroup { groupConfig := G, rentPayer := .wallet 0, joinGate := J }

def closeTally (n : Nat) : Call SymbolicKey :=
  .closeJoinTally { groupConfig := G, joinTally := tally n, rentPayer := .wallet n } (.wallet n)

/-- Two members join. -/
def joined : List (Ctx SymbolicKey × Call SymbolicKey) :=
  [(tx [0] 0, create), (tx [1] 0, join 1), (tx [2] 0, join 2)]

/-- The cycle starts; it ends at 1209600. -/
def started : List (Ctx SymbolicKey × Call SymbolicKey) := joined ++ [(tx [0] 0, start)]

end Demo

end SafeNudge
