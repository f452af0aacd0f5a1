import SafeNudge.Lib.Simulation
import SafeNudge.Model.Deserialize
import SafeNudge.Model.Run

/-!
# The program on stored bytes

On the chain an account of this program is a buffer of bytes. `Chain` is that state: at each
address the bytes, if this program owns the account, or an account of somebody else. An instruction
reads its accounts from the bytes, runs, and on exit `try_serialize` writes each account over the
front of its buffer; `init` has allocated `8 + INIT_SPACE` zeroed bytes for a new one. What follows
the fields stays in the buffer, and a write that does not fit makes the transaction fail.
-/

namespace SafeNudge

open Lib

variable {K : Type}

inductive Slot (K : Type) where
  /-- Owned by this program. -/
  | data (bytes : List UInt8)
  | foreign (a : Account K)

structure Chain (K : Type) where
  lamports : K → Nat
  slot : K → Slot K

/-- `space = 8 + T::INIT_SPACE` of the `init` constraints. -/
def Account.space : Account K → Nat
  | .groupConfig _ => GROUP_CONFIG_SPACE
  | .memberRecord _ => MEMBER_RECORD_SPACE
  | .joinGate _ => JOIN_GATE_SPACE
  | .joinTally _ => JOIN_TALLY_SPACE
  | _ => 0

/-- A write to the front of a buffer of fixed length. -/
def overwrite (data bytes : List UInt8) : Option (List UInt8) :=
  if bytes.length ≤ data.length then some (bytes ++ data.drop bytes.length) else none

section
variable [DecidableEq K] (E : Env K) (keys : KeyBytes K)

/-- Reads what is at an address. Bytes that no account type reads are nobody's account. -/
def Slot.account : Slot K → Account K
  | .data bytes => (Account.ofData? keys bytes).getD (.other E.programId)
  | .foreign a => a

def Chain.state (c : Chain K) : State K := ⟨c.lamports, fun k => (c.slot k).account E keys⟩

/-- The buffer of an account: the bytes that are there, or the zeros of `init`. -/
def Slot.buffer (space : Nat) : Slot K → List UInt8
  | .data bytes => bytes
  | .foreign _ => .replicate space 0

/-- Leaves the account `a` at an address. Bytes of no account type stay as they are. -/
def Slot.write (slot : Slot K) : Account K → Option (Slot K)
  | .other o => some (if o = E.programId then slot else .foreign (.other o))
  | .system => some (.foreign .system)
  | .token p t => some (.foreign (.token p t))
  | .mint p m => some (.foreign (.mint p m))
  | a => (overwrite (slot.buffer a.space) (a.serialize keys.toBytes)).map .data

/-- What the runtime lets other programs do. Only the owner of an account changes its data or takes
lamports from it, and an account that comes to this program is zeroed; the rest is as in
`Outside`. -/
structure Chain.Outside (c c' : Chain K) : Prop where
  owned : ∀ k bytes, c.slot k = .data bytes →
    c'.slot k = .data bytes ∧ c.lamports k ≤ c'.lamports k
  assigned : ∀ k bytes, c'.slot k = .data bytes → c.slot k = .data bytes ∨ ∀ b ∈ bytes, b = 0
  foreign : ∀ k a, c'.slot k = .foreign a → a.owner E ≠ E.programId
  derived : ∀ {seeds : Seeds K} {b : UInt8} {k : K}, E.createProgramAddress seeds b = some k →
    c.lamports k ≤ c'.lamports k ∧ (c.slot k = .foreign .system → c'.slot k = .foreign .system) ∧
      ∀ p t, c.slot k = .foreign (.token p t) →
        ∃ n, t.amount ≤ n ∧ c'.slot k = .foreign (.token p { t with amount := n })
  mint : ∀ k a, c.slot k = .foreign a → a.IsSupportedMint E k →
    ∃ a', c'.slot k = .foreign a' ∧ a'.IsSupportedMint E k

inductive Chain.Step : Chain K → Action K → Chain K → Prop where
  | call {ctx : Ctx K} {call : Call K} {c c' : Chain K} {s' : State K} {events : List (Event K)} :
      execute E ctx call (c.state E keys) = .ok (s', events) → c'.lamports = s'.lamports →
      (∀ k, (c.slot k).write E keys (s'.account k) = some (c'.slot k)) →
      Chain.Step c (.call ctx call events) c'
  | outside {c c' : Chain K} : Chain.Outside E c c' → Chain.Step c .outside c'

/-- Before the first instruction this program owns nothing, or accounts of zeros. -/
structure Chain.Genesis (c : Chain K) : Prop where
  data : ∀ k bytes, c.slot k = .data bytes → ∀ b ∈ bytes, b = 0
  foreign : ∀ k a, c.slot k = .foreign a → a.owner E ≠ E.programId
  derived : ∀ {seeds : Seeds K} {b : UInt8} {k : K}, E.createProgramAddress seeds b = some k →
    c.slot k = .foreign .system

end

end SafeNudge
