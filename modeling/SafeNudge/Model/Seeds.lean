import SafeNudge.Lib.Utf8
import SafeNudge.Model.Env

/-!
# Seed bytes

The bytes an address is derived from. The runtime hashes the seeds one after the other, without
separators or lengths, then the bump, the program id and a marker. Keys are 32 bytes here; the hash
and the curve are parameters.
-/

namespace SafeNudge

open Lib

/-- The first seed of an address. -/
def Seeds.family {K : Type} : Seeds K → String
  | .group _ => "group"
  | .vault _ => "vault"
  | .member _ _ => "member"
  | .join _ => "join"
  | .tally _ _ => "tally"

/-- The other seeds. -/
def Seeds.parts : Seeds (Vector UInt8 32) → List (List UInt8)
  | .group code => [Utf8.encode code]
  | .vault G => [G.toList]
  | .member G M => [G.toList, M.toList]
  | .join G => [G.toList]
  | .tally G M => [G.toList, M.toList]

/-- `seeds = [..]` of the account constraints. -/
def Seeds.list (s : Seeds (Vector UInt8 32)) : List (List UInt8) := Utf8.encode s.family :: s.parts

/-- The part of the hash input that varies. -/
def Seeds.bytes (s : Seeds (Vector UInt8 32)) (bump : UInt8) : List UInt8 :=
  s.list.flatten ++ [bump]

def MAX_SEED_LEN : Nat := 32

section
variable (hash : List UInt8 → Vector UInt8 32) (onCurve : Vector UInt8 32 → Bool)
  (programId : Vector UInt8 32)

def hashInput (s : Seeds (Vector UInt8 32)) (bump : UInt8) : List UInt8 :=
  s.bytes bump ++ (programId.toList ++ Utf8.encode "ProgramDerivedAddress")

/-- `Pubkey::create_program_address`. -/
def createProgramAddress (s : Seeds (Vector UInt8 32)) (bump : UInt8) : Option (Vector UInt8 32) :=
  if s.list.any fun seed => MAX_SEED_LEN < seed.length then none
  else
    let address := hash (hashInput programId s bump)
    if onCurve address then none else some address

end

/-! ## No two derivations hash the same bytes -/

variable {s s' : Seeds (Vector UInt8 32)} {b b' : UInt8}

/-- The families differ in their first byte. -/
theorem Seeds.family_eq (h : (s.bytes b).head? = (s'.bytes b').head?) : s.family = s'.family := by
  have hfamilies : ∀ f ∈ ["group", "vault", "member", "join", "tally"],
      Utf8.encode f ≠ [] ∧ ∀ f' ∈ ["group", "vault", "member", "join", "tally"],
        (Utf8.encode f).head? = (Utf8.encode f').head? → f = f' := by
    decide +kernel
  have hmem : ∀ s : Seeds (Vector UInt8 32),
      s.family ∈ ["group", "vault", "member", "join", "tally"] := by
    intro s
    cases s <;> simp [family]
  have hhead : ∀ (s : Seeds (Vector UInt8 32)) (b : UInt8),
      (s.bytes b).head? = (Utf8.encode s.family).head? := by
    intro s b
    rw [bytes, list, List.flatten_cons, List.append_assoc]
    cases hf : Utf8.encode s.family with
    | nil => exact absurd hf (hfamilies _ (hmem s)).1
    | cons => rfl
  rw [hhead, hhead] at h
  exact (hfamilies _ (hmem s)).2 _ (hmem s') h

theorem Seeds.bytes_inj (h : s.bytes b = s'.bytes b') : s = s' ∧ b = b' := by
  have hfamily := family_eq (congrArg List.head? h)
  obtain ⟨hlist, hbump⟩ := List.append_inj' h rfl
  have hparts : s.parts.flatten = s'.parts.flatten := by
    rw [list, list, hfamily] at hlist
    exact List.append_cancel_left hlist
  have hone : ∀ {G G' : Vector UInt8 32}, [G.toList].flatten = [G'.toList].flatten → G = G' := by
    intro G G' h
    rw [List.flatten_singleton, List.flatten_singleton] at h
    exact Vector.toList_inj.1 h
  have htwo : ∀ {G M G' M' : Vector UInt8 32},
      [G.toList, M.toList].flatten = [G'.toList, M'.toList].flatten → G = G' ∧ M = M' := by
    intro G M G' M' h
    obtain ⟨hG, hM⟩ := List.append_inj h (by simp)
    exact ⟨Vector.toList_inj.1 hG, hone hM⟩
  refine ⟨?_, List.singleton_inj.1 hbump⟩
  cases s with
  | group code =>
    cases s' with
    | group code' =>
      have hcode : Utf8.encode code = Utf8.encode code' := by simpa [parts] using hparts
      rw [Utf8.encode_inj hcode]
    | _ => simp [family] at hfamily
  | vault G =>
    cases s' with
    | vault G' => rw [hone hparts]
    | _ => simp [family] at hfamily
  | member G M =>
    cases s' with
    | member G' M' => rw [(htwo hparts).1, (htwo hparts).2]
    | _ => simp [family] at hfamily
  | join G =>
    cases s' with
    | join G' => rw [hone hparts]
    | _ => simp [family] at hfamily
  | tally G M =>
    cases s' with
    | tally G' M' => rw [(htwo hparts).1, (htwo hparts).2]
    | _ => simp [family] at hfamily

end SafeNudge
