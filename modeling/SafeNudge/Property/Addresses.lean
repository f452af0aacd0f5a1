import SafeNudge.Model.Seeds

/-!
# Addresses cannot be confused

`Env` takes it as a law that different derivations have different addresses. Here is what the law
rests on: the bytes that go into the hash differ, whatever the group code is, so that two
derivations with one address are a collision of the hash.
-/

namespace SafeNudge

open Lib

variable {hash : List UInt8 → Vector UInt8 32} {onCurve : Vector UInt8 32 → Bool}
  {programId k : Vector UInt8 32} {s s' : Seeds (Vector UInt8 32)} {b b' : UInt8}

theorem createProgramAddress_eq_some (h : createProgramAddress hash onCurve programId s b = some k) :
    hash (hashInput programId s b) = k := by
  unfold createProgramAddress at h
  split at h
  · cases h
  · dsimp only at h
    split at h
    · cases h
    · exact Option.some.inj h

theorem hashInput_inj (h : hashInput programId s b = hashInput programId s' b') : s = s' ∧ b = b' :=
  Seeds.bytes_inj (List.append_cancel_right h)

/-- Seed bytes with a bump determine the family, the code or keys, and the bump; and where the hash
tells the inputs of two derivations apart, they have one address only if they are the same. -/
theorem addresses_distinct (hash : List UInt8 → Vector UInt8 32) (onCurve : Vector UInt8 32 → Bool)
    (programId : Vector UInt8 32) (s s' : Seeds (Vector UInt8 32)) (b b' : UInt8) :
    (s.bytes b = s'.bytes b' ↔ s = s' ∧ b = b') ∧
    ((hash (hashInput programId s b) = hash (hashInput programId s' b') →
        hashInput programId s b = hashInput programId s' b') →
      ∀ k, createProgramAddress hash onCurve programId s b = some k →
        createProgramAddress hash onCurve programId s' b' = some k → s = s' ∧ b = b') := by
  constructor
  · exact ⟨Seeds.bytes_inj, fun ⟨hs, hb⟩ => hs ▸ hb ▸ rfl⟩
  · intro hcollision k hk hk'
    have hhash := (createProgramAddress_eq_some hk).trans (createProgramAddress_eq_some hk').symm
    exact hashInput_inj (hcollision hhash)

namespace Demo

/-- A hash of the first 32 bytes. -/
def firstBytes (bytes : List UInt8) : Vector UInt8 32 := .ofFn fun i => bytes.getD i 0

/-- The address of seeds with the bump 255. -/
def address (s : Seeds (Vector UInt8 32)) : Option (Vector UInt8 32) :=
  createProgramAddress firstBytes (fun _ => false) (.replicate 32 9) s 255

end Demo

/-- A group and a vault. -/
theorem addresses_distinct_vault : (Demo.address (.group "amigos")).isSome ∧
    Demo.address (.group "amigos") ≠ Demo.address (.vault (.replicate 32 1)) := by
  have hsome : (Demo.address (.group "amigos")).isSome := by decide +kernel
  refine ⟨hsome, fun he => ?_⟩
  obtain ⟨k, hk⟩ := Option.isSome_iff_exists.1 hsome
  have hsame := (addresses_distinct Demo.firstBytes (fun _ => false) (.replicate 32 9)
    (.group "amigos") (.vault (.replicate 32 1)) 255 255).2 (fun h => absurd h (by decide +kernel))
    k hk (he.symm.trans hk)
  cases hsame.1

end SafeNudge
