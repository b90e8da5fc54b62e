/-
This file gives a hasher without collisions, whose hashes are the terms of their own inputs, and
a platform for the shifts that the language leaves open.
-/

import MachineEmulator.Construction.Hasher

namespace MachineEmulator

/-- A digest records what was hashed. -/
inductive Digest where
  | word (data : List Byte)
  | pair (left right : Digest)
deriving DecidableEq

instance : Inhabited Digest := ⟨.word []⟩

def symbolicHasher : Hasher Digest where
  hash := .word
  concatHash := .pair
  ofBytes := .word

theorem symbolicHasher_collisionFree : symbolicHasher.CollisionFree where
  word := fun _ _ _ _ same => Digest.word.inj same
  pair := fun _ _ _ _ same => Digest.pair.inj same
  apart := by
    rintro left right ⟨data, _, same⟩
    cases same

/-- A platform that makes zero of every oversized shift. -/
def noBits : Word → Nat → Bool := fun _ _ => false

end MachineEmulator
