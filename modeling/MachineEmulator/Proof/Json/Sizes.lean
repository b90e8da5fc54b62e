/-
This file shows when the readers of access logs, proofs and back trees keep the sizes of a document.
-/

import MachineEmulator.Library.Settling
import MachineEmulator.Proof.Json.RoundTrip

namespace MachineEmulator.Json

open Collect (BackMerkleTree)
open Settling (settles_bind settles_check settles_congr settles_map)
open StepLog (HashFunctionType)

/-- A reader raises an exception, or accepts with a property. -/
abbrev Settles {α : Type} (step : Except Rejection α) (post : α → Prop) : Prop :=
  Settling.Settles .undefinedBehavior step post

section Numbers

/-- The mathematical value of a number. -/
def Value.number : Value → Option ℚ
  | .unsigned value => some ((value.toNat : ℕ) : ℚ)
  | .integer value => some ((value.toInt : ℤ) : ℚ)
  | .float value => some value
  | _ => none

/-- The value of a field of an object. -/
def Value.member (json : Value) (name : String) : Option Value :=
  match json with
  | .object fields => fields.lookup name
  | _ => none

/-- The field holds a size as a number. -/
def Holds (json : Value) (name : String) (size : Int) : Prop :=
  (json.member name).bind Value.number = some (size : ℚ)

/-- The field holds a size in the range of `int`. -/
def HoldsInt (json : Value) (name : String) : Prop :=
  ∃ size : Int, -2 ^ 31 ≤ size ∧ size < 2 ^ 31 ∧ Holds json name size

theorem field_name {json held : Value} {name path : String}
    (found : json.field (.name name) path = .ok (some held)) : json.member name = some held := by
  cases json with
  | object fields => exact Except.ok.inj found
  | null => cases found
  | array items =>
      simp only [Value.field] at found
      split at found <;> cases found
  | boolean _ => cases found
  | unsigned _ => cases found
  | integer _ => cases found
  | float _ => cases found
  | string _ => cases found

theorem getField_ok {α : Type} {read : Reader α} {json : Value} {name path : String} {value : α}
    (ran : getField read json (.name name) path = .ok value) :
    ∃ held, json.member name = some held ∧ read held path name = .ok value := by
  rw [getField] at ran
  obtain ⟨found, field, ran⟩ := bind_ok.mp ran
  cases found with
  | none => cases ran
  | some held => exact ⟨held, field_name field, ran⟩

/-- What has a field is an object, whose other fields are found without complaint. -/
theorem field_of_getField {α : Type} {read : Reader α} {json : Value} {name path : String}
    {value : α} (ran : getField read json (.name name) path = .ok value) (other place : String) :
    json.field (.name other) place = .ok (json.member other) := by
  obtain ⟨held, found, _⟩ := getField_ok ran
  cases json with
  | object fields => rfl
  | _ => cases found

/-- A number that is read is an integer, and the word holds it modulo 2^64. -/
theorem number_of_readUint64 {held : Value} {path name : String} {word : Word}
    (ran : readUint64 held path name = .ok word) :
    ∃ size : Int, held.number = some (size : ℚ) ∧ word = BitVec.ofInt 64 size ∧
      -2 ^ 63 ≤ size ∧ size < 2 ^ 64 := by
  cases held with
  | unsigned value =>
      obtain rfl := Except.ok.inj ran
      have bound := value.isLt
      exact ⟨value.toNat, by simp [Value.number], by simp, by omega, by omega⟩
  | integer value =>
      obtain rfl := Except.ok.inj ran
      have low := BitVec.le_toInt value
      have high := BitVec.toInt_lt (x := value)
      exact ⟨value.toInt, rfl, by simp, by omega, by omega⟩
  | float value =>
      rw [readUint64] at ran
      split at ran
      · cases ran
      · rename_i whole
        split at ran
        · cases ran
        · rename_i below
          obtain rfl := Except.ok.inj ran
          push Not at whole
          obtain ⟨positive, integral, small⟩ := whole
          have exact : ((value.num : ℤ) : ℚ) = value := Rat.coe_int_num_of_den_eq_one integral
          have low : 0 ≤ value.num := Rat.num_nonneg.mpr positive
          have high : value.num ≤ 2 ^ 64 := by
            rw [← exact] at small
            exact_mod_cast small
          exact ⟨value.num, by rw [exact]; rfl, rfl, by omega, by omega⟩
  | null => cases ran
  | boolean _ => cases ran
  | string _ => cases ran
  | array _ => cases ran
  | object _ => cases ran

/-- What a size field holds, and the word that is read from it. -/
theorem holds_of_getField {json : Value} {name path : String} {word : Word}
    (ran : getField readUint64 json (.name name) path = .ok word) :
    ∃ size : Int, Holds json name size ∧ word = BitVec.ofInt 64 size ∧
      -2 ^ 63 ≤ size ∧ size < 2 ^ 64 := by
  obtain ⟨held, found, read⟩ := getField_ok ran
  obtain ⟨size, number, word, bounds⟩ := number_of_readUint64 read
  refine ⟨size, ?_, word, bounds⟩
  rw [Holds, found]
  exact number

theorem Holds.unique {json : Value} {name : String} {size other : Int}
    (first : Holds json name size) (second : Holds json name other) : size = other := by
  rw [Holds, first] at second
  exact_mod_cast Option.some.inj second

/-- The conversion to `int` keeps exactly the sizes of its range. -/
theorem holds_castInt {json : Value} {name path : String} {word : Word}
    (ran : getField readUint64 json (.name name) path = .ok word) :
    Holds json name (castInt word) ↔ HoldsInt json name := by
  obtain ⟨size, holds, rfl, _⟩ := holds_of_getField ran
  constructor
  · intro kept
    exact ⟨_, BitVec.le_toInt _, BitVec.toInt_lt, kept⟩
  · rintro ⟨other, low, high, held⟩
    rw [held.unique holds] at low high
    rwa [castInt_ofInt low high]

/-- A size that passes the bound of the check is the one of the document. -/
theorem holds_of_le_intMax {json : Value} {name path : String} {word : Word}
    (ran : getField readUint64 json (.name name) path = .ok word) (small : word.toNat ≤ intMax) :
    Holds json name (castInt word) := by
  obtain ⟨size, holds, rfl, low, high⟩ := holds_of_getField ran
  have residue : ((BitVec.ofInt 64 size).toNat : Int) = size % 2 ^ 64 := by
    rw [BitVec.toNat_ofInt]
    omega
  have bound : (BitVec.ofInt 64 size).toNat ≤ 2147483647 := small
  rw [castInt_ofInt (by omega) (by omega)]
  exact holds

end Numbers

section Access

/-- The access has the size of the document. -/
def ExactAccess (json : Value) (access : Access MachineHash) : Prop :=
  Holds json "log2_size" access.log2Size

/-- Where every field of an access is well formed, its size is in the range of `int`; no number on
the way is 2^64. -/
def AccessKept (json : Value) (path : String) : Prop :=
  json.isObject = true →
  Settles (getField readAccessType json (.name "type") path) fun _ =>
  Settles (getField readUint64 json (.name "log2_size") path) fun _ =>
  Settles (getField readUint64 json (.name "address") path) fun _ =>
  Settles (getField readMachineHash json (.name "read_hash") path) fun _ =>
  Settles (getOptField readMachineHash json (.name "written_hash") path) fun _ =>
  Settles (getOptField readAccessData json (.name "read") path) fun _ =>
  Settles (getOptField readAccessData json (.name "written") path) fun _ =>
  Settles (getOptField (readVector readMachineHash) json (.name "sibling_hashes") path) fun _ =>
  HoldsInt json "log2_size"

theorem readAccess_settles (json : Value) (path name : String) :
    Settles (readAccess json path name) (ExactAccess json) ↔
      AccessKept json (path ++ name ++ "/") := by
  rw [readAccess, AccessKept]
  cases shape : json.isObject with
  | false => simp [Settles, settles_bind, complaint]
  | true =>
      simp only [forall_true_left]
      change Settles (_ >>= _) _ ↔ _
      simp only [Settles, settles_bind]
      apply settles_congr; intro type _
      apply settles_congr; intro log2Size size
      apply settles_congr; intro address _
      apply settles_congr; intro readHash _
      apply settles_congr; intro writtenHash _
      apply settles_congr; intro read _
      apply settles_congr; intro written _
      apply settles_congr; intro siblings _
      exact holds_castInt size

end Access

section Proofs

/-- The proof has the sizes of the document, which has a sibling for each level between them. -/
def ExactProof (json : Value) (proof : HashTreeProof MachineHash) : Prop :=
  Holds json "log2_root_size" proof.log2RootSize ∧
  Holds json "log2_target_size" proof.log2TargetSize ∧
  ∃ items, json.member "sibling_hashes" = some (.array items) ∧
    (items.length : Int) = proof.log2RootSize - proof.log2TargetSize

/-- Where every field of a proof is well formed and the size of the target as an `int` is one of a
subtree, that size is in the range of `int` and there is no sibling too many; no number on the way
is 2^64. -/
def ProofKept (json : Value) (path name : String) : Prop :=
  let newPath := path ++ name ++ "/"
  Settles (getField readUint64 json (.name "log2_root_size") newPath) fun root =>
  root.toNat ≤ intMax →
  Settles (getField readUint64 json (.name "log2_target_size") newPath) fun target =>
  0 < castInt root → 0 ≤ castInt target → castInt target ≤ castInt root →
  Settles (getField readUint64 json (.name "target_address") newPath) fun _ =>
  Settles (getField readMachineHash json (.name "target_hash") newPath) fun _ =>
  Settles (getField readMachineHash json (.name "root_hash") newPath) fun _ =>
  ∀ items, json.member "sibling_hashes" = some (.array items) →
  Settles (readItems readMachineHash (.array items) (path ++ "sibling_hashes/")
    (List.range (castInt root - castInt target).toNat)) fun _ =>
  HoldsInt json "log2_target_size" ∧ (items.length : Int) = castInt root - castInt target

theorem readHashTreeProof_settles (json : Value) (path name : String) :
    Settles (readHashTreeProof json path name) (ExactProof json) ↔ ProofKept json path name := by
  rw [readHashTreeProof, ProofKept]
  refine settles_bind.trans (settles_congr fun root rootSize => ?_)
  refine (settles_check (by simp)).trans ?_
  rw [not_lt]
  refine forall_congr' fun small => ?_
  refine settles_bind.trans (settles_congr fun target targetSize => ?_)
  rw [if_neg (not_lt.mpr small)]
  refine (settles_check (by simp)).trans ?_
  rw [not_le]
  refine forall_congr' fun positive => ?_
  refine (settles_check (by simp)).trans ?_
  rw [not_lt]
  refine forall_congr' fun natural => ?_
  refine (settles_check (by simp)).trans ?_
  rw [not_lt]
  refine forall_congr' fun inside => ?_
  refine settles_bind.trans (settles_congr fun targetAddress _ => ?_)
  refine settles_bind.trans (settles_congr fun targetHash _ => ?_)
  refine settles_bind.trans (settles_congr fun rootHash _ => ?_)
  rw [field_of_getField rootSize]
  refine settles_bind.trans ?_
  rw [Settling.settles_ok]
  cases member : json.member "sibling_hashes" with
  | none => simp
  | some siblings =>
      cases siblings with
      | array items =>
          simp only [Option.some.injEq, Value.array.injEq, forall_eq']
          refine settles_bind.trans (settles_congr fun hashes _ => ?_)
          simp only [Settling.settles_pure, ExactProof, member]
          rw [Int.toNat_of_nonneg natural, Int.toNat_of_nonneg positive.le, holds_castInt targetSize]
          simp [holds_of_le_intMax rootSize small]
      | _ => simp

end Proofs

section BackTrees

/-- The tree has the size of the document. -/
def ExactTree (json : Value) (tree : Option (BackMerkleTree MachineHash)) : Prop :=
  ∀ held ∈ tree, Holds json "log2_max_leaves" held.log2MaxLeaves

/-- Where every field of a tree is well formed and the constructor takes its size as an `int`, that
size is in the range of `int`; no number on the way is 2^64. -/
def TreeKept (json : Value) (path : String) : Prop :=
  json ≠ .null →
  Settles (getField readUint64 json (.name "log2_max_leaves") path) fun log2MaxLeaves =>
  Settles (getField readHashFunction json (.name "hash_function") path) fun hashFunction =>
  Settles (getField readUint64 json (.name "leaf_count") path) fun leafCount =>
  Settles (getField (readVector readMachineHash) json (.name "context") path) fun context =>
  Settles (makeBackTree (castInt log2MaxLeaves) hashFunction leafCount context) fun _ =>
  HoldsInt json "log2_max_leaves"

theorem levels_of_makeBackTree {log2MaxLeaves : Int} {hashFunction : HashFunctionType}
    {leafCount : Word} {context : List MachineHash} {tree : BackMerkleTree MachineHash}
    (made : makeBackTree log2MaxLeaves hashFunction leafCount context = .ok tree) :
    (tree.log2MaxLeaves : Int) = log2MaxLeaves := by
  rw [makeBackTree] at made
  obtain ⟨_, _, made⟩ := bind_ok.mp made
  obtain ⟨_, natural, made⟩ := bind_ok.mp made
  obtain ⟨_, _, made⟩ := bind_ok.mp made
  obtain ⟨_, _, made⟩ := bind_ok.mp made
  obtain ⟨_, _, made⟩ := bind_ok.mp made
  obtain ⟨_, _, made⟩ := bind_ok.mp made
  obtain rfl := Except.ok.inj made
  exact Int.toNat_of_nonneg (demand_ok.mp natural)

theorem readBackTree_settles (json : Value) (path name : String) :
    Settles (readBackTree json path name) (ExactTree json) ↔
      TreeKept json (path ++ name ++ "/") := by
  by_cases null : json = .null
  · subst null
    change Settles (.ok none) _ ↔ _
    simp [Settles, ExactTree, TreeKept]
  · rw [readBackTree, TreeKept]
    · simp only [null, ne_eq, not_false_eq_true, forall_true_left]
      refine settles_bind.trans (settles_congr fun log2MaxLeaves size => ?_)
      refine settles_bind.trans (settles_congr fun hashFunction _ => ?_)
      refine settles_bind.trans (settles_congr fun leafCount _ => ?_)
      refine settles_bind.trans (settles_congr fun context _ => ?_)
      refine settles_map.trans (settles_congr fun tree made => ?_)
      have exact : ExactTree json (some tree) ↔ Holds json "log2_max_leaves" tree.log2MaxLeaves := by
        simp [ExactTree]
      rw [exact, levels_of_makeBackTree made]
      exact holds_castInt size
    · exact null

end BackTrees

section Wide

/-- A proof of a target of a size that is 5 as an `int`, and a sibling it does not need. -/
def wideProof : Value :=
  .object [("target_address", .unsigned 0), ("log2_target_size", .unsigned (2 ^ 32 + 5)),
    ("log2_root_size", .unsigned 5), ("target_hash", writeMachineHash (Vector.replicate 32 0)),
    ("root_hash", writeMachineHash (Vector.replicate 32 0)), ("sibling_hashes", .array [.null])]

end Wide

end MachineEmulator.Json
