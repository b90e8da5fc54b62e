/-
This file shows when the arguments that are decoded from calldata stand in it.
-/

import MachineEmulator.Proof.Evmu.CalldataBounds

namespace MachineEmulator.Evmu

variable {lua : Lua} {signature calldata : List Byte} {prefer : Prefer} {value : Value}

/-- The arguments of a function stand behind the selector. -/
def ArgumentsStand (lua : Lua) (signature calldata : List Byte) (prefer : Prefer) (value : Value) :
    Prop :=
  ∃ parsed, lua.funcSig signature = some parsed ∧
    ∃ next, Stands calldata prefer (.tuple parsed.params) 4 value next

/-- What a decoding has passed when it answers. -/
theorem decodeCalldataIn_ok {sum : Arithmetic}
    (ran : decodeCalldataIn sum lua signature calldata prefer = .ok value) :
    4 ≤ calldata.length ∧ ∃ parsed selector, lua.funcSig signature = some parsed ∧
      parseFuncSig lua signature = .ok (parsed, selector) ∧ selector = calldata.take 4 ∧
      (parsed.params.length ≠ 0 ∨ calldata.length = 4) ∧ ∃ next,
        decodeValue sum prefer calldata (.tuple parsed.params) 4 = .ok (value, next) := by
  obtain ⟨_, long, ran⟩ := bind_ok.mp ran
  obtain ⟨⟨parsed, selector⟩, parse, ran⟩ := bind_ok.mp ran
  obtain ⟨_, matched, ran⟩ := bind_ok.mp ran
  obtain ⟨_, short, ran⟩ := bind_ok.mp ran
  obtain ⟨⟨answer, next⟩, decoded, ran⟩ := bind_ok.mp ran
  obtain ⟨_, _, same⟩ := bind_ok.mp ran
  obtain rfl := Except.ok.inj same
  obtain ⟨known, found, told⟩ := bind_ok.mp parse
  obtain ⟨rfl, _⟩ := Prod.mk.inj (Except.ok.inj told)
  exact ⟨assertThat_ok.mp long, known, selector, expect_ok.mp found, parse, assertThat_ok.mp matched,
    assertThat_ok.mp short, next, decoded⟩

/-- The decoding of a calldata that has passed the checks is that of the arguments. -/
theorem decodeCalldataIn_passed {sum : Arithmetic} {parsed : FuncSig} {selector : List Byte}
    (long : 4 ≤ calldata.length) (parse : parseFuncSig lua signature = .ok (parsed, selector))
    (matched : selector = calldata.take 4)
    (short : parsed.params.length ≠ 0 ∨ calldata.length = 4) :
    decodeCalldataIn sum lua signature calldata prefer = (do
      let (value, offset) ← decodeValue sum prefer calldata (.tuple parsed.params) 4
      assertThat (offset = some (calldata.length : Int)) .calldataTooLong
      return value) := by
  rw [decodeCalldataIn, assertThat_pos long, parse]
  change (assertThat _ _ >>= _) = _
  rw [assertThat_pos matched]
  change (assertThat _ _ >>= _) = _
  rw [assertThat_pos short]
  rfl

/-- The arguments that are decoded stand in the calldata exactly if no sum of offsets and lengths on the
way leaves the range of Lua integers. -/
theorem decodeCalldata_stands (fits : calldata.length + 1 < 2 ^ 63)
    (decoded : decodeCalldata lua signature calldata prefer = .ok value) :
    ArgumentsStand lua signature calldata prefer value ↔
      decodeCalldataIn boundedInteger lua signature calldata prefer ≠ .error .sumOverflows := by
  obtain ⟨long, parsed, selector, found, parse, matched, short, _, _⟩ := decodeCalldataIn_ok decoded
  have legal : (TypeSpec.tuple parsed.params).Legal := parsed.legal
  have answers (next : Option Int) := decodeValue_iff fits prefer legal 4 value next (by decide)
  rw [Nat.cast_ofNat] at answers
  constructor
  · rintro ⟨other, same, next, stands⟩ marked
    obtain rfl := Option.some.inj (found.symm.trans same)
    rw [decodeCalldataIn_passed long parse matched short, (answers _).mpr ⟨next, rfl, stands⟩]
      at marked
    change (assertThat _ _ >>= _) = _ at marked
    rw [assertThat] at marked
    split at marked <;> cases marked
  · intro unmarked
    have same := (agree_decodeCalldata lua signature calldata prefer).resolve_left unmarked
    obtain ⟨_, other, _, known, _, _, _, next, ran⟩ := decodeCalldataIn_ok (same.trans decoded)
    obtain rfl := Option.some.inj (found.symm.trans known)
    obtain ⟨last, rfl, stands⟩ := (answers next).mp ran
    exact ⟨parsed, found, last, stands⟩

section Sample

/-- A table has no entry at any position behind some place. -/
theorem exists_missing (values : Table) : ∃ place : Nat, values.get (.index (place + 1)) = none := by
  have behind : ∃ bound : Nat, ∀ position : Nat, bound ≤ position →
      values.get (.index position) = none := by
    induction values with
    | nil => exact ⟨0, fun _ _ => rfl⟩
    | cons entry rest ih =>
        obtain ⟨bound, missing⟩ := ih
        obtain ⟨key, value⟩ := entry
        cases key with
        | index first =>
            refine ⟨max bound (first.toNat + 1), fun position high => ?_⟩
            have apart : (Key.index position == Key.index first) = false := by
              simp
              omega
            rw [Table.get, List.lookup_cons, apart]
            exact missing position (by omega)
        | name text => exact ⟨bound, fun position high => missing position high⟩
        | other => exact ⟨bound, fun position high => missing position high⟩
  obtain ⟨bound, missing⟩ := behind
  exact ⟨bound, by exact_mod_cast missing (bound + 1) (by omega)⟩

/-- The least border of a table. -/
def leastBorder (values : Table) : Nat := Nat.find (exists_missing values)

theorem leastBorder_isBorder (values : Table) : IsBorder values (leastBorder values) := by
  have missing := Nat.find_spec (exists_missing values)
  refine ⟨?_, missing⟩
  by_cases zero : leastBorder values = 0
  · exact Or.inl zero
  · right
    have present : ¬ values.get (.index ((leastBorder values - 1 : Nat) + 1)) = none :=
      Nat.find_min (exists_missing values) (Nat.sub_one_lt zero)
    have place : ((leastBorder values - 1 : Nat) : Int) + 1 = leastBorder values := by omega
    rw [place] at present
    exact Option.isSome_iff_ne_none.mpr present

def sampleSignature : List Byte := ascii "f(string,string)"

/-- The keccak256 of the sample signature. -/
def sampleHash : List Byte :=
  [0x18, 0x15, 0x9c, 0xfb, 0x44, 0x7f, 0xb6, 0x05, 0xf7, 0x4b, 0x0d, 0x5c, 0x10, 0x3f, 0x17,
    0xdd, 0x8a, 0xa3, 0x09, 0x74, 0xcf, 0xe2, 0xdf, 0x18, 0x26, 0x53, 0xb8, 0x1c, 0x1c, 0x2f,
    0x2a, 0x4a]

def sampleParsed : FuncSig where
  name := ascii "f"
  params := .cons none .string (.cons none .string .nil)
  legal := ⟨trivial, trivial, trivial⟩

/-- What Lua does with the signature of a function of two strings. -/
def sampleLua : Lua where
  border := leastBorder
  border_isBorder := leastBorder_isBorder
  numeral _ := none
  numberText number := ascii (toString number)
  funcSig signature := if signature = sampleSignature then some sampleParsed else none
  keccak256 data := if data = sampleSignature then sampleHash else List.replicate 32 0
  keccak256_length data := by
    split <;> rfl

/-- The word of a number. -/
def sampleWord (number : Nat) : List Byte := tobe (BitVec.ofNat 512 number)

/-- A first string that declares 2^63 - 1 bytes, and a second one that is empty. -/
def sampleCalldata : List Byte :=
  sampleHash.take 4 ++ sampleWord 64 ++ sampleWord 96 ++ sampleWord (2 ^ 63 - 1) ++ sampleWord 0

/-- Two empty strings. -/
def sampleValue : Value := .table [(.index 2, .text []), (.index 1, .text [])]

theorem length_sampleCalldata : sampleCalldata.length = 132 := by
  simp [sampleCalldata, sampleHash, sampleWord, tobe]

/-- The sums of the first string wrap around, so that it is empty and its end lies before the
calldata. -/
theorem sample_strings :
    readCount luaInteger sampleCalldata 4 = .ok 64 ∧
    readData luaInteger sampleCalldata 68 = .ok ([], 100 - 2 ^ 63) ∧
    readCount luaInteger sampleCalldata 36 = .ok 96 ∧
    readData luaInteger sampleCalldata 100 = .ok ([], 132) ∧
    (wordAt sampleCalldata 4).toNat = 64 ∧ (wordAt sampleCalldata 68).toNat = 2 ^ 63 - 1 := by
  decide +kernel

theorem parse_sample :
    parseFuncSig sampleLua sampleSignature = .ok (sampleParsed, sampleCalldata.take 4) := by
  have canonic : sampleParsed.canonic sampleLua.numberText = sampleSignature := by
    decide
  have hash : sampleLua.keccak256 sampleSignature = sampleHash := by
    simp [sampleLua]
  have front : sampleCalldata.take 4 = sampleHash.take 4 := by
    decide
  refine bind_ok.mpr ⟨sampleParsed, expect_ok.mpr (by simp [sampleLua]), ?_⟩
  rw [canonic, hash, front]
  rfl

theorem decode_sample :
    decodeCalldata sampleLua sampleSignature sampleCalldata .default = .ok sampleValue := by
  obtain ⟨first, data, second, others, -⟩ := sample_strings
  have size := length_sampleCalldata
  have two : decodeComponents luaInteger .default sampleCalldata (.cons none .string .nil) 4
      (some 36) (some (100 - 2 ^ 63)) 2 = .ok ([(.index 2, .text [])], some 132) := by
    rw [decodeComponents]
    refine bind_ok.mpr ⟨36, rfl, bind_ok.mpr ⟨96, second, bind_ok.mpr ⟨100, rfl, ?_⟩⟩⟩
    refine bind_ok.mpr ⟨(.text [], some 132), ?_, bind_ok.mpr ⟨68, rfl, ?_⟩⟩
    · rw [decodeValue]
      exact bind_ok.mpr ⟨_, others, rfl⟩
    · rfl
  have both : decodeValue luaInteger .default sampleCalldata (.tuple sampleParsed.params) 4 =
      .ok (sampleValue, some 132) := by
    rw [decodeValue]
    refine bind_ok.mpr ⟨68, rfl, bind_ok.mpr ⟨(_, some 132), ?_, rfl⟩⟩
    rw [sampleParsed, decodeComponents]
    refine bind_ok.mpr ⟨4, rfl, bind_ok.mpr ⟨64, first, bind_ok.mpr ⟨68, rfl, ?_⟩⟩⟩
    refine bind_ok.mpr ⟨(.text [], some (100 - 2 ^ 63)), ?_, bind_ok.mpr ⟨36, rfl, ?_⟩⟩
    · rw [decodeValue]
      exact bind_ok.mpr ⟨_, data, rfl⟩
    · exact bind_ok.mpr ⟨_, two, rfl⟩
  rw [decodeCalldata, decodeCalldataIn_passed (by omega) parse_sample rfl (Or.inl (by decide)), both]
  refine bind_ok.mpr ⟨(sampleValue, some 132), rfl, bind_ok.mpr ⟨(), assertThat_pos ?_, rfl⟩⟩
  rw [size]
  rfl

theorem decodeCalldata_stands_sample :
    ArgumentsStand sampleLua sampleSignature sampleCalldata .default sampleValue ↔
      decodeCalldataIn boundedInteger sampleLua sampleSignature sampleCalldata .default ≠
        .error .sumOverflows :=
  decodeCalldata_stands (by norm_num [length_sampleCalldata]) decode_sample

/-- The first string of the sample is answered without the bytes that its length declares. -/
theorem sample_notInside :
    decodeCalldata sampleLua sampleSignature sampleCalldata .default = .ok sampleValue ∧
    ¬ ArgumentsStand sampleLua sampleSignature sampleCalldata .default sampleValue := by
  refine ⟨decode_sample, ?_⟩
  rintro ⟨parsed, found, next, stands⟩
  have same : sampleLua.funcSig sampleSignature = some sampleParsed := by
    simp [sampleLua]
  obtain rfl := Option.some.inj (found.symm.trans same)
  have words : (wordAt sampleCalldata 4).toNat = 64 ∧
      (wordAt sampleCalldata 68).toNat = 2 ^ 63 - 1 ∧ sampleCalldata.length = 132 := by
    obtain ⟨-, -, -, -, first, second⟩ := sample_strings
    exact ⟨first, second, length_sampleCalldata⟩
  rw [Stands] at stands
  obtain ⟨_, _, stand⟩ := stands
  rw [sampleParsed, ComponentsStand] at stand
  obtain ⟨place, _, _, here, _, stand⟩ := stand
  obtain rfl := Option.some.inj here
  obtain ⟨offset, _, ⟨_, first, _⟩, stands, _⟩ := stand
  rw [words.1] at first
  rw [← first, Stands] at stands
  obtain ⟨data, last, ⟨length, ⟨_, declared, _⟩, _, next, inside⟩, _⟩ := stands
  rw [words.2.1] at declared
  rw [next, ← declared, words.2.2] at inside
  exact absurd inside (by decide)

end Sample

end MachineEmulator.Evmu
