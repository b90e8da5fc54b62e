/-
This file shows that decoded values stand inside the calldata exactly if no sum of offsets and
lengths leaves the range of Lua integers.
-/

import MachineEmulator.Proof.Evmu.CalldataSpec

namespace MachineEmulator.Evmu

section Words

variable {calldata : List Byte} (fits : calldata.length + 1 < 2 ^ 63)

theorem bounded_of_range {sum : Int} (low : 0 ≤ sum) (high : sum < 2 ^ 63) :
    boundedInteger sum = .ok sum :=
  if_pos ⟨by omega, high⟩

theorem bounded_ok {sum answer : Int} (ran : boundedInteger sum = .ok answer) :
    answer = sum ∧ sum < 2 ^ 63 := by
  rw [boundedInteger] at ran
  split at ran
  · rename_i range
    exact ⟨(Except.ok.inj ran).symm, range.2⟩
  · cases ran

/-- The bytes between two positions inside. -/
theorem stringSub_inside (calldata : List Byte) (offset length : Nat)
    (inside : offset + length ≤ calldata.length) :
    stringSub calldata (offset + 1) (offset + length) = (calldata.drop offset).take length := by
  have start : (0 : Int) < (offset : Int) + 1 := by omega
  have stop : ¬ ((calldata.length : Int) < offset + length) := by omega
  have positive : (0 : Int) ≤ (offset : Int) + length := by omega
  simp only [stringSub, if_pos start, if_neg stop, if_pos positive]
  congr 1
  · omega
  · congr 1
    omega

theorem shiftRight_eq_zero {value : Bint} {size : Nat} :
    value >>> size = 0 ↔ value.toNat < 2 ^ size := by
  have positive := Nat.two_pow_pos size
  have zero : (0 : Bint).toNat = 0 := BitVec.toNat_zero
  rw [← BitVec.toNat_inj, BitVec.toNat_ushiftRight, Nat.shiftRight_eq_div_pow, zero]
  exact Nat.div_eq_zero_iff_lt positive

include fits

theorem readWord_iff {offset : Nat} {word : Bint} :
    readWord boundedInteger calldata offset = .ok word ↔
      offset + 32 ≤ calldata.length ∧ wordAt calldata offset = word := by
  constructor
  · intro ran
    obtain ⟨last, added, ran⟩ := bind_ok.mp ran
    obtain ⟨rfl, _⟩ := bounded_ok added
    obtain ⟨_, passed, ran⟩ := bind_ok.mp ran
    have inside : offset + 32 ≤ calldata.length := by
      have := assertThat_ok.mp passed
      omega
    obtain ⟨first, added, ran⟩ := bind_ok.mp ran
    obtain ⟨rfl, _⟩ := bounded_ok added
    have cut := stringSub_inside calldata offset 32 inside
    push_cast at cut
    rw [cut] at ran
    exact ⟨inside, Except.ok.inj ran⟩
  · rintro ⟨inside, rfl⟩
    have cut := stringSub_inside calldata offset 32 inside
    push_cast at cut
    rw [readWord, bounded_of_range (by omega) (by omega)]
    refine bind_ok.mpr ⟨_, rfl, bind_ok.mpr ⟨(), assertThat_ok.mpr (by omega), ?_⟩⟩
    refine bind_ok.mpr ⟨_, bounded_of_range (by omega) (by omega), ?_⟩
    rw [cut]
    rfl

theorem readUint_iff {offset size : Nat} {word : Bint} :
    readUint boundedInteger calldata offset size = .ok word ↔
      offset + 32 ≤ calldata.length ∧ word.toNat < 2 ^ size ∧ wordAt calldata offset = word := by
  simp only [readUint, bind_ok, readWord_iff fits, assertThat_ok, shiftRight_eq_zero]
  constructor
  · rintro ⟨_, ⟨inside, rfl⟩, _, small, same⟩
    obtain rfl := Except.ok.inj same
    exact ⟨inside, small, rfl⟩
  · rintro ⟨inside, small, rfl⟩
    exact ⟨_, ⟨inside, rfl⟩, (), small, rfl⟩

theorem readCount_iff {offset count : Nat} :
    readCount boundedInteger calldata offset = .ok count ↔ CountAt calldata offset count := by
  simp only [readCount, bind_ok, readUint_iff fits, checkLuaUint, assertThat_ok, shiftRight_eq_zero,
    CountAt]
  constructor
  · rintro ⟨_, ⟨inside, _, rfl⟩, _, small, same⟩
    obtain rfl := Except.ok.inj same
    exact ⟨inside, rfl, small⟩
  · rintro ⟨inside, rfl, small⟩
    exact ⟨_, ⟨inside, small.trans (by decide), rfl⟩, (), small, rfl⟩

omit fits in
theorem le_ceil32 (count : Nat) : count ≤ ceil32 count := by
  rw [ceil32]
  omega

omit fits in
theorem ceil32Of_iff {count : Nat} {answer : Int} :
    ceil32Of boundedInteger count = .ok answer ↔ answer = ceil32 count ∧ count + 31 < 2 ^ 63 := by
  rw [ceil32Of, bind_ok]
  constructor
  · rintro ⟨_, added, same⟩
    obtain ⟨rfl, high⟩ := bounded_ok added
    obtain rfl := Except.ok.inj same
    refine ⟨?_, by omega⟩
    simp [ceil32]
  · rintro ⟨rfl, high⟩
    refine ⟨_, bounded_of_range (by omega) (by omega), ?_⟩
    simp [ceil32]
    rfl

omit fits in
theorem bytesAt_iff {offset length : Nat} {data : List Byte}
    (inside : offset + length ≤ calldata.length) :
    BytesAt calldata offset length data ↔ (calldata.drop offset).take length = data := by
  constructor
  · rintro ⟨rfl, front⟩
    exact (List.prefix_iff_eq_take.mp front).symm
  · rintro rfl
    refine ⟨?_, List.take_prefix _ _⟩
    rw [List.length_take, List.length_drop]
    omega

/-- The data of a declared length inside is read with all sums in range. -/
theorem readData_inside {offset length : Nat} (count : CountAt calldata offset length)
    (inside : offset + 32 + ceil32 length ≤ calldata.length) :
    readData boundedInteger calldata offset =
      .ok ((calldata.drop (offset + 32)).take length, (offset + 32 + ceil32 length : Nat)) := by
  have below := le_ceil32 length
  have room := count.2.2
  have cut := stringSub_inside calldata (offset + 32) length (by omega)
  push_cast at cut ⊢
  refine bind_ok.mpr ⟨length, (readCount_iff fits).mpr count, ?_⟩
  refine bind_ok.mpr ⟨_, bounded_of_range (by omega) (by omega), ?_⟩
  refine bind_ok.mpr ⟨_, ceil32Of_iff.mpr ⟨rfl, ?_⟩, ?_⟩
  · rw [ceil32] at inside
    omega
  refine bind_ok.mpr ⟨_, bounded_of_range (by omega) (by omega), ?_⟩
  refine bind_ok.mpr ⟨(), assertThat_ok.mpr (by omega), ?_⟩
  refine bind_ok.mpr ⟨_, bounded_of_range (by omega) (by omega), ?_⟩
  refine bind_ok.mpr ⟨_, bounded_of_range (by omega) (by omega), ?_⟩
  rw [cut]
  rfl

theorem readData_iff {offset : Nat} {data : List Byte} {next : Int} :
    readData boundedInteger calldata offset = .ok (data, next) ↔
      ∃ last : Nat, next = last ∧ DataAt calldata offset data last := by
  constructor
  · intro ran
    have all := ran
    rw [readData] at ran
    obtain ⟨length, count, ran⟩ := bind_ok.mp ran
    have count := (readCount_iff fits).mp count
    obtain ⟨start, added, ran⟩ := bind_ok.mp ran
    obtain ⟨rfl, _⟩ := bounded_ok added
    obtain ⟨rounded, round, ran⟩ := bind_ok.mp ran
    obtain ⟨rfl, _⟩ := ceil32Of_iff.mp round
    obtain ⟨last, added, ran⟩ := bind_ok.mp ran
    obtain ⟨rfl, _⟩ := bounded_ok added
    obtain ⟨_, passed, _⟩ := bind_ok.mp ran
    have inside : offset + 32 + ceil32 length ≤ calldata.length := by
      have := assertThat_ok.mp passed
      omega
    have below := le_ceil32 length
    rw [readData_inside fits count inside] at all
    obtain ⟨rfl, rfl⟩ := Prod.mk.inj (Except.ok.inj all)
    exact ⟨_, rfl, length, count, (bytesAt_iff (by omega)).mpr rfl, rfl, inside⟩
  · rintro ⟨_, rfl, length, count, bytes, rfl, inside⟩
    have below := le_ceil32 length
    rw [readData_inside fits count inside, (bytesAt_iff (by omega)).mp bytes]

/-- The bytes of a fixed size inside are read with all sums in range. -/
theorem decodeBytesSized_inside (prefer : Prefer) {offset size : Nat}
    (inside : offset + ceil32 size ≤ calldata.length) :
    decodeBytesSized boundedInteger prefer calldata offset size =
      .ok (prefer.ofBytes ((calldata.drop offset).take size),
        some ((offset + ceil32 size : Nat) : Int)) := by
  have below := le_ceil32 size
  have cut := stringSub_inside calldata offset size (by omega)
  push_cast
  refine bind_ok.mpr ⟨_, ceil32Of_iff.mpr ⟨rfl, ?_⟩, ?_⟩
  · rw [ceil32] at inside
    omega
  refine bind_ok.mpr ⟨_, bounded_of_range (by omega) (by omega), ?_⟩
  refine bind_ok.mpr ⟨(), assertThat_ok.mpr (by omega), ?_⟩
  refine bind_ok.mpr ⟨_, bounded_of_range (by omega) (by omega), ?_⟩
  refine bind_ok.mpr ⟨_, bounded_of_range (by omega) (by omega), ?_⟩
  rw [cut]
  rfl

theorem arraySize_iff {offset count : Nat} {start : Int} {size : Option Nat} :
    arraySize boundedInteger calldata offset size = .ok (count, start) ↔
      ∃ first : Nat, start = first ∧ SizeAt calldata offset count first size := by
  cases size with
  | some size =>
      simp only [arraySize, SizeAt, Except.ok.injEq, Prod.mk.injEq]
      constructor
      · rintro ⟨rfl, rfl⟩
        exact ⟨offset, rfl, rfl, rfl⟩
      · rintro ⟨_, rfl, rfl, rfl⟩
        exact ⟨rfl, rfl⟩
  | none =>
      simp only [arraySize, SizeAt, bind_ok, readCount_iff fits]
      constructor
      · rintro ⟨_, count, _, added, same⟩
        obtain ⟨rfl, _⟩ := bounded_ok added
        obtain ⟨rfl, rfl⟩ := Prod.mk.inj (Except.ok.inj same)
        exact ⟨offset + 32, by push_cast; rfl, count, rfl⟩
      · rintro ⟨_, rfl, count, rfl⟩
        have inside := count.1
        refine ⟨_, count, _, bounded_of_range (by omega) (by omega), ?_⟩
        push_cast
        rfl

end Words

section Sizes

variable {calldata : List Byte}

/-- Items of one size take their number times the size. -/
theorem inPlace_static {Item : Nat → Value → Option Nat → Prop} {size : Nat}
    (each : ∀ {offset value next}, Item offset value next →
      next = some (offset + size) ∧ (size = 0 ∨ offset + size ≤ calldata.length))
    {items : List Value} {start : Nat} {last : Option Nat}
    (stand : InPlace Item items (some start) last) :
    last = some (start + items.length * size) ∧
      (items.length * size = 0 ∨ start + items.length * size ≤ calldata.length) := by
  induction items generalizing start with
  | nil =>
      rw [InPlace] at stand
      simp [stand]
  | cons item items ih =>
      obtain ⟨offset, next, here, stands, rest⟩ := stand
      obtain rfl := Option.some.inj here
      obtain ⟨rfl, inside⟩ := each stands
      obtain ⟨rfl, room⟩ := ih rest
      have total : start + size + items.length * size = start + (item :: items).length * size := by
        rw [List.length_cons]
        ring
      refine ⟨by rw [total], ?_⟩
      rw [← total]
      rcases inside with zero | inside
      · left
        rw [zero, mul_zero]
      · rcases room with none | room
        · right
          omega
        · exact Or.inr room

mutual

/-- A value of a static type takes the size of the type, inside the calldata. -/
theorem stands_static (prefer : Prefer) : ∀ {type : TypeSpec} {offset : Nat} {value : Value}
    {next : Option Nat}, type.Legal → type.isDynamic = false →
    Stands calldata prefer type offset value next →
      next = some (offset + type.staticSize) ∧
        (type.staticSize = 0 ∨ offset + type.staticSize ≤ calldata.length)
  | .uint _, _, _, _, _, _, ⟨inside, _, _, next⟩ => ⟨next, Or.inr inside⟩
  | .int _, _, _, _, _, _, ⟨inside, _, _, next⟩ => ⟨next, Or.inr inside⟩
  | .address, _, _, _, _, _, ⟨inside, _, next⟩ => ⟨next, Or.inr inside⟩
  | .bool, _, _, _, _, _, ⟨inside, _, next⟩ => ⟨next, Or.inr inside⟩
  | .bytes (some size), offset, _, _, legal, _, ⟨inside, _, next⟩ => by
      have word : ceil32 size = 32 := by
        have := legal size rfl
        rw [ceil32]
        omega
      rw [word] at inside next
      exact ⟨next, Or.inr inside⟩
  | .array _ none, _, _, _, _, static, _ => by simp [TypeSpec.isDynamic] at static
  | .array elementType (some size), offset, _, _, legal, static, stands => by
      have element : elementType.isDynamic = false := by
        simpa [TypeSpec.isDynamic] using static
      rw [Stands] at stands
      obtain ⟨start, items, ⟨count, rfl⟩, _, stands⟩ := stands
      rw [element] at stands
      rw [TypeSpec.staticSize, element, ← count]
      exact inPlace_static (fun stands => stands_static prefer legal.1 element stands) stands
  | .tuple components, offset, _, _, legal, static, stands => by
      rw [Stands] at stands
      obtain ⟨result, _, stands⟩ := stands
      obtain ⟨room, last⟩ := components_static prefer legal stands
      exact ⟨last static, room⟩

/-- The heads of components lie inside the calldata. -/
theorem components_static (prefer : Prefer) : ∀ {components : Components} {start static : Nat}
    {before last : Option Nat} {position : Nat} {result : Table}, components.Legal →
    ComponentsStand calldata prefer components start (some static) before position result last →
      (components.staticSize = 0 ∨ static + components.staticSize ≤ calldata.length) ∧
        (components.isDynamic = false → last = before)
  | .nil, _, _, _, _, _, _, _, stand => by
      rw [ComponentsStand] at stand
      exact ⟨Or.inl rfl, fun _ => stand.2⟩
  | .cons name type rest, start, static, before, last, position, result, legal, stand => by
      rw [ComponentsStand] at stand
      obtain ⟨place, value, others, here, _, stand⟩ := stand
      obtain rfl := Option.some.inj here
      rw [Components.staticSize, Components.isDynamic, ← Nat.add_assoc]
      cases dynamic : type.isDynamic with
      | true =>
          rw [if_pos dynamic] at stand
          obtain ⟨offset, next, count, _, stand⟩ := stand
          have room := (components_static prefer legal.2 stand).1
          have inside := count.1
          refine ⟨Or.inr ?_, by simp⟩
          rcases room with none | room
          · rw [none]
            exact inside
          · exact room
      | false =>
          rw [if_neg (by simp [dynamic])] at stand
          obtain ⟨next, stands, stand⟩ := stand
          obtain ⟨rfl, inside⟩ := stands_static prefer legal.1 dynamic stands
          obtain ⟨room, same⟩ := components_static prefer legal.2 stand
          refine ⟨?_, by simpa using same⟩
          simp only [Bool.false_eq_true, if_false]
          omega

end

/-- A dynamic component has its offset in the head. -/
theorem head_of_dynamic : ∀ {components : Components}, components.isDynamic = true →
    32 ≤ components.staticSize
  | .cons _ type rest, dynamic => by
      rw [Components.staticSize]
      cases here : type.isDynamic with
      | true => simp
      | false =>
          have later : rest.isDynamic = true := by
            simpa [Components.isDynamic, here] using dynamic
          have below := head_of_dynamic later
          omega

/-- A value of a dynamic type reads a word at its offset or behind it. -/
theorem stands_dynamic {prefer : Prefer} {type : TypeSpec} {offset : Nat} {value : Value}
    {next : Option Nat} (legal : type.Legal) (dynamic : type.isDynamic = true)
    (stands : Stands calldata prefer type offset value next) : offset + 32 ≤ calldata.length := by
  cases type with
  | uint => cases dynamic
  | int => cases dynamic
  | address => cases dynamic
  | bool => cases dynamic
  | string =>
      obtain ⟨_, _, ⟨_, count, _⟩, _⟩ := stands
      exact count.1
  | bytes size =>
      cases size with
      | some => cases dynamic
      | none =>
          obtain ⟨_, _, ⟨_, count, _⟩, _⟩ := stands
          exact count.1
  | array elementType size =>
      rw [Stands] at stands
      obtain ⟨start, items, sized, _, stands⟩ := stands
      cases size with
      | none => exact sized.1.1
      | some size =>
          have element : elementType.isDynamic = true := by
            simpa [TypeSpec.isDynamic] using dynamic
          have positive := legal.2 size rfl
          obtain ⟨count, rfl⟩ := sized
          rw [if_pos element] at stands
          cases items with
          | nil =>
              rw [← count] at positive
              exact absurd positive (by decide)
          | cons item items =>
              obtain ⟨_, _, first, _⟩ := stands
              simpa using first.1
  | tuple components =>
      rw [Stands] at stands
      obtain ⟨result, _, stands⟩ := stands
      have room := (components_static prefer legal stands).1
      have head := head_of_dynamic dynamic
      omega

end Sizes

section Decoding

/-- A position as an offset of Lua. -/
def asInt (position : Option Nat) : Option Int := position.map fun offset : Nat => (offset : Int)

variable {calldata : List Byte} (fits : calldata.length + 1 < 2 ^ 63)

/-- A decoding with sums in range answers exactly the items that stand. -/
def Decodes (decode : Int → Decoded) (Item : Nat → Value → Option Nat → Prop) : Prop :=
  ∀ (offset : Nat) (value : Value) (next : Option Int), offset < 2 ^ 63 →
    (decode offset = .ok (value, next) ↔ ∃ last, next = asInt last ∧ Item offset value last)

theorem decodeInPlace_iff {decode : Int → Decoded} {Item : Nat → Value → Option Nat → Prop}
    (decodes : Decodes decode Item)
    (advances : ∀ {offset value next}, offset < 2 ^ 63 → Item offset value next →
      ∀ place ∈ next, place < 2 ^ 63)
    (first : Option Nat) {count : Nat} {items : List Value} {last : Option Int}
    (small : ∀ place ∈ first, place < 2 ^ 63) :
    decodeInPlace decode count (asInt first) = .ok (items, last) ↔
      items.length = count ∧ ∃ finish, last = asInt finish ∧ InPlace Item items first finish := by
  induction count generalizing first items last with
  | zero =>
      simp only [decodeInPlace, Except.ok.injEq, Prod.mk.injEq]
      constructor
      · rintro ⟨rfl, rfl⟩
        exact ⟨rfl, first, rfl, rfl⟩
      · rintro ⟨none, finish, rfl, stand⟩
        obtain rfl := List.length_eq_zero_iff.mp none
        rw [InPlace] at stand
        exact ⟨rfl, by rw [stand]⟩
  | succ count ih =>
      simp only [decodeInPlace, bind_ok]
      constructor
      · rintro ⟨_, there, ⟨item, next⟩, ran, ⟨others, finish⟩, rest, same⟩
        obtain ⟨rfl, rfl⟩ := Prod.mk.inj (Except.ok.inj same)
        obtain ⟨place, rfl, rfl⟩ := Option.map_eq_some_iff.mp (expect_ok.mp there)
        have here := small place rfl
        obtain ⟨behind, rfl, stands⟩ := (decodes _ _ _ here).mp ran
        obtain ⟨rfl, finish, rfl, stand⟩ := (ih _ (advances here stands)).mp rest
        exact ⟨rfl, finish, rfl, place, behind, rfl, stands, stand⟩
      · rintro ⟨length, finish, rfl, stand⟩
        obtain ⟨item, others, rfl⟩ := List.exists_cons_of_length_eq_add_one length
        obtain ⟨place, behind, rfl, stands, stand⟩ := stand
        have here := small place rfl
        have rest := (ih _ (advances here stands)).mpr
          ⟨Nat.succ.inj length, finish, rfl, stand⟩
        exact ⟨place, rfl, _, (decodes _ _ _ here).mpr ⟨behind, rfl, stands⟩, _, rest, rfl⟩

include fits

theorem decodeByOffset_iff {decode : Int → Decoded} {Item : Nat → Value → Option Nat → Prop}
    (decodes : Decodes decode Item)
    (inside : ∀ {offset value next}, Item offset value next → offset + 32 ≤ calldata.length)
    (before : Option Nat) {start count index : Nat} {items : List Value} {last : Option Int} :
    decodeByOffset boundedInteger decode calldata start count index (asInt before) =
        .ok (items, last) ↔
      items.length = count ∧ ∃ finish, last = asInt finish ∧
        ByOffset calldata Item start items index before finish := by
  induction count generalizing index before items last with
  | zero =>
      simp only [decodeByOffset, Except.ok.injEq, Prod.mk.injEq]
      constructor
      · rintro ⟨rfl, rfl⟩
        exact ⟨rfl, before, rfl, rfl⟩
      · rintro ⟨none, finish, rfl, stand⟩
        obtain rfl := List.length_eq_zero_iff.mp none
        rw [ByOffset] at stand
        exact ⟨rfl, by rw [stand]⟩
  | succ count ih =>
      simp only [decodeByOffset, bind_ok]
      constructor
      · rintro ⟨_, product, _, added, offset, counted, _, moved, ⟨item, next⟩, ran, ⟨others, finish⟩,
          rest, same⟩
        obtain ⟨rfl, rfl⟩ := Prod.mk.inj (Except.ok.inj same)
        obtain ⟨rfl, _⟩ := bounded_ok product
        obtain ⟨rfl, _⟩ := bounded_ok added
        obtain ⟨rfl, small⟩ := bounded_ok moved
        have word : CountAt calldata (start + index * 32) offset := (readCount_iff fits).mp (by
          push_cast
          exact counted)
        obtain ⟨behind, rfl, stands⟩ := (decodes (start + offset) _ _ (by omega)).mp (by
          push_cast
          exact ran)
        obtain ⟨rfl, finish, rfl, stand⟩ := (ih _).mp rest
        exact ⟨rfl, finish, rfl, offset, behind, word, stands, stand⟩
      · rintro ⟨length, finish, rfl, stand⟩
        obtain ⟨item, others, rfl⟩ := List.exists_cons_of_length_eq_add_one length
        obtain ⟨offset, behind, counted, stands, stand⟩ := stand
        have place := counted.1
        have target := inside stands
        have word := (readCount_iff fits).mpr counted
        have here := (decodes _ _ _ (by omega)).mpr ⟨behind, rfl, stands⟩
        push_cast at word here
        exact ⟨_, bounded_of_range (by omega) (by omega), _, bounded_of_range (by omega) (by omega),
          _, word, _, bounded_of_range (by omega) (by omega), _, here, _,
          (ih _).mpr ⟨Nat.succ.inj length, finish, rfl, stand⟩, rfl⟩

/-- The rest of a step that ends in a sum behind the word at an offset. -/
theorem word_next {A : Type} {offset : Nat} (inside : offset + 32 ≤ calldata.length)
    {answer result : A} {next : Option Int} :
    (do return (answer, some (← boundedInteger ((offset : Int) + 32)))) =
        (.ok (result, next) : Except CodecError (A × Option Int)) ↔
      ∃ last, next = asInt last ∧ answer = result ∧ last = some (offset + 32) := by
  rw [bounded_of_range (by omega) (by omega)]
  change Except.ok (answer, some ((offset : Int) + 32)) = _ ↔ _
  rw [Except.ok.injEq, Prod.mk.injEq]
  constructor
  · rintro ⟨rfl, rfl⟩
    exact ⟨some (offset + 32), by simp [asInt], rfl, rfl⟩
  · rintro ⟨_, rfl, rfl, rfl⟩
    simp [asInt]

theorem start_small {offset count start : Nat} {size : Option Nat} (small : offset < 2 ^ 63)
    (sized : SizeAt calldata offset count start size) : start < 2 ^ 63 := by
  cases size with
  | none =>
      have inside := sized.1.1
      have here := sized.2
      omega
  | some size => exact sized.2.symm ▸ small

/-- What follows a static value is in range. -/
theorem static_small {prefer : Prefer} {type : TypeSpec} (legal : type.Legal)
    (static : type.isDynamic = false) {offset : Nat} {value : Value} {next : Option Nat}
    (small : offset < 2 ^ 63) (stands : Stands calldata prefer type offset value next) :
    ∀ place ∈ next, place < 2 ^ 63 := by
  obtain ⟨rfl, room⟩ := stands_static prefer legal static stands
  intro place member
  obtain rfl := Option.some.inj member
  omega

mutual

/-- The decoding with sums in range answers exactly the values that stand. -/
theorem decodeValue_iff (prefer : Prefer) : ∀ {type : TypeSpec}, type.Legal →
    Decodes (decodeValue boundedInteger prefer calldata type) (Stands calldata prefer type)
  | .uint size, _ => by
      intro offset value next _
      rw [decodeValue, decodeUint, bind_ok]
      simp only [Stands]
      constructor
      · rintro ⟨word, read, rest⟩
        obtain ⟨inside, small, rfl⟩ := (readUint_iff fits).mp read
        obtain ⟨last, rfl, rfl, rfl⟩ := (word_next fits inside).mp rest
        exact ⟨_, rfl, inside, small, rfl, rfl⟩
      · rintro ⟨_, rfl, inside, small, rfl, rfl⟩
        exact ⟨_, (readUint_iff fits).mpr ⟨inside, small, rfl⟩,
          (word_next fits inside).mpr ⟨_, rfl, rfl, rfl⟩⟩
  | .int size, _ => by
      intro offset value next _
      rw [decodeValue, decodeInt, bind_ok]
      simp only [Stands]
      constructor
      · rintro ⟨word, read, rest⟩
        obtain ⟨inside, rfl⟩ := (readWord_iff fits).mp read
        obtain ⟨_, passed, rest⟩ := bind_ok.mp rest
        obtain ⟨last, rfl, rfl, rfl⟩ := (word_next fits inside).mp rest
        exact ⟨_, rfl, inside, assertThat_ok.mp passed, rfl, rfl⟩
      · rintro ⟨_, rfl, inside, range, rfl, rfl⟩
        exact ⟨_, (readWord_iff fits).mpr ⟨inside, rfl⟩, bind_ok.mpr ⟨(), assertThat_ok.mpr range,
          (word_next fits inside).mpr ⟨_, rfl, rfl, rfl⟩⟩⟩
  | .address, _ => by
      intro offset value next _
      rw [decodeValue, decodeAddress, bind_ok]
      simp only [Stands]
      constructor
      · rintro ⟨word, read, rest⟩
        obtain ⟨inside, rfl⟩ := (readWord_iff fits).mp read
        obtain ⟨last, rfl, rfl, rfl⟩ := (word_next fits inside).mp rest
        exact ⟨_, rfl, inside, rfl, rfl⟩
      · rintro ⟨_, rfl, inside, rfl, rfl⟩
        exact ⟨_, (readWord_iff fits).mpr ⟨inside, rfl⟩,
          (word_next fits inside).mpr ⟨_, rfl, rfl, rfl⟩⟩
  | .bool, _ => by
      intro offset value next _
      rw [decodeValue, decodeBool, bind_ok]
      simp only [Stands]
      constructor
      · rintro ⟨word, read, rest⟩
        obtain ⟨inside, rfl⟩ := (readWord_iff fits).mp read
        obtain ⟨truth, known, rest⟩ := bind_ok.mp rest
        obtain ⟨last, rfl, rfl, rfl⟩ := (word_next fits inside).mp rest
        exact ⟨_, rfl, inside, ⟨truth, known, rfl⟩, rfl⟩
      · rintro ⟨_, rfl, inside, ⟨truth, known, rfl⟩, rfl⟩
        exact ⟨_, (readWord_iff fits).mpr ⟨inside, rfl⟩, bind_ok.mpr ⟨truth, known,
          (word_next fits inside).mpr ⟨_, rfl, rfl, rfl⟩⟩⟩
  | .string, _ => by
      intro offset value next _
      simp only [decodeValue, decodeString, bind_ok, Stands]
      constructor
      · rintro ⟨⟨data, behind⟩, read, same⟩
        obtain ⟨last, rfl, stands⟩ := (readData_iff fits).mp read
        obtain ⟨rfl, rfl⟩ := Prod.mk.inj (Except.ok.inj same)
        exact ⟨some last, rfl, data, last, stands, rfl, rfl⟩
      · rintro ⟨_, rfl, data, last, stands, rfl, rfl⟩
        exact ⟨(data, last), (readData_iff fits).mpr ⟨last, rfl, stands⟩, rfl⟩
  | .bytes none, _ => by
      intro offset value next _
      simp only [decodeValue, decodeBytes, bind_ok, Stands]
      constructor
      · rintro ⟨⟨data, behind⟩, read, same⟩
        obtain ⟨last, rfl, stands⟩ := (readData_iff fits).mp read
        obtain ⟨rfl, rfl⟩ := Prod.mk.inj (Except.ok.inj same)
        exact ⟨some last, rfl, data, last, stands, rfl, rfl⟩
      · rintro ⟨_, rfl, data, last, stands, rfl, rfl⟩
        exact ⟨(data, last), (readData_iff fits).mpr ⟨last, rfl, stands⟩, rfl⟩
  | .bytes (some size), _ => by
      intro offset value next _
      have below := le_ceil32 size
      simp only [decodeValue, decodeBytes, Stands]
      constructor
      · intro ran
        have inside : offset + ceil32 size ≤ calldata.length := by
          rw [decodeBytesSized] at ran
          obtain ⟨_, round, ran⟩ := bind_ok.mp ran
          obtain ⟨rfl, _⟩ := ceil32Of_iff.mp round
          obtain ⟨_, added, ran⟩ := bind_ok.mp ran
          obtain ⟨rfl, _⟩ := bounded_ok added
          obtain ⟨_, passed, _⟩ := bind_ok.mp ran
          have := assertThat_ok.mp passed
          omega
        rw [decodeBytesSized_inside fits prefer inside] at ran
        obtain ⟨rfl, rfl⟩ := Prod.mk.inj (Except.ok.inj ran)
        exact ⟨some (offset + ceil32 size), rfl, inside,
          ⟨_, (bytesAt_iff (by omega)).mpr rfl, rfl⟩, rfl⟩
      · rintro ⟨_, rfl, inside, ⟨data, stands, rfl⟩, rfl⟩
        rw [decodeBytesSized_inside fits prefer inside, (bytesAt_iff (by omega)).mp stands]
        rfl
  | .array elementType size, legal => by
      intro offset value next small
      have each := decodeValue_iff prefer legal.1
      rw [decodeValue, bind_ok]
      simp only [Stands]
      constructor
      · rintro ⟨⟨count, first⟩, found, ran⟩
        obtain ⟨start, rfl, sized⟩ := (arraySize_iff fits).mp found
        have near := start_small fits small sized
        cases dynamic : elementType.isDynamic with
        | true =>
            rw [if_pos dynamic] at ran
            obtain ⟨⟨items, last⟩, read, same⟩ := bind_ok.mp ran
            obtain ⟨rfl, rfl⟩ := Prod.mk.inj (Except.ok.inj same)
            obtain ⟨rfl, finish, rfl, stand⟩ := (decodeByOffset_iff fits each
              (fun stands => stands_dynamic legal.1 dynamic stands) none).mp read
            exact ⟨finish, rfl, start, items, sized, rfl, stand⟩
        | false =>
            rw [if_neg (by simp [dynamic])] at ran
            obtain ⟨⟨items, last⟩, read, same⟩ := bind_ok.mp ran
            obtain ⟨rfl, rfl⟩ := Prod.mk.inj (Except.ok.inj same)
            obtain ⟨rfl, finish, rfl, stand⟩ := (decodeInPlace_iff each
              (static_small fits legal.1 dynamic) (some start)
              (by simpa using near)).mp read
            exact ⟨finish, rfl, start, items, sized, rfl, stand⟩
      · rintro ⟨finish, rfl, start, items, sized, rfl, stand⟩
        have near := start_small fits small sized
        refine ⟨(items.length, start), (arraySize_iff fits).mpr ⟨start, rfl, sized⟩, ?_⟩
        cases dynamic : elementType.isDynamic with
        | true =>
            rw [if_pos dynamic] at stand
            have ran := (decodeByOffset_iff fits each
              (fun stands => stands_dynamic legal.1 dynamic stands) none).mpr ⟨rfl, finish, rfl, stand⟩
            exact bind_ok.mpr ⟨_, ran, rfl⟩
        | false =>
            rw [if_neg (by simp [dynamic])] at stand
            have ran := (decodeInPlace_iff each (static_small fits legal.1 dynamic) (some start)
              (by simpa using near)).mpr ⟨rfl, finish, rfl, stand⟩
            exact bind_ok.mpr ⟨_, ran, rfl⟩
  | .tuple components, legal => by
      intro offset value next small
      have all := components_iff prefer legal offset (some offset)
        (some (offset + components.staticSize)) 1
      simp only [decodeValue, bind_ok, Stands]
      constructor
      · rintro ⟨_, added, ⟨result, last⟩, ran, same⟩
        obtain ⟨rfl, _⟩ := bounded_ok added
        obtain ⟨rfl, rfl⟩ := Prod.mk.inj (Except.ok.inj same)
        obtain ⟨finish, rfl, stand⟩ := (all result last (by simpa using small)).mp (by
          simpa [asInt] using ran)
        exact ⟨finish, rfl, result, rfl, stand⟩
      · rintro ⟨finish, rfl, result, rfl, stand⟩
        have room := (components_static prefer legal stand).1
        have ran := (all result _ (by simpa using small)).mpr ⟨finish, rfl, stand⟩
        refine ⟨_, bounded_of_range (by omega) (by omega), (result, asInt finish), ?_, rfl⟩
        simpa [asInt] using ran

theorem components_iff (prefer : Prefer) : ∀ {components : Components}, components.Legal →
    ∀ (start : Nat) (static before : Option Nat) (position : Nat) (result : Table)
      (last : Option Int), (∀ place ∈ static, place < 2 ^ 63) →
      (decodeComponents boundedInteger prefer calldata components start (asInt static)
          (asInt before) position = .ok (result, last) ↔
        ∃ finish, last = asInt finish ∧
          ComponentsStand calldata prefer components start static before position result finish)
  | .nil, _, _, _, before, _, result, last, _ => by
      simp only [decodeComponents, ComponentsStand, Except.ok.injEq, Prod.mk.injEq]
      constructor
      · rintro ⟨rfl, rfl⟩
        exact ⟨before, rfl, rfl, rfl⟩
      · rintro ⟨_, rfl, rfl, rfl⟩
        exact ⟨rfl, rfl⟩
  | .cons name type rest, legal, start, static, before, position, result, last, small => by
      have value := decodeValue_iff prefer legal.1
      have others := components_iff prefer legal.2
      rw [decodeComponents]
      simp only [ComponentsStand]
      constructor
      · intro ran
        obtain ⟨_, there, ran⟩ := bind_ok.mp ran
        obtain ⟨place, rfl, rfl⟩ := Option.map_eq_some_iff.mp (expect_ok.mp there)
        cases dynamic : type.isDynamic with
        | true =>
            rw [if_pos dynamic] at ran
            obtain ⟨offset, found, ran⟩ := bind_ok.mp ran
            have count := (readCount_iff fits).mp found
            obtain ⟨_, moved, ran⟩ := bind_ok.mp ran
            obtain ⟨rfl, near⟩ := bounded_ok moved
            obtain ⟨⟨item, behind⟩, read, rest⟩ := bind_ok.mp ran
            obtain ⟨next, rfl, stands⟩ := (value (start + offset) _ _ (by omega)).mp (by
              push_cast
              exact read)
            obtain ⟨_, added, rest⟩ := bind_ok.mp rest
            obtain ⟨rfl, _⟩ := bounded_ok added
            obtain ⟨⟨table, finish⟩, more, same⟩ := bind_ok.mp rest
            obtain ⟨rfl, rfl⟩ := Prod.mk.inj (Except.ok.inj same)
            have inside := count.1
            obtain ⟨finish, rfl, stand⟩ := (others start (some (place + 32)) next (position + 1) table
              finish (by simp; omega)).mp (by simpa [asInt] using more)
            exact ⟨finish, rfl, place, item, table, rfl, rfl, offset, next, count, stands, stand⟩
        | false =>
            rw [if_neg (by simp [dynamic])] at ran
            obtain ⟨⟨item, behind⟩, read, rest⟩ := bind_ok.mp ran
            obtain ⟨next, rfl, stands⟩ := (value place _ _ (small place rfl)).mp read
            obtain ⟨⟨table, finish⟩, more, same⟩ := bind_ok.mp rest
            obtain ⟨rfl, rfl⟩ := Prod.mk.inj (Except.ok.inj same)
            obtain ⟨finish, rfl, stand⟩ := (others start next before (position + 1) table finish
              (static_small fits legal.1 dynamic (small place rfl) stands)).mp more
            exact ⟨finish, rfl, place, item, table, rfl, rfl, next, stands, stand⟩
      · rintro ⟨finish, rfl, place, item, table, rfl, rfl, stand⟩
        refine bind_ok.mpr ⟨(place : Int), rfl, ?_⟩
        cases dynamic : type.isDynamic with
        | true =>
            rw [if_pos dynamic] at stand
            obtain ⟨offset, next, count, stands, stand⟩ := stand
            have inside := count.1
            have target := stands_dynamic legal.1 dynamic stands
            have here := (value (start + offset) _ _ (by omega)).mpr ⟨next, rfl, stands⟩
            have rest := (others start (some (place + 32)) next (position + 1) table _
              (by simp; omega)).mpr ⟨finish, rfl, stand⟩
            push_cast at here
            refine bind_ok.mpr ⟨offset, (readCount_iff fits).mpr count, ?_⟩
            refine bind_ok.mpr ⟨_, bounded_of_range (by omega) (by omega), ?_⟩
            refine bind_ok.mpr ⟨_, here, ?_⟩
            refine bind_ok.mpr ⟨_, bounded_of_range (by omega) (by omega), ?_⟩
            refine bind_ok.mpr ⟨(table, asInt finish), ?_, rfl⟩
            simpa [asInt] using rest
        | false =>
            rw [if_neg (by simp [dynamic])] at stand
            obtain ⟨next, stands, stand⟩ := stand
            have here := (value place _ _ (small place rfl)).mpr ⟨next, rfl, stands⟩
            have rest := (others start next before (position + 1) table _
              (static_small fits legal.1 dynamic (small place rfl) stands)).mpr ⟨finish, rfl, stand⟩
            refine bind_ok.mpr ⟨_, here, ?_⟩
            exact bind_ok.mpr ⟨(table, asInt finish), rest, rfl⟩

end

end Decoding

end MachineEmulator.Evmu
