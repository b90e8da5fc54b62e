/-
This file proves what the hexadecimal decoder accepts, and that it undoes the encoder.
-/

import MachineEmulator.Construction.Evmu.Value

namespace MachineEmulator.Evmu

section Digits

theorem hexDigit_lt {character : Byte} {digit : Nat} (read : hexDigit character = some digit) :
    digit < 16 := by
  simp only [hexDigit] at read
  split at read
  · cases read
    omega
  · split at read
    · cases read
      omega
    · split at read
      · cases read
        omega
      · cases read

theorem hexDigit_hexCharacter {digit : Nat} (small : digit < 16) :
    hexDigit (hexCharacter digit) = some digit := by
  interval_cases digit <;> decide

theorem not_isSpace_of_hexDigit {character : Byte} (digit : (hexDigit character).isSome) :
    isSpace character = false := by
  rw [isSpace, decide_eq_false_iff_not]
  rintro (rfl | ⟨above, below⟩)
  · exact absurd digit (by decide)
  · have none : hexDigit character = none := by
      simp only [hexDigit]
      rw [if_neg (by omega), if_neg (by omega), if_neg (by omega)]
    rw [none] at digit
    cases digit

/-- Two hexadecimal digits are a number that is a character. -/
theorem tonumber_digits {high low : Byte} {first second : Nat} (highRead : hexDigit high = some first)
    (lowRead : hexDigit low = some second) :
    tonumber (high, low) = some ((16 * first + second : Nat) : Int) := by
  have notMinus : high ≠ minus := by
    rintro rfl
    cases highRead
  have notPlus : high ≠ plus := by
    rintro rfl
    cases highRead
  simp only [tonumber, if_neg notMinus, if_neg notPlus, highRead, lowRead]

end Digits

section Pairs

/-- A pair that is a sign and a digit. -/
def SignedPair (pair : Byte × Byte) : Prop :=
  (pair.1 = minus ∨ pair.1 = plus) ∧ (hexDigit pair.2).isSome

/-- A pair that stands for a number below zero. -/
def NegativePair (pair : Byte × Byte) : Prop := ∃ code, tonumber pair = some code ∧ code < 0

/-- A negative pair is a minus with a digit that is not zero. -/
theorem negativePair_iff (pair : Byte × Byte) :
    NegativePair pair ↔ pair.1 = minus ∧ ∃ digit, hexDigit pair.2 = some digit ∧ 0 < digit := by
  obtain ⟨high, low⟩ := pair
  constructor
  · rintro ⟨code, read, negative⟩
    simp only [tonumber] at read
    split at read
    · next same =>
        obtain ⟨digit, lowRead, rfl⟩ := Option.map_eq_some_iff.mp read
        exact ⟨same, digit, lowRead, by omega⟩
    · split at read
      · obtain ⟨digit, lowRead, rfl⟩ := Option.map_eq_some_iff.mp read
        omega
      · split at read
        · cases read
          omega
        · cases read
  · rintro ⟨same, digit, lowRead, positive⟩
    refine ⟨-(digit : Int), ?_, by omega⟩
    simp only at same lowRead
    rw [tonumber, if_pos same, lowRead]
    rfl

/-- A number is a signed one, or it has two digits. -/
theorem tonumber_isSome (pair : Byte × Byte) :
    (tonumber pair).isSome ↔
      SignedPair pair ∨ (hexDigit pair.1).isSome ∧ (hexDigit pair.2).isSome := by
  obtain ⟨high, low⟩ := pair
  simp only [tonumber, SignedPair]
  split
  · next same =>
      subst same
      simp [show hexDigit minus = none from rfl]
  · next notMinus =>
      split
      · next same =>
          subst same
          simp [show hexDigit plus = none from rfl]
      · next notPlus =>
          simp only [notMinus, notPlus, false_or, false_and]
          cases hexDigit high <;> cases hexDigit low <;> simp

theorem tonumber_lt {pair : Byte × Byte} {code : Int} (read : tonumber pair = some code) :
    code < 256 := by
  obtain ⟨high, low⟩ := pair
  simp only [tonumber] at read
  split at read
  · obtain ⟨digit, _, rfl⟩ := Option.map_eq_some_iff.mp read
    omega
  · split at read
    · obtain ⟨digit, lowRead, rfl⟩ := Option.map_eq_some_iff.mp read
      have := hexDigit_lt lowRead
      omega
    · split at read
      · next first second highRead lowRead =>
          cases read
          have := hexDigit_lt highRead
          have := hexDigit_lt lowRead
          omega
      · cases read

theorem hexPair_of_negative {pair : Byte × Byte} (negative : NegativePair pair) :
    hexPair pair = .error .valueOutOfRange := by
  obtain ⟨code, read, below⟩ := negative
  simp only [hexPair, read, stringChar, assertThat]
  rw [if_neg (by omega)]
  rfl

theorem hexPair_ok {pair : Byte × Byte} (natural : ¬NegativePair pair) :
    ∃ byte, hexPair pair = .ok byte ∧ byte.isSome = (tonumber pair).isSome := by
  cases read : tonumber pair with
  | none => exact ⟨none, by simp only [hexPair, read], rfl⟩
  | some code =>
      have above : 0 ≤ code := not_lt.mp fun below => natural ⟨code, read, below⟩
      refine ⟨some (BitVec.ofInt 8 code), ?_, rfl⟩
      simp only [hexPair, read, stringChar, assertThat]
      rw [if_pos ⟨above, tonumber_lt read⟩]
      rfl

/-- One negative pair is enough to throw, whatever the others are. -/
theorem hexPairs_of_negative {pairs : List (Byte × Byte)} {pair : Byte × Byte}
    (member : pair ∈ pairs) (negative : NegativePair pair) : ∃ failure, hexPairs pairs = .error failure := by
  induction pairs with
  | nil => cases member
  | cons first rest ih =>
      by_cases below : NegativePair first
      · exact ⟨.valueOutOfRange, by rw [hexPairs, hexPair_of_negative below]; rfl⟩
      · obtain ⟨byte, read, _⟩ := hexPair_ok below
        rcases List.mem_cons.mp member with rfl | later
        · exact absurd negative below
        · obtain ⟨failure, failed⟩ := ih later
          exact ⟨failure, by rw [hexPairs, read, failed]; rfl⟩

/-- Without a negative pair there is an answer, with data if all the pairs are numbers. -/
theorem hexPairs_ok {pairs : List (Byte × Byte)} (natural : ∀ pair ∈ pairs, ¬NegativePair pair) :
    ∃ answer, hexPairs pairs = .ok answer ∧
      (answer.isSome ↔ ∀ pair ∈ pairs, (tonumber pair).isSome) := by
  induction pairs with
  | nil => exact ⟨some [], rfl, by simp⟩
  | cons first rest ih =>
      obtain ⟨byte, read, numbered⟩ := hexPair_ok (natural first List.mem_cons_self)
      obtain ⟨others, answered, all⟩ := ih fun pair member =>
        natural pair (List.mem_cons_of_mem first member)
      refine ⟨byte.bind fun byte => others.map fun others => byte :: others, ?_, ?_⟩
      · rw [hexPairs, read, answered]
        rfl
      · rw [List.forall_mem_cons, ← all, ← numbered]
        cases byte <;> cases others <;> simp

/-- The digits are those of the pairs if there is an even number of them. -/
theorem forall_pairsOf (property : Byte → Prop) :
    ∀ {digits : List Byte}, digits.length % 2 = 0 →
      ((∀ pair ∈ pairsOf digits, property pair.1 ∧ property pair.2) ↔
        ∀ character ∈ digits, property character)
  | [], _ => by simp [pairsOf]
  | [_], odd => by simp at odd
  | high :: low :: rest, even => by
      have shorter : rest.length % 2 = 0 := by
        simp only [List.length_cons] at even
        omega
      rw [pairsOf, List.forall_mem_cons, List.forall_mem_cons, List.forall_mem_cons,
        forall_pairsOf property shorter, and_assoc]

end Pairs

section Strings

/-- A string of an even number of hexadecimal digits after its mark. -/
def HexString (text : List Byte) : Prop :=
  ∃ digits, (text = [0x30, 0x78] ++ digits ∨ text = [0x30, 0x58] ++ digits) ∧
    digits.length % 2 = 0 ∧ ∀ character ∈ digits, (hexDigit character).isSome

/-- The decoder answers, and it answers with data just where the string is one of digits. -/
def AcceptsExactly (text : List Byte) : Prop :=
  ∃ answer, fromhex text = .ok answer ∧ (answer.isSome ↔ HexString text)

/-- The mark, the length and the absence of spaces, which the decoder checks first. -/
def Framed (text : List Byte) : Prop :=
  text.any isSpace = false ∧ (text.take 2 = [0x30, 0x78] ∨ text.take 2 = [0x30, 0x58]) ∧
    text.length % 2 = 0

/-- No pair of a framed string is a minus with a digit that is not zero, and a pair of a sign and a
digit stands only where another pair is no number at all. -/
def SignsHarmless (text : List Byte) : Prop :=
  Framed text →
    (∀ pair ∈ pairsOf (text.drop 2), ¬NegativePair pair) ∧
      ((∃ pair ∈ pairsOf (text.drop 2), SignedPair pair) →
        ∃ pair ∈ pairsOf (text.drop 2), tonumber pair = none)

theorem fromhex_of_framed {text : List Byte} (framed : Framed text) :
    fromhex text = hexPairs (pairsOf (text.drop 2)) := by
  obtain ⟨spaceless, marked, even⟩ := framed
  rw [fromhex, if_neg (by simp [spaceless]), if_neg (by tauto), if_neg (by omega)]

theorem fromhex_of_not_framed {text : List Byte} (unframed : ¬Framed text) :
    fromhex text = .ok none := by
  unfold fromhex
  by_cases spaced : text.any isSpace = true
  · rw [if_pos spaced]
  · rw [if_neg spaced]
    by_cases unmarked : text.take 2 ≠ [0x30, 0x78] ∧ text.take 2 ≠ [0x30, 0x58]
    · rw [if_pos unmarked]
    · rw [if_neg unmarked, if_pos]
      intro even
      exact unframed ⟨by simpa using spaced, by tauto, even⟩

/-- A framed string is one of digits if all characters of its pairs are digits. -/
theorem hexString_iff {text : List Byte} (framed : Framed text) :
    HexString text ↔ ∀ pair ∈ pairsOf (text.drop 2),
      (hexDigit pair.1).isSome ∧ (hexDigit pair.2).isSome := by
  obtain ⟨_, marked, even⟩ := framed
  have long : 2 ≤ text.length := by
    have taken : (text.take 2).length = 2 := by
      rcases marked with mark | mark <;> rw [mark] <;> rfl
    rw [List.length_take] at taken
    omega
  have even' : (text.drop 2).length % 2 = 0 := by
    rw [List.length_drop]
    omega
  rw [forall_pairsOf (fun character => (hexDigit character).isSome) even']
  constructor
  · rintro ⟨digits, rfl | rfl, _, all⟩ <;> exact all
  · intro all
    refine ⟨text.drop 2, ?_, even', all⟩
    rcases marked with mark | mark
    · exact Or.inl (by rw [← mark, List.take_append_drop])
    · exact Or.inr (by rw [← mark, List.take_append_drop])

theorem HexString.framed {text : List Byte} (hex : HexString text) : Framed text := by
  obtain ⟨digits, marked, even, all⟩ := hex
  have spaceless : digits.any isSpace = false := by
    rw [List.any_eq_false]
    intro character member
    simp [not_isSpace_of_hexDigit (all character member)]
  rcases marked with rfl | rfl
  · refine ⟨?_, Or.inl rfl, ?_⟩
    · rw [List.any_append, spaceless]
      decide
    · simp only [List.length_append, List.length_cons, List.length_nil]
      omega
  · refine ⟨?_, Or.inr rfl, ?_⟩
    · rw [List.any_append, spaceless]
      decide
    · simp only [List.length_append, List.length_cons, List.length_nil]
      omega

theorem acceptsExactly_iff (text : List Byte) : AcceptsExactly text ↔ SignsHarmless text := by
  by_cases framed : Framed text
  · rw [AcceptsExactly, fromhex_of_framed framed, hexString_iff framed, SignsHarmless,
      forall_prop_of_true framed]
    constructor
    · rintro ⟨answer, ran, exactly⟩
      have natural : ∀ pair ∈ pairsOf (text.drop 2), ¬NegativePair pair := by
        intro pair member negative
        obtain ⟨failure, failed⟩ := hexPairs_of_negative member negative
        rw [failed] at ran
        cases ran
      refine ⟨natural, ?_⟩
      rintro ⟨pair, member, signed⟩
      obtain ⟨_, answered, numbers⟩ := hexPairs_ok natural
      cases answered.symm.trans ran
      by_contra none
      push Not at none
      have all : ∀ pair ∈ pairsOf (text.drop 2), (tonumber pair).isSome := fun pair member =>
        Option.isSome_iff_ne_none.mpr (none pair member)
      -- The first character of a signed pair is no digit.
      have digit := (exactly.mp (numbers.mpr all) pair member).1
      rcases signed.1 with sign | sign <;> rw [sign] at digit <;> cases digit
    · rintro ⟨natural, harmless⟩
      obtain ⟨answer, answered, numbers⟩ := hexPairs_ok natural
      refine ⟨answer, answered, numbers.trans ⟨fun all pair member => ?_, fun all pair member =>
        (tonumber_isSome pair).mpr (Or.inr (all pair member))⟩⟩
      rcases (tonumber_isSome pair).mp (all pair member) with signed | digits
      · obtain ⟨other, member, none⟩ := harmless ⟨pair, member, signed⟩
        have number := all other member
        rw [none] at number
        cases number
      · exact digits
  · have accepts : AcceptsExactly text :=
      ⟨none, fromhex_of_not_framed framed, by simpa using fun hex => framed hex.framed⟩
    exact iff_of_true accepts fun other => absurd other framed

end Strings

section Encoding

theorem pairsOf_flatMap (data : List Byte) (high low : Byte → Byte) :
    pairsOf (data.flatMap fun byte => [high byte, low byte]) =
      data.map fun byte => (high byte, low byte) := by
  induction data with
  | nil => rfl
  | cons byte rest ih =>
      rw [List.flatMap_cons, List.map_cons, ← ih]
      rfl

theorem hexPair_hexCharacters (byte : Byte) :
    hexPair (hexCharacter (byte.toNat / 16), hexCharacter (byte.toNat % 16)) = .ok (some byte) := by
  have bound := byte.isLt
  have whole : 16 * (byte.toNat / 16) + byte.toNat % 16 = byte.toNat := Nat.div_add_mod _ 16
  have number := tonumber_digits (hexDigit_hexCharacter (show byte.toNat / 16 < 16 by omega))
    (hexDigit_hexCharacter (show byte.toNat % 16 < 16 by omega))
  rw [whole] at number
  simp only [hexPair, number, stringChar, assertThat]
  rw [if_pos (by omega)]
  have same : BitVec.ofInt 8 (byte.toNat : Int) = byte := by
    rw [BitVec.ofInt_natCast, BitVec.ofNat_toNat, BitVec.setWidth_eq]
  simp only [bind, Except.bind, pure, Except.pure, same]

theorem hexString_tohex (data : List Byte) : HexString (tohex data) := by
  refine ⟨_, Or.inl rfl, ?_, ?_⟩
  · simp [List.length_flatMap]
  · intro character member
    obtain ⟨byte, _, either⟩ := List.mem_flatMap.mp member
    have bound := byte.isLt
    simp only [List.mem_cons, List.not_mem_nil, or_false] at either
    rcases either with rfl | rfl <;> rw [hexDigit_hexCharacter (by omega)] <;> rfl

/-- Decoding undoes encoding. -/
theorem fromhex_tohex (data : List Byte) : fromhex (tohex data) = .ok (some data) := by
  rw [fromhex_of_framed (hexString_tohex data).framed]
  have digits : (tohex data).drop 2 = data.flatMap fun byte =>
      [hexCharacter (byte.toNat / 16), hexCharacter (byte.toNat % 16)] := rfl
  rw [digits, pairsOf_flatMap]
  induction data with
  | nil => rfl
  | cons byte rest ih =>
      rw [List.map_cons, hexPairs, hexPair_hexCharacters, ih rfl]
      rfl

end Encoding

/-- Decoding undoes encoding, and the decoder answers data for the strings of digits and for no
others, without ever throwing, exactly where the signs of a string do no harm. -/
theorem hexCodec (text data : List Byte) :
    fromhex (tohex data) = .ok (some data) ∧ (AcceptsExactly text ↔ SignsHarmless text) :=
  ⟨fromhex_tohex data, acceptsExactly_iff text⟩

/-- A signed digit is taken for a byte, and a negative one throws. -/
theorem hexCodec_signed :
    fromhex [0x30, 0x78, 0x2b, 0x31] = .ok (some [1]) ∧ ¬HexString [0x30, 0x78, 0x2b, 0x31] ∧
      fromhex [0x30, 0x78, 0x2d, 0x31] = .error .valueOutOfRange := by
  refine ⟨rfl, ?_, rfl⟩
  rintro ⟨digits, marked, _, all⟩
  have same : digits = [0x2b, 0x31] := by
    rcases marked with marked | marked
    · exact (@List.append_cancel_left _ [0x30, 0x78] _ _ marked).symm
    · cases marked
  subst same
  exact absurd (all 0x2b (by decide)) (by decide)

end MachineEmulator.Evmu
