/-
This file shows that Base64 texts give back the bytes they were written for, and which texts are read.
-/

import MachineEmulator.Construction.Json.Base64

namespace MachineEmulator.Json

theorem unbase_char {value : Nat} (small : value < 64) : b64unbase (b64char value) = value := by
  have every : ∀ value < 64, b64unbase (b64char value) = value := by decide
  exact every value small

theorem char_ne_padding {value : Nat} (small : value < 64) : b64char value ≠ '=' := by
  have every : ∀ value < 64, b64char value ≠ '=' := by decide
  exact every value small

theorem low_six (value : Nat) : value &&& 0x3f = value % 64 := Nat.and_two_pow_sub_one_eq_mod value 6

theorem low_eight (value : Nat) : value &&& 0xff = value % 256 :=
  Nat.and_two_pow_sub_one_eq_mod value 8

/-- Six more bits are appended to a value. -/
theorem append_six (value : Nat) {low : Nat} (small : low < 64) :
    (value <<< 6) ||| low = value * 64 + low := by
  rw [← Nat.shiftLeft_add_eq_or_of_lt (i := 6) (by omega), Nat.shiftLeft_eq]

/-- The character of a six-bit value is read without a complaint. -/
theorem decode_char {value : Nat} (small : value < 64) (input : List Char) :
    b64decode (b64char value) input = .ok (groupOf (input ++ [b64char value])) := by
  have accepted : ¬ 64 < b64unbase (b64char value) := by
    rw [unbase_char small]
    omega
  rw [b64decode, if_neg accepted]

theorem decode_padding (input : List Char) :
    b64decode '=' input = .ok (groupOf (input ++ ['='])) := by
  rw [b64decode, if_neg (by decide)]

/-- The value that four characters stand for. -/
theorem decodeGroup_chars {first second third fourth : Nat} (smallFirst : first < 64)
    (smallSecond : second < 64) (smallThird : third < 64) (smallFourth : fourth < 64) :
    decodeGroup (b64char first) (b64char second) (b64char third) (b64char fourth) =
      [BitVec.ofNat 8 (first * 4 + second / 16), BitVec.ofNat 8 (second * 16 + third / 4),
        BitVec.ofNat 8 (third * 64 + fourth)] := by
  simp only [decodeGroup, unbase_char smallFirst, unbase_char smallSecond, unbase_char smallThird,
    unbase_char smallFourth, char_ne_padding smallThird, char_ne_padding smallFourth, if_false]
  rw [append_six first smallSecond, append_six _ smallThird, append_six _ smallFourth,
    Nat.shiftRight_eq_div_pow, Nat.shiftRight_eq_div_pow, low_eight, low_eight]
  congr 1
  · congr 1
    omega
  · congr 1
    · apply BitVec.eq_of_toNat_eq
      simp only [BitVec.toNat_ofNat]
      omega
    · congr 1
      apply BitVec.eq_of_toNat_eq
      simp only [BitVec.toNat_ofNat]
      omega

/-- The first byte of a group with two characters of padding. -/
theorem decodeGroup_one {first second : Nat} (smallFirst : first < 64) (smallSecond : second < 64) :
    decodeGroup (b64char first) (b64char second) '=' '=' =
      [BitVec.ofNat 8 (first * 4 + second / 16)] := by
  have padding : b64unbase '=' = 0 := by decide
  simp only [decodeGroup, unbase_char smallFirst, unbase_char smallSecond, padding, if_true,
    Nat.or_zero]
  rw [append_six first smallSecond, Nat.shiftRight_eq_div_pow]
  simp only [Nat.shiftLeft_eq, List.take_succ_cons, List.take_zero]
  congr 2
  omega

theorem decodeGroup_two {first second third : Nat} (smallFirst : first < 64)
    (smallSecond : second < 64) (smallThird : third < 64) :
    decodeGroup (b64char first) (b64char second) (b64char third) '=' =
      [BitVec.ofNat 8 (first * 4 + second / 16), BitVec.ofNat 8 (second * 16 + third / 4)] := by
  have padding : b64unbase '=' = 0 := by decide
  simp only [decodeGroup, unbase_char smallFirst, unbase_char smallSecond, unbase_char smallThird,
    padding, char_ne_padding smallThird, if_true, if_false, Nat.or_zero]
  rw [append_six first smallSecond, append_six _ smallThird, Nat.shiftRight_eq_div_pow,
    Nat.shiftRight_eq_div_pow, low_eight]
  simp only [Nat.shiftLeft_eq, List.take_succ_cons, List.take_zero]
  congr 1
  · congr 1
    omega
  · congr 1
    apply BitVec.eq_of_toNat_eq
    simp only [BitVec.toNat_ofNat]
    omega

/-- A full group of three bytes is written and read on its own. -/
theorem encode_three (first second third : Byte) (rest : List Byte) :
    encodeFrom [] (first :: second :: third :: rest) =
      let value := first.toNat * 65536 + second.toNat * 256 + third.toNat
      [b64char (value / 262144), b64char (value / 4096 % 64), b64char (value / 64 % 64),
        b64char (value % 64)] ++ encodeFrom [] rest := by
  have joined : (((first.toNat <<< 8) + second.toNat) <<< 8) + third.toNat =
      first.toNat * 65536 + second.toNat * 256 + third.toNat := by
    simp only [Nat.shiftLeft_eq]
    omega
  simp only [encodeFrom, b64encode, List.nil_append, List.cons_append, joined, low_six,
    Nat.shiftRight_eq_div_pow, Nat.reducePow]

theorem decodeFrom_cons (input : List Char) (character : Char) (rest : List Char) :
    decodeFrom input (character :: rest) =
      (b64decode character input).bind fun read =>
        (decodeFrom read.1 rest).bind fun bytes => .ok (read.2 ++ bytes) := rfl

theorem decodeFrom_nil (input : List Char) : decodeFrom input [] = .ok [] := rfl

theorem decode_group {first second third fourth : Nat} (smallFirst : first < 64)
    (smallSecond : second < 64) (smallThird : third < 64) (smallFourth : fourth < 64)
    (rest : List Char) :
    decodeFrom [] ([b64char first, b64char second, b64char third, b64char fourth] ++ rest) =
      (decodeFrom [] rest).bind fun bytes =>
        .ok ([BitVec.ofNat 8 (first * 4 + second / 16), BitVec.ofNat 8 (second * 16 + third / 4),
          BitVec.ofNat 8 (third * 64 + fourth)] ++ bytes) := by
  simp only [List.cons_append, List.nil_append, decodeFrom_cons, decode_char smallFirst,
    decode_char smallSecond, decode_char smallThird, decode_char smallFourth, Except.bind, groupOf,
    decodeGroup_chars smallFirst smallSecond smallThird smallFourth]
  cases decodeFrom [] rest <;> rfl

theorem ofNat_toNat_byte (byte : Byte) {value : Nat} (same : value % 256 = byte.toNat) :
    BitVec.ofNat 8 value = byte := by
  apply BitVec.eq_of_toNat_eq
  rw [BitVec.toNat_ofNat]
  exact same

/-- Reading undoes writing, three bytes at a time. -/
theorem decode_encode : ∀ data : List Byte, decodeFrom [] (encodeFrom [] data) = .ok data
  | [] => rfl
  | [first] => by
      have bound := first.isLt
      have text : encodeFrom [] [first] =
          [b64char (first.toNat * 16 / 64), b64char (first.toNat * 16 % 64), '=', '='] := by
        simp only [encodeFrom, b64encode, List.nil_append, b64pad, low_six,
          Nat.shiftRight_eq_div_pow, Nat.shiftLeft_eq, Nat.reducePow]
      have smallFirst : first.toNat * 16 / 64 < 64 := by omega
      have smallSecond : first.toNat * 16 % 64 < 64 := by omega
      rw [text]
      simp only [decodeFrom_cons, decode_char smallFirst, decode_char smallSecond, decode_padding,
        Except.bind, groupOf, List.nil_append, List.cons_append, List.append_nil,
        decodeGroup_one smallFirst smallSecond, decodeFrom_nil]
      rw [ofNat_toNat_byte first (by omega)]
  | [first, second] => by
      have boundFirst := first.isLt
      have boundSecond := second.isLt
      have joined : ((first.toNat <<< 8) ||| second.toNat) <<< 2 =
          (first.toNat * 256 + second.toNat) * 4 := by
        rw [← Nat.shiftLeft_add_eq_or_of_lt boundSecond, Nat.shiftLeft_eq, Nat.shiftLeft_eq]
      have text : encodeFrom [] [first, second] =
          [b64char ((first.toNat * 256 + second.toNat) * 4 / 4096),
            b64char ((first.toNat * 256 + second.toNat) * 4 / 64 % 64),
            b64char ((first.toNat * 256 + second.toNat) * 4 % 64), '='] := by
        simp only [encodeFrom, b64encode, List.nil_append, List.cons_append, b64pad, low_six, joined,
          Nat.shiftRight_eq_div_pow, Nat.reducePow]
      have smallFirst : (first.toNat * 256 + second.toNat) * 4 / 4096 < 64 := by omega
      have smallSecond : (first.toNat * 256 + second.toNat) * 4 / 64 % 64 < 64 := by omega
      have smallThird : (first.toNat * 256 + second.toNat) * 4 % 64 < 64 := by omega
      rw [text]
      simp only [decodeFrom_cons, decode_char smallFirst, decode_char smallSecond,
        decode_char smallThird, decode_padding, Except.bind, groupOf, List.nil_append,
        List.cons_append, List.append_nil, decodeGroup_two smallFirst smallSecond smallThird,
        decodeFrom_nil]
      rw [ofNat_toNat_byte first (by omega), ofNat_toNat_byte second (by omega)]
  | first :: second :: third :: rest => by
      have boundFirst := first.isLt
      have boundSecond := second.isLt
      have boundThird := third.isLt
      rw [encode_three]
      dsimp only
      rw [decode_group (by omega) (by omega) (by omega) (by omega), decode_encode rest]
      dsimp only [Except.bind]
      rw [ofNat_toNat_byte first (by omega), ofNat_toNat_byte second (by omega),
        ofNat_toNat_byte third (by omega)]
      rfl

@[simp] theorem decodeBase64_encodeBase64 (data : List Byte) :
    decodeBase64 (encodeBase64 data) = .ok data := by
  rw [decodeBase64, encodeBase64, String.toList_ofList, decode_encode]

section Accepted

/-- The characters that the decoder leaves out. -/
def isWhitespace (character : Char) : Bool :=
  character ∈ [' ', '\t', '\n', '\x0b', '\x0c', '\r']

/-- The text without its white space. -/
def stripped (text : String) : List Char := text.toList.filter fun character => !isWhitespace character

/-- Complete groups of four characters of the alphabet, where at most the last two characters of the
last group are padding. -/
def CompleteGroups (text : List Char) : Prop :=
  text.length % 4 = 0 ∧ ∃ body padding, text = body ++ padding ∧
    (∀ character ∈ body, character ∈ b64base) ∧ padding ∈ [[], ['='], ['=', '=']]

/-- A text of the alphabet and of padding has no group that is not complete, and padding stands among
the last two characters only, with nothing but padding after it. -/
def PaddedRight (text : List Char) : Prop :=
  (∀ character ∈ text, character ∈ b64base ∨ character = '=') →
    text.length % 4 = 0 ∧ ∀ before after, text = before ++ '=' :: after → after ∈ [[], ['=']]

/-- The decoder throws, or the text is one of complete groups. -/
def ThrowsOrComplete (text : String) : Prop :=
  (∃ rejection, decodeBase64 text = .error rejection) ∨ CompleteGroups (stripped text)

/-- The table has values for the alphabet and for padding among the first 128 characters. -/
theorem b64unbase_le_ascii {character : Char} (ascii : character.toNat < 128) :
    b64unbase character ≤ 64 ↔ character ∈ b64base ∨ character = '=' := by
  have every : ∀ code < 128, b64unbase (Char.ofNat code) ≤ 64 →
      b64base[b64unbase (Char.ofNat code)]? = some (Char.ofNat code) ∨
        Char.ofNat code = '=' := by decide
  have known := every character.toNat ascii
  rw [Char.ofNat_toNat] at known
  have values : b64base.all (fun other => b64unbase other ≤ 64) = true := by decide
  rw [List.all_eq_true] at values
  constructor
  · exact fun small => (known small).imp_left List.mem_of_getElem?
  · rintro (member | rfl)
    · exact of_decide_eq_true (values character member)
    · decide

/-- The table has no value behind the first 128 characters. -/
theorem b64unbase_behind {character : Char} (behind : ¬character.toNat < 128) :
    b64unbase character = 255 := by
  simp only [b64unbase]
  rw [if_neg (by omega), if_neg (by omega), if_neg (by omega), if_neg (by omega),
    if_neg (by omega), if_neg (by omega)]

theorem b64base_ascii {character : Char} (behind : ¬character.toNat < 128) :
    ¬(character ∈ b64base ∨ character = '=') := by
  have small : ∀ other ∈ '=' :: b64base, other.toNat < 128 := by
    have all : ('=' :: b64base).all (fun other => other.toNat < 128) = true := by decide
    simpa only [List.all_eq_true, decide_eq_true_eq] using all
  rintro (member | rfl)
  · exact behind (small character (List.mem_cons_of_mem _ member))
  · exact behind (small '=' List.mem_cons_self)

/-- The table has values for the alphabet and for padding. -/
theorem b64unbase_le (character : Char) :
    b64unbase character ≤ 64 ↔ character ∈ b64base ∨ character = '=' := by
  by_cases ascii : character.toNat < 128
  · exact b64unbase_le_ascii ascii
  · have unknown := b64unbase_behind ascii
    exact iff_of_false (by omega) (b64base_ascii ascii)

/-- The decoder goes on behind a character unless the character has no place in a text. -/
theorem b64decode_ok_iff (character : Char) (input : List Char) :
    (∃ read, b64decode character input = .ok read) ↔
      isWhitespace character = true ∨ b64unbase character ≤ 64 := by
  unfold b64decode
  by_cases known : 64 < b64unbase character
  · rw [if_pos known]
    by_cases white : character ∈ [' ', '\t', '\n', '\x0b', '\x0c', '\r']
    · rw [if_pos white]
      exact iff_of_true ⟨_, rfl⟩ (Or.inl (decide_eq_true white))
    · rw [if_neg white]
      refine iff_of_false (fun ⟨_, read⟩ => by cases read) ?_
      rintro (space | small)
      · exact white (of_decide_eq_true space)
      · omega
  · rw [if_neg known]
    exact iff_of_true ⟨_, rfl⟩ (Or.inr (by omega))

/-- A text is read to its end if all its characters have a place in it. -/
theorem decodeFrom_ok_iff (input text : List Char) :
    (∃ data, decodeFrom input text = .ok data) ↔
      ∀ character ∈ text, isWhitespace character = true ∨ b64unbase character ≤ 64 := by
  induction text generalizing input with
  | nil => exact iff_of_true ⟨[], rfl⟩ (by simp)
  | cons character rest ih =>
      rw [decodeFrom_cons, List.forall_mem_cons, ← b64decode_ok_iff character input]
      cases b64decode character input with
      | error rejection =>
          exact iff_of_false (fun ⟨_, read⟩ => by cases read) fun both => by
            obtain ⟨_, read⟩ := both.1
            cases read
      | ok read =>
          rw [← ih read.1, iff_true_intro (show ∃ other, Except.ok read = Except.ok other from
            ⟨read, rfl⟩), true_and]
          change (∃ data, ((decodeFrom read.1 rest).bind fun bytes => .ok (read.2 ++ bytes)) =
            .ok data) ↔ _
          cases decodeFrom read.1 rest with
          | error rejection =>
              exact iff_of_false (fun ⟨_, read⟩ => by cases read) fun ⟨_, read⟩ => by cases read
          | ok bytes => exact iff_of_true ⟨_, rfl⟩ ⟨_, rfl⟩

/-- What is not thrown away has only characters of the alphabet and padding. -/
theorem throws_iff (text : String) :
    (∃ rejection, decodeBase64 text = .error rejection) ↔
      ¬∀ character ∈ stripped text, character ∈ b64base ∨ character = '=' := by
  have read : (∀ character ∈ stripped text, character ∈ b64base ∨ character = '=') ↔
      ∃ data, decodeBase64 text = .ok data := by
    rw [decodeBase64, decodeFrom_ok_iff]
    simp only [stripped, List.mem_filter, Bool.not_eq_true', and_imp, ← b64unbase_le]
    exact forall_congr' fun character => forall_congr' fun _ => by
      cases isWhitespace character <;> simp
  rw [read]
  cases decodeBase64 text <;> simp

/-- Where all characters have a place, padding stands right just in complete groups. -/
theorem completeGroups_iff {text : List Char}
    (known : ∀ character ∈ text, character ∈ b64base ∨ character = '=') :
    CompleteGroups text ↔ text.length % 4 = 0 ∧
      ∀ before after, text = before ++ '=' :: after → after ∈ [[], ['=']] := by
  have noPadding : '=' ∉ b64base := by decide
  refine and_congr_right fun _ => ⟨?_, fun right => ?_⟩
  · rintro ⟨body, padding, rfl, alphabet, either⟩ before after same
    -- The padding begins behind the body, so what stands after it is a part of the padding.
    have behind : ∃ first, before = body ++ first := by
      rcases List.append_eq_append_iff.mp same with ⟨first, rfl, _⟩ | ⟨first, rfl, rest⟩
      · exact ⟨first, rfl⟩
      · cases first with
        | nil => exact ⟨[], by simp⟩
        | cons character first =>
            cases rest
            exact absurd (alphabet '=' (by simp)) noPadding
    obtain ⟨first, rfl⟩ := behind
    rw [List.append_assoc] at same
    have tail := List.append_cancel_left same
    simp only [List.mem_cons, List.not_mem_nil, or_false] at either ⊢
    rcases either with rfl | rfl | rfl
    · simp at tail
    · cases first with
      | nil =>
          cases tail
          exact Or.inl rfl
      | cons _ first => simp at tail
    · cases first with
      | nil =>
          cases tail
          exact Or.inr rfl
      | cons _ first =>
          cases first with
          | nil =>
              cases tail
              exact Or.inl rfl
          | cons _ first => simp at tail
  · by_cases padded : '=' ∈ text
    · obtain ⟨before, after, rfl, fresh⟩ := List.eq_append_cons_of_mem padded
      refine ⟨before, '=' :: after, rfl, fun character member => ?_, ?_⟩
      · rcases known character (List.mem_append_left _ member) with letter | rfl
        · exact letter
        · exact absurd member fresh
      · have last := right before after rfl
        simp only [List.mem_cons, List.not_mem_nil, or_false] at last ⊢
        rcases last with rfl | rfl
        · exact Or.inr (Or.inl rfl)
        · exact Or.inr (Or.inr rfl)
    · refine ⟨text, [], by simp, fun character member => ?_, by simp⟩
      rcases known character member with letter | rfl
      · exact letter
      · exact absurd member padded

theorem throwsOrComplete_iff (text : String) :
    ThrowsOrComplete text ↔ PaddedRight (stripped text) := by
  rw [ThrowsOrComplete, throws_iff, PaddedRight]
  by_cases known : ∀ character ∈ stripped text, character ∈ b64base ∨ character = '='
  · rw [completeGroups_iff known, forall_prop_of_true known, or_iff_right (not_not.mpr known)]
  · exact iff_of_true (Or.inl known) fun other => absurd other known

end Accepted

/-- Reading undoes writing, and a text is read only if it is one of complete groups exactly where its
padding stands right. -/
theorem base64Codec (data : List Byte) (text : String) :
    decodeBase64 (encodeBase64 data) = .ok data ∧
      (ThrowsOrComplete text ↔ PaddedRight (stripped text)) :=
  ⟨decodeBase64_encodeBase64 data, throwsOrComplete_iff text⟩

/-- Characters of a group that is not complete are dropped. -/
theorem base64Codec_dropped : decodeBase64 "QUJDRA" = decodeBase64 "QUJD" ∧
    ¬ThrowsOrComplete "QUJDRA" := by
  refine ⟨by decide, ?_⟩
  rw [throwsOrComplete_iff]
  intro right
  have known : (stripped "QUJDRA").all (fun character => character ∈ b64base) = true := by
    decide
  rw [List.all_eq_true] at known
  have groups := (right fun character member => .inl (by simpa using known character member)).1
  exact absurd groups (by decide)

end MachineEmulator.Json
