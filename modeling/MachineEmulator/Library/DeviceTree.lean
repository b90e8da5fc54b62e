/-
This file gives device trees, the tokens that they are flattened to, and a reader of version 17 of
the flattened format.
-/

import Mathlib.Tactic

namespace DeviceTree

abbrev Bytes := List (BitVec 8)

/-- A property has a name and a value of any bytes. -/
structure Property where
  name : Bytes
  value : Bytes
deriving DecidableEq

/-- A node has properties and then nodes of its own. -/
inductive Node where
  | mk (name : Bytes) (properties : List Property) (children : List Node)

inductive Token where
  | beginNode (name : Bytes)
  | endNode
  | prop (property : Property)
  | nop
  | finish
deriving DecidableEq

section Tokens

mutual

def Node.tokens : Node → List Token
  | .mk name properties children =>
      .beginNode name :: (properties.map .prop ++ (nodeTokens children ++ [.endNode]))

def nodeTokens : List Node → List Token
  | [] => []
  | node :: rest => node.tokens ++ nodeTokens rest

end

/-- A node whose end has not come yet. -/
structure Frame where
  name : Bytes
  properties : List Property
  children : List Node

def Frame.close (frame : Frame) : Node := .mk frame.name frame.properties frame.children

def Frame.addProperty (frame : Frame) (property : Property) : Frame :=
  { frame with properties := frame.properties ++ [property] }

def Frame.addChildren (frame : Frame) (nodes : List Node) : Frame :=
  { frame with children := frame.children ++ nodes }

/-- The tree of a list of tokens; properties stand before the nodes within theirs, and only one root
stands before the end. -/
def readTree : List Token → List Frame → Option Node
  | .nop :: rest, stack => readTree rest stack
  | .beginNode name :: rest, stack => readTree rest (⟨name, [], []⟩ :: stack)
  | .prop property :: rest, frame :: stack =>
      if frame.children.isEmpty then readTree rest (frame.addProperty property :: stack) else none
  | .endNode :: rest, frame :: outer :: stack =>
      readTree rest (outer.addChildren [frame.close] :: stack)
  | .endNode :: rest, [frame] =>
      if rest.filter (· ≠ .nop) = [.finish] then some frame.close else none
  | _, _ => none

theorem readTree_properties (properties : List Property) (name : Bytes) (before : List Property)
    (rest : List Token) (stack : List Frame) :
    readTree (properties.map .prop ++ rest) (⟨name, before, []⟩ :: stack) =
      readTree rest (⟨name, before ++ properties, []⟩ :: stack) := by
  induction properties generalizing before with
  | nil => simp
  | cons property properties ih =>
      have next := ih (before ++ [property])
      simpa [readTree, Frame.addProperty] using next

mutual

/-- The tokens of a node add it to the node around it. -/
theorem readTree_node : ∀ (node : Node) (rest : List Token) (frame : Frame) (stack : List Frame),
    readTree (node.tokens ++ rest) (frame :: stack) =
      readTree rest (frame.addChildren [node] :: stack)
  | .mk name properties children, rest, frame, stack => by
      rw [Node.tokens, List.cons_append, readTree, List.append_assoc, readTree_properties,
        List.append_assoc, readTree_nodes]
      simp [readTree, Frame.close, Frame.addChildren]

theorem readTree_nodes : ∀ (nodes : List Node) (rest : List Token) (frame : Frame)
    (stack : List Frame),
    readTree (nodeTokens nodes ++ rest) (frame :: stack) =
      readTree rest (frame.addChildren nodes :: stack)
  | [], rest, frame, stack => by simp [nodeTokens, Frame.addChildren]
  | node :: nodes, rest, frame, stack => by
      rw [nodeTokens, List.append_assoc, readTree_node, readTree_nodes]
      simp [Frame.addChildren]

end

/-- A tree is read back from its tokens. -/
theorem readTree_tokens (root : Node) : readTree (root.tokens ++ [.finish]) [] = some root := by
  obtain ⟨name, properties, children⟩ := root
  rw [Node.tokens, List.cons_append, readTree, List.append_assoc, readTree_properties,
    List.append_assoc, readTree_nodes]
  simp [readTree, Frame.close, Frame.addChildren]

end Tokens

section Blocks

/-- A number in big-endian order. -/
def number (bytes : Bytes) : Nat := bytes.foldl (fun value byte => 256 * value + byte.toNat) 0

/-- The part of some bytes at an offset. -/
def slice (bytes : Bytes) (offset size : Nat) : Bytes := (bytes.drop offset).take size

def readNumber (size : Nat) (bytes : Bytes) (offset : Nat) : Option Nat :=
  if offset + size ≤ bytes.length then some (number (slice bytes offset size)) else none

/-- The bytes up to a zero. -/
def readString (bytes : Bytes) : Option Bytes :=
  if 0 ∈ bytes then some (bytes.takeWhile (· ≠ 0)) else none

/-- A length rounded up to whole words. -/
def alignWord (length : Nat) : Nat := (length + 3) / 4 * 4

/-- The first token of a structure block and what follows it. -/
def readToken (strings bytes : Bytes) : Option (Token × Bytes) := do
  let token ← readNumber 4 bytes 0
  let rest := bytes.drop 4
  match token with
  | 1 => do
      let name ← readString rest
      if alignWord (name.length + 1) ≤ rest.length then
        return (.beginNode name, rest.drop (alignWord (name.length + 1)))
      else none
  | 2 => return (.endNode, rest)
  | 3 => do
      let length ← readNumber 4 rest 0
      let nameOffset ← readNumber 4 rest 4
      let name ← readString (strings.drop nameOffset)
      if 8 + alignWord length ≤ rest.length then
        return (.prop ⟨name, (rest.drop 8).take length⟩, rest.drop (8 + alignWord length))
      else none
  | 4 => return (.nop, rest)
  | 9 => return (.finish, rest)
  | _ => none

/-- The tokens of a structure block, the last of which is the end. -/
def readTokens (strings : Bytes) : Nat → Bytes → Option (List Token)
  | 0, _ => none
  | fuel + 1, bytes => do
      let (token, rest) ← readToken strings bytes
      if token = .finish then
        if rest = [] then return [.finish] else none
      else return token :: (← readTokens strings fuel rest)

structure Header where
  magic : Nat
  totalsize : Nat
  offDtStruct : Nat
  offDtStrings : Nat
  offMemRsvmap : Nat
  version : Nat
  lastCompVersion : Nat
  bootCpuidPhys : Nat
  sizeDtStrings : Nat
  sizeDtStruct : Nat
deriving DecidableEq

def readHeader (blob : Bytes) : Option Header := do
  return {
    magic := ← readNumber 4 blob 0
    totalsize := ← readNumber 4 blob 4
    offDtStruct := ← readNumber 4 blob 8
    offDtStrings := ← readNumber 4 blob 12
    offMemRsvmap := ← readNumber 4 blob 16
    version := ← readNumber 4 blob 20
    lastCompVersion := ← readNumber 4 blob 24
    bootCpuidPhys := ← readNumber 4 blob 28
    sizeDtStrings := ← readNumber 4 blob 32
    sizeDtStruct := ← readNumber 4 blob 36 }

/-- The blocks lie behind the header, inside the total size, aligned and apart from one another. -/
structure Header.LaidOut (header : Header) : Prop where
  structBehind : 40 ≤ header.offDtStruct
  structAligned : 4 ∣ header.offDtStruct
  structWords : 4 ∣ header.sizeDtStruct
  stringsBehind : header.offDtStruct + header.sizeDtStruct ≤ header.offDtStrings
  reservedBehind : header.offDtStrings + header.sizeDtStrings ≤ header.offMemRsvmap
  reservedAligned : 8 ∣ header.offMemRsvmap
  inside : header.offMemRsvmap + 16 ≤ header.totalsize

/-- The reserved regions up to the entry of zeros. -/
def readReservations : Nat → Bytes → Option (List (Nat × Nat))
  | 0, _ => none
  | fuel + 1, bytes => do
      let address ← readNumber 8 bytes 0
      let size ← readNumber 8 bytes 8
      if address = 0 ∧ size = 0 then return []
      else return (address, size) :: (← readReservations fuel (bytes.drop 16))

/-- A reader of version 17 answers the reserved regions and the tree. -/
def readBlob (blob : Bytes) : Option (List (Nat × Nat) × Node) := do
  let header ← readHeader blob
  if header.magic = 0xd00dfeed ∧ header.version = 17 ∧ header.lastCompVersion ≤ 17 ∧
      header.totalsize ≤ blob.length ∧
      header.offDtStruct + header.sizeDtStruct ≤ header.totalsize ∧
      header.offDtStrings + header.sizeDtStrings ≤ header.totalsize ∧
      header.offMemRsvmap ≤ header.totalsize then do
    let tree := blob.take header.totalsize
    let reservations ← readReservations tree.length (tree.drop header.offMemRsvmap)
    let block := slice tree header.offDtStruct header.sizeDtStruct
    let strings := slice tree header.offDtStrings header.sizeDtStrings
    let tokens ← readTokens strings block.length block
    return (reservations, ← readTree tokens [])
  else none

end Blocks

section Numbers

/-- A word lies in big-endian order. -/
def wordBytes (value : BitVec 32) : Bytes :=
  [value.extractLsb' 24 8, value.extractLsb' 16 8, value.extractLsb' 8 8, value.extractLsb' 0 8]

def doubleWordBytes (value : BitVec 64) : Bytes :=
  [value.extractLsb' 56 8, value.extractLsb' 48 8, value.extractLsb' 40 8, value.extractLsb' 32 8,
    value.extractLsb' 24 8, value.extractLsb' 16 8, value.extractLsb' 8 8, value.extractLsb' 0 8]

@[simp] theorem length_wordBytes (value : BitVec 32) : (wordBytes value).length = 4 := rfl

theorem doubleWordBytes_eq (value : BitVec 64) :
    doubleWordBytes value =
      wordBytes ((value >>> 32).setWidth 32) ++ wordBytes (value.setWidth 32) := by
  simp only [doubleWordBytes, wordBytes, List.cons_append, List.nil_append, List.cons.injEq,
    and_true]
  refine ⟨?_, ?_, ?_, ?_, ?_, ?_, ?_, ?_⟩ <;>
  · ext position inside
    simp [BitVec.getElem_extractLsb', BitVec.getLsbD_setWidth, BitVec.getLsbD_ushiftRight]
    first | omega | grind

theorem number_wordBytes (value : BitVec 32) : number (wordBytes value) = value.toNat := by
  have bound := value.isLt
  simp only [number, wordBytes, List.foldl_cons, List.foldl_nil, BitVec.extractLsb'_toNat,
    Nat.shiftRight_eq_div_pow]
  omega

theorem readNumber_word (value : BitVec 32) (rest : Bytes) :
    readNumber 4 (wordBytes value ++ rest) 0 = some value.toNat := by
  have enough : 0 + 4 ≤ (wordBytes value ++ rest).length := by simp
  have first : (wordBytes value ++ rest).take 4 = wordBytes value := rfl
  rw [readNumber, if_pos enough, slice, List.drop_zero, first, number_wordBytes]

/-- What lies behind a word is read as it is without the word. -/
theorem readNumber_skip (size : Nat) (value : BitVec 32) (rest : Bytes) {offset : Nat}
    (behind : 4 ≤ offset) :
    readNumber size (wordBytes value ++ rest) offset = readNumber size rest (offset - 4) := by
  obtain ⟨offset, rfl⟩ := Nat.exists_eq_add_of_le behind
  have tail : (wordBytes value ++ rest).drop (4 + offset) = rest.drop offset := by
    rw [← List.drop_drop]
    rfl
  have bound : 4 + offset + size ≤ (wordBytes value ++ rest).length ↔
      offset + size ≤ rest.length := by
    simp only [List.length_append, length_wordBytes]
    omega
  rw [readNumber, readNumber, slice, slice, tail, Nat.add_sub_cancel_left]
  simp only [bound]

end Numbers

section Encodings

/-- A string ends with a zero. -/
def cString (name : Bytes) : Bytes := name ++ [0]

@[simp] theorem length_cString (name : Bytes) : (cString name).length = name.length + 1 := by
  simp [cString]

/-- Data is padded with zeros to whole words. -/
def padWord (data : Bytes) : Bytes := data ++ List.replicate (alignWord data.length - data.length) 0

@[simp] theorem length_padWord (data : Bytes) :
    (padWord data).length = alignWord data.length := by
  simp only [padWord, List.length_append, List.length_replicate, alignWord]
  omega

theorem dvd_alignWord (length : Nat) : 4 ∣ alignWord length := Nat.dvd_mul_left 4 _

theorem readString_append {bytes name : Bytes} (found : readString bytes = some name)
    (more : Bytes) : readString (bytes ++ more) = some name := by
  unfold readString at found ⊢
  split at found
  · rename_i ends
    have stops : bytes.takeWhile (· ≠ 0) ≠ bytes := by
      intro whole
      have misses := List.all_takeWhile (p := (· ≠ 0)) (l := bytes)
      rw [whole, List.all_eq_true] at misses
      simpa using misses 0 ends
    have longer : 0 ∈ bytes ++ more := List.mem_append_left _ ends
    rw [if_pos longer, ← found, List.takeWhile_append, if_neg]
    intro whole
    exact stops ((List.takeWhile_prefix _).eq_of_length whole)
  · simp at found

theorem readString_cString {name : Bytes} (clean : 0 ∉ name) :
    readString (cString name) = some name := by
  have ends : 0 ∈ cString name := by simp [cString]
  rw [readString, if_pos ends, cString, List.takeWhile_append_of_pos]
  · simp
  · intro byte member
    simpa using fun zero : byte = 0 => clean (zero ▸ member)

theorem readToken_beginNode {strings name : Bytes} (clean : 0 ∉ name) (rest : Bytes) :
    readToken strings (wordBytes 1 ++ padWord (cString name) ++ rest) =
      some (.beginNode name, rest) := by
  have text : readString (padWord (cString name) ++ rest) = some name := by
    rw [padWord, List.append_assoc]
    exact readString_append (readString_cString clean) _
  have size : (padWord (cString name)).length = alignWord (name.length + 1) := by simp
  have behind : (padWord (cString name) ++ rest).drop (alignWord (name.length + 1)) = rest := by
    rw [← size, List.drop_left]
  have tail : (wordBytes 1 ++ (padWord (cString name) ++ rest)).drop 4 =
      padWord (cString name) ++ rest := rfl
  rw [List.append_assoc, readToken, readNumber_word]
  simp only [tail, Option.bind_eq_bind, Option.bind_some]
  simp [text, behind]

theorem readToken_endNode (strings rest : Bytes) :
    readToken strings (wordBytes 2 ++ rest) = some (.endNode, rest) := by
  rw [readToken, readNumber_word]
  rfl

theorem readToken_finish (strings rest : Bytes) :
    readToken strings (wordBytes 9 ++ rest) = some (.finish, rest) := by
  rw [readToken, readNumber_word]
  rfl

theorem readToken_prop {strings name value : Bytes} {length offset : BitVec 32}
    (sized : length.toNat = value.length)
    (named : readString (strings.drop offset.toNat) = some name) (rest : Bytes) :
    readToken strings
        (wordBytes 3 ++ (wordBytes length ++ (wordBytes offset ++ padWord value)) ++ rest) =
      some (.prop ⟨name, value⟩, rest) := by
  let fields := wordBytes length ++ (wordBytes offset ++ (padWord value ++ rest))
  have split : wordBytes 3 ++ (wordBytes length ++ (wordBytes offset ++ padWord value)) ++
      rest = wordBytes 3 ++ fields := by simp [fields]
  have tail : (wordBytes 3 ++ fields).drop 4 = fields := rfl
  have lengthRead : readNumber 4 fields 0 = some value.length := by
    rw [← sized]
    exact readNumber_word length _
  have offsetRead : readNumber 4 fields 4 = some offset.toNat := by
    rw [readNumber_skip _ _ _ (le_refl 4)]
    exact readNumber_word offset _
  have padded : fields.drop 8 = padWord value ++ rest := rfl
  have taken : (fields.drop 8).take value.length = value := by
    rw [padded, padWord, List.append_assoc, List.take_left]
  have behind : fields.drop (8 + alignWord value.length) = rest := by
    rw [← List.drop_drop, padded, ← length_padWord, List.drop_left]
  have inside : 8 + alignWord value.length ≤ fields.length := by
    simp only [fields, List.length_append, length_wordBytes, length_padWord]
    omega
  rw [split, readToken, readNumber_word]
  simp only [tail, Option.bind_eq_bind, Option.bind_some]
  simp [lengthRead, offsetRead, named, taken, behind, inside]

/-- The bytes are blocks that are read as the tokens. -/
inductive Reads (strings : Bytes) : Bytes → List Token → Prop where
  | nil : Reads strings [] []
  | cons {block bytes : Bytes} {token : Token} {tokens : List Token}
      (filled : block ≠ []) (inner : token ≠ .finish)
      (reads : ∀ rest, readToken strings (block ++ rest) = some (token, rest))
      (next : Reads strings bytes tokens) : Reads strings (block ++ bytes) (token :: tokens)

theorem Reads.append {strings bytes more : Bytes} {tokens others : List Token}
    (first : Reads strings bytes tokens) (second : Reads strings more others) :
    Reads strings (bytes ++ more) (tokens ++ others) := by
  induction first with
  | nil => exact second
  | cons filled inner reads next ih =>
      rw [List.append_assoc, List.cons_append]
      exact .cons filled inner reads ih

theorem Reads.length_le {strings bytes : Bytes} {tokens : List Token}
    (reads : Reads strings bytes tokens) : tokens.length ≤ bytes.length := by
  induction reads with
  | nil => simp
  | cons filled inner reads next ih =>
      have positive := List.length_pos_of_ne_nil filled
      simp only [List.length_cons, List.length_append]
      omega

/-- The blocks before the end token give the tokens before the end. -/
theorem Reads.readTokens {strings bytes : Bytes} {tokens : List Token}
    (reads : Reads strings bytes tokens) {fuel : Nat} (enough : tokens.length < fuel) :
    readTokens strings fuel (bytes ++ wordBytes 9) = some (tokens ++ [.finish]) := by
  induction reads generalizing fuel with
  | nil =>
      obtain ⟨fuel, rfl⟩ := Nat.exists_eq_add_of_lt enough
      have last := readToken_finish strings []
      rw [List.append_nil] at last
      rw [List.nil_append, DeviceTree.readTokens, last]
      rfl
  | cons filled inner reads next ih =>
      cases fuel with
      | zero => simp at enough
      | succ fuel =>
          have following := ih (Nat.lt_of_succ_lt_succ enough)
          rw [List.append_assoc, DeviceTree.readTokens, reads]
          simp only [Option.bind_eq_bind, Option.bind_some, if_neg inner, following]
          rfl

end Encodings

section Blob

/-- The words of a header are read as its fields. -/
theorem readHeader_words (magic totalsize offDtStruct offDtStrings offMemRsvmap version
    lastCompVersion bootCpuidPhys sizeDtStrings sizeDtStruct : BitVec 32) (rest : Bytes) :
    readHeader ([magic, totalsize, offDtStruct, offDtStrings, offMemRsvmap, version,
      lastCompVersion, bootCpuidPhys, sizeDtStrings, sizeDtStruct].flatMap wordBytes ++ rest) =
      some {
        magic := magic.toNat
        totalsize := totalsize.toNat
        offDtStruct := offDtStruct.toNat
        offDtStrings := offDtStrings.toNat
        offMemRsvmap := offMemRsvmap.toNat
        version := version.toNat
        lastCompVersion := lastCompVersion.toNat
        bootCpuidPhys := bootCpuidPhys.toNat
        sizeDtStrings := sizeDtStrings.toNat
        sizeDtStruct := sizeDtStruct.toNat } := by
  simp only [List.flatMap_cons, List.append_assoc, readHeader]
  simp [readNumber_skip, readNumber_word]

theorem slice_take {bytes : Bytes} {offset size length : Nat} (inside : offset + size ≤ length) :
    slice (bytes.take length) offset size = slice bytes offset size := by
  have enough : size ≤ length - offset := by omega
  rw [slice, slice, List.drop_take, List.take_take, min_eq_left enough]

/-- An entry of zeros ends the reserved regions. -/
theorem readReservations_zeros {bytes : Bytes} (zeros : bytes.take 16 = List.replicate 16 0)
    {fuel : Nat} (enough : 0 < fuel) : readReservations fuel bytes = some [] := by
  obtain ⟨rest, rfl⟩ : ∃ rest, bytes = List.replicate 16 0 ++ rest :=
    ⟨bytes.drop 16, by rw [← zeros, List.take_append_drop]⟩
  obtain ⟨fuel, rfl⟩ := Nat.exists_eq_add_of_lt enough
  simp [readReservations, readNumber, slice, number, List.replicate]

/-- The blocks of a blob are read as the tree whose tokens they hold. -/
theorem readBlob_of_blocks {blob strings bytes : Bytes} {header : Header} {root : Node}
    (found : readHeader blob = some header) (magic : header.magic = 0xd00dfeed)
    (version : header.version = 17) (compatible : header.lastCompVersion ≤ 17)
    (inside : header.totalsize ≤ blob.length) (laidOut : header.LaidOut)
    (reserved : slice blob header.offMemRsvmap 16 = List.replicate 16 0)
    (struct : slice blob header.offDtStruct header.sizeDtStruct = bytes ++ wordBytes 9)
    (text : slice blob header.offDtStrings header.sizeDtStrings = strings)
    (reads : Reads strings bytes root.tokens) : readBlob blob = some ([], root) := by
  have reservedInside := laidOut.inside
  have stringsInside := laidOut.reservedBehind
  have structInside := laidOut.stringsBehind
  have size : (blob.take header.totalsize).length = header.totalsize := by
    rw [List.length_take, min_eq_left inside]
  have entries : readReservations (blob.take header.totalsize).length
      ((blob.take header.totalsize).drop header.offMemRsvmap) = some [] := by
    apply readReservations_zeros
    · have entry : slice (blob.take header.totalsize) header.offMemRsvmap 16 =
          slice blob header.offMemRsvmap 16 := slice_take reservedInside
      rw [reserved] at entry
      exact entry
    · omega
  have tokens : readTokens strings (bytes ++ wordBytes 9).length (bytes ++ wordBytes 9) =
      some (root.tokens ++ [.finish]) := by
    apply reads.readTokens
    have fewer := reads.length_le
    simp only [List.length_append, length_wordBytes]
    omega
  have bounds : header.magic = 0xd00dfeed ∧ header.version = 17 ∧ header.lastCompVersion ≤ 17 ∧
      header.totalsize ≤ blob.length ∧
      header.offDtStruct + header.sizeDtStruct ≤ header.totalsize ∧
      header.offDtStrings + header.sizeDtStrings ≤ header.totalsize ∧
      header.offMemRsvmap ≤ header.totalsize :=
    ⟨magic, version, compatible, inside, by omega, by omega, by omega⟩
  rw [readBlob, found]
  simp only [Option.bind_eq_bind, Option.bind_some, if_pos bounds, entries]
  rw [slice_take (by omega), slice_take (by omega), struct, text, tokens]
  simp [readTree_tokens]

end Blob

section Sizes

mutual

/-- The names of a node, its properties and the nodes below it. -/
def Node.names : Node → List Bytes
  | .mk name properties children => name :: (properties.map Property.name ++ nodeNames children)

def nodeNames : List Node → List Bytes
  | [] => []
  | node :: rest => node.names ++ nodeNames rest

end

mutual

def Node.propertyNames : Node → List Bytes
  | .mk _ properties children => properties.map Property.name ++ nodePropertyNames children

def nodePropertyNames : List Node → List Bytes
  | [] => []
  | node :: rest => node.propertyNames ++ nodePropertyNames rest

end

def Property.structSize (property : Property) : Nat := 12 + alignWord property.value.length

mutual

/-- The bytes of a node in the structure block. -/
def Node.structSize : Node → Nat
  | .mk name properties children =>
      4 + alignWord (name.length + 1) + (properties.map Property.structSize).sum +
        nodesStructSize children + 4

def nodesStructSize : List Node → Nat
  | [] => 0
  | node :: rest => node.structSize + nodesStructSize rest

end

/-- The bytes of some names, each of which ends with a zero. -/
def stringsSize (names : Finset Bytes) : Nat := ∑ name ∈ names, (name.length + 1)

end Sizes

end DeviceTree
