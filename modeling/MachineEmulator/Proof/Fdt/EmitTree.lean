/-
This file shows that the calls of a tree put blocks that are read as its tokens.
-/

import MachineEmulator.Proof.Fdt.Strings

namespace MachineEmulator.Fdt

open DeviceTree

section Trees

/-- The value that a call puts. -/
def PropCall.value : PropCall → Bytes
  | .prop data => data
  | .propEmpty => []
  | .propString value => cString value
  | .propStringData value => value
  | .propU32List values => values.flatMap wordBytes
  | .propU64List values => values.flatMap doubleWordBytes
  | .propU32 value => wordBytes value
  | .propU64 value => doubleWordBytes value

def NodeCall.name : NodeCall → Bytes
  | .beginNode name => name
  | .beginNodeNum name number => FDTBuilder.numberedName name number

mutual

/-- The tree that the calls emit. -/
def Calls.tree : Calls → Node
  | .node first properties children =>
      .mk first.name (properties.map fun property => ⟨property.1, property.2.value⟩)
        (callsTrees children)

def callsTrees : List Calls → List Node
  | [] => []
  | calls :: rest => calls.tree :: callsTrees rest

end

end Trees

namespace FDTBuilder

/-- Each open node and each end of a node has its word in the structure block. -/
structure Sound (before : Nat) (fdt : FDTBuilder) : Prop where
  kept : fdt.StringsKept before
  words : 4 ∣ fdt.dtStruct.length
  counted : 4 * |fdt.openNodeCount| ≤ fdt.dtStruct.length

/-- More names and more bytes still fit in 32 bits. -/
structure Fits (before : Nat) (fdt : FDTBuilder) (names : List Bytes) (size : Nat) : Prop where
  strings : before + stringsSize (fdt.keys ∪ names.toFinset) < 2 ^ 32
  struct : fdt.dtStruct.length + size < 2 ^ 32

/-- What a builder has more than another. -/
structure Grows (before : Nat) (fdt after : FDTBuilder) (change : Int) (names : List Bytes)
    (size : Nat) (tokens : List Token) : Prop where
  sound : after.Sound before
  counted : after.openNodeCount = fdt.openNodeCount + change
  named : after.keys = fdt.keys ∪ names.toFinset
  strings : fdt.dtStrings <+: after.dtStrings
  struct : ∃ block, after.dtStruct = fdt.dtStruct ++ block ∧ block.length = size ∧
    ∀ strings, after.dtStrings <+: strings → Reads strings block tokens

/-- A call adds names and a block of tokens to any builder that has the room. -/
def Emits (before : Nat) (run : FDTBuilder → Except FdtError FDTBuilder) (change : Int)
    (names : List Bytes) (size : Nat) (tokens : List Token) : Prop :=
  ∀ fdt : FDTBuilder, fdt.Sound before → fdt.Fits before names size →
    ∃ after, run fdt = .ok after ∧ fdt.Grows before after change names size tokens

variable {before : Nat}

section Sequences

variable {run next : FDTBuilder → Except FdtError FDTBuilder} {change other : Int}
  {names others : List Bytes} {size more : Nat} {tokens rest : List Token} {fdt after : FDTBuilder}

theorem Fits.first (fits : fdt.Fits before (names ++ others) (size + more)) :
    fdt.Fits before names size := by
  have strings := fits.strings
  have struct := fits.struct
  have fewer : stringsSize (fdt.keys ∪ names.toFinset) ≤
      stringsSize (fdt.keys ∪ (names ++ others).toFinset) := by
    apply stringsSize_mono
    rw [List.toFinset_append, ← Finset.union_assoc]
    exact Finset.subset_union_left
  exact ⟨by omega, by omega⟩

theorem Grows.fits (grows : fdt.Grows before after change names size tokens)
    (fits : fdt.Fits before (names ++ others) (size + more)) : after.Fits before others more := by
  obtain ⟨block, struct, length, _⟩ := grows.struct
  have room := fits.struct
  constructor
  · rw [grows.named, Finset.union_assoc, ← List.toFinset_append]
    exact fits.strings
  · rw [struct, List.length_append]
    omega

theorem Grows.refl (sound : fdt.Sound before) : fdt.Grows before fdt 0 [] 0 [] where
  sound := sound
  counted := by simp
  named := by simp
  strings := List.prefix_refl _
  struct := ⟨[], by simp, rfl, fun _ _ => .nil⟩

theorem Emits.bind (first : Emits before run change names size tokens)
    (second : Emits before next other others more rest) :
    Emits before (fun fdt => run fdt >>= next) (change + other) (names ++ others) (size + more)
      (tokens ++ rest) := by
  intro fdt sound fits
  obtain ⟨middle, ran, grows⟩ := first fdt sound fits.first
  obtain ⟨after, followed, growsMore⟩ := second middle grows.sound (grows.fits fits)
  obtain ⟨block, struct, length, reads⟩ := grows.struct
  obtain ⟨behind, structMore, lengthMore, readsMore⟩ := growsMore.struct
  refine ⟨after, bind_ok.mpr ⟨middle, ran, followed⟩, ?_⟩
  exact {
    sound := growsMore.sound
    counted := by rw [growsMore.counted, grows.counted, add_assoc]
    named := by
      rw [growsMore.named, grows.named, Finset.union_assoc, List.toFinset_append]
    strings := grows.strings.trans growsMore.strings
    struct := ⟨block ++ behind, by rw [structMore, struct, List.append_assoc],
      by rw [List.length_append, length, lengthMore],
      fun strings extended => (reads strings (growsMore.strings.trans extended)).append
        (readsMore strings extended)⟩ }

end Sequences

section Calls

variable {fdt : FDTBuilder}

/-- A block and a count of nodes that has not more than the block has words. -/
theorem Sound.grows (sound : fdt.Sound before) {block : Bytes} {change : Int}
    {tokens : List Token} (words : 4 ∣ block.length) (counted : 4 * |change| ≤ block.length)
    (reads : ∀ strings, Reads strings block tokens) :
    fdt.Grows before { fdt.put block with openNodeCount := fdt.openNodeCount + change } change []
      block.length tokens where
  sound := by
    have already := sound.counted
    have triangle := abs_add_le fdt.openNodeCount change
    refine ⟨⟨sound.kept.filled, sound.kept.found⟩, ?_, ?_⟩
    · simpa using (Nat.dvd_add_iff_right sound.words).mp words
    · simp only [put, List.length_append, Nat.cast_add]
      omega
  counted := rfl
  named := by simp [keys, put]
  strings := List.prefix_refl _
  struct := ⟨block, rfl, rfl, fun strings _ => reads strings⟩

theorem reads_single {strings block : Bytes} {token : Token} (filled : block ≠ [])
    (inner : token ≠ .finish)
    (reads : ∀ rest, readToken strings (block ++ rest) = some (token, rest)) :
    Reads strings block [token] := by
  have single := Reads.cons filled inner reads .nil
  rwa [List.append_nil] at single

theorem Sound.countNodes (sound : fdt.Sound before) {block : Bytes} {change : Int}
    (counted : 4 * |change| ≤ block.length) (small : fdt.dtStruct.length + block.length < 2 ^ 32) :
    (fdt.put block).countNodes change =
      .ok { fdt.put block with openNodeCount := fdt.openNodeCount + change } := by
  have already := sound.counted
  have triangle := abs_le.mp (abs_add_le fdt.openNodeCount change)
  have same : (fdt.put block).openNodeCount = fdt.openNodeCount := rfl
  rw [FDTBuilder.countNodes, if_pos]
  · rfl
  · rw [same]
    constructor <;> omega

theorem emits_endNode : Emits before endNode (-1) [] 4 [.endNode] := by
  intro fdt sound fits
  have counted : 4 * |(-1 : Int)| ≤ (wordBytes fdtEndNode).length := by simp
  have ran := sound.countNodes counted fits.struct
  refine ⟨_, ?_, sound.grows (dvd_refl 4) counted ?_⟩
  · rw [endNode, putU32_eq, ran]
  · intro strings
    exact reads_single (by simp [wordBytes]) (by simp) (readToken_endNode strings)

theorem emits_beginNode {name : Bytes} (clean : 0 ∉ name) :
    Emits before (fun fdt => fdt.beginNode name) 1 [] (4 + alignWord (name.length + 1))
      [.beginNode name] := by
  intro fdt sound fits
  let block := wordBytes fdtBeginNode ++ padWord (cString name)
  have length : block.length = 4 + alignWord (name.length + 1) := by simp [block]
  have room := fits.struct
  have words := dvd_alignWord (name.length + 1)
  have counted : 4 * |(1 : Int)| ≤ block.length := by
    rw [length, abs_one]
    omega
  have named : (fdt.putU32 fdtBeginNode).putString name = .ok (fdt.put block) := by
    have aligned := sound.words
    rw [putU32_eq, putString_eq, put_put] <;>
    · simp only [dtStruct_put, List.length_append, length_wordBytes]
      omega
  have ran : fdt.beginNode name = _ :=
    bind_ok.mpr ⟨_, named, sound.countNodes counted (by omega)⟩
  refine ⟨_, ran, ?_⟩
  rw [← length]
  apply sound.grows (by omega) counted
  intro strings
  exact reads_single (by simp [block, wordBytes]) (by simp) (readToken_beginNode clean)

theorem getStringOffset_put (name block : Bytes) :
    (fdt.put block).getStringOffset name =
      ((fdt.getStringOffset name).1, (fdt.getStringOffset name).2.put block) := by
  cases found : fdt.dtStringsMap.lookup name <;> simp [getStringOffset, put, found]

theorem putProp_eq (name : Bytes) (dataLen : BitVec 32) :
    fdt.putProp name dataLen = (fdt.getStringOffset name).2.put
      (wordBytes 3 ++ (wordBytes dataLen ++ wordBytes (fdt.getStringOffset name).1)) := by
  simp only [putProp, putU32_eq, put_put, getStringOffset_put]
  simp [fdtProp]

/-- Each call of a property puts its value behind the length and the name. -/
theorem propCall_eq {name : Bytes} {call : PropCall} (words : 4 ∣ fdt.dtStruct.length)
    (small : fdt.dtStruct.length + (12 + alignWord call.value.length) < 2 ^ 32) :
    call.run name fdt = .ok ((fdt.putProp name (BitVec.ofNat 32 call.value.length)).put
      (padWord call.value)) := by
  have bounded : (BitVec.ofNat 32 call.value.length).toNat = call.value.length := by
    unfold alignWord at small
    rw [BitVec.toNat_ofNat, Nat.mod_eq_of_lt (by omega)]
  have struct : (fdt.putProp name (BitVec.ofNat 32 call.value.length)).dtStruct.length =
      fdt.dtStruct.length + 12 := by
    simp [putProp_eq, getStringOffset_dtStruct]
  have data (rest : Bytes) :
      fdt.prop name (call.value ++ rest) (BitVec.ofNat 32 call.value.length) =
      .ok ((fdt.putProp name (BitVec.ofNat 32 call.value.length)).put (padWord call.value)) := by
    rw [prop, putData_eq, bounded, List.take_left]
    · omega
    · rw [bounded, List.length_append]
      omega
    · rw [struct, bounded]
      omega
  cases call with
  | prop value =>
      have whole := data []
      rw [List.append_nil] at whole
      exact whole
  | propEmpty =>
      simp [PropCall.run, PropCall.value, propEmpty, padWord, alignWord, put]
  | propString value => simpa [PropCall.run, PropCall.value, propString, cString] using data []
  | propStringData value => exact data [0]
  | propU32List values =>
      rw [PropCall.value, padWord_of_dvd, length_flatMap_wordBytes, ← foldl_putU32]
      · rfl
      · exact length_flatMap_wordBytes values ▸ Nat.dvd_mul_left 4 _
  | propU64List values =>
      rw [PropCall.value, padWord_of_dvd, length_flatMap_doubleWordBytes, ← foldl_putU64]
      · rfl
      · rw [length_flatMap_doubleWordBytes]
        omega
  | propU32 value =>
      rw [PropCall.value, padWord_of_dvd (by simp), ← putU32_eq]
      rfl
  | propU64 value =>
      have padded : padWord (doubleWordBytes value) = doubleWordBytes value :=
        padWord_of_dvd (Nat.dvd_mul_right 4 2)
      rw [PropCall.value, padded, doubleWordBytes_eq, ← put_put, ← putU32_eq, ← putU32_eq]
      rfl

theorem emits_prop {name : Bytes} (clean : 0 ∉ name) (call : PropCall) :
    Emits before (fun fdt => call.run name fdt) 0 [name]
      (Property.structSize ⟨name, call.value⟩) [.prop ⟨name, call.value⟩] := by
  intro fdt sound fits
  have room : fdt.dtStruct.length + (12 + alignWord call.value.length) < 2 ^ 32 := fits.struct
  have strings := fits.strings
  have counted := sound.counted
  have bounded : (BitVec.ofNat 32 call.value.length).toNat = call.value.length := by
    unfold alignWord at room
    rw [BitVec.toNat_ofNat, Nat.mod_eq_of_lt (by omega)]
  have union : fdt.keys ∪ [name].toFinset = insert name fdt.keys := by
    rw [List.toFinset_cons, List.toFinset_nil, Finset.union_comm]
    rfl
  obtain ⟨kept, keys, extended, found⟩ :=
    getStringOffset_found sound.kept clean (union ▸ strings)
  let block := wordBytes 3 ++ (wordBytes (BitVec.ofNat 32 call.value.length) ++
    (wordBytes (fdt.getStringOffset name).1 ++ padWord call.value))
  have length : block.length = 12 + alignWord call.value.length := by
    simp only [block, List.length_append, length_wordBytes, length_padWord]
    omega
  have ran : call.run name fdt = .ok ((fdt.getStringOffset name).2.put block) := by
    rw [propCall_eq sound.words room, putProp_eq, put_put]
    simp [block]
  have struct : ((fdt.getStringOffset name).2.put block).dtStruct = fdt.dtStruct ++ block := by
    rw [dtStruct_put, getStringOffset_dtStruct]
  have reads (strings : Bytes)
      (prefixed : (fdt.getStringOffset name).2.dtStrings <+: strings) :
      Reads strings block [.prop ⟨name, call.value⟩] := by
    apply reads_single (by simp [block, wordBytes]) (by simp)
    exact readToken_prop bounded (readString_drop found prefixed)
  refine ⟨_, ran, ?_⟩
  exact {
    sound := by
      have words := sound.words
      have aligned := dvd_alignWord call.value.length
      refine ⟨kept.put block, ?_, ?_⟩
      · rw [struct, List.length_append, length]
        omega
      · have same : ((fdt.getStringOffset name).2.put block).openNodeCount = fdt.openNodeCount :=
          getStringOffset_openNodeCount name
        rw [struct, same, List.length_append]
        omega
    counted := by
      rw [add_zero]
      exact getStringOffset_openNodeCount name
    named := by rw [keys_put, keys, union]
    strings := extended
    struct := ⟨block, struct, length, reads⟩ }

/-- Properties put one after the other. -/
theorem emits_properties (properties : List (Bytes × PropCall))
    (clean : ∀ property ∈ properties, 0 ∉ property.1) :
    Emits before
      (fun fdt => properties.foldlM (fun fdt property => property.2.run property.1 fdt) fdt) 0
      (properties.map Prod.fst)
      (properties.map fun property => Property.structSize ⟨property.1, property.2.value⟩).sum
      (properties.map fun property => .prop ⟨property.1, property.2.value⟩) := by
  induction properties with
  | nil =>
      intro fdt sound fits
      exact ⟨fdt, rfl, .refl sound⟩
  | cons property properties ih =>
      have first : Emits before _ 0 [property.1] _ _ :=
        emits_prop (clean property List.mem_cons_self) property.2
      have rest := ih fun other member => clean other (List.mem_cons_of_mem _ member)
      exact first.bind rest

end Calls

end FDTBuilder

section Nodes

open FDTBuilder

variable {before : Nat}

theorem emits_first {first : NodeCall} (clean : 0 ∉ first.name) :
    Emits before (fun fdt => first.run fdt) 1 [] (4 + alignWord (first.name.length + 1))
      [.beginNode first.name] := by
  cases first with
  | beginNode name => exact emits_beginNode clean
  | beginNodeNum name number => exact emits_beginNode clean

mutual

/-- The calls of a node put the tokens of its tree. -/
theorem emitNode_emits : ∀ (calls : Calls), (∀ name ∈ calls.tree.names, 0 ∉ name) →
    Emits before (fun fdt => emitNode fdt calls) 0 calls.tree.propertyNames calls.tree.structSize
      calls.tree.tokens
  | .node first properties children, clean => by
      simp only [Calls.tree, Node.names, List.map_map, List.mem_cons, List.mem_append,
        List.mem_map, forall_eq_or_imp] at clean
      obtain ⟨cleanFirst, cleanRest⟩ := clean
      have begun : Emits before _ 1 _ _ _ := emits_first cleanFirst
      have put : Emits before _ 0 _ _ _ :=
        emits_properties properties fun property member =>
          cleanRest property.1 (.inl ⟨property, member, rfl⟩)
      have inner : Emits before _ 0 _ _ _ :=
        emitNodes_emits children fun name member => cleanRest name (.inr member)
      have whole := begun.bind (put.bind (inner.bind emits_endNode))
      rw [List.nil_append, List.append_nil, List.singleton_append, add_assoc 4] at whole
      simp only [emitNode, Calls.tree, Node.propertyNames, Node.structSize, Node.tokens,
        List.map_map, add_assoc]
      exact whole

theorem emitNodes_emits : ∀ (calls : List Calls),
    (∀ name ∈ nodeNames (callsTrees calls), 0 ∉ name) →
    Emits before (fun fdt => emitNodes fdt calls) 0 (nodePropertyNames (callsTrees calls))
      (nodesStructSize (callsTrees calls)) (nodeTokens (callsTrees calls))
  | [], _ => by
      intro fdt sound _
      exact ⟨fdt, by simp only [emitNodes], .refl sound⟩
  | calls :: rest, clean => by
      simp only [callsTrees, nodeNames, List.mem_append] at clean
      have first : Emits before _ 0 _ _ _ :=
        emitNode_emits calls fun name member => clean name (.inl member)
      have others : Emits before _ 0 _ _ _ :=
        emitNodes_emits rest fun name member => clean name (.inr member)
      simp only [emitNodes, callsTrees, nodePropertyNames, nodesStructSize, nodeTokens]
      exact first.bind others

end

end Nodes

end MachineEmulator.Fdt
