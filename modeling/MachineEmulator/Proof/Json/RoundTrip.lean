/-
This file shows what comes back from the JSON form of access logs, hash tree proofs and back Merkle
trees.
-/

import MachineEmulator.Proof.Collect.BackMerkleTree
import MachineEmulator.Proof.Json.AccessLogRoundTrip

namespace MachineEmulator.Json

open Collect (BackMerkleTree)
open StepLog (HashFunctionType)

/-- A value is written, and from every field that holds what was written the reader gives the same
value back. -/
def RoundTrips {α : Type} (write : α → Except Rejection Value) (read : Reader α)
    (same : α → α → Prop) (value : α) : Prop :=
  ∃ json, write value = .ok json ∧ ∀ (holder : Value) (key : Key) (path : String),
    holder.field key path = .ok (some json) →
      ∃ back, getOptField read holder key path = .ok (some back) ∧ same back value

section Writers

variable {α : Type} {write : α → Except Rejection Value} {read : Reader α} {same : α → α → Prop}
  {value back : α} {json : Value}

theorem roundTrips_of_reads (written : write value = .ok json) (reads : Reads read json back)
    (equal : same back value) : RoundTrips write read same value :=
  ⟨json, written, fun _ _ _ found => ⟨back, getOptField_some found reads, equal⟩⟩

/-- What comes back is what the reader makes of the text. -/
theorem same_of_roundTrips (returns : RoundTrips write read same value)
    (written : write value = .ok json) (reads : Reads read json back) : same back value := by
  obtain ⟨other, wrote, gives⟩ := returns
  obtain rfl : other = json := Except.ok.inj (wrote.symm.trans written)
  obtain ⟨got, read', equal⟩ := gives (.array [other]) (.index 0) "" rfl
  rw [getOptField_some rfl reads] at read'
  obtain rfl : back = got := Option.some.inj (Except.ok.inj read')
  exact equal

end Writers

section Sizes

theorem castInt_ofInt {value : Int} (low : -2 ^ 31 ≤ value) (high : value < 2 ^ 31) :
    castInt (BitVec.ofInt 64 value) = value := by
  have narrow : (BitVec.ofInt 64 value).setWidth 32 = BitVec.ofInt 32 value := by
    apply BitVec.eq_of_toNat_eq
    simp only [BitVec.toNat_setWidth, BitVec.toNat_ofInt]
    omega
  rw [castInt, narrow]
  exact BitVec.toInt_ofInt_eq_self (by decide) (by omega) (by omega)

theorem fitsInt_castInt (value : Word) : FitsInt (castInt value) :=
  castInt_ofInt (BitVec.le_toInt _) BitVec.toInt_lt

end Sizes

section Recorded

variable (hasher : Hasher MachineHash)

/-- The logs that recording makes: annotations and the accesses that the two recorders log. The
proof of a larger block is only made for the sizes of tree nodes. -/
inductive Recorded : AccessLog → Prop
  | start (logType : LogType) : Recorded (.empty logType)
  | bracket {log : AccessLog} (before : Recorded log) (type : BracketType) (text : String) :
      Recorded (log.pushBracket type text)
  | uarchRead {log : AccessLog} (before : Recorded log) (memory : Memory) (paddr : Word)
      {log2Size : Nat} (node : log2Size < 64) (text : String) :
      Recorded (log.pushAccess (Uarch.logReadAccess hasher memory paddr log2Size) text)
  | uarchWrite {log : AccessLog} (before : Recorded log) (memory after : Memory) (paddr : Word)
      {log2Size : Nat} (node : log2Size < 64) (text : String) :
      Recorded (log.pushAccess (Uarch.logWriteAccess hasher log.logType.hasLargeData memory after
        paddr log2Size) text)
  | cmioRead {log : AccessLog} (before : Recorded log) {memory after : Memory} {paddr : Word}
      {access : Access MachineHash} (text : String)
      (logged : Cmio.logRead hasher paddr (memory, []) = .ok (after, [access])) :
      Recorded (log.pushAccess access text)
  | cmioWrite {log : AccessLog} (before : Recorded log) {memory after : Memory} {paddr value : Word}
      {access : Access MachineHash} (text : String)
      (logged : Cmio.logWrite hasher paddr value (memory, []) = .ok (after, [access])) :
      Recorded (log.pushAccess access text)
  | cmioWriteMemory {log : AccessLog} (before : Recorded log) {memory after : Memory} {paddr : Word}
      {data : List Byte} {writeLengthLog2Size : Nat} {access : Access MachineHash} (text : String)
      (node : hashTreeLog2WordSize ≤ writeLengthLog2Size ∧ writeLengthLog2Size < 64)
      (logged : Cmio.logWriteMemoryWithPadding hasher log.logType.hasLargeData paddr data
        writeLengthLog2Size (memory, []) = .ok (after, [access])) :
      Recorded (log.pushAccess access text)

/-- An access of a read carries no written data, and its siblings are those of its size. -/
structure Transmissible (access : Access MachineHash) : Prop where
  siblings : ∀ siblings ∈ access.siblingHashes, siblings.length = siblingDepth access.log2Size
  read : access.type = .read → access.written = none ∧ access.writtenHash = none

/-- What a recorder makes sure of in each access. -/
structure RecordedAccess (access : Access MachineHash) : Prop where
  siblings : access.siblingHashes.isSome
  size : FitsInt access.log2Size
  transmissible : Transmissible access

theorem AccessLog.Sound.pushBracket {log : AccessLog} (sound : log.Sound) (type : BracketType)
    (text : String) : (log.pushBracket type text).Sound := by
  rw [AccessLog.pushBracket]
  by_cases annotated : log.logType.hasAnnotations
  · rw [if_pos annotated]
    constructor
    · exact sound.siblings
    · exact sound.sizes
    · intro plain
      simp [annotated] at plain
    · exact sound.notes
    · intro bracket member
      rcases List.mem_append.mp member with member | member
      · exact sound.brackets bracket member
      · obtain rfl := List.mem_singleton.mp member
        exact Nat.mod_le _ _
    · simp [sound.outstanding]
  · rw [if_neg annotated]
    exact sound

theorem AccessLog.Sound.pushAccess {log : AccessLog} (sound : log.Sound)
    {access : Access MachineHash} (recorded : RecordedAccess access) (text : String) :
    (log.pushAccess access text).Sound := by
  constructor
  · intro other member
    rcases List.mem_append.mp member with member | member
    · exact sound.siblings other member
    · obtain rfl := List.mem_singleton.mp member
      exact recorded.siblings
  · intro other member
    rcases List.mem_append.mp member with member | member
    · exact sound.sizes other member
    · obtain rfl := List.mem_singleton.mp member
      exact recorded.size
  · intro plain
    have plain : log.logType.hasAnnotations = false := plain
    simpa [AccessLog.pushAccess, plain] using sound.plain plain
  · intro annotated
    have annotated : log.logType.hasAnnotations = true := annotated
    simpa [AccessLog.pushAccess, annotated] using sound.notes annotated
  · intro bracket member
    apply (sound.brackets bracket member).trans
    simp [AccessLog.pushAccess]
  · exact sound.outstanding

theorem depth_natCast (log2Size : Nat) :
    siblingDepth (log2Size : Int) = hashTreeLog2RootSize - max log2Size hashTreeLog2WordSize := by
  simp only [siblingDepth, hashTreeLog2RootSize, hashTreeLog2WordSize]
  omega

theorem fitsInt_natCast {log2Size : Nat} (small : log2Size < 64) : FitsInt (log2Size : Int) :=
  castInt_ofInt (by omega) (by omega)

theorem length_getSiblingHashes (memory : Memory) (address : Word) (log2Size : Nat) :
    (Cmio.getSiblingHashes hasher memory address log2Size).length =
      hashTreeLog2RootSize - log2Size := by
  simp [Cmio.getSiblingHashes]

theorem recorded_logReadAccess (memory : Memory) (paddr : Word) {log2Size : Nat}
    (node : log2Size < 64) : RecordedAccess (Uarch.logReadAccess hasher memory paddr log2Size) where
  siblings := rfl
  size := fitsInt_natCast node
  transmissible := by
    constructor
    · intro siblings member
      obtain rfl := Option.some.inj member
      rw [length_getSiblingHashes]
      exact (depth_natCast log2Size).symm
    · exact fun _ => ⟨rfl, rfl⟩

theorem recorded_logWriteAccess (largeData : Bool) (before after : Memory) (paddr : Word)
    {log2Size : Nat} (node : log2Size < 64) :
    RecordedAccess (Uarch.logWriteAccess hasher largeData before after paddr log2Size) where
  siblings := rfl
  size := fitsInt_natCast node
  transmissible := by
    constructor
    · intro siblings member
      obtain rfl := Option.some.inj member
      rw [length_getSiblingHashes]
      exact (depth_natCast log2Size).symm
    · intro isRead
      cases isRead

theorem recorded_cmioRead {memory after : Memory} {paddr : Word} {access : Access MachineHash}
    (logged : Cmio.logRead hasher paddr (memory, []) = .ok (after, [access])) :
    RecordedAccess access := by
  rw [Cmio.logRead] at logged
  obtain ⟨_, _, logged⟩ := bind_ok.mp logged
  obtain ⟨readHash, _, logged⟩ := bind_ok.mp logged
  obtain ⟨rfl, added⟩ := Prod.mk.inj (Except.ok.inj logged)
  obtain rfl := (List.cons.inj added).1
  constructor
  · rfl
  · show FitsInt 3
    exact castInt_ofInt (by decide) (by decide)
  · constructor
    · intro siblings member
      obtain rfl := Option.some.inj member
      rw [length_getSiblingHashes]
      rfl
    · exact fun _ => ⟨rfl, rfl⟩

theorem recorded_cmioWrite {memory after : Memory} {paddr value : Word}
    {access : Access MachineHash}
    (logged : Cmio.logWrite hasher paddr value (memory, []) = .ok (after, [access])) :
    RecordedAccess access := by
  rw [Cmio.logWrite] at logged
  obtain ⟨_, _, logged⟩ := bind_ok.mp logged
  obtain ⟨readHash, _, logged⟩ := bind_ok.mp logged
  obtain ⟨written, _, logged⟩ := bind_ok.mp logged
  obtain ⟨writtenHash, _, logged⟩ := bind_ok.mp logged
  obtain ⟨rfl, added⟩ := Prod.mk.inj (Except.ok.inj logged)
  obtain rfl := (List.cons.inj added).1
  constructor
  · rfl
  · show FitsInt 3
    exact castInt_ofInt (by decide) (by decide)
  · constructor
    · intro siblings member
      obtain rfl := Option.some.inj member
      rw [length_getSiblingHashes]
      rfl
    · intro isRead
      cases isRead

theorem recorded_cmioWriteMemory {largeData : Bool} {memory after : Memory} {paddr : Word}
    {data : List Byte} {writeLengthLog2Size : Nat} {access : Access MachineHash}
    (node : hashTreeLog2WordSize ≤ writeLengthLog2Size ∧ writeLengthLog2Size < 64)
    (logged : Cmio.logWriteMemoryWithPadding hasher largeData paddr data writeLengthLog2Size
      (memory, []) = .ok (after, [access])) : RecordedAccess access := by
  rw [Cmio.logWriteMemoryWithPadding] at logged
  obtain ⟨_, _, logged⟩ := bind_ok.mp logged
  obtain ⟨_, _, logged⟩ := bind_ok.mp logged
  obtain ⟨writtenHash, _, logged⟩ := bind_ok.mp logged
  obtain ⟨rfl, added⟩ := Prod.mk.inj (Except.ok.inj logged)
  obtain rfl := (List.cons.inj added).1
  constructor
  · rfl
  · exact fitsInt_natCast node.2
  · constructor
    · intro siblings member
      obtain rfl := Option.some.inj member
      rw [length_getSiblingHashes, depth_natCast, max_eq_left node.1]
    · intro isRead
      cases isRead

/-- A recorder makes sound logs of accesses that can be sent whole. -/
theorem recorded_sound {log : AccessLog} (recorded : Recorded hasher log) :
    log.Sound ∧ ∀ access ∈ log.accesses, Transmissible access := by
  have added {log : AccessLog} (before : log.Sound ∧ ∀ access ∈ log.accesses, Transmissible access)
      {access : Access MachineHash} (recorded : RecordedAccess access) (text : String) :
      (log.pushAccess access text).Sound ∧
        ∀ other ∈ (log.pushAccess access text).accesses, Transmissible other := by
    constructor
    · exact before.1.pushAccess recorded text
    · intro other member
      rcases List.mem_append.mp member with member | member
      · exact before.2 other member
      · obtain rfl := List.mem_singleton.mp member
        exact recorded.transmissible
  induction recorded with
  | start logType => exact ⟨⟨by simp [AccessLog.empty], by simp [AccessLog.empty],
      by simp [AccessLog.empty], by simp [AccessLog.empty], by simp [AccessLog.empty], rfl⟩,
      by simp [AccessLog.empty]⟩
  | @bracket log before type text ih =>
      constructor
      · exact ih.1.pushBracket type text
      · intro access member
        rw [AccessLog.pushBracket] at member
        split at member
        · exact ih.2 access member
        · exact ih.2 access member
  | uarchRead before memory paddr node text ih =>
      exact added ih (recorded_logReadAccess hasher memory paddr node) text
  | uarchWrite before memory after paddr node text ih =>
      exact added ih (recorded_logWriteAccess hasher _ memory after paddr node) text
  | cmioRead before text logged ih => exact added ih (recorded_cmioRead hasher logged) text
  | cmioWrite before text logged ih => exact added ih (recorded_cmioWrite hasher logged) text
  | cmioWriteMemory before text node logged ih =>
      exact added ih (recorded_cmioWriteMemory hasher node logged) text

end Recorded

section Accepted

/-- The logs that the reader accepts, from any JSON value. -/
def Accepted (log : AccessLog) : Prop :=
  ∃ (json : Value) (path name : String), readAccessLog json path name = .ok log

theorem fits_of_readAccess {json : Value} {path name : String} {access : Access MachineHash}
    (read : readAccess json path name = .ok access) : FitsInt access.log2Size := by
  rw [readAccess] at read
  split at read
  · cases read
  · obtain ⟨type, _, read⟩ := bind_ok.mp read
    obtain ⟨log2Size, _, read⟩ := bind_ok.mp read
    obtain ⟨address, _, read⟩ := bind_ok.mp read
    obtain ⟨readHash, _, read⟩ := bind_ok.mp read
    obtain ⟨writtenHash, _, read⟩ := bind_ok.mp read
    obtain ⟨data, _, read⟩ := bind_ok.mp read
    obtain ⟨written, _, read⟩ := bind_ok.mp read
    obtain ⟨siblings, _, read⟩ := bind_ok.mp read
    obtain rfl := Except.ok.inj read
    exact fitsInt_castInt log2Size

/-- What a reader makes sure of holds of every item of a vector. -/
theorem all_of_readItems {α : Type} {read : Reader α} {json : Value} {path : String}
    {Holds : α → Prop}
    (each : ∀ {held : Value} {path name : String} {value : α},
      read held path name = .ok value → Holds value) :
    ∀ {positions : List Nat} {values : List α},
      readItems read json path positions = .ok values → ∀ value ∈ values, Holds value := by
  intro positions
  induction positions with
  | nil =>
      intro values ran
      obtain rfl := Except.ok.inj ran
      simp
  | cons position rest ih =>
      intro values ran
      rw [readItems] at ran
      obtain ⟨item, readItem, ran⟩ := bind_ok.mp ran
      obtain ⟨others, readOthers, ran⟩ := bind_ok.mp ran
      obtain rfl := Except.ok.inj ran
      rw [getField] at readItem
      obtain ⟨held, _, readItem⟩ := bind_ok.mp readItem
      intro value member
      rcases List.mem_cons.mp member with rfl | member
      · cases held with
        | none => cases readItem
        | some held => exact each readItem
      · exact ih readOthers value member

theorem all_of_readVector {α : Type} {read : Reader α} {json : Value} {key : Key} {path : String}
    {Holds : α → Prop}
    (each : ∀ {held : Value} {path name : String} {value : α},
      read held path name = .ok value → Holds value)
    {values : List α} (ran : getField (readVector read) json key path = .ok values) :
    ∀ value ∈ values, Holds value := by
  rw [getField] at ran
  obtain ⟨held, _, ran⟩ := bind_ok.mp ran
  cases held with
  | none => cases ran
  | some held =>
      cases held with
      | array items => exact all_of_readItems each ran
      | _ => cases ran

/-- The reader accepts only sound logs. -/
theorem accepted_sound {log : AccessLog} (accepted : Accepted log) : log.Sound := by
  obtain ⟨json, path, name, read⟩ := accepted
  rw [readAccessLog] at read
  obtain ⟨logType, _, read⟩ := bind_ok.mp read
  obtain ⟨accesses, readAccesses, read⟩ := bind_ok.mp read
  obtain ⟨_, siblings, read⟩ := bind_ok.mp read
  have sizes : ∀ access ∈ accesses, FitsInt access.log2Size :=
    all_of_readVector fits_of_readAccess readAccesses
  split at read
  · rename_i plain
    obtain rfl := Except.ok.inj read
    exact ⟨checkSiblings_ok.mp siblings, sizes, fun _ => ⟨rfl, rfl⟩,
      fun annotated => absurd (plain.symm.trans annotated) (by simp), by simp [AccessLog.make], rfl⟩
  · rename_i annotated
    obtain ⟨notes, _, read⟩ := bind_ok.mp read
    split at read
    · cases read
    · rename_i counted
      obtain ⟨brackets, _, read⟩ := bind_ok.mp read
      obtain ⟨_, inside, read⟩ := bind_ok.mp read
      obtain rfl := Except.ok.inj read
      exact ⟨checkSiblings_ok.mp siblings, sizes, fun plain => absurd plain annotated,
        fun _ => not_not.mp counted, checkBrackets_ok.mp inside, rfl⟩

end Accepted

section Logs

theorem sent_eq_self {access : Access MachineHash} :
    (EnoughSiblings access ∧ sent access = access) ↔ Transmissible access := by
  obtain ⟨type, address, log2Size, read, readHash, written, writtenHash, siblingHashes⟩ := access
  constructor
  · rintro ⟨enough, same⟩
    simp only [sent, Access.mk.injEq, true_and] at same
    obtain ⟨sameWritten, sameHash, sameSiblings⟩ := same
    constructor
    · intro siblings member
      obtain rfl := Option.mem_def.mp member
      have taken := Option.some.inj sameSiblings
      have short := congrArg List.length taken
      have long := enough siblings rfl
      dsimp only at short long ⊢
      rw [List.length_take] at short
      omega
    · intro isRead
      obtain rfl : type = .read := isRead
      exact ⟨sameWritten.symm, sameHash.symm⟩
  · intro transmissible
    constructor
    · intro siblings member
      exact (transmissible.siblings siblings member).ge
    · simp only [sent, Access.mk.injEq, true_and]
      refine ⟨?_, ?_, ?_⟩
      · cases type with
        | read => exact (transmissible.read rfl).1.symm
        | write => rfl
      · cases type with
        | read => exact (transmissible.read rfl).2.symm
        | write => rfl
      · cases siblingHashes with
        | none => rfl
        | some siblings =>
            rw [Option.map_some, List.take_of_length_le]
            exact (transmissible.siblings siblings rfl).le

/-- A sound log comes back exactly if each of its accesses is sent whole. -/
theorem accessLog_roundTrips {log : AccessLog} (sound : log.Sound) :
    RoundTrips writeAccessLog readAccessLog Eq log ↔
      ∀ access ∈ log.accesses, Transmissible access := by
  constructor
  · intro returns access member
    obtain ⟨json, written, _⟩ := id returns
    have enough := enough_of_writeAccessLog written
    have same : sentLog log = log :=
      same_of_roundTrips returns (writeAccessLog_ok enough) (reads_sentAccesses sound)
    apply sent_eq_self.mp
    constructor
    · exact enough access member
    · have accesses : log.accesses.map sent = log.accesses := congrArg AccessLog.accesses same
      exact List.map_inj_left.mp (accesses.trans (List.map_id _).symm) access member
  · intro whole
    have enough : ∀ access ∈ log.accesses, EnoughSiblings access := fun access member =>
      (sent_eq_self.mpr (whole access member)).1
    apply roundTrips_of_reads (writeAccessLog_ok enough) (reads_sentAccesses sound)
    have accesses : log.accesses.map sent = log.accesses.map id :=
      List.map_inj_left.mpr fun access member => (sent_eq_self.mpr (whole access member)).2
    rw [List.map_id] at accesses
    rw [sentLog, accesses]

end Logs

section Proofs

/-- What the constructor of a proof makes sure of, with as many siblings as the sizes call for. -/
structure Constructed (proof : HashTreeProof MachineHash) : Prop where
  positive : 0 < proof.log2RootSize
  ordered : proof.log2TargetSize ≤ proof.log2RootSize
  fits : proof.log2RootSize ≤ intMax
  siblings : proof.siblingHashes.length = proof.log2RootSize - proof.log2TargetSize

/-- The JSON form of a proof. -/
def proofJson (proof : HashTreeProof MachineHash) : Value :=
  .object [("target_address", .unsigned proof.targetAddress),
    ("log2_target_size", writeInt proof.log2TargetSize),
    ("log2_root_size", writeInt proof.log2RootSize),
    ("target_hash", writeMachineHash proof.targetHash),
    ("root_hash", writeMachineHash proof.rootHash),
    ("sibling_hashes", .array (proof.siblingHashes.map writeMachineHash))]

theorem writeHashTreeProof_ok {proof : HashTreeProof MachineHash} (constructed : Constructed proof) :
    writeHashTreeProof proof = .ok (proofJson proof) := by
  rw [writeHashTreeProof, mapM_writeHashAt constructed.siblings.ge,
    List.take_of_length_le constructed.siblings.le]
  rfl

theorem reads_hashTreeProof {proof : HashTreeProof MachineHash} (constructed : Constructed proof) :
    Reads readHashTreeProof (proofJson proof) proof := by
  intro path name
  have bound : intMax = 2 ^ 31 - 1 := rfl
  have positive := constructed.positive
  have ordered := constructed.ordered
  have fits := constructed.fits
  have rootCast : castInt (BitVec.ofInt 64 proof.log2RootSize) = proof.log2RootSize :=
    castInt_ofInt (by omega) (by omega)
  have targetCast : castInt (BitVec.ofInt 64 proof.log2TargetSize) = proof.log2TargetSize :=
    castInt_ofInt (by omega) (by omega)
  have small : ¬ intMax < (BitVec.ofInt 64 (proof.log2RootSize : Int)).toNat := by
    rw [BitVec.toNat_ofInt]
    omega
  have rootSize : getField readUint64 (proofJson proof) (.name "log2_root_size")
      (path ++ name ++ "/") = .ok (BitVec.ofInt 64 proof.log2RootSize) :=
    getField_lookup rfl (reads_int _)
  have targetSize : getField readUint64 (proofJson proof) (.name "log2_target_size")
      (path ++ name ++ "/") = .ok (BitVec.ofInt 64 proof.log2TargetSize) :=
    getField_lookup rfl (reads_int _)
  have address : getField readUint64 (proofJson proof) (.name "target_address")
      (path ++ name ++ "/") = .ok proof.targetAddress := getField_lookup rfl (reads_unsigned _)
  have targetHash : getField readMachineHash (proofJson proof) (.name "target_hash")
      (path ++ name ++ "/") = .ok proof.targetHash := getField_lookup rfl (reads_machineHash _)
  have rootHash : getField readMachineHash (proofJson proof) (.name "root_hash")
      (path ++ name ++ "/") = .ok proof.rootHash := getField_lookup rfl (reads_machineHash _)
  have siblings : readItems readMachineHash
      (.array (proof.siblingHashes.map writeMachineHash)) (path ++ "sibling_hashes/")
      (List.range ((proof.log2RootSize : Int) - proof.log2TargetSize).toNat) =
        .ok proof.siblingHashes := by
    have count : ((proof.log2RootSize : Int) - proof.log2TargetSize).toNat =
        (proof.siblingHashes.map writeMachineHash).length := by
      rw [List.length_map, constructed.siblings]
      omega
    rw [count]
    apply readItems_all
    rw [List.forall₂_map_left_iff, List.forall₂_same]
    exact fun hash _ => reads_machineHash hash
  have held : (proofJson proof).field (.name "sibling_hashes") (path ++ name ++ "/") =
      .ok (some (.array (proof.siblingHashes.map writeMachineHash))) := rfl
  simp only [readHashTreeProof, rootSize, targetSize, address, targetHash, rootHash, held]
  change (if intMax < (BitVec.ofInt 64 (proof.log2RootSize : Int)).toNat then _ else _) = _
  rw [if_neg small]
  change (if intMax < (BitVec.ofInt 64 (proof.log2RootSize : Int)).toNat then _ else _) = _
  rw [if_neg small, rootCast, targetCast]
  rw [if_neg (by omega), if_neg (by omega), if_neg (by omega)]
  change (do let siblingHashes ← readItems readMachineHash _ _ _; _) = _
  rw [siblings]
  rfl

/-- Every proof comes back. -/
theorem hashTreeProof_roundTrips {proof : HashTreeProof MachineHash}
    (constructed : Constructed proof) :
    RoundTrips writeHashTreeProof readHashTreeProof Eq proof :=
  roundTrips_of_reads (writeHashTreeProof_ok constructed) (reads_hashTreeProof constructed) rfl

end Proofs

section BackTrees

/-- The trees that the constructors and the ways to append make. -/
inductive Reached (hashers : HashFunctionType → Hasher MachineHash) :
    BackMerkleTree MachineHash → Prop
  | make {log2MaxLeaves : Int} {hashFunction : HashFunctionType} {leafCount : Word}
      {context : List MachineHash} {tree : BackMerkleTree MachineHash}
      (made : makeBackTree log2MaxLeaves hashFunction leafCount context = .ok tree) :
      Reached hashers tree
  | pushBack {tree pushed : BackMerkleTree MachineHash} (before : Reached hashers tree)
      {newLeafHash : MachineHash} (ran : tree.pushBack hashers newLeafHash = .ok pushed) :
      Reached hashers pushed
  | padBack [Inhabited MachineHash] {tree padded : BackMerkleTree MachineHash}
      (before : Reached hashers tree) {padHashes : List MachineHash} {newLeafCount : Nat}
      (ran : tree.padBack hashers padHashes newLeafCount = .ok padded) : Reached hashers padded
  | clear {tree : BackMerkleTree MachineHash} (before : Reached hashers tree) :
      Reached hashers tree.clear

/-- A tree has at most 2^63 leaves and never more than fit. -/
structure Fits (tree : BackMerkleTree MachineHash) : Prop where
  levels : tree.log2MaxLeaves < 64
  leaves : tree.leafCount ≤ tree.getMaxLeaves

theorem padCarries_levels {hashers : HashFunctionType → Hasher MachineHash}
    [Inhabited MachineHash] {padHashes : List MachineHash} :
    ∀ {rounds level missing : Nat} {tree : BackMerkleTree MachineHash},
      (BackMerkleTree.padCarries hashers padHashes rounds level missing tree).1.log2MaxLeaves =
        tree.log2MaxLeaves := by
  intro rounds
  induction rounds with
  | zero => exact fun {_ _ _} => rfl
  | succ rounds ih =>
      intro level missing tree
      rw [BackMerkleTree.padCarries]
      split
      · rfl
      · split
        · split
          · exact ih
          · exact ih
        · exact ih

theorem padRest_levels [Inhabited MachineHash] {padHashes : List MachineHash} :
    ∀ {steps level missing : Nat} {tree : BackMerkleTree MachineHash},
      (BackMerkleTree.padRest padHashes steps level missing tree).1.log2MaxLeaves =
        tree.log2MaxLeaves := by
  intro steps
  induction steps with
  | zero => exact fun {_ _ _} => rfl
  | succ steps ih =>
      intro level missing tree
      rw [BackMerkleTree.padRest]
      split
      · exact ih
      · exact ih

theorem fits_makeBackTree {log2MaxLeaves : Int} {hashFunction : HashFunctionType}
    {leafCount : Word} {context : List MachineHash} {tree : BackMerkleTree MachineHash}
    (made : makeBackTree log2MaxLeaves hashFunction leafCount context = .ok tree) : Fits tree := by
  rw [makeBackTree] at made
  obtain ⟨_, _, made⟩ := bind_ok.mp made
  obtain ⟨_, _, made⟩ := bind_ok.mp made
  obtain ⟨_, small, made⟩ := bind_ok.mp made
  obtain ⟨_, room, made⟩ := bind_ok.mp made
  obtain ⟨⟨unpacked, rest⟩, _, made⟩ := bind_ok.mp made
  obtain ⟨_, _, made⟩ := bind_ok.mp made
  obtain rfl := Except.ok.inj made
  have small := demand_ok.mp small
  constructor
  · show log2MaxLeaves.toNat < 64
    omega
  · exact (demand_ok.mp room).le

theorem reached_fits {hashers : HashFunctionType → Hasher MachineHash}
    {tree : BackMerkleTree MachineHash} (reached : Reached hashers tree) : Fits tree := by
  induction reached with
  | make made => exact fits_makeBackTree made
  | @pushBack tree pushed before newLeafHash ran ih =>
      rw [BackMerkleTree.pushBack] at ran
      obtain ⟨_, room, ran⟩ := bind_ok.mp ran
      have room := check_ok.mp room
      split at ran
      · obtain rfl := Except.ok.inj ran
        exact ⟨ih.levels, room⟩
      · obtain rfl := Except.ok.inj ran
        exact ⟨ih.levels, room⟩
  | @padBack _ tree padded before padHashes newLeafCount ran ih =>
      rw [BackMerkleTree.padBack] at ran
      split at ran
      · obtain rfl := Except.ok.inj ran
        exact ih
      · obtain ⟨_, _, ran⟩ := bind_ok.mp ran
        obtain ⟨_, _, ran⟩ := bind_ok.mp ran
        dsimp only at ran
        obtain ⟨_, _, ran⟩ := bind_ok.mp ran
        obtain ⟨_, room, ran⟩ := bind_ok.mp ran
        obtain rfl := Except.ok.inj ran
        constructor
        · rw [padRest_levels, padCarries_levels]
          exact ih.levels
        · exact check_ok.mp room
  | clear before ih => exact ⟨ih.levels, Nat.zero_le _⟩

/-- Unpacking a packed context puts each hash where it was. -/
theorem unpack_packed (leafCount : Nat) (context : Nat → MachineHash) :
    ∀ (levels : List Nat) (start : Nat → MachineHash),
      ∃ unpacked, unpack leafCount levels
          ((levels.filter fun level => leafCount.testBit level).map context) start =
            .ok (unpacked, []) ∧
        ∀ level, leafCount.testBit level = true →
          level ∈ levels ∨ start level = context level → unpacked level = context level := by
  intro levels
  induction levels with
  | nil => exact fun start => ⟨start, rfl, fun level _ known => by simpa using known⟩
  | cons first levels ih =>
      intro start
      by_cases set : leafCount.testBit first
      · obtain ⟨unpacked, ran, agrees⟩ := ih (Function.update start first (context first))
        refine ⟨unpacked, ?_, ?_⟩
        · rw [List.filter_cons_of_pos set, List.map_cons]
          simp only [unpack, if_pos set]
          exact ran
        · intro level bit known
          apply agrees level bit
          by_cases same : level = first
          · right
            rw [same, Function.update_self]
          · rw [Function.update_of_ne same]
            simpa [same] using known
      · obtain ⟨unpacked, ran, agrees⟩ := ih start
        refine ⟨unpacked, ?_, ?_⟩
        · rw [List.filter_cons_of_neg set]
          simp only [unpack, if_neg set]
          exact ran
        · intro level bit known
          apply agrees level bit
          have differ : level ≠ first := fun same => set (same ▸ bit)
          simpa [differ] using known

theorem makeBackTree_packed {tree : BackMerkleTree MachineHash} (levels : tree.log2MaxLeaves < 64)
    (room : tree.leafCount < tree.getMaxLeaves) :
    ∃ back, makeBackTree tree.log2MaxLeaves tree.hashFunction (BitVec.ofNat 64 tree.leafCount)
      tree.getContext = .ok back ∧ back.Same tree := by
  have bound : tree.leafCount < 2 ^ 64 :=
    room.trans_le (Nat.pow_le_pow_right (by decide) levels.le)
  have count : (BitVec.ofNat 64 tree.leafCount).toNat = tree.leafCount := by
    rw [BitVec.toNat_ofNat, Nat.mod_eq_of_lt bound]
  have notMax : (tree.log2MaxLeaves : Int) ≠ intMax := by
    simp only [intMax]
    omega
  obtain ⟨unpacked, ran, agrees⟩ := unpack_packed tree.leafCount tree.context
    (List.range (tree.log2MaxLeaves + 1)) fun _ => Vector.replicate 32 0
  refine ⟨⟨tree.log2MaxLeaves, tree.hashFunction, tree.leafCount, unpacked⟩, ?_, rfl, rfl, rfl, ?_⟩
  · apply bind_ok.mpr
    refine ⟨(), demand_ok.mpr notMax, bind_ok.mpr ⟨(), demand_ok.mpr (by omega),
      bind_ok.mpr ⟨(), demand_ok.mpr (by omega), bind_ok.mpr ⟨(), demand_ok.mpr ?_,
      bind_ok.mpr ⟨(unpacked, []), ?_, bind_ok.mpr ⟨(), demand_ok.mpr rfl, ?_⟩⟩⟩⟩⟩⟩
    · rw [count, Int.toNat_natCast]
      exact room
    · rw [count, Int.toNat_natCast]
      exact ran
    · rw [count, Int.toNat_natCast]
      rfl
  · intro level bit
    apply agrees level bit
    left
    have low : 2 ^ level ≤ tree.leafCount := Nat.ge_two_pow_of_testBit bit
    have below : level < tree.log2MaxLeaves :=
      (Nat.pow_lt_pow_iff_right (by decide)).mp (low.trans_lt room)
    exact List.mem_range.mpr (by omega)

/-- A tree that is full is not accepted. -/
theorem makeBackTree_full {tree : BackMerkleTree MachineHash} (fits : Fits tree)
    (full : tree.full = true) (hashFunction : HashFunctionType) (context : List MachineHash) :
    ∀ back, makeBackTree tree.log2MaxLeaves hashFunction (BitVec.ofNat 64 tree.leafCount) context ≠
      .ok back := by
  intro back made
  have bound : tree.leafCount < 2 ^ 64 :=
    fits.leaves.trans_lt (Nat.pow_lt_pow_right (by decide) fits.levels)
  rw [makeBackTree] at made
  obtain ⟨_, _, made⟩ := bind_ok.mp made
  obtain ⟨_, _, made⟩ := bind_ok.mp made
  obtain ⟨_, _, made⟩ := bind_ok.mp made
  obtain ⟨_, room, _⟩ := bind_ok.mp made
  have room := demand_ok.mp room
  rw [BitVec.toNat_ofNat, Nat.mod_eq_of_lt bound, Int.toNat_natCast] at room
  have filled : tree.getMaxLeaves ≤ tree.leafCount := of_decide_eq_true full
  exact absurd room (not_lt.mpr filled)

/-- The reader makes a tree of the parts that were written. -/
theorem readBackTree_write (tree : BackMerkleTree MachineHash) (levels : tree.log2MaxLeaves < 64)
    (path name : String) :
    readBackTree (writeBackTree (some tree)) path name =
      some <$> makeBackTree tree.log2MaxLeaves tree.hashFunction (BitVec.ofNat 64 tree.leafCount)
        tree.getContext := by
  generalize written : writeBackTree (some tree) = json
  have log2MaxLeaves : getField readUint64 json (.name "log2_max_leaves") (path ++ name ++ "/") =
      .ok (BitVec.ofInt 64 tree.log2MaxLeaves) := by
    subst written
    exact getField_lookup rfl (reads_int _)
  have hashFunction : getField readHashFunction json (.name "hash_function")
      (path ++ name ++ "/") = .ok tree.hashFunction := by
    subst written
    exact getField_lookup rfl (reads_hashFunction _)
  have leafCount : getField readUint64 json (.name "leaf_count") (path ++ name ++ "/") =
      .ok (BitVec.ofNat 64 tree.leafCount) := by
    subst written
    exact getField_lookup rfl (reads_unsigned _)
  have context : getField (readVector readMachineHash) json (.name "context")
      (path ++ name ++ "/") = .ok tree.getContext := by
    subst written
    exact getField_lookup rfl (readVector_same fun hash _ => reads_machineHash hash)
  have cast : castInt (BitVec.ofInt 64 tree.log2MaxLeaves) = tree.log2MaxLeaves :=
    castInt_ofInt (by omega) (by omega)
  simp only [readBackTree, log2MaxLeaves, hashFunction, leafCount, context]
  subst written
  change (makeBackTree (castInt (BitVec.ofInt 64 tree.log2MaxLeaves)) _ _ _).bind _ = _
  rw [cast]
  rfl

/-- An optional tree comes back exactly if it is not full. -/
theorem backTree_roundTrips {tree : Option (BackMerkleTree MachineHash)}
    (fits : ∀ held ∈ tree, Fits held) :
    RoundTrips (fun tree => .ok (writeBackTree tree)) readBackTree
      (Option.Rel BackMerkleTree.Same) tree ↔ ∀ held ∈ tree, held.full = false := by
  cases tree with
  | none =>
      have reads : Reads readBackTree (writeBackTree none) none := fun _ _ => rfl
      constructor
      · simp
      · exact fun _ => roundTrips_of_reads rfl reads .none
  | some tree =>
      have fits := fits tree rfl
      constructor
      · rintro ⟨json, written, gives⟩ held member
        obtain rfl := Option.some.inj member
        obtain rfl := Except.ok.inj written
        by_contra full
        obtain ⟨back, read, _⟩ := gives (.array [writeBackTree (some tree)]) (.index 0) "" rfl
        rw [getOptField] at read
        obtain ⟨found, field, read⟩ := bind_ok.mp read
        obtain rfl := Except.ok.inj field
        obtain ⟨answer, read, _⟩ := bind_ok.mp read
        rw [readBackTree_write tree fits.levels] at read
        cases made : makeBackTree tree.log2MaxLeaves tree.hashFunction
            (BitVec.ofNat 64 tree.leafCount) tree.getContext with
        | error rejection =>
            rw [made] at read
            cases read
        | ok other =>
            exact makeBackTree_full fits (by simpa using full) tree.hashFunction tree.getContext
              other made
      · intro notFull
        have room : tree.leafCount < tree.getMaxLeaves := by
          by_contra filled
          exact absurd (notFull tree rfl) (by simpa [BackMerkleTree.full] using not_lt.mp filled)
        obtain ⟨back, made, same⟩ := makeBackTree_packed fits.levels room
        have reads : Reads readBackTree (writeBackTree (some tree)) (some back) := by
          intro path name
          rw [readBackTree_write tree fits.levels, made]
          rfl
        exact roundTrips_of_reads rfl reads (.some same)

end BackTrees

/-- A hasher that adds hashes byte by byte. -/
def sumHasher : Hasher MachineHash where
  hash data := Vector.ofFn fun position => data.getD position.val 0
  concatHash left right := Vector.zipWith (· + ·) left right
  ofBytes data := Vector.ofFn fun position => data.getD position.val 0

/-- An access without the siblings of its size. -/
def bareAccess : Access MachineHash where
  type := .read
  address := 0
  log2Size := 3
  read := none
  readHash := Vector.replicate 32 0
  written := none
  writtenHash := none
  siblingHashes := some []

def bareLog : AccessLog := .make [bareAccess] [] [] ⟨false, false⟩

end MachineEmulator.Json
