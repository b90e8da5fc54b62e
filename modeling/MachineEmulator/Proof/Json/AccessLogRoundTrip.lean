/-
This file shows which access logs come back from their JSON form.
-/

import MachineEmulator.Construction.Uarch.Record
import MachineEmulator.Proof.Json.Fields

namespace MachineEmulator.Json

section Writing

variable {hashes : List MachineHash} {pastEnd : Rejection} {count : Nat}

/-- A prefix of a list of hashes is written if the list is long enough. -/
theorem mapM_writeHashAt (enough : count ≤ hashes.length) :
    (List.range count).mapM (writeHashAt pastEnd hashes) =
      .ok ((hashes.take count).map writeMachineHash) := by
  induction count with
  | zero => rfl
  | succ count ih =>
      have there : hashes[count]? = some hashes[count] := List.getElem?_eq_getElem (by omega)
      rw [List.range_succ, List.mapM_append, ih (by omega), List.take_add_one, there]
      simp only [List.mapM_cons, List.mapM_nil, writeHashAt, there, Option.toList_some,
        List.map_append, List.map_cons, List.map_nil]
      rfl

theorem mapM_writeHashAt_error (short : hashes.length < count) :
    (List.range count).mapM (writeHashAt pastEnd hashes) = .error pastEnd := by
  obtain ⟨more, rfl⟩ : ∃ more, count = hashes.length + 1 + more :=
    ⟨count - hashes.length - 1, by omega⟩
  have missing : hashes[hashes.length]? = none := List.getElem?_eq_none (le_refl _)
  rw [List.range_add, List.range_succ, List.mapM_append, List.mapM_append,
    mapM_writeHashAt (le_refl _)]
  simp only [List.mapM_cons, List.mapM_nil, writeHashAt, missing]
  rfl

end Writing

section Accesses

variable {α : Type}

/-- What the writer sends of an access: written data only of a write, and siblings up to the depth
of its size. -/
def sent (access : Access MachineHash) : Access MachineHash :=
  { access with
    written := if access.type = .write then access.written else none
    writtenHash := if access.type = .write then access.writtenHash else none
    siblingHashes := access.siblingHashes.map fun siblings =>
      siblings.take (siblingDepth access.log2Size) }

/-- The siblings of an access reach from its size to the root. -/
def EnoughSiblings (access : Access MachineHash) : Prop :=
  ∀ siblings ∈ access.siblingHashes, siblingDepth access.log2Size ≤ siblings.length

/-- The fields of a written access. -/
def sentFields (access : Access MachineHash) (siblings : Option Value) : List (String × Value) :=
  [("type", .string (accessTypeToName access.type)), ("address", .unsigned access.address),
    ("log2_size", writeInt access.log2Size), ("read_hash", writeMachineHash access.readHash)] ++
  optField "read" writeAccessData access.read ++
  (if access.type = .write then
    optField "written_hash" writeMachineHash access.writtenHash ++
      optField "written" writeAccessData access.written
  else []) ++
  optField "sibling_hashes" id siblings

/-- The siblings as they are written. -/
def sentSiblings (access : Access MachineHash) : Option Value :=
  (sent access).siblingHashes.map fun siblings => .array (siblings.map writeMachineHash)

theorem writeAccess_ok {access : Access MachineHash} (enough : EnoughSiblings access) :
    writeAccess access = .ok (.object (sentFields access (sentSiblings access))) := by
  rw [writeAccess, sentSiblings, sent]
  cases present : access.siblingHashes with
  | none => rfl
  | some siblings =>
      have written : writeSiblings access.log2Size siblings =
          .ok (.array ((siblings.take (siblingDepth access.log2Size)).map writeMachineHash)) := by
        rw [writeSiblings, mapM_writeHashAt (enough siblings present)]
        rfl
      simp only [Option.mapM_some, Option.map_some, written]
      rfl

theorem enough_of_writeAccess {access : Access MachineHash} {json : Value}
    (written : writeAccess access = .ok json) : EnoughSiblings access := by
  intro siblings present
  by_contra short
  have failed : writeSiblings access.log2Size siblings = .error .undefinedBehavior := by
    rw [writeSiblings, mapM_writeHashAt_error (not_le.mp short)]
    rfl
  rw [Option.mem_def] at present
  rw [writeAccess, present] at written
  simp only [Option.mapM_some, failed] at written
  cases written

theorem lookup_sentFields (access : Access MachineHash) (siblings : Option Value) :
    (sentFields access siblings).lookup "read" = access.read.map writeAccessData ∧
    (sentFields access siblings).lookup "written_hash" =
      (sent access).writtenHash.map writeMachineHash ∧
    (sentFields access siblings).lookup "written" = (sent access).written.map writeAccessData ∧
    (sentFields access siblings).lookup "sibling_hashes" = siblings := by
  obtain ⟨type, address, log2Size, read, readHash, written, writtenHash, siblingHashes⟩ := access
  cases type <;> cases read <;> cases written <;> cases writtenHash <;> cases siblings <;>
    exact ⟨rfl, rfl, rfl, rfl⟩

/-- A field that may be missing is read as it was written. -/
theorem getOptField_lookup {read : Reader α} {write : α → Value} {fields : List (String × Value)}
    {name path : String} {value : Option α} (found : fields.lookup name = value.map write)
    (reads : ∀ held ∈ value, Reads read (write held) held) :
    getOptField read (.object fields) (.name name) path = .ok value := by
  cases value with
  | none => exact getOptField_none (by rw [field_object, found]; rfl)
  | some held => exact getOptField_some (by rw [field_object, found]; rfl) (reads held rfl)

/-- A size of type `int` comes back from the signed integer it is written as. -/
def FitsInt (value : Int) : Prop := castInt (BitVec.ofInt 64 value) = value

/-- An access is read from its fields with the siblings that stand there; written data of a read is
not among them. -/
theorem reads_fields {access : Access MachineHash} (fits : FitsInt access.log2Size)
    (siblingHashes : Option (List MachineHash)) :
    Reads readAccess (.object (sentFields access
      (siblingHashes.map fun siblings => .array (siblings.map writeMachineHash))))
      { sent access with siblingHashes } := by
  intro path name
  obtain ⟨foundRead, foundHash, foundWritten, foundSiblings⟩ := lookup_sentFields access
    (siblingHashes.map fun siblings => .array (siblings.map writeMachineHash))
  generalize built : sentFields access
    (siblingHashes.map fun siblings => .array (siblings.map writeMachineHash)) = fields at *
  have type : getField readAccessType (.object fields) (.name "type") (path ++ name ++ "/") =
      .ok access.type := by
    subst built
    exact getField_some rfl (reads_accessType access.type)
  have size : getField readUint64 (.object fields) (.name "log2_size") (path ++ name ++ "/") =
      .ok (BitVec.ofInt 64 access.log2Size) := by
    subst built
    exact getField_some rfl (reads_int access.log2Size)
  have address : getField readUint64 (.object fields) (.name "address") (path ++ name ++ "/") =
      .ok access.address := by
    subst built
    exact getField_some rfl (reads_unsigned access.address)
  have readHash : getField readMachineHash (.object fields) (.name "read_hash")
      (path ++ name ++ "/") = .ok access.readHash := by
    subst built
    exact getField_some rfl (reads_machineHash access.readHash)
  have writtenHash : getOptField readMachineHash (.object fields) (.name "written_hash")
      (path ++ name ++ "/") = .ok (sent access).writtenHash :=
    getOptField_lookup foundHash fun held _ => reads_machineHash held
  have read : getOptField readAccessData (.object fields) (.name "read") (path ++ name ++ "/") =
      .ok access.read := getOptField_lookup foundRead fun held _ => reads_accessData held
  have written : getOptField readAccessData (.object fields) (.name "written")
      (path ++ name ++ "/") = .ok (sent access).written :=
    getOptField_lookup foundWritten fun held _ => reads_accessData held
  have siblings : getOptField (readVector readMachineHash) (.object fields)
      (.name "sibling_hashes") (path ++ name ++ "/") = .ok siblingHashes := by
    apply getOptField_lookup foundSiblings
    intro held _
    exact readVector_same fun hash _ => reads_machineHash hash
  simp only [readAccess, type, size, address, readHash, writtenHash, read, written, siblings]
  change Except.ok _ = _
  congr 1
  simp only [sent, Access.mk.injEq, true_and, and_true]
  exact fits

/-- Reading an access gives what was sent of it. -/
theorem reads_sentFields {access : Access MachineHash} (fits : FitsInt access.log2Size) :
    Reads readAccess (.object (sentFields access (sentSiblings access))) (sent access) :=
  reads_fields fits (sent access).siblingHashes

end Accesses

section Logs

/-- What is true of a log whatever made it: its accesses have siblings and sizes of type `int`, and
its annotations are there exactly if its type has them. -/
structure AccessLog.Sound (log : AccessLog) : Prop where
  siblings : ∀ access ∈ log.accesses, access.siblingHashes.isSome
  sizes : ∀ access ∈ log.accesses, FitsInt access.log2Size
  plain : log.logType.hasAnnotations = false → log.notes = [] ∧ log.brackets = []
  notes : log.logType.hasAnnotations = true → log.notes.length = log.accesses.length
  brackets : ∀ bracket ∈ log.brackets, bracket.position.toNat ≤ log.accesses.length
  outstanding : log.outstandingEnds = log.brackets.foldl AccessLog.countOutstanding 0

theorem checkSiblings_ok {path : String} {accesses : List (Access MachineHash)} :
    ∀ {position : Nat}, checkSiblings path position accesses = .ok () ↔
      ∀ access ∈ accesses, access.siblingHashes.isSome := by
  induction accesses with
  | nil => simp [checkSiblings]
  | cons access rest ih =>
      intro position
      rw [checkSiblings]
      by_cases there : access.siblingHashes.isSome
      · rw [if_pos there, ih]
        simp [there]
      · rw [if_neg there]
        simp [there]

theorem checkBrackets_ok {path : String} {count : Nat} {brackets : List BracketNote} :
    ∀ {position : Nat}, checkBrackets path count position brackets = .ok () ↔
      ∀ bracket ∈ brackets, bracket.position.toNat ≤ count := by
  induction brackets with
  | nil => simp [checkBrackets]
  | cons bracket rest ih =>
      intro position
      rw [checkBrackets]
      by_cases inside : bracket.position.toNat ≤ count
      · rw [if_pos inside, ih]
        simp [inside]
      · rw [if_neg inside]
        simp [inside]

/-- What the writer sends of a log. -/
def sentLog (log : AccessLog) : AccessLog :=
  { log with accesses := log.accesses.map sent }

/-- The accesses as they are written. -/
def sentAccesses (log : AccessLog) : List Value :=
  log.accesses.map fun access => .object (sentFields access (sentSiblings access))

/-- The fields of a written log with its accesses. -/
def logFields (log : AccessLog) (accesses : List Value) : List (String × Value) :=
  [("log_type", writeLogType log.logType), ("accesses", .array accesses)] ++
  if log.logType.hasAnnotations then
    [("notes", .array (log.notes.map .string)),
      ("brackets", .array (log.brackets.map writeBracketNote))]
  else []

theorem getField_lookup {α : Type} {read : Reader α} {fields : List (String × Value)}
    {name path : String} {held : Value} {value : α} (found : fields.lookup name = some held)
    (reads : Reads read held value) : getField read (.object fields) (.name name) path = .ok value :=
  getField_some (by rw [field_object, found]) reads

theorem mapM_writeAccess {accesses : List (Access MachineHash)}
    (enough : ∀ access ∈ accesses, EnoughSiblings access) :
    accesses.mapM writeAccess =
      .ok (accesses.map fun access => .object (sentFields access (sentSiblings access))) := by
  induction accesses with
  | nil => rfl
  | cons access rest ih =>
      rw [List.mapM_cons, writeAccess_ok (enough access (by simp)),
        ih fun other member => enough other (by simp [member])]
      rfl

theorem enough_of_mapM {accesses : List (Access MachineHash)} :
    ∀ {written : List Value}, accesses.mapM writeAccess = .ok written →
      ∀ access ∈ accesses, EnoughSiblings access := by
  induction accesses with
  | nil => simp
  | cons first rest ih =>
      intro written ran access member
      rw [List.mapM_cons] at ran
      obtain ⟨head, wroteHead, ran⟩ := bind_ok.mp ran
      obtain ⟨tail, wroteTail, _⟩ := bind_ok.mp ran
      rcases List.mem_cons.mp member with rfl | member
      · exact enough_of_writeAccess wroteHead
      · exact ih wroteTail access member

theorem writeAccessLog_ok {log : AccessLog}
    (enough : ∀ access ∈ log.accesses, EnoughSiblings access) :
    writeAccessLog log = .ok (.object (logFields log (sentAccesses log))) := by
  rw [writeAccessLog, mapM_writeAccess enough]
  rfl

theorem enough_of_writeAccessLog {log : AccessLog} {json : Value}
    (written : writeAccessLog log = .ok json) : ∀ access ∈ log.accesses, EnoughSiblings access := by
  rw [writeAccessLog] at written
  obtain ⟨accesses, wrote, _⟩ := bind_ok.mp written
  exact enough_of_mapM wrote

theorem lookup_annotations {log : AccessLog} (annotated : log.logType.hasAnnotations = true)
    (accesses : List Value) :
    (logFields log accesses).lookup "notes" = some (.array (log.notes.map .string)) ∧
    (logFields log accesses).lookup "brackets" =
      some (.array (log.brackets.map writeBracketNote)) := by
  rw [logFields, if_pos annotated]
  exact ⟨rfl, rfl⟩

/-- A sound log is read from its fields with texts of its accesses. -/
theorem reads_logFields {log : AccessLog} (sound : log.Sound) {items : List Value}
    (each : List.Forall₂ (Reads readAccess) items log.accesses) :
    Reads readAccessLog (.object (logFields log items)) log := by
  intro path name
  have logType : getField readLogType (.object (logFields log items)) (.name "log_type")
      (path ++ name ++ "/") = .ok log.logType := getField_lookup rfl (reads_logType log.logType)
  have accesses : getField (readVector readAccess) (.object (logFields log items))
      (.name "accesses") (path ++ name ++ "/") = .ok log.accesses :=
    getField_lookup rfl (readVector_all each)
  have siblings : checkSiblings (path ++ name ++ "/") 0 log.accesses = .ok () :=
    checkSiblings_ok.mpr sound.siblings
  cases annotated : log.logType.hasAnnotations with
  | false =>
      obtain ⟨noNotes, noBrackets⟩ := sound.plain annotated
      have outstanding := sound.outstanding
      rw [noBrackets] at outstanding
      simp only [readAccessLog, logType, accesses]
      change (do checkSiblings (path ++ name ++ "/") 0 log.accesses; _) = _
      rw [siblings]
      change (if log.logType.hasAnnotations = false then
        Except.ok (AccessLog.make log.accesses [] [] log.logType) else _) = _
      rw [if_pos annotated]
      congr 1
      obtain ⟨accesses, brackets, notes, logType, outstandingEnds⟩ := log
      simp_all [AccessLog.make]
  | true =>
      have notes : getField (readVector readString) (.object (logFields log items)) (.name "notes")
          (path ++ name ++ "/") = .ok log.notes := by
        apply getField_lookup (lookup_annotations annotated items).1
        exact readVector_same fun text _ => reads_string text
      have brackets : getField (readVector readBracketNote) (.object (logFields log items))
          (.name "brackets") (path ++ name ++ "/") = .ok log.brackets := by
        apply getField_lookup (lookup_annotations annotated items).2
        exact readVector_same fun bracket _ => reads_bracketNote bracket
      have inside : checkBrackets (path ++ name ++ "/") log.accesses.length 0 log.brackets =
          .ok () := checkBrackets_ok.mpr sound.brackets
      simp only [readAccessLog, logType, accesses]
      change (do checkSiblings (path ++ name ++ "/") 0 log.accesses; _) = _
      rw [siblings]
      change (if log.logType.hasAnnotations = false then _ else _) = _
      rw [if_neg (by simp [annotated]), notes]
      change (if log.notes.length ≠ log.accesses.length then _ else _) = _
      rw [if_neg (not_not.mpr (sound.notes annotated)), brackets]
      change (checkBrackets (path ++ name ++ "/") log.accesses.length 0 log.brackets).bind _ = _
      rw [inside]
      change Except.ok (AccessLog.make log.accesses log.brackets log.notes log.logType) = _
      rw [AccessLog.make, ← sound.outstanding]

theorem AccessLog.Sound.sent {log : AccessLog} (sound : log.Sound) : (sentLog log).Sound := by
  constructor
  · intro access member
    obtain ⟨original, there, rfl⟩ := List.mem_map.mp member
    rw [Json.sent, Option.isSome_map]
    exact sound.siblings original there
  · intro access member
    obtain ⟨original, there, rfl⟩ := List.mem_map.mp member
    exact sound.sizes original there
  · exact sound.plain
  · intro annotated
    rw [sentLog, List.length_map]
    exact sound.notes annotated
  · intro bracket member
    rw [sentLog, List.length_map]
    exact sound.brackets bracket member
  · exact sound.outstanding

/-- Reading a log gives what was sent of it. -/
theorem reads_sentAccesses {log : AccessLog} (sound : log.Sound) :
    Reads readAccessLog (.object (logFields log (sentAccesses log))) (sentLog log) := by
  have each : List.Forall₂ (Reads readAccess) (sentAccesses log) (sentLog log).accesses := by
    rw [sentAccesses, sentLog, List.forall₂_map_left_iff, List.forall₂_map_right_iff,
      List.forall₂_same]
    exact fun access member => reads_sentFields (sound.sizes access member)
  exact reads_logFields sound.sent each

end Logs

end MachineEmulator.Json
