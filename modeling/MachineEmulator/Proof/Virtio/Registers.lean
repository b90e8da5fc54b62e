/-
This file gives what register writes and queue runs keep, for any device.
-/

import MachineEmulator.Construction.Virtio.AddressRange

namespace MachineEmulator.Virtio

variable {Device Ram : Type}

theorem ok_of_toOption {A B : Type} {answer : Except Failure A} {view : A → B} {value : B}
    (seen : answer.toOption.map view = some value) :
    ∃ result, answer = .ok result ∧ view result = value := by
  cases answer with
  | error failure => cases seen
  | ok result => exact ⟨result, rfl, Option.some.inj seen⟩

theorem except_map_ok {A B : Type} {answer : Except Failure A} {result : B} {change : A → B}
    (ran : answer.map change = .ok result) : ∃ value, answer = .ok value ∧ change value = result := by
  cases answer with
  | error failure => cases ran
  | ok value =>
      cases ran
      exact ⟨value, rfl, rfl⟩

section Frames

variable (state : VirtioState Device Ram)

@[simp] theorem notifyQueueUsed_device : state.notifyQueueUsed.device = state.device := by
  rw [VirtioState.notifyQueueUsed]
  split <;> rfl

@[simp] theorem notifyQueueUsed_driverOk : state.notifyQueueUsed.driverOk = state.driverOk := by
  rw [VirtioState.notifyQueueUsed]
  split <;> rfl

@[simp] theorem notifyQueueUsed_queue : state.notifyQueueUsed.queue = state.queue := by
  rw [VirtioState.notifyQueueUsed]
  split <;> rfl

@[simp] theorem notifyQueueUsed_ram : state.notifyQueueUsed.ram = state.ram := by
  rw [VirtioState.notifyQueueUsed]
  split <;> rfl

@[simp] theorem notifyDeviceNeedsReset_device :
    state.notifyDeviceNeedsReset.device = state.device := by
  simp only [VirtioState.notifyDeviceNeedsReset, VirtioState.notifyConfigChange]
  split <;> rfl

@[simp] theorem notifyDeviceNeedsReset_driverOk :
    state.notifyDeviceNeedsReset.driverOk = state.driverOk := by
  simp only [VirtioState.notifyDeviceNeedsReset, VirtioState.notifyConfigChange]
  split <;> rfl

@[simp] theorem notifyDeviceNeedsReset_queue :
    state.notifyDeviceNeedsReset.queue = state.queue := by
  simp only [VirtioState.notifyDeviceNeedsReset, VirtioState.notifyConfigChange]
  split <;> rfl

@[simp] theorem notifyDeviceNeedsReset_ram : state.notifyDeviceNeedsReset.ram = state.ram := by
  simp only [VirtioState.notifyDeviceNeedsReset, VirtioState.notifyConfigChange]
  split <;> rfl

@[simp] theorem notifyConfigChange_device : state.notifyConfigChange.device = state.device := by
  simp only [VirtioState.notifyConfigChange]
  split <;> rfl

end Frames

section Queues

variable (guest : GuestMemory Ram)

theorem lastUsedIdx_consumeDesc (vq : Virtq) (ram : Ram) (descIdx : BitVec 16)
    (writtenLen : BitVec 32) (usedFlags : BitVec 16) :
    (vq.consumeDesc guest ram descIdx writtenLen usedFlags).2.1.lastUsedIdx =
      if (vq.consumeDesc guest ram descIdx writtenLen usedFlags).1 then vq.lastUsedIdx + 1
      else vq.lastUsedIdx := by
  cases element : vq.setRingUsedElem guest ram vq.lastUsedIdx (descIdx.setWidth 32) writtenLen with
  | none =>
      simp only [Virtq.consumeDesc, element]
      rfl
  | some ram =>
      cases header : vq.setUsedHeader guest ram usedFlags (vq.lastUsedIdx + 1) with
      | none =>
          simp only [Virtq.consumeDesc, element, header]
          rfl
      | some ram =>
          simp only [Virtq.consumeDesc, element, header]
          rfl

/-- A consumed element moves the ring index of its queue by one; the device stays as it is. -/
theorem consumeQueue_ring {queueIdx : BitVec 32} {descIdx usedFlags : BitVec 16}
    {writtenLen : BitVec 32} {consumed : Bool} {state next : VirtioState Device Ram}
    (ran : state.consumeQueue guest queueIdx descIdx writtenLen usedFlags = .ok (consumed, next)) :
    next.device = state.device ∧ next.driverOk = state.driverOk ∧
      ∀ index, (next.queue index).lastUsedIdx =
        if index = queueIdx.toNat ∧ consumed = true then (state.queue index).lastUsedIdx + 1
        else (state.queue index).lastUsedIdx := by
  obtain ⟨_, _, ran⟩ := bind_ok.mp ran
  obtain ⟨_, _, ran⟩ := bind_ok.mp ran
  cases ran
  refine ⟨rfl, rfl, fun index => ?_⟩
  simp only [VirtioState.setQueue]
  by_cases same : index = queueIdx.toNat
  · subst same
    rw [Function.update_self]
    exact (lastUsedIdx_consumeDesc guest _ _ _ _ _).trans
      (if_congr (and_iff_right rfl).symm rfl rfl)
  · rw [Function.update_of_ne same, if_neg fun both => same both.1]

end Queues

section Writes

/-- The device and the ring indices of two states are the same, and a started device stays so. -/
structure SameRings (state changed : VirtioState Device Ram) : Prop where
  device : changed.device = state.device
  rings : ∀ index, (changed.queue index).lastUsedIdx = (state.queue index).lastUsedIdx
  driverOk : state.driverOk = true → changed.driverOk = true

theorem SameRings.of_queue {state changed : VirtioState Device Ram}
    (device : changed.device = state.device) (queue : changed.queue = state.queue)
    (driverOk : state.driverOk = true → changed.driverOk = true) : SameRings state changed :=
  ⟨device, fun index => by rw [queue], driverOk⟩

theorem sameRings_needsReset (state : VirtioState Device Ram) :
    SameRings state state.notifyDeviceNeedsReset :=
  .of_queue (by simp) (by simp) (by simp)

theorem sameRings_queueUsed (state : VirtioState Device Ram) :
    SameRings state state.notifyQueueUsed :=
  .of_queue (by simp) (by simp) (by simp)

theorem sameRings_writeSelectedQueue (state : VirtioState Device Ram) {update : Virtq → Virtq}
    (keeps : ∀ vq, (update vq).lastUsedIdx = vq.lastUsedIdx) :
    SameRings state (state.writeSelectedQueue update) := by
  unfold VirtioState.writeSelectedQueue
  split
  · refine ⟨rfl, fun index => ?_, id⟩
    simp only [VirtioState.setQueue, Function.update_apply]
    split
    · rename_i selected
      rw [keeps, selected]
    · rfl
  · exact .of_queue rfl rfl id

theorem sameRings_writeConfig (state : VirtioState Device Ram) (offset : Word) (value : BitVec 32)
    (log2Size : Nat) : SameRings state (state.mmioWriteConfig offset value log2Size).2 := by
  simp only [VirtioState.mmioWriteConfig]
  split
  · exact .of_queue rfl rfl id
  split
  · exact .of_queue rfl rfl id
  split
  · exact .of_queue rfl rfl id
  · exact .of_queue rfl rfl id

theorem sameRings_writeDriverFeatures (state : VirtioState Device Ram) (value : BitVec 32) :
    SameRings state (state.writeDriverFeatures value) := by
  unfold VirtioState.writeDriverFeatures
  split
  · exact .of_queue rfl rfl id
  split
  · exact .of_queue rfl rfl id
  · exact .of_queue rfl rfl id

/-- Every answer that a register write can give has the invariant. -/
def Keeps (Invariant : VirtioState Device Ram → Prop)
    (answer : Except Failure (ExecuteStatus × VirtioState Device Ram)) : Prop :=
  ∀ status next, answer = .ok (status, next) → Invariant next

section Answers

variable {Invariant : VirtioState Device Ram → Prop} {state : VirtioState Device Ram}

theorem Keeps.ok {status : ExecuteStatus} (holds : Invariant state) :
    Keeps Invariant (.ok (status, state)) := by
  intro status next same
  cases same
  exact holds

theorem Keeps.ite {condition : Prop} [Decidable condition]
    {first second : Except Failure (ExecuteStatus × VirtioState Device Ram)}
    (keepsFirst : Keeps Invariant first) (keepsSecond : Keeps Invariant second) :
    Keeps Invariant (if condition then first else second) := by
  split
  · exact keepsFirst
  · exact keepsSecond

end Answers

/-- What a device keeps, if nothing but its own code touches it. -/
structure KeptBy (guest : GuestMemory Ram) (callbacks : Callbacks Device Ram)
    (Invariant : VirtioState Device Ram → Prop) : Prop where
  frame : ∀ {state changed}, Invariant state → SameRings state changed → Invariant changed
  reset : ∀ {state}, Invariant state → Invariant (state.reset callbacks)
  deviceOk : ∀ {fuel state next}, Invariant state →
    callbacks.onDeviceOk fuel state = .ok next → Invariant next
  notify : ∀ {fuel queueIdx state answer next}, Invariant state →
    state.onDeviceQueueNotify guest callbacks fuel queueIdx = .ok (answer, next) → Invariant next

variable {guest : GuestMemory Ram} {callbacks : Callbacks Device Ram}
  {Invariant : VirtioState Device Ram → Prop} {state : VirtioState Device Ram} {fuel : Nat}

/-- A write of the status resets the device, starts it or leaves it alone. -/
theorem writeStatus_keeps_of (frame : ∀ {changed}, SameRings state changed → Invariant changed)
    (reset : Invariant (state.reset callbacks))
    (deviceOk : ∀ {started next}, SameRings state started →
      callbacks.onDeviceOk fuel started = .ok next → Invariant next) {value : BitVec 32} :
    Keeps Invariant (state.writeStatus callbacks fuel value) := by
  unfold VirtioState.writeStatus
  apply Keeps.ite (.ok reset)
  dsimp only
  apply Keeps.ite (.ok (frame (.of_queue rfl rfl id)))
  apply Keeps.ite
  · apply Keeps.ite
    · exact .ok (frame (.of_queue rfl rfl id))
    · intro status next ran
      obtain ⟨started, starts, ran⟩ := bind_ok.mp ran
      cases ran
      refine deviceOk ?_ starts
      exact .of_queue rfl rfl fun _ => rfl
  · exact .ok (frame (.of_queue rfl rfl id))

theorem writeStatus_keeps (kept : KeptBy guest callbacks Invariant) (holds : Invariant state)
    {value : BitVec 32} : Keeps Invariant (state.writeStatus callbacks fuel value) :=
  writeStatus_keeps_of (kept.frame holds) (kept.reset holds)
    fun same starts => kept.deviceOk (kept.frame holds same) starts

theorem writeQueueNotify_keeps (kept : KeptBy guest callbacks Invariant) (holds : Invariant state)
    {value : BitVec 32} : Keeps Invariant (state.writeQueueNotify guest callbacks fuel value) := by
  intro status next ran
  unfold VirtioState.writeQueueNotify at ran
  split at ran
  · obtain ⟨⟨flush, notified⟩, notifies, ran⟩ := bind_ok.mp ran
    have notified := kept.notify holds notifies
    dsimp only at ran
    split at ran <;> cases ran <;> exact notified
  · cases ran
    exact holds

/-- A register write keeps what its notification of a queue keeps, whatever the guest writes and
wherever. -/
theorem mmioWrite_keeps_of (frame : ∀ {changed}, SameRings state changed → Invariant changed)
    {offset : Word} {value : BitVec 32} {log2Size : Nat}
    (status : Keeps Invariant (state.writeStatus callbacks fuel value))
    (notify : offset = 0x050 → log2Size = 2 →
      Keeps Invariant (state.writeQueueNotify guest callbacks fuel value)) :
    Keeps Invariant (state.mmioWrite guest callbacks fuel offset value log2Size) := by
  have holds : Invariant state := frame (.of_queue rfl rfl id)
  have unrelated : ∀ changed : VirtioState Device Ram, changed.device = state.device →
      changed.queue = state.queue → changed.driverOk = state.driverOk → Invariant changed := by
    intro changed device queue driverOk
    exact frame (.of_queue device queue fun started => driverOk.trans started)
  have selected : ∀ {update : Virtq → Virtq}, (∀ vq, (update vq).lastUsedIdx = vq.lastUsedIdx) →
      Invariant (state.writeSelectedQueue update) := fun keeps =>
    frame (sameRings_writeSelectedQueue state keeps)
  unfold VirtioState.mmioWrite
  apply Keeps.ite (.ok (frame (sameRings_writeConfig state _ _ _)))
  by_cases refused : offset &&& 3 ≠ 0 ∨ log2Size ≠ 2
  · rw [if_pos refused]
    exact .ok holds
  rw [if_neg refused]
  refine Keeps.ite (.ok (unrelated _ rfl rfl rfl)) ?_
  apply Keeps.ite (.ok (frame (sameRings_writeDriverFeatures state value)))
  refine Keeps.ite (.ok (unrelated _ rfl rfl rfl)) ?_
  refine Keeps.ite (.ok (unrelated _ rfl rfl rfl)) ?_
  apply Keeps.ite
  · apply Keeps.ok
    split
    · exact selected fun _ => rfl
    · exact holds
  refine Keeps.ite (.ok (selected fun _ => rfl)) ?_
  by_cases notified : offset = 0x050
  · rw [if_pos notified]
    exact notify notified (not_not.mp fun other => refused (Or.inr other))
  rw [if_neg notified]
  refine Keeps.ite (.ok (unrelated _ rfl rfl rfl)) ?_
  apply Keeps.ite status
  refine Keeps.ite (.ok (selected fun _ => rfl)) ?_
  refine Keeps.ite (.ok (selected fun _ => rfl)) ?_
  refine Keeps.ite (.ok (selected fun _ => rfl)) ?_
  refine Keeps.ite (.ok (selected fun _ => rfl)) ?_
  refine Keeps.ite (.ok (selected fun _ => rfl)) ?_
  refine Keeps.ite (.ok (selected fun _ => rfl)) ?_
  refine Keeps.ite (.ok (unrelated _ rfl rfl rfl)) ?_
  exact .ok holds

/-- No register write spoils what a device keeps, whatever the guest writes and wherever. -/
theorem mmioWrite_keeps (kept : KeptBy guest callbacks Invariant) (holds : Invariant state)
    {offset : Word} {value : BitVec 32} {log2Size : Nat} :
    Keeps Invariant (state.mmioWrite guest callbacks fuel offset value log2Size) :=
  mmioWrite_keeps_of (kept.frame holds) (writeStatus_keeps kept holds)
    fun _ _ => writeQueueNotify_keeps kept holds

end Writes

end MachineEmulator.Virtio
