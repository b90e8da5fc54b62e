/-
This file shows that the offset of a name stays the offset of its text in the strings block.
-/

import MachineEmulator.Proof.Fdt.PutWords

namespace MachineEmulator.Fdt

open DeviceTree

section Names

theorem stringsSize_insert {names : Finset Bytes} {name : Bytes} (fresh : name ∉ names) :
    stringsSize (insert name names) = stringsSize names + (name.length + 1) := by
  rw [stringsSize, Finset.sum_insert fresh, stringsSize, add_comm]

theorem stringsSize_mono {names more : Finset Bytes} (subset : names ⊆ more) :
    stringsSize names ≤ stringsSize more := Finset.sum_le_sum_of_subset subset

/-- A text is found at its offset in whatever extends the strings. -/
theorem readString_drop {strings more name : Bytes} {offset : Nat}
    (found : readString (strings.drop offset) = some name) (longer : strings <+: more) :
    readString (more.drop offset) = some name := by
  obtain ⟨rest, rfl⟩ := longer
  rw [List.drop_append]
  exact readString_append found _

end Names

namespace FDTBuilder

def keys (fdt : FDTBuilder) : Finset Bytes := (fdt.dtStringsMap.map Prod.fst).toFinset

/-- Each name of the map has its text at its offset, once and behind the text of before. -/
structure StringsKept (before : Nat) (fdt : FDTBuilder) : Prop where
  filled : fdt.dtStrings.length = before + stringsSize fdt.keys
  found : ∀ name off, fdt.dtStringsMap.lookup name = some off →
    readString (fdt.dtStrings.drop off.toNat) = some name

variable {before : Nat} {fdt : FDTBuilder}

@[simp] theorem keys_put (bytes : Bytes) : (fdt.put bytes).keys = fdt.keys := rfl

theorem StringsKept.put (kept : fdt.StringsKept before) (bytes : Bytes) :
    (fdt.put bytes).StringsKept before := ⟨kept.filled, kept.found⟩

theorem lookup_eq_none {name : Bytes} : fdt.dtStringsMap.lookup name = none ↔ name ∉ fdt.keys := by
  simp only [keys, List.lookup_eq_none_iff, List.mem_toFinset, List.mem_map, not_exists, not_and,
    bne_iff_ne]
  exact forall₂_congr fun _ _ => ne_comm

theorem StringsKept.add (kept : fdt.StringsKept before) {name : Bytes} (clean : 0 ∉ name)
    (fresh : name ∉ fdt.keys) (small : fdt.dtStrings.length < 2 ^ 32) :
    FDTBuilder.StringsKept before { fdt with
      dtStrings := fdt.dtStrings ++ (name ++ [0])
      dtStringsMap := (name, BitVec.ofNat 32 fdt.dtStrings.length) :: fdt.dtStringsMap } := by
  constructor
  · have named : FDTBuilder.keys { fdt with
        dtStrings := fdt.dtStrings ++ (name ++ [0])
        dtStringsMap := (name, BitVec.ofNat 32 fdt.dtStrings.length) :: fdt.dtStringsMap } =
        insert name fdt.keys := by simp [keys]
    have filled := kept.filled
    simp only [named, stringsSize_insert fresh, List.length_append, List.length_singleton]
    omega
  · intro other off found
    by_cases same : other = name
    · subst same
      rw [List.lookup_cons_self, Option.some.injEq] at found
      rw [← found, BitVec.toNat_ofNat, Nat.mod_eq_of_lt small, List.drop_left]
      exact readString_cString clean
    · have different : (other == name) = false := beq_false_of_ne same
      rw [List.lookup_cons, different] at found
      exact readString_drop (kept.found other off found) (List.prefix_append _ _)

/-- The name has an offset at which its text is found. -/
theorem getStringOffset_found (kept : fdt.StringsKept before) {name : Bytes} (clean : 0 ∉ name)
    (small : before + stringsSize (insert name fdt.keys) < 2 ^ 32) :
    (fdt.getStringOffset name).2.StringsKept before ∧
    (fdt.getStringOffset name).2.keys = insert name fdt.keys ∧
    fdt.dtStrings <+: (fdt.getStringOffset name).2.dtStrings ∧
    readString ((fdt.getStringOffset name).2.dtStrings.drop (fdt.getStringOffset name).1.toNat) =
      some name := by
  cases found : fdt.dtStringsMap.lookup name with
  | some off =>
      have member : name ∈ fdt.keys := by
        by_contra fresh
        simp [lookup_eq_none.mpr fresh] at found
      simp only [getStringOffset, found]
      exact ⟨kept, (Finset.insert_eq_of_mem member).symm, List.prefix_refl _, kept.found _ _ found⟩
  | none =>
      have fresh := lookup_eq_none.mp found
      have filled := kept.filled
      have fewer := stringsSize_mono (Finset.subset_insert name fdt.keys)
      have added := kept.add clean fresh (by omega)
      simp only [getStringOffset, found]
      refine ⟨added, by simp [keys], List.prefix_append _ _, ?_⟩
      apply added.found
      exact List.lookup_cons_self

theorem getStringOffset_dtStruct (name : Bytes) :
    (fdt.getStringOffset name).2.dtStruct = fdt.dtStruct := by
  unfold getStringOffset
  split <;> rfl

theorem getStringOffset_openNodeCount (name : Bytes) :
    (fdt.getStringOffset name).2.openNodeCount = fdt.openNodeCount := by
  unfold getStringOffset
  split <;> rfl

end FDTBuilder

end MachineEmulator.Fdt
