import Scanout.Property.Descriptor
import Scanout.Proofs.Format.Table

namespace Scanout
namespace Property

def Kind.Declares (kind : Kind) (value : UInt64) : Prop :=
  match kind with
  | .range min max => min.toNat ≤ value.toNat ∧ value.toNat ≤ max.toNat
  | .signedRange min max => min ≤ value.toInt64.toInt ∧ value.toInt64.toInt ≤ max
  | .enumeration values => value ∈ values
  | .bitmask bits => ∀ i < 64, value.toNat.testBit i = true → ∃ bit ∈ bits, bit.toNat = i
  | .blob | .object | .other => True

theorem signed64_eq (value : UInt64) : signed64 value = value.toInt64.toInt :=
  (BitVec.toInt_eq_toNat_bmod value.toBitVec).symm

/-- Each bit that is joined to a word adds its own position. -/
theorem testBit_foldl_or {bits : List UInt64} (h : ∀ bit ∈ bits, bit.toNat < 64) (mask : UInt64)
    (i : Nat) :
    (bits.foldl (fun mask bit => mask ||| ((1 : UInt64) <<< bit)) mask).toNat.testBit i = true ↔
      mask.toNat.testBit i = true ∨ ∃ bit ∈ bits, bit.toNat = i := by
  -- Induction for all masks at once: the first bit is part of the mask for the others.
  induction bits generalizing mask with
  | nil => simp
  | cons bit bits ih =>
    rw [List.forall_mem_cons] at h
    have hbit : ((1 : UInt64) <<< bit).toNat.testBit i = decide (bit.toNat = i) := by
      have hshift := Format.testBit_one_shiftLeft h.1 i
      rwa [UInt64.ofNat_toNat] at hshift
    rw [List.foldl_cons, ih h.2, UInt64.toNat_or, Nat.testBit_or, hbit]
    simp [or_assoc]

theorem testBit_maskOf (bits : List UInt64) (i : Nat) :
    (maskOf bits).toNat.testBit i = true ↔ i < 64 ∧ ∃ bit ∈ bits, bit.toNat = i := by
  have hshort : ∀ bit ∈ bits.filter (· < 64), bit.toNat < 64 := by
    intro bit hbit
    simpa using UInt64.lt_iff_toNat_lt.mp (of_decide_eq_true (List.mem_filter.mp hbit).2)
  -- The mask starts without bits, so all that are in it come from the list.
  rw [maskOf, testBit_foldl_or hshort]
  constructor
  · rintro (hzero | ⟨bit, hbit, rfl⟩)
    · simp at hzero
    · exact ⟨hshort bit hbit, bit, List.mem_of_mem_filter hbit, rfl⟩
  · rintro ⟨hi, bit, hbit, rfl⟩
    refine .inr ⟨bit, List.mem_filter.mpr ⟨hbit, decide_eq_true ?_⟩, rfl⟩
    exact UInt64.lt_iff_toNat_lt.mpr hi

/-- Nothing is left of a word outside of a mask if all of its bits are in the mask. -/
theorem and_not_eq_zero_iff (value mask : UInt64) : value &&& ~~~ mask = 0 ↔
    ∀ i < 64, value.toNat.testBit i = true → mask.toNat.testBit i = true := by
  -- Bit by bit, what remains is set in the value and not in the mask.
  have hbit : ∀ i < 64, (value &&& ~~~ mask).toBitVec.getLsbD i =
      (value.toNat.testBit i && !mask.toNat.testBit i) := by
    intro i hi
    rw [UInt64.toBitVec_and, UInt64.toBitVec_not, BitVec.getLsbD_and, BitVec.getLsbD_not,
      decide_eq_true hi, Bool.true_and]
    rfl
  rw [← UInt64.toBitVec_inj]
  constructor
  · intro hzero i hi hset
    have hnone := hbit i hi
    rw [hzero, hset] at hnone
    simpa using hnone
  · intro h
    refine BitVec.eq_of_getLsbD_eq fun i hi => ?_
    have hone := h i hi
    rw [hbit i hi]
    cases hset : value.toNat.testBit i with
    | false => simp
    | true => simp [hone hset]

/-- A value is accepted exactly when it is one that the property declares. -/
theorem Kind.accepts_iff (kind : Kind) (value : UInt64) :
    kind.accepts value = true ↔ kind.Declares value := by
  cases kind with
  -- The kinds without a declared set of values accept every value.
  | range min max => simp [accepts, Declares, UInt64.le_iff_toNat_le]
  | signedRange min max => simp [accepts, Declares, signed64_eq]
  | enumeration values => simp [accepts, Declares]
  | bitmask bits =>
    simp only [accepts, Declares, beq_iff_eq, and_not_eq_zero_iff, testBit_maskOf]
    exact forall₂_congr fun i hi => imp_congr_right fun _ => and_iff_right hi
  | blob | object | other => simp [accepts, Declares]

theorem Descriptor.accepts_iff (d : Descriptor) (value : UInt64) :
    d.accepts value = true ↔ d.immutable = false ∧ d.kind.Declares value := by
  simp [accepts, Kind.accepts_iff]

/-- Positions past the word add nothing, so no value with a bit set is allowed here. -/
example : (Kind.bitmask [64, 70]).accepts 0 = true ∧ (Kind.bitmask [64, 70]).accepts 1 = false := by
  decide

end Property
end Scanout
