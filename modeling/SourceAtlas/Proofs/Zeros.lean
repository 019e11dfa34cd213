import SourceAtlas.Proofs.Shares

/-!
# Zeros

A floating point number equals zero just if its exact value is zero. So keys
that are equal, in whatever form, have content or have none together.
-/

namespace SourceAtlas

/-! ## Exact values -/

namespace Decimal

theorem scaled_eq_zero_iff {m : Nat} {q : Int} : (scaled m 2 q).1 = 0 ↔ m = 0 := by
  unfold scaled
  split
  · simp [Nat.pow_eq]
  · rfl

theorem scaled_snd_ne_zero (m : Nat) (q : Int) : (scaled m 2 q).2 ≠ 0 := by
  unfold scaled
  split
  · simp
  · simp [Nat.pow_eq]

/-- The exponent and the fraction of what has the exact value zero are zero. -/
theorem ofFloat_eq_zero_iff {x : Float} : Extended.ofFloat x = .exact 0 ↔
    x.toBits.toNat / 2 ^ 52 % 2 ^ 11 = 0 ∧ x.toBits.toNat % 2 ^ 52 = 0 := by
  have hvalue : Extended.ofFloat x = .exact 0 ↔ ∃ negative q, Binary.ofFloat x = .finite negative 0 q := by
    unfold Extended.ofFloat
    cases Binary.ofFloat x with
    | nan => simp
    | infinite negative => simp
    | finite negative m q =>
      have hd := scaled_snd_ne_zero m q
      cases negative <;> simp [Rat.mkRat_eq_zero hd, scaled_eq_zero_iff]
  rw [hvalue]
  unfold Binary.ofFloat
  simp only [Nat.pow_eq]
  generalize x.toBits.toNat / 2 ^ 52 % 2 ^ 11 = e
  generalize x.toBits.toNat % 2 ^ 52 = f
  split
  · rename_i hlast
    split <;> simp [hlast]
  · split
    · rename_i hzero
      simp [hzero]
    · rename_i hnonzero
      simp [hnonzero]

end Decimal

/-! ## Bits -/

namespace Search

open Float.Model (UnpackedFloat)
open Float.Model.Format (binary64)
open Float.Model.UnpackedFloat

theorem unpack_eq_zero_iff {b : BitVec binary64.numBits} : (∃ s, unpack binary64 b = .zero s) ↔
    unpackExponent b = 0#_ ∧ unpackMantissa b = 0#_ := by
  unfold unpack
  dsimp only
  split
  · rename_i hlast
    have hne : unpackExponent b ≠ 0#_ := by
      rw [hlast]
      decide
    split <;> simp [hne]
  · split
    · rename_i hzero
      split
      · rename_i hmantissa
        simp [hzero, hmantissa]
      · rename_i hmantissa
        simp [hmantissa]
    · rename_i hnonzero
      simp [hnonzero]

theorem beq_zero_iff {x : Float} : (x == 0) = true ↔ Decimal.Extended.ofFloat x = .exact 0 := by
  have hunpack : (x == 0) = true ↔ ∃ s, unpack binary64 x.toBits.toBitVec = .zero s := by
    constructor
    · exact unpack_of_zero
    · rintro ⟨s, hs⟩
      have hbeq : (x == 0) = (unpack binary64 x.toBits.toBitVec).beq (.zero .positive) := rfl
      rw [hbeq, hs]
      rfl
  have hexponent : (@unpackExponent binary64 x.toBits.toBitVec).toNat = x.toBits.toNat / 2 ^ 52 % 2 ^ 11 := by
    simp [unpackExponent, Nat.shiftRight_eq_div_pow]
  have hmantissa : (@unpackMantissa binary64 x.toBits.toBitVec).toNat = x.toBits.toNat % 2 ^ 52 := by
    simp [unpackMantissa]
  rw [hunpack, unpack_eq_zero_iff, Decimal.ofFloat_eq_zero_iff, ← hexponent, ← hmantissa]
  simp [← BitVec.toNat_inj]

end Search

/-! ## Keys -/

namespace Json.Key

/-- Null has no content, and neither have zero and the empty text. -/
def Rank.hollow : Rank → Bool
  | .nothing => true
  | .number x => x == .exact 0
  | .text s => s == ""

theorem truthy_toValue (k : Key) : k.toValue.truthy = !k.rank.hollow := by
  cases k with
  | null => rfl
  | bool b => cases b <;> simp [toValue, Value.truthy, rank, Rank.hollow, Decimal.Extended.ofInt]
  | int n => simp [toValue, Value.truthy, rank, Rank.hollow, Decimal.Extended.ofInt, bne]
  | float x =>
    have hzero : (x == 0) = (Decimal.Extended.ofFloat x == .exact 0) := by
      rw [Bool.eq_iff_iff, Search.beq_zero_iff, beq_iff_eq]
    simp [toValue, Value.truthy, rank, Rank.hollow, bne, hzero]
  | str s => simp [toValue, Value.truthy, rank, Rank.hollow, bne]

theorem truthy_congr {j k : Key} (h : (j == k) = true) : j.toValue.truthy = k.toValue.truthy := by
  rw [truthy_toValue, truthy_toValue, (beq_iff j k).1 h]

end Json.Key

end SourceAtlas
