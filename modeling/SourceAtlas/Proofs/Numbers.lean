import Mathlib.Tactic.Positivity
import SourceAtlas.Proofs.Neighbours

/-!
# Calculating with numbers

What becomes of scores in floating point: what is undefined stays undefined,
and one more than a number that is not below zero is above zero, however large
or small the number is. Scores other than those that are undefined are in order.
-/

namespace SourceAtlas.Search

open Float.Model (UnpackedFloat Format totalExponent)
open Float.Model.Format (binary64)
open Float.Model.UnpackedFloat
open Json (Key)

/-! ## Rounding -/

/-- Whether a mantissa and an exponent have a place among the numbers, but for being too large. -/
def Rounded (m : Nat) (e : Int) : Prop := 0 < m ∧ m < 2 ^ 53 ∧ -1074 ≤ e

theorem targetExponent_eq (t : Int) : binary64.targetExponent t = max (t - 53) (-1074) := rfl

theorem mantissa_shiftRight (em : ExtendedMantissa) (n : Nat) : (em >>> n).mantissa = em.mantissa / 2 ^ n := by
  show (n.repeat ExtendedMantissa.shiftRightOne em).mantissa = _
  induction n with
  | zero => exact (Nat.div_one _).symm
  | succ n ih =>
    rw [Nat.repeat, pow_succ, ← Nat.div_div_eq_div_mul, ← ih]
    rfl

theorem mantissa_le_roundedMantissa (em : ExtendedMantissa) : em.mantissa ≤ em.roundedMantissa := by
  rcases em with ⟨m, _ | _, _ | _⟩ <;>
    simp only [ExtendedMantissa.roundedMantissa, ExtendedMantissa.accuracy, Accuracy.roundToNearestEven] <;> omega

theorem mantissa_ofMantissaAndAccuracy (m : Nat) (a : Accuracy) :
    (ExtendedMantissa.ofMantissaAndAccuracy m a).mantissa = m := by
  rcases a with _ | ⟨_ | _ | _⟩ <;> rfl

/-- Shifting leaves something of a mantissa, in 53 bits at most. -/
theorem rounded_shiftToTargetExponent {m : Nat} {e : Int} (a : Accuracy) (hm : 0 < m) (he : -1074 ≤ e) :
    let r := shiftToTargetExponent binary64 m e a
    Rounded r.1.mantissa r.2 := by
  have hlow := Nat.log2_self_le (Nat.ne_of_gt hm)
  have hhigh := @Nat.lt_log2_self m
  simp only [shiftToTargetExponent, shiftToExponent, mantissa_shiftRight, mantissa_ofMantissaAndAccuracy,
    targetExponent_eq, totalExponent]
  generalize m.log2 = bits at *
  by_cases hbits : 52 ≤ bits
  · have hshift : (max ((bits : Int) + 1 + e - 53) (-1074) - e).toNat = bits - 52 := by omega
    rw [hshift]
    have hlow' : 2 ^ bits = 2 ^ 52 * 2 ^ (bits - 52) := by
      rw [← pow_add]
      congr 1
      omega
    have hhigh' : 2 ^ (bits + 1) = 2 ^ 53 * 2 ^ (bits - 52) := by
      rw [← pow_add]
      congr 1
      omega
    refine ⟨Nat.div_pos ?_ (by positivity), ?_, by omega⟩
    · exact (Nat.le_mul_of_pos_left _ (by positivity)).trans (hlow' ▸ hlow)
    · rwa [Nat.div_lt_iff_lt_mul (by positivity), ← hhigh']
  · have hshift : (max ((bits : Int) + 1 + e - 53) (-1074) - e).toNat = 0 := by omega
    rw [hshift, pow_zero, Nat.div_one]
    exact ⟨hm, hhigh.trans_le (Nat.pow_le_pow_right (by decide) (by omega)), by omega⟩

theorem rounded_round (s : Sign) {m : Nat} {e : Int} (hm : 0 < m) (he : -1074 ≤ e) :
    ∃ n d hn, UnpackedFloat.round binary64 s m e = .finite s n d hn ∧ Rounded n d := by
  unfold UnpackedFloat.round
  dsimp only [decreaseExponent, targetExponent_eq]
  have hshifted : 0 < m <<< (e - max (totalExponent m e - 53) (-1074)).toNat := by
    rw [Nat.shiftLeft_eq]
    positivity
  have hexponent : -1074 ≤ e - (e - max (totalExponent m e - 53) (-1074)).toNat := by omega
  have hfirst := rounded_shiftToTargetExponent .exact hshifted hexponent
  unfold roundWithAccuracy
  generalize shiftToTargetExponent binary64 _ _ .exact = first at hfirst ⊢
  obtain ⟨em, d⟩ := first
  dsimp only at hfirst ⊢
  have hlast := rounded_shiftToTargetExponent .exact (hfirst.1.trans_le (mantissa_le_roundedMantissa em)) hfirst.2.2
  generalize shiftToTargetExponent binary64 em.roundedMantissa d .exact = last at hlast ⊢
  rw [dif_neg (Nat.ne_of_gt hlast.1)]
  exact ⟨_, _, hlast.1, rfl, hlast⟩

theorem roundWithAccuracy_defined (s : Sign) (m : Nat) (e : Int) (a : Accuracy) :
    roundWithAccuracy binary64 s m e a ≠ .notANumber := by
  unfold roundWithAccuracy
  generalize shiftToTargetExponent binary64 m e a = first
  obtain ⟨em, d⟩ := first
  dsimp only
  generalize shiftToTargetExponent binary64 em.roundedMantissa d .exact = last
  by_cases hzero : last.1.mantissa = 0
  · rw [dif_pos hzero]
    nofun
  · rw [dif_neg hzero]
    nofun

/-! ## Packing -/

theorem unpack_cases (b : BitVec binary64.numBits) :
    (unpackExponent b = -1#_ ∧ unpackMantissa b = 0#_ ∧ ∃ s, unpack binary64 b = .infinity s) ∨
    (unpackExponent b = -1#_ ∧ unpackMantissa b ≠ 0#_ ∧ unpack binary64 b = .notANumber) ∨
    (unpackExponent b ≠ -1#_ ∧ unpack binary64 b ≠ .notANumber ∧
      ∀ s m e hm, unpack binary64 b = .finite s m e hm → -1074 ≤ e) := by
  have hbias : binary64.exponentBias = 1023 := rfl
  unfold unpack
  dsimp only
  rw [hbias]
  by_cases hones : unpackExponent b = -1#_
  · rw [if_pos hones]
    by_cases hmantissa : unpackMantissa b = 0#_
    · rw [if_pos hmantissa]
      exact .inl ⟨hones, hmantissa, _, rfl⟩
    · rw [if_neg hmantissa]
      exact .inr (.inl ⟨hones, hmantissa, rfl⟩)
  rw [if_neg hones]
  by_cases hzero : unpackExponent b = 0#_
  · rw [if_pos hzero]
    by_cases hmantissa : unpackMantissa b = 0#_
    · rw [dif_pos hmantissa]
      exact .inr (.inr ⟨hones, nofun, nofun⟩)
    · rw [dif_neg hmantissa]
      refine .inr (.inr ⟨hones, nofun, fun s m e hm h => ?_⟩)
      obtain ⟨-, -, rfl⟩ := UnpackedFloat.finite.inj h
      rw [hzero]
      decide
  · rw [if_neg hzero]
    refine .inr (.inr ⟨hones, nofun, fun s m e hm h => ?_⟩)
    obtain ⟨-, -, rfl⟩ := UnpackedFloat.finite.inj h
    have hpos : (unpackExponent b).toNat ≠ 0 := fun hsame => hzero (BitVec.eq_of_toNat_eq hsame)
    omega

theorem unpack_eq_notANumber_iff {b : BitVec binary64.numBits} : unpack binary64 b = .notANumber ↔
    unpackExponent b = -1#_ ∧ unpackMantissa b ≠ 0#_ := by
  rcases unpack_cases b with ⟨-, hzero, s, h⟩ | ⟨hones, hmantissa, h⟩ | ⟨hones, h, -⟩
  · rw [h]
    exact ⟨nofun, fun hall => absurd hzero hall.2⟩
  · exact ⟨fun _ => ⟨hones, hmantissa⟩, fun _ => h⟩
  · exact ⟨fun hsame => absurd hsame h, fun hall => absurd hall.1 hones⟩

/-- A finite number is packed with an exponent of its own, unless it is too large. -/
theorem pack_finite (s : Sign) {m : Nat} (e : Int) (hm : 0 < m) :
    pack binary64 (.finite s m e hm) = packedInfinity binary64 s ∨ ∃ exponent mantissa, exponent ≠ -1#_ ∧
      (Rounded m e → exponent ≠ 0#_ ∨ mantissa ≠ 0#_) ∧
      pack binary64 (.finite s m e hm) = packComponents binary64 s exponent mantissa := by
  have hbias : binary64.exponentBias = 1023 := rfl
  have hbits : binary64.mantissaBits = 53 := rfl
  unfold pack
  dsimp only
  rw [hbias, hbits]
  split
  · exact .inl rfl
  rename_i hsmall
  split
  · refine .inr ⟨_, _, fun hall => ?_, fun h => .inl fun hzero => ?_, rfl⟩
    · have hsame := congrArg BitVec.toNat hall
      rw [BitVec.toNat_ofNat] at hsame
      have hlast : (-1#11).toNat = 2047 := rfl
      omega
    · have hsame := congrArg BitVec.toNat hzero
      rw [BitVec.toNat_ofNat, BitVec.toNat_zero] at hsame
      have hlow := h.2.2
      omega
  · rename_i hshort
    refine .inr ⟨_, _, by decide, fun h => .inr fun hzero => ?_, rfl⟩
    have hsame := congrArg BitVec.toNat hzero
    rw [BitVec.toNat_ofNat, BitVec.toNat_zero] at hsame
    have hlog := (Nat.log2_lt (Nat.ne_of_gt hm)).2 h.2.1
    have hsubnormal : m < 2 ^ 52 := (Nat.log2_lt (Nat.ne_of_gt hm)).1 (by omega)
    omega

/-- Only what is undefined is packed as such. -/
theorem unpack_pack_eq_notANumber_iff {u : UnpackedFloat} :
    (Float.Model.pack u).unpack = .notANumber ↔ u = .notANumber := by
  show unpack binary64 (pack binary64 u) = .notANumber ↔ _
  rw [unpack_eq_notANumber_iff]
  cases u with
  | notANumber => simp only [iff_true]; decide
  | infinity s => cases s <;> simp only [reduceCtorEq, iff_false] <;> decide
  | zero s => cases s <;> simp only [reduceCtorEq, iff_false] <;> decide
  | finite s m e hm =>
    refine ⟨fun h => ?_, nofun⟩
    rcases pack_finite s e hm with hpack | ⟨exponent, mantissa, hne, -, hpack⟩
    · rw [hpack, packedInfinity, unpackMantissa_packComponents] at h
      exact absurd rfl h.2
    · rw [hpack, unpackExponent_packComponents] at h
      exact absurd h.1 hne

theorem unpackSign_positive (exponent : BitVec binary64.exponentBits)
    (mantissa : BitVec binary64.mantissaBitsWithoutImplicit) :
    unpackSign (packComponents binary64 .positive exponent mantissa) = 0#1 := by
  show (0#1 ++ exponent ++ mantissa).extractLsb' 63 1 = 0#1
  rw [BitVec.extractLsb'_append_eq_of_le (by decide), BitVec.extractLsb'_append_eq_of_le (by decide)]
  rfl

theorem above_unpack {b : BitVec binary64.numBits} (hsign : unpackSign b = 0#1) (hones : unpackExponent b ≠ -1#_)
    (h : unpackExponent b ≠ 0#_ ∨ unpackMantissa b ≠ 0#_) : Above (unpack binary64 b) := by
  unfold unpack
  dsimp only
  rw [hsign, if_neg hones]
  by_cases hzero : unpackExponent b = 0#_
  · rw [if_pos hzero, dif_neg (h.resolve_left (not_not_intro hzero))]
    exact .finite ..
  · rw [if_neg hzero]
    exact .finite ..

theorem above_unpack_pack {m : Nat} {e : Int} (hm : 0 < m) (h : Rounded m e) :
    Above (Float.Model.pack (.finite .positive m e hm)).unpack := by
  show Above (unpack binary64 (pack binary64 (.finite .positive m e hm)))
  rcases pack_finite .positive e hm with hpack | ⟨exponent, mantissa, hne, hsome, hpack⟩
  · rw [hpack]
    exact .infinity
  · rw [hpack]
    refine above_unpack (unpackSign_positive ..) ?_ ?_
    · rwa [unpackExponent_packComponents]
    · rw [unpackExponent_packComponents, unpackMantissa_packComponents]
      exact hsome h

/-! ## Calculating -/

section
variable {x y : Float}

theorem isNaN_eq_false_iff : x.isNaN = false ↔ x.toModel.unpack ≠ .notANumber := by
  rw [← Bool.not_eq_true, VectorIndex.isNaN_iff]

theorem unpack_add (x y : Float) :
    (x + y).toModel.unpack =
      (Float.Model.pack (UnpackedFloat.add binary64 x.toModel.unpack y.toModel.unpack)).unpack := rfl

theorem unpack_mul (x y : Float) :
    (x * y).toModel.unpack =
      (Float.Model.pack (UnpackedFloat.mul binary64 x.toModel.unpack y.toModel.unpack)).unpack := rfl

theorem unpack_div (x y : Float) :
    (x / y).toModel.unpack =
      (Float.Model.pack (UnpackedFloat.div binary64 x.toModel.unpack y.toModel.unpack)).unpack := rfl

theorem isNaN_add (h : x.isNaN = true ∨ y.isNaN = true) : (x + y).isNaN = true := by
  simp only [VectorIndex.isNaN_iff] at *
  rw [unpack_add, unpack_pack_eq_notANumber_iff]
  rcases h with h | h <;> rw [h]
  · rfl
  · cases x.toModel.unpack <;> rfl

theorem isNaN_mul (h : y.isNaN = true) : (x * y).isNaN = true := by
  rw [VectorIndex.isNaN_iff] at *
  rw [unpack_mul, unpack_pack_eq_notANumber_iff, h]
  cases x.toModel.unpack <;> rfl

theorem isNaN_div (h : x.isNaN = true) : (x / y).isNaN = true := by
  rw [VectorIndex.isNaN_iff] at *
  rw [unpack_div, unpack_pack_eq_notANumber_iff, h]
  rfl

theorem exponent_of_unpack {b : BitVec binary64.numBits} {s : Sign} {m : Nat} {e : Int} {hm : 0 < m}
    (h : unpack binary64 b = .finite s m e hm) : -1074 ≤ e := by
  rcases unpack_cases b with ⟨-, -, s', h'⟩ | ⟨-, -, h'⟩ | ⟨-, -, hlow⟩
  case inr.inr => exact hlow s m e hm h
  all_goals
    rw [h] at h'
    cases h'

theorem unpack_one : ∃ hm, (ofNat 1 : Float).toModel.unpack = .finite .positive (2 ^ 52) (-52) hm :=
  ⟨by decide, rfl⟩

/-- What is above zero before it is rounded is so afterwards. -/
theorem above_normalize {m : Int} {e : Int} (hm : 0 < m) (he : -1074 ≤ e) :
    Above (Float.Model.pack (normalize binary64 m e .positive)).unpack := by
  have hcompare : compare m 0 = .gt := Int.compare_eq_gt.2 hm
  obtain ⟨n, d, hn, hround, hrounded⟩ := rounded_round .positive (m := m.toNat) (by omega) he
  unfold UnpackedFloat.normalize
  rw [hcompare]
  dsimp only
  rw [hround]
  exact above_unpack_pack hn hrounded

/-- One more than what is not below zero is above zero. -/
theorem above_succ (h : 0 ≤ x) : Above (x + ofNat 1).toModel.unpack := by
  obtain ⟨hone, hunpack⟩ := unpack_one
  have hle : (UnpackedFloat.zero .positive).le x.toModel.unpack = true := (VectorIndex.le_iff _ _).1 h
  have hexponent : ∀ s m e hm, x.toModel.unpack = .finite s m e hm → -1074 ≤ e :=
    fun s m e hm hx => exponent_of_unpack hx
  rw [unpack_add, hunpack]
  generalize x.toModel.unpack = u at hle hexponent
  cases u with
  | notANumber => cases hle
  | infinity s =>
    cases s with
    | negative => cases hle
    | positive =>
      show Above (unpack binary64 (packedInfinity binary64 .positive))
      exact .infinity
  | zero s => exact above_unpack_pack hone ⟨by decide, by decide, by decide⟩
  | finite s m e hm =>
    cases s with
    | negative => cases hle
    | positive =>
      have he := hexponent _ _ _ _ rfl
      refine above_normalize (Int.add_pos (Int.natCast_pos.2 ?_) (Int.natCast_pos.2 ?_)) (by omega)
      all_goals
        rw [Nat.shiftLeft_eq]
        positivity

theorem isZero_succ (h : 0 ≤ x) : isZero (x + ofNat 1) = false := by
  have habove := above_succ h
  show (x + ofNat 1).toModel.unpack.beq (ofNat 0 : Float).toModel.unpack = false
  generalize (x + ofNat 1).toModel.unpack = u at habove
  cases habove <;> rfl

theorem isNaN_nearness {r : Related Float} (h : 0 ≤ r.distance) :
    (ofNat 1 / (r.distance + ofNat 1) : Float).isNaN = false := by
  have habove := above_succ h
  obtain ⟨hone, hunpack⟩ := unpack_one
  rw [isNaN_eq_false_iff, unpack_div, ne_eq, unpack_pack_eq_notANumber_iff, hunpack]
  generalize (r.distance + ofNat 1).toModel.unpack = u at habove
  cases habove with
  | infinity => nofun
  | finite m e hm =>
    exact roundWithAccuracy_defined _ _ _ _

end

end SourceAtlas.Search
