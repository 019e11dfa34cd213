import SourceAtlas.Proofs.FusedScores

/-!
# Shares of weights

A weight counts by its share of all weights, in floating point. Shares are not
below zero, no weight has no share, and the whole weight has the share one,
which leaves scores as they are.
-/

namespace SourceAtlas.Search

open Float.Model (UnpackedFloat totalExponent)
open Float.Model.Format (binary64)
open Float.Model.UnpackedFloat

/-! ## Results that need no rounding -/

def Stored (m : Nat) (e : Int) : Prop := m < 2 ^ 53 ∧ -1074 ≤ e ∧ (2 ^ 52 ≤ m ∨ e = -1074)

theorem stored_of_unpack {b : BitVec binary64.numBits} {s : Sign} {m : Nat} {e : Int} {hm : 0 < m}
    (h : unpack binary64 b = .finite s m e hm) : Stored m e := by
  have hexponent := exponent_of_unpack h
  have hbias : binary64.exponentBias = 1023 := rfl
  unfold unpack at h
  dsimp only at h
  split at h
  · split at h <;> cases h
  · split at h
    · rename_i hzero
      split at h
      · cases h
      · obtain ⟨-, rfl, rfl⟩ := UnpackedFloat.finite.inj h
        have hsmall := (unpackMantissa b).isLt
        refine ⟨hsmall.trans (by decide), hexponent, .inr ?_⟩
        rw [hzero, hbias]
        rfl
    · obtain ⟨-, rfl, -⟩ := UnpackedFloat.finite.inj h
      refine ⟨(1#1 ++ unpackMantissa b).isLt, hexponent, .inl ?_⟩
      rw [BitVec.toNat_append, Nat.shiftLeft_eq]
      exact Nat.left_le_or

theorem targetExponent_of_stored {m : Nat} {e : Int} (hm : 0 < m) (h : Stored m e) :
    binary64.targetExponent (totalExponent m e) = e := by
  obtain ⟨hhigh, hmin, hlow⟩ := h
  rw [targetExponent_eq, totalExponent]
  have hlog : m.log2 < 53 := (Nat.log2_lt (Nat.ne_of_gt hm)).2 hhigh
  rcases hlow with hlow | rfl
  · have hlog' : 52 ≤ m.log2 := (Nat.le_log2 (Nat.ne_of_gt hm)).2 hlow
    omega
  · omega

theorem shiftRight_exact (m n : Nat) :
    (⟨m * 2 ^ n, false, false⟩ : ExtendedMantissa) >>> n = ⟨m, false, false⟩ := by
  show n.repeat ExtendedMantissa.shiftRightOne ⟨m * 2 ^ n, false, false⟩ = _
  induction n generalizing m with
  | zero => rw [pow_zero, mul_one, Nat.repeat]
  | succ n ih =>
    have hdouble : m * 2 ^ (n + 1) = m * 2 * 2 ^ n := by rw [pow_succ', mul_assoc]
    rw [Nat.repeat, hdouble, ih, ExtendedMantissa.shiftRightOne]
    simp

theorem log2_shifted {m : Nat} (hm : 0 < m) (n : Nat) : (m * 2 ^ n).log2 = m.log2 + n := by
  induction n with
  | zero => rw [pow_zero, mul_one, Nat.add_zero]
  | succ n ih => rw [pow_succ', mul_left_comm, Nat.log2_two_mul (by positivity), ih, Nat.add_assoc]

theorem totalExponent_shifted {m : Nat} (hm : 0 < m) (e : Int) (n : Nat) :
    totalExponent (m * 2 ^ n) (e - n) = totalExponent m e := by
  rw [totalExponent, totalExponent, log2_shifted hm]
  omega

theorem shiftToTargetExponent_exact {m : Nat} {e : Int} (hm : 0 < m) (h : Stored m e) (n : Nat) :
    shiftToTargetExponent binary64 (m * 2 ^ n) (e - n) .exact = (⟨m, false, false⟩, e) := by
  have hshift : (e - (e - n)).toNat = n := by omega
  rw [shiftToTargetExponent, totalExponent_shifted hm, targetExponent_of_stored hm h, shiftToExponent, hshift]
  exact Prod.ext (shiftRight_exact m n) (by omega)

/-- A number that is stored is its own rounding, however it is written. -/
theorem roundWithAccuracy_exact (s : Sign) {m : Nat} {e : Int} (hm : 0 < m) (h : Stored m e) (n : Nat) :
    roundWithAccuracy binary64 s (m * 2 ^ n) (e - n) .exact = .finite s m e hm := by
  have hfirst := shiftToTargetExponent_exact hm h n
  have hlast := shiftToTargetExponent_exact hm h 0
  have hrounded : (⟨m, false, false⟩ : ExtendedMantissa).roundedMantissa = m := rfl
  rw [pow_zero, mul_one, Nat.cast_zero, sub_zero] at hlast
  unfold roundWithAccuracy
  rw [hfirst]
  dsimp only
  rw [hrounded, hlast]
  exact dif_neg (Nat.ne_of_gt hm)

theorem pack_unpack (x : Float) : (Float.Model.pack x.toModel.unpack).unpack = x.toModel.unpack :=
  congrArg (unpack binary64) (pack_unpack_of_valid x.toModel.valid)

section
variable {x y : Float}

theorem unpack_one_mul {hm : 0 < 2 ^ 52} (hx : x.toModel.unpack = .finite .positive (2 ^ 52) (-52) hm) :
    (x * y).toModel.unpack = y.toModel.unpack := by
  rw [unpack_mul, hx]
  have hstored : ∀ s m e hm, y.toModel.unpack = .finite s m e hm → Stored m e :=
    fun s m e hm h => stored_of_unpack h
  have hmul : UnpackedFloat.mul binary64 (.finite .positive (2 ^ 52) (-52) hm) y.toModel.unpack =
      y.toModel.unpack := by
    generalize y.toModel.unpack = u at hstored
    cases u with
    | notANumber => rfl
    | infinity s => cases s <;> rfl
    | zero s => cases s <;> rfl
    | finite s m e hm =>
      have hsign : Sign.positive * s = s := by cases s <;> rfl
      have hexact := roundWithAccuracy_exact s hm (hstored s m e hm rfl) 52
      rw [UnpackedFloat.mul, hsign, mul_comm, Int.add_comm]
      exact hexact
  rw [hmul, pack_unpack]

theorem unpack_div_self {m : Nat} {e : Int} {hm : 0 < m} (hx : x.toModel.unpack = .finite .positive m e hm) :
    ∃ hone, (x / x).toModel.unpack = .finite .positive (2 ^ 52) (-52) hone := by
  have hcore : divCore binary64 m e m e = (2 ^ 53, -53, .exact) := by
    have htarget : min (e - e) (binary64.targetExponent (totalExponent m e - totalExponent m e)) = -53 := by
      rw [sub_self, sub_self, targetExponent_eq]
      rfl
    have hshift : (e - e - -53).toNat = 53 := by omega
    rw [divCore, htarget, hshift, Nat.shiftLeft_eq, Nat.mul_div_cancel_left _ hm, Nat.mul_mod_right]
    rfl
  have hround : roundWithAccuracy binary64 .positive (2 ^ 52 * 2 ^ 1) (-52 - (1 : Nat)) .exact =
      .finite .positive (2 ^ 52) (-52) (by decide) :=
    roundWithAccuracy_exact .positive (by decide) ⟨by decide, by decide, .inl (by decide)⟩ 1
  have hone : (Float.Model.pack (.finite .positive (2 ^ 52) (-52) (by decide))).unpack =
      .finite .positive (2 ^ 52) (-52) (by decide) := by
    obtain ⟨hm, hone⟩ := unpack_one
    rw [← hone, pack_unpack]
  have hsign : Sign.positive / Sign.positive = .positive := rfl
  refine ⟨by decide, ?_⟩
  rw [unpack_div, hx, UnpackedFloat.div, hcore, hsign]
  dsimp only
  rw [← hone, ← hround]
  norm_num

/-- Adding nothing leaves a number, but for the sign of zero. -/
theorem unpack_add_zero {t : Sign} (hy : y.toModel.unpack = .zero t) : (x + y).toModel.unpack = x.toModel.unpack ∨
    ∃ s s', x.toModel.unpack = .zero s ∧ (x + y).toModel.unpack = .zero s' := by
  have hpack := pack_unpack x
  rw [unpack_add, hy]
  generalize x.toModel.unpack = u at hpack ⊢
  cases u with
  | zero s =>
    right
    cases s <;> cases t <;> exact ⟨_, _, rfl, rfl⟩
  | _ => exact .inl hpack

/-! ## Numbers that are not below zero -/

inductive AtLeastZero : UnpackedFloat → Prop where
  | zero (s : Sign) : AtLeastZero (.zero s)
  | above {u : UnpackedFloat} (h : Above u) : AtLeastZero u

theorem atLeastZero_of_le (h : 0 ≤ x) : AtLeastZero x.toModel.unpack := by
  have hle : (UnpackedFloat.zero .positive).le x.toModel.unpack = true := (VectorIndex.le_iff _ _).1 h
  generalize x.toModel.unpack = u at hle
  cases u with
  | notANumber => cases hle
  | zero s => exact .zero s
  | infinity s | finite s =>
    cases s with
    | negative => cases hle
    | positive => exact .above (by constructor)

theorem unpack_pack_zero (s : Sign) : (Float.Model.pack (.zero s)).unpack = .zero s := by
  cases s <;> rfl

theorem atLeastZero_zero (s : Sign) : AtLeastZero (Float.Model.pack (.zero s)).unpack := by
  rw [unpack_pack_zero]
  exact .zero s

theorem atLeastZero_infinity : AtLeastZero (Float.Model.pack (.infinity .positive)).unpack := by
  have hunpack : (Float.Model.pack (.infinity .positive)).unpack = .infinity .positive := rfl
  rw [hunpack]
  exact .above .infinity

theorem atLeastZero_finite {m : Nat} {e : Int} (hm : 0 < m) :
    AtLeastZero (Float.Model.pack (.finite .positive m e hm)).unpack := by
  show AtLeastZero (unpack binary64 (pack binary64 (.finite .positive m e hm)))
  rcases pack_finite .positive e hm with hpack | ⟨exponent, mantissa, hne, -, hpack⟩
  · rw [hpack]
    exact .above .infinity
  · rw [hpack]
    unfold unpack
    simp only [unpackExponent_packComponents, unpackMantissa_packComponents, unpackSign_packComponents,
      Sign.ofBitVec_toBitVec, if_neg hne]
    split
    · split
      · exact .zero _
      · exact .above (.finite ..)
    · exact .above (.finite ..)

theorem atLeastZero_add (hx : AtLeastZero x.toModel.unpack) (hy : AtLeastZero y.toModel.unpack) :
    AtLeastZero (x + y).toModel.unpack := by
  have hpackx := pack_unpack x
  have hpacky := pack_unpack y
  have hexponent : ∀ z : Float, ∀ s m e hm, z.toModel.unpack = .finite s m e hm → -1074 ≤ e :=
    fun z s m e hm h => exponent_of_unpack h
  have hexponentx := hexponent x
  have hexponenty := hexponent y
  rw [unpack_add]
  generalize x.toModel.unpack = u at hx hpackx hexponentx
  generalize y.toModel.unpack = v at hy hpacky hexponenty
  cases hx with
  | zero s =>
    cases hy with
    | zero t => cases s <;> cases t <;> exact atLeastZero_zero _
    | above hv =>
      cases hv with
      | infinity => exact atLeastZero_infinity
      | finite m e hm =>
        show AtLeastZero (Float.Model.pack (.finite .positive m e hm)).unpack
        rw [hpacky]
        exact .above (.finite ..)
  | above hu =>
    cases hu with
    | infinity =>
      cases hy with
      | zero t => exact atLeastZero_infinity
      | above hv => cases hv <;> exact atLeastZero_infinity
    | finite m e hm =>
      cases hy with
      | zero t =>
        show AtLeastZero (Float.Model.pack (.finite .positive m e hm)).unpack
        rw [hpackx]
        exact .above (.finite ..)
      | above hv =>
        cases hv with
        | infinity => exact atLeastZero_infinity
        | finite m' e' hm' =>
          have he := hexponentx _ _ _ _ rfl
          have he' := hexponenty _ _ _ _ rfl
          refine .above (above_normalize (Int.add_pos (Int.natCast_pos.2 ?_) (Int.natCast_pos.2 ?_)) (by omega))
          all_goals
            rw [Nat.shiftLeft_eq]
            positivity

theorem unpack_zero_div {s : Sign} (hx : x.toModel.unpack = .zero s) (hy : Above y.toModel.unpack) :
    ∃ t, (x / y).toModel.unpack = .zero t := by
  rw [unpack_div, hx]
  generalize y.toModel.unpack = v at hy
  cases hy <;> exact ⟨_, unpack_pack_zero _⟩

/-- A quotient of what is not below zero is not so either, where it is defined. -/
theorem unpack_div_above (hx : AtLeastZero x.toModel.unpack) (hy : Above y.toModel.unpack) :
    (x / y).toModel.unpack = .notANumber ∨ AtLeastZero (x / y).toModel.unpack := by
  rw [unpack_div]
  generalize x.toModel.unpack = u at hx
  generalize y.toModel.unpack = v at hy
  cases hx with
  | zero s =>
    right
    cases hy <;> exact atLeastZero_zero _
  | above hu =>
    cases hu with
    | infinity =>
      cases hy with
      | infinity => exact .inl (unpack_pack_eq_notANumber_iff.2 rfl)
      | finite => exact .inr atLeastZero_infinity
    | finite m e hm =>
      right
      cases hy with
      | infinity => exact atLeastZero_zero _
      | finite m' e' hm' =>
        have hsign : Sign.positive / Sign.positive = .positive := rfl
        rw [UnpackedFloat.div, hsign]
        dsimp only
        unfold roundWithAccuracy
        dsimp only
        split
        · exact atLeastZero_zero _
        · exact atLeastZero_finite _

end

/-! ## Weights -/

section
variable {x y : Float}

theorem unpack_of_zero (h : (x == 0) = true) : ∃ s, x.toModel.unpack = .zero s := by
  have hbeq : x.toModel.unpack.beq (0 : Float).toModel.unpack = true := h
  have hzero : (0 : Float).toModel.unpack = .zero .positive := rfl
  rw [hzero] at hbeq
  generalize x.toModel.unpack = u at hbeq
  cases u with
  | zero s => exact ⟨s, rfl⟩
  | notANumber => cases hbeq
  | infinity s | finite s => cases s <;> cases hbeq

theorem le_zero_of_unpack {s : Sign} (h : x.toModel.unpack = .zero s) : x ≤ 0 := by
  rw [VectorIndex.le_iff, h]
  cases s <;> rfl

theorem zero_le_of_unpack {s : Sign} (h : x.toModel.unpack = .zero s) : 0 ≤ x := by
  rw [VectorIndex.le_iff, h]
  cases s <;> rfl

theorem unpack_of_positive (h : 0 < x) (hfinite : x.isFinite = true) :
    ∃ m e hm, x.toModel.unpack = .finite .positive m e hm := by
  have hlt : Scalar.lt 0 x = true := decide_eq_true h
  have hfinite' : x.toModel.unpack.isFinite = true := hfinite
  rw [lt_eq] at hlt
  have habove := above_of_lt hlt
  generalize x.toModel.unpack = u at habove hfinite'
  cases habove with
  | infinity => cases hfinite'
  | finite m e hm => exact ⟨m, e, hm, rfl⟩

theorem isNegative_eq_false (h : x.toModel.unpack = .notANumber ∨ AtLeastZero x.toModel.unpack) :
    isNegative x = false := by
  have hzero : (ofNat 0 : Float).toModel.unpack = .zero .positive := rfl
  rw [isNegative, lt_eq, hzero]
  generalize x.toModel.unpack = u at h
  rcases h with rfl | ⟨s⟩ | ⟨⟨⟩⟩ <;> rfl

theorem defined_of_add (h : (x + y).isNaN = false) : x.isNaN = false ∧ y.isNaN = false :=
  ⟨Bool.eq_false_iff.2 fun hx => Bool.false_ne_true (h.symm.trans (isNaN_add (.inl hx))),
    Bool.eq_false_iff.2 fun hy => Bool.false_ne_true (h.symm.trans (isNaN_add (.inr hy)))⟩

theorem isNaN_div_undefined (h : y.isNaN = true) : (x / y).isNaN = true := by
  have hdiv : ∀ u : UnpackedFloat, UnpackedFloat.div binary64 u .notANumber = .notANumber := fun u => by
    cases u <;> rfl
  rw [VectorIndex.isNaN_iff, unpack_div, VectorIndex.isNaN_iff.1 h, hdiv]
  rfl

theorem atLeast_of_isNegative (hx : x.isNaN = false) (h : isNegative x = false) : 0 ≤ x := by
  have hzero : (0 : Float).isNaN = false := by decide +kernel
  rw [VectorIndex.le_iff, le_eq_not_lt (isNaN_eq_false_iff.1 hzero) (isNaN_eq_false_iff.1 hx), ← lt_eq]
  exact congrArg not h

theorem isNegative_of_smaller (hx : x.isNaN = false) (hy : y.isNaN = false) (h : isNegative (smaller x y) = false) :
    isNegative x = false ∧ isNegative y = false := by
  have hzero : (ofNat 0 : Float).isNaN = false := by decide +kernel
  have hxy := defined_orders.total x y hx hy
  have hle : ∀ z : Float, isNegative z = false ↔ (!Scalar.lt z (ofNat 0)) = true := by
    intro z
    rw [Bool.not_eq_true']
    rfl
  rw [hle, hle]
  unfold smaller at h
  rw [hle] at h
  by_cases hlt : Scalar.lt y x = true
  · rw [if_pos hlt] at h
    have hge : (!Scalar.lt x y) = true := hxy.resolve_right fun hnot => by simp [hlt] at hnot
    exact ⟨defined_orders.trans _ _ _ hx hy hzero hge h, h⟩
  · rw [if_neg hlt] at h
    exact ⟨h, defined_orders.trans _ _ _ hy hx hzero (by simpa using hlt) h⟩

theorem smaller_of {P : Float → Prop} (hx : P x) (hy : P y) : P (smaller x y) := by
  unfold smaller
  split
  · exact hy
  · exact hx

end

namespace Signals

structure Allowed (w : Signals Float) : Prop where
  vector : 0 ≤ w.vector
  fulltext : 0 ≤ w.fulltext
  graph : 0 ≤ w.graph

def share (w : Signals Float) (x : Float) : Float :=
  if isNegative w.total || isZero w.total then ofNat 0 else x / w.total

variable {w : Signals Float} {x : Float}

theorem normalized_eq (w : Signals Float) :
    w.normalized = ⟨w.share w.vector, w.share w.fulltext, w.share w.graph⟩ := by
  unfold normalized share
  split <;> rfl

theorem Allowed.total (h : w.Allowed) : AtLeastZero w.total.toModel.unpack :=
  atLeastZero_add (atLeastZero_add (atLeastZero_of_le h.vector) (atLeastZero_of_le h.fulltext))
  (atLeastZero_of_le h.graph)

theorem Allowed.share_cases (h : w.Allowed) (x : Float) :
    w.share x = ofNat 0 ∨ Above w.total.toModel.unpack ∧ w.share x = x / w.total := by
  unfold share
  split
  · exact .inl rfl
  · rename_i hguard
    refine .inr ⟨?_, rfl⟩
    have htotal := h.total
    have hnonzero : w.total.toModel.unpack.beq (.zero .positive) = false := by
      rw [Bool.or_eq_true, not_or, Bool.not_eq_true, Bool.not_eq_true] at hguard
      exact hguard.2
    generalize w.total.toModel.unpack = u at htotal hnonzero
    cases htotal with
    | zero s => cases hnonzero
    | above habove => exact habove

theorem Allowed.isNegative_share (h : w.Allowed) (hx : 0 ≤ x) : isNegative (w.share x) = false := by
  rcases h.share_cases x with heq | ⟨habove, heq⟩
  · rw [heq]
    decide +kernel
  · rw [heq]
    exact isNegative_eq_false (unpack_div_above (atLeastZero_of_le hx) habove)

theorem isNegative_least (hv : isNegative w.vector = false) (hf : isNegative w.fulltext = false)
    (hg : isNegative w.graph = false) : isNegative w.least = false :=
  smaller_of (P := fun x => isNegative x = false) (smaller_of (P := fun x => isNegative x = false) hv hf) hg

theorem checked_ok_iff {v : Signals Float} : w.checked = .ok v ↔ isNegative w.least = false ∧ v = w := by
  unfold checked
  cases isNegative w.least with
  | true => exact ⟨fun h => (by cases h), fun h => (by cases h.1)⟩
  | false => exact ⟨fun h => ⟨rfl, (pure_eq_ok.1 h).symm⟩, fun h => pure_eq_ok.2 h.2.symm⟩

/-- Weights that are accepted are allowed, unless they are undefined. -/
theorem allowed_of_least (h : isNegative w.least = false) (hdefined : w.total.isNaN = false) : w.Allowed := by
  obtain ⟨hsum, hg⟩ := defined_of_add hdefined
  obtain ⟨hv, hf⟩ := defined_of_add hsum
  have hvf : (smaller w.vector w.fulltext).isNaN = false := smaller_of (P := fun x => x.isNaN = false) hv hf
  obtain ⟨hleast, hgraph⟩ := isNegative_of_smaller hvf hg h
  obtain ⟨hvector, hfulltext⟩ := isNegative_of_smaller hv hf hleast
  exact ⟨atLeast_of_isNegative hv hvector, atLeast_of_isNegative hf hfulltext, atLeast_of_isNegative hg hgraph⟩

/-- Shares of weights that are accepted are accepted. -/
theorem checked_normalized (h : isNegative w.least = false) : w.normalized.checked = .ok w.normalized := by
  refine checked_ok_iff.2 ⟨?_, rfl⟩
  rw [normalized_eq]
  cases hdefined : w.total.isNaN with
  | false =>
    have hallowed := allowed_of_least h hdefined
    exact isNegative_least (hallowed.isNegative_share hallowed.vector) (hallowed.isNegative_share hallowed.fulltext)
      (hallowed.isNegative_share hallowed.graph)
  | true =>
    have hshare : ∀ x, isNegative (w.share x) = false := by
      intro x
      unfold share
      split
      · decide +kernel
      · exact isNegative_eq_false (.inl (VectorIndex.isNaN_iff.1 (isNaN_div_undefined hdefined)))
    exact isNegative_least (hshare _) (hshare _) (hshare _)

theorem Allowed.share_of_zero (h : w.Allowed) (hx : (x == 0) = true) : w.share x ≤ 0 := by
  obtain ⟨s, hs⟩ := unpack_of_zero hx
  rcases h.share_cases x with heq | ⟨habove, heq⟩
  · rw [heq]
    decide +kernel
  · obtain ⟨t, ht⟩ := unpack_zero_div hs habove
    rw [heq]
    exact le_zero_of_unpack ht

/-- Whether vectors have a weight, which is finite, and the other signals have none. -/
structure VectorAlone (w : Signals Float) : Prop where
  positive : 0 < w.vector
  finite : w.vector.isFinite = true
  fulltext : (w.fulltext == 0) = true
  graph : (w.graph == 0) = true

theorem VectorAlone.allowed (h : w.VectorAlone) : w.Allowed := by
  obtain ⟨m, e, hm, hv⟩ := unpack_of_positive h.positive h.finite
  obtain ⟨s, hf⟩ := unpack_of_zero h.fulltext
  obtain ⟨t, hg⟩ := unpack_of_zero h.graph
  refine ⟨?_, zero_le_of_unpack hf, zero_le_of_unpack hg⟩
  rw [VectorIndex.le_iff, hv]
  rfl

/-- The only weight has the share one, and the others have none. -/
theorem VectorAlone.shares (h : w.VectorAlone) :
    (∃ hm, (w.share w.vector).toModel.unpack = .finite .positive (2 ^ 52) (-52) hm) ∧
      (∃ s, (w.share w.fulltext).toModel.unpack = .zero s) ∧ ∃ s, (w.share w.graph).toModel.unpack = .zero s := by
  obtain ⟨m, e, hm, hv⟩ := unpack_of_positive h.positive h.finite
  obtain ⟨s, hf⟩ := unpack_of_zero h.fulltext
  obtain ⟨t, hg⟩ := unpack_of_zero h.graph
  have hsum : (w.vector + w.fulltext).toModel.unpack = .finite .positive m e hm := by
    rcases unpack_add_zero (x := w.vector) hf with heq | ⟨s, -, hzero, -⟩
    · rw [heq, hv]
    · rw [hv] at hzero
      cases hzero
  have htotal : w.total.toModel.unpack = .finite .positive m e hm := by
    rcases unpack_add_zero (x := w.vector + w.fulltext) hg with heq | ⟨s, -, hzero, -⟩
    · exact heq.trans hsum
    · rw [hsum] at hzero
      cases hzero
  have hnegative : isNegative w.total = false := isNegative_eq_false (.inr h.allowed.total)
  have hnonzero : isZero w.total = false := by
    show w.total.toModel.unpack.beq (ofNat 0 : Float).toModel.unpack = false
    rw [htotal]
    rfl
  have hshare : ∀ x, w.share x = x / w.total := by
    intro x
    rw [share, hnegative, hnonzero]
    rfl
  have hself : (w.share w.vector).toModel.unpack = (w.vector / w.vector).toModel.unpack := by
    rw [hshare, unpack_div, unpack_div, htotal, hv]
  refine ⟨hself ▸ unpack_div_self hv, ?_, ?_⟩
  · rw [hshare]
    exact unpack_zero_div hf (htotal ▸ .finite m e hm)
  · rw [hshare]
    exact unpack_zero_div hg (htotal ▸ .finite m e hm)

end Signals

/-! ## Scores that are weighed -/

/-- Whether two numbers are the same; zero may have two signs, and what is undefined is the same as itself. -/
def Same (x y : Float) : Prop := (x == y) = true ∨ x.isNaN = true ∧ y.isNaN = true

theorem same_of_unpack {x y : Float} (h : x.toModel.unpack = y.toModel.unpack) : Same x y := by
  by_cases hnan : y.toModel.unpack = .notANumber
  · exact .inr ⟨VectorIndex.isNaN_iff.2 (h.trans hnan), VectorIndex.isNaN_iff.2 hnan⟩
  · left
    show x.toModel.unpack.beq y.toModel.unpack = true
    rw [h, number_orders.same_iff _ _ hnan hnan]
    have htotal := number_orders.total _ _ hnan hnan
    exact ⟨htotal.elim id id, htotal.elim id id⟩

theorem same_of_zeros {x y : Float} {s t : Sign} (hx : x.toModel.unpack = .zero s)
    (hy : y.toModel.unpack = .zero t) :
    Same x y := by
  left
  show x.toModel.unpack.beq y.toModel.unpack = true
  rw [hx, hy]
  rfl

theorem unpack_zero_mul {x : Float} {s : Sign} (hx : x.toModel.unpack = .zero s) :
    ∃ t, (x * ofNat 0).toModel.unpack = .zero t := by
  have hzero : (ofNat 0 : Float).toModel.unpack = .zero .positive := rfl
  rw [unpack_mul, hx, hzero]
  exact ⟨_, unpack_pack_zero _⟩

/-- Under the only weight a score counts as it is. -/
theorem Signals.VectorAlone.same_score {w : Signals Float} (h : w.VectorAlone) (score : Float) :
    Same (w.normalized.vector * score + w.normalized.fulltext * ofNat 0 + w.normalized.graph * ofNat 0) score := by
  obtain ⟨⟨hm, hv⟩, ⟨s, hf⟩, ⟨t, hg⟩⟩ := h.shares
  obtain ⟨s', hf'⟩ := unpack_zero_mul hf
  obtain ⟨t', hg'⟩ := unpack_zero_mul hg
  rw [Signals.normalized_eq]
  dsimp only
  have hscore := unpack_one_mul (y := score) hv
  generalize w.share w.vector * score = x at *
  generalize w.share w.fulltext * ofNat 0 = y at *
  generalize w.share w.graph * ofNat 0 = z at *
  rcases unpack_add_zero (x := x) hf' with hxy | ⟨a, b, hx, hxy⟩ <;>
    rcases unpack_add_zero (x := x + y) hg' with hxyz | ⟨a', b', hxy', hxyz⟩
  · exact same_of_unpack (hxyz.trans (hxy.trans hscore))
  · exact same_of_zeros hxyz (hscore.symm.trans (hxy.symm.trans hxy'))
  · exact same_of_zeros (hxyz.trans hxy) (hscore.symm.trans hx)
  · exact same_of_zeros hxyz (hscore.symm.trans hx)

end SourceAtlas.Search
