/-
Questbook/Proofs/Decimal/Signs.lean

The signs of floating-point numbers.

A number is unpacked to a sign, a mantissa and an exponent, computed with, rounded and packed again.
Two things are said of it that need no look at the rounding: a square has no negative sign, nor has
a sum of such numbers, so that none of them is below zero; and to negate a number is to flip its
sign, so that it has the same square.

Main results: `not_lt_zero_of_squares`, `neg_mul_neg_self`.
-/
import Mathlib

namespace Questbook.Signs

open Float.Model Float.Model.UnpackedFloat

variable {spec : Format} {s : Sign} {u v : UnpackedFloat}

/-! ### Packing keeps the sign -/

theorem ofBitVec_toBitVec (s : Sign) : Sign.ofBitVec s.toBitVec = s := by
  cases s <;> rfl

theorem unpackSign_packComponents (s : Sign) (e : BitVec spec.exponentBits)
    (m : BitVec spec.mantissaBitsWithoutImplicit) :
    unpackSign (packComponents spec s e m) = s.toBitVec := by
  refine BitVec.eq_of_getLsbD_eq fun i hi => ?_
  obtain rfl : i = 0 := by omega
  simp [unpackSign, packComponents, BitVec.getLsbD_append, BitVec.getElem_append]

/-- Whether a number is without a negative sign, or not a number at all. -/
def Unsigned : UnpackedFloat → Prop
  | .notANumber => True
  | .infinity s => s = .positive
  | .zero s => s = .positive
  | .finite s _ _ _ => s = .positive

theorem Unsigned.exists_pack (spec : Format) (hu : Unsigned u) :
    ∃ e m, UnpackedFloat.pack spec u = packComponents spec .positive e m := by
  unfold UnpackedFloat.pack
  split
  · exact ⟨_, _, rfl⟩
  · obtain rfl := hu
    exact ⟨_, _, rfl⟩
  · obtain rfl := hu
    exact ⟨_, _, rfl⟩
  · obtain rfl := hu
    dsimp only
    split
    · exact ⟨_, _, rfl⟩
    · split <;> exact ⟨_, _, rfl⟩

theorem Unsigned.unpack_pack (hu : Unsigned u) :
    Unsigned (UnpackedFloat.unpack spec (UnpackedFloat.pack spec u)) := by
  obtain ⟨e, m, hpack⟩ := hu.exists_pack spec
  rw [hpack]
  unfold UnpackedFloat.unpack
  simp only [unpackSign_packComponents, ofBitVec_toBitVec]
  split
  · split
    · rfl
    · trivial
  · split
    · split <;> rfl
    · rfl

/-! ### Squares and sums -/

theorem unsigned_roundWithAccuracy (m : Nat) (e : Int) (accuracy : Accuracy) :
    Unsigned (roundWithAccuracy spec .positive m e accuracy) := by
  unfold roundWithAccuracy
  dsimp only
  split <;> rfl

theorem unsigned_normalize {m : Int} (hm : 0 ≤ m) (e : Int) :
    Unsigned (UnpackedFloat.normalize spec m e .positive) := by
  unfold UnpackedFloat.normalize
  split
  · rename_i hlt
    exact absurd (Int.compare_eq_lt.1 hlt) (by omega)
  · rfl
  · exact unsigned_roundWithAccuracy ..

theorem unsigned_mul_self (u : UnpackedFloat) : Unsigned (UnpackedFloat.mul spec u u) := by
  have hsquare : ∀ s : Sign, s * s = .positive := fun s => by cases s <;> rfl
  cases u with
  | notANumber => trivial
  | infinity s => exact hsquare s
  | zero s => exact hsquare s
  | finite s m e hm =>
    show Unsigned (roundWithAccuracy spec (s * s) (m * m) (e + e) .exact)
    rw [hsquare]
    exact unsigned_roundWithAccuracy ..

theorem Unsigned.add (hu : Unsigned u) (hv : Unsigned v) :
    Unsigned (UnpackedFloat.add spec u v) := by
  cases u with
  | notANumber => trivial
  | infinity s =>
    obtain rfl := hu
    cases v with
    | notANumber => trivial
    | infinity t =>
      obtain rfl := hv
      rfl
    | zero t => rfl
    | finite t m e hm => rfl
  | zero s =>
    obtain rfl := hu
    cases v with
    | notANumber => trivial
    | infinity t => exact hv
    | zero t =>
      obtain rfl := hv
      rfl
    | finite t m e hm => exact hv
  | finite s m e hm =>
    obtain rfl := hu
    cases v with
    | notANumber => trivial
    | infinity t => exact hv
    | zero t => rfl
    | finite t m' e' hm' =>
      obtain rfl := hv
      -- Neither is negative, so that nothing cancels.
      exact unsigned_normalize (add_nonneg (Int.natCast_nonneg _) (Int.natCast_nonneg _)) _

theorem Unsigned.lt_zero (hu : Unsigned u) (s : Sign) : u.lt (.zero s) = false := by
  cases u with
  | notANumber => rfl
  | infinity t =>
    obtain rfl := hu
    rfl
  | zero t => rfl
  | finite t m e hm =>
    obtain rfl := hu
    rfl

/-! ### Negation -/

/-- Words that differ in the sign bit only. -/
theorem unpack_of_flipped {b c : BitVec spec.numBits}
    (hexponent : unpackExponent c = unpackExponent b)
    (hmantissa : unpackMantissa c = unpackMantissa b)
    (hsign : Sign.ofBitVec (unpackSign c) = -Sign.ofBitVec (unpackSign b)) :
    UnpackedFloat.unpack spec c = (UnpackedFloat.unpack spec b).neg := by
  unfold UnpackedFloat.unpack
  simp only [hexponent, hmantissa, hsign]
  split_ifs <;> rfl

section

variable {e : BitVec 11} {m : BitVec 52}

theorem pack_normal (he : e ≠ -1#11) (h : 0 < (1#1 ++ m).toNat) :
    UnpackedFloat.pack Format.binary64 (.finite s (1#1 ++ m).toNat ((e.toNat : Int) - 1075) h) =
      packComponents Format.binary64 s e m := by
  have hmantissa : (1#1 ++ m).toNat = 2 ^ 52 + m.toNat := by
    rw [BitVec.toNat_append, ← Nat.shiftLeft_add_eq_or_of_lt m.isLt]
    rfl
  have hlog : (1#1 ++ m).toNat.log2 = 52 := by
    refine (Nat.log2_eq_iff h.ne').2 ⟨?_, ?_⟩ <;> rw [hmantissa]
    · omega
    · have hlt := m.isLt
      omega
  have hexponent : e.toNat < 2047 := by
    have hlt := e.isLt
    have hne : e.toNat ≠ (-1#11).toNat := fun heq => he (BitVec.eq_of_toNat_eq heq)
    have htop : (-1#11).toNat = 2047 := by decide
    omega
  have hbiased : ((e.toNat : Int) - 1075 + Format.binary64.exponentBias +
      Format.binary64.mantissaBitsWithoutImplicit).toNat = e.toNat := by
    simp only [Format.exponentBias]
    norm_num
    omega
  have hword : BitVec.ofNat 52 (1#1 ++ m).toNat = m := by
    refine BitVec.eq_of_toNat_eq ?_
    rw [hmantissa, BitVec.toNat_ofNat, Nat.add_mod_left, Nat.mod_eq_of_lt m.isLt]
  simp only [UnpackedFloat.pack, hbiased]
  rw [if_neg (by norm_num; omega), if_pos (by rw [hlog]; rfl)]
  exact congrArg₂ (packComponents Format.binary64 s) (by simp) hword

theorem pack_subnormal (h : 0 < m.toNat) :
    UnpackedFloat.pack Format.binary64 (.finite s m.toNat (-1074) h) =
      packComponents Format.binary64 s 0#11 m := by
  have hlog : m.toNat.log2 + 1 ≠ Format.binary64.mantissaBits := by
    have hlt := (Nat.log2_lt h.ne').2 m.isLt
    show m.toNat.log2 + 1 ≠ 53
    omega
  have hbiased : ((-1074 : Int) + Format.binary64.exponentBias +
      Format.binary64.mantissaBitsWithoutImplicit).toNat = 1 := by decide
  simp only [UnpackedFloat.pack, hbiased]
  rw [if_neg (by norm_num), if_neg hlog]
  exact congrArg (packComponents Format.binary64 s 0#11) (by simp)

end

/-- Packing flips the sign bit of a negated number and keeps all others. -/
theorem pack_neg_unpack (b : BitVec Format.binary64.numBits)
    (h : UnpackedFloat.unpack Format.binary64 b ≠ .notANumber) :
    UnpackedFloat.pack Format.binary64 (UnpackedFloat.unpack Format.binary64 b).neg =
      packComponents Format.binary64 (-Sign.ofBitVec (unpackSign b)) (unpackExponent b)
        (unpackMantissa b) := by
  revert h
  unfold UnpackedFloat.unpack
  dsimp only
  split
  · rename_i hexponent
    split
    · rename_i hmantissa
      intro _
      rw [hexponent, hmantissa]
      rfl
    · exact fun h => absurd rfl h
  · rename_i hfinite
    split
    · rename_i hexponent
      split
      · rename_i hmantissa
        intro _
        rw [hexponent, hmantissa]
        rfl
      · intro _
        rw [hexponent]
        exact pack_subnormal _
    · intro _
      exact pack_normal hfinite _

theorem unpack_neg (x : Float) : (-x).toModel.unpack = x.toModel.unpack.neg := by
  show UnpackedFloat.unpack Format.binary64 (UnpackedFloat.pack Format.binary64
    (UnpackedFloat.unpack Format.binary64 x.toModel.toBits.toBitVec).neg) = _
  by_cases hnumber : UnpackedFloat.unpack Format.binary64 x.toModel.toBits.toBitVec = .notANumber
  · show _ = (UnpackedFloat.unpack Format.binary64 x.toModel.toBits.toBitVec).neg
    rw [hnumber]
    rfl
  · rw [pack_neg_unpack _ hnumber]
    exact unpack_of_flipped unpackExponent_packComponents unpackMantissa_packComponents
      (by rw [unpackSign_packComponents, ofBitVec_toBitVec])

/-- A number has the square of its negative. -/
theorem neg_mul_neg_self (x : Float) : -x * -x = x * x := by
  have hsquare : ∀ s : Sign, -s * -s = s * s := fun s => by cases s <;> rfl
  show Float.ofModel (Float.Model.pack (UnpackedFloat.mul Format.binary64 (-x).toModel.unpack
    (-x).toModel.unpack)) = Float.ofModel (Float.Model.pack (UnpackedFloat.mul Format.binary64
    x.toModel.unpack x.toModel.unpack))
  rw [unpack_neg]
  cases x.toModel.unpack with
  | notANumber => rfl
  | infinity s => simp only [UnpackedFloat.neg, UnpackedFloat.mul, hsquare]
  | zero s => simp only [UnpackedFloat.neg, UnpackedFloat.mul, hsquare]
  | finite s m e hm => simp only [UnpackedFloat.neg, UnpackedFloat.mul, hsquare]

/-- Both zeros have the square zero. -/
theorem mul_self_of_zero {x : Float} (h : (x == 0) = true) : x * x = 0 := by
  obtain ⟨s, hzero⟩ : ∃ s, x.toModel.unpack = .zero s := by
    have hequal : x.toModel.unpack.beq (.zero .positive) = true := h
    generalize x.toModel.unpack = u at hequal
    cases u with
    | notANumber => cases hequal
    | infinity s => cases s <;> cases hequal
    | zero s => exact ⟨s, rfl⟩
    | finite s m e hm => cases s <;> cases hequal
  show Float.ofModel (Float.Model.pack (UnpackedFloat.mul Format.binary64 x.toModel.unpack
    x.toModel.unpack)) = 0
  rw [hzero]
  cases s <;> rfl

/-! ### Comparison -/

theorem lt_iff (x y : Float) : x < y ↔ x.toModel.unpack.lt y.toModel.unpack = true := by
  show decide _ = true ↔ _
  rw [decide_eq_true_iff]
  rfl

theorem le_iff (x y : Float) : x ≤ y ↔ x.toModel.unpack.le y.toModel.unpack = true := by
  show decide _ = true ↔ _
  rw [decide_eq_true_iff]
  rfl

/-- Both zeros are below the same numbers. -/
theorem zero_lt (s t : Sign) (u : UnpackedFloat) : (zero s).lt u = (zero t).lt u := by
  cases u with
  | notANumber => rfl
  | infinity r => cases r <;> rfl
  | zero r => rfl
  | finite r m e hm => cases r <;> rfl

/-- Positive numbers are compared by their exponents, and then by their mantissas. -/
theorem positive_lt_iff {a m : Nat} {e f : Int} (ha : 0 < a) (hm : 0 < m) :
    (finite .positive a e ha).lt (finite .positive m f hm) = true ↔ e < f ∨ (e = f ∧ a < m) := by
  simp only [UnpackedFloat.lt, UnpackedFloat.compare, beq_iff_eq, Option.some.injEq,
    Ordering.then_eq_lt, compare_lt_iff_lt, compare_eq_iff_eq]

theorem unsigned_square (x : Float) : Unsigned (x * x).toModel.unpack :=
  (unsigned_mul_self x.toModel.unpack).unpack_pack

theorem unsigned_add {x y : Float} (hx : Unsigned x.toModel.unpack)
    (hy : Unsigned y.toModel.unpack) :
    Unsigned (x + y).toModel.unpack :=
  (hx.add hy).unpack_pack

/-- A sum of squares is not below zero, not even if it is not a number. -/
theorem not_lt_zero_of_squares (x y z : Float) : ¬ x * x + y * y + z * z < 0 := by
  have hsum :=
    unsigned_add (unsigned_add (unsigned_square x) (unsigned_square y)) (unsigned_square z)
  have hzero : (0 : Float).toModel.unpack = .zero .positive := rfl
  rw [lt_iff, hzero, hsum.lt_zero]
  exact Bool.false_ne_true

end Questbook.Signs
