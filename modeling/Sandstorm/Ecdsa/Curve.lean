import Sandstorm.Binary.Semantics

/-!
# The curve of the ECDSA builtin

The ECDSA builtin computes in `Projective<Curve>`, the group of points of the STARK curve,
and looks at a point only through `Affine::from`: it compares affine `x`-coordinates, and
hands affine points to `calculate_slope`. A `Curve` is that interface: the group of points
`E` (`+`, `-`, and `double_in_place` as `P + P`), the affine coordinates over the base
field `ZMod p` (the identity reads as `x = 0`, like `Affine::identity()`), the generator,
`SHIFT_POINT`, and the two constructors `verify` uses, with the facts about them the
builtin relies on as fields.

* `bits_le_iff`: `BigUint::bits` against powers of two.
* `cyclicCurve`: a stand-in curve on the cyclic group `ZMod n`, on which runs of the
  builtin can be evaluated.
-/

namespace Sandstorm

/-- The curve as the ECDSA builtin uses it. -/
structure Curve (p : ℕ) (E : Type) [AddCommGroup E] where
  /-- `Affine::from(P).x`. -/
  x : E → ZMod p
  /-- `Affine::from(P).y`. -/
  y : E → ZMod p
  /-- `Curve::COEFF_A`. -/
  coeffA : ZMod p
  /-- `Curve::GENERATOR`. -/
  generator : E
  /-- `SHIFT_POINT`. -/
  shiftPoint : E
  /-- `Affine::get_ys_from_x_unchecked`: the two `y` with `(x, y)` on the curve. -/
  getYsFromXUnchecked : ZMod p → Option (ZMod p × ZMod p)
  /-- `Affine::new_unchecked(x, y)`. -/
  newUnchecked : ZMod p → ZMod p → E
  /-- `Affine::identity()` has `x = 0`. -/
  x_zero : x 0 = 0
  /-- A point built from `x` and one of its `y` has that `x`. -/
  x_newUnchecked {a y₁ y₀ : ZMod p} : getYsFromXUnchecked a = some (y₁, y₀) →
    x (newUnchecked a y₁) = a ∧ x (newUnchecked a y₀) = a

/-! ## Bit lengths -/

/-- The bit length of `m`, counted down from a bound `fuel ≥ m` on the halvings. -/
def bitsFrom : ℕ → ℕ → ℕ
  | 0, _ => 0
  | fuel + 1, m => if m = 0 then 0 else bitsFrom fuel (m / 2) + 1

/-- `BigUint::bits`: the bit length, `0` for `0`. -/
def bits (m : ℕ) : ℕ := bitsFrom m m

theorem bitsFrom_le_iff {fuel m : ℕ} (hm : m ≤ fuel) (k : ℕ) : bitsFrom fuel m ≤ k ↔ m < 2 ^ k := by
  induction fuel generalizing m k with
  | zero => simp [bitsFrom, Nat.le_zero.mp hm, Nat.pos_pow_of_pos]
  | succ fuel ih =>
    rw [bitsFrom]
    split_ifs with h0
    · simp [h0, Nat.pos_pow_of_pos]
    · cases k with
      | zero => simp; omega
      | succ k => rw [Nat.add_le_add_iff_right, ih (by omega), pow_succ, Nat.div_lt_iff_lt_mul two_pos]

theorem bits_le_iff (m k : ℕ) : bits m ≤ k ↔ m < 2 ^ k := bitsFrom_le_iff le_rfl k

theorem lt_bits_iff (m k : ℕ) : k < bits m ↔ 2 ^ k ≤ m := by
  rw [← not_le, bits_le_iff, not_lt]

theorem bits_two_pow (k : ℕ) : bits (2 ^ k) = k + 1 :=
  le_antisymm ((bits_le_iff _ _).mpr (Nat.pow_lt_pow_right one_lt_two k.lt_succ_self))
    ((lt_bits_iff _ _).mpr le_rfl)

/-- `Fp::MODULUS_BIT_SIZE`: the bit length of the base field's modulus (252 for STARK). -/
def modulusBitSize (p : ℕ) : ℕ := bits p

/-- `(1..MODULUS_BIT_SIZE).contains(&m.bits())`: a nonzero scalar below `2 ^ (b - 1)`. -/
theorem bits_mem_range_iff (m b : ℕ) : (1 ≤ bits m ∧ bits m < b + 1) ↔ 0 < m ∧ m < 2 ^ b := by
  have h₀ := bits_le_iff m 0
  have h₁ := bits_le_iff m b
  simp only [pow_zero, Nat.lt_one_iff] at h₀
  omega

namespace Curve

variable {p : ℕ} [Fact p.Prime] {E : Type} [AddCommGroup E] [DecidableEq E] (C : Curve p E)

/-- Modelled from the spec: `calculate_slope(p1, p2)`, the slope of the chord through two
affine points, or of the tangent where they are equal; `None` at the identity and on a
vertical chord, and a panic (`none` too) on a zero denominator. -/
def calculateSlope (p₁ p₂ : E) : Option (ZMod p) :=
  if p₁ = 0 ∨ p₂ = 0 then none
  else if C.x p₁ = C.x p₂ then
    if C.y p₁ = C.y p₂ then (inverse (2 * C.y p₁)).map fun d => (3 * C.x p₁ ^ 2 + C.coeffA) * d
    else none
  else (inverse (C.x p₂ - C.x p₁)).map fun d => (C.y p₂ - C.y p₁) * d

/-- **What `calculate_slope` returns.** Neither point is the identity; where the points share
their `x` they are the same affine point and the slope is the tangent's,
`slope·2y = 3x² + a`; elsewhere it is the chord's, `slope·(x₂ - x₁) = y₂ - y₁`. -/
theorem calculateSlope_eq_some {p₁ p₂ : E} {m : ZMod p} (h : C.calculateSlope p₁ p₂ = some m) :
    p₁ ≠ 0 ∧ p₂ ≠ 0 ∧
      (C.x p₁ = C.x p₂ → C.y p₁ = C.y p₂ ∧ m * (2 * C.y p₁) = 3 * C.x p₁ ^ 2 + C.coeffA) ∧
      (C.x p₁ ≠ C.x p₂ → m * (C.x p₂ - C.x p₁) = C.y p₂ - C.y p₁) := by
  unfold calculateSlope at h
  split_ifs at h with h0 hx hy
  · obtain ⟨d, hd, rfl⟩ := Option.map_eq_some'.mp h
    refine ⟨fun h => h0 (.inl h), fun h => h0 (.inr h), fun _ => ⟨hy, ?_⟩, fun h => absurd hx h⟩
    rw [mul_assoc, inverse_eq_some hd, mul_one]
  · obtain ⟨d, hd, rfl⟩ := Option.map_eq_some'.mp h
    refine ⟨fun h => h0 (.inl h), fun h => h0 (.inr h), fun h => absurd h hx, fun _ => ?_⟩
    rw [mul_assoc, inverse_eq_some hd, mul_one]

end Curve

/-! ## A cyclic stand-in

The group of points of the STARK curve is cyclic of prime order, so it is the group
`ZMod n` read through discrete logarithms. `Cyclic n` is that group, with `k • a` computed
as the product `k * a` so that multiples of a point evaluate. `cyclicCurve n shift` takes
`min(k, -k)` for the `x`-coordinate of `k` (so that `x` identifies a point up to sign, as on
a curve), `k` itself for `y`, `1` for the generator and `shift` for `SHIFT_POINT`. -/

/-- The cyclic group `ZMod n`, with scalar multiplication by the product. -/
def Cyclic (n : ℕ) : Type := ZMod n

namespace Cyclic

variable (n : ℕ)

instance : DecidableEq (Cyclic n) := inferInstanceAs (DecidableEq (ZMod n))

instance (k : ℕ) : OfNat (Cyclic n) k := ⟨((k : ℕ) : ZMod n)⟩

instance : AddCommGroup (Cyclic n) where
  __ := inferInstanceAs (AddCommGroup (ZMod n))
  nsmul := fun k (a : ZMod n) => (k : ZMod n) * a
  nsmul_zero (a : ZMod n) := show ((0 : ℕ) : ZMod n) * a = 0 by simp
  nsmul_succ k (a : ZMod n) := show ((k + 1 : ℕ) : ZMod n) * a = (k : ZMod n) * a + a by
    push_cast
    ring

/-- Every point of `Cyclic n` has order dividing `n` (the zero is the group's, not the
literal `0` of `Cyclic n`). -/
theorem nsmul_self (P : Cyclic n) : n • P = (0 : ZMod n) :=
  show ((n : ℕ) : ZMod n) * (show ZMod n from P) = 0 by rw [ZMod.natCast_self, zero_mul]

end Cyclic

instance fact_prime_1000003 : Fact (Nat.Prime 1000003) := ⟨by norm_num⟩

/-- A stand-in curve on `Cyclic n`. -/
def cyclicCurve (n : ℕ) [NeZero n] (shift : Cyclic n) : Curve n (Cyclic n) where
  x k := (min (show ZMod n from k).val (show ZMod n from -k).val : ℕ)
  y k := k
  coeffA := 1
  generator := 1
  shiftPoint := shift
  getYsFromXUnchecked a := if a.val ≤ (-a).val then some (a, -a) else none
  newUnchecked _ y := y
  x_zero := show ((min (0 : ZMod n).val (-0 : ZMod n).val : ℕ) : ZMod n) = 0 by simp
  x_newUnchecked {a y₁ y₀} h := by
    dsimp only at h ⊢
    split_ifs at h with ha
    cases h
    simp [min_eq_left ha, min_eq_right ha]

end Sandstorm
