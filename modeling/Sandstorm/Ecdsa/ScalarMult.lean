import Sandstorm.Ecdsa.BaseField

/-!
# Scalar multiplication in the ECDSA builtin

The builtin multiplies a point by a scalar twice over, with the same double-and-add loop:
`mimic_ec_mult_air` runs it while the remaining scalar is nonzero and returns `None` on an
`x`-collision between the partial sum and the doubled point, `gen_ec_mult_steps` runs it
for 256 rows and records each row, panicking where the row's `x_diff_inv` or slope does not
exist. `doubling_steps` records 256 doublings.

After `i` iterations of either loop for `x·P` from `S`, the state is `chainState S P x i`:
the partial sum `S + (x mod 2^i)·P` and the point `2^i·P`.

* `genLoop_spec`, `genEcMultSteps_spec`: every row of a trace `gen_ec_mult_steps` returns,
  by its index.
* `mimicLoop_chain`, `mimicEcMultAir_eq`: `mimic_ec_mult_air(..).unwrap()` returns `S + m·P`
  unless the scalar is out of range or a row below the scalar's top bit has an `x`-collision.
* `mimicEcMultAir_eq_none_iff`: `mimic_ec_mult_air` itself panics only in `U256::from`, on a
  scalar from `2^256` whose bit length, read `as u32`, passes the range check.
* `mimicLoop_unroll`, `mimicLoop_eq`: the state of the `while` loop of `mimic_ec_mult_air`
  after `i` iterations, and the whole loop in closed form.
* `mimic_ec_mult_air_spec`: over the base field `Fp`, what `mimic_ec_mult_air` returns, its
  loop invariant, when it panics, and that it returns `None` exactly for `m = 0`, `m ≥ 2^251`
  or a collision, the panicking scalars apart.
* `gen_ec_mult_steps_spec`: the row relations of a returned trace.
* `mimicEcMultAir_of_gen`: where `gen_ec_mult_steps` returns, so does `mimic_ec_mult_air`,
  with the last row's partial sum.
* `mimic_gen_disagree`: the converse fails: for `m = 1` and `S = (2^251 - 1)·P`, `mimic`
  returns while `gen` panics at row 251.
-/

namespace Sandstorm

/-- `EcMultPartialStep`: one row of a scalar-multiplication chain. -/
structure EcMultPartialStep (p : ℕ) (E : Type) where
  partialSum : E
  fixedPoint : E
  suffix : ZMod p
  slope : ZMod p
  xDiffInv : ZMod p

/-- `DoublingStep`: one row of a doubling chain. -/
structure DoublingStep (p : ℕ) (E : Type) where
  point : E
  slope : ZMod p

/-- What a double-and-add loop carries: `partial_sum`, and `point`, doubled every row. -/
structure MultState (E : Type) where
  partialSum : E
  point : E

section Chain

variable {E : Type} [AddCommGroup E]

/-- The state after `i` iterations of double-and-add for `x·P` from `S`. -/
def chainState (S P : E) (x i : ℕ) : MultState E := ⟨S + (x % 2 ^ i) • P, 2 ^ i • P⟩

theorem chainState_zero (S P : E) (x : ℕ) : chainState S P x 0 = ⟨S, P⟩ := by
  simp [chainState, Nat.mod_one]

/-- One iteration: add the point where bit `i` is set, double the point. -/
theorem chainState_succ (S P : E) (x i : ℕ) :
    chainState S P x (i + 1) =
      ⟨S + (x % 2 ^ i) • P + (x / 2 ^ i % 2) • (2 ^ i • P), 2 ^ i • P + 2 ^ i • P⟩ := by
  rw [chainState, Nat.mod_pow_succ, add_nsmul, mul_comm (2 ^ i), mul_nsmul', add_assoc, pow_succ',
    mul_nsmul', two_nsmul]

/-- The loop body of both multiplications, from the state after `i` iterations with bit `i`
of `x` as the condition, gives the state after `i + 1`. -/
theorem chainState_step (S P : E) (x i : ℕ) :
    (⟨if x / 2 ^ i % 2 = 1 then (chainState S P x i).partialSum + (chainState S P x i).point
      else (chainState S P x i).partialSum,
      (chainState S P x i).point + (chainState S P x i).point⟩ : MultState E) =
      chainState S P x (i + 1) := by
  rw [chainState_succ]
  rcases Nat.mod_two_eq_zero_or_one (x / 2 ^ i) with hb | hb <;> simp [hb, chainState]

theorem chainState_partialSum_of_lt (S P : E) {x i : ℕ} (h : x < 2 ^ i) :
    (chainState S P x i).partialSum = S + x • P := by
  simp [chainState, Nat.mod_eq_of_lt h]

/-- Doubling the point shifts its powers of two. -/
theorem two_pow_nsmul_add_self (i : ℕ) (P : E) : 2 ^ i • (P + P) = 2 ^ (i + 1) • P := by
  rw [← two_nsmul, ← mul_nsmul', ← pow_succ]

/-- The loops' `m >>= 1` on the scalar after `i` iterations. -/
theorem div_two_pow_shiftRight_one (m i : ℕ) : (m / 2 ^ i) >>> 1 = m / 2 ^ (i + 1) := by
  rw [Nat.shiftRight_eq_div_pow, pow_one, Nat.div_div_eq_div_mul, ← pow_succ]

/-- A bounded `∀` is its first case and the shifted rest. -/
theorem forall_lt_succ_iff_zero {f : ℕ → Prop} {k : ℕ} :
    (∀ j < k + 1, f j) ↔ f 0 ∧ ∀ j < k, f (j + 1) := by
  refine ⟨fun h => ⟨h 0 k.succ_pos, fun j hj => h (j + 1) (by omega)⟩, fun ⟨h0, h⟩ j hj => ?_⟩
  cases j with
  | zero => exact h0
  | succ j => exact h j (by omega)

/-- Bit `i` of `x` is the suffix at `i` less twice the suffix at `i + 1`. -/
theorem suffix_sub_two_mul (p x i : ℕ) :
    ((x / 2 ^ i : ℕ) : ZMod p) - 2 * ((x / 2 ^ (i + 1) : ℕ) : ZMod p) = ((x / 2 ^ i % 2 : ℕ) : ZMod p) := by
  have h := Nat.div_add_mod (x / 2 ^ i) 2
  rw [Nat.div_div_eq_div_mul, ← pow_succ] at h
  have hcast := congrArg (Nat.cast : ℕ → ZMod p) h
  push_cast at hcast
  rw [← hcast]
  ring

end Chain

namespace Curve

variable {p : ℕ} [Fact p.Prime] {E : Type} [AddCommGroup E] [DecidableEq E] (C : Curve p E)

/-! ## `gen_ec_mult_steps` -/

/-- Iteration `i` of `gen_ec_mult_steps`: the row recorded before the state changes, and
the next state. -/
def genStep (x i : ℕ) (s : MultState E) : Option (EcMultPartialStep p E × MultState E) := do
  let suffix := x >>> i
  let bit := suffix &&& 1
  let slope ← (if bit = 1 then C.calculateSlope s.point s.partialSum else some 0 : Option (ZMod p))
  let partialSumNext := if bit = 1 then s.partialSum + s.point else s.partialSum
  let xDiffInv ← inverse (C.x s.partialSum - C.x s.point)
  some (⟨s.partialSum, s.point, (suffix : ZMod p), slope, xDiffInv⟩,
    ⟨partialSumNext, s.point + s.point⟩)

/-- Iterations `i, i + 1, …` of `for i in 0..256`, `k` of them. -/
def genLoop (x : ℕ) : ℕ → ℕ → MultState E → Option (List (EcMultPartialStep p E))
  | _, 0, _ => some []
  | i, k + 1, s => do
    let (step, s) ← C.genStep x i s
    let rest ← genLoop x (i + 1) k s
    some (step :: rest)

/-- `gen_ec_mult_steps(x, point, shift_point)`: `U256::from` panics from `2^256`, then the
two assertions on the scalar, then 256 rows from `partial_sum = shift_point`. -/
def genEcMultSteps (x : ℕ) (point shiftPoint : E) : Option (List (EcMultPartialStep p E)) :=
  if 2 ^ 256 ≤ x then none
  else if x = 0 then none
  else if ¬x < 2 ^ 251 then none
  else C.genLoop x 0 256 ⟨shiftPoint, point⟩

/-! ## `mimic_ec_mult_air` -/

/-- The `while m != 0` loop of `mimic_ec_mult_air`; `fuel` is the bound 256 that the bits of
a `U256` put on it. -/
def mimicLoop : ℕ → ℕ → MultState E → Option E
  | 0, m, s => if m = 0 then some s.partialSum else none
  | fuel + 1, m, s =>
    if m = 0 then some s.partialSum
    else if C.x s.partialSum = C.x s.point then none
    else
      let partialSum := if m &&& 1 = 1 then s.partialSum + s.point else s.partialSum
      mimicLoop fuel (m >>> 1) ⟨partialSum, s.point + s.point⟩

/-- `mimic_ec_mult_air(m, point, shift_point)`, with a panic as the outer `none` and the
function's `None` as `some none`: `None` unless `m.bits() as u32`, the bit length modulo
`2^32`, is between `1` and `MODULUS_BIT_SIZE - 1`; then `U256::from(m)`, which panics from
`2^256`; then the loop from `partial_sum = shift_point`. -/
def mimicEcMultAir (m : ℕ) (point shiftPoint : E) : Option (Option E) :=
  if ¬(1 ≤ bits m % 2 ^ 32 ∧ bits m % 2 ^ 32 < modulusBitSize p) then some none
  else if 2 ^ 256 ≤ m then none
  else some (C.mimicLoop 256 m ⟨shiftPoint, point⟩)

/-! ## `doubling_steps` -/

/-- `k` rows of `doubling_steps` from `point`. -/
def doublingLoop : ℕ → E → Option (List (DoublingStep p E))
  | 0, _ => some []
  | k + 1, point => do
    let slope ← C.calculateSlope point point
    let rest ← doublingLoop k (point + point)
    some (⟨point, slope⟩ :: rest)

/-- `doubling_steps(p)`: 256 rows. -/
def doublingSteps (point : E) : Option (List (DoublingStep p E)) := C.doublingLoop 256 point

/-! ## Rows of a chain -/

/-- Row `i` of the chain for `x·P` from `S`: the state after `i` iterations, the suffix
`x >> i`, `x_diff_inv` the inverse of the `x`-difference, and the slope `calculate_slope`
gives the point and the partial sum where bit `i` is set (`0` where it is clear). -/
structure IsRow (S P : E) (x i : ℕ) (st : EcMultPartialStep p E) : Prop where
  partialSum_eq : st.partialSum = (chainState S P x i).partialSum
  fixedPoint_eq : st.fixedPoint = (chainState S P x i).point
  suffix_eq : st.suffix = ((x / 2 ^ i : ℕ) : ZMod p)
  xDiffInv_mul : st.xDiffInv * (C.x st.partialSum - C.x st.fixedPoint) = 1
  slope_eq : (if x / 2 ^ i % 2 = 1 then C.calculateSlope st.fixedPoint st.partialSum else some 0) =
    some st.slope

/-- One iteration of `gen_ec_mult_steps` from the state after `i` iterations records row
`i` and moves to the state after `i + 1`. -/
theorem genStep_chain {S P : E} {x i : ℕ} {st : EcMultPartialStep p E} {s : MultState E}
    (h : C.genStep x i (chainState S P x i) = some (st, s)) :
    C.IsRow S P x i st ∧ s = chainState S P x (i + 1) := by
  have hbit : x >>> i &&& 1 = x / 2 ^ i % 2 := by rw [Nat.and_one_is_mod, Nat.shiftRight_eq_div_pow]
  unfold genStep at h
  simp only [hbit, Option.bind_eq_bind, Option.bind_eq_some, Option.some.injEq, Prod.mk.injEq] at h
  obtain ⟨slope, hslope, xDiffInv, hinv, rfl, rfl⟩ := h
  exact ⟨⟨rfl, rfl, by rw [Nat.shiftRight_eq_div_pow], inverse_eq_some hinv, hslope⟩,
    chainState_step S P x i⟩

theorem genLoop_spec {S P : E} {x : ℕ} :
    ∀ (k i : ℕ) (L : List (EcMultPartialStep p E)),
      C.genLoop x i k (chainState S P x i) = some L →
      L.length = k ∧ ∀ j (hj : j < L.length), C.IsRow S P x (i + j) L[j]
  | 0, i, L, h => by
    cases h
    exact ⟨rfl, fun j hj => absurd hj (Nat.not_lt_zero j)⟩
  | k + 1, i, L, h => by
    simp only [genLoop, Option.bind_eq_bind, Option.bind_eq_some] at h
    obtain ⟨⟨st, s⟩, hstep, rest, hrest, hL⟩ := h
    cases hL
    obtain ⟨hrow, rfl⟩ := C.genStep_chain hstep
    obtain ⟨hlen, hrows⟩ := genLoop_spec k (i + 1) rest hrest
    refine ⟨by simp [hlen], fun j hj => ?_⟩
    cases j with
    | zero => exact hrow
    | succ j =>
      have := hrows j (by simpa using hj)
      rwa [show i + 1 + j = i + (j + 1) by omega] at this

/-- **What `gen_ec_mult_steps` returns.** A nonzero scalar below `2^251`, and 256 rows, row
`i` holding the state after `i` iterations. -/
theorem genEcMultSteps_spec {x : ℕ} {P S : E} {L : List (EcMultPartialStep p E)}
    (h : C.genEcMultSteps x P S = some L) :
    0 < x ∧ x < 2 ^ 251 ∧ L.length = 256 ∧ ∀ i (hi : i < L.length), C.IsRow S P x i L[i] := by
  unfold genEcMultSteps at h
  split_ifs at h with h₁ h₂ h₃
  rw [← chainState_zero S P x] at h
  obtain ⟨hlen, hrows⟩ := C.genLoop_spec 256 0 L h
  exact ⟨Nat.pos_of_ne_zero h₂, h₃, hlen, fun i hi => by simpa using hrows i hi⟩

/-- The last row of a returned trace holds the product `S + x·P`. -/
theorem genEcMultSteps_last {x : ℕ} {P S : E} {L : List (EcMultPartialStep p E)}
    (h : C.genEcMultSteps x P S = some L) : L[255]?.map (·.partialSum) = some (S + x • P) := by
  obtain ⟨-, hx, hlen, hrows⟩ := C.genEcMultSteps_spec h
  rw [List.getElem?_eq_getElem (by omega), Option.map_some', (hrows 255 _).partialSum_eq,
    chainState_partialSum_of_lt S P (hx.trans_le (Nat.pow_le_pow_right two_pos (by norm_num)))]

/-- Row `i` of the chain for `x·P` from `S` can be recorded: the slope exists where bit `i`
is set, and the `x`-difference is invertible. -/
def RowOk (S P : E) (x i : ℕ) : Prop :=
  (x / 2 ^ i % 2 = 1 →
      (C.calculateSlope (chainState S P x i).point (chainState S P x i).partialSum).isSome) ∧
    C.x (chainState S P x i).partialSum ≠ C.x (chainState S P x i).point

instance (S P : E) (x i : ℕ) : Decidable (C.RowOk S P x i) := instDecidableAnd

theorem genStep_isSome_iff (x i : ℕ) (s : MultState E) :
    (C.genStep x i s).isSome ↔
      (x / 2 ^ i % 2 = 1 → (C.calculateSlope s.point s.partialSum).isSome) ∧
        C.x s.partialSum ≠ C.x s.point := by
  have hbit : x >>> i &&& 1 = x / 2 ^ i % 2 := by rw [Nat.and_one_is_mod, Nat.shiftRight_eq_div_pow]
  unfold genStep
  dsimp only
  rw [hbit, ← sub_ne_zero, ← inverse_isSome]
  rcases Nat.mod_two_eq_zero_or_one (x / 2 ^ i) with hb | hb <;>
  cases C.calculateSlope s.point s.partialSum <;>
  cases inverse (C.x s.partialSum - C.x s.point) <;> simp [hb]

theorem genLoop_isSome_iff {S P : E} {x : ℕ} :
    ∀ (k i : ℕ), (C.genLoop x i k (chainState S P x i)).isSome ↔ ∀ j < k, C.RowOk S P x (i + j)
  | 0, i => by simp [genLoop]
  | k + 1, i => by
    have hrow := C.genStep_isSome_iff x i (chainState S P x i)
    rw [forall_lt_succ_iff_zero, add_zero]
    simp only [← add_assoc, Nat.add_right_comm i _ 1]
    rw [← genLoop_isSome_iff k (i + 1)]
    cases hstep : C.genStep x i (chainState S P x i) with
    | none => simp_all [genLoop, RowOk]
    | some r =>
      obtain ⟨st, s⟩ := r
      obtain ⟨-, rfl⟩ := C.genStep_chain hstep
      simp_all [genLoop, RowOk]
      cases C.genLoop x (i + 1) k (chainState S P x (i + 1)) <;> rfl

/-- **When `gen_ec_mult_steps` returns.** Exactly for a nonzero scalar below `2^251` whose 256
rows can all be recorded. -/
theorem genEcMultSteps_isSome_iff (x : ℕ) (P S : E) :
    (C.genEcMultSteps x P S).isSome ↔ 0 < x ∧ x < 2 ^ 251 ∧ ∀ i < 256, C.RowOk S P x i := by
  have := C.genLoop_isSome_iff (S := S) (P := P) (x := x) 256 0
  rw [chainState_zero] at this
  unfold genEcMultSteps
  split_ifs with h₁ h₂ h₃ <;> simp_all [Nat.pos_iff_ne_zero]
  omega

set_option maxRecDepth 8000 in
/-- On the stand-in curve, `gen_ec_mult_steps(7, 1, 5)` returns. -/
theorem genEcMultSteps_isSome_sample : ((cyclicCurve 1000003 5).genEcMultSteps 7 1 5).isSome := by
  rw [genEcMultSteps_isSome_iff]
  decide

/-! ## `mimic_ec_mult_air` -/

omit [DecidableEq E] in
theorem one_le_modulusBitSize (p : ℕ) [Fact p.Prime] : 1 ≤ modulusBitSize p :=
  (lt_bits_iff p 0).mpr (Fact.out : p.Prime).pos

omit [DecidableEq E] in
/-- A scalar `mimic_ec_mult_air` accepts is below `p`. -/
theorem two_pow_modulusBitSize_le (p : ℕ) [Fact p.Prime] : 2 ^ (modulusBitSize p - 1) ≤ p :=
  (lt_bits_iff p _).mp (Nat.sub_lt (one_le_modulusBitSize p) one_pos)

omit [Fact p.Prime] [DecidableEq E] in
open Classical in
/-- Once `2^i` passes the scalar, no row from `i` up is below its top bit, and the partial sum
is the product. -/
theorem mimicLoop_done (S P : E) {m i : ℕ} (hlt : m < 2 ^ i) :
    some (chainState S P m i).partialSum =
      if ∀ j, i ≤ j → 2 ^ j ≤ m →
          C.x (chainState S P m j).partialSum ≠ C.x (chainState S P m j).point
      then some (S + m • P) else none := by
  rw [if_pos fun j hij hj => absurd (hj.trans_lt hlt) (not_lt.mpr (Nat.pow_le_pow_right two_pos hij)),
    chainState_partialSum_of_lt S P hlt]

omit [Fact p.Prime] [DecidableEq E] in
open Classical in
/-- The `while` loop of `mimic_ec_mult_air` from the state after `i` iterations returns
`S + m·P`, unless some later row below the top bit has an `x`-collision. -/
theorem mimicLoop_chain (S P : E) (m : ℕ) :
    ∀ (fuel i : ℕ), m < 2 ^ (i + fuel) →
      C.mimicLoop fuel (m / 2 ^ i) (chainState S P m i) =
        if ∀ j, i ≤ j → 2 ^ j ≤ m →
            C.x (chainState S P m j).partialSum ≠ C.x (chainState S P m j).point
        then some (S + m • P) else none
  | 0, i, hm => by
    have hlt : m < 2 ^ i := by simpa using hm
    rw [mimicLoop, Nat.div_eq_of_lt hlt, if_pos rfl, C.mimicLoop_done S P hlt]
  | fuel + 1, i, hm => by
    rw [mimicLoop]
    by_cases h0 : m / 2 ^ i = 0
    · rw [if_pos h0, C.mimicLoop_done S P ((Nat.div_eq_zero_iff (Nat.two_pow_pos i)).mp h0)]
    rw [if_neg h0]
    by_cases hx : C.x (chainState S P m i).partialSum = C.x (chainState S P m i).point
    · have hle : 2 ^ i ≤ m := Nat.le_of_not_lt fun hlt => h0 (Nat.div_eq_of_lt hlt)
      rw [if_pos hx, if_neg fun hall => hall i le_rfl hle hx]
    -- no collision at row `i`: one iteration, then the loop from row `i + 1`
    rw [if_neg hx]
    dsimp only
    rw [div_two_pow_shiftRight_one, Nat.and_one_is_mod, chainState_step, mimicLoop_chain S P m fuel (i + 1)
      (by rwa [show i + 1 + fuel = i + (fuel + 1) by omega])]
    congr 1
    refine propext ⟨fun hall j hij hj => ?_, fun hall j hij => hall j (by omega)⟩
    rcases Nat.eq_or_lt_of_le hij with rfl | hlt
    · exact hx
    · exact hall j hlt hj

omit [Fact p.Prime] [DecidableEq E] in
/-- The loop invariant of `mimic_ec_mult_air`: after `i` iterations, up to the top bit of the
scalar and with no `x`-collision on the way, the scalar is `m >> i` and the state is the
state after `i` iterations of double-and-add. -/
theorem mimicLoop_unroll (S P : E) (m : ℕ) :
    ∀ i, i ≤ bits m → (∀ j < i, C.x (chainState S P m j).partialSum ≠ C.x (chainState S P m j).point) →
      ∀ fuel, C.mimicLoop (i + fuel) m ⟨S, P⟩ = C.mimicLoop fuel (m / 2 ^ i) (chainState S P m i)
  | 0, _, _, fuel => by rw [zero_add, pow_zero, Nat.div_one, chainState_zero]
  | i + 1, hi, hx, fuel => by
    have h0 : m / 2 ^ i ≠ 0 :=
      (Nat.div_pos ((lt_bits_iff m i).mp (by omega)) (Nat.two_pow_pos i)).ne'
    rw [show i + 1 + fuel = i + (fuel + 1) by omega,
      mimicLoop_unroll S P m i (by omega) (fun j hj => hx j (by omega)) (fuel + 1), mimicLoop,
      if_neg h0, if_neg (hx i (by omega))]
    dsimp only
    rw [div_two_pow_shiftRight_one, Nat.and_one_is_mod, chainState_step]

omit [Fact p.Prime] [DecidableEq E] in
open Classical in
/-- The whole `while` loop of `mimic_ec_mult_air`, for a scalar below `2^256`: `S + m·P`
unless a row below the top bit has an `x`-collision. -/
theorem mimicLoop_eq (S P : E) {m : ℕ} (hm : m < 2 ^ 256) :
    C.mimicLoop 256 m ⟨S, P⟩ =
      if ∀ j < bits m, C.x (chainState S P m j).partialSum ≠ C.x (chainState S P m j).point
      then some (S + m • P) else none := by
  have h := C.mimicLoop_chain S P m 256 0 (by simpa using hm)
  rw [pow_zero, Nat.div_one, chainState_zero] at h
  exact h.trans (if_congr (by simp only [zero_le, true_implies, lt_bits_iff]) rfl rfl)

/-- Below `2^256` the bit length is its own residue modulo `2^32`. -/
theorem bits_mod_of_lt {m : ℕ} (hm : m < 2 ^ 256) : bits m % 2 ^ 32 = bits m :=
  Nat.mod_eq_of_lt (((bits_le_iff m 256).mpr hm).trans_lt (by norm_num))

omit [Fact p.Prime] [DecidableEq E] in
/-- `mimic_ec_mult_air` panics only in `U256::from`, on a scalar from `2^256` whose bit length
passes the range check modulo `2^32`. -/
theorem mimicEcMultAir_eq_none_iff (m : ℕ) (P S : E) :
    C.mimicEcMultAir m P S = none ↔
      2 ^ 256 ≤ m ∧ 1 ≤ bits m % 2 ^ 32 ∧ bits m % 2 ^ 32 < modulusBitSize p := by
  unfold mimicEcMultAir
  by_cases h₁ : 1 ≤ bits m % 2 ^ 32 ∧ bits m % 2 ^ 32 < modulusBitSize p
  · by_cases h₂ : 2 ^ 256 ≤ m
    · rw [if_neg (not_not.mpr h₁), if_pos h₂]
      exact iff_of_true rfl ⟨h₂, h₁⟩
    · rw [if_neg (not_not.mpr h₁), if_neg h₂]
      exact iff_of_false (Option.some_ne_none _) fun h => h₂ h.1
  · rw [if_pos h₁]
    exact iff_of_false (Option.some_ne_none _) fun h => h₁ h.2

omit [Fact p.Prime] [DecidableEq E] in
/-- Below `2^256`, `mimic_ec_mult_air` does not panic. -/
theorem mimicEcMultAir_of_lt {m : ℕ} (hm : m < 2 ^ 256) (P S : E) :
    C.mimicEcMultAir m P S = some (C.mimicEcMultAir m P S).join := by
  unfold mimicEcMultAir
  rw [if_neg (not_le.mpr hm)]
  split_ifs <;> rfl

omit [DecidableEq E] in
/-- **What `mimic_ec_mult_air(..).unwrap()` returns.** `S + m·P` for a scalar with between `1`
and `MODULUS_BIT_SIZE - 1` bits and no `x`-collision on the rows below its top bit; a panic
(`none`) otherwise. -/
theorem mimicEcMultAir_eq (hp : modulusBitSize p ≤ 257) (m : ℕ) (P S : E) :
    (C.mimicEcMultAir m P S).join =
      if (0 < m ∧ m < 2 ^ (modulusBitSize p - 1)) ∧ ∀ j < bits m,
          C.x (chainState S P m j).partialSum ≠ C.x (chainState S P m j).point
      then some (S + m • P) else none := by
  have hrange := bits_mem_range_iff m (modulusBitSize p - 1)
  rw [Nat.sub_add_cancel (one_le_modulusBitSize p)] at hrange
  unfold mimicEcMultAir
  by_cases hm : 0 < m ∧ m < 2 ^ (modulusBitSize p - 1)
  · have hfit : m < 2 ^ 256 := hm.2.trans_le (Nat.pow_le_pow_right two_pos (by omega))
    rw [bits_mod_of_lt hfit, if_neg (not_not.mpr (hrange.mpr hm)), if_neg (not_le.mpr hfit),
      Option.join, Option.some_bind, id, C.mimicLoop_eq S P hfit]
    exact if_congr (and_iff_right hm).symm rfl rfl
  · -- out of range: `None`, or the panic of `U256::from`
    have hne : ¬((0 < m ∧ m < 2 ^ (modulusBitSize p - 1)) ∧ ∀ j < bits m,
        C.x (chainState S P m j).partialSum ≠ C.x (chainState S P m j).point) := fun h => hm h.1
    rw [if_neg hne]
    by_cases h₁ : 1 ≤ bits m % 2 ^ 32 ∧ bits m % 2 ^ 32 < modulusBitSize p
    · by_cases h₂ : 2 ^ 256 ≤ m
      · rw [if_neg (not_not.mpr h₁), if_pos h₂]
        rfl
      · exact absurd (hrange.mp (bits_mod_of_lt (not_le.mp h₂) ▸ h₁)) hm
    · rw [if_pos h₁]
      rfl

omit [DecidableEq E] in
/-- A result of `mimic_ec_mult_air` is `S + m·P`, for a scalar with between `1` and
`MODULUS_BIT_SIZE - 1` bits. -/
theorem mimicEcMultAir_eq_some {m : ℕ} {P S R : E} (h : C.mimicEcMultAir m P S = some (some R)) :
    R = S + m • P ∧ 0 < m ∧ m < 2 ^ (modulusBitSize p - 1) := by
  have hrange := bits_mem_range_iff m (modulusBitSize p - 1)
  rw [Nat.sub_add_cancel (one_le_modulusBitSize p)] at hrange
  unfold mimicEcMultAir at h
  by_cases h₁ : 1 ≤ bits m % 2 ^ 32 ∧ bits m % 2 ^ 32 < modulusBitSize p
  · by_cases h₂ : 2 ^ 256 ≤ m
    · rw [if_neg (not_not.mpr h₁), if_pos h₂] at h
      cases h
    rw [if_neg (not_not.mpr h₁), if_neg h₂, Option.some.injEq, C.mimicLoop_eq S P (not_le.mp h₂)] at h
    split_ifs at h
    exact ⟨(Option.some.inj h).symm, hrange.mp (bits_mod_of_lt (not_le.mp h₂) ▸ h₁)⟩
  · rw [if_pos h₁] at h
    cases h

/-- **`mimic_ec_mult_air` over `Fp`.** A result is `S + m·P`; after `i` iterations of the
`while` loop, up to the scalar's bit length and with no `x`-collision before, the scalar is
`m >> i`, the partial sum `S + (m mod 2^i)·P` and the point `2^i·P`; the loop runs at most
`bits(m)` iterations. The function panics exactly in `U256::from`, on a scalar from `2^256`
whose bit length modulo `2^32` passes the range check; otherwise it returns `None` exactly
for `m = 0`, `m ≥ 2^251`, or an `x`-collision of the partial sum and the point at an
iteration below `bits(m)`. -/
theorem mimic_ec_mult_air_spec {E : Type} [AddCommGroup E] (C : Curve fpModulus E) (m : ℕ)
    (P S : E) :
    (∀ R, C.mimicEcMultAir m P S = some (some R) → R = S + m • P) ∧
    (∀ i ≤ bits m, (∀ j < i, C.x (S + (m % 2 ^ j) • P) ≠ C.x (2 ^ j • P)) →
      ∀ fuel, C.mimicLoop (i + fuel) m ⟨S, P⟩ =
        C.mimicLoop fuel (m >>> i) ⟨S + (m % 2 ^ i) • P, 2 ^ i • P⟩) ∧
    (∀ fuel, C.mimicLoop (bits m + fuel) m ⟨S, P⟩ = C.mimicLoop (bits m) m ⟨S, P⟩) ∧
    (C.mimicEcMultAir m P S = none ↔ 2 ^ 256 ≤ m ∧ 1 ≤ bits m % 2 ^ 32 ∧ bits m % 2 ^ 32 < 252) ∧
    (C.mimicEcMultAir m P S = some none ↔
      (m = 0 ∨ 2 ^ 251 ≤ m ∨ ∃ i < bits m, C.x (S + (m % 2 ^ i) • P) = C.x (2 ^ i • P)) ∧
        ¬(2 ^ 256 ≤ m ∧ 1 ≤ bits m % 2 ^ 32 ∧ bits m % 2 ^ 32 < 252)) := by
  have hpanic := C.mimicEcMultAir_eq_none_iff m P S
  rw [modulusBitSize_fpModulus] at hpanic
  have hjoin : (C.mimicEcMultAir m P S).join = none ↔
      m = 0 ∨ 2 ^ 251 ≤ m ∨ ∃ i < bits m, C.x (S + (m % 2 ^ i) • P) = C.x (2 ^ i • P) := by
    rw [C.mimicEcMultAir_eq (modulusBitSize_fpModulus.trans_le (by norm_num)) m P S,
      modulusBitSize_fpModulus, ite_eq_right_iff]
    simp only [Option.some_ne_none, imp_false, not_and_or, not_forall, Classical.not_imp, not_not,
      not_lt, nonpos_iff_eq_zero, Nat.reduceSub, or_assoc, exists_prop]
    rfl
  have hfuel : ∀ fuel, m < 2 ^ (0 + (bits m + fuel)) := fun fuel =>
    (bits_le_iff m _).mp (by omega)
  refine ⟨fun R hR => (C.mimicEcMultAir_eq_some hR).1, fun i hi hx fuel => ?_, fun fuel => ?_,
    hpanic, ?_⟩
  · rw [Nat.shiftRight_eq_div_pow]
    exact C.mimicLoop_unroll S P m i hi hx fuel
  · -- both runs have the closed form of `mimicLoop_chain`
    have h₁ := C.mimicLoop_chain S P m (bits m + fuel) 0 (hfuel fuel)
    have h₂ := C.mimicLoop_chain S P m (bits m + 0) 0 (hfuel 0)
    rw [pow_zero, Nat.div_one, chainState_zero] at h₁ h₂
    rw [h₁, ← h₂, add_zero]
  · -- `None` is the unwrapped `none` that is not a panic
    rw [← hjoin, ← hpanic]
    rcases C.mimicEcMultAir m P S with _ | _ | R <;> simp

/-- `2^(2^32)` has `2^32 + 1` bits, which `as u32` reads as `1`: the range check passes and
`U256::from` panics, on any curve over `Fp`. -/
theorem mimic_ec_mult_air_spec_overflow :
    (cyclicCurve fpModulus 0).mimicEcMultAir (2 ^ 2 ^ 32) 1 0 = none ∧ 2 ^ 251 ≤ 2 ^ 2 ^ 32 := by
  -- `2^32` stays opaque, so that nothing tries to evaluate `2^(2^32)`
  obtain ⟨k, hk⟩ : ∃ k, k = 2 ^ 32 := ⟨_, rfl⟩
  rw [← hk]
  have h256 : 2 ^ 256 ≤ 2 ^ k := Nat.pow_le_pow_right two_pos (by rw [hk]; norm_num)
  have hbits : bits (2 ^ k) % 2 ^ 32 = 1 := by
    rw [bits_two_pow, hk]
    norm_num
  refine ⟨((cyclicCurve fpModulus 0).mimicEcMultAir_eq_none_iff (2 ^ k) 1 0).mpr ⟨h256, ?_, ?_⟩,
    (Nat.pow_le_pow_right two_pos (by norm_num)).trans h256⟩
  · exact hbits.ge
  · rw [hbits, modulusBitSize_fpModulus]
    norm_num

/-! ## The rows of `gen_ec_mult_steps` -/

/-- **The rows of `gen_ec_mult_steps`.** A returned trace has 256 rows; it starts at `S` and
`P`; the suffix at row `i` is `x >> i` (`0` past the last row), so the difference of
consecutive suffixes is bit `i`; the last suffix is `0`; each row doubles the point and adds
it to the partial sum where the bit is set; every `x_diff_inv` is the inverse of its row's
`x`-difference; and the last partial sum is `S + x·P`. -/
theorem gen_ec_mult_steps_spec {x : ℕ} {P S : E} {L : List (EcMultPartialStep p E)}
    (h : C.genEcMultSteps x P S = some L) :
    let suffix (i : ℕ) : ZMod p := (L.map (·.suffix)).getD i 0
    L.length = 256 ∧
    L[0]?.map (fun st => (st.partialSum, st.fixedPoint)) = some (S, P) ∧
    (∀ i < 256, suffix i = ((x / 2 ^ i : ℕ) : ZMod p) ∧
      (suffix i - 2 * suffix (i + 1) = 0 ∨ suffix i - 2 * suffix (i + 1) = 1)) ∧
    suffix 255 = 0 ∧
    (∀ i < 255, ∀ st st', L[i]? = some st → L[i + 1]? = some st' →
      st'.fixedPoint = 2 • st.fixedPoint ∧ ∃ b : ℕ, b ≤ 1 ∧ suffix i - 2 * suffix (i + 1) = b ∧
        st'.partialSum = st.partialSum + b • st.fixedPoint) ∧
    (∀ st ∈ L, st.xDiffInv * (C.x st.partialSum - C.x st.fixedPoint) = 1) ∧
    L[255]?.map (·.partialSum) = some (S + x • P) := by
  obtain ⟨-, hx, hlen, hrows⟩ := C.genEcMultSteps_spec h
  have hlt : ∀ i, 251 ≤ i → x < 2 ^ i := fun i hi => hx.trans_le (Nat.pow_le_pow_right two_pos hi)
  have hsuffix : ∀ i, (L.map (·.suffix)).getD i 0 = ((x / 2 ^ i : ℕ) : ZMod p) := by
    intro i
    by_cases hi : i < L.length
    · simp [List.getD_eq_getElem?_getD, hi, (hrows i hi).suffix_eq]
    · simp [List.getD_eq_getElem?_getD, List.getElem?_eq_none (not_lt.mp hi),
        Nat.div_eq_of_lt (hlt i (by omega))]
  have hbit : ∀ i, (L.map (·.suffix)).getD i 0 - 2 * (L.map (·.suffix)).getD (i + 1) 0 =
      ((x / 2 ^ i % 2 : ℕ) : ZMod p) := fun i => by rw [hsuffix, hsuffix, suffix_sub_two_mul]
  dsimp only
  refine ⟨hlen, ?_, fun i _ => ⟨hsuffix i, ?_⟩, ?_, fun i hi st st' h₁ h₂ => ?_, fun st hst => ?_, ?_⟩
  · rw [List.getElem?_eq_getElem (by omega), Option.map_some', (hrows 0 _).partialSum_eq,
      (hrows 0 _).fixedPoint_eq, chainState_zero]
  · rw [hbit]
    rcases Nat.mod_two_eq_zero_or_one (x / 2 ^ i) with hb | hb <;> simp [hb]
  · rw [hsuffix, Nat.div_eq_of_lt (hlt 255 (by norm_num)), Nat.cast_zero]
  · -- rows `i` and `i + 1` are the states after `i` and `i + 1` iterations
    rw [List.getElem?_eq_getElem (by omega), Option.some.injEq] at h₁ h₂
    subst h₁ h₂
    have hr := hrows i (by omega)
    have hr' := hrows (i + 1) (by omega)
    rw [hr'.partialSum_eq, hr'.fixedPoint_eq, hr.partialSum_eq, hr.fixedPoint_eq, chainState_succ]
    refine ⟨by rw [two_nsmul]; rfl, x / 2 ^ i % 2, Nat.le_of_lt_succ (Nat.mod_lt _ two_pos), hbit i, rfl⟩
  · obtain ⟨i, hi, rfl⟩ := List.getElem_of_mem hst
    exact (hrows i hi).xDiffInv_mul
  · exact C.genEcMultSteps_last h

/-- On the stand-in curve, `gen_ec_mult_steps(7, 1, 5)` returns, and its last partial sum is
`5 + 7·1`. -/
theorem gen_ec_mult_steps_spec_sample :
    ∃ L, (cyclicCurve 1000003 5).genEcMultSteps 7 1 5 = some L ∧ L.length = 256 ∧
      L[255]?.map (·.partialSum) = some (5 + 7 • 1) := by
  obtain ⟨L, hL⟩ := Option.isSome_iff_exists.mp genEcMultSteps_isSome_sample
  have hspec := gen_ec_mult_steps_spec _ hL
  exact ⟨L, hL, hspec.1, hspec.2.2.2.2.2.2⟩

/-! ## `mimic_ec_mult_air` against `gen_ec_mult_steps` -/

omit [DecidableEq E] in
theorem x_ne_of_xDiffInv_mul {a b d : ZMod p} (h : d * (a - b) = 1) : a ≠ b := by
  rintro rfl
  simp at h

/-- Where `gen_ec_mult_steps` returns on a scalar in the range of `mimic_ec_mult_air` (all of
`gen`'s range when the modulus has 252 bits, as the STARK field's does), `mimic_ec_mult_air`
returns the last row's partial sum: the rows `mimic` checks are rows `gen` has checked. -/
theorem mimicEcMultAir_of_gen (hp : modulusBitSize p ≤ 257) {x : ℕ} {P S : E}
    {L : List (EcMultPartialStep p E)} (hx : x < 2 ^ (modulusBitSize p - 1))
    (h : C.genEcMultSteps x P S = some L) :
    C.mimicEcMultAir x P S = some (L[255]?.map (·.partialSum)) := by
  obtain ⟨hx0, hx', hlen, hrows⟩ := C.genEcMultSteps_spec h
  have hbits := (bits_le_iff x 251).mpr hx'
  have hclear : ∀ j < bits x,
      C.x (chainState S P x j).partialSum ≠ C.x (chainState S P x j).point := by
    intro j hj
    have hr := hrows j (by omega)
    rw [← hr.partialSum_eq, ← hr.fixedPoint_eq]
    exact x_ne_of_xDiffInv_mul hr.xDiffInv_mul
  rw [C.mimicEcMultAir_of_lt (hx'.trans (by norm_num)), C.mimicEcMultAir_eq hp,
    if_pos ⟨⟨hx0, hx⟩, hclear⟩, List.getElem?_eq_getElem (by omega),
    Option.map_some', (hrows 255 _).partialSum_eq,
    chainState_partialSum_of_lt S P (hx'.trans_le (Nat.pow_le_pow_right two_pos (by norm_num)))]

/-- On the stand-in curve, for `7·1` from `5`. -/
theorem mimicEcMultAir_of_gen_sample :
    ∃ L, (cyclicCurve 1000003 5).genEcMultSteps 7 1 5 = some L ∧
      (cyclicCurve 1000003 5).mimicEcMultAir 7 1 5 = some (L[255]?.map (·.partialSum)) := by
  obtain ⟨L, hL⟩ := Option.isSome_iff_exists.mp genEcMultSteps_isSome_sample
  exact ⟨L, hL, mimicEcMultAir_of_gen _ (by decide) (by decide) hL⟩

/-- **`mimic_ec_mult_air` and `gen_ec_mult_steps` disagree.** For the scalar `1`, a point `P`
and the shift `S = (2^251 - 1)·P` (any `P` whose multiple `(2^251 - 1)·P` has another
`x`-coordinate), `mimic_ec_mult_air` checks one row and returns `2^251·P`, while
`gen_ec_mult_steps` reaches row 251, where the partial sum and the doubled point are both
`2^251·P`, and panics on the inverse of `0`. -/
theorem mimic_gen_disagree (P : E) (hx : C.x ((2 ^ 251 - 1) • P) ≠ C.x P) :
    C.mimicEcMultAir 1 P ((2 ^ 251 - 1) • P) = some (some (2 ^ 251 • P)) ∧
      C.genEcMultSteps 1 P ((2 ^ 251 - 1) • P) = none := by
  have hsum : (2 ^ 251 - 1) • P + P = 2 ^ 251 • P := by
    rw [← succ_nsmul, Nat.sub_add_cancel Nat.one_le_two_pow]
  constructor
  · have hbits : 1 < modulusBitSize p := (lt_bits_iff p 1).mpr (Fact.out : p.Prime).two_le
    have hb1 : bits 1 = 1 := rfl
    generalize (2 ^ 251 - 1) • P = S at hx hsum ⊢
    generalize 2 ^ 251 • P = T at hsum ⊢
    simp [mimicEcMultAir, hb1, hbits, mimicLoop, hx, hsum]
  · cases hgen : C.genEcMultSteps 1 P ((2 ^ 251 - 1) • P) with
    | none => rfl
    | some L =>
      obtain ⟨-, -, hlen, hrows⟩ := C.genEcMultSteps_spec hgen
      have hr := hrows 251 (by omega)
      have hps : L[251].partialSum = L[251].fixedPoint := by
        rw [hr.partialSum_eq, hr.fixedPoint_eq, chainState_partialSum_of_lt _ _ (Nat.one_lt_two_pow (by norm_num)),
          one_nsmul, hsum]
        rfl
      exact absurd hps (x_ne_of_xDiffInv_mul hr.xDiffInv_mul ∘ congrArg C.x)

/-- On the stand-in curve with `P = 1` and `SHIFT_POINT = 5`. -/
theorem mimic_gen_disagree_sample :
    (cyclicCurve 1000003 5).mimicEcMultAir 1 1 ((2 ^ 251 - 1) • 1) = some (some (2 ^ 251 • 1)) ∧
      (cyclicCurve 1000003 5).genEcMultSteps 1 1 ((2 ^ 251 - 1) • 1) = none :=
  mimic_gen_disagree _ 1 (by decide)

/-! ## `doubling_steps` -/

/-- `k` rows of `doubling_steps` from `P`: row `i` at `2^i·P`, with the slope
`calculate_slope` gives the point and itself. -/
theorem doublingLoop_spec :
    ∀ (k : ℕ) (P : E) (L : List (DoublingStep p E)), C.doublingLoop k P = some L →
      L.length = k ∧ ∀ i (hi : i < L.length),
        L[i].point = 2 ^ i • P ∧ C.calculateSlope L[i].point L[i].point = some L[i].slope
  | 0, P, L, h => by
    cases h
    exact ⟨rfl, fun i hi => absurd hi (Nat.not_lt_zero i)⟩
  | k + 1, P, L, h => by
    simp only [doublingLoop, Option.bind_eq_bind, Option.bind_eq_some, Option.some.injEq] at h
    obtain ⟨slope, hslope, rest, hrest, rfl⟩ := h
    obtain ⟨hlen, hpts⟩ := doublingLoop_spec k (P + P) rest hrest
    refine ⟨by simp [hlen], fun i hi => ?_⟩
    cases i with
    | zero => exact ⟨(one_nsmul P).symm, hslope⟩
    | succ i =>
      obtain ⟨hpt, hsl⟩ := hpts i (by simpa using hi)
      refine ⟨?_, hsl⟩
      rw [List.getElem_cons_succ, hpt, two_pow_nsmul_add_self]

theorem doublingLoop_isSome_iff :
    ∀ (k : ℕ) (P : E),
      (C.doublingLoop k P).isSome ↔ ∀ i < k, (C.calculateSlope (2 ^ i • P) (2 ^ i • P)).isSome
  | 0, P => by simp [doublingLoop]
  | k + 1, P => by
    have hpow : ∀ i, 2 ^ i • (P + P) = 2 ^ (i + 1) • P := fun i => by
      rw [← two_nsmul, ← mul_nsmul', ← pow_succ]
    rw [forall_lt_succ_iff_zero, pow_zero, one_nsmul]
    simp only [← hpow]
    rw [← doublingLoop_isSome_iff k (P + P)]
    simp only [doublingLoop]
    cases C.calculateSlope P P <;> cases C.doublingLoop k (P + P) <;> simp

/-- `doubling_steps(P)` returns 256 rows, row `i` at the point `2^i·P` with the slope
`calculate_slope` gives it and itself. -/
theorem doublingSteps_spec {P : E} {L : List (DoublingStep p E)} (h : C.doublingSteps P = some L) :
    L.length = 256 ∧ ∀ i (hi : i < L.length),
      L[i].point = 2 ^ i • P ∧ C.calculateSlope L[i].point L[i].point = some L[i].slope :=
  C.doublingLoop_spec 256 P L h

/-- `doubling_steps(P)` returns exactly where each of the 256 doubled points has a tangent
slope. -/
theorem doublingSteps_isSome_iff (P : E) :
    (C.doublingSteps P).isSome ↔ ∀ i < 256, (C.calculateSlope (2 ^ i • P) (2 ^ i • P)).isSome :=
  C.doublingLoop_isSome_iff 256 P

/-- **The slopes of a doubling chain satisfy the curve's tangent equation.** A trace
`doubling_steps(P)` returns has 256 rows; row `i` is at `2^i·P`, which is not the identity, and
its slope is that of the tangent there, `slope·2y = 3x² + a`. -/
theorem doublingSteps_tangent {P : E} {L : List (DoublingStep p E)} (h : C.doublingSteps P = some L) :
    L.length = 256 ∧ ∀ i (hi : i < L.length), L[i].point = 2 ^ i • P ∧ L[i].point ≠ 0 ∧
      L[i].slope * (2 * C.y L[i].point) = 3 * C.x L[i].point ^ 2 + C.coeffA := by
  obtain ⟨hlen, hrows⟩ := C.doublingSteps_spec h
  refine ⟨hlen, fun i hi => ?_⟩
  obtain ⟨hpt, hslope⟩ := hrows i hi
  obtain ⟨hne, -, htan, -⟩ := C.calculateSlope_eq_some hslope
  exact ⟨hpt, hne, (htan rfl).2⟩

set_option maxRecDepth 8000 in
/-- On the stand-in curve, the doublings of `1`. -/
theorem doublingSteps_tangent_sample :
    ∃ L, (cyclicCurve 1000003 5).doublingSteps 1 = some L ∧ L.length = 256 ∧
      ∀ i (hi : i < L.length), L[i].point = 2 ^ i • 1 ∧ L[i].point ≠ 0 ∧
        L[i].slope * (2 * (cyclicCurve 1000003 5).y L[i].point) =
          3 * (cyclicCurve 1000003 5).x L[i].point ^ 2 + (cyclicCurve 1000003 5).coeffA := by
  have hok : ((cyclicCurve 1000003 5).doublingSteps 1).isSome := by
    rw [doublingSteps_isSome_iff]
    decide
  obtain ⟨L, hL⟩ := Option.isSome_iff_exists.mp hok
  exact ⟨L, hL, doublingSteps_tangent _ hL⟩

end Curve

end Sandstorm
