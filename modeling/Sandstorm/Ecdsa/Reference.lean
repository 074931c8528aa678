import Sandstorm.Ecdsa.Trace

/-!
# `verify` against the reference check

`verify` accepts a public key `Q` for the message hash `z` and the signature `(r, s)` when
`x(w·(z·G + r·Q)) = r`, with `w = s⁻¹` in `Fr`. The reference verification it is based on
computes `x((w·z)·G + (w·r)·Q)` instead, with the products `w·z` and `w·r` taken in `Fr`; the
source's comment calls the two mathematically equivalent, and notes that one may panic where
the other does not. They agree on a group in which every point has order dividing `n`, the
order of `Fr`, as the points of the STARK curve do.

* `EcdsaAccepts`, `verifySpec`: the reference check, and the reference verification over the
  candidates for `pubkey_x`, in the order `verify` tries them.
* `decide_ecdsaAccepts_of_checkCandidate`: where the check of one candidate returns, it is the
  reference check.
* `verify_refines_verifySpec`: `verify` either panics or returns what the reference
  verification returns, and it panics exactly where the reference does or where a scalar
  multiplication of a candidate it tries does.
* `new_accepts`: a trace `InstanceTrace::new` returns is for a public key with the instance's
  `x`-coordinate that the reference check accepts.
-/

namespace Sandstorm

namespace Curve

variable {p : ℕ} {E : Type} [AddCommGroup E] (C : Curve p E) {n : ℕ}

/-- **The reference check.** `r = x((w·z)·G + (w·r)·Q)`, with `z` and `r` read as integers
and the products taken in `Fr`, of order `n`. -/
def EcdsaAccepts (msgHash r : ZMod p) (w : ZMod n) (pubkey : E) : Prop :=
  r = C.x ((w * (msgHash.val : ZMod n)).val • C.generator + (w * (r.val : ZMod n)).val • pubkey)

instance (msgHash r : ZMod p) (w : ZMod n) (pubkey : E) :
    Decidable (C.EcdsaAccepts msgHash r w pubkey) :=
  inferInstanceAs (Decidable (_ = _))

/-- **The reference verification**, over the candidates `(pubkey_x, y1)` and `(pubkey_x, y0)`
in `verify`'s order: the first the reference check accepts. It panics where `verify` must:
on `s = 0` and on a `pubkey_x` that is not on the curve. -/
def verifySpec [Fact n.Prime] (msgHash r : ZMod p) (s : ZMod n) (pubkeyX : ZMod p) :
    Option (Option E) := do
  let w ← inverse s
  let (y₁, y₀) ← C.getYsFromXUnchecked pubkeyX
  some (([y₁, y₀].map (C.newUnchecked pubkeyX)).find? fun Q => decide (C.EcdsaAccepts msgHash r w Q))

/-! ## Multiples in a group of exponent `n` -/

section Exponent

variable (hn : ∀ P : E, n • P = 0)
include hn

/-- In a group of exponent `n`, a multiple depends on the scalar modulo `n` only. -/
theorem mod_nsmul_of_exponent (k : ℕ) (P : E) : (k % n) • P = k • P := by
  conv_rhs => rw [← Nat.mod_add_div k n, add_nsmul, mul_nsmul, hn, nsmul_zero, add_zero]

/-- The reference's scalar `w·a` in `Fr` acts as the integer product `w·a`. -/
theorem val_mul_natCast_nsmul (w : ZMod n) (a : ℕ) (P : E) :
    (w * (a : ZMod n)).val • P = (w.val * a) • P := by
  rw [ZMod.val_mul, ZMod.val_natCast, mod_nsmul_of_exponent hn, ← mod_nsmul_of_exponent hn,
    Nat.mul_mod, Nat.mod_mod, ← Nat.mul_mod, mod_nsmul_of_exponent hn]

end Exponent

/-! ## One candidate -/

variable [Fact p.Prime]

/-- The point `verify` compares with `r`: `w·(z·G + r·Q)`, once the three scalar
multiplications have returned. -/
theorem wb_sub_shiftPoint {msgHash r : ZMod p} {w : ZMod n} {Q zg rq wb : E}
    (hzg : C.mimicEcMultAir msgHash.val C.generator (-C.shiftPoint) = some (some zg))
    (hrq : C.mimicEcMultAir r.val Q C.shiftPoint = some (some rq))
    (hwb : C.mimicEcMultAir w.val (zg + rq) C.shiftPoint = some (some wb)) :
    wb - C.shiftPoint = (w.val * msgHash.val) • C.generator + (w.val * r.val) • Q := by
  obtain ⟨rfl, -⟩ := C.mimicEcMultAir_eq_some hzg
  obtain ⟨rfl, -⟩ := C.mimicEcMultAir_eq_some hrq
  obtain ⟨rfl, -⟩ := C.mimicEcMultAir_eq_some hwb
  have hB : -C.shiftPoint + msgHash.val • C.generator + (C.shiftPoint + r.val • Q) =
      msgHash.val • C.generator + r.val • Q := by abel
  rw [hB, add_sub_cancel_left, nsmul_add, mul_nsmul', mul_nsmul']

/-- **The check of one candidate is the reference check.** Where the three scalar
multiplications return, `verify`'s test `(w·(z·G + r·Q) - SHIFT).x = r` answers the reference
check. -/
theorem decide_ecdsaAccepts_of_checkCandidate (hn : ∀ P : E, n • P = 0) {msgHash r : ZMod p}
    {w : ZMod n} {Q : E} {ok : Bool} (h : C.checkCandidate msgHash r w Q = some ok) :
    decide (C.EcdsaAccepts msgHash r w Q) = ok := by
  obtain ⟨zg, hzg, rq, hrq, wb, hwb, rfl⟩ := C.checkCandidate_eq_some.mp h
  simp only [EcdsaAccepts, val_mul_natCast_nsmul hn, ← C.wb_sub_shiftPoint hzg hrq hwb]

/-! ## The candidates -/

/-- The loop over the candidates, where it returns, returns the first candidate the
reference check accepts. -/
theorem verifyLoop_eq_find? (hn : ∀ P : E, n • P = 0) {msgHash r pubkeyX : ZMod p}
    {w : ZMod n} : ∀ {ys : List (ZMod p)} {res : Option E},
      C.verifyLoop msgHash r w pubkeyX ys = some res →
        res = (ys.map (C.newUnchecked pubkeyX)).find? fun Q => decide (C.EcdsaAccepts msgHash r w Q)
  | [], res, h => by
    simp only [verifyLoop, Option.some.injEq] at h
    subst h
    rfl
  | y :: ys, res, h => by
    simp only [verifyLoop, Option.bind_eq_bind, Option.bind_eq_some] at h
    obtain ⟨ok, hok, h⟩ := h
    simp only [List.map_cons, List.find?_cons, C.decide_ecdsaAccepts_of_checkCandidate hn hok]
    cases ok with
    | false => exact verifyLoop_eq_find? hn h
    | true => exact (Option.some.inj h).symm

omit [Fact p.Prime] in
/-- The loop over the candidates panics where the check of a candidate panics after every
candidate before it was rejected. -/
theorem verifyLoop_cons_eq_none {msgHash r pubkeyX y : ZMod p} {w : ZMod n} {ys : List (ZMod p)} :
    C.verifyLoop msgHash r w pubkeyX (y :: ys) = none ↔
      C.checkCandidate msgHash r w (C.newUnchecked pubkeyX y) = none ∨
        (C.checkCandidate msgHash r w (C.newUnchecked pubkeyX y) = some false ∧
          C.verifyLoop msgHash r w pubkeyX ys = none) := by
  cases h : C.checkCandidate msgHash r w (C.newUnchecked pubkeyX y) with
  | none => simp [verifyLoop, h]
  | some ok => cases ok <;> simp [verifyLoop, h]

/-- **`verify` refines the reference verification.** `verify` either panics or returns what
`verifySpec` returns. It panics exactly where `verifySpec` does (on `s = 0` or a `pubkey_x`
off the curve), where the check of the first candidate panics, or where the first candidate
is rejected and the check of the second panics. -/
theorem verify_refines_verifySpec [Fact n.Prime] (hn : ∀ P : E, n • P = 0)
    (msgHash r : ZMod p) (s : ZMod n) (pubkeyX : ZMod p) :
    (C.verify msgHash r s pubkeyX = none ∨
        C.verify msgHash r s pubkeyX = C.verifySpec msgHash r s pubkeyX) ∧
      (C.verify msgHash r s pubkeyX = none ↔ C.verifySpec msgHash r s pubkeyX = none ∨
        ∃ w y₁ y₀, inverse s = some w ∧ C.getYsFromXUnchecked pubkeyX = some (y₁, y₀) ∧
          (C.checkCandidate msgHash r w (C.newUnchecked pubkeyX y₁) = none ∨
            (C.checkCandidate msgHash r w (C.newUnchecked pubkeyX y₁) = some false ∧
              C.checkCandidate msgHash r w (C.newUnchecked pubkeyX y₀) = none))) := by
  cases hs : inverse s with
  | none => simp [verify, verifySpec, hs]
  | some w =>
    cases hys : C.getYsFromXUnchecked pubkeyX with
    | none => simp [verify, verifySpec, hs, hys]
    | some ys =>
      obtain ⟨y₁, y₀⟩ := ys
      have hv : C.verify msgHash r s pubkeyX = C.verifyLoop msgHash r w pubkeyX [y₁, y₀] := by
        simp [verify, hs, hys]
      have hspec : C.verifySpec msgHash r s pubkeyX = some (([y₁, y₀].map (C.newUnchecked pubkeyX)).find?
          fun Q => decide (C.EcdsaAccepts msgHash r w Q)) := by
        simp [verifySpec, hs, hys]
      rw [hv, hspec]
      refine ⟨?_, ?_⟩
      · rcases hl : C.verifyLoop msgHash r w pubkeyX [y₁, y₀] with _ | res
        · exact .inl rfl
        · exact .inr (congrArg some (C.verifyLoop_eq_find? hn hl))
      · rw [verifyLoop_cons_eq_none, verifyLoop_cons_eq_none]
        simp [verifyLoop, and_assoc]

/-- On the stand-in curve, the signature of the instance with message `2`, `r = 2`, `w = 1`
and `pubkey_x = 2`: `verify` returns, so it returns what the reference verification does. -/
theorem verify_refines_verifySpec_sample :
    (cyclicCurve 1000003 5).verify ((2 : BitVec 256).toNat : ZMod 1000003)
        ((2 : BitVec 256).toNat : ZMod 1000003) (1 : ZMod 1000003) (2 : BitVec 256).toNat =
      (cyclicCurve 1000003 5).verifySpec ((2 : BitVec 256).toNat : ZMod 1000003)
        ((2 : BitVec 256).toNat : ZMod 1000003) (1 : ZMod 1000003) (2 : BitVec 256).toNat := by
  obtain ⟨-, hv, -⟩ := sample_accepted
  exact (verify_refines_verifySpec _ (Cyclic.nsmul_self 1000003) _ _ _ _).1.resolve_left
    (by rw [hv]; exact Option.some_ne_none _)

end Curve

/-! ## Traces -/

section Traces

variable {p : ℕ} [Fact p.Prime] {E : Type} [AddCommGroup E] [DecidableEq E] (C : Curve p E)
  (n : ℕ) [Fact n.Prime]

/-- **`InstanceTrace::new` only traces valid signatures.** A trace it returns is for a public
key with the instance's `x`-coordinate that the reference check accepts for the instance's
message hash, `r` and `w`. -/
theorem new_accepts (hn : ∀ P : E, n • P = 0) {inst : EcdsaInstance} {T : InstanceTrace p E}
    (h : InstanceTrace.new C n inst = some T) :
    C.x T.pubkey = (inst.pubkeyX.toNat : ZMod p) ∧
      C.EcdsaAccepts (inst.message.toNat : ZMod p) (inst.signature.r.toNat : ZMod p)
        (inst.signature.w.toNat : ZMod n) T.pubkey := by
  obtain ⟨s, -, -, -, hs, hv, -⟩ := new_eq_some C n h
  obtain ⟨w, -, -, hw, -, -, hcheck⟩ := C.verify_eq_some_some hv
  -- `verify` inverts `s = w⁻¹` back to the instance's `w`
  obtain ⟨-, rfl⟩ := inverse_eq_some_iff.mp hs
  obtain ⟨-, rfl⟩ := inverse_eq_some_iff.mp hw
  rw [inv_inv] at hcheck
  exact ⟨C.x_of_verify_eq_some_some hv,
    of_decide_eq_true (C.decide_ecdsaAccepts_of_checkCandidate hn hcheck)⟩

/-- On the stand-in curve, the instance with message `2`, `r = 2`, `w = 1` and
`pubkey_x = 2`. -/
theorem new_accepts_sample :
    ∃ T, InstanceTrace.new (cyclicCurve 1000003 5) 1000003 ⟨0, 2, 2, ⟨2, 1⟩⟩ = some T ∧
      (cyclicCurve 1000003 5).EcdsaAccepts ((2 : BitVec 256).toNat : ZMod 1000003)
        ((2 : BitVec 256).toNat : ZMod 1000003) ((1 : BitVec 256).toNat : ZMod 1000003) T.pubkey := by
  obtain ⟨hs, hv, hok⟩ := sample_accepted
  have hnew : (InstanceTrace.new (cyclicCurve 1000003 5) 1000003 ⟨0, 2, 2, ⟨2, 1⟩⟩).isSome :=
    new_isSome_of _ _ hs hv hok
  obtain ⟨T, hT⟩ := Option.isSome_iff_exists.mp hnew
  exact ⟨T, hT, (new_accepts _ _ (Cyclic.nsmul_self 1000003) hT).2⟩

end Traces

end Sandstorm
