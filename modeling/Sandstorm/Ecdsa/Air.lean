import Sandstorm.Ecdsa.Trace

/-!
# What the ECDSA AIR reads of a trace

The AIR of the ECDSA builtin reads the points each chain of a trace adds from elsewhere than
the chain. For `z·G` they are its periodic columns, the doublings of the generator:
`generator_points_poly` walks `2^i·G` for `i < 256` and interpolates their affine coordinates
(the interpolation, `gen_periodic_table`, is another crate's; the points are
`generatorPointsEvals_eq`). For `r·Q` and `w·B` they are the doubling columns of `Q` and `B`
that the trace holds.

* `new_zgSteps_generatorPoints`: row `i` of the `z·G` chain adds the point the columns hold at
  `i`.
* `new_chains_doublings`: row `i` of the `r·Q` and `w·B` chains adds the point of row `i` of
  the doubling column of `Q` and of `B`.
-/

namespace Sandstorm

namespace Curve

variable {p : ℕ} {E : Type} [AddCommGroup E] (C : Curve p E)

/-- `k` iterations of the loop of `generator_points_poly` from `acc`: push the coordinates of
`acc.into_affine()`, then `acc.double_in_place()`. -/
def generatorPointsLoop : ℕ → E → List (ZMod p × ZMod p)
  | 0, _ => []
  | k + 1, acc => (C.x acc, C.y acc) :: generatorPointsLoop k (acc + acc)

/-- The evaluations `generator_points_poly` interpolates: 256 iterations from
`Curve::GENERATOR`. -/
def generatorPointsEvals : List (ZMod p × ZMod p) := C.generatorPointsLoop 256 C.generator

/-- Iteration `i` of the loop pushes `2^i·acc`. -/
theorem generatorPointsLoop_eq (k : ℕ) (acc : E) :
    C.generatorPointsLoop k acc =
      (List.range k).map fun i => (C.x (2 ^ i • acc), C.y (2 ^ i • acc)) := by
  induction k generalizing acc with
  | zero => rfl
  | succ k ih =>
    rw [generatorPointsLoop, ih, List.range_succ_eq_map, List.map_cons, List.map_map]
    simp only [pow_zero, one_nsmul, Function.comp_def, two_pow_nsmul_add_self]

theorem generatorPointsEvals_eq :
    C.generatorPointsEvals =
      (List.range 256).map fun i => (C.x (2 ^ i • C.generator), C.y (2 ^ i • C.generator)) :=
  C.generatorPointsLoop_eq 256 C.generator

end Curve

variable {p : ℕ} [Fact p.Prime] {E : Type} [AddCommGroup E] [DecidableEq E] (C : Curve p E)
  (n : ℕ) [Fact n.Prime]

/-- **The trace reads the generator columns.** In every trace `InstanceTrace::new` returns,
the fixed points of the 256 rows of the `z·G` chain have, row by row, the coordinates that
`generator_points_poly` interpolates. -/
theorem new_zgSteps_generatorPoints {inst : EcdsaInstance} {T : InstanceTrace p E}
    (h : InstanceTrace.new C n inst = some T) :
    T.zgSteps.map (fun st => (C.x st.fixedPoint, C.y st.fixedPoint)) = C.generatorPointsEvals := by
  obtain ⟨s, zg, qr, wb, -, -, -, -, -, -, -, -, -, hzg, -⟩ := new_eq_some C n h
  obtain ⟨-, -, hlen, hrows⟩ := C.genEcMultSteps_spec hzg
  rw [C.generatorPointsEvals_eq]
  refine List.ext_getElem (by rw [List.length_map, List.length_map, List.length_range, hlen])
    fun i h₁ _ => ?_
  rw [List.getElem_map, List.getElem_map, List.getElem_range,
    (hrows i (by rwa [List.length_map] at h₁)).fixedPoint_eq]
  rfl

/-- On the stand-in curve, with the instance of message `2`, `r = 2`, `w = 1` and
`pubkey_x = 2`. -/
theorem new_zgSteps_generatorPoints_sample :
    ∃ T, InstanceTrace.new (cyclicCurve 1000003 5) 1000003 ⟨0, 2, 2, ⟨2, 1⟩⟩ = some T ∧
      T.zgSteps.map (fun st => ((cyclicCurve 1000003 5).x st.fixedPoint,
        (cyclicCurve 1000003 5).y st.fixedPoint)) = (cyclicCurve 1000003 5).generatorPointsEvals := by
  obtain ⟨hs, hv, hok⟩ := sample_accepted
  have hnew : (InstanceTrace.new (cyclicCurve 1000003 5) 1000003 ⟨0, 2, 2, ⟨2, 1⟩⟩).isSome :=
    new_isSome_of _ _ hs hv hok
  obtain ⟨T, hT⟩ := Option.isSome_iff_exists.mp hnew
  exact ⟨T, hT, new_zgSteps_generatorPoints _ _ hT⟩

/-- A chain of `gen_ec_mult_steps` for `x·P` and the doubling chain of `P` hold the same point
at every row, `2^i·P`. -/
theorem fixedPoints_eq_doublings {x : ℕ} {P S : E} {L : List (EcMultPartialStep p E)}
    {D : List (DoublingStep p E)} (hL : C.genEcMultSteps x P S = some L)
    (hD : C.doublingSteps P = some D) : L.map (·.fixedPoint) = D.map (·.point) := by
  obtain ⟨-, -, hlen, hrows⟩ := C.genEcMultSteps_spec hL
  obtain ⟨hlenD, hpts⟩ := C.doublingSteps_spec hD
  refine List.ext_getElem (by rw [List.length_map, List.length_map, hlen, hlenD]) fun i h₁ h₂ => ?_
  rw [List.getElem_map, List.getElem_map, (hrows i (by rwa [List.length_map] at h₁)).fixedPoint_eq,
    (hpts i (by rwa [List.length_map] at h₂)).1]
  rfl

/-- **The chains add the points of the doubling columns.** In every trace `InstanceTrace::new`
returns, row `i` of the `r·Q` chain adds the point of row `i` of the public key's doubling
column, and row `i` of the `w·B` chain the point of row `i` of `B`'s, though
`gen_ec_mult_steps` and `doubling_steps` compute them in separate loops: a chain's fixed
points can be read from the doubling column of its base point. -/
theorem new_chains_doublings {inst : EcdsaInstance} {T : InstanceTrace p E}
    (h : InstanceTrace.new C n inst = some T) :
    T.rqSteps.map (·.fixedPoint) = T.pubkeyDoublingSteps.map (·.point) ∧
    T.wbSteps.map (·.fixedPoint) = T.bDoublingSteps.map (·.point) := by
  obtain ⟨s, zg, qr, wb, -, -, -, -, -, -, -, hbD, -, -, hrq, hwb, -, -, -, -, -, -, -, -, -,
    hpD, -⟩ := new_eq_some C n h
  exact ⟨fixedPoints_eq_doublings C hrq hpD, fixedPoints_eq_doublings C hwb hbD⟩

/-- On the stand-in curve, the instance of message `2`, `r = 2`, `w = 1` and
`pubkey_x = 2`. -/
theorem new_chains_doublings_sample :
    ∃ T, InstanceTrace.new (cyclicCurve 1000003 5) 1000003 ⟨0, 2, 2, ⟨2, 1⟩⟩ = some T ∧
      T.rqSteps.map (·.fixedPoint) = T.pubkeyDoublingSteps.map (·.point) ∧
      T.wbSteps.map (·.fixedPoint) = T.bDoublingSteps.map (·.point) := by
  obtain ⟨hs, hv, hok⟩ := sample_accepted
  have hnew : (InstanceTrace.new (cyclicCurve 1000003 5) 1000003 ⟨0, 2, 2, ⟨2, 1⟩⟩).isSome :=
    new_isSome_of _ _ hs hv hok
  obtain ⟨T, hT⟩ := Option.isSome_iff_exists.mp hnew
  exact ⟨T, hT, new_chains_doublings _ _ hT⟩

end Sandstorm
