import Sandstorm.Binary.Builtins
import Sandstorm.Ecdsa.ScalarMult

/-!
# Trace generation for the ECDSA builtin

`InstanceTrace::new` reads an `EcdsaInstance`, checks its signature with `verify`, and
records the three scalar multiplications `z·G`, `r·Q` and `w·B` of the AIR row by row, with
the doublings of `Q` and `B` and the inverses the AIR needs. Every `unwrap`, `expect` and
`assert_eq!` on the way is a panic, `none` here; `verify` returns `Option (Option E)`, the
outer `none` its own panics.

* `verify_eq_some_some`: a key `verify` accepts is a candidate for `pubkey_x` that passes.
* `verify_eq_none_of_checkCandidate`: `verify` panics where the first candidate's scalar
  multiplications do, whatever the second candidate.
* `new_spec`: the relations between the fields of a returned trace.
* `new_isSome_iff`: when `InstanceTrace::new` returns.
* `new_eq_none_of_x_eq`: `InstanceTrace::new` panics on a signature `verify` accepts where
  `zG - SHIFT` and `rQ + SHIFT` share an `x`-coordinate.
-/

namespace Sandstorm

/-- `InstanceTrace`. -/
structure InstanceTrace (p : ℕ) (E : Type) where
  /-- `instance`. -/
  inst : EcdsaInstance
  pubkey : E
  pubkeyDoublingSteps : List (DoublingStep p E)
  w : ZMod p
  wInv : ZMod p
  r : ZMod p
  rInv : ZMod p
  rPointSlope : ZMod p
  rPointXDiffInv : ZMod p
  message : ZMod p
  messageInv : ZMod p
  b : E
  bSlope : ZMod p
  bXDiffInv : ZMod p
  bDoublingSteps : List (DoublingStep p E)
  zgSteps : List (EcMultPartialStep p E)
  rqSteps : List (EcMultPartialStep p E)
  wbSteps : List (EcMultPartialStep p E)

/-- `x.unwrap()` and the rest of the function after it: a panic where `x` is `None`. Kept out
of line, so that a long chain of them compiles in linear time. -/
@[noinline]
def unwrapThen {α β : Type} (x : Option α) (f : α → Option β) : Option β := x.bind f

@[simp]
theorem unwrapThen_eq_some {α β : Type} {x : Option α} {f : α → Option β} {b : β} :
    unwrapThen x f = some b ↔ ∃ a, x = some a ∧ f a = some b :=
  Option.bind_eq_some

@[simp]
theorem unwrapThen_some {α β : Type} (a : α) (f : α → Option β) : unwrapThen (some a) f = f a := rfl

@[simp]
theorem unwrapThen_none {α β : Type} (f : α → Option β) : unwrapThen none f = none := rfl

/-- `assert_eq!(a, b)`: a panic unless `a = b`. -/
def assertEq {α : Type} [DecidableEq α] (a b : α) : Option Unit := if a = b then some () else none

theorem assertEq_of_eq {α : Type} [DecidableEq α] {a b : α} (h : a = b) : assertEq a b = some () :=
  if_pos h

@[simp]
theorem assertEq_eq_some {α : Type} [DecidableEq α] {a b : α} {u : Unit} :
    assertEq a b = some u ↔ a = b := by
  by_cases h : a = b <;> simp [assertEq, h]

namespace Curve

variable {p : ℕ} {E : Type} [AddCommGroup E] (C : Curve p E) {n : ℕ}

/-! ## `verify` -/

/-- The body of the loop of `verify` for one candidate public key: the three calls of
`mimic_ec_mult_air(..).unwrap()` (a `None` is a panic, as is a panic inside the call) and
whether `(w·(z·G + r·Q) - SHIFT).x = r`. -/
def checkCandidate (msgHash r : ZMod p) (w : ZMod n) (pubkey : E) : Option Bool := do
  let zg ← (C.mimicEcMultAir msgHash.val C.generator (-C.shiftPoint)).join
  let rq ← (C.mimicEcMultAir r.val pubkey C.shiftPoint).join
  let wb ← (C.mimicEcMultAir w.val (zg + rq) C.shiftPoint).join
  some (r = C.x (wb - C.shiftPoint))

/-- `for pubkey_y in [y1, y0]`: the first candidate that passes. -/
def verifyLoop (msgHash r : ZMod p) (w : ZMod n) (pubkeyX : ZMod p) :
    List (ZMod p) → Option (Option E)
  | [] => some none
  | pubkeyY :: ys => do
    let pubkey := C.newUnchecked pubkeyX pubkeyY
    if ← C.checkCandidate msgHash r w pubkey then some (some pubkey)
    else verifyLoop msgHash r w pubkeyX ys

/-- `verify(msg_hash, r, s, pubkey_x)`: `w = s⁻¹` in the scalar field `Fr` (of order `n`),
the two `y` of `pubkey_x` (`expect("not on the curve")`), then the candidates in the order
`y1`, `y0`. -/
def verify [Fact n.Prime] (msgHash r : ZMod p) (s : ZMod n) (pubkeyX : ZMod p) :
    Option (Option E) := do
  let w ← inverse s
  let (y₁, y₀) ← C.getYsFromXUnchecked pubkeyX
  C.verifyLoop msgHash r w pubkeyX [y₁, y₀]

theorem checkCandidate_eq_some {msgHash r : ZMod p} {w : ZMod n} {pubkey : E} {ok : Bool} :
    C.checkCandidate msgHash r w pubkey = some ok ↔
      ∃ zg, C.mimicEcMultAir msgHash.val C.generator (-C.shiftPoint) = some (some zg) ∧
        ∃ rq, C.mimicEcMultAir r.val pubkey C.shiftPoint = some (some rq) ∧
        ∃ wb, C.mimicEcMultAir w.val (zg + rq) C.shiftPoint = some (some wb) ∧
          decide (r = C.x (wb - C.shiftPoint)) = ok := by
  simp only [checkCandidate, Option.bind_eq_bind, Option.bind_eq_some, Option.some.injEq,
    Option.join_eq_some]

theorem verifyLoop_eq_some_some {msgHash r pubkeyX : ZMod p} {w : ZMod n} {Q : E} :
    ∀ {ys : List (ZMod p)}, C.verifyLoop msgHash r w pubkeyX ys = some (some Q) →
      ∃ y ∈ ys, Q = C.newUnchecked pubkeyX y ∧ C.checkCandidate msgHash r w Q = some true
  | [], h => by simp [verifyLoop] at h
  | y :: ys, h => by
    simp only [verifyLoop, Option.bind_eq_bind, Option.bind_eq_some] at h
    obtain ⟨ok, hok, h⟩ := h
    cases ok with
    | false =>
      obtain ⟨y', hy', h⟩ := verifyLoop_eq_some_some h
      exact ⟨y', List.mem_cons_of_mem y hy', h⟩
    | true =>
      cases h
      exact ⟨y, List.mem_cons_self y ys, rfl, hok⟩

/-- **What `verify` accepts.** A public key `verify` returns is one of the two candidates for
`pubkey_x`, and it passes the check. -/
theorem verify_eq_some_some [Fact n.Prime] {msgHash r pubkeyX : ZMod p} {s : ZMod n} {Q : E}
    (h : C.verify msgHash r s pubkeyX = some (some Q)) :
    ∃ w y₁ y₀, inverse s = some w ∧ C.getYsFromXUnchecked pubkeyX = some (y₁, y₀) ∧
      (Q = C.newUnchecked pubkeyX y₁ ∨ Q = C.newUnchecked pubkeyX y₀) ∧
      C.checkCandidate msgHash r w Q = some true := by
  simp only [verify, Option.bind_eq_bind, Option.bind_eq_some] at h
  obtain ⟨w, hw, ⟨y₁, y₀⟩, hys, h⟩ := h
  obtain ⟨y, hy, rfl, hok⟩ := C.verifyLoop_eq_some_some h
  simp only [List.mem_cons, List.mem_singleton, List.not_mem_nil, or_false] at hy
  exact ⟨w, y₁, y₀, hw, hys, hy.imp (congrArg _) (congrArg _), hok⟩

/-- A public key `verify` returns has the `x`-coordinate it was given. -/
theorem x_of_verify_eq_some_some [Fact n.Prime] {msgHash r pubkeyX : ZMod p} {s : ZMod n}
    {Q : E} (h : C.verify msgHash r s pubkeyX = some (some Q)) : C.x Q = pubkeyX := by
  obtain ⟨-, y₁, y₀, -, hys, hQ, -⟩ := C.verify_eq_some_some h
  have := C.x_newUnchecked hys
  rcases hQ with rfl | rfl
  exacts [this.1, this.2]

/-- `verify` once `w = s⁻¹` is computed. -/
theorem verify_eq [Fact n.Prime] {msgHash r pubkeyX : ZMod p} {s w : ZMod n}
    (hs : inverse s = some w) :
    C.verify msgHash r s pubkeyX = (C.getYsFromXUnchecked pubkeyX).bind fun ys =>
      C.verifyLoop msgHash r w pubkeyX [ys.1, ys.2] := by
  simp [verify, hs]

/-- **`verify` panics on the first candidate.** Where the checks of the first candidate
`(pubkey_x, y1)` panic (a `mimic_ec_mult_air` call returns `None`), `verify` panics, whatever
the second candidate. -/
theorem verify_eq_none_of_checkCandidate [Fact n.Prime] {msgHash r pubkeyX y₁ y₀ : ZMod p}
    {s w : ZMod n} (hs : inverse s = some w) (hys : C.getYsFromXUnchecked pubkeyX = some (y₁, y₀))
    (h₁ : C.checkCandidate msgHash r w (C.newUnchecked pubkeyX y₁) = none) :
    C.verify msgHash r s pubkeyX = none := by
  simp [verify, hs, hys, verifyLoop, h₁]

/-- On the stand-in curve, with `z = 1`, `r = 6`, `s = 500002` (so `w = 2`) and
`pubkey_x = 333335`: the first candidate `333335` makes `B = SHIFT`, so the last call of
`mimic_ec_mult_air` returns `None`, while the second candidate `666668` passes. -/
theorem verify_eq_none_of_checkCandidate_sample :
    (cyclicCurve 1000003 5).getYsFromXUnchecked 333335 = some (333335, 666668) ∧
      (cyclicCurve 1000003 5).checkCandidate 1 6 (2 : ZMod 1000003) 666668 = some true ∧
      (cyclicCurve 1000003 5).verify 1 6 (500002 : ZMod 1000003) 333335 = none := by
  have hp : modulusBitSize 1000003 ≤ 257 := by decide
  have hs : inverse (500002 : ZMod 1000003) = some 2 :=
    inverse_eq_some_iff.mpr ⟨by decide, eq_inv_of_mul_eq_one_left (by decide)⟩
  have hys : (cyclicCurve 1000003 5).getYsFromXUnchecked 333335 = some (333335, 666668) := by
    decide
  refine ⟨hys, ?_, verify_eq_none_of_checkCandidate _ hs hys ?_⟩ <;>
  · simp only [checkCandidate, mimicEcMultAir_eq _ hp]
    decide

end Curve

/-! ## Chains -/

section Chains

variable {p : ℕ} {E : Type} [AddCommGroup E]

/-- A chain of `gen_ec_mult_steps` for `k·P` from the shift `S`, as `InstanceTrace` holds it:
256 rows, the first at `(S, P, suffix)`, and the last partial sum less `S` is `k·P`. -/
structure IsChain (L : List (EcMultPartialStep p E)) (S P : E) (suffix : ZMod p) (k : ℕ) :
    Prop where
  length_eq : L.length = 256
  head_eq : L[0]?.map (fun st => (st.partialSum, st.fixedPoint, st.suffix)) = some (S, P, suffix)
  last_sub : L[255]?.map (fun st => st.partialSum - S) = some (k • P)

/-- A doubling chain of `P`: 256 rows, row `i` at `2^i·P`. -/
structure IsDoubling (L : List (DoublingStep p E)) (P : E) : Prop where
  length_eq : L.length = 256
  point_eq : ∀ i (hi : i < L.length), L[i].point = 2 ^ i • P

end Chains

namespace Curve

variable {p : ℕ} [Fact p.Prime] {E : Type} [AddCommGroup E] [DecidableEq E] (C : Curve p E)

theorem isChain_of_genEcMultSteps {x : ℕ} {P S : E} {L : List (EcMultPartialStep p E)}
    (h : C.genEcMultSteps x P S = some L) : IsChain L S P (x : ZMod p) x := by
  obtain ⟨-, -, hlen, hrows⟩ := C.genEcMultSteps_spec h
  have hr₀ := hrows 0 (by omega)
  obtain ⟨last, hlast, hps⟩ := Option.map_eq_some'.mp (C.genEcMultSteps_last h)
  refine ⟨hlen, ?_, by rw [hlast, Option.map_some', hps, add_sub_cancel_left]⟩
  rw [List.getElem?_eq_getElem (by omega), Option.map_some', hr₀.partialSum_eq,
    hr₀.fixedPoint_eq, hr₀.suffix_eq, chainState_zero, pow_zero, Nat.div_one]

/-- The last row of a returned chain has the partial sum `S + x·P` that `mimic_ec_mult_air`
returns. -/
theorem getLast?_of_genEcMultSteps {x : ℕ} {P S : E} {L : List (EcMultPartialStep p E)}
    (h : C.genEcMultSteps x P S = some L) : L.getLast?.map (·.partialSum) = some (S + x • P) := by
  rw [List.getLast?_eq_getElem?, (C.genEcMultSteps_spec h).2.2.1]
  exact C.genEcMultSteps_last h

theorem isDoubling_of_doublingSteps {P : E} {L : List (DoublingStep p E)}
    (h : C.doublingSteps P = some L) : IsDoubling L P :=
  ⟨(C.doublingSteps_spec h).1, fun i hi => ((C.doublingSteps_spec h).2 i hi).1⟩

end Curve

/-! ## `InstanceTrace::new` -/

variable {p : ℕ} [Fact p.Prime] {E : Type} [AddCommGroup E] [DecidableEq E] (C : Curve p E)
  (n : ℕ) [Fact n.Prime]

/-- `InstanceTrace::new(instance)`, with `n` the order of `Fr`. -/
def InstanceTrace.new (inst : EcdsaInstance) : Option (InstanceTrace p E) :=
  let message : ZMod p := inst.message.toNat
  let pubkeyX : ZMod p := inst.pubkeyX.toNat
  let r : ZMod p := inst.signature.r.toNat
  let w : ZMod n := inst.signature.w.toNat
  unwrapThen (inverse w) fun s =>
  unwrapThen (C.verify message r s pubkeyX).join fun pubkey =>
  unwrapThen (C.mimicEcMultAir message.val C.generator (-C.shiftPoint)).join fun zg =>
  unwrapThen (C.mimicEcMultAir r.val pubkey C.shiftPoint).join fun qr =>
  let b := zg + qr
  unwrapThen (C.calculateSlope zg qr) fun bSlope =>
  unwrapThen (inverse (C.x zg - C.x qr)) fun bXDiffInv =>
  unwrapThen (C.doublingSteps b) fun bDoublingSteps =>
  unwrapThen (C.mimicEcMultAir w.val b C.shiftPoint).join fun wb =>
  unwrapThen (C.genEcMultSteps message.val C.generator (-C.shiftPoint)) fun zgSteps =>
  unwrapThen (C.genEcMultSteps r.val pubkey C.shiftPoint) fun rqSteps =>
  unwrapThen (C.genEcMultSteps w.val b C.shiftPoint) fun wbSteps =>
  unwrapThen zgSteps.getLast? fun zgLast =>
  unwrapThen (assertEq zg zgLast.partialSum) fun _ =>
  unwrapThen rqSteps.getLast? fun rqLast =>
  unwrapThen (assertEq qr rqLast.partialSum) fun _ =>
  unwrapThen wbSteps.getLast? fun wbLast =>
  unwrapThen (assertEq wb wbLast.partialSum) fun _ =>
  let w : ZMod p := w.val
  unwrapThen (inverse w) fun wInv =>
  unwrapThen (inverse r) fun rInv =>
  unwrapThen (inverse message) fun messageInv =>
  unwrapThen (C.doublingSteps pubkey) fun pubkeyDoublingSteps =>
  unwrapThen (C.calculateSlope wb (-C.shiftPoint)) fun rPointSlope =>
  unwrapThen (inverse (C.x wb - C.x (-C.shiftPoint))) fun rPointXDiffInv =>
  unwrapThen (assertEq r (C.x (wb - C.shiftPoint))) fun _ =>
  some
    { inst := inst
      pubkey := pubkey
      pubkeyDoublingSteps := pubkeyDoublingSteps
      w := w
      wInv := wInv
      r := r
      rInv := rInv
      rPointSlope := rPointSlope
      rPointXDiffInv := rPointXDiffInv
      message := message
      messageInv := messageInv
      b := b
      bSlope := bSlope
      bXDiffInv := bXDiffInv
      bDoublingSteps := bDoublingSteps
      zgSteps := zgSteps
      rqSteps := rqSteps
      wbSteps := wbSteps }

/-- Everything a returned trace is made of: `verify` accepted its public key, and every
`unwrap` and `assert_eq!` of `InstanceTrace::new` passed. -/
theorem new_eq_some {inst : EcdsaInstance} {T : InstanceTrace p E}
    (h : InstanceTrace.new C n inst = some T) :
    let z : ZMod p := inst.message.toNat
    let r : ZMod p := inst.signature.r.toNat
    let w : ZMod n := inst.signature.w.toNat
    ∃ s zg qr wb, inverse w = some s ∧
      C.verify z r s inst.pubkeyX.toNat = some (some T.pubkey) ∧
      C.mimicEcMultAir z.val C.generator (-C.shiftPoint) = some (some zg) ∧
      C.mimicEcMultAir r.val T.pubkey C.shiftPoint = some (some qr) ∧
      T.b = zg + qr ∧ C.calculateSlope zg qr = some T.bSlope ∧
      inverse (C.x zg - C.x qr) = some T.bXDiffInv ∧ C.doublingSteps T.b = some T.bDoublingSteps ∧
      C.mimicEcMultAir w.val T.b C.shiftPoint = some (some wb) ∧
      C.genEcMultSteps z.val C.generator (-C.shiftPoint) = some T.zgSteps ∧
      C.genEcMultSteps r.val T.pubkey C.shiftPoint = some T.rqSteps ∧
      C.genEcMultSteps w.val T.b C.shiftPoint = some T.wbSteps ∧
      T.zgSteps.getLast?.map (·.partialSum) = some zg ∧
      T.rqSteps.getLast?.map (·.partialSum) = some qr ∧
      T.wbSteps.getLast?.map (·.partialSum) = some wb ∧
      T.w = (w.val : ZMod p) ∧ inverse T.w = some T.wInv ∧ T.r = r ∧ inverse r = some T.rInv ∧
      T.message = z ∧ inverse z = some T.messageInv ∧
      C.doublingSteps T.pubkey = some T.pubkeyDoublingSteps ∧
      C.calculateSlope wb (-C.shiftPoint) = some T.rPointSlope ∧
      inverse (C.x wb - C.x (-C.shiftPoint)) = some T.rPointXDiffInv ∧
      r = C.x (wb - C.shiftPoint) ∧ T.inst = inst := by
  simp only [InstanceTrace.new, unwrapThen_eq_some, Option.join_eq_some, assertEq_eq_some,
    Option.some.injEq] at h
  obtain ⟨s, hs, Q, hv, zg, hzg, qr, hqr, bSlope, hbs, bXDiffInv, hbx, bD, hbD, wb, hwb, h⟩ := h
  obtain ⟨zgL, hzgL, rqL, hrqL, wbL, hwbL, zgLast, hzgLast, -, hz, rqLast, hrqLast, -, hr, h⟩ := h
  obtain ⟨wbLast, hwbLast, -, hw, wInv, hwInv, rInv, hrInv, mInv, hmInv, pD, hpD, h⟩ := h
  obtain ⟨rPS, hrPS, rPX, hrPX, -, hrx, hT⟩ := h
  subst hT hz hr hw
  exact ⟨s, _, _, _, hs, hv, hzg, hqr, rfl, hbs, hbx, hbD, hwb, hzgL, hrqL, hwbL,
    by rw [hzgLast]; rfl, by rw [hrqLast]; rfl, by rw [hwbLast]; rfl, rfl, hwInv, rfl, hrInv, rfl,
    hmInv, hpD, hrPS, hrPX, hrx, rfl⟩

/-- What `InstanceTrace::new` needs of a public key `Q` beyond the check of `verify`, with
`zG - SHIFT`, `rQ + SHIFT` and `wB + SHIFT` the results of `mimic_ec_mult_air`: the slope and
the `x`-difference of `zG - SHIFT` and `rQ + SHIFT`, the doublings of `B` and `Q`, the rows of
the three chains, and the slope and the `x`-difference of `wB + SHIFT` and `-SHIFT`. -/
def Curve.TraceOk (z r : ZMod p) (w : ZMod n) (Q : E) : Prop :=
  let zg := -C.shiftPoint + z.val • C.generator
  let qr := C.shiftPoint + r.val • Q
  let wb := C.shiftPoint + w.val • (zg + qr)
  (C.calculateSlope zg qr).isSome ∧ C.x zg ≠ C.x qr ∧ (C.doublingSteps (zg + qr)).isSome ∧
    (C.genEcMultSteps z.val C.generator (-C.shiftPoint)).isSome ∧
    (C.genEcMultSteps r.val Q C.shiftPoint).isSome ∧
    (C.genEcMultSteps w.val (zg + qr) C.shiftPoint).isSome ∧ (C.doublingSteps Q).isSome ∧
    (C.calculateSlope wb (-C.shiftPoint)).isSome ∧ C.x wb ≠ C.x (-C.shiftPoint)

omit [Fact n.Prime] in
theorem natCast_ne_zero_of_lt {k : ℕ} (h0 : 0 < k) (hk : k < p) : (k : ZMod p) ≠ 0 := fun h =>
  Nat.not_dvd_of_pos_of_lt h0 hk ((ZMod.natCast_zmod_eq_zero_iff_dvd k p).mp h)

/-- Where `verify` accepts `Q` and `Q` is `TraceOk`, `InstanceTrace::new` returns: its
`assert_eq!` cross-checks hold, and `w`, `r` and `z` are invertible. -/
theorem new_isSome_of {inst : EcdsaInstance} {s : ZMod n} {Q : E}
    (hs : inverse (inst.signature.w.toNat : ZMod n) = some s)
    (hv : C.verify (inst.message.toNat : ZMod p) (inst.signature.r.toNat : ZMod p) s
      inst.pubkeyX.toNat = some (some Q))
    (hok : C.TraceOk n (inst.message.toNat : ZMod p) (inst.signature.r.toNat : ZMod p)
      (inst.signature.w.toNat : ZMod n) Q) :
    (InstanceTrace.new C n inst).isSome := by
  unfold InstanceTrace.new
  dsimp only
  generalize (inst.message.toNat : ZMod p) = z at hv hok ⊢
  generalize (inst.signature.r.toNat : ZMod p) = r at hv hok ⊢
  generalize (inst.signature.w.toNat : ZMod n) = w at hs hok ⊢
  obtain ⟨w', -, -, hw', -, -, hcheck⟩ := C.verify_eq_some_some hv
  obtain ⟨-, rfl⟩ := inverse_eq_some_iff.mp hs
  obtain ⟨-, rfl⟩ := inverse_eq_some_iff.mp hw'
  rw [inv_inv] at hcheck
  obtain ⟨zg, hzg, qr, hqr, wb, hwb, hrx⟩ := C.checkCandidate_eq_some.mp hcheck
  obtain ⟨rfl, hz0, -⟩ := C.mimicEcMultAir_eq_some hzg
  obtain ⟨rfl, hr0, -⟩ := C.mimicEcMultAir_eq_some hqr
  obtain ⟨rfl, hw0, hwlt⟩ := C.mimicEcMultAir_eq_some hwb
  obtain ⟨hbs, hbx, hbD, hzgL, hrqL, hwbL, hpD, hrs, hrx'⟩ := hok
  obtain ⟨bSlope, hbs⟩ := Option.isSome_iff_exists.mp hbs
  obtain ⟨bD, hbD⟩ := Option.isSome_iff_exists.mp hbD
  obtain ⟨zgL, hzgL⟩ := Option.isSome_iff_exists.mp hzgL
  obtain ⟨rqL, hrqL⟩ := Option.isSome_iff_exists.mp hrqL
  obtain ⟨wbL, hwbL⟩ := Option.isSome_iff_exists.mp hwbL
  obtain ⟨pD, hpD⟩ := Option.isSome_iff_exists.mp hpD
  obtain ⟨rPS, hrs⟩ := Option.isSome_iff_exists.mp hrs
  obtain ⟨zgLast, hzgLast, hzgPs⟩ := Option.map_eq_some'.mp (C.getLast?_of_genEcMultSteps hzgL)
  obtain ⟨rqLast, hrqLast, hrqPs⟩ := Option.map_eq_some'.mp (C.getLast?_of_genEcMultSteps hrqL)
  obtain ⟨wbLast, hwbLast, hwbPs⟩ := Option.map_eq_some'.mp (C.getLast?_of_genEcMultSteps hwbL)
  have hbound := Curve.two_pow_modulusBitSize_le p
  have hinv : ∀ {a : ZMod p}, a ≠ 0 → inverse a = some a⁻¹ := fun ha => if_neg ha
  have hval : ∀ {a : ZMod p}, 0 < a.val → a ≠ 0 := fun ha h => by simp [h] at ha
  simp only [hs, Option.join_eq_some.mpr hv, Option.join_eq_some.mpr hzg, Option.join_eq_some.mpr hqr, hbs,
    hinv (sub_ne_zero.mpr hbx), hbD, Option.join_eq_some.mpr hwb, hzgL, hrqL, hwbL,
    hzgLast, hrqLast, hwbLast, hzgPs, hrqPs, hwbPs, assertEq_of_eq rfl, hpD, hrs,
    hinv (sub_ne_zero.mpr hrx'), assertEq_of_eq (of_decide_eq_true hrx),
    hinv (natCast_ne_zero_of_lt hw0 (by omega)), hinv (hval hr0), hinv (hval hz0), unwrapThen_some,
    Option.isSome_some]

/-- **When `InstanceTrace::new` returns.** Exactly where `w` is invertible in `Fr`, `verify`
accepts a public key `Q`, and `Q` is `TraceOk`: of the steps of `InstanceTrace::new` past
`verify`, only the `assert_eq!` cross-checks and the inverses of `w`, `r` and `z` cannot fail. -/
theorem new_isSome_iff (inst : EcdsaInstance) :
    (InstanceTrace.new C n inst).isSome ↔
      ∃ s Q, inverse (inst.signature.w.toNat : ZMod n) = some s ∧
        C.verify (inst.message.toNat : ZMod p) (inst.signature.r.toNat : ZMod p) s
          inst.pubkeyX.toNat = some (some Q) ∧
        C.TraceOk n (inst.message.toNat : ZMod p) (inst.signature.r.toNat : ZMod p)
          (inst.signature.w.toNat : ZMod n) Q := by
  refine ⟨fun h => ?_, fun ⟨s, Q, hs, hv, hok⟩ => new_isSome_of C n hs hv hok⟩
  obtain ⟨T, hT⟩ := Option.isSome_iff_exists.mp h
  obtain ⟨s, zg, qr, wb, hs, hv, hzg, hqr, hb, hbs, hbx, hbD, hwb, hzgL, hrqL, hwbL, -, -, -, -, -,
    -, -, -, -, hpD, hrs, hrx, -⟩ := new_eq_some C n hT
  obtain ⟨rfl, -⟩ := C.mimicEcMultAir_eq_some hzg
  obtain ⟨rfl, -⟩ := C.mimicEcMultAir_eq_some hqr
  rw [hb] at hbD hwb hwbL
  obtain ⟨rfl, -⟩ := C.mimicEcMultAir_eq_some hwb
  refine ⟨s, T.pubkey, hs, hv, ?_⟩
  unfold Curve.TraceOk
  have hsome : ∀ {α : Type} {o : Option α} {a : α}, o = some a → o.isSome := fun h => by simp [h]
  exact ⟨hsome hbs, sub_ne_zero.mp (inverse_eq_some_iff.mp hbx).1, hsome hbD, hsome hzgL,
    hsome hrqL, hsome hwbL, hsome hpD, hsome hrs, sub_ne_zero.mp (inverse_eq_some_iff.mp hrx).1⟩

set_option maxRecDepth 8000 in
/-- On the stand-in curve, the instance with message `2`, `r = 2`, `w = 1` and `pubkey_x = 2`
is signed for the second candidate `Q = -2`, which is `TraceOk`. -/
theorem sample_accepted :
    inverse ((1 : BitVec 256).toNat : ZMod 1000003) = some 1 ∧
      (cyclicCurve 1000003 5).verify ((2 : BitVec 256).toNat : ZMod 1000003)
        ((2 : BitVec 256).toNat : ZMod 1000003) (1 : ZMod 1000003) (2 : BitVec 256).toNat =
        some (some 1000001) ∧
      (cyclicCurve 1000003 5).TraceOk 1000003 ((2 : BitVec 256).toNat : ZMod 1000003)
        ((2 : BitVec 256).toNat : ZMod 1000003) ((1 : BitVec 256).toNat : ZMod 1000003) 1000001 := by
  have hp : modulusBitSize 1000003 ≤ 257 := by decide
  have hs : inverse (1 : ZMod 1000003) = some 1 := inverse_eq_some_iff.mpr ⟨one_ne_zero, inv_one.symm⟩
  refine ⟨by rwa [show ((1 : BitVec 256).toNat : ZMod 1000003) = 1 by decide], ?_, ?_⟩
  · rw [Curve.verify_eq _ hs]
    simp only [Curve.verifyLoop, Curve.checkCandidate, Curve.mimicEcMultAir_eq _ hp]
    decide
  · simp only [Curve.TraceOk, Curve.doublingSteps_isSome_iff, Curve.genEcMultSteps_isSome_iff]
    refine ⟨by decide, by decide, by decide, by decide, by decide, by decide, by decide, by decide,
      by decide⟩

/-- The stand-in instance above. -/
theorem new_isSome_iff_sample :
    (InstanceTrace.new (cyclicCurve 1000003 5) 1000003 ⟨0, 2, 2, ⟨2, 1⟩⟩).isSome :=
  (new_isSome_iff _ _ _).mpr ⟨1, 1000001, sample_accepted⟩

/-- **What `InstanceTrace::new` returns.** With `z`, `r` and `w` the message, `r` and `w` of the
instance read as integers modulo `p`, `p` and `n`: the public key has the instance's
`x`-coordinate; `B = z·G + r·Q`; `x(w·B) = r`; the three chains start at `(-SHIFT, G, z)`,
`(SHIFT, Q, r)` and `(SHIFT, B, w)` and end `z·G`, `r·Q` and `w·B` past their shift; and the
doubling chains double `Q` and `B`. -/
theorem new_spec {inst : EcdsaInstance} {T : InstanceTrace p E}
    (h : InstanceTrace.new C n inst = some T) :
    let z := inst.message.toNat % p
    let r := inst.signature.r.toNat % p
    let w := inst.signature.w.toNat % n
    C.x T.pubkey = (inst.pubkeyX.toNat : ZMod p) ∧
    T.b = z • C.generator + r • T.pubkey ∧
    C.x (w • T.b) = T.r ∧
    IsChain T.zgSteps (-C.shiftPoint) C.generator T.message z ∧
    IsChain T.rqSteps C.shiftPoint T.pubkey T.r r ∧
    IsChain T.wbSteps C.shiftPoint T.b T.w w ∧
    IsDoubling T.pubkeyDoublingSteps T.pubkey ∧ IsDoubling T.bDoublingSteps T.b := by
  haveI : NeZero p := ⟨(Fact.out : p.Prime).ne_zero⟩
  obtain ⟨s, zg, qr, wb, -, hv, hzg, hqr, hb, -, -, hbD, hwb, hzgL, hrqL, hwbL, -, -, -, hw, -, hr,
    -, hz, -, hpD, -, -, hrx, -⟩ := new_eq_some C n h
  obtain ⟨rfl, -⟩ := C.mimicEcMultAir_eq_some hzg
  obtain ⟨rfl, -⟩ := C.mimicEcMultAir_eq_some hqr
  obtain ⟨rfl, -⟩ := C.mimicEcMultAir_eq_some hwb
  simp only [ZMod.val_natCast] at hzgL hrqL hwbL hb hrx hw
  dsimp only
  refine ⟨C.x_of_verify_eq_some_some hv, by rw [hb]; abel, by rw [hr, hrx, add_sub_cancel_left],
    ?_, ?_, ?_, C.isDoubling_of_doublingSteps hpD, C.isDoubling_of_doublingSteps hbD⟩
  · rw [hz, ← ZMod.natCast_mod]
    exact C.isChain_of_genEcMultSteps hzgL
  · rw [hr, ← ZMod.natCast_mod]
    exact C.isChain_of_genEcMultSteps hrqL
  · rw [hw]
    exact C.isChain_of_genEcMultSteps hwbL

/-- On the stand-in curve, with `w = 1` and the instance's message `2`, `r = 2` and
`pubkey_x = 2`. -/
theorem new_spec_sample :
    ∃ T, InstanceTrace.new (cyclicCurve 1000003 5) 1000003 ⟨0, 2, 2, ⟨2, 1⟩⟩ = some T ∧
      (cyclicCurve 1000003 5).x T.pubkey = 2 ∧ T.b = 2 • 1 + 2 • T.pubkey ∧
      (cyclicCurve 1000003 5).x (1 • T.b) = T.r := by
  obtain ⟨hs, hv, hok⟩ := sample_accepted
  have hnew : (InstanceTrace.new (cyclicCurve 1000003 5) 1000003 ⟨0, 2, 2, ⟨2, 1⟩⟩).isSome :=
    new_isSome_of _ _ hs hv hok
  obtain ⟨T, hT⟩ := Option.isSome_iff_exists.mp hnew
  obtain ⟨hx, hb, hr, -⟩ := new_spec _ _ hT
  exact ⟨T, hT, hx, hb, hr⟩

/-- **`InstanceTrace::new` panics past `verify`.** Where `verify` accepts `Q` but `zG - SHIFT`
and `rQ + SHIFT` have the same `x`-coordinate, `b_x_diff_inv` is the inverse of `0`. -/
theorem new_eq_none_of_x_eq {inst : EcdsaInstance} {s : ZMod n} {Q : E}
    (hs : inverse (inst.signature.w.toNat : ZMod n) = some s)
    (hv : C.verify (inst.message.toNat : ZMod p) (inst.signature.r.toNat : ZMod p) s
      inst.pubkeyX.toNat = some (some Q))
    (hx : C.x (-C.shiftPoint + (inst.message.toNat : ZMod p).val • C.generator) =
      C.x (C.shiftPoint + (inst.signature.r.toNat : ZMod p).val • Q)) :
    InstanceTrace.new C n inst = none := by
  cases hT : InstanceTrace.new C n inst with
  | none => rfl
  | some T =>
    obtain ⟨s', zg, qr, -, hs', hv', hzg, hqr, -, -, hbx, -⟩ := new_eq_some C n hT
    obtain rfl : s' = s := Option.some.inj (hs'.symm.trans hs)
    obtain rfl : T.pubkey = Q := Option.some.inj (Option.some.inj (hv'.symm.trans hv))
    obtain ⟨rfl, -⟩ := C.mimicEcMultAir_eq_some hzg
    obtain ⟨rfl, -⟩ := C.mimicEcMultAir_eq_some hqr
    exact absurd hx (sub_ne_zero.mp (inverse_eq_some_iff.mp hbx).1)

/-- On the stand-in curve, the instance with message `1`, `r = 8`, `w = 1` and
`pubkey_x = 375000`: `verify` accepts `Q = 375000`, and `zG - SHIFT = rQ + SHIFT = -4`. -/
theorem new_eq_none_of_x_eq_sample :
    (cyclicCurve 1000003 5).verify ((1 : BitVec 256).toNat : ZMod 1000003)
        ((8 : BitVec 256).toNat : ZMod 1000003) (1 : ZMod 1000003) (375000 : BitVec 256).toNat =
      some (some 375000) ∧
    InstanceTrace.new (cyclicCurve 1000003 5) 1000003 ⟨0, 375000, 1, ⟨8, 1⟩⟩ = none := by
  have hp : modulusBitSize 1000003 ≤ 257 := by decide
  have hv : (cyclicCurve 1000003 5).verify ((1 : BitVec 256).toNat : ZMod 1000003)
      ((8 : BitVec 256).toNat : ZMod 1000003) (1 : ZMod 1000003) (375000 : BitVec 256).toNat = some (some 375000) := by
    rw [Curve.verify_eq _ (inverse_eq_some_iff.mpr ⟨one_ne_zero, inv_one.symm⟩)]
    simp only [Curve.verifyLoop, Curve.checkCandidate, Curve.mimicEcMultAir_eq _ hp]
    decide
  have hs : inverse ((1 : BitVec 256).toNat : ZMod 1000003) = some 1 := by
    rw [show ((1 : BitVec 256).toNat : ZMod 1000003) = 1 by decide]
    exact inverse_eq_some_iff.mpr ⟨one_ne_zero, inv_one.symm⟩
  exact ⟨hv, new_eq_none_of_x_eq _ 1000003 hs hv (by decide)⟩

end Sandstorm
