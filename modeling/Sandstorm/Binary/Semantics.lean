import Sandstorm.Binary.Word
import Mathlib

/-!
# Operands and `res` of a Cairo instruction

The `impl<F: PrimeField> Word<F>` half of the word model: resolving `dst`, `op0` and
`op1` against the registers and the memory, and the derived values `res`, `tmp0`,
`tmp1` the prover writes into the trace. Every `unwrap`, out-of-range index,
`unreachable!()` and (debug-build) `usize` overflow of the source is a `none` here.

* `address_resolution_spec`: `get_dst_addr`, `get_op0_addr` and `get_op1_addr` return
  `base + off - 2^15` exactly when `2^15 ≤ off + base ≤ usize::MAX`.
* `getRes_cases`: what `get_res` can return, one case per `PcUpdate`/`ResLogic` branch.
* `res_constraint_spec`: on every word, register file and memory where `get_res`
  returns, `res` satisfies the Cairo `res` constraint, `tmp0 = f_PC_JNZ · dst`, and
  `tmp1` is `1` exactly on a `jnz` with nonzero `dst`.
-/

namespace Sandstorm

/-- `a + b` on `usize`, `none` where a debug build panics on overflow. -/
def usizeAdd (a b : UInt64) : Option UInt64 :=
  if a.toNat + b.toNat < 2 ^ 64 then some (UInt64.ofNat (a.toNat + b.toNat)) else none

/-- `a - b` on `usize`, `none` where a debug build panics on underflow. -/
def usizeSub (a b : UInt64) : Option UInt64 :=
  if b.toNat ≤ a.toNat then some (UInt64.ofNat (a.toNat - b.toNat)) else none

/-- `usize::try_from` of a `U256`. -/
def usizeTryFrom (x : BitVec 256) : Option UInt64 :=
  if x.toNat < 2 ^ 64 then some (UInt64.ofNat x.toNat) else none

/-- `Field::inverse`: `none` at zero. -/
def inverse {F : Type} [Field F] [DecidableEq F] (a : F) : Option F :=
  if a = 0 then none else some a⁻¹

theorem inverse_eq_some {F : Type} [Field F] [DecidableEq F] {a b : F} (h : inverse a = some b) :
    b * a = 1 := by
  unfold inverse at h
  split_ifs at h with ha
  cases h
  exact inv_mul_cancel₀ ha

theorem inverse_eq_some_iff {F : Type} [Field F] [DecidableEq F] {a b : F} :
    inverse a = some b ↔ a ≠ 0 ∧ b = a⁻¹ := by
  by_cases h : a = 0 <;> simp [inverse, h, eq_comm]

@[simp]
theorem inverse_isSome {F : Type} [Field F] [DecidableEq F] (a : F) : (inverse a).isSome ↔ a ≠ 0 := by
  by_cases h : a = 0 <;> simp [inverse, h]

theorem inverse_getD_mul {F : Type} [Field F] [DecidableEq F] (a : F) :
    a * (inverse a).getD 0 = if a = 0 then 0 else 1 := by
  by_cases h : a = 0 <;> simp [inverse, h]

/-- `Memory<F>`: the dense table of optional words, `None` where nothing was written. -/
structure Memory where
  cells : List (Option Word)

/-- `mem[addr].unwrap()`: `none` where the index is out of range or the cell is `None`. -/
def Memory.read (mem : Memory) (addr : UInt64) : Option Word := (mem.cells[addr.toNat]?).join

/-- `off as usize + base - HALF_OFFSET`, parsed as `(off + base) - HALF_OFFSET`, with the
debug build's overflow checks. -/
def biasedAddr (off : UInt16) (base : UInt64) : Option UInt64 := do
  let s ← usizeAdd (UInt64.ofNat off.toNat) base
  usizeSub s (UInt64.ofNat halfOffset)

/-- The debug build's checks on `(off + base) - HALF_OFFSET` pass exactly when
`2^15 ≤ off + base < 2^64`, and the address is then `off + base - 2^15`. -/
theorem biasedAddr_eq (off : UInt16) (base : UInt64) :
    (biasedAddr off base).map UInt64.toNat =
      if 2 ^ 15 ≤ off.toNat + base.toNat ∧ off.toNat + base.toNat < 2 ^ 64
      then some (off.toNat + base.toNat - 2 ^ 15) else none := by
  have hoff : (UInt64.ofNat off.toNat).toNat = off.toNat :=
    UInt64.toNat_ofNat_of_lt (off.toNat_lt.trans (by norm_num))
  have hhalf : (UInt64.ofNat halfOffset).toNat = 2 ^ 15 := rfl
  unfold biasedAddr usizeAdd usizeSub
  rw [hoff, hhalf]
  by_cases hs : off.toNat + base.toNat < 2 ^ 64
  · simp only [if_pos hs, Option.bind_eq_bind, Option.some_bind, UInt64.toNat_ofNat_of_lt hs]
    by_cases hlo : 2 ^ 15 ≤ off.toNat + base.toNat
    · rw [if_pos hlo, if_pos ⟨hlo, hs⟩, Option.map_some',
        UInt64.toNat_ofNat_of_lt ((Nat.sub_le _ _).trans_lt hs)]
    · rw [if_neg hlo, if_neg (fun h => hlo h.1), Option.map_none']
  · rw [if_neg hs, if_neg (fun h => hs h.2)]
    rfl

/-- `biasedAddr` after a base that may fail to be read (`none` where it does not fit a
`usize`), as an integer: the base plus the displacement `off - 2^15`, while `off + base`
stays within `usize`. -/
theorem bind_biasedAddr (off : UInt16) (ob : Option UInt64) {base : ℕ}
    (hb : ob.map UInt64.toNat = if base < 2 ^ 64 then some base else none) :
    (ob.bind (biasedAddr off)).map (fun a => (a.toNat : ℤ)) =
      if 0 ≤ (base : ℤ) + (off.toNat - 2 ^ 15) ∧
          (base : ℤ) + (off.toNat - 2 ^ 15) ≤ 2 ^ 64 - 1 - 2 ^ 15
      then some ((base : ℤ) + (off.toNat - 2 ^ 15)) else none := by
  by_cases hlt : base < 2 ^ 64
  · rw [if_pos hlt] at hb
    obtain ⟨b, rfl, rfl⟩ := Option.map_eq_some'.mp hb
    rw [Option.some_bind, show (fun a : UInt64 => (a.toNat : ℤ)) = Nat.cast ∘ UInt64.toNat from rfl,
      ← Option.map_map, biasedAddr_eq]
    split_ifs <;> simp <;> omega
  · rw [if_neg hlt, Option.map_eq_none'] at hb
    rw [hb, if_neg (by omega)]
    rfl

namespace Word

variable {F : Type} [Field F] [DecidableEq F]

/-- `into_felt`: the word's value reduced into the field. -/
def intoFelt (w : Word) : F := (w.val.toNat : F)

/-- `get_op0_addr`. -/
def getOp0Addr (w : Word) (ap fp : UInt64) : Option UInt64 := do
  let off ← w.getOffOp0
  biasedAddr off (if w.getFlag .op0Reg then fp else ap)

/-- `get_dst_addr`. -/
def getDstAddr (w : Word) (ap fp : UInt64) : Option UInt64 := do
  let off ← w.getOffDst
  biasedAddr off (if w.getFlag .dstReg then fp else ap)

/-- `get_op1_addr`: the base is chosen by `Op1Src`; `0` reads it from `[op0_addr]`. -/
def getOp1Addr (w : Word) (pc ap fp : UInt64) (mem : Memory) : Option UInt64 := do
  let off ← w.getOffOp1
  let base ← match w.getFlagGroup .op1Src with
    | 0 => do
      let a ← w.getOp0Addr ap fp
      let v ← mem.read a
      usizeTryFrom v.val
    | 1 => some pc
    | 2 => some fp
    | 4 => some ap
    | _ => none
  biasedAddr off base

/-- `get_op0`. -/
def getOp0 (w : Word) (ap fp : UInt64) (mem : Memory) : Option F := do
  let a ← w.getOp0Addr ap fp
  let v ← mem.read a
  some v.intoFelt

/-- `get_dst`. -/
def getDst (w : Word) (ap fp : UInt64) (mem : Memory) : Option F := do
  let a ← w.getDstAddr ap fp
  let v ← mem.read a
  some v.intoFelt

/-- `get_op1`. -/
def getOp1 (w : Word) (pc ap fp : UInt64) (mem : Memory) : Option F := do
  let a ← w.getOp1Addr pc ap fp mem
  let v ← mem.read a
  some v.intoFelt

/-- `get_res`. On a `jnz` (`PcUpdate = 4`) it holds `dst⁻¹`, or zero for `dst = 0`; the
`0 | 1 | 2` branch reads `op0` and `op1` as `get_op0` and `get_op1` do. -/
def getRes (w : Word) (pc ap fp : UInt64) (mem : Memory) : Option F :=
  let pcUpdate := w.getFlagGroup .pcUpdate
  let resLogic := w.getFlagGroup .resLogic
  match pcUpdate with
  | 4 =>
    let opcode := w.getFlagGroup .opcode
    let apUpdate := w.getFlagGroup .apUpdate
    if resLogic = 0 ∧ opcode = 0 ∧ apUpdate ≠ 1 then
      (w.getDst ap fp mem).map fun dst => (inverse dst).getD 0
    else none
  | 0 | 1 | 2 => do
    let op0 ← w.getOp0 ap fp mem
    let op1 ← w.getOp1 pc ap fp mem
    match resLogic with
    | 0 => some op1
    | 1 => some (op0 + op1)
    | 2 => some (op0 * op1)
    | _ => none
  | _ => none

/-- `get_tmp0`. -/
def getTmp0 (w : Word) (ap fp : UInt64) (mem : Memory) : Option F :=
  if w.getFlag .pcJnz then w.getDst ap fp mem else some 0

/-- `get_tmp1`. -/
def getTmp1 (w : Word) (pc ap fp : UInt64) (mem : Memory) : Option F := do
  let t ← w.getTmp0 ap fp mem
  let r ← w.getRes pc ap fp mem
  some (t * r)

/-! ## Resolving addresses -/

/-- **Address resolution.** With `off` the instruction's 16-bit field and `base` the register
(or, for `op1` with `Op1Src = 0`, the word at `op0_addr`) the instruction selects, each getter
returns `base + d` for the displacement `d = off - 2^15`, as an integer, exactly when
`0 ≤ base + d ≤ usize::MAX - 2^15`, that is `2^15 ≤ off + base ≤ usize::MAX`: the source forms
`off + base` before it subtracts `HALF_OFFSET`, and a debug build panics on either step. -/
theorem address_resolution_spec (w : Word) (pc ap fp : UInt64) (mem : Memory) :
    let resolves (addr : Option UInt64) (off base : ℕ) : Prop :=
      let d : ℤ := off - 2 ^ 15
      addr.map (fun a => (a.toNat : ℤ)) =
        if 0 ≤ base + d ∧ base + d ≤ 2 ^ 64 - 1 - 2 ^ 15 then some (base + d) else none
    resolves (w.getDstAddr ap fp) (w.val.toNat % 2 ^ 16) (if w.getFlag .dstReg then fp else ap).toNat ∧
    resolves (w.getOp0Addr ap fp) (w.val.toNat / 2 ^ 16 % 2 ^ 16)
      (if w.getFlag .op0Reg then fp else ap).toNat ∧
    ∀ base : ℕ,
      (w.getFlagGroup .op1Src = 0 ∧ ∃ a v, w.getOp0Addr ap fp = some a ∧ mem.read a = some v ∧
          base = v.val.toNat) ∨
        (w.getFlagGroup .op1Src = 1 ∧ base = pc.toNat) ∨
        (w.getFlagGroup .op1Src = 2 ∧ base = fp.toNat) ∨
        (w.getFlagGroup .op1Src = 4 ∧ base = ap.toNat) →
      resolves (w.getOp1Addr pc ap fp mem) (w.val.toNat / 2 ^ 32 % 2 ^ 16) base := by
  have hreg : ∀ r : UInt64, (some r).map UInt64.toNat = if r.toNat < 2 ^ 64 then some r.toNat else none :=
    fun r => by rw [if_pos r.toNat_lt]; rfl
  obtain ⟨d, hd, hdv⟩ := Option.map_eq_some'.mp (getOff_eq w 0)
  obtain ⟨o0, ho0, ho0v⟩ := Option.map_eq_some'.mp (getOff_eq w 16)
  obtain ⟨o1, ho1, ho1v⟩ := Option.map_eq_some'.mp (getOff_eq w 32)
  rw [pow_zero, Nat.div_one] at hdv
  dsimp only
  refine ⟨?_, ?_, fun base hbase => ?_⟩
  · simp only [getDstAddr, getOffDst, offDstBitOffset, hd, Option.bind_eq_bind, Option.some_bind, ← hdv]
    exact bind_biasedAddr d (some _) (hreg _)
  · simp only [getOp0Addr, getOffOp0, offOp0BitOffset, ho0, Option.bind_eq_bind, Option.some_bind,
      ← ho0v]
    exact bind_biasedAddr o0 (some _) (hreg _)
  have hop1 : w.getOffOp1 = some o1 := ho1
  rcases hbase with ⟨h, a, v, ha, hv, rfl⟩ | ⟨h, rfl⟩ | ⟨h, rfl⟩ | ⟨h, rfl⟩
  · -- `Op1Src = 0`: the base is the word at `op0_addr`, which must fit a `usize`
    simp only [getOp1Addr, hop1, h, ha, hv, Option.bind_eq_bind, Option.some_bind, ← ho1v]
    refine bind_biasedAddr o1 (usizeTryFrom v.val) ?_
    rw [usizeTryFrom]
    split_ifs with hlt
    · rw [Option.map_some', UInt64.toNat_ofNat_of_lt hlt]
    · rfl
  all_goals
    simp only [getOp1Addr, hop1, h, Option.bind_eq_bind, Option.some_bind, ← ho1v]
    exact bind_biasedAddr o1 (some _) (hreg _)

/-- `off_dst = 2^15 - 1` (`d = -1`) over `ap = usize::MAX`: `ap + d` is a `usize`, but
`off_dst + ap` overflows before `HALF_OFFSET` is subtracted. -/
theorem address_resolution_overflow :
    let w : Word := ⟨BitVec.ofNat 256 (2 ^ 15 - 1)⟩
    let ap : UInt64 := 18446744073709551615
    let d : ℤ := ((w.val.toNat % 2 ^ 16 : ℕ) : ℤ) - 2 ^ 15
    w.getFlag .dstReg = false ∧ d = -1 ∧ 0 ≤ (ap.toNat : ℤ) + d ∧ (ap.toNat : ℤ) + d < 2 ^ 64 ∧
      w.getDstAddr ap 0 = none := by
  decide

/-! ## What `get_res` returns -/

theorem getFlagGroup_pcUpdate (w : Word) : w.getFlagGroup .pcUpdate =
    (w.getFlag .pcJumpAbs).toNat + 2 * ((w.getFlag .pcJumpRel).toNat + 2 * (w.getFlag .pcJnz).toNat) := by
  simp [getFlagGroup, groupValue, bitsValue]

theorem getFlagGroup_resLogic (w : Word) :
    w.getFlagGroup .resLogic = (w.getFlag .resAdd).toNat + 2 * (w.getFlag .resMul).toNat := by
  simp [getFlagGroup, groupValue, bitsValue]

variable {w : Word} {pc ap fp : UInt64} {mem : Memory} {res : F}

/-- **What `get_res` can return.** On a `jnz` with `ResLogic = 0`, the inverse of `dst`
(zero at zero); otherwise `op1`, `op0 + op1` or `op0 · op1` by `ResLogic`, with `op0` and
`op1` as `get_op0` and `get_op1` read them. -/
theorem getRes_cases (h : w.getRes pc ap fp mem = some res) :
    (w.getFlag .pcJnz = true ∧ w.getFlag .resAdd = false ∧ w.getFlag .resMul = false ∧
      ∃ dst, w.getDst ap fp mem = some dst ∧ res = (inverse dst).getD 0) ∨
    (w.getFlag .pcJnz = false ∧ ∃ op0 op1, w.getOp0 ap fp mem = some op0 ∧
      w.getOp1 pc ap fp mem = some op1 ∧
      (w.getFlag .resAdd = false ∧ w.getFlag .resMul = false ∧ res = op1 ∨
        w.getFlag .resAdd = true ∧ w.getFlag .resMul = false ∧ res = op0 + op1 ∨
        w.getFlag .resAdd = false ∧ w.getFlag .resMul = true ∧ res = op0 * op1)) := by
  unfold getRes at h
  rw [getFlagGroup_pcUpdate, getFlagGroup_resLogic] at h
  dsimp only at h
  have hJ := Bool.toNat_le (w.getFlag .pcJnz)
  have hR := Bool.toNat_le (w.getFlag .pcJumpRel)
  have hB := Bool.toNat_le (w.getFlag .pcJumpAbs)
  have hA := Bool.toNat_le (w.getFlag .resAdd)
  have hM := Bool.toNat_le (w.getFlag .resMul)
  split at h
  case h_1 hpc =>
    -- `PcUpdate = 4`: only the `jnz` flag is set
    split_ifs at h with hc
    obtain ⟨dst, hd, rfl⟩ := Option.map_eq_some'.1 h
    exact .inl ⟨Bool.toNat_eq_one.1 (by omega), Bool.toNat_eq_zero.1 (by omega),
      Bool.toNat_eq_zero.1 (by omega), dst, hd, rfl⟩
  case h_5 => cases h
  all_goals
    -- `PcUpdate ∈ {0, 1, 2}`: `op0` and `op1` are read, then combined by `ResLogic`
    rename_i hpc
    obtain ⟨op0, h0, h⟩ := Option.bind_eq_some.1 h
    obtain ⟨op1, h1, h⟩ := Option.bind_eq_some.1 h
    refine .inr ⟨Bool.toNat_eq_zero.1 (by omega), op0, op1, h0, h1, ?_⟩
    -- one case per value `resAdd + 2 resMul` of `ResLogic`
    split at h
    case h_1 =>
      exact .inl ⟨Bool.toNat_eq_zero.1 (by omega), Bool.toNat_eq_zero.1 (by omega), (Option.some.inj h).symm⟩
    case h_2 =>
      exact .inr (.inl ⟨Bool.toNat_eq_one.1 (by omega), Bool.toNat_eq_zero.1 (by omega),
        (Option.some.inj h).symm⟩)
    case h_3 =>
      exact .inr (.inr ⟨Bool.toNat_eq_zero.1 (by omega), Bool.toNat_eq_one.1 (by omega),
        (Option.some.inj h).symm⟩)
    case h_4 => cases h

/-- The Cairo constraint on `res` (eprint 2021/1063, section 9.5):
`(1 - f_PC_JNZ) res = (1 - f_RES_ADD - f_RES_MUL - f_PC_JNZ) op1 + f_RES_ADD (op0 + op1) +
f_RES_MUL op0 op1`. -/
def ResConstraint (w : Word) (res op0 op1 : F) : Prop :=
  let f : Flag → F := fun X => ((w.getFlag X).toNat : F)
  (1 - f .pcJnz) * res =
    (1 - f .resAdd - f .resMul - f .pcJnz) * op1 + f .resAdd * (op0 + op1) + f .resMul * op0 * op1

/-- **`res`, `tmp0` and `tmp1` meet the Cairo constraints wherever `get_res` returns.**
Off a `jnz`, `op0` and `op1` are defined and `res` satisfies the `res` constraint with
them; on a `jnz` the constraint holds whatever `op0` and `op1` are, since their
coefficients vanish. `tmp0 = f_PC_JNZ · dst`, and `tmp1` is `1` on a `jnz` with `dst ≠ 0`
and `0` otherwise. -/
theorem res_constraint_spec (h : w.getRes pc ap fp mem = some res) :
    (w.getFlag .pcJnz = false → ∃ op0 op1 : F, w.getOp0 ap fp mem = some op0 ∧
        w.getOp1 pc ap fp mem = some op1 ∧ w.ResConstraint res op0 op1) ∧
    (w.getFlag .pcJnz = true → ∀ op0 op1 : F, w.ResConstraint res op0 op1) ∧
    (w.getFlag .pcJnz = true → w.getTmp0 ap fp mem = (w.getDst ap fp mem : Option F)) ∧
    (w.getFlag .pcJnz = false → w.getTmp0 ap fp mem = some (0 : F)) ∧
    (w.getFlag .pcJnz = true → ∃ dst : F, w.getDst ap fp mem = some dst ∧
        w.getTmp1 pc ap fp mem = some (if dst = 0 then 0 else 1 : F)) ∧
    (w.getFlag .pcJnz = false → w.getTmp1 pc ap fp mem = some (0 : F)) := by
  rcases getRes_cases h with ⟨hj, hA, hM, dst, hd, rfl⟩ | ⟨hj, op0, op1, h0, h1, hres⟩
  · -- `jnz`: `tmp0 = dst` and `res = dst⁻¹`
    have ht0 : w.getTmp0 ap fp mem = some dst := by rw [getTmp0, if_pos hj, hd]
    refine ⟨by simp [hj], fun _ _ _ => by simp [ResConstraint, hj, hA, hM],
      fun _ => by rw [getTmp0, if_pos hj], by simp [hj], fun _ => ⟨dst, hd, ?_⟩, by simp [hj]⟩
    simp [getTmp1, ht0, h, inverse_getD_mul]
  · -- otherwise `tmp0 = 0`
    refine ⟨fun _ => ⟨op0, op1, h0, h1, ?_⟩, by simp [hj], by simp [hj],
      fun _ => by simp [getTmp0, hj], by simp [hj], fun _ => by simp [getTmp1, getTmp0, hj, h]⟩
    rcases hres with ⟨hA, hM, rfl⟩ | ⟨hA, hM, rfl⟩ | ⟨hA, hM, rfl⟩ <;>
      simp [ResConstraint, hj, hA, hM]

/-- The field of eleven elements, where the operands of the sample below are distinct and
non-zero. -/
instance fact_prime_eleven : Fact (Nat.Prime 11) := ⟨by norm_num⟩

/-- `[ap] = [ap + 1] + [ap + 2]` (`Op1Src = Ap`, `ResLogic = Add`) over `ZMod 11`, with
`ap = fp = pc = 0`: `op0 = 7`, `op1 = 9` and `res = 16 = 5`. -/
theorem res_constraint_spec_add :
    let w : Word := ⟨BitVec.ofNat 256 (0x8000 + 0x8001 * 2 ^ 16 + 0x8002 * 2 ^ 32 + 48 * 2 ^ 48)⟩
    let mem : Memory := ⟨[some ⟨5⟩, some ⟨7⟩, some ⟨9⟩]⟩
    w.getOp0 0 0 mem = some (7 : ZMod 11) ∧ w.getOp1 0 0 0 mem = some (9 : ZMod 11) ∧
    w.getRes 0 0 0 mem = some (5 : ZMod 11) ∧
    (w.getFlag .pcJnz = false → ∃ op0 op1 : ZMod 11, w.getOp0 0 0 mem = some op0 ∧
        w.getOp1 0 0 0 mem = some op1 ∧ w.ResConstraint 5 op0 op1) ∧
    (w.getFlag .pcJnz = true → ∀ op0 op1 : ZMod 11, w.ResConstraint 5 op0 op1) ∧
    (w.getFlag .pcJnz = true → w.getTmp0 0 0 mem = (w.getDst 0 0 mem : Option (ZMod 11))) ∧
    (w.getFlag .pcJnz = false → w.getTmp0 0 0 mem = some (0 : ZMod 11)) ∧
    (w.getFlag .pcJnz = true → ∃ dst : ZMod 11, w.getDst 0 0 mem = some dst ∧
        w.getTmp1 0 0 0 mem = some (if dst = 0 then 0 else 1 : ZMod 11)) ∧
    (w.getFlag .pcJnz = false → w.getTmp1 0 0 0 mem = some (0 : ZMod 11)) :=
  ⟨by decide, by decide, by decide, res_constraint_spec (by decide)⟩

end Word

end Sandstorm
