import Mathlib.Algebra.BigOperators.Intervals
import Mathlib.Data.Nat.Bitwise

/-!
# Cairo instruction words

A Cairo instruction is one field element. The binary crate keeps it as the
`U256` inside `Word<F>` (the field is a phantom there) and decodes it by shifts
and masks: three biased 16-bit offsets at bits 0, 16 and 32, and the flags
`f_0 … f_14` from bit 48, with `Zero` as the padding flag 15
(eprint 2021/1063, figure 3 and section 9).

* `Word.getFlagPrefix`, `Word.getFlag`, `Word.getOffDst`/`getOffOp0`/`getOffOp1`
  and `Word.getFlagGroup`: the decoders of `impl<F> Word<F>`, with each `u16`
  conversion returning `none` where the source's `unwrap` would panic.
* `flagPrefix_eq_sum`: the prefix `f̃_i` is the binary number of the flags
  from `i` up, and never fails to convert.
* `word_decode_spec`: the decoders, the decomposition of the low 63 bits and
  the flag-prefix recurrence for every word, and the round trip from offsets
  and flags through `packWord`.
-/

namespace Sandstorm

/-- Word offset of `off_DST`. -/
def offDstBitOffset : ℕ := 0

/-- Word offset of `off_OP0`. -/
def offOp0BitOffset : ℕ := 16

/-- Word offset of `off_OP1`. -/
def offOp1BitOffset : ℕ := 32

/-- Word offset of the instruction flags. -/
def flagsBitOffset : ℕ := 48

/-- Mask for word offsets (16 bits each). -/
def offMask : ℕ := 0xFFFF

/-- The offset bias `HALF_OFFSET = 2^15`. -/
def halfOffset : ℕ := 2 ^ 15

/-- Cairo flag, as the `#[repr(u16)]` enum `Flag`. -/
inductive Flag
  | dstReg | op0Reg | op1Imm | op1Fp | op1Ap | resAdd | resMul
  | pcJumpAbs | pcJumpRel | pcJnz | apAdd | apAdd1
  | opcodeCall | opcodeRet | opcodeAssertEq | zero
  deriving DecidableEq, Repr

/-- The discriminant `flag as usize`. -/
def Flag.toNat : Flag → ℕ
  | .dstReg => 0 | .op0Reg => 1 | .op1Imm => 2 | .op1Fp => 3 | .op1Ap => 4
  | .resAdd => 5 | .resMul => 6 | .pcJumpAbs => 7 | .pcJumpRel => 8 | .pcJnz => 9
  | .apAdd => 10 | .apAdd1 => 11 | .opcodeCall => 12 | .opcodeRet => 13
  | .opcodeAssertEq => 14 | .zero => 15

theorem Flag.toNat_le (f : Flag) : f.toNat ≤ 15 := by cases f <;> decide

theorem Flag.toNat_lt_of_ne_zero {f : Flag} (h : f ≠ .zero) : f.toNat < 15 := by
  cases f <;> simp_all [Flag.toNat]

/-- Cairo flag group. -/
inductive FlagGroup
  | dstReg | op0Reg | op1Src | resLogic | pcUpdate | apUpdate | opcode
  deriving DecidableEq, Repr

/-- A Cairo word: the `U256` of `Word<F>`. -/
structure Word where
  val : BitVec 256
  deriving DecidableEq

/-- `u16::try_from` of a `U256`, `none` above `u16::MAX`. -/
def tryIntoU16 (x : BitVec 256) : Option UInt16 :=
  if x.toNat < 2 ^ 16 then some (UInt16.ofNat x.toNat) else none

theorem tryIntoU16_of_lt {x : BitVec 256} (h : x.toNat < 2 ^ 16) :
    (tryIntoU16 x).map UInt16.toNat = some x.toNat := by
  rw [tryIntoU16, if_pos h, Option.map_some', UInt16.toNat_ofNat_of_lt h]

namespace Word

/-- `get_flag_prefix`: the prefix `f̃_i = Σ_{j ≥ i} 2^(j-i) f_j`, and `0` for `Zero`. -/
def getFlagPrefix (w : Word) (flag : Flag) : Option UInt16 :=
  if flag = .zero then some 0
  else
    let flag := flag.toNat
    let pre := w.val >>> (flagsBitOffset + flag)
    let mask := (1#256 <<< (15 - flag)) - 1#256
    tryIntoU16 (pre &&& mask)

/-- `get_flag`: bit `48 + flag` of the word (also for `Zero`, which reads bit 63). -/
def getFlag (w : Word) (flag : Flag) : Bool :=
  w.val.getLsbD (flagsBitOffset + flag.toNat)

/-- The 16-bit field at `bitOffset`, as the three offset getters compute it. -/
def getOff (w : Word) (bitOffset : ℕ) : Option UInt16 :=
  tryIntoU16 ((w.val >>> bitOffset) &&& BitVec.ofNat 256 offMask)

/-- `get_off_dst`. -/
def getOffDst (w : Word) : Option UInt16 := w.getOff offDstBitOffset

/-- `get_off_op0`. -/
def getOffOp0 (w : Word) : Option UInt16 := w.getOff offOp0BitOffset

/-- `get_off_op1`. -/
def getOffOp1 (w : Word) : Option UInt16 := w.getOff offOp1BitOffset

end Word

/-- Bits as the binary number they spell, least significant first. -/
def bitsValue : List Bool → ℕ
  | [] => 0
  | b :: bs => b.toNat + 2 * bitsValue bs

namespace Word

/-- The flags of a group weighted `1, 2, 4`, each read `as u8` (at most `7`, so the
`u8` sums never overflow). -/
def groupValue (w : Word) (flags : List Flag) : ℕ := bitsValue (flags.map w.getFlag)

/-- `get_flag_group`. -/
def getFlagGroup (w : Word) : FlagGroup → ℕ
  | .dstReg => w.groupValue [.dstReg]
  | .op0Reg => w.groupValue [.op0Reg]
  | .op1Src => w.groupValue [.op1Imm, .op1Fp, .op1Ap]
  | .resLogic => w.groupValue [.resAdd, .resMul]
  | .pcUpdate => w.groupValue [.pcJumpAbs, .pcJumpRel, .pcJnz]
  | .apUpdate => w.groupValue [.apAdd, .apAdd1]
  | .opcode => w.groupValue [.opcodeCall, .opcodeRet, .opcodeAssertEq]

end Word

/-! ## Decoding as arithmetic on the word's value -/

theorem toNat_mask (k : ℕ) (hk : k < 256) :
    ((1#256 <<< k) - 1#256).toNat = 2 ^ k - 1 := by
  have h3 : 2 ^ k < 2 ^ 256 := Nat.pow_lt_pow_right (by norm_num) hk
  have h1 : (1#256 <<< k).toNat = 2 ^ k := by
    rw [BitVec.toNat_shiftLeft, BitVec.toNat_ofNat, Nat.shiftLeft_eq,
      Nat.one_mod_two_pow (by omega), one_mul, Nat.mod_eq_of_lt h3]
  have h2 : 1 ≤ 2 ^ k := Nat.one_le_two_pow
  rw [BitVec.toNat_sub, h1, BitVec.toNat_ofNat, Nat.one_mod_two_pow (by omega)]
  omega

/-- A bit of a bit vector as `0`/`1`. -/
theorem getLsbD_toNat_eq {n : ℕ} (x : BitVec n) (i : ℕ) :
    (x.getLsbD i).toNat = x.toNat / 2 ^ i % 2 := by
  rw [← BitVec.testBit_toNat, Nat.testBit_to_div_mod]
  rcases Nat.mod_two_eq_zero_or_one (x.toNat / 2 ^ i) with h | h <;> simp [h]

namespace Word

variable (w : Word)

theorem getOff_eq (k : ℕ) : (w.getOff k).map UInt16.toNat = some (w.val.toNat / 2 ^ k % 2 ^ 16) := by
  have h : ((w.val >>> k) &&& BitVec.ofNat 256 offMask).toNat = w.val.toNat / 2 ^ k % 2 ^ 16 := by
    rw [BitVec.toNat_and, BitVec.toNat_ushiftRight, BitVec.toNat_ofNat, Nat.shiftRight_eq_div_pow,
      show offMask % 2 ^ 256 = 2 ^ 16 - 1 by decide, Nat.and_pow_two_sub_one_eq_mod]
  rw [getOff, ← h]
  exact tryIntoU16_of_lt (h ▸ Nat.mod_lt _ (by norm_num))

/-- The prefix of a flag other than `Zero`, as a number. -/
theorem getFlagPrefix_eq {f : Flag} (hf : f ≠ .zero) :
    (w.getFlagPrefix f).map UInt16.toNat =
      some (w.val.toNat / 2 ^ (48 + f.toNat) % 2 ^ (15 - f.toNat)) := by
  have hlt := Flag.toNat_lt_of_ne_zero hf
  have h : (w.val >>> (flagsBitOffset + f.toNat) &&& (1#256 <<< (15 - f.toNat)) - 1#256).toNat =
      w.val.toNat / 2 ^ (48 + f.toNat) % 2 ^ (15 - f.toNat) := by
    rw [BitVec.toNat_and, BitVec.toNat_ushiftRight, toNat_mask _ (by omega),
      Nat.shiftRight_eq_div_pow, Nat.and_pow_two_sub_one_eq_mod]
    rfl
  have hb : w.val.toNat / 2 ^ (48 + f.toNat) % 2 ^ (15 - f.toNat) < 2 ^ 16 :=
    lt_of_lt_of_le (Nat.mod_lt _ (by positivity)) (Nat.pow_le_pow_right (by norm_num) (by omega))
  simp only [getFlagPrefix, hf, if_false]
  rw [← h]
  exact tryIntoU16_of_lt (h ▸ hb)

theorem getFlagPrefix_zero : w.getFlagPrefix .zero = some 0 := rfl

theorem getFlag_eq (f : Flag) : (w.getFlag f).toNat = w.val.toNat / 2 ^ (48 + f.toNat) % 2 :=
  getLsbD_toNat_eq _ _

end Word

/-! ## Flag prefixes as sums of flags -/

/-- The low `m` bits of `n` as the sum of its bits. -/
theorem mod_two_pow_eq_sum (n m : ℕ) :
    n % 2 ^ m = ∑ k ∈ Finset.range m, 2 ^ k * (n / 2 ^ k % 2) := by
  induction m with
  | zero => simp [Nat.mod_one]
  | succ m ih => rw [Finset.sum_range_succ, ← ih, Nat.mod_pow_succ]

/-- **The flag prefix `f̃_i` is the binary number `Σ_{j=i}^{14} 2^(j-i) f_j`**, for
every word and every flag other than `Zero`; its `u16` conversion never fails. -/
theorem flagPrefix_eq_sum (w : Word) {f : Flag} (hf : f ≠ .zero) :
    (w.getFlagPrefix f).map UInt16.toNat =
      some (∑ j ∈ Finset.Ico f.toNat 15, 2 ^ (j - f.toNat) * (w.val.getLsbD (48 + j)).toNat) := by
  rw [w.getFlagPrefix_eq hf, mod_two_pow_eq_sum, Finset.sum_Ico_eq_sum_range]
  refine congrArg some (Finset.sum_congr rfl fun k _ => ?_)
  rw [getLsbD_toNat_eq, Nat.div_div_eq_div_mul, ← pow_add, Nat.add_sub_cancel_left, add_assoc]

/-- Between two consecutive flags the prefixes satisfy `f̃_i = f_i + 2 f̃_(i+1)`. -/
theorem flagPrefix_succ (w : Word) {f g : Flag} (hfg : f.toNat + 1 = g.toNat) :
    ∃ pf pg : UInt16, w.getFlagPrefix f = some pf ∧ w.getFlagPrefix g = some pg ∧
      pf.toNat = (w.getFlag f).toNat + 2 * pg.toNat := by
  have hg15 := Flag.toNat_le g
  have hf : f ≠ .zero := by
    rintro rfl
    change 15 + 1 = g.toNat at hfg
    omega
  obtain ⟨pf, hpf, hvf⟩ := Option.map_eq_some'.1 (w.getFlagPrefix_eq hf)
  rw [w.getFlag_eq]
  generalize hn : w.val.toNat / 2 ^ (48 + f.toNat) = n at hvf
  by_cases hg : g = .zero
  · subst hg
    change f.toNat + 1 = 15 at hfg
    refine ⟨pf, 0, hpf, rfl, ?_⟩
    rw [hvf, show 15 - f.toNat = 1 by omega]
    rfl
  obtain ⟨pg, hpg, hvg⟩ := Option.map_eq_some'.1 (w.getFlagPrefix_eq hg)
  have hgn : w.val.toNat / 2 ^ (48 + g.toNat) = n / 2 := by
    rw [← hn, Nat.div_div_eq_div_mul, ← pow_succ, ← hfg, add_assoc]
  refine ⟨pf, pg, hpf, hpg, ?_⟩
  rw [hvf, hvg, hgn, show 15 - f.toNat = (15 - g.toNat) + 1 by omega, pow_succ', Nat.mod_mul]

/-- The low 63 bits of a word are its three offsets and the prefix `f̃_0`. -/
theorem low_bits_eq (w : Word) : ∃ d o0 o1 p : UInt16, w.getOffDst = some d ∧
    w.getOffOp0 = some o0 ∧ w.getOffOp1 = some o1 ∧ w.getFlagPrefix .dstReg = some p ∧
      w.val.toNat % 2 ^ 63 = d.toNat + 2 ^ 16 * o0.toNat + 2 ^ 32 * o1.toNat + 2 ^ 48 * p.toNat := by
  obtain ⟨d, hd, hvd⟩ := Option.map_eq_some'.1 (w.getOff_eq offDstBitOffset)
  obtain ⟨o0, ho0, hvo0⟩ := Option.map_eq_some'.1 (w.getOff_eq offOp0BitOffset)
  obtain ⟨o1, ho1, hvo1⟩ := Option.map_eq_some'.1 (w.getOff_eq offOp1BitOffset)
  obtain ⟨p, hp, hvp⟩ := Option.map_eq_some'.1 (w.getFlagPrefix_eq (f := .dstReg) (by decide))
  refine ⟨d, o0, o1, p, hd, ho0, ho1, hp, ?_⟩
  rw [hvd, hvo0, hvo1, hvp]
  simp only [offDstBitOffset, offOp0BitOffset, offOp1BitOffset, Flag.toNat]
  omega

/-! ## Packing offsets and flags into a word -/

theorem bitsValue_lt (bs : List Bool) : bitsValue bs < 2 ^ bs.length := by
  induction bs with
  | nil => simp [bitsValue]
  | cons b bs ih =>
    have := Bool.toNat_le b
    rw [bitsValue, List.length_cons, pow_succ]
    omega

theorem bitsValue_div_pow_mod_two (bs : List Bool) (i : ℕ) :
    bitsValue bs / 2 ^ i % 2 = (bs.getD i false).toNat := by
  induction bs generalizing i with
  | nil => simp [bitsValue]
  | cons b bs ih =>
    cases i with
    | zero => cases b <;> simp [bitsValue, Nat.add_mul_mod_self_left]
    | succ i =>
      rw [List.getD_cons_succ, ← ih, pow_succ', ← Nat.div_div_eq_div_mul]
      congr 2
      have := Bool.toNat_le b
      rw [bitsValue]
      omega

/-- The word with the offsets `offDst`, `offOp0`, `offOp1` at bits 0, 16 and 32 and the
flag bits `flags 0 … flags 14` from bit 48, the padding flag left clear: the encoding the
decoders invert. -/
def packWord (offDst offOp0 offOp1 : UInt16) (flags : Fin 15 → Bool) : Word :=
  ⟨BitVec.ofNat 256 (offDst.toNat + 2 ^ 16 * offOp0.toNat + 2 ^ 32 * offOp1.toNat +
    2 ^ 48 * bitsValue (List.ofFn flags))⟩

theorem bool_eq_of_toNat_eq {a b : Bool} (h : a.toNat = b.toNat) : a = b := by
  cases a <;> cases b <;> simp_all

theorem map_toNat_eq_some {x : Option UInt16} {d : UInt16} (h : x.map UInt16.toNat = some d.toNat) :
    x = some d := by
  obtain ⟨a, rfl, ha⟩ := Option.map_eq_some'.1 h
  rw [UInt16.toNat.inj ha]

section Pack

variable (d o0 o1 : UInt16) (flags : Fin 15 → Bool)

theorem packWord_toNat : (packWord d o0 o1 flags).val.toNat =
    d.toNat + 2 ^ 16 * o0.toNat + 2 ^ 32 * o1.toNat + 2 ^ 48 * bitsValue (List.ofFn flags) := by
  have := bitsValue_lt (List.ofFn flags)
  have := d.toNat_lt_size; have := o0.toNat_lt_size; have := o1.toNat_lt_size
  simp only [List.length_ofFn, UInt16.size] at *
  rw [packWord, BitVec.toNat_ofNat, Nat.mod_eq_of_lt (by omega)]

theorem packWord_offsets :
    (packWord d o0 o1 flags).getOffDst = some d ∧ (packWord d o0 o1 flags).getOffOp0 = some o0 ∧
      (packWord d o0 o1 flags).getOffOp1 = some o1 := by
  have := bitsValue_lt (List.ofFn flags)
  have := d.toNat_lt_size; have := o0.toNat_lt_size; have := o1.toNat_lt_size
  simp only [List.length_ofFn, UInt16.size] at *
  refine ⟨map_toNat_eq_some ?_, map_toNat_eq_some ?_, map_toNat_eq_some ?_⟩ <;>
    simp only [Word.getOffDst, Word.getOffOp0, Word.getOffOp1, Word.getOff_eq, packWord_toNat,
      offDstBitOffset, offOp0BitOffset, offOp1BitOffset, Option.some.injEq] <;> omega

theorem packWord_getFlag (f : Flag) (hf : f.toNat < 15) :
    (packWord d o0 o1 flags).getFlag f = flags ⟨f.toNat, hf⟩ := by
  have := bitsValue_lt (List.ofFn flags)
  have := d.toNat_lt_size; have := o0.toNat_lt_size; have := o1.toNat_lt_size
  simp only [List.length_ofFn, UInt16.size] at *
  have h48 : (packWord d o0 o1 flags).val.toNat / 2 ^ 48 = bitsValue (List.ofFn flags) := by
    rw [packWord_toNat]; omega
  have h := (packWord d o0 o1 flags).getFlag_eq f
  rw [pow_add, ← Nat.div_div_eq_div_mul, h48, bitsValue_div_pow_mod_two,
    List.getD_eq_getElem _ _ (by simpa using hf), List.getElem_ofFn] at h
  exact bool_eq_of_toNat_eq h

theorem packWord_getFlag_zero : (packWord d o0 o1 flags).getFlag .zero = false := by
  have := bitsValue_lt (List.ofFn flags)
  have := d.toNat_lt_size; have := o0.toNat_lt_size; have := o1.toNat_lt_size
  simp only [List.length_ofFn, UInt16.size] at *
  have h := (packWord d o0 o1 flags).getFlag_eq .zero
  rw [packWord_toNat, show Flag.toNat .zero = 15 from rfl] at h
  apply bool_eq_of_toNat_eq
  rw [h, Bool.toNat_false]
  omega

end Pack

/-- **The decoders of `Word` on every 256-bit word.** `get_off_dst`, `get_off_op0` and
`get_off_op1` return bits 0–15, 16–31 and 32–47; `get_flag_prefix` returns
`Σ_{j=f}^{14} 2^(j-f)·bit_(48+j)` for every flag but `Zero` and `0` for `Zero`; no `u16`
conversion fails. The low 63 bits are `off_dst + 2^16 off_op0 + 2^32 off_op1 + 2^48 f̃_0`,
and `f_i = f̃_i - 2 f̃_(i+1)` from `DstReg` to `OpcodeAssertEq`. Conversely, three 16-bit
offsets and fifteen flag bits packed into a word decode back to themselves. -/
theorem word_decode_spec :
    (∀ w : Word,
      w.getOffDst.map UInt16.toNat = some (w.val.toNat % 2 ^ 16) ∧
      w.getOffOp0.map UInt16.toNat = some (w.val.toNat / 2 ^ 16 % 2 ^ 16) ∧
      w.getOffOp1.map UInt16.toNat = some (w.val.toNat / 2 ^ 32 % 2 ^ 16) ∧
      (∀ f : Flag, f ≠ .zero → (w.getFlagPrefix f).map UInt16.toNat =
        some (∑ j ∈ Finset.Ico f.toNat 15, 2 ^ (j - f.toNat) * (w.val.getLsbD (48 + j)).toNat)) ∧
      w.getFlagPrefix .zero = some 0 ∧
      (∃ d o0 o1 p : UInt16, w.getOffDst = some d ∧ w.getOffOp0 = some o0 ∧
        w.getOffOp1 = some o1 ∧ w.getFlagPrefix .dstReg = some p ∧
        w.val.toNat % 2 ^ 63 = d.toNat + 2 ^ 16 * o0.toNat + 2 ^ 32 * o1.toNat + 2 ^ 48 * p.toNat) ∧
      (∀ f g : Flag, f.toNat + 1 = g.toNat → ∃ pf pg : UInt16, w.getFlagPrefix f = some pf ∧
        w.getFlagPrefix g = some pg ∧ ((w.getFlag f).toNat : ℤ) = pf.toNat - 2 * pg.toNat)) ∧
    (∀ (d o0 o1 : UInt16) (flags : Fin 15 → Bool),
      (packWord d o0 o1 flags).getOffDst = some d ∧ (packWord d o0 o1 flags).getOffOp0 = some o0 ∧
      (packWord d o0 o1 flags).getOffOp1 = some o1 ∧
      (∀ (f : Flag) (hf : f.toNat < 15), (packWord d o0 o1 flags).getFlag f = flags ⟨f.toNat, hf⟩) ∧
      (packWord d o0 o1 flags).getFlag .zero = false) := by
  refine ⟨fun w => ⟨by simpa [Word.getOffDst, offDstBitOffset] using w.getOff_eq offDstBitOffset, w.getOff_eq _,
    w.getOff_eq _, fun f hf => flagPrefix_eq_sum w hf, rfl, low_bits_eq w, fun f g hfg => ?_⟩,
    fun d o0 o1 flags => ⟨(packWord_offsets d o0 o1 flags).1, (packWord_offsets d o0 o1 flags).2.1,
      (packWord_offsets d o0 o1 flags).2.2, packWord_getFlag d o0 o1 flags,
      packWord_getFlag_zero d o0 o1 flags⟩⟩
  obtain ⟨pf, pg, hpf, hpg, h⟩ := flagPrefix_succ w hfg
  exact ⟨pf, pg, hpf, hpg, by omega⟩

end Sandstorm
