import Sandstorm.Binary.Semantics

/-!
# The memory segments of the builtins

Each builtin owns a segment of the memory, cut into instances of a fixed number of cells:
`mem_addr(segment_addr)` of the instance with index `i` computes
`instance_offset = segment_addr + i * cells` and returns the addresses
`instance_offset + k` of its cells, `k < cells`, all in `u32`, where a debug build panics on
overflow. The six `mem_addr` are one function of the number of cells (`instanceCells`): two for
ECDSA, three for Pedersen, five for bitwise, six for Poseidon, seven for the EC operation; the
range check adds its index without a product, which is the one-cell case.

* `instanceCells_eq`: the cells of an instance, and the overflow panic.
* `instanceCells_layout`: instance `i` owns exactly the window
  `[segment_addr + cells·i, segment_addr + cells·i + cells)`, panics where it does not fit in
  `u32`, and two instances never share a cell.
* `rangeCheck_memAddr`: the range check's address is the one-cell case.
-/

namespace Sandstorm

/-- `a + b` on `u32`, `none` where a debug build panics on overflow. -/
def u32Add (a b : UInt32) : Option UInt32 :=
  if a.toNat + b.toNat < 2 ^ 32 then some (UInt32.ofNat (a.toNat + b.toNat)) else none

/-- `a * b` on `u32`, `none` where a debug build panics on overflow. -/
def u32Mul (a b : UInt32) : Option UInt32 :=
  if a.toNat * b.toNat < 2 ^ 32 then some (UInt32.ofNat (a.toNat * b.toNat)) else none

/-- `mem_addr(segment_addr)` of an instance of `cells` cells with index `index`:
`instance_offset = segment_addr + index * cells` (the product checked first), then the
addresses `instance_offset + k` in order, each checked (the first is `instance_offset + 0`). -/
def instanceCells (cells segmentAddr index : UInt32) : Option (List UInt32) := do
  let instanceOffset ← u32Add segmentAddr (← u32Mul index cells)
  (List.range cells.toNat).mapM fun k => u32Add instanceOffset (UInt32.ofNat k)

/-! ## The instances -/

/-- `Signature`: `r` and `w = s⁻¹`. -/
structure Signature where
  r : BitVec 256
  w : BitVec 256

/-- `EcdsaInstance`. -/
structure EcdsaInstance where
  index : UInt32
  pubkeyX : BitVec 256
  message : BitVec 256
  signature : Signature

/-- `EcdsaInstance::mem_addr`: `(pubkey_addr, msg_addr)`. -/
def EcdsaInstance.memAddr (inst : EcdsaInstance) (ecdsaSegmentAddr : UInt32) :
    Option (List UInt32) :=
  instanceCells 2 ecdsaSegmentAddr inst.index

/-- `PedersenInstance`, of which `mem_addr` reads the index only. -/
structure PedersenInstance where
  index : UInt32

/-- `PedersenInstance::mem_addr`: `(a_addr, b_addr, output_addr)`. -/
def PedersenInstance.memAddr (inst : PedersenInstance) (pedersenSegmentAddr : UInt32) :
    Option (List UInt32) :=
  instanceCells 3 pedersenSegmentAddr inst.index

/-- `RangeCheckInstance`, of which `mem_addr` reads the index only. -/
structure RangeCheckInstance where
  index : UInt32

/-- `RangeCheckInstance::mem_addr`: `range_check_segment_addr + index`, with no product. -/
def RangeCheckInstance.memAddr (inst : RangeCheckInstance) (rangeCheckSegmentAddr : UInt32) :
    Option UInt32 :=
  u32Add rangeCheckSegmentAddr inst.index

/-- `BitwiseInstance`, of which `mem_addr` reads the index only. -/
structure BitwiseInstance where
  index : UInt32

/-- `BitwiseInstance::mem_addr`: `(x_addr, y_addr, x&y_addr, x^y_addr, x|y_addr)`. -/
def BitwiseInstance.memAddr (inst : BitwiseInstance) (bitwiseSegmentAddr : UInt32) :
    Option (List UInt32) :=
  instanceCells 5 bitwiseSegmentAddr inst.index

/-- `EcOpInstance`, of which `mem_addr` reads the index only. -/
structure EcOpInstance where
  index : UInt32

/-- `EcOpInstance::mem_addr`: `(p_x_addr, p_y_addr, q_x_addr, q_y_addr, m_addr, r_x_addr,
r_y_addr)`. -/
def EcOpInstance.memAddr (inst : EcOpInstance) (ecOpSegmentAddr : UInt32) :
    Option (List UInt32) :=
  instanceCells 7 ecOpSegmentAddr inst.index

/-- `PoseidonInstance`, of which `mem_addr` reads the index only. -/
structure PoseidonInstance where
  index : UInt32

/-- `PoseidonInstance::mem_addr`: `(input0_addr, input1_addr, input2_addr, output0_addr,
output1_addr, output2_addr)`. -/
def PoseidonInstance.memAddr (inst : PoseidonInstance) (poseidonSegmentAddr : UInt32) :
    Option (List UInt32) :=
  instanceCells 6 poseidonSegmentAddr inst.index

/-! ## Checked arithmetic -/

theorem u32Add_eq (a b : UInt32) :
    u32Add a b = if a.toNat + b.toNat < 2 ^ 32 then some (UInt32.ofNat (a.toNat + b.toNat)) else none :=
  rfl

theorem toNat_ofNat_of_lt {n : ℕ} (h : n < 2 ^ 32) : (UInt32.ofNat n).toNat = n :=
  UInt32.toNat_ofNat_of_lt h

/-- The cells after an offset `o`: `o + k` for `k < n`, none past `u32::MAX`. -/
theorem mapM_u32Add_range (o : UInt32) :
    ∀ {n : ℕ}, n ≤ 2 ^ 32 → ((List.range n).mapM fun k => u32Add o (UInt32.ofNat k)) =
      if o.toNat + n ≤ 2 ^ 32 then some ((List.range n).map fun k => UInt32.ofNat (o.toNat + k))
      else none
  | 0, _ => by
    rw [if_pos (by have := o.toNat_lt; omega)]
    rfl
  | n + 1, hn => by
    have hlt := o.toNat_lt
    rw [List.range_succ, List.mapM_append, mapM_u32Add_range o (by omega)]
    simp only [List.mapM_cons, List.mapM_nil, u32Add_eq, toNat_ofNat_of_lt (show n < 2 ^ 32 by omega)]
    -- the new cell `o + n` overflows exactly when the run reaches `u32::MAX`
    split_ifs <;> first | rfl | omega | simp [List.map_append]

theorem uint32_ofNat_toNat (a : UInt32) : UInt32.ofNat a.toNat = a :=
  UInt32.toNat.inj (toNat_ofNat_of_lt a.toNat_lt)

/-! ## The cells of an instance -/

/-- `mem_addr` in closed form: the `cells` consecutive addresses from
`segment_addr + index·cells`, and a panic exactly where the last of them would pass
`u32::MAX` (the product and the offset overflow only then). -/
theorem instanceCells_eq (cells segmentAddr index : UInt32) :
    instanceCells cells segmentAddr index =
      if segmentAddr.toNat + index.toNat * cells.toNat + cells.toNat ≤ 2 ^ 32 then
        some ((List.range cells.toNat).map fun k =>
          UInt32.ofNat (segmentAddr.toNat + index.toNat * cells.toNat + k))
      else none := by
  have hs := segmentAddr.toNat_lt
  have hc := cells.toNat_lt
  unfold instanceCells u32Mul
  by_cases hmul : index.toNat * cells.toNat < 2 ^ 32
  · rw [if_pos hmul]
    simp only [Option.bind_eq_bind, Option.some_bind]
    rw [u32Add_eq, toNat_ofNat_of_lt hmul]
    by_cases hadd : segmentAddr.toNat + index.toNat * cells.toNat < 2 ^ 32
    · rw [if_pos hadd, Option.some_bind, mapM_u32Add_range _ hc.le, toNat_ofNat_of_lt hadd]
    · have hc0 : cells.toNat ≠ 0 := fun h => hadd (by rw [h, mul_zero, add_zero]; exact hs)
      rw [if_neg hadd, Option.none_bind, if_neg (by omega)]
  · have hc0 : cells.toNat ≠ 0 := fun h => hmul (by rw [h, mul_zero]; norm_num)
    rw [if_neg hmul, Option.bind_eq_bind, Option.none_bind, if_neg (by omega)]

/-- The cells of an instance are its window of addresses. -/
theorem mem_instanceCells {cells segmentAddr index : UInt32} {L : List UInt32}
    (h : instanceCells cells segmentAddr index = some L) (a : UInt32) :
    a ∈ L ↔ segmentAddr.toNat + index.toNat * cells.toNat ≤ a.toNat ∧
      a.toNat < segmentAddr.toNat + index.toNat * cells.toNat + cells.toNat := by
  rw [instanceCells_eq] at h
  split_ifs at h with hfit
  cases h
  simp only [List.mem_map, List.mem_range]
  constructor
  · rintro ⟨k, hk, rfl⟩
    rw [toNat_ofNat_of_lt (by omega)]
    omega
  · rintro ⟨hlo, hhi⟩
    exact ⟨a.toNat - (segmentAddr.toNat + index.toNat * cells.toNat), by omega,
      by rw [Nat.add_sub_cancel' hlo, uint32_ofNat_toNat]⟩

/-- **The layout of a builtin's segment.** Instance `i` has its cells exactly when its
window `[segment_addr + i·cells, segment_addr + i·cells + cells)` fits below `u32::MAX + 1`,
its cells are exactly that window, and so two instances with different indices never share
a cell. -/
theorem instanceCells_layout (cells segmentAddr : UInt32) :
    (∀ index : UInt32, (instanceCells cells segmentAddr index).isSome ↔
      segmentAddr.toNat + index.toNat * cells.toNat + cells.toNat ≤ 2 ^ 32) ∧
    (∀ (index : UInt32) (L : List UInt32), instanceCells cells segmentAddr index = some L →
      ∀ a : UInt32, a ∈ L ↔ segmentAddr.toNat + index.toNat * cells.toNat ≤ a.toNat ∧
        a.toNat < segmentAddr.toNat + index.toNat * cells.toNat + cells.toNat) ∧
    (∀ (i j : UInt32) (Li Lj : List UInt32), instanceCells cells segmentAddr i = some Li →
      instanceCells cells segmentAddr j = some Lj → i ≠ j → ∀ a ∈ Li, a ∉ Lj) := by
  refine ⟨fun index => ?_, fun index L h => mem_instanceCells h,
    fun i j Li Lj hi hj hij a ha ha' => hij ?_⟩
  · rw [instanceCells_eq]
    split_ifs with h
    · exact iff_of_true rfl h
    · exact iff_of_false Bool.false_ne_true h
  have wi := (mem_instanceCells hi a).mp ha
  have wj := (mem_instanceCells hj a).mp ha'
  -- a cell's instance is its offset in the segment divided by `cells`
  have hdi : (a.toNat - segmentAddr.toNat) / cells.toNat = i.toNat :=
    Nat.div_eq_of_lt_le (by omega) (by rw [Nat.succ_mul]; omega)
  have hdj : (a.toNat - segmentAddr.toNat) / cells.toNat = j.toNat :=
    Nat.div_eq_of_lt_le (by omega) (by rw [Nat.succ_mul]; omega)
  exact UInt32.toNat.inj (hdi.symm.trans hdj)

/-- The range check's `mem_addr`, with no product, is the one-cell case of the others. -/
theorem rangeCheck_memAddr (inst : RangeCheckInstance) (rangeCheckSegmentAddr : UInt32) :
    (inst.memAddr rangeCheckSegmentAddr).map (fun a => [a]) =
      instanceCells 1 rangeCheckSegmentAddr inst.index := by
  have h1 : (1 : UInt32).toNat = 1 := rfl
  rw [instanceCells_eq, h1, mul_one, RangeCheckInstance.memAddr, u32Add_eq]
  by_cases h : rangeCheckSegmentAddr.toNat + inst.index.toNat < 2 ^ 32
  · rw [if_pos h, if_pos (by omega)]
    rfl
  · rw [if_neg h, if_neg (by omega)]
    rfl

end Sandstorm
