import Sandstorm.Binary.AuxInput
import Sandstorm.Binary.Canonical

/-!
# The canonical format of the public input

The `ark_serialize` formats the binary crate gives its public-input types: `Layout` by
hand, as its SHARP code in a `u64`; `MemoryEntry<T>` by hand, value first, then address;
`Segment` and `CairoAuxInput<F>` derived, field after field in declaration order.

* `layout_roundTrips`, `segment_roundTrips`, `memoryEntry_roundTrips`: the formats of
  the parts round-trip, the layout on Starknet only.
* `canonical_roundTrips`: the format of `CairoAuxInput` round-trips on every Starknet input
  whose public memory has fewer than `2^64` cells, over a field whose modulus's bit length
  is not a multiple of `8`; where it is, a field element with the top bit of its last byte
  set does not read back (`canonical_roundTrip_flagBit`).
* `canonical_roundTrip`: **the same stated for one input and one pair of modes, with the
  bytes of a memory entry and of the Starknet layout.**
-/

namespace Sandstorm

open Canonical

/-! ## The parts -/

/-- `Layout`'s format: `sharp_code()` as a `u64`, read back through `from_sharp_code`;
both panic off Starknet. -/
def Layout.canonical : Canonical Layout where
  serializeWithMode m l := do
    let code ← l.sharpCode
    u64.serializeWithMode m code
  serializedSize _ _ := 8
  deserializeWithMode m v := do
    let code ← u64.deserializeWithMode m v
    match Layout.fromSharpCode code with
    | some l => pure l
    | none => Reader.fail
  check _ := true

/-- `Segment`'s derived format. -/
def Segment.canonical : Canonical Segment where
  serializeWithMode m s := do
    let beginAddr ← u32.serializeWithMode m s.beginAddr
    let stopPtr ← u32.serializeWithMode m s.stopPtr
    some (beginAddr ++ stopPtr)
  serializedSize m s := u32.serializedSize m s.beginAddr + u32.serializedSize m s.stopPtr
  deserializeWithMode m v := do
    let beginAddr ← u32.deserializeWithMode m v
    let stopPtr ← u32.deserializeWithMode m v
    pure ⟨beginAddr, stopPtr⟩
  check s := u32.check s.beginAddr && u32.check s.stopPtr

/-- `MemoryEntry<T>`'s format: the value, then the address, and read in that order. -/
def MemoryEntry.canonical {α : Type} (c : Canonical α) : Canonical (MemoryEntry α) where
  serializeWithMode m e := do
    let value ← c.serializeWithMode m e.value
    let address ← u32.serializeWithMode m e.address
    some (value ++ address)
  serializedSize m e := c.serializedSize m e.value + u32.serializedSize m e.address
  deserializeWithMode m v := do
    let value ← c.deserializeWithMode m v
    let address ← u32.deserializeWithMode m v
    pure ⟨address, value⟩
  check e := c.check e.value && u32.check e.address

theorem layout_roundTrips : Layout.canonical.RoundTrips fun l => l = .starknet := by
  rintro m v _ rfl
  obtain ⟨bs, hw, hs, -, hr⟩ := u64_roundTrips m v Layout.sharpCodeStarknet trivial
  refine ⟨bs, hw, hs, rfl, fun rest => ?_⟩
  simp [Layout.canonical, hr, Layout.fromSharpCode]

theorem segment_roundTrips : Segment.canonical.RoundTrips fun _ => True := by
  intro m v s _
  obtain ⟨b₁, hw₁, hs₁, hc₁, hr₁⟩ := u32_roundTrips m v s.beginAddr trivial
  obtain ⟨b₂, hw₂, hs₂, hc₂, hr₂⟩ := u32_roundTrips m v s.stopPtr trivial
  exact ⟨b₁ ++ b₂, by simp [Segment.canonical, hw₁, hw₂], by simp [Segment.canonical, hs₁, hs₂],
    by simp [Segment.canonical, hc₁, hc₂], fun rest => by simp [Segment.canonical, hr₁, hr₂]⟩

theorem memoryEntry_roundTrips {α : Type} {c : Canonical α} {ok : α → Prop} (h : c.RoundTrips ok) :
    (MemoryEntry.canonical c).RoundTrips fun e => ok e.value := by
  intro m v e he
  obtain ⟨b₁, hw₁, hs₁, hc₁, hr₁⟩ := h m v e.value he
  obtain ⟨b₂, hw₂, hs₂, hc₂, hr₂⟩ := u32_roundTrips m v e.address trivial
  exact ⟨b₁ ++ b₂, by simp [MemoryEntry.canonical, hw₁, hw₂],
    by simp [MemoryEntry.canonical, hs₁, hs₂], by simp [MemoryEntry.canonical, hc₁, hc₂],
    fun rest => by simp [MemoryEntry.canonical, hr₁, hr₂]⟩

/-! ## `CairoAuxInput` -/

namespace CairoAuxInput

variable (q : ℕ)

/-- `CairoAuxInput<F>`'s derived format over `F = ZMod q`: the fields in declaration
order, each written in full before the next, the first error ending the write. -/
def canonical : Canonical (CairoAuxInput q) where
  serializeWithMode m x := List.flatten <$> List.mapM id
    [u32.serializeWithMode m x.logNSteps, Layout.canonical.serializeWithMode m x.layout,
      (fp q).serializeWithMode m x.initialAp, (fp q).serializeWithMode m x.initialPc,
      (fp q).serializeWithMode m x.finalAp, (fp q).serializeWithMode m x.finalPc,
      u16.serializeWithMode m x.rangeCheckMin, u16.serializeWithMode m x.rangeCheckMax,
      (MemoryEntry.canonical (fp q)).serializeWithMode m x.publicMemoryPadding,
      Segment.canonical.serializeWithMode m x.programSegment,
      Segment.canonical.serializeWithMode m x.executionSegment,
      (option Segment.canonical).serializeWithMode m x.outputSegment,
      (option Segment.canonical).serializeWithMode m x.pedersenSegment,
      (option Segment.canonical).serializeWithMode m x.rcSegment,
      (option Segment.canonical).serializeWithMode m x.ecdsaSegment,
      (option Segment.canonical).serializeWithMode m x.bitwiseSegment,
      (option Segment.canonical).serializeWithMode m x.ecOpSegment,
      (option Segment.canonical).serializeWithMode m x.poseidonSegment,
      (vec (MemoryEntry.canonical (fp q))).serializeWithMode m x.publicMemory]
  serializedSize m x := List.sum
    [u32.serializedSize m x.logNSteps, Layout.canonical.serializedSize m x.layout,
      (fp q).serializedSize m x.initialAp, (fp q).serializedSize m x.initialPc,
      (fp q).serializedSize m x.finalAp, (fp q).serializedSize m x.finalPc,
      u16.serializedSize m x.rangeCheckMin, u16.serializedSize m x.rangeCheckMax,
      (MemoryEntry.canonical (fp q)).serializedSize m x.publicMemoryPadding,
      Segment.canonical.serializedSize m x.programSegment,
      Segment.canonical.serializedSize m x.executionSegment,
      (option Segment.canonical).serializedSize m x.outputSegment,
      (option Segment.canonical).serializedSize m x.pedersenSegment,
      (option Segment.canonical).serializedSize m x.rcSegment,
      (option Segment.canonical).serializedSize m x.ecdsaSegment,
      (option Segment.canonical).serializedSize m x.bitwiseSegment,
      (option Segment.canonical).serializedSize m x.ecOpSegment,
      (option Segment.canonical).serializedSize m x.poseidonSegment,
      (vec (MemoryEntry.canonical (fp q))).serializedSize m x.publicMemory]
  deserializeWithMode m v := do
    let logNSteps ← u32.deserializeWithMode m v
    let layout ← Layout.canonical.deserializeWithMode m v
    let initialAp ← (fp q).deserializeWithMode m v
    let initialPc ← (fp q).deserializeWithMode m v
    let finalAp ← (fp q).deserializeWithMode m v
    let finalPc ← (fp q).deserializeWithMode m v
    let rangeCheckMin ← u16.deserializeWithMode m v
    let rangeCheckMax ← u16.deserializeWithMode m v
    let publicMemoryPadding ← (MemoryEntry.canonical (fp q)).deserializeWithMode m v
    let programSegment ← Segment.canonical.deserializeWithMode m v
    let executionSegment ← Segment.canonical.deserializeWithMode m v
    let outputSegment ← (option Segment.canonical).deserializeWithMode m v
    let pedersenSegment ← (option Segment.canonical).deserializeWithMode m v
    let rcSegment ← (option Segment.canonical).deserializeWithMode m v
    let ecdsaSegment ← (option Segment.canonical).deserializeWithMode m v
    let bitwiseSegment ← (option Segment.canonical).deserializeWithMode m v
    let ecOpSegment ← (option Segment.canonical).deserializeWithMode m v
    let poseidonSegment ← (option Segment.canonical).deserializeWithMode m v
    let publicMemory ← (vec (MemoryEntry.canonical (fp q))).deserializeWithMode m v
    pure
      { logNSteps := logNSteps, layout := layout, initialAp := initialAp,
        initialPc := initialPc, finalAp := finalAp, finalPc := finalPc,
        rangeCheckMin := rangeCheckMin, rangeCheckMax := rangeCheckMax,
        publicMemoryPadding := publicMemoryPadding, programSegment := programSegment,
        executionSegment := executionSegment, outputSegment := outputSegment,
        pedersenSegment := pedersenSegment, rcSegment := rcSegment,
        ecdsaSegment := ecdsaSegment, bitwiseSegment := bitwiseSegment,
        ecOpSegment := ecOpSegment, poseidonSegment := poseidonSegment,
        publicMemory := publicMemory }
  check x := u32.check x.logNSteps && Layout.canonical.check x.layout &&
    (fp q).check x.initialAp && (fp q).check x.initialPc && (fp q).check x.finalAp &&
    (fp q).check x.finalPc && u16.check x.rangeCheckMin && u16.check x.rangeCheckMax &&
    (MemoryEntry.canonical (fp q)).check x.publicMemoryPadding &&
    Segment.canonical.check x.programSegment && Segment.canonical.check x.executionSegment &&
    (option Segment.canonical).check x.outputSegment &&
    (option Segment.canonical).check x.pedersenSegment &&
    (option Segment.canonical).check x.rcSegment &&
    (option Segment.canonical).check x.ecdsaSegment &&
    (option Segment.canonical).check x.bitwiseSegment &&
    (option Segment.canonical).check x.ecOpSegment &&
    (option Segment.canonical).check x.poseidonSegment &&
    (vec (MemoryEntry.canonical (fp q))).check x.publicMemory

variable {q} [NeZero q]

theorem canonical_roundTrips (hbits : (Nat.log2 q + 1) % 8 ≠ 0) :
    (canonical q).RoundTrips fun x => x.layout = .starknet ∧ x.publicMemory.length < 2 ^ 64 := by
  rintro m v x ⟨hl, hlen⟩
  have hseg := option_roundTrips segment_roundTrips
  have hentry := memoryEntry_roundTrips (fp_roundTrips q hbits)
  obtain ⟨b₁, hw₁, hs₁, hc₁, hr₁⟩ := u32_roundTrips m v x.logNSteps trivial
  obtain ⟨b₂, hw₂, hs₂, hc₂, hr₂⟩ := layout_roundTrips m v x.layout hl
  obtain ⟨b₃, hw₃, hs₃, hc₃, hr₃⟩ := fp_roundTrips q hbits m v x.initialAp trivial
  obtain ⟨b₄, hw₄, hs₄, hc₄, hr₄⟩ := fp_roundTrips q hbits m v x.initialPc trivial
  obtain ⟨b₅, hw₅, hs₅, hc₅, hr₅⟩ := fp_roundTrips q hbits m v x.finalAp trivial
  obtain ⟨b₆, hw₆, hs₆, hc₆, hr₆⟩ := fp_roundTrips q hbits m v x.finalPc trivial
  obtain ⟨b₇, hw₇, hs₇, hc₇, hr₇⟩ := u16_roundTrips m v x.rangeCheckMin trivial
  obtain ⟨b₈, hw₈, hs₈, hc₈, hr₈⟩ := u16_roundTrips m v x.rangeCheckMax trivial
  obtain ⟨b₉, hw₉, hs₉, hc₉, hr₉⟩ := hentry m v x.publicMemoryPadding trivial
  obtain ⟨b₁₀, hw₁₀, hs₁₀, hc₁₀, hr₁₀⟩ := segment_roundTrips m v x.programSegment trivial
  obtain ⟨b₁₁, hw₁₁, hs₁₁, hc₁₁, hr₁₁⟩ := segment_roundTrips m v x.executionSegment trivial
  obtain ⟨b₁₂, hw₁₂, hs₁₂, hc₁₂, hr₁₂⟩ := hseg m v x.outputSegment fun _ _ => trivial
  obtain ⟨b₁₃, hw₁₃, hs₁₃, hc₁₃, hr₁₃⟩ := hseg m v x.pedersenSegment fun _ _ => trivial
  obtain ⟨b₁₄, hw₁₄, hs₁₄, hc₁₄, hr₁₄⟩ := hseg m v x.rcSegment fun _ _ => trivial
  obtain ⟨b₁₅, hw₁₅, hs₁₅, hc₁₅, hr₁₅⟩ := hseg m v x.ecdsaSegment fun _ _ => trivial
  obtain ⟨b₁₆, hw₁₆, hs₁₆, hc₁₆, hr₁₆⟩ := hseg m v x.bitwiseSegment fun _ _ => trivial
  obtain ⟨b₁₇, hw₁₇, hs₁₇, hc₁₇, hr₁₇⟩ := hseg m v x.ecOpSegment fun _ _ => trivial
  obtain ⟨b₁₈, hw₁₈, hs₁₈, hc₁₈, hr₁₈⟩ := hseg m v x.poseidonSegment fun _ _ => trivial
  obtain ⟨b₁₉, hw₁₉, hs₁₉, hc₁₉, hr₁₉⟩ :=
    vec_roundTrips hentry m v x.publicMemory ⟨hlen, fun _ _ => trivial⟩
  refine ⟨[b₁, b₂, b₃, b₄, b₅, b₆, b₇, b₈, b₉, b₁₀, b₁₁, b₁₂, b₁₃, b₁₄, b₁₅, b₁₆, b₁₇, b₁₈,
    b₁₉].flatten, ?_, ?_, ?_, fun rest => ?_⟩
  · simp [canonical, -List.mapM, List.mapM_cons, pure, hw₁, hw₂, hw₃, hw₄, hw₅, hw₆, hw₇, hw₈,
      hw₉, hw₁₀, hw₁₁, hw₁₂, hw₁₃, hw₁₄, hw₁₅, hw₁₆, hw₁₇, hw₁₈, hw₁₉]
  · simp [canonical, hs₁, hs₂, hs₃, hs₄, hs₅, hs₆, hs₇, hs₈, hs₉, hs₁₀, hs₁₁, hs₁₂, hs₁₃, hs₁₄,
      hs₁₅, hs₁₆, hs₁₇, hs₁₈, hs₁₉]
  · simp [canonical, hc₁, hc₂, hc₃, hc₄, hc₅, hc₆, hc₇, hc₈, hc₉, hc₁₀, hc₁₁, hc₁₂, hc₁₃, hc₁₄,
      hc₁₅, hc₁₆, hc₁₇, hc₁₈, hc₁₉]
  · simp only [List.flatten_cons, List.flatten_nil, List.append_nil, List.append_assoc]
    dsimp only [canonical]
    rw [reader_bind_of _ hr₁, reader_bind_of _ hr₂, reader_bind_of _ hr₃, reader_bind_of _ hr₄,
      reader_bind_of _ hr₅, reader_bind_of _ hr₆, reader_bind_of _ hr₇, reader_bind_of _ hr₈,
      reader_bind_of _ hr₉, reader_bind_of _ hr₁₀, reader_bind_of _ hr₁₁, reader_bind_of _ hr₁₂,
      reader_bind_of _ hr₁₃, reader_bind_of _ hr₁₄, reader_bind_of _ hr₁₅, reader_bind_of _ hr₁₆,
      reader_bind_of _ hr₁₇, reader_bind_of _ hr₁₈, reader_bind_of _ hr₁₉]
    rfl

/-- **The round trip of the public input.** When the bit length of the modulus is not a
multiple of `8`, as for the STARK field's 252 bits, `deserialize_with_mode` reads back, in
every pair of modes, the bytes `serialize_with_mode` writes for a Starknet input, and
consumes exactly `serialized_size` of them. A memory entry is written value first, then
address, and read in that order; the layout is written as its SHARP code and read back
from it. -/
theorem canonical_roundTrip (x : CairoAuxInput q) (hbits : (Nat.log2 q + 1) % 8 ≠ 0)
    (hl : x.layout = .starknet)
    (hlen : x.publicMemory.length < 2 ^ 64) (m : Compress) (v : Validate) :
    (∃ bs, (canonical q).serializeWithMode m x = some bs ∧
      bs.length = (canonical q).serializedSize m x ∧
      ∀ rest, (canonical q).deserializeWithMode m v (bs ++ rest) = some (x, rest)) ∧
    (∀ e : MemoryEntry (ZMod q),
      (MemoryEntry.canonical (fp q)).serializeWithMode m e =
        some (leBytes (fieldBytes q) e.value.val ++ leBytes 4 e.address.toNat) ∧
      ∀ rest, (MemoryEntry.canonical (fp q)).deserializeWithMode m v
        (leBytes (fieldBytes q) e.value.val ++ leBytes 4 e.address.toNat ++ rest) = some (e, rest)) ∧
    Layout.canonical.serializeWithMode m .starknet =
      some (leBytes 8 Layout.sharpCodeStarknet.toNat) ∧
    ∀ rest, Layout.canonical.deserializeWithMode m v
      (leBytes 8 Layout.sharpCodeStarknet.toNat ++ rest) = some (.starknet, rest) := by
  obtain ⟨bs, hw, hs, -, hr⟩ := canonical_roundTrips hbits m v x ⟨hl, hlen⟩
  refine ⟨⟨bs, hw, hs, hr⟩, fun e => ?_, rfl, ?_⟩
  · obtain ⟨be, hwe, -, -, hre⟩ := memoryEntry_roundTrips (fp_roundTrips q hbits) m v e trivial
    cases hwe
    exact ⟨rfl, hre⟩
  · obtain ⟨bl, hwl, -, -, hrl⟩ := layout_roundTrips m v .starknet rfl
    cases hwl
    exact hrl

/-- A Starknet input over `ZMod 3` with two optional segments absent and one public
memory cell, in the validating, compressing mode. -/
theorem canonical_roundTrip_sample :
    let x : CairoAuxInput 3 :=
      { logNSteps := 4, layout := .starknet, initialAp := 0, initialPc := 1, finalAp := 0,
        finalPc := 1, rangeCheckMin := 0, rangeCheckMax := 5, publicMemoryPadding := ⟨1, 2⟩,
        programSegment := ⟨1, 5⟩, executionSegment := ⟨5, 9⟩, outputSegment := some ⟨9, 9⟩,
        pedersenSegment := none, rcSegment := some ⟨9, 10⟩, ecdsaSegment := none,
        bitwiseSegment := some ⟨10, 10⟩, ecOpSegment := some ⟨10, 10⟩,
        poseidonSegment := some ⟨10, 10⟩, publicMemory := [⟨1, 2⟩] }
    (Nat.log2 3 + 1) % 8 ≠ 0 ∧ x.layout = .starknet ∧ x.publicMemory.length < 2 ^ 64 ∧
    (∃ bs, (canonical 3).serializeWithMode .yes x = some bs ∧
      bs.length = (canonical 3).serializedSize .yes x ∧
      ∀ rest, (canonical 3).deserializeWithMode .yes .yes (bs ++ rest) = some (x, rest)) ∧
    (∀ e : MemoryEntry (ZMod 3),
      (MemoryEntry.canonical (fp 3)).serializeWithMode .yes e =
        some (leBytes (fieldBytes 3) e.value.val ++ leBytes 4 e.address.toNat) ∧
      ∀ rest, (MemoryEntry.canonical (fp 3)).deserializeWithMode .yes .yes
        (leBytes (fieldBytes 3) e.value.val ++ leBytes 4 e.address.toNat ++ rest) = some (e, rest)) ∧
    Layout.canonical.serializeWithMode .yes .starknet =
      some (leBytes 8 Layout.sharpCodeStarknet.toNat) ∧
    ∀ rest, Layout.canonical.deserializeWithMode .yes .yes
      (leBytes 8 Layout.sharpCodeStarknet.toNat ++ rest) = some (.starknet, rest) :=
  ⟨by norm_num [Nat.log2], rfl, by decide,
    canonical_roundTrip _ (by norm_num [Nat.log2]) rfl (by decide) .yes .yes⟩

/-- Over `ZMod 251`, whose modulus has 8 bits, a Starknet input with `initial_ap = 200`: the
one byte of `200` has its top bit set, so `EmptyFlags` refuses it and the input written does
not read back. -/
theorem canonical_roundTrip_flagBit :
    let x : CairoAuxInput 251 :=
      { logNSteps := 4, layout := .starknet, initialAp := 200, initialPc := 1, finalAp := 0,
        finalPc := 1, rangeCheckMin := 0, rangeCheckMax := 5, publicMemoryPadding := ⟨1, 2⟩,
        programSegment := ⟨1, 5⟩, executionSegment := ⟨5, 9⟩, outputSegment := some ⟨9, 9⟩,
        pedersenSegment := none, rcSegment := some ⟨9, 10⟩, ecdsaSegment := none,
        bitwiseSegment := some ⟨10, 10⟩, ecOpSegment := some ⟨10, 10⟩,
        poseidonSegment := some ⟨10, 10⟩, publicMemory := [⟨1, 2⟩] }
    x.layout = .starknet ∧ x.publicMemory.length < 2 ^ 64 ∧
      ((canonical 251).serializeWithMode .yes x).isSome ∧
      ((canonical 251).serializeWithMode .yes x).bind
        ((canonical 251).deserializeWithMode .yes .yes) = none := by
  have hfb : fieldBytes 251 = 1 := by norm_num [fieldBytes, Nat.log2]
  refine ⟨rfl, by decide, ?_, ?_⟩ <;>
  · unfold canonical fp
    simp only [hfb]
    rfl

end CairoAuxInput

end Sandstorm
