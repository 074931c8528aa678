import Sandstorm.Binary.Registers

/-!
# What a memory table read from a file holds

`Memory::from_reader` accepts more streams than the well-formed dumps of `cairo-run`; this
module reads any table it returns back to its stream. Every accepted stream is a list of
records `(address, value)`, each value below the modulus and each address below
`usize::MAX`, and the table answers `mem[addr].unwrap()` with the word of the last record at
`addr`, and panics where no record names `addr` (`fromReader_eq_some`).

* `fromReader_lastWrite`: the operands `get_dst` and `get_op0` fetch from such a table are
  the last records at the addresses the instruction resolves.
-/

namespace Sandstorm

/-- The last record at address `a` among `rs`, as a word. -/
def lastRecord (rs : List (UInt64 × Word)) (a : UInt64) : Option Word :=
  (rs.reverse.find? fun r => r.1 = a).map (·.2)

/-! ## One record -/

/-- Every record read is the encoding of the record it reads as, its value below the
modulus. -/
theorem readRecord_eq_some {q : ℕ} {bs rest : List UInt8} {a : UInt64} {w : Word}
    (h : readRecord q bs = some ((a, w), rest)) :
    bs = encodeRecord q (a, w.val.toNat) ++ rest ∧ w.val.toNat < q := by
  simp only [readRecord, bind, Option.bind_eq_some, Option.some.injEq, Prod.mk.injEq] at h
  obtain ⟨⟨a', r₁⟩, ha, ⟨wb, r₂⟩, hwb, word, hword, w', hw, ⟨rfl, rfl⟩, rfl⟩ := h
  obtain ⟨hlen, rfl⟩ := readExact_eq_some hwb
  unfold u256TryFromLeSlice at hword
  unfold Word.new at hw
  split_ifs at hword hw with h256 hq
  cases hword
  cases hw
  rw [readU64_eq_some ha, encodeRecord, List.append_assoc, BitVec.toNat_ofNat,
    Nat.mod_eq_of_lt h256, ← hlen, leBytes_ofLeBytes]
  exact ⟨rfl, by rwa [BitVec.toNat_ofNat, Nat.mod_eq_of_lt h256] at hq⟩

/-! ## The read loop -/

/-- One iteration of the read loop on a stream with data left. -/
theorem readLoop_of_ne_nil {q : ℕ} {acc : List (UInt64 × Word)} {m : UInt64} {bs : List UInt8}
    (hne : bs ≠ []) : readLoop q acc m bs =
      (readRecord q bs).bind fun r => readLoop q (acc ++ [r.1]) (max m r.1.1) r.2 := by
  rw [readLoop, if_neg hne]
  split <;> rename_i hr <;> rw [hr] <;> rfl

/-- Every stream the read loop reads to the end is the encoding of the records it pushed,
each value below the modulus, and the running maximum is taken over them. -/
theorem readLoop_eq_some {q : ℕ} {acc pm : List (UInt64 × Word)} {m m' : UInt64}
    {bs : List UInt8} (h : readLoop q acc m bs = some (pm, m')) :
    ∃ rs, pm = acc ++ rs ∧ m' = rs.foldl (fun m r => max m r.1) m ∧
      bs = rs.flatMap (fun r => encodeRecord q (r.1, r.2.val.toNat)) ∧
      ∀ r ∈ rs, r.2.val.toNat < q := by
  induction acc, m, bs using readLoop.induct q generalizing pm m' with
  | case1 acc m =>
    rw [readLoop_nil, Option.some.injEq, Prod.mk.injEq] at h
    obtain ⟨rfl, rfl⟩ := h
    exact ⟨[], by rw [List.append_nil], rfl, rfl, fun r hr => absurd hr (List.not_mem_nil r)⟩
  | case2 acc m bs hne hr =>
    rw [readLoop_of_ne_nil hne, hr, Option.none_bind] at h
    cases h
  | case3 acc m bs hne address word rest hr ih =>
    rw [readLoop_of_ne_nil hne, hr, Option.some_bind] at h
    obtain ⟨rs, rfl, rfl, hrest, hq⟩ := ih h
    obtain ⟨hbs, hw⟩ := readRecord_eq_some hr
    exact ⟨(address, word) :: rs, by rw [List.append_assoc, List.singleton_append], rfl,
      by rw [List.flatMap_cons, hbs, hrest], List.forall_mem_cons.mpr ⟨hw, hq⟩⟩

/-! ## The write loop -/

/-- The write loop read through `unwrap`: the last record at `a`, or else the cell it
started from. -/
theorem lastWrite_join (a : UInt64) (rs : List (UInt64 × Word)) (c : Option (Option Word)) :
    (lastWrite a.toNat rs c).join = (lastRecord rs a).or c.join := by
  induction rs generalizing c with
  | nil => rfl
  | cons r rs ih =>
    have hr : r.1.toNat = a.toNat ↔ r.1 = a := ⟨UInt64.toNat.inj, congrArg _⟩
    simp only [lastWrite, List.foldl_cons] at ih ⊢
    rw [ih]
    by_cases h : r.1 = a <;> cases hf : rs.reverse.find? (fun r => decide (r.1 = a)) <;>
      simp [lastRecord, hf, h, hr]

/-! ## The table -/

/-- Every stream `Memory::from_reader` accepts is a list of records, each address below
`usize::MAX` and each value below the modulus; the table has `1 + max address` cells; and
`mem[addr].unwrap()` on it is the word of the last record at `addr`. -/
theorem fromReader_eq_some {q : ℕ} {bs : List UInt8} {T : Memory}
    (h : Memory.fromReader q bs = some T) :
    ∃ rs : List (UInt64 × Word),
      bs = rs.flatMap (fun r => encodeRecord q (r.1, r.2.val.toNat)) ∧
      (∀ r ∈ rs, r.1.toNat < 2 ^ 64 - 1 ∧ r.2.val.toNat < q) ∧
      T.cells.length = 1 + (rs.map fun r => r.1.toNat).foldr max 0 ∧
      ∀ addr : UInt64, T.read addr = lastRecord rs addr := by
  rw [fromReader_eq, Option.bind_eq_some] at h
  obtain ⟨⟨pm, m⟩, hl, h⟩ := h
  obtain ⟨rs, hpm, rfl, rfl, hq⟩ := readLoop_eq_some hl
  rw [List.nil_append] at hpm
  subst pm
  set M := (rs.map fun r => r.1.toNat).foldr max 0
  have hle : ∀ r ∈ rs, r.1.toNat ≤ M := fun r hr => le_foldr_max (List.mem_map_of_mem _ hr)
  have hmax : (rs.foldl (fun m r => max m r.1) (0 : UInt64)).toNat = M := by
    rw [foldl_max_toNat]
    exact Nat.zero_max M
  -- the table of `max_address + 1` empty cells was allocated
  obtain ⟨memory, hv, hf⟩ := Option.bind_eq_some.1 h
  rw [usizeAdd_bind_vecNone, hmax] at hv
  split_ifs at hv
  cases hv
  obtain ⟨cells', hf', hclen, hget⟩ := fill_spec rs (List.replicate (M + 1) none) fun r hr => by
    rw [List.length_replicate]
    exact Nat.lt_succ_of_le (hle r hr)
  rw [hf', Option.map_some', Option.some.injEq] at hf
  subst hf
  refine ⟨rs, rfl, fun r hr => ⟨by have := hle r hr; omega, hq r hr⟩,
    by rw [hclen, List.length_replicate, add_comm], fun addr => ?_⟩
  show (cells'[addr.toNat]?).join = _
  by_cases ha : addr.toNat < M + 1
  · rw [hget, lastWrite_join, List.getElem?_replicate_of_lt ha]
    exact Option.or_none
  · have hno : lastRecord rs addr = none := by
      rw [lastRecord, Option.map_eq_none', List.find?_eq_none]
      intro r hr heq
      have := hle r (List.mem_reverse.mp hr)
      rw [of_decide_eq_true heq] at this
      omega
    rw [List.getElem?_eq_none (by rw [hclen, List.length_replicate]; omega), hno]
    rfl

/-! ## Operands -/

variable {F : Type} [Field F]

/-- `mem[addr].unwrap().into_felt()` on a table that reads as `lastRecord rs`. -/
theorem read_bind_intoFelt {T : Memory} {rs : List (UInt64 × Word)}
    (hread : ∀ addr, T.read addr = lastRecord rs addr) (a : Option UInt64) :
    (a.bind fun a => (T.read a).bind fun v => some (v.intoFelt : F)) =
      a.bind fun a => (lastRecord rs a).map Word.intoFelt := by
  simp only [hread]
  congr 1
  funext a
  cases lastRecord rs a <;> rfl

/-- **Operands read from a memory file.** Every stream `Memory::from_reader` accepts is a
list of records `(address, value)`, each address below `usize::MAX` and each value below the
modulus, and the table it returns has `1 + max address` cells. On that table
`mem[addr].unwrap()` is the word of the last record at `addr`, and a panic where no record
names `addr`. So `get_dst` and `get_op0` fetch, as field elements, the last records at the
addresses the instruction resolves. -/
theorem fromReader_lastWrite {q : ℕ} {bs : List UInt8} {T : Memory}
    (h : Memory.fromReader q bs = some T) :
    ∃ rs : List (UInt64 × Word),
      bs = rs.flatMap (fun r => encodeRecord q (r.1, r.2.val.toNat)) ∧
      (∀ r ∈ rs, r.1.toNat < 2 ^ 64 - 1 ∧ r.2.val.toNat < q) ∧
      T.cells.length = 1 + (rs.map fun r => r.1.toNat).foldr max 0 ∧
      (∀ addr : UInt64, T.read addr = lastRecord rs addr) ∧
      ∀ (w : Word) (ap fp : UInt64),
        (w.getDst ap fp T : Option F) = (w.getDstAddr ap fp).bind (fun a => (lastRecord rs a).map Word.intoFelt) ∧
        (w.getOp0 ap fp T : Option F) =
          (w.getOp0Addr ap fp).bind (fun a => (lastRecord rs a).map Word.intoFelt) := by
  obtain ⟨rs, hbs, hrs, hlen, hread⟩ := fromReader_eq_some h
  exact ⟨rs, hbs, hrs, hlen, hread, fun w ap fp =>
    ⟨read_bind_intoFelt hread _, read_bind_intoFelt hread _⟩⟩

/-- A one-record stream over the field of two elements: the word `1` at address `5`. -/
theorem fromReader_lastWrite_sample :
    let bs := [((5 : UInt64), 1)].flatMap (encodeRecord 2)
    let T : Memory := ⟨[none, none, none, none, none, some ⟨1⟩]⟩
    Memory.fromReader 2 bs = some T ∧
      ∃ rs : List (UInt64 × Word),
        bs = rs.flatMap (fun r => encodeRecord 2 (r.1, r.2.val.toNat)) ∧
        (∀ r ∈ rs, r.1.toNat < 2 ^ 64 - 1 ∧ r.2.val.toNat < 2) ∧
        T.cells.length = 1 + (rs.map fun r => r.1.toNat).foldr max 0 ∧
        (∀ addr : UInt64, T.read addr = lastRecord rs addr) ∧
        ∀ (w : Word) (ap fp : UInt64),
          (w.getDst ap fp T : Option (ZMod 2)) =
            (w.getDstAddr ap fp).bind (fun a => (lastRecord rs a).map Word.intoFelt) ∧
          (w.getOp0 ap fp T : Option (ZMod 2)) =
            (w.getOp0Addr ap fp).bind (fun a => (lastRecord rs a).map Word.intoFelt) := by
  have hT : Memory.fromReader 2 ([((5 : UInt64), 1)].flatMap (encodeRecord 2)) =
      some ⟨[none, none, none, none, none, some ⟨1⟩]⟩ := by
    rw [Memory.fromReader, readLoop_encode _ (by decide)]
    rfl
  exact ⟨hT, fromReader_lastWrite hT⟩

end Sandstorm
