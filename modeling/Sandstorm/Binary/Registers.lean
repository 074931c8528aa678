import Sandstorm.Binary.Reader

/-!
# Reading the register trace

`RegisterStates::from_reader` reads the trace file of `cairo-run`: one `RegisterState` per
step, the registers `ap`, `fp` and `pc` in that order, each an eight-byte little-endian
`usize` (bincode's fixed-width encoding of the struct), until the stream is exhausted. A
truncated record is a panic (`unwrap` of bincode's error).

* `readRegisterState_encode`, `readRegisterState_eq_some`: one record read back from its
  bytes, and every record read is the encoding of what it reads as.
* `registerStates_format`: the reader and the encoding are inverse bijections between the
  lists of register states and the streams whose length is a multiple of 24; on every other
  stream the reader panics.
-/

namespace Sandstorm

/-! ## Reading a `usize` -/

theorem readU64_leBytes (a : UInt64) (rest : List UInt8) :
    readU64 (leBytes 8 a.toNat ++ rest) = some (a, rest) := by
  have ha : a.toNat % 256 ^ 8 = a.toNat := Nat.mod_eq_of_lt a.toNat_lt_size
  simp only [readU64, readExact_append (length_leBytes 8 a.toNat), bind, Option.some_bind,
    ofLeBytes_leBytes, ha, uint64_ofNat_toNat]

/-- Every `usize` read is the encoding of its value. -/
theorem readU64_eq_some {bs rest : List UInt8} {a : UInt64} (h : readU64 bs = some (a, rest)) :
    bs = leBytes 8 a.toNat ++ rest := by
  simp only [readU64, bind, Option.bind_eq_some, Option.some.injEq, Prod.mk.injEq] at h
  obtain ⟨⟨b, r⟩, hb, rfl, rfl⟩ := h
  obtain ⟨hlen, rfl⟩ := readExact_eq_some hb
  have hlt : ofLeBytes b < 2 ^ 64 := by
    have := ofLeBytes_lt b
    rwa [hlen, show (256 : ℕ) ^ 8 = 2 ^ 64 by norm_num] at this
  rw [UInt64.toNat_ofNat_of_lt hlt, ← hlen, leBytes_ofLeBytes]

/-- A `usize` reads from any eight bytes. -/
theorem readU64_of_le {bs : List UInt8} (h : 8 ≤ bs.length) :
    readU64 bs = some (UInt64.ofNat (ofLeBytes (bs.take 8)), bs.drop 8) := by
  simp [readU64, readExact, h]

/-! ## `RegisterStates::from_reader` -/

/-- `RegisterState`: the registers of one step. -/
structure RegisterState where
  ap : UInt64
  fp : UInt64
  pc : UInt64
  deriving DecidableEq

/-- `bincode::deserialize_from` of a `RegisterState`: its fields in declaration order. -/
def readRegisterState (bs : List UInt8) : Option (RegisterState × List UInt8) := do
  let (ap, bs) ← readU64 bs
  let (fp, bs) ← readU64 bs
  let (pc, bs) ← readU64 bs
  some (⟨ap, fp, pc⟩, bs)

/-- The bytes of a `RegisterState`, as bincode writes it. -/
def encodeRegisterState (s : RegisterState) : List UInt8 :=
  leBytes 8 s.ap.toNat ++ leBytes 8 s.fp.toNat ++ leBytes 8 s.pc.toNat

@[simp] theorem length_encodeRegisterState (s : RegisterState) :
    (encodeRegisterState s).length = 24 := by
  simp [encodeRegisterState]

theorem readRegisterState_encode (s : RegisterState) (rest : List UInt8) :
    readRegisterState (encodeRegisterState s ++ rest) = some (s, rest) := by
  simp only [readRegisterState, encodeRegisterState, List.append_assoc, readU64_leBytes, bind,
    Option.some_bind]

/-- Every record read is the encoding of the state it reads as. -/
theorem readRegisterState_eq_some {bs rest : List UInt8} {s : RegisterState}
    (h : readRegisterState bs = some (s, rest)) : bs = encodeRegisterState s ++ rest := by
  simp only [readRegisterState, bind, Option.bind_eq_some, Option.some.injEq] at h
  obtain ⟨⟨ap, r₁⟩, h₁, ⟨fp, r₂⟩, h₂, ⟨pc, r₃⟩, h₃, rfl, rfl⟩ := h
  dsimp only at h₂ h₃ ⊢
  rw [readU64_eq_some h₁, readU64_eq_some h₂, readU64_eq_some h₃]
  simp [encodeRegisterState]

/-- A record reads exactly when its 24 bytes are there. -/
theorem readRegisterState_isSome {bs : List UInt8} :
    (readRegisterState bs).isSome ↔ 24 ≤ bs.length := by
  constructor
  · intro h
    obtain ⟨⟨s, rest⟩, hs⟩ := Option.isSome_iff_exists.mp h
    rw [readRegisterState_eq_some hs, List.length_append, length_encodeRegisterState]
    omega
  · intro h
    have h₁ : 8 ≤ bs.length := by omega
    have h₂ : 8 ≤ (bs.drop 8).length := by rw [List.length_drop]; omega
    have h₃ : 8 ≤ (bs.drop 16).length := by rw [List.length_drop]; omega
    simp [readRegisterState, readU64_of_le h₁, readU64_of_le h₂, readU64_of_le h₃]

/-- The `while reader.has_data_left()` loop, with the states pushed so far. -/
def registerLoop (registerStates : List RegisterState) (bs : List UInt8) :
    Option (List RegisterState) :=
  if bs = [] then some registerStates
  else match h : readRegisterState bs with
    | none => none
    | some (entry, rest) => registerLoop (registerStates ++ [entry]) rest
termination_by bs.length
decreasing_by
  have := congrArg List.length (readRegisterState_eq_some h)
  simp only [List.length_append, length_encodeRegisterState] at this
  omega

/-- `RegisterStates::from_reader`. -/
def RegisterStates.fromReader (bs : List UInt8) : Option (List RegisterState) :=
  registerLoop [] bs

/-! ## The read loop -/

/-- One iteration of the loop on a stream with data left: read a record, push it, go on. -/
theorem registerLoop_of_ne_nil {acc : List RegisterState} {bs : List UInt8} (hne : bs ≠ []) :
    registerLoop acc bs = (readRegisterState bs).bind fun r => registerLoop (acc ++ [r.1]) r.2 := by
  rw [registerLoop, if_neg hne]
  split <;> rename_i hr <;> rw [hr] <;> rfl

theorem registerLoop_nil (acc : List RegisterState) : registerLoop acc [] = some acc := by
  rw [registerLoop, if_pos rfl]

/-- The loop on the encoding of a list of states pushes them all, in order. -/
theorem registerLoop_encode (states acc : List RegisterState) :
    registerLoop acc (states.flatMap encodeRegisterState) = some (acc ++ states) := by
  induction states generalizing acc with
  | nil => rw [List.flatMap_nil, registerLoop_nil, List.append_nil]
  | cons s states ih =>
    have hne : encodeRegisterState s ++ states.flatMap encodeRegisterState ≠ [] := fun h => by
      simpa using congrArg List.length h
    rw [List.flatMap_cons, registerLoop_of_ne_nil hne, readRegisterState_encode, Option.some_bind,
      ih, List.append_assoc, List.singleton_append]

/-- Every stream the loop reads to the end is the encoding of the states it pushed. -/
theorem registerLoop_eq_some {acc res : List RegisterState} {bs : List UInt8}
    (h : registerLoop acc bs = some res) :
    ∃ states, res = acc ++ states ∧ states.flatMap encodeRegisterState = bs := by
  induction acc, bs using registerLoop.induct generalizing res with
  | case1 acc =>
    rw [registerLoop_nil, Option.some.injEq] at h
    exact ⟨[], by rw [h, List.append_nil], rfl⟩
  | case2 acc bs hne hr =>
    rw [registerLoop_of_ne_nil hne, hr, Option.none_bind] at h
    cases h
  | case3 acc bs hne entry rest hr ih =>
    rw [registerLoop_of_ne_nil hne, hr, Option.some_bind] at h
    obtain ⟨states, rfl, hst⟩ := ih h
    exact ⟨entry :: states, by rw [List.append_assoc, List.singleton_append],
      by rw [List.flatMap_cons, hst, readRegisterState_eq_some hr]⟩

/-- The loop panics exactly on a stream whose length is not a multiple of a record's. -/
theorem registerLoop_eq_none {acc : List RegisterState} {bs : List UInt8} :
    registerLoop acc bs = none ↔ bs.length % 24 ≠ 0 := by
  induction acc, bs using registerLoop.induct with
  | case1 acc => simp [registerLoop_nil]
  | case2 acc bs hne hr =>
    have hshort : bs.length < 24 := not_le.mp fun h => by
      simpa [hr] using readRegisterState_isSome.mpr h
    have hpos : bs.length ≠ 0 := fun h => hne (List.eq_nil_of_length_eq_zero h)
    rw [registerLoop_of_ne_nil hne, hr, Option.none_bind]
    exact iff_of_true rfl (by omega)
  | case3 acc bs hne entry rest hr ih =>
    rw [registerLoop_of_ne_nil hne, hr, Option.some_bind, ih, readRegisterState_eq_some hr,
      List.length_append, length_encodeRegisterState, Nat.add_mod_left]

/-- **The register-trace format.** `RegisterStates::from_reader` reads every list of register
states back from its bytes; every stream it reads is the encoding of the states it returns;
and it panics exactly on the streams whose length is not a multiple of 24. -/
theorem registerStates_format :
    (∀ states : List RegisterState,
      RegisterStates.fromReader (states.flatMap encodeRegisterState) = some states) ∧
    (∀ (bs : List UInt8) (states : List RegisterState),
      RegisterStates.fromReader bs = some states → states.flatMap encodeRegisterState = bs) ∧
    (∀ bs : List UInt8, RegisterStates.fromReader bs = none ↔ bs.length % 24 ≠ 0) := by
  refine ⟨fun states => registerLoop_encode states [], fun bs states h => ?_,
    fun bs => registerLoop_eq_none⟩
  obtain ⟨states', rfl, h'⟩ := registerLoop_eq_some h
  exact h'

end Sandstorm
