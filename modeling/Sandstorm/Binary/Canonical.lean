import Sandstorm.Binary.Bytes
import Mathlib.Data.ZMod.Basic

/-!
# Canonical serialization

The binary crate writes its public input with `ark_serialize`: `CanonicalSerialize`,
`CanonicalDeserialize` and `Valid`, each taking a `Compress` and a `Validate` mode. A
format here is the four operations of one type; the formats of the primitive types
(`bool`, the unsigned integers, a prime-field element, `Option<T>`, `Vec<T>`) are
`ark_serialize`'s, none of which depends on the compression mode.

* `Canonical.RoundTrips`: the read undoes the write on the values a format carries,
  before any rest of the stream, and the bytes written are the announced size.
* `uint_roundTrips`, `fp_roundTrips`, `option_roundTrips`, `vec_roundTrips`: the
  primitive formats round-trip, the field when its modulus's bit length is not a multiple
  of `8` (so that the flag bit `ark_serialize` checks is free) and a vector below `2^64`
  elements.
-/

namespace Sandstorm

/-- `ark_serialize::Compress`. -/
inductive Compress
  | yes | no
  deriving DecidableEq, Repr

/-- `ark_serialize::Validate`. -/
inductive Validate
  | yes | no
  deriving DecidableEq, Repr

/-- A read from a `Read` stream: the value and the rest of the stream, `none` on an error
or a panic. Binding two reads runs them one after the other on the stream. -/
def Reader (α : Type) : Type := List UInt8 → Option (α × List UInt8)

/-- The second read starts where the first stopped. -/
def Reader.bind {α β : Type} (x : Reader α) (f : α → Reader β) : Reader β :=
  fun s => (x s).bind fun p => f p.1 p.2

instance : Monad Reader where
  pure a s := some (a, s)
  bind := Reader.bind

/-- A read that fails (`Err(_)` or a panic). -/
def Reader.fail {α : Type} : Reader α := fun _ => none

section Reader

variable {α β : Type} (s : List UInt8)

@[simp] theorem reader_bind (x : Reader α) (f : α → Reader β) :
    (x >>= f) s = (x s).bind fun p => f p.1 p.2 := rfl

@[simp] theorem reader_pure (a : α) : (pure a : Reader α) s = some (a, s) := rfl

@[simp] theorem reader_map (f : α → β) (x : Reader α) :
    (f <$> x) s = (x s).map fun p => (f p.1, p.2) := by
  show ((x s).bind fun p => some (f p.1, p.2)) = _
  cases x s <;> rfl

@[simp] theorem reader_fail : (Reader.fail : Reader α) s = none := rfl

/-- A read that consumes exactly `b` hands the rest of the stream to what follows it. -/
theorem reader_bind_of {r : Reader α} {b : List UInt8} {a : α}
    (hr : ∀ rest, r (b ++ rest) = some (a, rest)) (f : α → Reader β) :
    (r >>= f) (b ++ s) = f a s := by
  simp [hr]

end Reader

/-- The canonical format of one type: `serialize_with_mode` (`none` on a panic or an
error), `serialized_size`, `deserialize_with_mode` reading a prefix of the stream, and
`Valid::check`. -/
structure Canonical (α : Type) where
  serializeWithMode : Compress → α → Option (List UInt8)
  serializedSize : Compress → α → ℕ
  deserializeWithMode : Compress → Validate → Reader α
  check : α → Bool

namespace Canonical

variable {α : Type}

/-- The format round-trips on the values `ok` admits: in every mode such a value is
written, to exactly `serialized_size` bytes, passes `check`, and is read back from those
bytes whatever follows them. -/
def RoundTrips (c : Canonical α) (ok : α → Prop) : Prop :=
  ∀ m v a, ok a → ∃ bs, c.serializeWithMode m a = some bs ∧ bs.length = c.serializedSize m a ∧
    c.check a = true ∧ ∀ rest, c.deserializeWithMode m v (bs ++ rest) = some (a, rest)

/-! ## Primitive formats -/

/-- An unsigned integer of `w` bytes, little-endian. -/
def uint (w : ℕ) (toNat : α → ℕ) (ofNat : ℕ → α) : Canonical α where
  serializeWithMode _ a := some (leBytes w (toNat a))
  serializedSize _ _ := w
  deserializeWithMode _ _ bs := do
    let (b, rest) ← readExact w bs
    some (ofNat (ofLeBytes b), rest)
  check _ := true

/-- `u16`. -/
def u16 : Canonical UInt16 := uint 2 UInt16.toNat UInt16.ofNat

/-- `u32`. -/
def u32 : Canonical UInt32 := uint 4 UInt32.toNat UInt32.ofNat

/-- `u64`, also the length prefix of a `Vec`. -/
def u64 : Canonical UInt64 := uint 8 UInt64.toNat UInt64.ofNat

/-- `bool`: one byte `0` or `1`; any other byte is `InvalidData`. -/
def bool : Canonical Bool where
  serializeWithMode _ b := some [if b then 1 else 0]
  serializedSize _ _ := 1
  deserializeWithMode _ _ bs := do
    let (b, rest) ← readExact 1 bs
    match ofLeBytes b with
    | 0 => some (false, rest)
    | 1 => some (true, rest)
    | _ => none
  check _ := true

/-- An element of the prime field `ZMod q`: the little-endian bytes of its canonical
integer, `field_bytes` of them. A read fails when the last byte has its top bit set
(`EmptyFlags::from_u8` finds a flag where the format has none), and then when the integer
is not below the modulus (`from_bigint`). -/
def fp (q : ℕ) : Canonical (ZMod q) where
  serializeWithMode _ a := some (leBytes (fieldBytes q) a.val)
  serializedSize _ _ := fieldBytes q
  deserializeWithMode _ _ bs := do
    let (b, rest) ← readExact (fieldBytes q) bs
    if b.getLastD 0 >>> 7 = 0 then
      let n := ofLeBytes b
      if n < q then some ((n : ZMod q), rest) else none
    else none
  check _ := true

/-- `Option<T>`: the `is_some` flag, then the value if there is one. -/
def option (c : Canonical α) : Canonical (Option α) where
  serializeWithMode m o := do
    let flag ← bool.serializeWithMode m o.isSome
    match o with
    | none => some flag
    | some a => do
      let item ← c.serializeWithMode m a
      some (flag ++ item)
  serializedSize m o := 1 + (o.map (c.serializedSize m)).getD 0
  deserializeWithMode m v := do
    let isSome ← bool.deserializeWithMode m v
    if isSome then some <$> c.deserializeWithMode m v else pure none
  check o := o.all c.check

/-- The `len` items of a `Vec`, each read with `Validate::No`. -/
def readItems (c : Canonical α) (m : Compress) : ℕ → Reader (List α)
  | 0 => pure []
  | n + 1 => do
    let a ← c.deserializeWithMode m .no
    let as ← readItems c m n
    pure (a :: as)

/-- `Vec<T>`: the length as a `u64`, then the items; a validating read checks the items
once they are all read (`batch_check`). -/
def vec (c : Canonical α) : Canonical (List α) where
  serializeWithMode m xs := do
    let len ← u64.serializeWithMode m (UInt64.ofNat xs.length)
    let items ← xs.mapM (c.serializeWithMode m)
    some (len ++ items.flatten)
  serializedSize m xs := 8 + (xs.map (c.serializedSize m)).sum
  deserializeWithMode m v := do
    let len ← u64.deserializeWithMode m v
    let values ← readItems c m len.toNat
    if v = .yes ∧ values.all c.check = false then Reader.fail else pure values
  check xs := xs.all c.check

/-! ## Round trips -/

theorem uint_roundTrips {w : ℕ} {toNat : α → ℕ} {ofNat : ℕ → α}
    (hlt : ∀ a, toNat a < 256 ^ w) (hof : ∀ a, ofNat (toNat a) = a) :
    (uint w toNat ofNat).RoundTrips fun _ => True := by
  intro m v a _
  refine ⟨_, rfl, length_leBytes _ _, rfl, fun rest => ?_⟩
  show (readExact w _).bind _ = _
  rw [readExact_append (length_leBytes _ _), Option.some_bind]
  simp [ofLeBytes_leBytes, Nat.mod_eq_of_lt (hlt a), hof]

theorem u16_roundTrips : u16.RoundTrips fun _ => True :=
  uint_roundTrips UInt16.toNat_lt_size fun a => UInt16.toNat.inj (UInt16.toNat_ofNat_of_lt a.toNat_lt_size)

theorem u32_roundTrips : u32.RoundTrips fun _ => True :=
  uint_roundTrips UInt32.toNat_lt_size fun a => UInt32.toNat.inj (UInt32.toNat_ofNat_of_lt a.toNat_lt_size)

theorem u64_roundTrips : u64.RoundTrips fun _ => True :=
  uint_roundTrips UInt64.toNat_lt_size fun a => UInt64.toNat.inj (UInt64.toNat_ofNat_of_lt a.toNat_lt_size)

theorem bool_deserializeWithMode (m : Compress) (v : Validate) (b : Bool) (rest : List UInt8) :
    bool.deserializeWithMode m v ((if b then 1 else 0) :: rest) = some (b, rest) := by
  cases b <;> simp [bool, readExact, ofLeBytes]

theorem bool_roundTrips : bool.RoundTrips fun _ => True :=
  fun m v b _ => ⟨_, rfl, rfl, rfl, bool_deserializeWithMode m v b⟩

theorem uint8_ofNat_shiftRight_seven {y : ℕ} (h : y < 128) : UInt8.ofNat y >>> 7 = 0 := by
  apply UInt8.toNat.inj
  show (UInt8.ofNat y).toNat >>> (7 % 8) = 0
  rw [UInt8.toNat_ofNat_of_lt (by unfold UInt8.size; omega), Nat.shiftRight_eq_div_pow]
  exact Nat.div_eq_of_lt h

/-- Below a modulus whose bit length is not a multiple of `8`, the last of the `field_bytes`
bytes of an integer has its top bit clear, so `EmptyFlags` finds no flag in it. -/
theorem getLastD_leBytes_fieldBytes {q n : ℕ} (hbits : (Nat.log2 q + 1) % 8 ≠ 0) (hn : n < q) :
    (leBytes (fieldBytes q) n).getLastD 0 >>> 7 = 0 := by
  obtain ⟨k, hk⟩ : ∃ k, fieldBytes q = k + 1 := ⟨Nat.log2 q / 8, by unfold fieldBytes; omega⟩
  have htop : n / 256 ^ k < 128 := by
    rw [Nat.div_lt_iff_lt_mul (by positivity)]
    calc n < q := hn
      _ < 2 ^ (Nat.log2 q + 1) := Nat.lt_log2_self
      _ ≤ 2 ^ (7 + 8 * k) := Nat.pow_le_pow_right (by norm_num) (by unfold fieldBytes at hk; omega)
      _ = 128 * 256 ^ k := by rw [pow_add, pow_mul]; norm_num
  rw [hk, getLastD_leBytes, Nat.mod_eq_of_lt (by omega)]
  exact uint8_ofNat_shiftRight_seven htop

theorem fp_roundTrips (q : ℕ) [NeZero q] (hbits : (Nat.log2 q + 1) % 8 ≠ 0) :
    (fp q).RoundTrips fun _ => True := by
  intro m v a _
  have hlt : a.val < q := ZMod.val_lt a
  refine ⟨_, rfl, length_leBytes _ _, rfl, fun rest => ?_⟩
  show (readExact _ _).bind _ = _
  rw [readExact_append (length_leBytes _ _), Option.some_bind]
  simp [-List.getLastD_eq_getLast?, getLastD_leBytes_fieldBytes hbits hlt, ofLeBytes_leBytes,
    Nat.mod_eq_of_lt (hlt.trans (lt_pow_fieldBytes q)), hlt]

theorem option_roundTrips {c : Canonical α} {ok : α → Prop} (h : c.RoundTrips ok) :
    (option c).RoundTrips fun o => ∀ a ∈ o, ok a := by
  intro m v o ho
  cases o with
  | none =>
    refine ⟨_, rfl, rfl, rfl, fun rest => ?_⟩
    have := bool_deserializeWithMode m v false rest
    simp_all [option]
  | some a =>
    obtain ⟨bs, hw, hs, hc, hr⟩ := h m v a (ho a rfl)
    refine ⟨[1] ++ bs, by simp [option, bool, hw], by simp [option, hs, add_comm], hc, fun rest => ?_⟩
    have := bool_deserializeWithMode m v true (bs ++ rest)
    simp_all [option]

theorem readItems_roundTrip {c : Canonical α} {ok : α → Prop} (h : c.RoundTrips ok) (m : Compress)
    (xs : List α) (hxs : ∀ a ∈ xs, ok a) :
    ∃ items, xs.mapM (c.serializeWithMode m) = some items ∧
      (items.map List.length).sum = (xs.map (c.serializedSize m)).sum ∧
      xs.all c.check = true ∧
      ∀ rest, readItems c m xs.length (items.flatten ++ rest) = some (xs, rest) := by
  induction xs with
  | nil => exact ⟨[], rfl, rfl, rfl, fun rest => rfl⟩
  | cons a xs ih =>
    obtain ⟨bs, hw, hs, hc, hr⟩ := h m .no a (hxs a (List.mem_cons_self a xs))
    obtain ⟨items, hw', hs', hc', hr'⟩ := ih fun b hb => hxs b (List.mem_cons_of_mem a hb)
    refine ⟨bs :: items, ?_, by simp [hs, hs'], by simp [hc, hc'], fun rest => ?_⟩
    · simp [-List.mapM, List.mapM_cons, hw, hw', pure]
    · simp [readItems, hr, hr']

theorem vec_roundTrips {c : Canonical α} {ok : α → Prop} (h : c.RoundTrips ok) :
    (vec c).RoundTrips fun xs => xs.length < 2 ^ 64 ∧ ∀ a ∈ xs, ok a := by
  intro m v xs ⟨hlen, hxs⟩
  obtain ⟨items, hw, hs, hc, hr⟩ := readItems_roundTrip h m xs hxs
  obtain ⟨lb, hlw, hls, -, hlr⟩ := u64_roundTrips m v (UInt64.ofNat xs.length) trivial
  refine ⟨lb ++ items.flatten, by simp [-List.mapM, vec, hlw, hw], ?_, hc, fun rest => ?_⟩
  · simp [vec, hls, u64, uint, List.length_flatten, hs]
  · have hl : (UInt64.ofNat xs.length).toNat = xs.length := UInt64.toNat_ofNat_of_lt hlen
    have hchecked : ¬∃ a ∈ xs, c.check a = false := by simpa using hc
    simp [vec, List.append_assoc, hlr, hl, hr, hchecked]

end Canonical

end Sandstorm
