import Sandstorm.Ecdsa.Curve

/-!
# The base field `Fp`

The ECDSA builtin computes over `Fp`, the prime field of `ministark_gpu` whose modulus is
`3618502788666131213697322783095070105623107215331596699973092056135872020481`, that is
`2^251 + 17·2^192 + 1`. The model of the builtin is generic in the modulus; this module
fixes it to the builtin's own, so that statements about the builtin can name `2^251` as the
source does.

* `prime_of_lucas`: Lucas's test, with the powers computed by square-and-multiply
  (`powMod`), which the kernel evaluates in a few hundred steps.
* `fpModulus_prime`: the modulus is prime, by Lucas's test with the witness `3` and the
  factorisation `2^192·5·7·98714381·166848103` of `p - 1`.
* `modulusBitSize_fpModulus`: `Fp::MODULUS_BIT_SIZE = 252`.
-/

namespace Sandstorm

/-- The modulus of `Fp`. -/
def fpModulus : ℕ := 3618502788666131213697322783095070105623107215331596699973092056135872020481

/-! ## Square-and-multiply -/

/-- `a ^ e % m` by square-and-multiply over the low `k` bits of `e`, least significant bit
first. -/
def powMod (m : ℕ) : ℕ → ℕ → ℕ → ℕ
  | 0, _, _ => 1 % m
  | k + 1, a, e => (if e % 2 = 1 then a else 1) * powMod m k (a * a % m) (e / 2) % m

theorem powMod_eq (m : ℕ) : ∀ (k a e : ℕ), e < 2 ^ k → powMod m k a e = a ^ e % m
  | 0, a, e, he => by
    obtain rfl : e = 0 := by simpa using he
    rfl
  | k + 1, a, e, he => by
    have ih := powMod_eq m k (a * a % m) (e / 2) (by rw [pow_succ] at he; omega)
    rw [powMod, ih, ← Nat.pow_mod, ← sq, ← pow_mul, Nat.mul_mod_mod]
    -- the low bit of `e` and the rest: `e = 2 (e / 2) + e % 2`
    conv_rhs => rw [← Nat.div_add_mod e 2, pow_add]
    rcases Nat.mod_two_eq_zero_or_one e with h | h <;> simp [h, mul_comm]

/-- `a ^ e = 1` in `ZMod p` is a check of `powMod` for an exponent of at most `k` bits. -/
theorem natCast_pow_eq_one_iff {p : ℕ} (hp : 1 < p) (a : ℕ) {k e : ℕ} (he : e < 2 ^ k) :
    (a : ZMod p) ^ e = 1 ↔ powMod p k a e = 1 := by
  rw [← Nat.cast_pow, ← Nat.cast_one, ZMod.natCast_eq_natCast_iff', Nat.one_mod_eq_one.mpr hp.ne',
    powMod_eq p k a e he]

/-- **Lucas's test, computed.** `p` is prime if `a^(p-1) ≡ 1 (mod p)` and `a^((p-1)/q) ≢ 1`
for every prime `q` of a factorisation `∏ q^e` of `p - 1`, the powers evaluated by `powMod`
over `k` bits. -/
theorem prime_of_lucas {p : ℕ} (a k : ℕ) (fs : List (ℕ × ℕ)) (hp : 1 < p) (hk : p - 1 < 2 ^ k)
    (hprod : (fs.map fun f => f.1 ^ f.2).prod = p - 1) (hfs : fs.Forall fun f => f.1.Prime)
    (hfull : powMod p k a (p - 1) = 1) (hpart : ∀ f ∈ fs, powMod p k a ((p - 1) / f.1) ≠ 1) :
    p.Prime := by
  refine lucas_primality p a ((natCast_pow_eq_one_iff hp a hk).mpr hfull) fun q hq hdvd => ?_
  -- a prime factor of `p - 1` is one of the listed primes
  rw [← hprod] at hdvd
  obtain ⟨_, hx, hqx⟩ := (Prime.dvd_prod_iff hq.prime).mp hdvd
  obtain ⟨f, hf, rfl⟩ := List.mem_map.mp hx
  obtain rfl := (Nat.prime_dvd_prime_iff_eq hq (List.forall_iff_forall_mem.mp hfs f hf)).mp (hq.dvd_of_dvd_pow hqx)
  exact (natCast_pow_eq_one_iff hp a ((Nat.div_le_self _ _).trans_lt hk)).not.mpr (hpart f hf)

/-! ## `Fp`

The factors `98714381` and `166848103` of `p - 1` are certified by Lucas's test in turn, down
to primes below `10^6`, which `norm_num` proves by trial division. -/

theorem prime_1233929 : Nat.Prime 1233929 :=
  prime_of_lucas 6 21 [(2, 3), (17, 1), (43, 1), (211, 1)] (by norm_num) (by norm_num) (by decide)
    (by norm_num) (by decide) (by decide)

theorem prime_2467859 : Nat.Prime 2467859 :=
  prime_of_lucas 2 22 [(2, 1), (1233929, 1)] (by norm_num) (by norm_num) (by decide)
    ⟨Nat.prime_two, prime_1233929⟩
    (by decide) (by decide)

theorem prime_4935719 : Nat.Prime 4935719 :=
  prime_of_lucas 17 23 [(2, 1), (2467859, 1)] (by norm_num) (by norm_num) (by decide)
    ⟨Nat.prime_two, prime_2467859⟩
    (by decide) (by decide)

theorem prime_98714381 : Nat.Prime 98714381 :=
  prime_of_lucas 2 27 [(2, 2), (5, 1), (4935719, 1)] (by norm_num) (by norm_num) (by decide)
    ⟨Nat.prime_two, Nat.prime_five, prime_4935719⟩
    (by decide) (by decide)

theorem prime_9269339 : Nat.Prime 9269339 :=
  prime_of_lucas 6 24 [(2, 1), (13, 1), (43, 1), (8291, 1)] (by norm_num) (by norm_num) (by decide)
    (by norm_num) (by decide) (by decide)

theorem prime_166848103 : Nat.Prime 166848103 :=
  prime_of_lucas 6 28 [(2, 1), (3, 2), (9269339, 1)] (by norm_num) (by norm_num) (by decide)
    ⟨Nat.prime_two, Nat.prime_three, prime_9269339⟩
    (by decide) (by decide)

set_option maxRecDepth 4000 in
/-- **The modulus of `Fp` is prime**, with the witness `3` and
`p - 1 = 2^192 · 5 · 7 · 98714381 · 166848103`. -/
theorem fpModulus_prime : fpModulus.Prime :=
  prime_of_lucas 3 252 [(2, 192), (5, 1), (7, 1), (98714381, 1), (166848103, 1)] (by decide)
    (by decide) (by decide)
    ⟨Nat.prime_two, Nat.prime_five, by norm_num, prime_98714381, prime_166848103⟩
    (by decide) (by decide)

instance fact_prime_fpModulus : Fact fpModulus.Prime := ⟨fpModulus_prime⟩

/-- `Fp::MODULUS_BIT_SIZE`. -/
theorem modulusBitSize_fpModulus : modulusBitSize fpModulus = 252 :=
  le_antisymm ((bits_le_iff _ _).mpr (by decide)) ((lt_bits_iff _ _).mpr (by decide))

end Sandstorm
