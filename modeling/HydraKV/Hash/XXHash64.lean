import HydraKV.Go.Basic

/-! The cgo package `xxhash64`: XXH64 in C with a scalar body, an AVX2 body and
a NEON body, one of which `xxhash64_seed` runs as `xxhash64_init` selected.
A pointer into the input is the list of bytes from it to the end, so
`p <= limit` is `32 ≤ p.length` and `p += 32` is `p.drop 32`; `memcpy` reads
little-endian words, as on x86-64 and aarch64. The three bodies share their
frame (`xxhash64With`) and differ in the block loop: the scalar `do`/`while`
over one block a pass, the AVX2 loop over four blocks a pass and then one, each
lane an accumulator, and the NEON loop over two lane pairs. Proved: the AVX2
multiply `xxh_mul64_avx2` built from 32-bit products is the 64-bit wrapping
product lane by lane, each block loop makes `len / 32` passes of the same
round, and so the AVX2 and NEON bodies return the scalar one's value for every
input and seed, and `HashString` does not depend on the path. -/

namespace HydraKV.Hash

open Go

/-! ### Scalar helpers -/

def xxhPrime64_1 : UInt64 := 11400714785074694791
def xxhPrime64_2 : UInt64 := 14029467366897019727
def xxhPrime64_3 : UInt64 := 1609587929392839161
def xxhPrime64_4 : UInt64 := 9650029242287828579
def xxhPrime64_5 : UInt64 := 2870177450012600261

/-- `xxh_rotl64(v, r)`: `(v << r) | (v >> (64 - r))`. -/
def xxhRotl64 (v r : UInt64) : UInt64 := (v <<< r) ||| (v >>> (64 - r))

/-- `xxh_round`. -/
def xxhRound (acc input : UInt64) : UInt64 :=
  let acc := acc + input * xxhPrime64_2
  let acc := xxhRotl64 acc 31
  acc * xxhPrime64_1

/-- `xxh_merge_round`. -/
def xxhMergeRound (acc val : UInt64) : UInt64 :=
  let val := xxhRound 0 val
  let acc := acc ^^^ val
  acc * xxhPrime64_1 + xxhPrime64_4

/-- `xxh_read64`: the eight bytes at `p`, least significant first. -/
def xxhRead64 (p : Bytes) : UInt64 := UInt64.ofNat (beValue (p.take 8).reverse)

/-- `xxh_read32`: the four bytes at `p`, least significant first. -/
def xxhRead32 (p : Bytes) : UInt32 := UInt32.ofNat (beValue (p.take 4).reverse)

/-! ### `xxh_finalize` -/

/-- The loop `while ((p + 8) <= end)` of `xxh_finalize`. -/
def finalize8 (h : UInt64) : Bytes → UInt64 × Bytes
  | p@(_ :: _ :: _ :: _ :: _ :: _ :: _ :: _ :: rest) =>
    let k1 := xxhRead64 p * xxhPrime64_2
    let k1 := xxhRotl64 k1 31 * xxhPrime64_1
    finalize8 (xxhRotl64 (h ^^^ k1) 27 * xxhPrime64_1 + xxhPrime64_4) rest
  | p => (h, p)

/-- The step `if ((p + 4) <= end)` of `xxh_finalize`. -/
def finalize4 (h : UInt64) : Bytes → UInt64 × Bytes
  | p@(_ :: _ :: _ :: _ :: rest) =>
    let h := h ^^^ (xxhRead32 p).toUInt64 * xxhPrime64_1
    (xxhRotl64 h 23 * xxhPrime64_2 + xxhPrime64_3, rest)
  | p => (h, p)

/-- The loop `while (p < end)` of `xxh_finalize`, one byte a pass. -/
def finalize1 (h : UInt64) : Bytes → UInt64
  | [] => h
  | b :: rest => finalize1 (xxhRotl64 (h ^^^ b.toUInt64 * xxhPrime64_5) 11 * xxhPrime64_1) rest

/-- The last five lines of `xxh_finalize`. -/
def xxhAvalanche (h : UInt64) : UInt64 :=
  let h := h ^^^ (h >>> 33)
  let h := h * xxhPrime64_2
  let h := h ^^^ (h >>> 29)
  let h := h * xxhPrime64_3
  h ^^^ (h >>> 32)

/-- `xxh_finalize(h, p, end - p)`. -/
def xxhFinalize (h : UInt64) (p : Bytes) : UInt64 :=
  let (h, p) := finalize8 h p
  let (h, p) := finalize4 h p
  xxhAvalanche (finalize1 h p)

/-! ### The four accumulators -/

/-- The accumulators `v1 .. v4` of the branch `len >= 32`. -/
structure Acc where
  v1 : UInt64
  v2 : UInt64
  v3 : UInt64
  v4 : UInt64

namespace Acc

/-- Their values before the first block. -/
def init (seed : UInt64) : Acc :=
  ⟨seed + xxhPrime64_1 + xxhPrime64_2, seed + xxhPrime64_2, seed + 0, seed - xxhPrime64_1⟩

/-- The scalar body of the block loop over the 32 bytes at `p`. -/
def round (v : Acc) (p : Bytes) : Acc :=
  ⟨xxhRound v.v1 (xxhRead64 p), xxhRound v.v2 (xxhRead64 (p.drop 8)),
    xxhRound v.v3 (xxhRead64 (p.drop 16)), xxhRound v.v4 (xxhRead64 (p.drop 24))⟩

/-- The converge and the four merge rounds after the block loop. -/
def converge (v : Acc) : UInt64 :=
  let h := xxhRotl64 v.v1 1 + xxhRotl64 v.v2 7 + xxhRotl64 v.v3 12 + xxhRotl64 v.v4 18
  let h := xxhMergeRound h v.v1
  let h := xxhMergeRound h v.v2
  let h := xxhMergeRound h v.v3
  xxhMergeRound h v.v4

end Acc

/-- The frame the three bodies share, given the block loop of the branch
`len >= 32` from the seed and the input: the converge of the accumulators it
leaves (or `seed + PRIME64_5` for a shorter input), `h += len`, and
`xxh_finalize` over the bytes it leaves. -/
def xxhash64With (blocks : UInt64 → Bytes → Acc × Bytes) (input : Bytes) (seed : UInt64) : UInt64 :=
  let (h, p) :=
    if 32 ≤ input.length then ((blocks seed input).1.converge, (blocks seed input).2)
    else (seed + xxhPrime64_5, input)
  xxhFinalize (h + UInt64.ofNat input.length) p

/-! ### The scalar body -/

/-- The `do { ... } while (p <= limit)` of `xxhash64_scalar_seed`. -/
def scalarBlocks (v : Acc) (p : Bytes) : Acc × Bytes :=
  let v := v.round p
  let p' := p.drop 32
  if 32 ≤ p'.length then scalarBlocks v p' else (v, p')
termination_by p.length
decreasing_by simp only [p', List.length_drop] at *; omega

/-- `xxhash64_scalar_seed`. -/
def xxhash64ScalarSeed : Bytes → UInt64 → UInt64 :=
  xxhash64With fun seed input => scalarBlocks (Acc.init seed) input

/-! ### The AVX2 body -/

/-- A `__m256i` as four 64-bit lanes, lane 0 lowest. -/
structure M256 where
  lane0 : UInt64
  lane1 : UInt64
  lane2 : UInt64
  lane3 : UInt64

namespace M256

/-- A lane-wise operation. -/
def map2 (f : UInt64 → UInt64 → UInt64) (a b : M256) : M256 :=
  ⟨f a.lane0 b.lane0, f a.lane1 b.lane1, f a.lane2 b.lane2, f a.lane3 b.lane3⟩

/-- The four `_mm256_extract_epi64(v, i)`, as the accumulators `v1 .. v4`. -/
def toAcc (v : M256) : Acc := ⟨v.lane0, v.lane1, v.lane2, v.lane3⟩

end M256

/-- `_mm256_set1_epi64x`. -/
def mm256Set1Epi64x (x : UInt64) : M256 := ⟨x, x, x, x⟩

/-- `_mm256_set_epi64x(e3, e2, e1, e0)`: the last argument is lane 0. -/
def mm256SetEpi64x (e3 e2 e1 e0 : UInt64) : M256 := ⟨e0, e1, e2, e3⟩

/-- `_mm256_loadu_si256(p)`: the 32 bytes at `p`, lane `i` from `p + 8i`. -/
def mm256LoaduSi256 (p : Bytes) : M256 :=
  ⟨xxhRead64 p, xxhRead64 (p.drop 8), xxhRead64 (p.drop 16), xxhRead64 (p.drop 24)⟩

def mm256AndSi256 : M256 → M256 → M256 := M256.map2 (· &&& ·)
def mm256OrSi256 : M256 → M256 → M256 := M256.map2 (· ||| ·)
def mm256AddEpi64 : M256 → M256 → M256 := M256.map2 (· + ·)

/-- The mask `0xFFFFFFFFULL` of a 64-bit lane's low 32 bits. -/
def low32 : UInt64 := 0xFFFFFFFF

/-- `_mm256_mul_epu32`: the 64-bit product of each lane's low 32 bits. -/
def mm256MulEpu32 : M256 → M256 → M256 :=
  M256.map2 fun x y => (x &&& low32) * (y &&& low32)

/-- `_mm256_slli_epi64`: a count above 63 clears the lane. -/
def mm256SlliEpi64 (a : M256) (imm : UInt64) : M256 :=
  M256.map2 (fun x _ => if imm < 64 then x <<< imm else 0) a a

/-- `_mm256_srli_epi64`: a count above 63 clears the lane. -/
def mm256SrliEpi64 (a : M256) (imm : UInt64) : M256 :=
  M256.map2 (fun x _ => if imm < 64 then x >>> imm else 0) a a

/-- `xxh_mul64_avx2`: the low 64 bits of each lane's product from three
32-bit products. -/
def xxhMul64Avx2 (a b : M256) : M256 :=
  let aLo := mm256AndSi256 a (mm256Set1Epi64x low32)
  let aHi := mm256SrliEpi64 a 32
  let bLo := mm256AndSi256 b (mm256Set1Epi64x low32)
  let bHi := mm256SrliEpi64 b 32
  let loLo := mm256MulEpu32 aLo bLo
  let loHi := mm256MulEpu32 aLo bHi
  let hiLo := mm256MulEpu32 aHi bLo
  let middle := mm256AddEpi64 loHi hiLo
  let middle := mm256SlliEpi64 middle 32
  mm256AddEpi64 loLo middle

/-- `xxh_rotl64_avx2`. -/
def xxhRotl64Avx2 (v : M256) (r : UInt64) : M256 :=
  mm256OrSi256 (mm256SlliEpi64 v r) (mm256SrliEpi64 v (64 - r))

/-- `xxh_round_avx2`. -/
def xxhRoundAvx2 (acc input : M256) : M256 :=
  let acc := mm256AddEpi64 acc (xxhMul64Avx2 input (mm256Set1Epi64x xxhPrime64_2))
  let acc := xxhRotl64Avx2 acc 31
  xxhMul64Avx2 acc (mm256Set1Epi64x xxhPrime64_1)

/-- The loop `while (p + 128 <= end)` of `xxhash64_avx2_seed`, four blocks a pass. -/
def avx2Blocks128 (v : M256) (p : Bytes) : M256 × Bytes :=
  if 128 ≤ p.length then
    let b0 := mm256LoaduSi256 p
    let b1 := mm256LoaduSi256 (p.drop 32)
    let b2 := mm256LoaduSi256 (p.drop 64)
    let b3 := mm256LoaduSi256 (p.drop 96)
    avx2Blocks128 (xxhRoundAvx2 (xxhRoundAvx2 (xxhRoundAvx2 (xxhRoundAvx2 v b0) b1) b2) b3) (p.drop 128)
  else (v, p)
termination_by p.length
decreasing_by simp only [List.length_drop]; omega

/-- The loop `while (p <= limit)` of `xxhash64_avx2_seed`, one block a pass. -/
def avx2Blocks32 (v : M256) (p : Bytes) : M256 × Bytes :=
  if 32 ≤ p.length then avx2Blocks32 (xxhRoundAvx2 v (mm256LoaduSi256 p)) (p.drop 32) else (v, p)
termination_by p.length
decreasing_by simp only [List.length_drop]; omega

/-- `xxhash64_avx2_seed`. -/
def xxhash64Avx2Seed : Bytes → UInt64 → UInt64 :=
  xxhash64With fun seed input =>
    let v := mm256SetEpi64x (seed - xxhPrime64_1) (seed + 0) (seed + xxhPrime64_2)
      (seed + xxhPrime64_1 + xxhPrime64_2)
    let (v, p) := avx2Blocks128 v input
    let (v, p) := avx2Blocks32 v p
    (v.toAcc, p)

/-! ### The NEON body -/

/-- A `uint64x2_t`. -/
structure U64x2 where
  lane0 : UInt64
  lane1 : UInt64

/-- `xxh_roundq`: `xxh_round` on each lane, written out in the source. -/
def xxhRoundq (acc input : U64x2) : U64x2 :=
  let a0 := acc.lane0 + input.lane0 * xxhPrime64_2
  let a1 := acc.lane1 + input.lane1 * xxhPrime64_2
  ⟨xxhRotl64 a0 31 * xxhPrime64_1, xxhRotl64 a1 31 * xxhPrime64_1⟩

/-- The four `vgetq_lane_u64` reads after the loop, as the accumulators
`v1 .. v4`. -/
def U64x2.toAcc (v12 v34 : U64x2) : Acc := ⟨v12.lane0, v12.lane1, v34.lane0, v34.lane1⟩

/-- `xxh_load2x64`: the 16 bytes at `p`, lane `i` from `p + 8i`. -/
def xxhLoad2x64 (p : Bytes) : U64x2 := ⟨xxhRead64 p, xxhRead64 (p.drop 8)⟩

/-- The loop `for (; p <= limit; p += 32)` of `xxhash64_neon_seed`. -/
def neonBlocks (v12 v34 : U64x2) (p : Bytes) : U64x2 × U64x2 × Bytes :=
  if 32 ≤ p.length then
    neonBlocks (xxhRoundq v12 (xxhLoad2x64 p)) (xxhRoundq v34 (xxhLoad2x64 (p.drop 16))) (p.drop 32)
  else (v12, v34, p)
termination_by p.length
decreasing_by simp only [List.length_drop]; omega

/-- `xxhash64_neon_seed`. -/
def xxhash64NeonSeed : Bytes → UInt64 → UInt64 :=
  xxhash64With fun seed input =>
    let (v12, v34, p) := neonBlocks ⟨seed + xxhPrime64_1 + xxhPrime64_2, seed + xxhPrime64_2⟩
      ⟨seed + 0, seed - xxhPrime64_1⟩ input
    (U64x2.toAcc v12 v34, p)

/-! ### Dispatch and the Go wrapper -/

/-- The body `xxhash64_init` selects: AVX2 on an x86-64 CPU that has it, NEON
on aarch64, the scalar one otherwise. -/
inductive Path
  | scalar
  | avx2
  | neon
  deriving DecidableEq, Repr

/-- `xxhash64_seed`, for the non-null pointer Go passes. -/
def xxhash64Seed (path : Path) (input : Bytes) (seed : UInt64) : UInt64 :=
  if input.length = 0 then 0
  else match path with
    | .scalar => xxhash64ScalarSeed input seed
    | .avx2 => xxhash64Avx2Seed input seed
    | .neon => xxhash64NeonSeed input seed

/-- `XXHash64`: the seed `init` reads. -/
structure XXHash64 where
  seed : UInt64

/-- `(*XXHash64).HashString` on the selected path. -/
def XXHash64.hashString (xx : XXHash64) (path : Path) (s : Bytes) : UInt64 :=
  if s.length = 0 then 0 else xxhash64Seed path s xx.seed

/-! ### The AVX2 multiply -/

theorem toNat_and_low32 (x : UInt64) : (x &&& low32).toNat = x.toNat % 2 ^ 32 := by
  rw [UInt64.and_toNat, low32]; exact Nat.and_pow_two_sub_one_eq_mod _ 32

theorem toNat_shiftRight32 (x : UInt64) : (x >>> 32).toNat = x.toNat / 2 ^ 32 := by
  show (x.toBitVec >>> ((32 : UInt64).mod 64).toBitVec).toNat = _
  simp [BitVec.toNat_ushiftRight, Nat.shiftRight_eq_div_pow]
  rfl

theorem toNat_shiftLeft32 (x : UInt64) : (x <<< 32).toNat = x.toNat * 2 ^ 32 % 2 ^ 64 := by
  show (x.toBitVec <<< ((32 : UInt64).mod 64).toBitVec).toNat = _
  simp [BitVec.toNat_shiftLeft, Nat.shiftLeft_eq]
  rfl

/-- `uint64_t` addition wraps modulo `2^64`. -/
theorem toNat_wrapAdd (x y : UInt64) : (x + y).toNat = (x.toNat + y.toNat) % 2 ^ 64 := BitVec.toNat_add ..

/-- `uint64_t` multiplication wraps modulo `2^64`. -/
theorem toNat_wrapMul (x y : UInt64) : (x * y).toNat = x.toNat * y.toNat % 2 ^ 64 := BitVec.toNat_mul ..

/-- One lane of `xxh_mul64_avx2`: with `a = aHi 2^32 + aLo` and likewise `b`,
the product is `aLo bLo + (aLo bHi + aHi bLo) 2^32` modulo `2^64`, the term
`aHi bHi 2^64` vanishing. -/
theorem mul64_lane (a b : UInt64) :
    ((a &&& low32) &&& low32) * ((b &&& low32) &&& low32) +
      (((a &&& low32) &&& low32) * ((b >>> 32) &&& low32) +
        ((a >>> 32) &&& low32) * ((b &&& low32) &&& low32)) <<< 32 = a * b := by
  apply UInt64.toNat.inj
  have ha : a.toNat < 2 ^ 64 := UInt64.toNat_lt_size a
  have hb : b.toNat < 2 ^ 64 := UInt64.toNat_lt_size b
  simp only [toNat_wrapAdd, toNat_wrapMul, toNat_and_low32, toNat_shiftRight32, toNat_shiftLeft32, Nat.mod_mod]
  rw [Nat.mod_eq_of_lt (show b.toNat / 2 ^ 32 < 2 ^ 32 by omega),
    Nat.mod_eq_of_lt (show a.toNat / 2 ^ 32 < 2 ^ 32 by omega)]
  conv_rhs => rw [← Nat.mod_add_div a.toNat (2 ^ 32), ← Nat.mod_add_div b.toNat (2 ^ 32)]
  generalize a.toNat % 2 ^ 32 = al, a.toNat / 2 ^ 32 = ah, b.toNat % 2 ^ 32 = bl, b.toNat / 2 ^ 32 = bh
  have hexp : (al + 2 ^ 32 * ah) * (bl + 2 ^ 32 * bh) =
      al * bl + (al * bh + ah * bl) * 2 ^ 32 + 2 ^ 64 * (ah * bh) := by
    simp only [Nat.add_mul, Nat.mul_add, Nat.mul_assoc, Nat.mul_comm, Nat.mul_left_comm, Nat.reducePow,
      Nat.reduceMul]
    omega
  omega

/-- `xxh_mul64_avx2` is the wrapping 64-bit product in every lane. -/
theorem xxhMul64Avx2_eq (a b : M256) : xxhMul64Avx2 a b = M256.map2 (· * ·) a b := by
  simp only [xxhMul64Avx2, mm256AddEpi64, mm256SlliEpi64, mm256SrliEpi64, mm256MulEpu32, mm256AndSi256,
    mm256Set1Epi64x, M256.map2, if_pos (show (32 : UInt64) < 64 by decide), mul64_lane]

/-- A round of `xxh_round_avx2` on the block at `p` is the scalar body on
each lane. -/
theorem xxhRoundAvx2_toAcc (v : M256) (p : Bytes) :
    (xxhRoundAvx2 v (mm256LoaduSi256 p)).toAcc = v.toAcc.round p := by
  simp only [xxhRoundAvx2, xxhMul64Avx2_eq, xxhRotl64Avx2, mm256AddEpi64, mm256OrSi256, mm256SlliEpi64,
    mm256SrliEpi64, mm256Set1Epi64x, mm256LoaduSi256, M256.map2, M256.toAcc, Acc.round, xxhRound, xxhRotl64,
    if_pos (show (31 : UInt64) < 64 by decide), if_pos (show (64 - 31 : UInt64) < 64 by decide)]

/-! ### Passes of the block body -/

/-- `k` passes of the scalar block body from `p`: what every block loop does. -/
def rounds : Nat → Acc → Bytes → Acc × Bytes
  | 0, v, p => (v, p)
  | k + 1, v, p => rounds k (v.round p) (p.drop 32)

theorem rounds_snd (k : Nat) (v : Acc) (p : Bytes) : (rounds k v p).2 = p.drop (32 * k) := by
  induction k generalizing v p with
  | zero => rfl
  | succ k ih => rw [rounds, ih, List.drop_drop]; congr 1; omega

theorem rounds_add (a b : Nat) (v : Acc) (p : Bytes) :
    rounds (a + b) v p = rounds b (rounds a v p).1 (rounds a v p).2 := by
  induction a generalizing v p with
  | zero => rw [Nat.zero_add]; rfl
  | succ a ih => rw [Nat.succ_add, rounds, rounds, ih]

/-- With a block left, the passes are one pass and then those over the rest. -/
theorem rounds_div_of_le {p : Bytes} (v : Acc) (h : 32 ≤ p.length) :
    rounds (p.length / 32) v p = rounds ((p.drop 32).length / 32) (v.round p) (p.drop 32) := by
  obtain ⟨k, hk⟩ : ∃ k, p.length / 32 = k + 1 := ⟨p.length / 32 - 1, by omega⟩
  rw [hk, rounds, List.length_drop, show (p.length - 32) / 32 = k by omega]

theorem rounds_div_of_lt {p : Bytes} (v : Acc) (h : p.length < 32) : rounds (p.length / 32) v p = (v, p) := by
  rw [Nat.div_eq_of_lt h]; rfl

/-- The scalar `do`/`while` makes `len / 32` passes. -/
theorem scalarBlocks_eq {p : Bytes} (v : Acc) (hp : 32 ≤ p.length) :
    scalarBlocks v p = rounds (p.length / 32) v p := by
  induction v, p using scalarBlocks.induct with
  | case1 v p v' p' h ih => rw [scalarBlocks, if_pos h, ih h, rounds_div_of_le _ hp]
  | case2 v p p' h => rw [scalarBlocks, if_neg h, rounds_div_of_le _ hp, rounds_div_of_lt _ (Nat.lt_of_not_le h)]

/-- The AVX2 one-block loop makes `len / 32` passes, lane by lane. -/
theorem avx2Blocks32_eq (v : M256) (p : Bytes) :
    Prod.map M256.toAcc id (avx2Blocks32 v p) = rounds (p.length / 32) v.toAcc p := by
  induction v, p using avx2Blocks32.induct with
  | case1 v p h ih => rw [avx2Blocks32, if_pos h, ih, xxhRoundAvx2_toAcc, rounds_div_of_le _ h]
  | case2 v p h => rw [avx2Blocks32, if_neg h, rounds_div_of_lt _ (by omega)]; rfl

/-- The AVX2 four-block loop makes four passes for each 128 bytes. -/
theorem avx2Blocks128_eq (v : M256) (p : Bytes) :
    Prod.map M256.toAcc id (avx2Blocks128 v p) = rounds (4 * (p.length / 128)) v.toAcc p := by
  induction v, p using avx2Blocks128.induct with
  | case1 v p h b0 b1 b2 b3 ih =>
    rw [avx2Blocks128, if_pos h, ih]
    obtain ⟨k, hk⟩ : ∃ k, p.length / 128 = k + 1 := ⟨p.length / 128 - 1, by omega⟩
    rw [hk, List.length_drop, show (p.length - 128) / 128 = k by omega, show 4 * (k + 1) = 4 + 4 * k by omega,
      rounds_add]
    simp only [rounds, xxhRoundAvx2_toAcc, b0, b1, b2, b3, List.drop_drop, Nat.reduceAdd]
  | case2 v p h =>
    rw [avx2Blocks128, if_neg h, Nat.div_eq_of_lt (by omega)]
    rfl

/-- A pass of the NEON loop is the scalar body on the two lane pairs. -/
theorem xxhRoundq_toAcc (v12 v34 : U64x2) (p : Bytes) :
    U64x2.toAcc (xxhRoundq v12 (xxhLoad2x64 p)) (xxhRoundq v34 (xxhLoad2x64 (p.drop 16))) =
      (U64x2.toAcc v12 v34).round p := by
  simp only [U64x2.toAcc, xxhRoundq, xxhLoad2x64, Acc.round, xxhRound, List.drop_drop, Nat.reduceAdd]

/-- The NEON loop makes `len / 32` passes. -/
theorem neonBlocks_eq (v12 v34 : U64x2) (p : Bytes) :
    (U64x2.toAcc (neonBlocks v12 v34 p).1 (neonBlocks v12 v34 p).2.1, (neonBlocks v12 v34 p).2.2) =
      rounds (p.length / 32) (U64x2.toAcc v12 v34) p := by
  induction v12, v34, p using neonBlocks.induct with
  | case1 v12 v34 p h ih => rw [neonBlocks, if_pos h, ih, xxhRoundq_toAcc, rounds_div_of_le _ h]
  | case2 v12 v34 p h => rw [neonBlocks, if_neg h, rounds_div_of_lt _ (by omega)]

/-- The two AVX2 loops together make `len / 32` passes. -/
theorem avx2Blocks_eq (v : M256) (p : Bytes) :
    Prod.map M256.toAcc id (avx2Blocks32 (avx2Blocks128 v p).1 (avx2Blocks128 v p).2) =
      rounds (p.length / 32) v.toAcc p := by
  have h128 := Prod.ext_iff.1 (avx2Blocks128_eq v p)
  simp only [Prod.map_fst, Prod.map_snd, id] at h128
  rw [avx2Blocks32_eq, h128.1, h128.2, ← rounds_add, rounds_snd, List.length_drop]
  congr 1
  omega

/-! ### The three bodies agree -/

/-- Two block loops that agree on every input of at least 32 bytes give the
same hash function. -/
theorem xxhash64With_congr {blocks blocks' : UInt64 → Bytes → Acc × Bytes}
    (h : ∀ seed input, 32 ≤ input.length → blocks seed input = blocks' seed input) :
    xxhash64With blocks = xxhash64With blocks' := by
  funext input seed
  unfold xxhash64With
  split_ifs with hl
  · rw [h seed input hl]
  · rfl

theorem xxhash64Avx2Seed_eq_scalar : xxhash64Avx2Seed = xxhash64ScalarSeed := by
  refine xxhash64With_congr fun seed input hl => ?_
  dsimp only
  rw [scalarBlocks_eq _ hl]
  exact avx2Blocks_eq _ input

theorem xxhash64NeonSeed_eq_scalar : xxhash64NeonSeed = xxhash64ScalarSeed := by
  refine xxhash64With_congr fun seed input hl => ?_
  dsimp only
  rw [scalarBlocks_eq _ hl]
  exact neonBlocks_eq _ _ input

/-- `xxhash64_seed` computes one function whichever body it runs. -/
theorem xxhash64Seed_path (path : Path) : xxhash64Seed path = xxhash64Seed .scalar := by
  funext input seed
  cases path <;> simp only [xxhash64Seed, xxhash64Avx2Seed_eq_scalar, xxhash64NeonSeed_eq_scalar]

/-- For every input and seed the AVX2 and the NEON bodies return the scalar
body's hash, and so `HashString` gives a key one hash whichever body
`xxhash64_init` selected. -/
theorem xxhash64_simd_eq_scalar (input : Bytes) (seed : UInt64) :
    xxhash64Avx2Seed input seed = xxhash64ScalarSeed input seed ∧
      xxhash64NeonSeed input seed = xxhash64ScalarSeed input seed ∧
      ∀ (xx : XXHash64) (path : Path), xx.hashString path input = xx.hashString .scalar input := by
  refine ⟨by rw [xxhash64Avx2Seed_eq_scalar], by rw [xxhash64NeonSeed_eq_scalar], fun xx path => ?_⟩
  rw [XXHash64.hashString, XXHash64.hashString, xxhash64Seed_path]

/-- The reference value of XXH64 for "abc" with seed 0. -/
example : xxhash64ScalarSeed [97, 98, 99] 0 = 0x44BC2CF5AD770999 := by decide

end HydraKV.Hash
