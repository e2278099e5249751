import HydraKV.Store.Replay
import HydraKV.Config.Env

/-! The expiry-shard and basket-lock counts. `NewTTLManager` makes
`LowerPowerOfTwo(uint64(NumCPU * CPU_MULTIPLIER))` shards, and `NewHashMap`
makes as many basket locks, capped at `MaxInt32`. A hash's shard and basket
lock are its low bits below the count, its basket its low bits below the
basket count. With the multiplier `16` that `LoadENVs` always leaves, the
counts are usable for up to `2^58` CPUs, which covers every count
`runtime.NumCPU` returns (an `int32`). The lock count passes the basket count `2048` from 129 CPUs on; two
hashes of one basket then take different locks. -/

namespace HydraKV.Store

open Go Config

/-- The lock `WLockBasketLock`, `WUnlockBasketLock`, `RLockBasketLock` and
`RUnlockBasketLock` take for `index`: `index & uint64(basketLockNum-1)`. -/
def HashMap.basketLockIndex (hm : HashMap) (index : UInt64) : Nat := maskIndex index hm.basketLockNum

namespace TTLManager

/-! ### `LowerPowerOfTwo` -/

theorem bitLen_zero (n : Nat) : bitLen n 0 = 0 := by cases n <;> rfl

/-- `bits.Len64`: the bit length `b` of `x` has `x < 2^b`, and `2^b ≤ 2x`
when `x > 0`. -/
theorem bitLen_spec (n x : Nat) (hx : x < 2 ^ n) :
    x < 2 ^ bitLen n x ∧ (0 < x → 2 ^ bitLen n x ≤ 2 * x) := by
  induction n generalizing x with
  | zero =>
    obtain rfl : x = 0 := by simpa using hx
    exact ⟨by decide, fun h => absurd h (lt_irrefl 0)⟩
  | succ n ih =>
    rcases Nat.eq_zero_or_pos x with rfl | hpos
    · exact ⟨by rw [bitLen_zero]; decide, fun h => absurd h (lt_irrefl 0)⟩
    obtain ⟨h1, h2⟩ := ih (x / 2) (by rw [Nat.pow_succ] at hx; omega)
    rw [bitLen, if_neg hpos.ne', Nat.pow_succ]
    refine ⟨by omega, fun _ => ?_⟩
    rcases Nat.eq_zero_or_pos (x / 2) with h0 | h0
    · rw [h0, bitLen_zero]; omega
    · have := h2 h0; omega

/-- `LowerPowerOfTwo` of more than two shards, and at most `2^62`, is the least
power of two at least as large. -/
theorem lowerPowerOfTwo_spec {s : UInt64} (h2 : 2 < s.toNat) (h62 : s.toNat ≤ 2 ^ 62) :
    ∃ b, (lowerPowerOfTwo s).toNat = 2 ^ b ∧ s.toNat ≤ 2 ^ b ∧ 2 ^ b < 2 * s.toNat := by
  have hle : ¬ s ≤ 2 := fun h => by have : s.toNat ≤ 2 := h; omega
  have hs : (s - 1).toNat = s.toNat - 1 := UInt64.toNat_sub_of_le _ _ (by exact (by omega : 1 ≤ s.toNat))
  obtain ⟨hlt, hle2⟩ := bitLen_spec 64 (s - 1).toNat (UInt64.toNat_lt_size _)
  rw [hs] at hlt hle2
  have hb := hle2 (by omega)
  refine ⟨len64 (s - 1), ?_, by unfold len64; rw [hs]; omega, by unfold len64; rw [hs]; omega⟩
  rw [lowerPowerOfTwo, if_neg hle, UInt64.toNat_ofNat_of_lt]
  unfold len64; rw [hs]; change _ < 2 ^ 64; omega

/-- With the multiplier `16` and `1 ≤ NumCPU ≤ 2^58`, `LowerPowerOfTwo` of the
product is a power of two at least `16 * NumCPU` and below `2^63`. -/
theorem lowerPowerOfTwo_cpuProduct {numCPU : Int64} (h1 : 1 ≤ numCPU.toInt) (h2 : numCPU.toInt ≤ 2 ^ 58) :
    ∃ b, (lowerPowerOfTwo (cpuProduct numCPU 16)).toNat = 2 ^ b ∧ 16 * numCPU.toInt.toNat ≤ 2 ^ b ∧
      2 ^ b < 2 ^ 63 := by
  have hn : numCPU.toNat = numCPU.toInt.toNat := by
    rw [BitVec.toInt_eq_toNat_cond] at h1 h2 ⊢
    split_ifs at h1 h2 ⊢ <;> omega
  have hp : (cpuProduct numCPU 16).toNat = 16 * numCPU.toInt.toNat := by
    have hm : (numCPU * 16).toNat = 16 * numCPU.toInt.toNat := by
      rw [BitVec.toNat_mul, hn]; change _ * 16 % 2 ^ 64 = _; omega
    rw [cpuProduct, hm, UInt64.toNat_ofNat_of_lt (by change _ < 2 ^ 64; omega)]
  obtain ⟨b, hb, hlo, hhi⟩ := lowerPowerOfTwo_spec (s := cpuProduct numCPU 16) (by omega) (by omega)
  exact ⟨b, hb, hp ▸ hlo, by omega⟩

/-- A power of two below `2^63` is a usable shard count. -/
theorem wf_newTTLManager {numCPU multiplier now : Int64} {b : Nat}
    (hb : (lowerPowerOfTwo (cpuProduct numCPU multiplier)).toNat = 2 ^ b) (h63 : 2 ^ b < 2 ^ 63) :
    (newTTLManager numCPU multiplier now).WF := by
  have hpos : 0 < 2 ^ b := Nat.two_pow_pos b
  have hs : (newTTLManager numCPU multiplier now).numShards.toNat = 2 ^ b := by
    simp only [newTTLManager, hb, BitVec.toNat_ofNat]; omega
  have hl : (newTTLManager numCPU multiplier now).list.length =
      (newTTLManager numCPU multiplier now).numShards.toInt.toNat := List.length_replicate ..
  refine ⟨by omega, ?_⟩
  rw [hl, BitVec.toInt_eq_toNat_cond, hs, if_pos (by omega)]
  exact Int.toNat_ofNat _

end TTLManager

/-! ### The counts of a new table -/

section NewTable

variable (env : String → Option String) {m : Int64}

/-- For `1 ≤ NumCPU ≤ 2^58` and the multiplier `LoadENVs` leaves, a new table
has at least one expiry shard and one basket lock, and every hash's shard and
basket lock lie within them. -/
theorem counts_in_range (hmul : loadInt env "CPU_MULTIPLIER" defaultCpuMultiplier = .ok m)
    (xxhash : Bytes → UInt64) (numCPU now : Int64) (h1 : 1 ≤ numCPU.toInt) (h2 : numCPU.toInt ≤ 2 ^ 58) :
    let hm := newHashMap xxhash numCPU m now []
    hm.ttlManager.WF ∧ 1 ≤ hm.basketLockNum ∧
      ∀ h : UInt64, hm.ttlManager.shard h < hm.ttlManager.list.length ∧ hm.basketLockIndex h < hm.basketLockNum := by
  rw [loadInt_cpuMultiplier] at hmul
  obtain rfl : m = 16 := (Except.ok.inj hmul).symm
  obtain ⟨b, hb, -, h63⟩ := TTLManager.lowerPowerOfTwo_cpuProduct h1 h2
  have hw : (newTTLManager numCPU 16 now).WF := TTLManager.wf_newTTLManager hb h63
  have hlock : 1 ≤ (HashMap.init xxhash numCPU 16 now).basketLockNum ∧
      (HashMap.init xxhash numCPU 16 now).basketLockNum ≤ 2 ^ 64 := by
    simp only [HashMap.init]
    split_ifs
    · exact ⟨by decide, by decide⟩
    · rw [hb]; exact ⟨Nat.one_le_two_pow, by omega⟩
  rw [newHashMap_nil]
  exact ⟨hw, hlock.1, fun h => ⟨hw.shard_lt h, maskIndex_lt h hlock.1 hlock.2⟩⟩

/-- From 129 CPUs on, with the multiplier `LoadENVs` leaves, the hashes `0` and
`2048` share basket `0` of a new table but take different basket locks. -/
theorem basketLocks_split_basket (hmul : loadInt env "CPU_MULTIPLIER" defaultCpuMultiplier = .ok m)
    (xxhash : Bytes → UInt64) (numCPU now : Int64) (h1 : 128 < numCPU.toInt) (h2 : numCPU.toInt ≤ 2 ^ 58) :
    let hm := newHashMap xxhash numCPU m now []
    maskIndex 0 hm.basketNum = maskIndex 2048 hm.basketNum ∧ hm.basketLockIndex 0 ≠ hm.basketLockIndex 2048 := by
  rw [loadInt_cpuMultiplier] at hmul
  obtain rfl : m = 16 := (Except.ok.inj hmul).symm
  obtain ⟨b, hb, hlo, -⟩ := TTLManager.lowerPowerOfTwo_cpuProduct (by omega) h2
  rw [newHashMap_nil]
  refine ⟨(by decide : maskIndex 0 2048 = maskIndex 2048 2048), ?_⟩
  simp only [HashMap.basketLockIndex, maskIndex_zero, HashMap.init]
  split_ifs
  · decide
  · rw [hb, maskIndex_two_pow, Nat.mod_eq_of_lt (by change 2048 < 2 ^ b; omega)]
    decide

end NewTable

theorem counts_in_range_witness :
    let hm := newHashMap (fun _ => 0) 4 16 1000 []
    hm.ttlManager.WF ∧ 1 ≤ hm.basketLockNum ∧
      ∀ h : UInt64, hm.ttlManager.shard h < hm.ttlManager.list.length ∧ hm.basketLockIndex h < hm.basketLockNum :=
  counts_in_range (fun _ => none) rfl (fun _ => 0) 4 1000 (by decide) (by decide)

/-- 256 CPUs: 4096 basket locks over 2048 baskets. -/
theorem basketLocks_split_basket_witness :
    let hm := newHashMap (fun _ => 0) 256 16 1000 []
    maskIndex 0 hm.basketNum = maskIndex 2048 hm.basketNum ∧ hm.basketLockIndex 0 ≠ hm.basketLockIndex 2048 :=
  basketLocks_split_basket (fun _ => none) rfl (fun _ => 0) 256 1000 (by decide) (by decide)

end HydraKV.Store
