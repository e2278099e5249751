import Mathlib.Data.List.Basic
import Mathlib.Algebra.Group.Nat.Basic
import Mathlib.Algebra.Group.Int

/-! Go's value types as the store uses them. A Go `string` is an immutable byte
sequence (`Bytes`) and an `int64` is a two's-complement 64-bit word (`Int64`).
The two `strconv` calls of `HashMap.Incr` are `parseInt` and `formatInt`, and
the fixed-width big-endian integers that `binary.Write` writes and
`binary.Read` / `binary.BigEndian.Uint32` read are `beBytes` and `beValue`.
Proved: the big-endian codec reads back the value modulo its width, and the
bytes of a value read back are the bytes it was read from. -/

namespace HydraKV.Go

/-- A Go `string`: the bytes it holds. -/
abbrev Bytes := List UInt8

/-- A Go `int64`. -/
abbrev Int64 := BitVec 64

/-- The bytes of a Go string literal. -/
def ofString (s : String) : Bytes := s.toUTF8.data.toList

/-! ### `strconv` -/

/-- An ASCII decimal digit. -/
def isDigit (b : UInt8) : Bool := 48 ≤ b.toNat && b.toNat ≤ 57

/-- The value of a nonempty run of decimal digits; `none` on an empty run or a
byte that is not a digit. -/
def digitsValue (s : Bytes) : Option Nat :=
  if s ≠ [] ∧ s.all isDigit then some (s.foldl (fun n b => 10 * n + (b.toNat - 48)) 0) else none

/-- `strconv.ParseInt(s, 10, 64)`: an optional sign, then decimal digits. The
overflow checks of `ParseUint` and the sign-dependent cutoff of `ParseInt` fail
exactly when the value leaves `[-2^63, 2^63)`; every failure is an error. -/
def parseInt (s : Bytes) : Option Int64 :=
  let (neg, body) : Bool × Bytes :=
    match s with
    | 43 :: rest => (false, rest)
    | 45 :: rest => (true, rest)
    | _ => (false, s)
  match digitsValue body with
  | none => none
  | some un =>
    if neg then (if un ≤ 2 ^ 63 then some (BitVec.ofInt 64 (-un)) else none)
    else if un < 2 ^ 63 then some (BitVec.ofNat 64 un) else none

/-- The ASCII digits of a natural number, most significant first. -/
def decimal (n : Nat) : Bytes := (Nat.toDigits 10 n).map fun c => c.toNat.toUInt8

/-- `strconv.FormatInt(i, 10)`: a minus sign for a negative value, then the
decimal digits of its magnitude. -/
def formatInt (i : Int64) : Bytes :=
  (if i.toInt < 0 then [45] else []) ++ decimal i.toInt.natAbs

/-! ### Big-endian integers -/

/-- The `w` big-endian bytes of `n` modulo `256 ^ w`, as `binary.Write` lays
out a fixed-width unsigned integer. -/
def beBytes : Nat → Nat → Bytes
  | 0, _ => []
  | w + 1, n => beBytes w (n / 256) ++ [(n % 256).toUInt8]

/-- The number whose big-endian bytes these are. -/
def beValue (bs : Bytes) : Nat := bs.foldl (fun acc b => 256 * acc + b.toNat) 0

@[simp] theorem length_beBytes (w n : Nat) : (beBytes w n).length = w := by
  induction w generalizing n with
  | zero => rfl
  | succ w ih => simp [beBytes, ih]

theorem beValue_append_singleton (bs : Bytes) (b : UInt8) :
    beValue (bs ++ [b]) = 256 * beValue bs + b.toNat := by
  simp [beValue, List.foldl_append]

theorem beValue_beBytes (w n : Nat) : beValue (beBytes w n) = n % 256 ^ w := by
  induction w generalizing n with
  | zero => simp [beBytes, beValue, Nat.mod_one]
  | succ w ih =>
    have hb : ((n % 256).toUInt8).toNat = n % 256 :=
      UInt8.toNat_ofNat_of_lt (Nat.mod_lt _ (by decide))
    rw [beBytes, beValue_append_singleton, ih, hb, Nat.pow_succ, Nat.mul_comm _ 256, Nat.mod_mul]
    omega

theorem toUInt8_toNat (b : UInt8) : b.toNat.toUInt8 = b :=
  UInt8.toNat.inj (UInt8.toNat_ofNat_of_lt (UInt8.toNat_lt_size b))

theorem beValue_lt (bs : Bytes) : beValue bs < 256 ^ bs.length := by
  induction bs using List.reverseRecOn with
  | nil => simp [beValue]
  | append_singleton bs b ih =>
    rw [beValue_append_singleton, List.length_append, List.length_singleton, Nat.pow_succ]
    have : b.toNat < 256 := UInt8.toNat_lt_size b
    omega

theorem beBytes_beValue (bs : Bytes) : beBytes bs.length (beValue bs) = bs := by
  induction bs using List.reverseRecOn with
  | nil => rfl
  | append_singleton bs b ih =>
    have : b.toNat < 256 := UInt8.toNat_lt_size b
    have hdiv : (256 * beValue bs + b.toNat) / 256 = beValue bs := by omega
    have hmod : (256 * beValue bs + b.toNat) % 256 = b.toNat := by omega
    rw [List.length_append, List.length_singleton, beBytes, beValue_append_singleton, hdiv, hmod,
      toUInt8_toNat, ih]

/-! ### Masks -/

/-- `int(h & uint64(n-1))`: the slot of a hash in a power-of-two table of `n`
slots, as `getIndex`, the basket-lock helpers and the TTL shards compute it. -/
def maskIndex (h : UInt64) (n : Nat) : Nat := (h &&& UInt64.ofNat (n - 1)).toNat

theorem maskIndex_two_pow (h : UInt64) (m : Nat) : maskIndex h (2 ^ m) = h.toNat % 2 ^ m := by
  have hlt : h.toNat < 2 ^ 64 := UInt64.toNat_lt_size h
  rw [maskIndex, UInt64.and_toNat]
  change h.toNat &&& (2 ^ m - 1) % 2 ^ 64 = _
  rcases Nat.lt_or_ge m 64 with hm | hm
  · have : 2 ^ m ≤ 2 ^ 64 := Nat.pow_le_pow_right (by decide) hm.le
    rw [Nat.mod_eq_of_lt (by omega), Nat.and_pow_two_sub_one_eq_mod]
  · obtain ⟨c, rfl⟩ := Nat.exists_eq_add_of_le hm
    have hc : 1 ≤ 2 ^ c := Nat.one_le_two_pow
    have h1 : (2 ^ (64 + c) - 1) % 2 ^ 64 = 2 ^ 64 - 1 := by rw [Nat.pow_add]; omega
    rw [h1, Nat.and_pow_two_sub_one_eq_mod, Nat.mod_eq_of_lt hlt, Nat.mod_eq_of_lt]
    rw [Nat.pow_add]; omega

@[simp] theorem maskIndex_zero (n : Nat) : maskIndex 0 n = 0 := by
  rw [maskIndex, UInt64.and_toNat]; exact Nat.zero_and _

/-- A mask below a nonzero count that fits the word picks a slot below it. -/
theorem maskIndex_lt (h : UInt64) {n : Nat} (hn : 0 < n) (hw : n ≤ 2 ^ 64) : maskIndex h n < n := by
  rw [maskIndex, UInt64.and_toNat, UInt64.toNat_ofNat_of_lt (by change n - 1 < 2 ^ 64; omega)]
  exact Nat.lt_of_le_of_lt Nat.and_le_right (by omega)

/-- A mask below any nonzero count picks a slot below it: past `2^64` the
mask is the whole word. -/
theorem maskIndex_lt_of_pos (h : UInt64) {n : Nat} (hn : 0 < n) : maskIndex h n < n := by
  by_cases hw : n ≤ 2 ^ 64
  · exact maskIndex_lt h hn hw
  · exact Nat.lt_of_lt_of_le (UInt64.toNat_lt_size _) (by change 2 ^ 64 ≤ n; omega)

end HydraKV.Go
