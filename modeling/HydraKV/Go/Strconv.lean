import HydraKV.Go.Basic

/-! `strconv.ParseInt(s, 10, 64)` reads back what `strconv.FormatInt(i, 10)`
writes, for every `int64`. `FormatInt` writes the digits `Nat.toDigits` gives
for the magnitude, after a minus sign for a negative value; `ParseInt` takes
the sign off, reads the digits and checks the range. The digits come from
`Nat.toDigitsCore`, which puts them before what it is given, so they are
followed through its fuel argument.

Proved: `parseInt (formatInt i) = some i` for every `i : Int64`. -/

namespace HydraKV.Go

/-- The byte `FormatInt` writes for a digit. -/
theorem digitChar_byte : ∀ d < 10, ((Nat.digitChar d).toNat.toUInt8).toNat = 48 + d := by decide

/-- `toDigitsCore` with enough fuel puts the digits of `n` before what it was
given, most significant first, and their bytes read back as `n`. -/
theorem toDigitsCore_spec : ∀ (fuel n : Nat) (ds : List Char), n < fuel →
    ∃ l, Nat.toDigitsCore 10 fuel n ds = l ++ ds ∧ l ≠ [] ∧
      (∀ c ∈ l, ∃ d < 10, c = Nat.digitChar d) ∧
      (l.map fun c => c.toNat.toUInt8).foldl (fun n b => 10 * n + (b.toNat - 48)) 0 = n
  | 0, _, _, h => absurd h (Nat.not_lt_zero _)
  | fuel + 1, n, ds, h => by
    have hd : n % 10 < 10 := Nat.mod_lt _ (by decide)
    show ∃ l, (if n / 10 = 0 then _ else Nat.toDigitsCore 10 fuel (n / 10) _) = l ++ ds ∧ _
    split_ifs with hn
    · refine ⟨[Nat.digitChar (n % 10)], rfl, List.cons_ne_nil _ _, fun c hc => ⟨_, hd, List.mem_singleton.mp hc⟩, ?_⟩
      simp only [List.map_cons, List.map_nil, List.foldl_cons, List.foldl_nil, digitChar_byte _ hd]
      omega
    · obtain ⟨l, hl, hne, hdig, hval⟩ := toDigitsCore_spec fuel (n / 10) (Nat.digitChar (n % 10) :: ds) (by omega)
      refine ⟨l ++ [Nat.digitChar (n % 10)], by rw [hl, List.append_assoc]; rfl, by simp,
        fun c hc => (List.mem_append.mp hc).elim (hdig c) fun hc => ⟨_, hd, List.mem_singleton.mp hc⟩, ?_⟩
      rw [List.map_append, List.map_singleton, List.foldl_append, List.foldl_cons, List.foldl_nil, hval,
        digitChar_byte _ hd]
      omega

/-- `FormatInt`'s digits of `n`: a non-empty run of digit bytes that reads
back as `n`. -/
theorem decimal_spec (n : Nat) :
    decimal n ≠ [] ∧ (∀ b ∈ decimal n, 48 ≤ b.toNat ∧ b.toNat ≤ 57) ∧
      (decimal n).foldl (fun n b => 10 * n + (b.toNat - 48)) 0 = n := by
  obtain ⟨l, hl, hne, hdig, hval⟩ := toDigitsCore_spec (n + 1) n [] (Nat.lt_succ_self n)
  rw [List.append_nil] at hl
  have hdec : decimal n = l.map fun c => c.toNat.toUInt8 := by
    rw [decimal, show Nat.toDigits 10 n = Nat.toDigitsCore 10 (n + 1) n [] from rfl, hl]
  refine ⟨by simpa [hdec] using hne, fun b hb => ?_, hdec ▸ hval⟩
  rw [hdec] at hb
  obtain ⟨c, hc, rfl⟩ := List.mem_map.mp hb
  obtain ⟨d, hd, rfl⟩ := hdig c hc
  rw [digitChar_byte d hd]
  omega

theorem digitsValue_decimal (n : Nat) : digitsValue (decimal n) = some n := by
  obtain ⟨hne, hdig, hval⟩ := decimal_spec n
  have hall : (decimal n).all isDigit = true :=
    List.all_eq_true.mpr fun b hb => by simpa [isDigit] using hdig b hb
  rw [digitsValue, if_pos ⟨hne, hall⟩, hval]

theorem ofInt_toInt (i : Int64) : BitVec.ofInt 64 i.toInt = i := by
  apply BitVec.eq_of_toInt_eq
  rw [BitVec.toInt_ofInt, BitVec.toInt_eq_toNat_bmod, Int.bmod_bmod]

/-- Without a leading sign byte, `ParseInt` reads the digits as a
non-negative value. -/
theorem parseInt_unsigned {c : UInt8} {rest : Bytes} (h43 : c ≠ 43) (h45 : c ≠ 45) :
    parseInt (c :: rest) = (digitsValue (c :: rest)).bind fun un =>
      if un < 2 ^ 63 then some (BitVec.ofNat 64 un) else none := by
  unfold parseInt
  split
  rename_i heq
  split at heq
  · exact absurd (List.head_eq_of_cons_eq ‹_›) h43
  · exact absurd (List.head_eq_of_cons_eq ‹_›) h45
  · obtain ⟨rfl, rfl⟩ := Prod.mk.inj heq
    cases digitsValue (c :: rest) <;> rfl

/-- `ParseInt` reads back what `FormatInt` writes. -/
theorem parseInt_formatInt (i : Int64) : parseInt (formatInt i) = some i := by
  have hi' := BitVec.toInt_eq_toNat_cond i
  rw [show (2 : Nat) ^ 64 = 18446744073709551616 from rfl] at hi'
  have h63 : (2 : Nat) ^ 63 = 9223372036854775808 := rfl
  by_cases hi : i.toInt < 0
  · have hcond : i.toInt.natAbs ≤ 2 ^ 63 := by rw [h63]; split_ifs at hi' <;> omega
    rw [formatInt, if_pos hi]
    simp only [List.singleton_append, parseInt, digitsValue_decimal]
    rw [if_pos hcond, show -(i.toInt.natAbs : Int) = i.toInt by omega, ofInt_toInt, if_true]
  · have hpos : i.toInt.natAbs < 2 ^ 63 := by rw [h63]; split_ifs at hi' <;> omega
    obtain ⟨hne, hdig, -⟩ := decimal_spec i.toInt.natAbs
    obtain ⟨c, rest, hc⟩ := List.exists_cons_of_ne_nil hne
    have hc' := hdig c (hc ▸ List.mem_cons_self _ _)
    have h43 : c ≠ 43 := by rintro rfl; exact absurd hc'.1 (by decide)
    have h45 : c ≠ 45 := by rintro rfl; exact absurd hc'.1 (by decide)
    rw [formatInt, if_neg hi, List.nil_append, hc, parseInt_unsigned h43 h45, ← hc, digitsValue_decimal,
      Option.some_bind, if_pos hpos]
    congr
    apply BitVec.eq_of_toNat_eq
    simp only [BitVec.toNat_ofNat]
    omega

end HydraKV.Go
