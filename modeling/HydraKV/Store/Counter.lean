import HydraKV.Go.Strconv
import HydraKV.Store.Restart

/-! A key as a counter. `Incr` reads the stored value and the amount with
`checkIsNumber` (`strconv.ParseInt`), stores `strconv.FormatInt(val+add, 10)`
and takes the new ttl. Since `ParseInt` reads back what `FormatInt` writes,
the next `Incr` reads the sum, so the increments of a run add up with Go's
wrapping `int64` sum, whatever operations on other keys come between.

Proved: from a key whose value parses, a run of operations that touch the key
only through `Incr`s by amounts that parse answers `true` to each of them and
leaves a value that parses as the start plus every amount, with the ttl of the
last `Incr`. -/

namespace HydraKV.Store

open Go AOF

namespace Op

/-- The counter at `k`, its number and its ttl, after an operation: an `Incr`
of `k` adds its amount and takes its ttl, and every other operation leaves it
as it is. -/
def tally (k : Bytes) : Op → Int64 × Int64 → Int64 × Int64
  | .incr ttl key amount, (c, t) => if key = k then (c + (parseInt amount).getD 0, ttl) else (c, t)
  | _, p => p

/-- An operation that sends no record for `k` leaves the counter at `k`. -/
theorem tally_of_ne {k : Bytes} {op : Op} (hne : ∀ d ∈ op.record, d.key ≠ k) (p : Int64 × Int64) :
    op.tally k p = p := by
  cases op with
  | incr ttl key amount => exact if_neg fun h => hne _ rfl h
  | _ => rfl

end Op

namespace HashMap

/-- The table holds at `k` a value that `ParseInt` reads as `p.1`, with ttl
`p.2`. -/
def Counts (k : Bytes) (p : Int64 × Int64) (hm : HashMap) : Prop :=
  hm.Inv ∧ ∃ w, hm.lookup k = some (w, p.2) ∧ parseInt w = some p.1

variable {hm : HashMap} {k : Bytes} {p : Int64 × Int64}

/-- An operation that sends no record for `k` keeps its binding. -/
theorem Inv.lookup_step_of_ne (h : hm.Inv) (now : Int64) {op : Op} (hne : ∀ d ∈ op.record, d.key ≠ k) :
    (hm.step now op).2.lookup k = hm.lookup k := by
  cases op with
  | set ttl key value => rw [HashMap.step, (h.set_spec now ttl key value).2.2, if_neg (hne _ rfl).symm]
  | del key => rw [HashMap.step, (h.del_spec key).2.2, if_neg (hne _ rfl).symm]
  | incr ttl key amount =>
    have hs := (h.incr_spec now ttl key amount).2
    simp only [HashMap.step]
    split at hs
    · split at hs
      · rw [hs.2, if_neg (hne _ rfl).symm]
      · exact hs.2 k
    · rw [hs.2, if_neg (hne _ rfl).symm]
  | checkResize => exact h.checkResize_spec.2 k
  | get | getAllEntriesAndCompress => rfl

/-- An `Incr` of `k` by an amount that parses, or an operation that sends no
record for `k`, moves the counter as `tally` does; the `Incr` answers `true`. -/
theorem Counts.step (hc : hm.Counts k p) (now : Int64) {op : Op}
    (hop : (∃ ttl amount, op = .incr ttl k amount ∧ parseInt amount ≠ none) ∨ ∀ d ∈ op.record, d.key ≠ k) :
    (hm.step now op).2.Counts k (op.tally k p) ∧
      ∀ ttl amount, op = .incr ttl k amount → (hm.step now op).1 = .ok true := by
  obtain ⟨c, t⟩ := p
  obtain ⟨h, w, hk, hw⟩ := hc
  rcases hop with ⟨ttl, amount, rfl, ha⟩ | hne
  · obtain ⟨y, hy⟩ := Option.ne_none_iff_exists'.mp ha
    have hs := (h.incr_spec now ttl k amount).2
    simp only [hk, checkIsNumber, hw, hy] at hs
    have ht : (Op.incr ttl k amount).tally k (c, t) = (c + y, ttl) := by
      simp only [Op.tally, if_true, hy, Option.getD_some]
    rw [ht]
    refine ⟨⟨h.step now _, formatInt (c + y), ?_, parseInt_formatInt _⟩, fun _ _ _ => by rw [HashMap.step, hs.1]⟩
    rw [HashMap.step, hs.2, if_pos rfl]
  · refine ⟨⟨h.step now op, w, ?_, ?_⟩, fun ttl amount hop => ?_⟩
    · rw [h.lookup_step_of_ne now hne, Op.tally_of_ne hne, hk]
    · rw [Op.tally_of_ne hne, hw]
    · subst hop; exact absurd rfl (hne _ rfl)

/-- A run of such operations moves the counter as the fold of `tally` does,
and each `Incr` of `k` in it answers `true`. -/
theorem Counts.run (hc : hm.Counts k p) (ops : List (Int64 × Op))
    (hops : ∀ o ∈ ops, (∃ ttl amount, o.2 = .incr ttl k amount ∧ parseInt amount ≠ none) ∨
      ∀ d ∈ o.2.record, d.key ≠ k) :
    (hm.run ops).2.Counts k (ops.foldl (fun p o => o.2.tally k p) p) ∧
      List.Forall₂ (fun o r => ∀ ttl amount, o.2 = .incr ttl k amount → r = .ok true) ops (hm.run ops).1 := by
  induction ops generalizing hm p with
  | nil => exact ⟨hc, .nil⟩
  | cons o ops ih =>
    obtain ⟨h1, h2⟩ := hc.step o.1 (hops o (List.mem_cons_self _ _))
    obtain ⟨h3, h4⟩ := ih h1 fun o' ho' => hops o' (List.mem_cons_of_mem _ ho')
    exact ⟨h3, .cons h2 h4⟩

end HashMap

/-- Increments of a counter add up. From a key whose value `ParseInt` reads
as `x`, a run of operations that touch the key only through `Incr`s by amounts
that parse, with any operations on other keys between them, answers `true` to
each `Incr` of the key and leaves it a value that parses as `x` plus every
amount (Go's wrapping `int64` sum), with the ttl of the last `Incr`. -/
theorem incrs_add_up {hm : HashMap} (h : hm.Inv) {k v : Bytes} {x t : Int64}
    (hk : hm.lookup k = some (v, t)) (hv : parseInt v = some x) (ops : List (Int64 × Op))
    (hops : ∀ o ∈ ops, (∃ ttl amount, o.2 = .incr ttl k amount ∧ parseInt amount ≠ none) ∨
      ∀ d ∈ o.2.record, d.key ≠ k) :
    let p := ops.foldl (fun p o => o.2.tally k p) (x, t)
    (∃ w, (hm.run ops).2.lookup k = some (w, p.2) ∧ parseInt w = some p.1) ∧
      List.Forall₂ (fun o r => ∀ ttl amount, o.2 = .incr ttl k amount → r = .ok true) ops (hm.run ops).1 :=
  let hr := HashMap.Counts.run ⟨h, v, hk, hv⟩ ops hops
  ⟨hr.1.2, hr.2⟩

/-- A counter set to `+7`, incremented by `5`, a `Set` of another key, and
incremented by `-20` with ttl 9: it reads `-8` with ttl 9. -/
theorem incrs_add_up_witness :
    let hm := ((newHashMap (fun _ => 0) 4 16 0 []).set 0 0 (ofString "k") (ofString "+7")).2
    let ops : List (Int64 × Op) := [(1, .incr 0 (ofString "k") (ofString "5")),
      (2, .set 0 (ofString "j") (ofString "x")), (3, .incr 9 (ofString "k") (ofString "-20"))]
    let p := ops.foldl (fun p o => o.2.tally (ofString "k") p) (7, 0)
    (∃ w, (hm.run ops).2.lookup (ofString "k") = some (w, p.2) ∧ parseInt w = some p.1) ∧
      List.Forall₂ (fun o r => ∀ ttl amount, o.2 = .incr ttl (ofString "k") amount → r = .ok true)
        ops (hm.run ops).1 := by
  intro hm ops
  obtain ⟨-, h, hl⟩ := (inv_newHashMap_nil (fun _ => 0) 4 16 0).set_spec 0 0 (ofString "k") (ofString "+7")
  refine incrs_add_up h ((hl _).trans (if_pos rfl)) (by decide) ops fun o ho => ?_
  simp only [ops, List.mem_cons, List.mem_singleton, List.not_mem_nil, or_false] at ho
  rcases ho with rfl | rfl | rfl
  · exact .inl ⟨_, _, rfl, by decide⟩
  · exact .inr fun d hd => by cases hd; decide
  · exact .inl ⟨_, _, rfl, by decide⟩

end HydraKV.Store
