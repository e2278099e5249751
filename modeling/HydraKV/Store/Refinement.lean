import HydraKV.Store.Replay
import Mathlib.Data.List.AList

/-! The table refines a finite map from each key to its value and ttl. Every
sequential run of `Set`, `Get`, `Del`, `Incr`, `CheckResize` and
`GetAllEntriesAndCompress` on a new table returns what the map returns,
the snapshot in some order; along the run `GetEntries` is the number of keys
and the basket count is `DefaultBasketSize` doubled some number of times. The
simulation relation `Refines` is the table invariant together with equal
lookups. -/

namespace HydraKV.Store

open Go AOF

/-- The reference: a finite map from each key to its value and ttl. -/
abbrev RefMap := AList fun _ : Bytes => Bytes × Int64

/-- The sequential operations of one table. -/
inductive Op
  | set (ttl : Int64) (key value : Bytes)
  | get (key : Bytes)
  | del (key : Bytes)
  | incr (ttl : Int64) (key amount : Bytes)
  | checkResize
  | getAllEntriesAndCompress

/-- What an operation returns. -/
inductive Result
  | ok (b : Bool)
  | found (b : Bool) (value : Bytes)
  | unit
  | entries (es : List AOFEntry)

/-- Two results agree when they are equal, except that a snapshot's entries
may come in any order. -/
def Result.Agree : Result → Result → Prop
  | .entries es, .entries es' => es.Perm es'
  | r, r' => r = r'

namespace RefMap

/-- A binding as a snapshot entry. -/
def toAOFEntry (s : Σ _ : Bytes, Bytes × Int64) : AOFEntry := ⟨s.1, s.2.1, s.2.2⟩

/-- The reference semantics. `Set` inserts or overwrites, `Del` removes a
present key, `Incr` stores the wrapped sum for a numeric value, fails on a
non-numeric one and inserts the amount for an absent key, `CheckResize`
changes nothing, and the snapshot lists every binding once. -/
def step (m : RefMap) : Op → Result × RefMap
  | .set ttl key value => (.ok true, m.insert key (value, ttl))
  | .get key =>
    match m.lookup key with
    | some (v, _) => (.found true v, m)
    | none => (.found false [], m)
  | .del key => (.ok (m.lookup key).isSome, m.erase key)
  | .incr ttl key amount =>
    match m.lookup key with
    | some (v, _) =>
      match parseInt v, parseInt amount with
      | some x, some y => (.ok true, m.insert key (formatInt (x + y), ttl))
      | _, _ => (.ok false, m)
    | none => (.ok true, m.insert key (amount, ttl))
  | .checkResize => (.unit, m)
  | .getAllEntriesAndCompress => (.entries (m.entries.map toAOFEntry), m)

/-- A run of operations on the reference. -/
def run (m : RefMap) : List Op → List Result × RefMap
  | [] => ([], m)
  | op :: ops => ((m.step op).1 :: ((m.step op).2.run ops).1, ((m.step op).2.run ops).2)

end RefMap

namespace HashMap

/-- One operation at clock second `now`. -/
def step (hm : HashMap) (now : Int64) : Op → Result × HashMap
  | .set ttl key value => (.ok (hm.set now ttl key value).1, (hm.set now ttl key value).2)
  | .get key => (.found (hm.get key).1 (hm.get key).2, hm)
  | .del key => (.ok (hm.del key).1, (hm.del key).2)
  | .incr ttl key amount => (.ok (hm.incr now ttl key amount).1, (hm.incr now ttl key amount).2)
  | .checkResize => (.unit, hm.checkResize)
  | .getAllEntriesAndCompress => (.entries hm.getAllEntriesAndCompress, hm)

/-- A run of operations, each at its clock second. -/
def run (hm : HashMap) : List (Int64 × Op) → List Result × HashMap
  | [] => ([], hm)
  | (now, op) :: ops =>
    ((hm.step now op).1 :: ((hm.step now op).2.run ops).1, ((hm.step now op).2.run ops).2)

/-- Every operation keeps the table invariant. -/
theorem Inv.step {hm : HashMap} (h : hm.Inv) (now : Int64) : ∀ op, (hm.step now op).2.Inv
  | .set ttl key value => (h.set_spec now ttl key value).2.1
  | .get _ | .getAllEntriesAndCompress => h
  | .del key => (h.del_spec key).2.1
  | .incr ttl key amount => (h.incr_spec now ttl key amount).1
  | .checkResize => h.checkResize_spec.1

/-- The table refines the reference map: the invariant holds and every key's
lookup is the map's. -/
structure Refines (hm : HashMap) (m : RefMap) : Prop where
  inv : Inv hm
  lookup_eq : ∀ k, hm.lookup k = m.lookup k

namespace Refines

variable {hm : HashMap} {m : RefMap}

theorem getAllEntriesAndCompress_eq (hm : HashMap) :
    hm.getAllEntriesAndCompress = hm.table.flatten.map fun e => ⟨e.key, e.value, e.ttl⟩ := by
  simp [getAllEntriesAndCompress, List.flatMap, List.map_flatten]

variable (hr : Refines hm m)
include hr

/-- The snapshot lists every binding of the map exactly once. -/
theorem snapshot_perm : hm.getAllEntriesAndCompress.Perm (m.entries.map RefMap.toAOFEntry) := by
  rw [getAllEntriesAndCompress_eq]
  refine (List.perm_ext_iff_of_nodup ?_ ?_).mpr fun x => ?_
  · exact List.Nodup.of_map AOFEntry.key (by rw [List.map_map]; exact hr.inv.nodup)
  · exact List.Nodup.of_map AOFEntry.key
      (by simpa [List.map_map, Function.comp_def, RefMap.toAOFEntry] using m.keys_nodup)
  · have hl := hr.inv.lookup_eq_some (k := x.key) (b := (x.value, x.ttl))
    rw [hr.lookup_eq, ← Option.mem_def, AList.mem_lookup_iff] at hl
    simp only [List.mem_map]
    constructor
    · rintro ⟨e, he, rfl⟩
      exact ⟨_, hl.mpr ⟨e, he, rfl, rfl⟩, rfl⟩
    · rintro ⟨⟨k, v, t⟩, hs, rfl⟩
      obtain ⟨e, he, rfl, heq⟩ := hl.mp hs
      cases heq
      exact ⟨e, he, rfl⟩

/-- `GetEntries` is the number of keys of the map. -/
theorem getEntries_eq : hm.getEntries = BitVec.ofNat 64 m.keys.length := by
  have hlen := hr.snapshot_perm.length_eq
  rw [getAllEntriesAndCompress_eq, List.length_map, List.length_map] at hlen
  rw [getEntries, hr.inv.count, hlen]
  exact BitVec.eq_of_toNat_eq (by simp [AList.keys, List.keys])

theorem getBasketNum_eq : ∃ j, hm.getBasketNum = DefaultBasketSize * 2 ^ j := by
  rw [getBasketNum, hr.inv.length]; exact hr.inv.size

theorem of_insert {hm' : HashMap} {key : Bytes} {p : Bytes × Int64} (hi : Inv hm')
    (hl : ∀ k, hm'.lookup k = if k = key then some p else hm.lookup k) : Refines hm' (m.insert key p) := by
  refine ⟨hi, fun k => ?_⟩
  rw [hl, hr.lookup_eq]
  by_cases hk : k = key
  · subst hk; rw [if_pos rfl, AList.lookup_insert]
  · rw [if_neg hk, AList.lookup_insert_ne hk]

theorem of_erase {hm' : HashMap} {key : Bytes} (hi : Inv hm')
    (hl : ∀ k, hm'.lookup k = if k = key then none else hm.lookup k) : Refines hm' (m.erase key) := by
  refine ⟨hi, fun k => ?_⟩
  rw [hl, hr.lookup_eq]
  by_cases hk : k = key
  · subst hk; rw [if_pos rfl, AList.lookup_erase]
  · rw [if_neg hk, AList.lookup_erase_ne hk]

/-- One operation keeps the simulation and returns what the map returns. -/
theorem step (now : Int64) (op : Op) :
    Result.Agree (hm.step now op).1 (m.step op).1 ∧ Refines (hm.step now op).2 (m.step op).2 := by
  cases op with
  | set ttl key value =>
    obtain ⟨hb, hinv, hl⟩ := hr.inv.set_spec now ttl key value
    exact ⟨by simp only [HashMap.step, RefMap.step, hb]; rfl, hr.of_insert hinv hl⟩
  | get key =>
    simp only [HashMap.step, RefMap.step, get_eq, hr.lookup_eq]
    cases m.lookup key <;> exact ⟨rfl, hr⟩
  | del key =>
    obtain ⟨hb, hinv, hl⟩ := hr.inv.del_spec key
    exact ⟨by simp only [HashMap.step, RefMap.step, hb, hr.lookup_eq]; rfl, hr.of_erase hinv hl⟩
  | incr ttl key amount =>
    obtain ⟨hinv, hspec⟩ := hr.inv.incr_spec now ttl key amount
    rw [hr.lookup_eq] at hspec
    simp only [HashMap.step, RefMap.step]
    revert hspec
    cases m.lookup key with
    | none => rintro ⟨hb, hl⟩; exact ⟨by rw [hb]; rfl, hr.of_insert hinv hl⟩
    | some p =>
      obtain ⟨v, t⟩ := p
      simp only [checkIsNumber]
      cases parseInt v <;> cases parseInt amount <;> rintro ⟨hb, hl⟩ <;>
        first
        | exact ⟨by rw [hb]; rfl, hr.of_insert hinv hl⟩
        | exact ⟨by rw [hb]; rfl, hinv, fun k => (hl k).trans (hr.lookup_eq k)⟩
  | checkResize =>
    obtain ⟨hinv, hl⟩ := hr.inv.checkResize_spec
    exact ⟨rfl, hinv, fun k => by rw [HashMap.step, hl]; exact hr.lookup_eq k⟩
  | getAllEntriesAndCompress => exact ⟨hr.snapshot_perm, hr⟩

end Refines

/-- A run keeps the simulation, operation by operation. -/
theorem Refines.run {hm : HashMap} {m : RefMap} (hr : Refines hm m) (ops : List (Int64 × Op)) :
    List.Forall₂ Result.Agree (hm.run ops).1 (m.run (ops.map Prod.snd)).1 ∧
      Refines (hm.run ops).2 (m.run (ops.map Prod.snd)).2 := by
  induction ops generalizing hm m with
  | nil => exact ⟨.nil, hr⟩
  | cons x ops ih =>
    obtain ⟨h1, h2⟩ := hr.step x.1 x.2
    obtain ⟨h3, h4⟩ := ih h2
    exact ⟨.cons h1 h3, h4⟩

end HashMap

/-- A new table over an empty log refines the empty map. -/
theorem refines_newHashMap (xxhash : Bytes → UInt64) (numCPU multiplier now : Int64) :
    (newHashMap xxhash numCPU multiplier now []).Refines ∅ :=
  ⟨inv_newHashMap_nil xxhash numCPU multiplier now, fun k => by
    rw [AList.lookup_empty]; exact lookup_newHashMap_nil xxhash numCPU multiplier now k⟩

/-- Every sequential run of operations on a new table returns what the
reference map returns, the snapshot in some order. After it the two agree on
every key, `GetEntries` is the number of keys, and the basket count is
`DefaultBasketSize` doubled some number of times. -/
theorem newHashMap_run_refines (xxhash : Bytes → UInt64) (numCPU multiplier now : Int64)
    (ops : List (Int64 × Op)) :
    let hm := (newHashMap xxhash numCPU multiplier now []).run ops
    let m := RefMap.run ∅ (ops.map Prod.snd)
    List.Forall₂ Result.Agree hm.1 m.1 ∧ (∀ k, hm.2.lookup k = m.2.lookup k) ∧
      hm.2.getEntries = BitVec.ofNat 64 m.2.keys.length ∧
      ∃ j, hm.2.getBasketNum = DefaultBasketSize * 2 ^ j := by
  obtain ⟨h1, h2⟩ := (refines_newHashMap xxhash numCPU multiplier now).run ops
  exact ⟨h1, h2.lookup_eq, h2.getEntries_eq, h2.getBasketNum_eq⟩

end HydraKV.Store
