import HydraKV.Store.Durability
import HydraKV.Store.Refinement

/-! Closing a live table and reopening it from its log. A sequential run on a
new live table over an empty log sends the record of each `Set`, `Del` and
`Incr` in order; `Close` writes them to the file, and the table reopened from
the file replays them, each at the clock second of the reopen. A replayed
`Incr` has ttl `0`, so the reopened table can differ in ttls. -/

namespace HydraKV.Store

open Go AOF

namespace Op

/-- The record an operation sends on `Aof.com`, if it sends one. -/
def record : Op → Option Data
  | .set ttl key value => some ⟨actionSet, key, value, ttl⟩
  | .del key => some ⟨actionDel, key, [], 0⟩
  | .incr _ key amount => some ⟨actionIncr, key, amount, 0⟩
  | _ => none

/-- The operation `ReplayAOF` runs for the operation's record. -/
def replayed : Op → Option Op
  | .set ttl key value => some (.set ttl key value)
  | .del key => some (.del key)
  | .incr _ key amount => some (.incr 0 key amount)
  | _ => none

end Op

namespace HashMap

variable {hm : HashMap}

theorem applyRecord_del {now : Int64} {k : Bytes} :
    hm.applyRecord now ⟨actionDel, k, [], 0⟩ = (hm.del k).2 := by
  simp [applyRecord, actionDel_ne_actionSet]

/-- A live table's step sends the operation's record and stays live. -/
theorem step_com (now : Int64) (op : Op) (h : hm.reset = false) :
    (hm.step now op).2.com = hm.com ++ op.record.toList ∧ (hm.step now op).2.reset = false := by
  cases op with
  | set => simp [step, set, Op.record, setLocked_reset, enqueue, h]
  | del => simp [step, del, Op.record, delLocked_reset, enqueue, h]
  | incr => simp [step, incr, Op.record, incrLocked_reset, enqueue, h]
  | checkResize => unfold step checkResize; split_ifs <;> exact ⟨(List.append_nil _).symm, h⟩
  | get | getAllEntriesAndCompress => simp [step, Op.record, h]

/-- A live run sends the records of its operations, in order. -/
theorem run_com (ops : List (Int64 × Op)) (h : hm.reset = false) :
    (hm.run ops).2.com = hm.com ++ ops.filterMap (·.2.record) ∧ (hm.run ops).2.reset = false := by
  induction ops generalizing hm with
  | nil => simp [run, h]
  | cons x ops ih =>
    obtain ⟨hc, hr⟩ := step_com x.1 x.2 h
    obtain ⟨hc', hr'⟩ := ih hr
    refine ⟨?_, hr'⟩
    rw [run, hc', hc, List.append_assoc]
    cases hx : x.2.record <;> simp [List.filterMap_cons, hx]

/-- Replaying the records of a run runs the replayed operations. -/
theorem foldl_applyRecord (now : Int64) (ops : List (Int64 × Op)) (hm : HashMap) :
    (ops.filterMap (·.2.record)).foldl (applyRecord now) hm =
      (hm.run ((ops.filterMap (·.2.replayed)).map (now, ·))).2 := by
  induction ops generalizing hm with
  | nil => rfl
  | cons x ops ih =>
    obtain ⟨t, op⟩ := x
    cases op with
    | set ttl key value =>
      show (ops.filterMap (·.2.record)).foldl _ (hm.applyRecord now ⟨actionSet, key, value, ttl⟩) = _
      rw [applyRecord_set]; exact ih _
    | del key =>
      show (ops.filterMap (·.2.record)).foldl _ (hm.applyRecord now ⟨actionDel, key, [], 0⟩) = _
      rw [applyRecord_del]; exact ih _
    | incr ttl key amount =>
      show (ops.filterMap (·.2.record)).foldl _ (hm.applyRecord now ⟨actionIncr, key, amount, 0⟩) = _
      rw [applyRecord_incr]; exact ih _
    | get | checkResize | getAllEntriesAndCompress => exact ih hm

end HashMap

namespace RefMap

/-- Two maps hold every key with the same value, whatever the ttls. -/
def SameValues (m m' : RefMap) : Prop := ∀ k, (m.lookup k).map Prod.fst = (m'.lookup k).map Prod.fst

variable {m m' : RefMap}

theorem SameValues.insert (h : SameValues m m') (key v : Bytes) (t t' : Int64) :
    SameValues (m.insert key (v, t)) (m'.insert key (v, t')) := fun k => by
  by_cases hk : k = key
  · subst hk; simp [AList.lookup_insert]
  · simp [AList.lookup_insert_ne hk, h k]

theorem SameValues.erase (h : SameValues m m') (key : Bytes) : SameValues (m.erase key) (m'.erase key) :=
  fun k => by
  by_cases hk : k = key
  · subst hk; simp [AList.lookup_erase]
  · simp [AList.lookup_erase_ne hk, h k]

/-- A step and its replayed step keep the values equal. -/
theorem SameValues.step (h : SameValues m m') (op : Op) :
    SameValues (m.step op).2 (match op.replayed with | some op' => (m'.step op').2 | none => m') := by
  cases op with
  | set ttl key value => exact h.insert key value ttl ttl
  | del key => exact h.erase key
  | incr ttl key amount =>
    have hk := h key
    simp only [Op.replayed, RefMap.step]
    rcases hl : m.lookup key with _ | ⟨v, t₀⟩
    · rw [hl, Option.map_none', eq_comm, Option.map_eq_none'] at hk
      rw [hk]; exact h.insert key amount ttl 0
    · rw [hl, Option.map_some', eq_comm, Option.map_eq_some'] at hk
      obtain ⟨⟨v', t⟩, hl', rfl⟩ := hk
      rw [hl']; dsimp only
      cases parseInt v' <;> cases parseInt amount <;> first | exact h | exact h.insert _ _ ttl 0
  | get key => simp only [RefMap.step]; split <;> exact h
  | checkResize | getAllEntriesAndCompress => exact h

theorem SameValues.run (h : SameValues m m') (ops : List Op) :
    SameValues (m.run ops).2 (m'.run (ops.filterMap Op.replayed)).2 := by
  induction ops generalizing m m' with
  | nil => exact h
  | cons op ops ih =>
    have := ih (h.step op)
    cases hr : op.replayed <;> simpa [run, List.filterMap_cons, hr] using this

end RefMap

/-- The table reopened at clock second `now'` from the file of a run on a new
live table over an empty log is the initial table after the run's replayed
operations, each at `now'`, gone live. -/
theorem reopen_eq (xxhash : Bytes → UInt64) (numCPU multiplier now now' : Int64)
    (ops : List (Int64 × Op)) (hfit : ∀ x ∈ ops, ∀ d ∈ x.2.record, d.Fits) :
    newHashMap xxhash numCPU multiplier now'
        (((newHashMap xxhash numCPU multiplier now []).run ops).2.close []) =
      { ((HashMap.init xxhash numCPU multiplier now').run
          ((ops.filterMap (·.2.replayed)).map (now', ·))).2 with reset := false } := by
  have hnew := newHashMap_nil xxhash numCPU multiplier now
  obtain ⟨hcom, -⟩ := @HashMap.run_com (newHashMap xxhash numCPU multiplier now []) ops
    (by rw [hnew])
  have hfile : ((newHashMap xxhash numCPU multiplier now []).run ops).2.close [] =
      ((ops.filterMap (·.2.record)).map writeFrame).flatten := by
    rw [HashMap.close, hcom, hnew]; rfl
  have hfits : ∀ d ∈ ops.filterMap (·.2.record), d.Fits := fun d hd => by
    obtain ⟨x, hx, hd⟩ := List.mem_filterMap.mp hd
    exact hfit x hx d hd
  rw [newHashMap, hfile, replayAOF_flatten _ _ hfits, HashMap.foldl_applyRecord]

end HydraKV.Store
