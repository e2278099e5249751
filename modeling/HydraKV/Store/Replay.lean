import HydraKV.Store.Invariant

/-! `NewHashMap` and `ReplayAOF`: a new table replays the records of its log in
replay mode, where writes bypass the log queue, then goes live. The log is
read from the bytes of its file; an absent file reads as no bytes. The
replay's `addEntry` calls read the clock second `now`. -/

namespace HydraKV.Store

open Go AOF

namespace HashMap

/-- The `switch d.Action` of `ReplayAOF`: `set`, `del` and `incr` records are
applied; others are ignored. -/
def applyRecord (now : Int64) (hm : HashMap) (d : Data) : HashMap :=
  if d.action = actionSet then (hm.set now d.ttl d.key d.value).2
  else if d.action = actionDel then (hm.del d.key).2
  else if d.action = actionIncr then (hm.incr now d.ttl d.key d.value).2
  else hm

theorem applyRecord_set {now : Int64} {hm : HashMap} {k v : Bytes} {t : Int64} :
    hm.applyRecord now ⟨actionSet, k, v, t⟩ = (hm.set now t k v).2 := if_pos rfl

theorem applyRecord_incr {now : Int64} {hm : HashMap} {k a : Bytes} {t : Int64} :
    hm.applyRecord now ⟨actionIncr, k, a, t⟩ = (hm.incr now t k a).2 := by
  simp [applyRecord, actionIncr_ne_actionSet, actionIncr_ne_actionDel]

/-- `ReplayAOF`: the records read before the read loop stops, applied in order.
The loop stops only at the end of the log's bytes, which `ReplayAOF` treats as
the end of the log. -/
def replayAOF (now : Int64) (log : Bytes) (hm : HashMap) : HashMap :=
  (readFrames log).1.foldl (applyRecord now) hm

end HashMap

/-- `NewHashMap(name)` over the bytes of the database's log at clock second
`now`: the replayed table, live. -/
def newHashMap (xxhash : Bytes → UInt64) (numCPU multiplier now : Int64) (log : Bytes) : HashMap :=
  { HashMap.replayAOF now log (HashMap.init xxhash numCPU multiplier now) with reset := false }

theorem readFrames_nil : (readFrames []).1 = [] := by
  rw [readFrames_of_error (r := []) (e := .eof) rfl]

/-- A reopened table answers a lookup as its replay does. -/
theorem lookup_newHashMap (xxhash : Bytes → UInt64) (numCPU multiplier now : Int64) (log k : Bytes) :
    (newHashMap xxhash numCPU multiplier now log).lookup k =
      (HashMap.replayAOF now log (HashMap.init xxhash numCPU multiplier now)).lookup k := rfl

theorem newHashMap_nil (xxhash : Bytes → UInt64) (numCPU multiplier now : Int64) :
    newHashMap xxhash numCPU multiplier now [] =
      { HashMap.init xxhash numCPU multiplier now with reset := false } := by
  simp [newHashMap, HashMap.replayAOF, readFrames_nil]

section Empty

variable (xxhash : Bytes → UInt64) (numCPU multiplier now : Int64)

/-- A new table over an empty log keeps the invariant and holds no key. -/
theorem inv_newHashMap_nil : HashMap.Inv (newHashMap xxhash numCPU multiplier now []) := by
  rw [newHashMap_nil]; exact (HashMap.inv_init xxhash numCPU multiplier now).congr rfl rfl rfl rfl

theorem lookup_newHashMap_nil (k : Bytes) :
    (newHashMap xxhash numCPU multiplier now []).lookup k = none := by
  rw [newHashMap_nil]; exact HashMap.lookup_init xxhash numCPU multiplier now k

end Empty

end HydraKV.Store
