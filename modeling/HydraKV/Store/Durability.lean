import HydraKV.Store.Replay

/-! The log file of a live table. `Loop` appends the frame of each record it
takes off `Aof.com`, and `Close` drains the queue into the file. A database is
reopened by replaying its file into a new table. The record `Incr` sends
carries no ttl, so the reopened table gives a key last written by `Incr` the
ttl `0`, whatever ttl the live table gave it. -/

namespace HydraKV.Store

open Go AOF

/-- Frames written back to back are read back in order. -/
theorem readFrames_flatten (ds : List Data) (hd : ∀ d ∈ ds, d.Fits) :
    (readFrames (ds.map writeFrame).flatten).1 = ds := by
  induction ds with
  | nil => exact readFrames_nil
  | cons d ds ih =>
    rw [List.map_cons, List.flatten_cons, readFrames_of_ok (readFrame_writeFrame (hd d (by simp)) _),
      ih fun d h => hd d (List.mem_cons_of_mem _ h)]

/-- Replaying frames written back to back applies their records in order. -/
theorem replayAOF_flatten (now : Int64) (ds : List Data) (hd : ∀ d ∈ ds, d.Fits) (hm : HashMap) :
    hm.replayAOF now (ds.map writeFrame).flatten = ds.foldl (HashMap.applyRecord now) hm := by
  rw [HashMap.replayAOF, readFrames_flatten ds hd]

namespace HashMap

variable {hm : HashMap} {key value : Bytes} {now ttl : Int64}

/-- `Close`: `Loop` drains `Aof.com` into the file. -/
def close (file : Bytes) (hm : HashMap) : Bytes := file ++ (hm.com.map writeFrame).flatten

theorem enqueue_com_of_live {d : Data} (h : hm.reset = false) :
    (hm.enqueue d).com = hm.com ++ [d] := by
  simp [enqueue, h]

/-! The locked parts change neither the queue nor the mode. -/

@[simp] theorem setLocked_com : (hm.setLocked now ttl key value).2.com = hm.com := by
  simp only [setLocked]; split <;> rfl

theorem setLocked_reset : (hm.setLocked now ttl key value).2.reset = hm.reset := by
  simp only [setLocked]; split <;> rfl

@[simp] theorem incrLocked_com : (hm.incrLocked now ttl key value).2.com = hm.com := by
  simp only [incrLocked]; split <;> (try split) <;> rfl

theorem incrLocked_reset : (hm.incrLocked now ttl key value).2.reset = hm.reset := by
  simp only [incrLocked]; split <;> (try split) <;> rfl

@[simp] theorem delLocked_com : (hm.delLocked key).2.com = hm.com := by
  simp only [delLocked]; split <;> (try split) <;> rfl

theorem delLocked_reset : (hm.delLocked key).2.reset = hm.reset := by
  simp only [delLocked]; split <;> (try split) <;> rfl

theorem incr_com : (hm.incr now ttl key value).2.com = (hm.enqueue ⟨actionIncr, key, value, 0⟩).com :=
  incrLocked_com

end HashMap

/-- `Incr(5, "k", "1")` on a new live table over an empty log files `k` with
ttl `5`; the table reopened from the closed log holds `k` with ttl `0`. -/
theorem incr_ttl_lost_on_reopen (xxhash : Bytes → UInt64) (numCPU multiplier now now' : Int64) :
    let hm := ((newHashMap xxhash numCPU multiplier now []).incr now 5 (ofString "k")
      (ofString "1")).2
    hm.lookup (ofString "k") = some (ofString "1", 5) ∧
      (newHashMap xxhash numCPU multiplier now' (hm.close [])).lookup (ofString "k") =
        some (ofString "1", 0) := by
  have hlive := inv_newHashMap_nil xxhash numCPU multiplier now
  have hd : (newHashMap xxhash numCPU multiplier now []).reset = false := by rw [newHashMap_nil]
  obtain ⟨-, hl⟩ := hlive.incr_spec now 5 (ofString "k") (ofString "1")
  rw [lookup_newHashMap_nil] at hl
  refine ⟨by rw [hl.2, if_pos rfl], ?_⟩
  have hfile : ((newHashMap xxhash numCPU multiplier now []).incr now 5 (ofString "k")
      (ofString "1")).2.close [] = ([⟨actionIncr, ofString "k", ofString "1", 0⟩].map writeFrame).flatten := by
    rw [HashMap.close, HashMap.incr_com, HashMap.enqueue_com_of_live hd, newHashMap_nil]; rfl
  obtain ⟨-, hr⟩ := (HashMap.inv_init xxhash numCPU multiplier now').incr_spec now' 0 (ofString "k")
    (ofString "1")
  rw [HashMap.lookup_init] at hr
  rw [lookup_newHashMap, hfile, replayAOF_flatten _ _ (by decide), List.foldl_cons, List.foldl_nil,
    HashMap.applyRecord_incr]
  exact (hr.2 _).trans (if_pos rfl)

end HydraKV.Store
