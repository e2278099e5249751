import HydraKV.Store.Writer
import HydraKV.Store.Reopen
import Mathlib.Data.Nat.Digits

/-! Runs of the mutations and `Loop` in which the log stays faithful. A round
is a call's send followed at once by its locked part, a write of the oldest
queued record, or a compaction while the queue is empty. In every state that
rounds reach from a new live table over an empty log, the file followed by the
queued frames replays to a table that holds every key with the live table's
value. The log is read on the reference map, record by record, and a snapshot
replays to the map it was taken from. Outside the rounds the log can lose
this: a locked part may run after a later call's send, and a compaction copies
applied records that still wait in the queue. -/

namespace HydraKV.Store

open Go AOF

theorem natAbs_toInt_lt (i : Int64) : i.toInt.natAbs < 10 ^ 20 := by
  have := i.isLt
  rw [BitVec.toInt_eq_toNat_cond]
  split <;> omega

/-- `strconv.FormatInt` writes at most a sign and twenty digits. -/
theorem length_formatInt_le (i : Int64) : (formatInt i).length ≤ 21 := by
  have h := Nat.toDigitsCore_length 10 (by decide) (i.toInt.natAbs + 1) _ 20 (natAbs_toInt_lt i) (by decide)
  simp only [formatInt, decimal, List.length_append, List.length_map]
  split <;> simp only [List.length_cons, List.length_nil] <;> unfold Nat.toDigits <;> omega

namespace Mutation

/-- The mutation as a table operation. -/
def op : Mutation → Op
  | .set ttl key value => .set ttl key value
  | .incr ttl key amount => .incr ttl key amount
  | .del key => .del key

theorem run_eq_step (now : Int64) (m : Mutation) (hm : HashMap) : (m.run now hm).2 = (hm.step now m.op).2 := by
  cases m <;> rfl

theorem record_op (m : Mutation) : m.op.record = some m.data := by cases m <;> rfl

end Mutation

/-! ### The log on the reference map -/

namespace RefMap

/-- The `switch d.Action` of `ReplayAOF` on the reference map. -/
def applyRecord (m : RefMap) (d : Data) : RefMap :=
  if d.action = actionSet then (m.step (.set d.ttl d.key d.value)).2
  else if d.action = actionDel then (m.step (.del d.key)).2
  else if d.action = actionIncr then (m.step (.incr d.ttl d.key d.value)).2
  else m

/-- The map a log of records replays to. -/
def replay (ds : List Data) : RefMap := ds.foldl applyRecord ∅

theorem applyRecord_toData (m : RefMap) (e : AOFEntry) : m.applyRecord e.toData = m.insert e.key (e.value, e.ttl) :=
  if_pos rfl

/-- A mutation's record replays as the operation `ReplayAOF` runs for it. -/
theorem applyRecord_data (m : RefMap) (mu : Mutation) :
    m.applyRecord mu.data = match mu.op.replayed with | some op' => (m.step op').2 | none => m := by
  cases mu <;> simp [applyRecord, Mutation.data, Mutation.op, Op.replayed, actionDel_ne_actionSet,
    actionIncr_ne_actionSet, actionIncr_ne_actionDel]

/-- Every key and value fits a `uint32` length field. -/
def Fits (m : RefMap) : Prop := ∀ k v t, m.lookup k = some (v, t) → k.length < 2 ^ 32 ∧ v.length < 2 ^ 32

variable {m : RefMap}

theorem Fits.insert (h : m.Fits) {key v : Bytes} (hk : key.length < 2 ^ 32) (hv : v.length < 2 ^ 32) (t : Int64) :
    Fits (m.insert key (v, t)) := fun k v' t' hl => by
  by_cases hkk : k = key
  · subst hkk
    rw [AList.lookup_insert, Option.some.injEq, Prod.mk.injEq] at hl
    exact hl.1 ▸ ⟨hk, hv⟩
  · rw [AList.lookup_insert_ne hkk] at hl
    exact h k v' t' hl

theorem Fits.erase (h : m.Fits) (key : Bytes) : Fits (m.erase key) := fun k v t hl => by
  by_cases hkk : k = key
  · subst hkk; rw [AList.lookup_erase] at hl; cases hl
  · rw [AList.lookup_erase_ne hkk] at hl; exact h k v t hl

/-- An operation whose record fits keeps every binding fitting; `Incr` stores
a sum that `FormatInt` writes in at most 21 bytes. -/
theorem Fits.step (h : m.Fits) (op : Op) (hop : ∀ d ∈ op.record, d.Fits) : Fits (m.step op).2 := by
  cases op with
  | set ttl key value => obtain ⟨-, hk, hv⟩ := hop _ rfl; exact h.insert hk hv ttl
  | del key => exact h.erase key
  | incr ttl key amount =>
    obtain ⟨-, hk, hv⟩ := hop _ rfl
    simp only [RefMap.step]
    split
    · split
      · exact h.insert hk ((length_formatInt_le _).trans_lt (by decide)) ttl
      · exact h
    · exact h.insert hk hv ttl
  | get key => simp only [RefMap.step]; split <;> exact h
  | checkResize | getAllEntriesAndCompress => exact h

theorem Fits.applyRecord (h : m.Fits) {d : Data} (hd : d.Fits) : Fits (m.applyRecord d) := by
  obtain ⟨-, hk, hv⟩ := hd
  unfold RefMap.applyRecord
  split_ifs
  · exact h.insert hk hv _
  · exact h.erase _
  · exact h.step (.incr d.ttl d.key d.value) fun d' hd' => by
      cases hd'; exact ⟨show actionIncr.length < 2 ^ 32 by decide, hk, hv⟩
  · exact h

/-! ### Snapshots -/

/-- The map a list of snapshot entries replays to, when read as inserts. -/
theorem lookup_foldl_insert_of_not_mem {l : List AOFEntry} {k : Bytes} (hk : k ∉ l.map AOFEntry.key)
    (m₀ : RefMap) : (l.foldl (fun m e => m.insert e.key (e.value, e.ttl)) m₀).lookup k = m₀.lookup k := by
  induction l generalizing m₀ with
  | nil => rfl
  | cons e l ih =>
    simp only [List.map_cons, List.mem_cons, not_or] at hk
    rw [List.foldl_cons, ih hk.2, AList.lookup_insert_ne hk.1]

theorem lookup_foldl_insert_of_mem {l : List AOFEntry} (hl : (l.map AOFEntry.key).Nodup) {e : AOFEntry}
    (he : e ∈ l) (m₀ : RefMap) :
    (l.foldl (fun m e => m.insert e.key (e.value, e.ttl)) m₀).lookup e.key = some (e.value, e.ttl) := by
  induction l generalizing m₀ with
  | nil => cases he
  | cons e' l ih =>
    rw [List.map_cons, List.nodup_cons] at hl
    rcases List.mem_cons.mp he with rfl | he
    · rw [List.foldl_cons, lookup_foldl_insert_of_not_mem hl.1, AList.lookup_insert]
    · exact ih hl.2 he _

theorem replay_append_singleton (ds : List Data) (d : Data) :
    replay (ds ++ [d]) = (replay ds).applyRecord d := by
  simp only [replay, List.foldl_append, List.foldl_cons, List.foldl_nil]

theorem replay_map_toData (l : List AOFEntry) :
    replay (l.map AOFEntry.toData) = l.foldl (fun m e => m.insert e.key (e.value, e.ttl)) ∅ := by
  simp only [replay, List.foldl_map, applyRecord_toData]

end RefMap

namespace HashMap.Refines

variable {hm : HashMap} {m : RefMap} (hr : Refines hm m)
include hr

theorem lookup_of_mem_snapshot {e : AOFEntry} (he : e ∈ hm.getAllEntriesAndCompress) :
    m.lookup e.key = some (e.value, e.ttl) := by
  obtain ⟨s, hs, rfl⟩ := List.mem_map.mp (hr.snapshot_perm.subset he)
  exact AList.mem_lookup_iff.mpr hs

/-- A snapshot replays to the map it was taken from. -/
theorem lookup_replay_snapshot (k : Bytes) :
    (RefMap.replay (hm.getAllEntriesAndCompress.map AOFEntry.toData)).lookup k = m.lookup k := by
  rw [RefMap.replay_map_toData]
  cases hk : m.lookup k with
  | none =>
    refine (RefMap.lookup_foldl_insert_of_not_mem (fun hmem => ?_) ∅).trans (AList.lookup_empty k)
    obtain ⟨e, he, rfl⟩ := List.mem_map.mp hmem
    rw [hr.lookup_of_mem_snapshot he] at hk
    cases hk
  | some p =>
    have hnd : (hm.getAllEntriesAndCompress.map AOFEntry.key).Nodup := by
      refine ((hr.snapshot_perm.map _).nodup_iff).mpr ?_
      simpa [List.map_map, Function.comp_def, RefMap.toAOFEntry] using m.keys_nodup
    have he : (⟨k, p.1, p.2⟩ : AOFEntry) ∈ hm.getAllEntriesAndCompress :=
      hr.snapshot_perm.symm.subset (List.mem_map.mpr ⟨⟨k, p⟩, AList.mem_lookup_iff.mp hk, rfl⟩)
    exact RefMap.lookup_foldl_insert_of_mem hnd he ∅

/-- Replaying a record keeps the simulation. -/
theorem applyRecord (now : Int64) (d : Data) : Refines (hm.applyRecord now d) (m.applyRecord d) := by
  unfold HashMap.applyRecord RefMap.applyRecord
  split_ifs
  · exact (hr.step now (.set _ _ _)).2
  · exact (hr.step now (.del _)).2
  · exact (hr.step now (.incr _ _ _)).2
  · exact hr

end HashMap.Refines

theorem HashMap.Refines.foldl_applyRecord {hm : HashMap} {m : RefMap} (hr : hm.Refines m) (now : Int64)
    (ds : List Data) : (ds.foldl (HashMap.applyRecord now) hm).Refines (ds.foldl RefMap.applyRecord m) := by
  induction ds generalizing hm m with
  | nil => exact hr
  | cons d ds ih => exact ih (hr.applyRecord now d)

/-- A new table, before its log is replayed, refines the empty map. -/
theorem HashMap.refines_init (xxhash : Bytes → UInt64) (numCPU multiplier now : Int64) :
    (HashMap.init xxhash numCPU multiplier now).Refines ∅ :=
  ⟨HashMap.inv_init xxhash numCPU multiplier now, fun k => by simp⟩

/-- `NewHashMap` over any log, whole, cut short or corrupt, refines the map its
records replay to. -/
theorem newHashMap_refines (xxhash : Bytes → UInt64) (numCPU multiplier now : Int64) (log : Bytes) :
    (newHashMap xxhash numCPU multiplier now log).Refines (RefMap.replay (readFrames log).1) :=
  have h := (HashMap.refines_init xxhash numCPU multiplier now).foldl_applyRecord now (readFrames log).1
  ⟨h.inv.congr rfl rfl rfl rfl, h.lookup_eq⟩

/-! ### Rounds -/

namespace Sys

/-- The system before any step: each mutation a call not started, a new live
table over an empty log, and an empty file. -/
def start (xxhash : Bytes → UInt64) (numCPU multiplier now : Int64) (ms : List Mutation) : Sys :=
  ⟨ms.map (⟨·, .start⟩), newHashMap xxhash numCPU multiplier now [], []⟩

variable {s : Sys} {i : Nat}

/-- A call not started sends its record, then runs its locked part. -/
theorem call_start (now : Int64) {mu : Mutation} (h : s.calls[i]? = some ⟨mu, .start⟩) :
    (s.step now (.send i)).step now (.apply i) =
      ⟨s.calls.set i ⟨mu, .done (mu.run now s.hm).1⟩, (mu.run now s.hm).2, s.file⟩ := by
  obtain ⟨hi, -⟩ := List.getElem?_eq_some_iff.mp h
  simp [step, h, List.getElem?_set_self hi, Mutation.run_eq]

/-- A call that has returned, or is not there, takes no step. -/
theorem call_done (now : Int64) (h : ∀ c ∈ s.calls[i]?, ∃ ok, c.pc = .done ok) :
    (s.step now (.send i)).step now (.apply i) = s := by
  cases hc : s.calls[i]? with
  | none => simp [step, hc]
  | some c =>
    obtain ⟨ok, hok⟩ := h c hc
    obtain ⟨mu, pc⟩ := c
    cases hok
    simp [step, hc]

end Sys

/-- One round at clock second `now`: a call's send and locked part, a write
of the oldest queued record, or a compaction while the queue is empty. -/
inductive Round (now : Int64) : Sys → Sys → Prop
  | call (s : Sys) (i : Nat) : Round now s ((s.step now (.send i)).step now (.apply i))
  | write (s : Sys) : Round now s (s.step now .write)
  | compress (s : Sys) (h : s.hm.com = []) : Round now s (s.step now .compress)

/-- The log of `s` is faithful: the file holds the frames of `ds`, every
record of the file and of the queue fits, the table refines `m`, and the log
replays to a map with `m`'s values. No call is between its send and its locked
part. -/
structure Logged (s : Sys) (ds : List Data) (m : RefMap) : Prop where
  live : s.hm.reset = false
  refines : s.hm.Refines m
  idle : ∀ c ∈ s.calls, c.pc ≠ .sent
  callsFit : ∀ c ∈ s.calls, c.mutation.data.Fits
  file : s.file = (ds.map writeFrame).flatten
  logFits : ∀ d ∈ ds ++ s.hm.com, d.Fits
  mapFits : m.Fits
  values : m.SameValues (RefMap.replay (ds ++ s.hm.com))

namespace Logged

theorem start (xxhash : Bytes → UInt64) (numCPU multiplier now : Int64) (ms : List Mutation)
    (hfit : ∀ mu ∈ ms, mu.data.Fits) : Logged (Sys.start xxhash numCPU multiplier now ms) [] ∅ where
  live := by rw [Sys.start, newHashMap_nil]
  refines := refines_newHashMap xxhash numCPU multiplier now
  idle := by simp [Sys.start]
  callsFit := by simpa [Sys.start] using hfit
  file := rfl
  logFits := by simp [Sys.start, newHashMap_nil, HashMap.init]
  mapFits k v t h := by cases h
  values k := by simp [Sys.start, newHashMap_nil, HashMap.init, RefMap.replay]

variable {s : Sys} {ds : List Data} {m : RefMap} (h : Logged s ds m)
include h

theorem call (now : Int64) (i : Nat) : ∃ m', Logged ((s.step now (.send i)).step now (.apply i)) ds m' := by
  cases hc : s.calls[i]? with
  | none => exact ⟨m, by rw [Sys.call_done now (by simp [hc])]; exact h⟩
  | some c =>
    obtain ⟨mu, pc⟩ := c
    have hmem := List.getElem?_mem hc
    cases pc with
    | sent => exact absurd rfl (h.idle _ hmem)
    | done ok => exact ⟨m, by rw [Sys.call_done now (by simp [hc])]; exact h⟩
    | start =>
      rw [Sys.call_start now hc]
      have hfit : mu.data.Fits := h.callsFit _ hmem
      obtain ⟨hcom, hlive⟩ := HashMap.step_com now mu.op h.live
      rw [mu.record_op, Option.toList_some, ← mu.run_eq_step] at hcom
      rw [← mu.run_eq_step] at hlive
      refine ⟨(m.step mu.op).2, hlive, ?_, fun c hc' => ?_, fun c hc' => ?_, h.file, fun d hd => ?_,
        h.mapFits.step mu.op (by rw [mu.record_op]; rintro d ⟨⟩; exact hfit), ?_⟩
      · rw [mu.run_eq_step]; exact (h.refines.step now mu.op).2
      · rcases List.mem_or_eq_of_mem_set hc' with hc' | rfl
        · exact h.idle c hc'
        · nofun
      · rcases List.mem_or_eq_of_mem_set hc' with hc' | rfl
        · exact h.callsFit c hc'
        · exact hfit
      · rw [hcom, ← List.append_assoc] at hd
        rcases List.mem_append.mp hd with hd | hd
        · exact h.logFits d hd
        · rw [List.mem_singleton.mp hd]; exact hfit
      · dsimp only
        rw [hcom, ← List.append_assoc, RefMap.replay_append_singleton, RefMap.applyRecord_data]
        exact h.values.step mu.op

theorem write (now : Int64) : ∃ ds', Logged (s.step now .write) ds' m := by
  cases hq : s.hm.com with
  | nil => exact ⟨ds, by rw [show s.step now .write = s by simp [Sys.step, hq]]; exact h⟩
  | cons d rest =>
    rw [show s.step now .write = ⟨s.calls, { s.hm with com := rest }, s.file ++ writeFrame d⟩ by
      simp [Sys.step, hq]]
    have happ : ds ++ s.hm.com = ds ++ [d] ++ rest := by rw [hq]; simp
    refine ⟨ds ++ [d], h.live, ⟨h.refines.inv.congr rfl rfl rfl rfl, h.refines.lookup_eq⟩, h.idle, h.callsFit,
      by rw [h.file]; simp, ?_, h.mapFits, ?_⟩
    · rw [← happ]; exact h.logFits
    · rw [← happ]; exact h.values

theorem compress (now : Int64) (hq : s.hm.com = []) : ∃ ds', Logged (s.step now .compress) ds' m := by
  by_cases hd : s.hm.compressDue
  · rw [show s.step now .compress = ⟨s.calls, { s.hm with deletedEntries := 0 },
      (s.hm.getAllEntriesAndCompress.map compressedFrame).flatten⟩ by simp [Sys.step, hd]]
    refine ⟨s.hm.getAllEntriesAndCompress.map AOFEntry.toData, h.live,
      ⟨h.refines.inv.congr rfl rfl rfl rfl, h.refines.lookup_eq⟩, h.idle, h.callsFit,
      by rw [List.map_map]; rfl, fun d hd => ?_, h.mapFits, fun k => ?_⟩
    · simp only [hq, List.append_nil, List.mem_map] at hd
      obtain ⟨e, he, rfl⟩ := hd
      obtain ⟨hk, hv⟩ := h.mapFits _ _ _ (h.refines.lookup_of_mem_snapshot he)
      exact ⟨show actionSet.length < 2 ^ 32 by decide, hk, hv⟩
    · dsimp only
      rw [hq, List.append_nil, h.refines.lookup_replay_snapshot]
  · exact ⟨ds, by rw [show s.step now .compress = s by simp [Sys.step, hd]]; exact h⟩

theorem round {now : Int64} {s' : Sys} (hr : Round now s s') : ∃ ds' m', Logged s' ds' m' := by
  cases hr with
  | call i => obtain ⟨m', h'⟩ := h.call now i; exact ⟨ds, m', h'⟩
  | write => obtain ⟨ds', h'⟩ := h.write now; exact ⟨ds', m, h'⟩
  | compress hq => obtain ⟨ds', h'⟩ := h.compress now hq; exact ⟨ds', m, h'⟩

/-- A faithful log reopens to the live table's values. -/
theorem reopen (xxhash : Bytes → UInt64) (numCPU multiplier now' : Int64) (k : Bytes) :
    ((newHashMap xxhash numCPU multiplier now' (s.hm.close s.file)).lookup k).map Prod.fst =
      (s.hm.lookup k).map Prod.fst := by
  have hfile : s.hm.close s.file = ((ds ++ s.hm.com).map writeFrame).flatten := by
    rw [HashMap.close, h.file, List.map_append, List.flatten_append]
  have hinit : (HashMap.init xxhash numCPU multiplier now').Refines ∅ :=
    ⟨HashMap.inv_init xxhash numCPU multiplier now', fun k => by simp⟩
  rw [lookup_newHashMap, hfile, replayAOF_flatten _ _ h.logFits,
    (hinit.foldl_applyRecord now' _).lookup_eq, h.refines.lookup_eq]
  exact (h.values k).symm

end Logged

end HydraKV.Store
