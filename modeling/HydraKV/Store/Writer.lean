import HydraKV.Store.Durability

/-! Concurrent mutations of one table and its log writer `Loop`. A mutation
takes two steps: it sends its record on `Aof.com` before it takes any lock,
then runs its locked part under the global read lock and its basket's write
lock. `Loop` either takes the oldest record off the queue and appends its
frame to the file, or, when the table's resize loop asks for a compaction,
replaces the file with a snapshot of the table taken under the global write
lock. The resize loop's check and the snapshot are one step here, which only
removes interleavings. The queue's capacity of 100000 records, the
compaction's temporary file and the file's buffering are left out. Two `Set`s
of one key whose locked parts run in the other order than their sends leave
the table with the first value and the log with the second. -/

namespace HydraKV.Store

open Go AOF

/-- A table mutation. -/
inductive Mutation
  | set (ttl : Int64) (key value : Bytes)
  | incr (ttl : Int64) (key amount : Bytes)
  | del (key : Bytes)

namespace Mutation

/-- The record the mutation sends. -/
def data : Mutation → Data
  | .set ttl key value => ⟨actionSet, key, value, ttl⟩
  | .incr _ key amount => ⟨actionIncr, key, amount, 0⟩
  | .del key => ⟨actionDel, key, [], 0⟩

/-- The mutation's part under the locks, at clock second `now`. -/
def locked (now : Int64) : Mutation → HashMap → Bool × HashMap
  | .set ttl key value => HashMap.setLocked now ttl key value
  | .incr ttl key amount => HashMap.incrLocked now ttl key amount
  | .del key => HashMap.delLocked key

/-- The mutation as one call of the table. -/
def run (now : Int64) : Mutation → HashMap → Bool × HashMap
  | .set ttl key value => HashMap.set now ttl key value
  | .incr ttl key amount => HashMap.incr now ttl key amount
  | .del key => HashMap.del key

/-- A call is its send followed by its locked part. -/
theorem run_eq (now : Int64) (m : Mutation) (hm : HashMap) :
    m.run now hm = m.locked now (hm.enqueue m.data) := by
  cases m <;> rfl

end Mutation

namespace HashMap

variable {hm : HashMap}

theorem lookup_com (l : List Data) (k : Bytes) : { hm with com := l }.lookup k = hm.lookup k := rfl

/-- The resize loop asks `Loop` for a compaction when
`(entries > 2 || deleted > 2) && deleted >= int64(entries)/2`. -/
def compressDue (hm : HashMap) : Bool :=
  (2 < hm.entries || BitVec.slt 2 hm.deletedEntries) && BitVec.sle (hm.getEntries.sdiv 2) hm.deletedEntries

end HashMap

/-- Where a mutation call is: before its send, after it, or returned. -/
inductive MutationPc
  | start
  | sent
  | done (ok : Bool)
  deriving DecidableEq

/-- A mutation call. -/
structure MutationCall where
  mutation : Mutation
  pc : MutationPc

/-- The calls, the table with its queue `Aof.com`, and the log file's bytes. -/
structure Sys where
  calls : List MutationCall
  hm : HashMap
  file : Bytes

/-- The atomic steps: call `i` sends its record or runs its locked part, or
`Loop` writes one record or compacts the file. -/
inductive Event
  | send (i : Nat)
  | apply (i : Nat)
  | write
  | compress

namespace Sys

/-- One step at clock second `now`; a step that cannot run changes nothing. -/
def step (now : Int64) (s : Sys) : Event → Sys
  | .send i =>
    match s.calls[i]? with
    | some ⟨m, .start⟩ => { s with calls := s.calls.set i ⟨m, .sent⟩, hm := s.hm.enqueue m.data }
    | _ => s
  | .apply i =>
    match s.calls[i]? with
    | some ⟨m, .sent⟩ =>
      { s with calls := s.calls.set i ⟨m, .done (m.locked now s.hm).1⟩, hm := (m.locked now s.hm).2 }
    | _ => s
  | .write =>
    match s.hm.com with
    | d :: ds => { s with hm := { s.hm with com := ds }, file := s.file ++ writeFrame d }
    | [] => s
  | .compress =>
    if s.hm.compressDue then
      { s with
        hm := { s.hm with deletedEntries := 0 }
        file := (s.hm.getAllEntriesAndCompress.map compressedFrame).flatten }
    else s

/-- A run of steps. -/
def run (now : Int64) (s : Sys) (es : List Event) : Sys := es.foldl (step now) s

end Sys

/-! ### Reordered writes -/

section Reorder

variable {hm : HashMap}

/-- Two `Set`s of key `k` on a live table with an empty queue: when both
records are sent before either locked part runs, and the second call's locked
part runs first, the table keeps the first value while the log holds the
first record, then the second. -/
theorem run_sets_reordered (now : Int64) (file k v₀ v₁ : Bytes) (t₀ t₁ : Int64) (hi : hm.Inv) (hlive : hm.reset = false) (hcom : hm.com = []) :
    let s := (Sys.mk [⟨.set t₀ k v₀, .start⟩, ⟨.set t₁ k v₁, .start⟩] hm file).run now
      [.send 0, .send 1, .apply 1, .apply 0, .write, .write]
    s.calls.map MutationCall.pc = [.done true, .done true] ∧ s.hm.com = [] ∧
      s.hm.lookup k = some (v₀, t₀) ∧
      s.file = file ++ writeFrame ⟨actionSet, k, v₀, t₀⟩ ++ writeFrame ⟨actionSet, k, v₁, t₁⟩ := by
  have he₀ : hm.enqueue ⟨actionSet, k, v₀, t₀⟩ = { hm with com := [⟨actionSet, k, v₀, t₀⟩] } := by
    simp [HashMap.enqueue, hlive, hcom]
  have he₁ : ({ hm with com := [⟨actionSet, k, v₀, t₀⟩] } : HashMap).enqueue ⟨actionSet, k, v₁, t₁⟩ =
      { hm with com := [⟨actionSet, k, v₀, t₀⟩, ⟨actionSet, k, v₁, t₁⟩] } := by
    simp [HashMap.enqueue, hlive]
  have hi₂ : HashMap.Inv { hm with com := [⟨actionSet, k, v₀, t₀⟩, ⟨actionSet, k, v₁, t₁⟩] } :=
    hi.congr rfl rfl rfl rfl
  obtain ⟨o₁, hi₃, -⟩ := hi₂.setLocked_spec now t₁ k v₁
  obtain ⟨o₀, -, hl₄⟩ := hi₃.setLocked_spec now t₀ k v₀
  simp [Sys.run, Sys.step, Mutation.data, Mutation.locked, he₀, he₁, HashMap.lookup_com, o₀, o₁, hl₄]

end Reorder

/-- Two concurrent `Set`s of `k` on a new live table over an empty log, the
second call's locked part first: when the queue is drained and every call has
returned, the table holds `"1"` while the table reopened from the log holds
`"2"`. -/
theorem log_reorders_sets (xxhash : Bytes → UInt64) (numCPU multiplier now now' : Int64) :
    let s := (Sys.mk [⟨.set 0 (ofString "k") (ofString "1"), .start⟩,
        ⟨.set 0 (ofString "k") (ofString "2"), .start⟩] (newHashMap xxhash numCPU multiplier now []) []).run
      now [.send 0, .send 1, .apply 1, .apply 0, .write, .write]
    s.calls.map MutationCall.pc = [.done true, .done true] ∧ s.hm.com = [] ∧
      s.hm.lookup (ofString "k") = some (ofString "1", 0) ∧
      (newHashMap xxhash numCPU multiplier now' s.file).lookup (ofString "k") = some (ofString "2", 0) := by
  have hnew := newHashMap_nil xxhash numCPU multiplier now
  obtain ⟨h₁, h₂, h₃, h₄⟩ := run_sets_reordered now [] (ofString "k") (ofString "1") (ofString "2") 0 0
    (inv_newHashMap_nil xxhash numCPU multiplier now) (by rw [hnew]) (by rw [hnew]; rfl)
  refine ⟨h₁, h₂, h₃, ?_⟩
  obtain ⟨-, hi₁, -⟩ := (HashMap.inv_init xxhash numCPU multiplier now').set_spec now' 0 (ofString "k")
    (ofString "1")
  obtain ⟨-, -, hl₂⟩ := hi₁.set_spec now' 0 (ofString "k") (ofString "2")
  have hfile : [] ++ writeFrame ⟨actionSet, ofString "k", ofString "1", 0⟩ ++
      writeFrame ⟨actionSet, ofString "k", ofString "2", 0⟩ =
      ([⟨actionSet, ofString "k", ofString "1", 0⟩, ⟨actionSet, ofString "k", ofString "2", 0⟩].map
        writeFrame).flatten := by simp
  rw [h₄, lookup_newHashMap, hfile, replayAOF_flatten _ _ (by decide), List.foldl_cons, List.foldl_cons,
    List.foldl_nil, HashMap.applyRecord_set, HashMap.applyRecord_set, hl₂, if_pos rfl]

end HydraKV.Store
