import HydraKV.Store.Logged
import HydraKV.Store.Expiry

/-! The expiry of a key after its table is reopened. The record `Set` sends
carries the ttl of the call, a number of seconds, and `ReplayAOF` replays it
as `Set(d.Ttl, ...)` at the clock second of the replay, so `addEntry` files the
key under the replay's second plus the ttl: the ttl restarts when the table is
reopened, however long ago the key was written. Later operations on other
keys keep the filing, since every `delEntry` they make is for their own key.
A compaction writes each entry of the snapshot as a `set` record with the
entry's `Ttl`, which is the same relative ttl, so the expiry restarts at the
replay after a compaction too. -/

namespace HydraKV.Store

open Go AOF TTLManager

namespace HashMap

variable {hm hm' hm'' : HashMap} {k : Bytes} {j : Nat} {sec : Int64}

/-! ### What every operation keeps -/

/-- `hm'` has the hash function of `hm`, and a TTL manager with its shards,
swept up to the same second. -/
structure Keeps (hm hm' : HashMap) : Prop where
  xxhash : hm'.xxhash = hm.xxhash
  shards : SameShards hm.ttlManager hm'.ttlManager

theorem Keeps.refl (hm : HashMap) : Keeps hm hm := ⟨rfl, .refl _⟩

theorem Keeps.trans (h : Keeps hm hm') (h' : Keeps hm' hm'') : Keeps hm hm'' :=
  ⟨h'.xxhash.trans h.xxhash, h.shards.trans h'.shards⟩

theorem Keeps.enqueue (h : Keeps hm hm') {d : Data} : Keeps hm (hm'.enqueue d) :=
  ⟨by rw [enqueue_xxhash]; exact h.xxhash, by rw [enqueue_ttlManager]; exact h.shards⟩

section Branches

variable {now ttl : Int64} {i : Nat} {item : Entry} {value : Bytes}

theorem keeps_updateItem : Keeps hm (hm.updateItem now i item value ttl) := by
  refine ⟨rfl, ?_⟩
  rw [updateItem_ttlManager]
  split_ifs
  · exact sameShards_delEntry.trans sameShards_addEntry
  · exact sameShards_addEntry

theorem keeps_insertItem {e : Entry} : Keeps hm (hm.insertItem now i e) := ⟨rfl, sameShards_addEntry⟩

theorem keeps_removeItem : Keeps hm (hm.removeItem i item) := ⟨rfl, sameShards_delEntry⟩

end Branches

theorem keeps_step (now : Int64) (op : Op) : Keeps hm (hm.step now op).2 := by
  have he {d : Data} : Keeps hm (hm.enqueue d) := (Keeps.refl hm).enqueue
  cases op with
  | set ttl key value =>
    simp only [step, set, setLocked, enqueue_getIndex, enqueue_basket]
    split
    · exact he.trans keeps_updateItem
    · exact he.trans keeps_insertItem
  | del key =>
    simp only [step, del, delLocked, enqueue_getIndex, enqueue_basket]
    split_ifs
    · exact he
    · split
      · exact he.trans keeps_removeItem
      · exact he
  | incr ttl key amount =>
    simp only [step, incr, incrLocked, enqueue_getIndex, enqueue_basket]
    split
    · split
      · exact he.trans keeps_updateItem
      · exact he
    · exact he.trans keeps_insertItem
  | checkResize =>
    unfold step checkResize checkNewBasket
    split_ifs
    · exact ⟨rfl, .refl _⟩
    · exact .refl hm
  | get | getAllEntriesAndCompress => exact .refl hm

theorem keeps_run (ops : List (Int64 × Op)) : Keeps hm (hm.run ops).2 := by
  induction ops generalizing hm with
  | nil => exact .refl hm
  | cons x ops ih => exact (keeps_step x.1 x.2).trans ih

theorem run_append (ops ops' : List (Int64 × Op)) :
    (hm.run (ops ++ ops')).2 = ((hm.run ops).2.run ops').2 := by
  induction ops generalizing hm with
  | nil => rfl
  | cons x ops ih => exact ih

/-! ### Operations on other keys -/

/-- `Incr` keeps the filings of every other key. -/
theorem mem_bucket_incr_of_ne {key amount : Bytes} {now ttl : Int64}
    (hk : k ∈ hm.ttlManager.bucket j sec) (hne : k ≠ key) :
    k ∈ (hm.incr now ttl key amount).2.ttlManager.bucket j sec := by
  simp only [incr, incrLocked, enqueue_getIndex, enqueue_basket]
  split
  · rename_i item hfk
    split
    · rw [updateItem_ttlManager, enqueue_ttlManager]
      have hdel : k ≠ item.key := by rw [(findKey_some hfk).2]; exact hne
      split_ifs
      · exact mem_bucket_addEntry (mem_bucket_delEntry hk (.inl hdel))
      · exact mem_bucket_addEntry hk
    · simpa using hk
  · rw [insertItem_ttlManager, enqueue_ttlManager]
    exact mem_bucket_addEntry hk

/-- An operation that sends no record for `k` keeps every filing of `k`. -/
theorem mem_bucket_step (hk : k ∈ hm.ttlManager.bucket j sec) (now : Int64) {op : Op}
    (hne : ∀ d ∈ op.record, d.key ≠ k) : k ∈ (hm.step now op).2.ttlManager.bucket j sec := by
  cases op with
  | set ttl key value =>
    exact mem_bucket_set_of_mem hk fun _ _ hkk => absurd hkk.symm (hne _ rfl)
  | del key => exact mem_bucket_del_of_ne hk (hne _ rfl).symm
  | incr ttl key amount => exact mem_bucket_incr_of_ne hk (hne _ rfl).symm
  | checkResize => unfold step checkResize checkNewBasket; split_ifs <;> exact hk
  | get | getAllEntriesAndCompress => exact hk

/-- `Set` files no key but its own, and that only under `now + ttl`. -/
theorem mem_bucket_of_mem_set {key value : Bytes} {now ttl : Int64}
    (hk : k ∈ (hm.set now ttl key value).2.ttlManager.bucket j sec) :
    k ∈ hm.ttlManager.bucket j sec ∨ (k = key ∧ sec = now + ttl) := by
  simp only [set, setLocked, enqueue_getIndex, enqueue_basket] at hk
  split at hk
  · rename_i item hfk
    rw [updateItem_ttlManager, enqueue_ttlManager] at hk
    rcases mem_bucket_of_mem_addEntry hk with hk | ⟨rfl, rfl⟩
    · split_ifs at hk
      · exact .inl (mem_bucket_of_mem_delEntry hk)
      · exact .inl hk
    · exact .inr ⟨(findKey_some hfk).2, rfl⟩
  · rw [insertItem_ttlManager, enqueue_ttlManager] at hk
    exact mem_bucket_of_mem_addEntry hk

theorem mem_bucket_run (hk : k ∈ hm.ttlManager.bucket j sec) {ops : List (Int64 × Op)}
    (hne : ∀ x ∈ ops, ∀ d ∈ x.2.record, d.key ≠ k) : k ∈ (hm.run ops).2.ttlManager.bucket j sec := by
  induction ops generalizing hm with
  | nil => exact hk
  | cons x ops ih =>
    exact ih (mem_bucket_step hk x.1 (hne x (List.mem_cons_self _ _)))
      fun y hy => hne y (List.mem_cons_of_mem _ hy)

end HashMap

namespace RefMap

variable {m : RefMap} {k : Bytes}

/-- An operation that sends no record for `k` keeps its binding. -/
theorem lookup_step_of_ne {op : Op} (hne : ∀ d ∈ op.record, d.key ≠ k) :
    (m.step op).2.lookup k = m.lookup k := by
  cases op with
  | set ttl key value => exact AList.lookup_insert_ne (hne _ rfl).symm
  | del key => exact AList.lookup_erase_ne (hne _ rfl).symm
  | incr ttl key amount =>
    simp only [step]
    split
    · split
      · exact AList.lookup_insert_ne (hne _ rfl).symm
      · rfl
    · exact AList.lookup_insert_ne (hne _ rfl).symm
  | get key => simp only [step]; split <;> rfl
  | checkResize | getAllEntriesAndCompress => rfl

theorem lookup_run_of_ne {ops : List Op} (hne : ∀ op ∈ ops, ∀ d ∈ op.record, d.key ≠ k) :
    (m.run ops).2.lookup k = m.lookup k := by
  induction ops generalizing m with
  | nil => rfl
  | cons op ops ih =>
    exact (ih fun o ho => hne o (List.mem_cons_of_mem _ ho)).trans
      (lookup_step_of_ne (hne op (List.mem_cons_self _ _)))

theorem run_append (ops ops' : List Op) : (m.run (ops ++ ops')).2 = ((m.run ops).2.run ops').2 := by
  induction ops generalizing m with
  | nil => rfl
  | cons op ops ih => exact ih

end RefMap

/-- A replayed operation sends a record for the key its operation sent one
for. -/
theorem Op.key_record_replayed {op op' : Op} (h : op.replayed = some op') {d : Data}
    (hd : d ∈ op'.record) : ∃ d' ∈ op.record, d'.key = d.key := by
  cases op <;> simp only [Op.replayed, Option.some.injEq, reduceCtorEq] at h <;> subst h <;>
    simp only [Op.record, Option.mem_def, Option.some.injEq] at hd <;> subst hd <;> exact ⟨_, rfl, rfl⟩

/-! ### The expiry of a reopened table -/

/-- The operations replayed for a run's records send no record for a key the
run's operations send none for. -/
theorem replayed_record_ne {l : List (Int64 × Op)} {k : Bytes} (hl : ∀ x ∈ l, ∀ d ∈ x.2.record, d.key ≠ k)
    (now' : Int64) : ∀ x ∈ (l.filterMap (·.2.replayed)).map (now', ·), ∀ d ∈ x.2.record, d.key ≠ k := by
  intro x hx d hd
  obtain ⟨op, hop, rfl⟩ := List.mem_map.mp hx
  obtain ⟨y, hy, hr⟩ := List.mem_filterMap.mp hop
  obtain ⟨d', hd', hk⟩ := Op.key_record_replayed hr hd
  exact hk ▸ hl y hy d' hd'

/-- A `Set(ttl, k, v)` at second `now'` on a table that refines a map,
followed by operations that send no record for `k`, leaves `k` with `v` and
`ttl`, filed under second `now' + ttl`. -/
theorem HashMap.Refines.set_refiles {hm : HashMap} {m : RefMap} (hr : hm.Refines m) (hw : hm.ttlManager.WF)
    {now' ttl : Int64} (ht : ttl.sle 0 = false) (hov : (now' + ttl).sle hm.ttlManager.lastDeleted = false)
    (k v : Bytes) {post : List (Int64 × Op)} (hpost : ∀ x ∈ post, ∀ d ∈ x.2.record, d.key ≠ k) :
    (hm.run ((now', .set ttl k v) :: post)).2.lookup k = some (v, ttl) ∧
      k ∈ (hm.run ((now', .set ttl k v) :: post)).2.ttlManager.bucket
        ((hm.run ((now', .set ttl k v) :: post)).2.ttlManager.shard (hm.xxhash k)) (now' + ttl) := by
  have hre := ((hr.step now' (.set ttl k v)).2.run post).2
  have hsh := (@HashMap.keeps_step hm now' (.set ttl k v)).trans (HashMap.keeps_run post)
  refine ⟨(hre.lookup_eq k).trans ((RefMap.lookup_run_of_ne fun op hop d hd => ?_).trans (AList.lookup_insert _)), ?_⟩
  · obtain ⟨x, hx, rfl⟩ := List.mem_map.mp hop
    exact hpost x hx d hd
  · show k ∈ ((hm.step now' (.set ttl k v)).2.run post).2.ttlManager.bucket
      (((hm.step now' (.set ttl k v)).2.run post).2.ttlManager.shard (hm.xxhash k)) (now' + ttl)
    rw [hsh.shards.shard_eq]
    exact HashMap.mem_bucket_run (HashMap.mem_bucket_set hr.inv hw ht hov) hpost

/-- On a new table at second `now'`, a run whose last operation with a record
for `k` is `Set(ttl, k, v)` at `now'` leaves `k` with `v` and `ttl`, filed
under second `now' + ttl`. -/
theorem init_run_set_refiles (xxhash : Bytes → UInt64) (numCPU multiplier now' ttl : Int64) (k v : Bytes)
    (pre post : List (Int64 × Op)) (hpost : ∀ x ∈ post, ∀ d ∈ x.2.record, d.key ≠ k)
    (hw : (newTTLManager numCPU multiplier now').WF) (ht : ttl.sle 0 = false) (hov : (now' + ttl).sle now' = false) :
    let hm := ((HashMap.init xxhash numCPU multiplier now').run (pre ++ (now', .set ttl k v) :: post)).2
    hm.lookup k = some (v, ttl) ∧ k ∈ hm.ttlManager.bucket (hm.ttlManager.shard (xxhash k)) (now' + ttl) := by
  have hpre := (HashMap.refines_init xxhash numCPU multiplier now').run pre
  have hkp := @HashMap.keeps_run (HashMap.init xxhash numCPU multiplier now') pre
  have h := hpre.2.set_refiles (hkp.shards.wf hw) ht (by rw [hkp.shards.lastDeleted]; exact hov) k v hpost
  rw [hkp.xxhash] at h
  rw [HashMap.run_append]
  exact h

/-- The table `NewHashMap` replays at second `now'` from the frames of the
records of a run whose last record for `k` is that of `Set(ttl, k, v)` holds
`k` with `v` and `ttl`, filed under second `now' + ttl`. -/
theorem newHashMap_records_refiles (xxhash : Bytes → UInt64) (numCPU multiplier now now' ttl : Int64)
    (k v : Bytes) (pre rest : List (Int64 × Op))
    (hfit : ∀ x ∈ pre ++ (now, .set ttl k v) :: rest, ∀ d ∈ x.2.record, d.Fits)
    (hrest : ∀ x ∈ rest, ∀ d ∈ x.2.record, d.key ≠ k)
    (hw : (newTTLManager numCPU multiplier now').WF) (ht : ttl.sle 0 = false) (hov : (now' + ttl).sle now' = false) :
    let hc := newHashMap xxhash numCPU multiplier now'
      (((pre ++ (now, .set ttl k v) :: rest).filterMap (·.2.record)).map writeFrame).flatten
    hc.lookup k = some (v, ttl) ∧ k ∈ hc.ttlManager.bucket (hc.ttlManager.shard (xxhash k)) (now' + ttl) := by
  have hfits : ∀ d ∈ (pre ++ (now, .set ttl k v) :: rest).filterMap (·.2.record), d.Fits := fun d hd => by
    obtain ⟨x, hx, hd⟩ := List.mem_filterMap.mp hd
    exact hfit x hx d hd
  have hr : (Op.set ttl k v).replayed = some (.set ttl k v) := rfl
  dsimp only
  rw [newHashMap, replayAOF_flatten _ _ hfits, HashMap.foldl_applyRecord]
  simp only [List.filterMap_append, List.filterMap_cons, hr, List.map_append, List.map_cons]
  exact init_run_set_refiles xxhash numCPU multiplier now' ttl k v _ _ (replayed_record_ne hrest now') hw ht hov

/-- A run on the reference map keeps every binding fitting when the records
of its operations fit. -/
theorem RefMap.Fits.run {m : RefMap} (h : m.Fits) {ops : List Op} (hops : ∀ op ∈ ops, ∀ d ∈ op.record, d.Fits) :
    (m.run ops).2.Fits := by
  induction ops generalizing m with
  | nil => exact h
  | cons op ops ih =>
    exact ih (h.step op (hops op (List.mem_cons_self _ _))) fun o ho => hops o (List.mem_cons_of_mem _ ho)

/-- Replaying a snapshot's records runs a `Set` of each entry, with the
entry's ttl, at the clock second of the replay. -/
theorem foldl_applyRecord_snapshot (now : Int64) (l : List AOFEntry) (hm : HashMap) :
    (l.map AOFEntry.toData).foldl (HashMap.applyRecord now) hm =
      (hm.run (l.map fun e => (now, .set e.ttl e.key e.value))).2 := by
  induction l generalizing hm with
  | nil => rfl
  | cons e l ih =>
    rw [List.map_cons, List.foldl_cons, show e.toData = ⟨actionSet, e.key, e.value, e.ttl⟩ from rfl,
      HashMap.applyRecord_set]
    exact ih _

/-- Take a key whose last write in a sequential run `pre`, `Set(ttl, k, v)`,
`mid` on a new live table over an empty log is that `Set`, with a positive
ttl, at any clock second, and let `post` follow. The table reopened at clock
second `now'` holds `k` with `v` and the same relative ttl, and files `k`
under second `now' + ttl`: when the table is closed directly after `post`,
and when `Loop` has written the queue after `mid` and taken its compaction
step (a compaction when one is due) before `post`. -/
theorem reopen_set_refiles (xxhash : Bytes → UInt64) (numCPU multiplier now now' ttl : Int64)
    (k v : Bytes) (pre mid post : List (Int64 × Op))
    (hfit : ∀ x ∈ pre ++ (now, .set ttl k v) :: (mid ++ post), ∀ d ∈ x.2.record, d.Fits)
    (hrest : ∀ x ∈ mid ++ post, ∀ d ∈ x.2.record, d.key ≠ k)
    (hw : (newTTLManager numCPU multiplier now').WF) (ht : ttl.sle 0 = false)
    (hov : (now' + ttl).sle now' = false) :
    let hm := ((newHashMap xxhash numCPU multiplier now []).run (pre ++ (now, .set ttl k v) :: mid)).2
    let s := (Sys.mk [] { hm with com := [] } (hm.com.map writeFrame).flatten).step now .compress
    let direct := newHashMap xxhash numCPU multiplier now' ((hm.run post).2.close [])
    let compacted := newHashMap xxhash numCPU multiplier now' ((s.hm.run post).2.close s.file)
    (direct.lookup k = some (v, ttl) ∧
      k ∈ direct.ttlManager.bucket (direct.ttlManager.shard (xxhash k)) (now' + ttl)) ∧
    (compacted.lookup k = some (v, ttl) ∧
      k ∈ compacted.ttlManager.bucket (compacted.ttlManager.shard (xxhash k)) (now' + ttl)) := by
  intro hm s
  dsimp only
  obtain ⟨hcom, hlive⟩ := @HashMap.run_com (newHashMap xxhash numCPU multiplier now [])
    (pre ++ (now, .set ttl k v) :: mid) (by rw [newHashMap_nil])
  have hcom' : hm.com = (pre ++ (now, .set ttl k v) :: mid).filterMap (·.2.record) := by
    rw [hcom, newHashMap_nil]; rfl
  have hall : (pre ++ (now, .set ttl k v) :: mid) ++ post = pre ++ (now, .set ttl k v) :: (mid ++ post) := by simp
  have hrec := newHashMap_records_refiles xxhash numCPU multiplier now now' ttl k v pre (mid ++ post) hfit hrest hw ht
    hov
  -- `post` on a table with an empty queue adds the frames of its records to the file
  have hclose (hm₀ : HashMap) (h₀ : hm₀.com = []) (hl₀ : hm₀.reset = false) (f : Bytes) :
      (hm₀.run post).2.close f = f ++ ((post.filterMap (·.2.record)).map writeFrame).flatten := by
    rw [HashMap.close, (HashMap.run_com post hl₀).1, h₀, List.nil_append]
  have hwhole : (hm.com.map writeFrame).flatten ++ ((post.filterMap (·.2.record)).map writeFrame).flatten =
      (((pre ++ (now, .set ttl k v) :: (mid ++ post)).filterMap (·.2.record)).map writeFrame).flatten := by
    rw [← List.flatten_append, ← List.map_append, hcom', ← List.filterMap_append, hall]
  refine ⟨?_, ?_⟩
  · rw [HashMap.close, (HashMap.run_com post hlive).1, List.nil_append, List.map_append, List.flatten_append, hwhole]
    exact hrec
  by_cases hd : ({ hm with com := [] } : HashMap).compressDue = true
  · -- a compaction: the file is the snapshot, each entry a `set` record with its ttl
    have hs : s = ⟨[], { hm with com := [], deletedEntries := 0 },
        (hm.getAllEntriesAndCompress.map compressedFrame).flatten⟩ := if_pos hd
    have hr₁ := ((refines_newHashMap xxhash numCPU multiplier now).run (pre ++ (now, .set ttl k v) :: mid)).2
    set m₁ := (RefMap.run ∅ ((pre ++ (now, .set ttl k v) :: mid).map Prod.snd)).2
    have hlk : m₁.lookup k = some (v, ttl) := by
      simp only [m₁, List.map_append, List.map_cons, RefMap.run_append]
      refine (@RefMap.lookup_run_of_ne ((RefMap.run ∅ (pre.map Prod.snd)).2.step (.set ttl k v)).2 k
        (mid.map Prod.snd) fun op hop d hd => ?_).trans (AList.lookup_insert _)
      obtain ⟨x, hx, rfl⟩ := List.mem_map.mp hop
      exact hrest x (List.mem_append_left _ hx) d hd
    have hm₁ : m₁.Fits := RefMap.Fits.run (fun _ _ _ h => by cases h) fun op hop d hd => by
      obtain ⟨x, hx, rfl⟩ := List.mem_map.mp hop
      exact hfit x (by rw [← hall]; exact List.mem_append_left _ hx) d hd
    have hfits : ∀ d ∈ hm.getAllEntriesAndCompress.map AOFEntry.toData ++ post.filterMap (·.2.record), d.Fits := by
      intro d hd
      rcases List.mem_append.mp hd with hd | hd
      · obtain ⟨e, he, rfl⟩ := List.mem_map.mp hd
        obtain ⟨hk, hv⟩ := hm₁ _ _ _ (hr₁.lookup_of_mem_snapshot he)
        exact ⟨show actionSet.length < 2 ^ 32 by decide, hk, hv⟩
      · obtain ⟨x, hx, hd⟩ := List.mem_filterMap.mp hd
        exact hfit x (List.mem_append_right _ (.tail _ (List.mem_append_right _ hx))) d hd
    have he : (⟨k, v, ttl⟩ : AOFEntry) ∈ hm.getAllEntriesAndCompress :=
      hr₁.snapshot_perm.symm.subset (List.mem_map.mpr ⟨⟨k, (v, ttl)⟩, AList.mem_lookup_iff.mp hlk, rfl⟩)
    have hnd : (hm.getAllEntriesAndCompress.map AOFEntry.key).Nodup :=
      ((hr₁.snapshot_perm.map _).nodup_iff).mpr
        (by simpa [List.map_map, Function.comp_def, RefMap.toAOFEntry] using m₁.keys_nodup)
    obtain ⟨l₁, l₂, hsplit⟩ := List.append_of_mem he
    rw [hsplit, List.map_append, List.map_cons] at hnd
    have hk₂ : k ∉ l₂.map AOFEntry.key := (List.nodup_cons.mp (List.nodup_append.mp hnd).2.1).1
    have hpost : ∀ x ∈ l₂.map (fun e => (now', Op.set e.ttl e.key e.value)) ++
        (post.filterMap (·.2.replayed)).map (now', ·), ∀ d ∈ x.2.record, d.key ≠ k := by
      intro x hx d hd
      rcases List.mem_append.mp hx with hx | hx
      · obtain ⟨e, he, rfl⟩ := List.mem_map.mp hx
        cases hd
        exact fun h => hk₂ (h ▸ List.mem_map_of_mem _ he)
      · exact replayed_record_ne (fun x hx => hrest x (List.mem_append_right _ hx)) now' x hx d hd
    rw [hs]
    dsimp only
    rw [hclose { hm with com := [], deletedEntries := 0 } rfl hlive, show (hm.getAllEntriesAndCompress.map compressedFrame).flatten ++
        ((post.filterMap (·.2.record)).map writeFrame).flatten =
        ((hm.getAllEntriesAndCompress.map AOFEntry.toData ++ post.filterMap (·.2.record)).map writeFrame).flatten by
      rw [List.map_append, List.flatten_append, List.map_map]; rfl,
      newHashMap, replayAOF_flatten _ _ hfits, List.foldl_append, foldl_applyRecord_snapshot,
      HashMap.foldl_applyRecord, ← HashMap.run_append, hsplit, List.map_append, List.map_cons, List.append_assoc,
      List.cons_append]
    exact init_run_set_refiles xxhash numCPU multiplier now' ttl k v _ _ hpost hw ht hov
  · -- no compaction: the file holds the run's records, as when it is closed directly
    have hs : s = ⟨[], { hm with com := [] }, (hm.com.map writeFrame).flatten⟩ := if_neg hd
    rw [hs]
    dsimp only
    rw [hclose { hm with com := [] } rfl hlive, hwhole]
    exact hrec

/-- Any one instance: set at second 1000, reopened at second 1005, directly
or after a compaction: `k` is filed under 1015. -/
theorem reopen_set_refiles_witness :
    let hm := ((newHashMap (fun _ => 0) 4 16 1000 []).run ([] ++ (1000, .set 10 [107] [118]) :: [])).2
    let s := (Sys.mk [] { hm with com := [] } (hm.com.map writeFrame).flatten).step 1000 .compress
    let direct := newHashMap (fun _ => 0) 4 16 1005 ((hm.run []).2.close [])
    let compacted := newHashMap (fun _ => 0) 4 16 1005 ((s.hm.run []).2.close s.file)
    (direct.lookup [107] = some ([118], 10) ∧
      [107] ∈ direct.ttlManager.bucket (direct.ttlManager.shard 0) (1005 + 10)) ∧
    (compacted.lookup [107] = some ([118], 10) ∧
      [107] ∈ compacted.ttlManager.bucket (compacted.ttlManager.shard 0) (1005 + 10)) :=
  reopen_set_refiles (fun _ => 0) 4 16 1000 1005 10 [107] [118] [] [] [] (by decide) (by simp)
    ⟨by decide, by decide⟩ (by decide) (by decide)

/-- `Set(10, "k", "v")` at second 1000 on a new table, closed and reopened at
second 1005: `k` holds `v` with ttl 10 and is filed under second 1015, and
under second 1010 in no shard. -/
theorem reopen_set_expiry_restarts :
    let hm := newHashMap (fun _ => 0) 4 16 1005
      (((newHashMap (fun _ => 0) 4 16 1000 []).run [(1000, .set 10 [107] [118])]).2.close [])
    hm.lookup [107] = some ([118], 10) ∧ [107] ∈ hm.ttlManager.bucket 0 1015 ∧
      ∀ i, [107] ∉ hm.ttlManager.bucket i 1010 := by
  dsimp only
  rw [reopen_eq _ _ _ _ _ _ (by decide)]
  have hi := HashMap.inv_init (fun _ => 0) 4 16 1005
  have hmem : [107] ∈ ((HashMap.init (fun _ => 0) 4 16 1005).set 1005 10 [107] [118]).2.ttlManager.bucket
      ((HashMap.init (fun _ => 0) 4 16 1005).ttlManager.shard 0) (1005 + 10) :=
    HashMap.mem_bucket_set hi ⟨by decide, by decide⟩ (by decide) (by decide)
  refine ⟨((hi.set_spec 1005 10 [107] [118]).2.2 [107]).trans (if_pos rfl), hmem, fun i hk => ?_⟩
  have hk : [107] ∈ ((HashMap.init (fun _ => 0) 4 16 1005).set 1005 10 [107] [118]).2.ttlManager.bucket
      i 1010 := hk
  rcases HashMap.mem_bucket_of_mem_set hk with hk | ⟨-, h⟩
  · rw [show (HashMap.init (fun _ => 0) 4 16 1005).ttlManager = newTTLManager 4 16 1005 from rfl,
      bucket_newTTLManager] at hk
    exact List.not_mem_nil _ hk
  · exact absurd h (by decide)

end HydraKV.Store
