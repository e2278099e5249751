import HydraKV.Store.Chain

/-! The expiry manager of one table (`ttl_manager.go`). Each shard maps an
expiry second to the keys filed under it; a shard's map of
`map[int64]map[string]*Entry` is a function from seconds to key lists, the
bucket of a second being absent when its list is empty. The callback only
reads an entry's key, so the buckets hold keys. The clock reading
`time.Now().Unix()` is the argument `now`. -/

namespace HydraKV.Store

open Go

/-- One shard's buckets: the keys filed under each second. -/
abbrev Buckets := Int64 → List Bytes

/-- `TTLManager`: its shards, the last second swept, and the shard count. -/
structure TTLManager where
  list : List Buckets
  lastDeleted : Int64
  numShards : Int64

/-- The number of significant bits of `x`, found by at most `n` halvings. -/
def bitLen : Nat → Nat → Nat
  | 0, _ => 0
  | n + 1, x => if x = 0 then 0 else bitLen n (x / 2) + 1

/-- `bits.Len64`: sixty-four halvings bring a `uint64` to zero. -/
def len64 (x : UInt64) : Nat := bitLen 64 x.toNat

/-- `LowerPowerOfTwo`: 2 up to two shards, else `1 << bits.Len64(shards - 1)`,
a `uint64` shift that is zero at 64. -/
def lowerPowerOfTwo (shards : UInt64) : UInt64 :=
  if shards ≤ 2 then 2 else UInt64.ofNat (2 ^ len64 (shards - 1))

/-- `uint64(runtime.NumCPU() * CPU_MULTIPLIER)`, with Go's wrapping `int`
product. -/
def cpuProduct (numCPU multiplier : Int64) : UInt64 := UInt64.ofNat (numCPU * multiplier).toNat

/-- `NewTTLManager` at clock second `now`: `numShards` empty shards, swept up
to `now`. -/
def newTTLManager (numCPU multiplier now : Int64) : TTLManager :=
  let numShards : Int64 := BitVec.ofNat 64 (lowerPowerOfTwo (cpuProduct numCPU multiplier)).toNat
  ⟨List.replicate numShards.toInt.toNat (fun _ => []), now, numShards⟩

namespace TTLManager

/-- The shard of a hash: `entry.Hash & uint64(numShards-1)`. -/
def shard (t : TTLManager) (h : UInt64) : Nat := (h &&& UInt64.ofNat (t.numShards - 1).toNat).toNat

/-- Apply `f` to the bucket of second `sec` in shard `i`. -/
def modifyBucket (i : Nat) (sec : Int64) (f : List Bytes → List Bytes) (t : TTLManager) :
    TTLManager :=
  { t with list := t.list.modify (fun b s => if s = sec then f (b s) else b s) i }

/-- The keys in the bucket of second `sec` of shard `i`. -/
def bucket (t : TTLManager) (i : Nat) (sec : Int64) : List Bytes := (t.list.getD i fun _ => []) sec

/-- `addEntry` at clock second `now`: nothing for a ttl of at most zero, nor
when `now + ttl` has already been swept; otherwise the key is filed under
second `now + ttl` of its shard. -/
def addEntry (now : Int64) (e : Entry) (t : TTLManager) : TTLManager :=
  if e.ttl.sle 0 then t
  else
    let future := now + e.ttl
    if future.sle t.lastDeleted then t
    else t.modifyBucket (t.shard e.hash) future (List.insert e.key)

/-- `delEntry(entry, ttl)`: the key leaves the bucket of second `ttl` of its
shard. -/
def delEntry (e : Entry) (ttl : Int64) (t : TTLManager) : TTLManager :=
  t.modifyBucket (t.shard e.hash) ttl (·.erase e.key)

/-- The step of `delEntries` for one shard and second: the bucket's keys, and
the shard without the bucket. -/
def takeBucket (i : Nat) (sec : Int64) (t : TTLManager) : List Bytes × TTLManager :=
  (t.bucket i sec, t.modifyBucket i sec fun _ => [])

/-! ### Buckets -/

/-- The shard list has `numShards` entries, at least one. -/
structure WF (t : TTLManager) : Prop where
  pos : 0 < t.numShards.toNat
  length : t.list.length = t.numShards.toNat

variable {t : TTLManager} {i j : Nat} {sec s now : Int64} {f : List Bytes → List Bytes}
  {k : Bytes} {e : Entry}

@[simp] theorem modifyBucket_length : (t.modifyBucket i sec f).list.length = t.list.length :=
  List.length_modify ..

@[simp] theorem modifyBucket_lastDeleted : (t.modifyBucket i sec f).lastDeleted = t.lastDeleted :=
  rfl

@[simp] theorem modifyBucket_numShards : (t.modifyBucket i sec f).numShards = t.numShards := rfl

@[simp] theorem addEntry_lastDeleted : (t.addEntry now e).lastDeleted = t.lastDeleted := by
  simp only [addEntry]; split_ifs <;> rfl

@[simp] theorem delEntry_lastDeleted : (t.delEntry e sec).lastDeleted = t.lastDeleted := rfl

theorem WF.modifyBucket (hw : t.WF) : (t.modifyBucket i sec f).WF :=
  ⟨hw.pos, by rw [modifyBucket_length, hw.length]; rfl⟩

theorem WF.shard_lt (hw : t.WF) (h : UInt64) : t.shard h < t.list.length := by
  have hm : (t.numShards - 1).toNat = t.numShards.toNat - 1 :=
    BitVec.toNat_sub_of_le (by rw [BitVec.le_def]; have := hw.pos; simp; omega)
  have hlt : (UInt64.ofNat (t.numShards - 1).toNat).toNat < t.numShards.toNat := by
    rw [UInt64.toNat_ofNat_of_lt (by have := t.numShards.isLt; rw [hm]; exact Nat.lt_of_le_of_lt (Nat.sub_le _ _) this), hm]
    have := hw.pos; omega
  rw [hw.length, shard, UInt64.and_toNat]
  exact Nat.lt_of_le_of_lt Nat.and_le_right hlt

/-- `t'` has the shards of `t` and is swept up to the same second. -/
structure SameShards (t t' : TTLManager) : Prop where
  length : t'.list.length = t.list.length
  lastDeleted : t'.lastDeleted = t.lastDeleted
  numShards : t'.numShards = t.numShards

theorem SameShards.refl (t : TTLManager) : SameShards t t := ⟨rfl, rfl, rfl⟩

theorem SameShards.trans {t' t'' : TTLManager} (h : SameShards t t') (h' : SameShards t' t'') :
    SameShards t t'' :=
  ⟨h'.length.trans h.length, h'.lastDeleted.trans h.lastDeleted, h'.numShards.trans h.numShards⟩

theorem sameShards_modifyBucket : SameShards t (t.modifyBucket i sec f) := ⟨modifyBucket_length, rfl, rfl⟩

theorem sameShards_addEntry : SameShards t (t.addEntry now e) := by
  simp only [addEntry]
  split_ifs
  · exact .refl t
  · exact .refl t
  · exact sameShards_modifyBucket

theorem sameShards_delEntry : SameShards t (t.delEntry e sec) := sameShards_modifyBucket

theorem SameShards.wf {t' : TTLManager} (h : SameShards t t') (hw : t.WF) : t'.WF :=
  ⟨h.numShards ▸ hw.pos, by rw [h.length, hw.length, h.numShards]⟩

theorem SameShards.shard_eq {t' : TTLManager} (h : SameShards t t') (x : UInt64) :
    t'.shard x = t.shard x := by
  rw [shard, h.numShards]; rfl

/-- A new manager's buckets are all empty. -/
@[simp] theorem bucket_newTTLManager (numCPU multiplier now : Int64) :
    (newTTLManager numCPU multiplier now).bucket j s = [] := by
  simp only [bucket, newTTLManager, List.getD_eq_getElem?_getD, List.getElem?_replicate]
  split <;> rfl

theorem lt_length_of_mem_bucket (hk : k ∈ t.bucket j s) : j < t.list.length := by
  by_contra hj
  simp [bucket, List.getD_eq_getElem?_getD, List.getElem?_eq_none (Nat.le_of_not_lt hj)] at hk

theorem bucket_modifyBucket_self (hi : i < t.list.length) :
    (t.modifyBucket i sec f).bucket i sec = f (t.bucket i sec) := by
  simp [bucket, modifyBucket, List.getD_eq_getElem?_getD, List.getElem?_eq_getElem hi]

theorem bucket_modifyBucket_of_ne (h : j ≠ i ∨ s ≠ sec) :
    (t.modifyBucket i sec f).bucket j s = t.bucket j s := by
  simp only [bucket, modifyBucket, List.getD_eq_getElem?_getD]
  by_cases hj : i = j
  · subst hj
    rw [List.getElem?_modify_eq]
    cases t.list[i]? <;> simp [h.resolve_left (not_not.mpr rfl)]
  · rw [List.getElem?_modify_ne _ _ hj]

/-- A change of one bucket that keeps `k` keeps it in every bucket. -/
theorem mem_bucket_modifyBucket (hf : ∀ l, k ∈ l → k ∈ f l) (hk : k ∈ t.bucket j s) :
    k ∈ (t.modifyBucket i sec f).bucket j s := by
  by_cases h : j = i ∧ s = sec
  · obtain ⟨rfl, rfl⟩ := h
    by_cases hi : j < t.list.length
    · rw [bucket_modifyBucket_self hi]; exact hf _ hk
    · rwa [modifyBucket, List.modify_eq_self (Nat.le_of_not_lt hi)]
  · rw [bucket_modifyBucket_of_ne (not_and_or.mp h)]; exact hk

/-- A change of one bucket changes no other. -/
theorem mem_bucket_of_mem_modifyBucket (hk : k ∈ (t.modifyBucket i sec f).bucket j s) :
    k ∈ t.bucket j s ∨ (j = i ∧ s = sec ∧ k ∈ f (t.bucket j s)) := by
  by_cases h : j = i ∧ s = sec
  · obtain ⟨rfl, rfl⟩ := h
    by_cases hi : j < t.list.length
    · rw [bucket_modifyBucket_self hi] at hk; exact .inr ⟨rfl, rfl, hk⟩
    · rw [modifyBucket, List.modify_eq_self (Nat.le_of_not_lt hi)] at hk; exact .inl hk
  · rw [bucket_modifyBucket_of_ne (not_and_or.mp h)] at hk; exact .inl hk

/-- `addEntry` files no key but its own, and that only under `now + ttl`. -/
theorem mem_bucket_of_mem_addEntry (hk : k ∈ (t.addEntry now e).bucket j s) :
    k ∈ t.bucket j s ∨ (k = e.key ∧ s = now + e.ttl) := by
  simp only [addEntry] at hk
  split_ifs at hk
  · exact .inl hk
  · exact .inl hk
  · rcases mem_bucket_of_mem_modifyBucket hk with hk | ⟨-, rfl, hi⟩
    · exact .inl hk
    · exact (List.mem_insert_iff.mp hi).symm.imp_right fun h => ⟨h, rfl⟩

/-- `delEntry` files nothing. -/
theorem mem_bucket_of_mem_delEntry (hk : k ∈ (t.delEntry e sec).bucket j s) : k ∈ t.bucket j s := by
  rcases mem_bucket_of_mem_modifyBucket hk with hk | ⟨-, rfl, he⟩
  · exact hk
  · exact List.mem_of_mem_erase he

theorem mem_bucket_addEntry (hk : k ∈ t.bucket j s) : k ∈ (t.addEntry now e).bucket j s := by
  simp only [addEntry]
  split_ifs
  · exact hk
  · exact hk
  · exact mem_bucket_modifyBucket (fun _ => List.mem_insert_of_mem) hk

/-- `addEntry` files a key with a positive ttl under `now + ttl` unless that
second has been swept. -/
theorem mem_bucket_addEntry_self (hw : t.WF) (ht : e.ttl.sle 0 = false)
    (hf : (now + e.ttl).sle t.lastDeleted = false) :
    e.key ∈ (t.addEntry now e).bucket (t.shard e.hash) (now + e.ttl) := by
  rw [addEntry, if_neg (by simpa using ht), if_neg (by simpa using hf),
    bucket_modifyBucket_self (hw.shard_lt _)]
  exact List.mem_insert_self _ _

theorem mem_bucket_delEntry (hk : k ∈ t.bucket j s) (h : k ≠ e.key ∨ j ≠ t.shard e.hash ∨ s ≠ sec) :
    k ∈ (t.delEntry e sec).bucket j s := by
  rcases h with h | h
  · exact mem_bucket_modifyBucket (fun _ => (List.mem_erase_of_ne h).mpr) hk
  · rw [delEntry, bucket_modifyBucket_of_ne h]; exact hk

end TTLManager

end HydraKV.Store
