import HydraKV.Store.Replay

/-! The expiry sweep `delEntries` and what `Set` and `Del` leave in the
expiry buckets. `addEntry` files a key under the clock second `now + ttl`, but
the update branch of `Set` and the unlink branch of `Del` drop the old filing
with `delEntry(item, item.Ttl)`, which looks under the second `item.Ttl`
itself. A key set with a positive ttl and then set again with ttl `0` so stays
filed under its first expiry second, and the sweep of that second deletes it.
The sweep calls `Del` on the keys of each bucket in the order of their list;
Go ranges over a map in no fixed order. -/

namespace HydraKV.Store

open Go AOF

namespace HashMap

variable {hm : HashMap} {k key value : Bytes} {now ttl sec : Int64} {j : Nat}

/-! ### What `Set` and `Del` do to the buckets -/

/-- `Set` with a positive ttl files its key under `now + ttl` in the shard of
its hash, unless that second has been swept. -/
theorem mem_bucket_set (h : Inv hm) (hw : hm.ttlManager.WF) (ht : ttl.sle 0 = false)
    (hf : (now + ttl).sle hm.ttlManager.lastDeleted = false) :
    key ∈ (hm.set now ttl key value).2.ttlManager.bucket
      (hm.ttlManager.shard (hm.xxhash key)) (now + ttl) := by
  simp only [set, setLocked, enqueue_getIndex, enqueue_basket]
  split
  · rename_i item hfk
    obtain ⟨hmem, rfl⟩ := findKey_some hfk
    have hx : item.hash = hm.xxhash item.key := h.hashed item ((getD_sublist_flatten _).subset hmem)
    rw [updateItem_ttlManager, enqueue_ttlManager, ← hx]
    split_ifs
    · exact TTLManager.mem_bucket_addEntry_self (e := { item with value := value, ttl := ttl })
        hw.modifyBucket ht hf
    · exact TTLManager.mem_bucket_addEntry_self (e := { item with value := value, ttl := ttl })
        hw ht hf
  · rw [insertItem_ttlManager, enqueue_ttlManager]
    exact TTLManager.mem_bucket_addEntry_self (e := newEntry ttl key value (hm.xxhash key)) hw ht hf

@[simp] theorem set_lastDeleted :
    (hm.set now ttl key value).2.ttlManager.lastDeleted = hm.ttlManager.lastDeleted := by
  simp only [set, setLocked]; split <;> simp; split_ifs <;> rfl

/-- `Set` keeps every filing but that of its own key under the key's old ttl
read as a second. -/
theorem mem_bucket_set_of_mem (hk : k ∈ hm.ttlManager.bucket j sec)
    (hne : ∀ p, hm.lookup key = some p → k = key → sec ≠ p.2) :
    k ∈ (hm.set now ttl key value).2.ttlManager.bucket j sec := by
  simp only [set, setLocked, enqueue_getIndex, enqueue_basket]
  split
  · rename_i item hfk
    have hl : hm.lookup key = some (item.value, item.ttl) := by rw [lookup, hfk]; rfl
    have hdel : k ≠ item.key ∨ j ≠ hm.ttlManager.shard item.hash ∨ sec ≠ item.ttl := by
      by_cases hkk : k = key
      · exact .inr (.inr (hne _ hl hkk))
      · exact .inl (by rw [(findKey_some hfk).2]; exact hkk)
    rw [updateItem_ttlManager, enqueue_ttlManager]
    split_ifs
    · exact TTLManager.mem_bucket_addEntry (TTLManager.mem_bucket_delEntry hk hdel)
    · exact TTLManager.mem_bucket_addEntry hk
  · rw [insertItem_ttlManager, enqueue_ttlManager]
    exact TTLManager.mem_bucket_addEntry hk

/-- `Del` keeps the filings of every other key. -/
theorem mem_bucket_del_of_ne (hk : k ∈ hm.ttlManager.bucket j sec) (hne : k ≠ key) :
    k ∈ (hm.del key).2.ttlManager.bucket j sec := by
  simp only [del, delLocked, enqueue_getIndex, enqueue_basket]
  split_ifs
  · simpa using hk
  · split
    · rename_i item hfk
      rw [removeItem_ttlManager, enqueue_ttlManager]
      exact TTLManager.mem_bucket_delEntry hk (.inl (by rw [(findKey_some hfk).2]; exact hne))
    · simpa using hk

/-! ### The sweep -/

/-- `delEntriesFromHashMap`: the callback `Del` on each key of a taken
bucket. -/
def delEntriesFromHashMap (keys : List Bytes) (hm : HashMap) : HashMap :=
  keys.foldl (fun hm k => (hm.del k).2) hm

/-- Shard `i`'s turn in the sweep of second `sec`: the shard gives up its
bucket of `sec`, and the bucket's keys are deleted. -/
def sweepBucket (sec : Int64) (hm : HashMap) (i : Nat) : HashMap :=
  let taken := hm.ttlManager.takeBucket i sec
  delEntriesFromHashMap taken.1 { hm with ttlManager := taken.2 }

/-- The shard loop of `delEntries` for second `sec`. -/
def delSecond (sec : Int64) (hm : HashMap) : HashMap :=
  (List.range hm.ttlManager.list.length).foldl (sweepBucket sec) hm

/-- `delEntries(now)`: the seconds after `lastDeleted` up to `now`, in order,
then `lastDeleted` becomes `now`. -/
def delEntries (now : Int64) (hm : HashMap) : HashMap :=
  let last := hm.ttlManager.lastDeleted
  let hm := (List.range (now.toInt - last.toInt).toNat).foldl
    (fun hm n => hm.delSecond (last + 1 + BitVec.ofNat 64 n)) hm
  { hm with ttlManager := { hm.ttlManager with lastDeleted := now } }

/-- A fold whose steps keep `P` and keep `Q`, and one of whose steps turns `P`
into `Q`, turns `P` into `Q`. -/
theorem foldl_of_mem {α β : Type} {f : β → α → β} {P Q : β → Prop}
    (hP : ∀ b a, P b → P (f b a)) (hQ : ∀ b a, Q b → Q (f b a)) {x : α}
    (hx : ∀ b, P b → Q (f b x)) {l : List α} (hl : x ∈ l) {b : β} (hb : P b) :
    Q (l.foldl f b) := by
  obtain ⟨l₁, l₂, rfl⟩ := List.append_of_mem hl
  rw [List.foldl_append, List.foldl_cons]
  exact List.foldlRecOn l₂ f _ (hx _ (List.foldlRecOn l₁ f b hb fun b hb a _ => hP b a hb))
    fun b hb a _ => hQ b a hb

/-- Either `k` is absent or it is still filed under second `sec` of shard
`j`. -/
def Filed (k : Bytes) (j : Nat) (sec : Int64) (hm : HashMap) : Prop :=
  hm.lookup k = none ∨ k ∈ hm.ttlManager.bucket j sec

theorem lookup_del_eq_none (h : Inv hm) (hk : hm.lookup k = none ∨ k = key) :
    (hm.del key).2.lookup k = none := by
  rw [(h.del_spec key).2.2 k]
  split_ifs with hkk
  · rfl
  · exact hk.resolve_right hkk

theorem Filed.del (h : Inv hm) (hf : Filed k j sec hm) : Filed k j sec (hm.del key).2 := by
  by_cases hkk : k = key
  · exact .inl (lookup_del_eq_none h (.inr hkk))
  · rcases hf with hf | hf
    · exact .inl (lookup_del_eq_none h (.inl hf))
    · exact .inr (mem_bucket_del_of_ne hf hkk)

/-- `delEntriesFromHashMap` keeps what every `Del` keeps on tables with the
invariant. -/
theorem delEntriesFromHashMap_induction {P : HashMap → Prop}
    (hP : ∀ hm key, Inv hm → P hm → P (hm.del key).2) (keys : List Bytes) (h : Inv hm)
    (hp : P hm) : Inv (delEntriesFromHashMap keys hm) ∧ P (delEntriesFromHashMap keys hm) :=
  List.foldlRecOn (motive := fun hm => Inv hm ∧ P hm) keys _ hm ⟨h, hp⟩
    fun b hb key _ => ⟨(hb.1.del_spec key).2.1, hP b key hb.1 hb.2⟩

theorem lookup_delEntriesFromHashMap (h : Inv hm) {keys : List Bytes}
    (hk : hm.lookup k = none ∨ k ∈ keys) :
    Inv (delEntriesFromHashMap keys hm) ∧ (delEntriesFromHashMap keys hm).lookup k = none := by
  rcases hk with hk | hk
  · exact delEntriesFromHashMap_induction (fun _ _ h hk => lookup_del_eq_none h (.inl hk)) _ h hk
  · obtain ⟨l₁, l₂, rfl⟩ := List.append_of_mem hk
    have h₁ := (delEntriesFromHashMap_induction (P := fun _ => True) (fun _ _ _ _ => trivial) l₁ h
      trivial).1
    rw [delEntriesFromHashMap, List.foldl_append, List.foldl_cons]
    exact delEntriesFromHashMap_induction (fun _ _ h hk => lookup_del_eq_none h (.inl hk)) l₂
      (h₁.del_spec k).2.1 (lookup_del_eq_none h₁ (.inr rfl))

theorem sweepBucket_spec {i : Nat} (h : Inv hm)
    (hk : hm.lookup k = none ∨ k ∈ hm.ttlManager.bucket i sec) :
    Inv (sweepBucket sec hm i) ∧ (sweepBucket sec hm i).lookup k = none := by
  have h' : Inv { hm with ttlManager := (hm.ttlManager.takeBucket i sec).2 } :=
    h.congr rfl rfl rfl rfl
  exact lookup_delEntriesFromHashMap h' hk

theorem Filed.sweepBucket {i : Nat} (h : Inv hm) (hf : Filed k j sec hm) :
    Inv (sweepBucket ttl hm i) ∧ Filed k j sec (sweepBucket ttl hm i) := by
  by_cases hij : i = j ∧ ttl = sec
  · obtain ⟨rfl, rfl⟩ := hij
    have := sweepBucket_spec h hf
    exact ⟨this.1, .inl this.2⟩
  · have hne : j ≠ i ∨ sec ≠ ttl := by
      by_cases hi : i = j
      · exact .inr fun hs => hij ⟨hi, hs.symm⟩
      · exact .inl fun hj => hi hj.symm
    refine delEntriesFromHashMap_induction (fun _ _ h hf => hf.del h) _ (h.congr rfl rfl rfl rfl)
      (hf.imp id fun hk => ?_)
    rwa [TTLManager.takeBucket, TTLManager.bucket_modifyBucket_of_ne hne]

theorem delSecond_filed (h : Inv hm) (hf : Filed k j sec hm) :
    Inv (delSecond ttl hm) ∧ Filed k j sec (delSecond ttl hm) :=
  List.foldlRecOn (motive := fun hm => Inv hm ∧ Filed k j sec hm) _ _ hm ⟨h, hf⟩
    fun _ hb _ _ => hb.2.sweepBucket hb.1

theorem delSecond_absent (h : Inv hm) (hk : hm.lookup k = none) :
    Inv (delSecond ttl hm) ∧ (delSecond ttl hm).lookup k = none :=
  List.foldlRecOn (motive := fun hm => Inv hm ∧ hm.lookup k = none) _ _ hm ⟨h, hk⟩
    fun _ hb _ _ => sweepBucket_spec hb.1 (.inl hb.2)

/-- The sweep of second `sec` deletes every key filed under it. -/
theorem delSecond_self (h : Inv hm) (hf : Filed k j sec hm) :
    Inv (delSecond sec hm) ∧ (delSecond sec hm).lookup k = none := by
  rcases hf with hk | hk
  · exact delSecond_absent h hk
  · exact foldl_of_mem (f := sweepBucket sec) (P := fun hm => Inv hm ∧ Filed k j sec hm)
      (Q := fun hm => Inv hm ∧ hm.lookup k = none) (fun _ _ hb => hb.2.sweepBucket hb.1)
      (fun _ _ hb => sweepBucket_spec hb.1 (.inl hb.2))
      (fun _ hb => sweepBucket_spec hb.1 hb.2)
      (List.mem_range.mpr (TTLManager.lt_length_of_mem_bucket hk)) ⟨h, .inr hk⟩

/-- The `n`-th second after `last` that `delEntries` sweeps. -/
theorem add_one_add_ofNat {last : Int64} (h : last.toInt < sec.toInt) :
    last + 1 + BitVec.ofNat 64 (sec.toInt - last.toInt - 1).toNat = sec := by
  have h1 : (1 : Int64).toNat = 1 := rfl
  apply BitVec.eq_of_toNat_eq
  rw [BitVec.toNat_add, BitVec.toNat_add, BitVec.toNat_ofNat, h1]
  rw [BitVec.toInt_eq_toNat_cond, BitVec.toInt_eq_toNat_cond] at h ⊢
  have := last.isLt
  have := sec.isLt
  split_ifs at h ⊢ <;> omega

/-- A sweep up to `now` deletes every key filed under a second after
`lastDeleted` and at most `now`. -/
theorem lookup_delEntries (h : Inv hm) (hf : Filed k j sec hm)
    (h1 : hm.ttlManager.lastDeleted.toInt < sec.toInt) (h2 : sec.toInt ≤ now.toInt) :
    (hm.delEntries now).lookup k = none := by
  unfold delEntries
  exact (foldl_of_mem (f := fun b n => b.delSecond (hm.ttlManager.lastDeleted + 1 + BitVec.ofNat 64 n))
    (P := fun hm => Inv hm ∧ Filed k j sec hm) (Q := fun hm => Inv hm ∧ hm.lookup k = none)
    (x := (sec.toInt - hm.ttlManager.lastDeleted.toInt - 1).toNat)
    (fun _ _ hb => delSecond_filed hb.1 hb.2) (fun _ _ hb => delSecond_absent hb.1 hb.2)
    (fun _ hb => by dsimp only; rw [add_one_add_ofNat h1]; exact delSecond_self hb.1 hb.2)
    (List.mem_range.mpr (by omega)) ⟨h, hf⟩).2

/-! ### A key set again with ttl `0` is still swept -/

/-- A key set with a positive ttl at a clock second `now ≠ 0`, then set again
with ttl `0`, holds the new value with ttl `0` yet stays filed under second
`now + ttl`, and the first sweep past that second deletes it. -/
theorem delEntries_set_ttl_zero (h : Inv hm) (hw : hm.ttlManager.WF) (ht : 0 < ttl.toInt)
    (hnow : now ≠ 0) (h1 : hm.ttlManager.lastDeleted.toInt < (now + ttl).toInt)
    (key value value' : Bytes) (now' later : Int64) (h2 : (now + ttl).toInt ≤ later.toInt) :
    let hm' := ((hm.set now ttl key value).2.set now' 0 key value').2
    hm'.lookup key = some (value', 0) ∧
      key ∈ hm'.ttlManager.bucket (hm.ttlManager.shard (hm.xxhash key)) (now + ttl) ∧
      (hm'.delEntries later).lookup key = none := by
  have hs := h.set_spec now ttl key value
  have hs' := hs.2.1.set_spec now' 0 key value'
  have hmem : key ∈ ((hm.set now ttl key value).2.set now' 0 key value').2.ttlManager.bucket
      (hm.ttlManager.shard (hm.xxhash key)) (now + ttl) := by
    refine mem_bucket_set_of_mem (mem_bucket_set h hw ?_ ?_) fun p hp _ heq => hnow ?_
    · have : (0 : Int64).toInt = 0 := rfl
      simp only [BitVec.sle, decide_eq_false_iff_not, this]; omega
    · simp only [BitVec.sle, decide_eq_false_iff_not]; omega
    · rw [hs.2.2, if_pos rfl] at hp
      cases hp
      rw [← BitVec.add_sub_cancel now ttl, heq, BitVec.sub_self]; rfl
  refine ⟨by rw [hs'.2.2, if_pos rfl], hmem, lookup_delEntries hs'.2.1 (.inr hmem) ?_ h2⟩
  simpa using h1

end HashMap

/-- Set `k` with ttl `5` at second `1000` on a new table, then with ttl `0` at
second `1001`: `k` holds `w` with ttl `0`, stays filed under second `1005`, and
the sweep up to second `1005` deletes it, whatever the hash. -/
theorem set_ttl_zero_then_swept (xxhash : Bytes → UInt64) :
    let hm := ((newHashMap xxhash 4 16 1000 []).set 1000 5 (ofString "k") (ofString "v")).2
    let hm' := (hm.set 1001 0 (ofString "k") (ofString "w")).2
    hm'.lookup (ofString "k") = some (ofString "w", 0) ∧
      (∃ i, ofString "k" ∈ hm'.ttlManager.bucket i 1005) ∧
      (hm'.delEntries 1005).lookup (ofString "k") = none := by
  have ht : (newHashMap xxhash 4 16 1000 []).ttlManager = newTTLManager 4 16 1000 := by
    rw [newHashMap_nil]; rfl
  have hw : (newTTLManager 4 16 1000).WF := ⟨by decide, by decide⟩
  obtain ⟨h1, h2, h3⟩ := HashMap.delEntries_set_ttl_zero (inv_newHashMap_nil xxhash 4 16 1000) (ht ▸ hw)
    (by decide : 0 < (5 : Int64).toInt) (by decide : (1000 : Int64) ≠ 0)
    (by rw [ht]; decide) (ofString "k") (ofString "v") (ofString "w") 1001 1005 (by decide)
  exact ⟨h1, ⟨_, h2⟩, h3⟩

end HydraKV.Store
