import HydraKV.Go.Basic

/-! Entries and the collision chain of one basket. A basket's `Items` list is
the chain from its head. The loops of `Set`, `Incr`, `Del` and `Get` walk it
to the first entry with the key (`findKey`), then update that entry in place
(`List.replace`), unlink it (`List.erase`), or link a new entry at the head. -/

namespace HydraKV.Store

open Go

/-- `Entry`: a key with its value, its cached hash and its ttl. -/
structure Entry where
  hash : UInt64
  key : Bytes
  value : Bytes
  ttl : Int64
  deriving DecidableEq, Repr

/-- `NewEntry(ttl, key, value, hash, last)`, linked in front of `last`. -/
def newEntry (ttl : Int64) (key value : Bytes) (hash : UInt64) : Entry := ⟨hash, key, value, ttl⟩

@[simp] theorem newEntry_key (ttl : Int64) (key value : Bytes) (hash : UInt64) :
    (newEntry ttl key value hash).key = key := rfl

/-- The first entry of a chain with the key, where the loop
`for item := basket.Items; item != nil; item = item.Next` stops. -/
def findKey (key : Bytes) (chain : List Entry) : Option Entry := chain.find? (·.key == key)

/-- The keys of a chain, in order. -/
def keys (chain : List Entry) : List Bytes := chain.map Entry.key

variable {k : Bytes} {a b e : Entry} {l : List Entry}

@[simp] theorem findKey_nil : findKey k [] = none := rfl

theorem findKey_cons : findKey k (e :: l) = if e.key = k then some e else findKey k l := by
  by_cases h : e.key = k <;> simp [findKey, List.find?_cons, h]

@[simp] theorem keys_nil : keys [] = [] := rfl

@[simp] theorem keys_cons : keys (e :: l) = e.key :: keys l := rfl

theorem findKey_some (h : findKey k l = some e) : e ∈ l ∧ e.key = k := by
  induction l with
  | nil => cases h
  | cons x l ih =>
    rw [findKey_cons] at h
    split at h
    · cases h; exact ⟨List.mem_cons_self _ _, ‹_›⟩
    · exact (ih h).imp_left (List.mem_cons_of_mem x)

theorem findKey_eq_none : findKey k l = none ↔ k ∉ keys l := by
  induction l with
  | nil => simp
  | cons x l ih =>
    rw [findKey_cons]
    split <;> simp_all [eq_comm]

theorem findKey_of_mem (hn : (keys l).Nodup) (he : e ∈ l) : findKey e.key l = some e := by
  induction l with
  | nil => cases he
  | cons x l ih =>
    simp only [keys_cons, List.nodup_cons] at hn
    rw [findKey_cons]
    rcases List.mem_cons.mp he with rfl | he
    · simp
    · have : x.key ≠ e.key := fun hx => hn.1 (hx ▸ List.mem_map_of_mem _ he)
      rw [if_neg this, ih hn.2 he]

/-- Updating the entry found for one key leaves every other key's lookup. -/
theorem findKey_replace_ne (ha : a.key ≠ k) (hb : b.key ≠ k) :
    findKey k (l.replace a b) = findKey k l := by
  induction l with
  | nil => rfl
  | cons x l ih =>
    by_cases hx : x = a
    · subst hx; simp [List.replace_cons, findKey_cons, ha, hb]
    · have : (a == x) = false := by simpa using Ne.symm hx
      simp only [List.replace_cons, this, findKey_cons, ih]

theorem findKey_replace_self (h : findKey k l = some a) (hb : b.key = k) :
    findKey k (l.replace a b) = some b := by
  induction l with
  | nil => cases h
  | cons x l ih =>
    rw [findKey_cons] at h
    split at h
    · cases h; simp [List.replace_cons, findKey_cons, hb]
    · have : (a == x) = false := by
        simp only [beq_eq_false_iff_ne]; rintro rfl; exact ‹¬_› (findKey_some h).2
      simp only [List.replace_cons, this, findKey_cons, if_neg ‹¬_›, ih h]

theorem keys_replace (h : a.key = b.key) : keys (l.replace a b) = keys l := by
  induction l with
  | nil => rfl
  | cons x l ih =>
    by_cases hx : x = a
    · subst hx; simp [List.replace_cons, h]
    · have : (a == x) = false := by simpa using Ne.symm hx
      simp only [List.replace_cons, this, keys_cons, ih]

theorem replace_perm (h : a ∈ l) : (l.replace a b).Perm (b :: l.erase a) := by
  induction l with
  | nil => cases h
  | cons x l ih =>
    by_cases hx : x = a
    · subst hx; simp [List.replace_cons]
    · have hxa : (a == x) = false := by simpa using Ne.symm hx
      rw [List.replace_cons, hxa, List.erase_cons_tail (by simpa using hx)]
      exact ((ih (List.mem_of_ne_of_mem (Ne.symm hx) h)).cons x).trans (List.Perm.swap b x _)

theorem findKey_erase_ne (ha : a.key ≠ k) : findKey k (l.erase a) = findKey k l := by
  induction l with
  | nil => rfl
  | cons x l ih =>
    by_cases hx : x = a
    · subst hx; simp [findKey_cons, ha]
    · rw [List.erase_cons_tail (by simpa using hx), findKey_cons, findKey_cons, ih]

theorem keys_erase_sublist : List.Sublist (keys (l.erase a)) (keys l) :=
  (List.erase_sublist a l).map _

theorem findKey_erase_self (hn : (keys l).Nodup) (h : findKey k l = some a) :
    findKey k (l.erase a) = none := by
  induction l with
  | nil => cases h
  | cons x l ih =>
    simp only [keys_cons, List.nodup_cons] at hn
    rw [findKey_cons] at h
    split at h
    · cases h
      rw [List.erase_cons_head, findKey_eq_none]
      exact ‹a.key = k› ▸ hn.1
    · have hx : ¬(x == a) = true := by
        rintro hxa; cases beq_iff_eq.mp hxa; exact ‹¬_› (findKey_some h).2
      rw [List.erase_cons_tail hx, findKey_cons, if_neg ‹¬_›, ih hn.2 h]

end HydraKV.Store
