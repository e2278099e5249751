import HydraKV.Store.Operations
import Mathlib.Data.List.Perm.Basic

/-! The table invariant (`Inv`): a power-of-two basket count of at least
`DefaultBasketSize` that is the table's length, every entry in the basket its
cached hash selects and that hash its key's, distinct keys, and the
`Entries` counter equal to the number of entries modulo `2^64`. Each branch
of `Set`, `Incr` and `Del`, and the resize, keeps it, and each has one lemma
saying what it does to `lookup`, the value and ttl `Get` finds for a key. -/

namespace HydraKV.Store

open Go AOF

/-! ### Tables -/

section Table

variable {α : Type} (f : List α → List α) {t : List (List α)} {i : Nat}

theorem getD_modify (hi : i < t.length) (j : Nat) :
    (t.modify f i).getD j [] = if i = j then f (t.getD j []) else t.getD j [] := by
  rw [List.getD_eq_getElem?_getD, List.getD_eq_getElem?_getD, List.getElem?_modify]
  split
  · subst_vars; simp [List.getElem?_eq_getElem hi]
  · cases t[j]? <;> rfl

theorem flatten_modify_perm (hi : i < t.length) :
    ∃ rest, (t.modify f i).flatten.Perm (f (t.getD i []) ++ rest) ∧
      t.flatten.Perm (t.getD i [] ++ rest) := by
  have hget : t.getD i [] = t[i] := by simp [List.getD_eq_getElem?_getD, List.getElem?_eq_getElem hi]
  refine ⟨(t.take i).flatten ++ (t.drop (i + 1)).flatten, ?_, ?_⟩
  · rw [List.modify_eq_take_cons_drop hi, List.flatten_append, List.flatten_cons, hget]
    exact List.perm_append_comm_assoc _ _ _
  · conv_lhs => rw [← List.take_append_drop i t, List.drop_eq_getElem_cons hi]
    rw [List.flatten_append, List.flatten_cons, hget]
    exact List.perm_append_comm_assoc _ _ _

theorem exists_getD_of_mem_flatten {a : α} (h : a ∈ t.flatten) : ∃ j, a ∈ t.getD j [] := by
  obtain ⟨l, hl, ha⟩ := List.mem_flatten.mp h
  obtain ⟨j, hj, rfl⟩ := List.mem_iff_getElem.mp hl
  exact ⟨j, by simpa [List.getD_eq_getElem?_getD, List.getElem?_eq_getElem hj] using ha⟩

theorem getD_sublist_flatten (j : Nat) : (t.getD j []).Sublist t.flatten := by
  rw [List.getD_eq_getElem?_getD]
  cases h : t[j]? with
  | none => exact List.nil_sublist _
  | some l => exact List.sublist_flatten_of_mem (List.mem_iff_getElem?.mpr ⟨j, h⟩)

end Table

/-! ### The invariant -/

namespace HashMap

variable {hm : HashMap} {k key value : Bytes} {now ttl : Int64} {i : Nat} {item : Entry}
  {d : Data}

@[simp] theorem enqueue_table : (hm.enqueue d).table = hm.table := by
  unfold enqueue; split <;> rfl

@[simp] theorem enqueue_ttlManager : (hm.enqueue d).ttlManager = hm.ttlManager := by
  unfold enqueue; split <;> rfl

@[simp] theorem enqueue_xxhash : (hm.enqueue d).xxhash = hm.xxhash := by
  unfold enqueue; split <;> rfl

@[simp] theorem enqueue_entries : (hm.enqueue d).entries = hm.entries := by
  unfold enqueue; split <;> rfl

@[simp] theorem enqueue_basketNum : (hm.enqueue d).basketNum = hm.basketNum := by
  unfold enqueue; split <;> rfl

@[simp] theorem enqueue_basket (j : Nat) : (hm.enqueue d).basket j = hm.basket j := by
  simp [basket]

@[simp] theorem enqueue_getIndex : (hm.enqueue d).getIndex k = hm.getIndex k := by
  simp [getIndex]

@[simp] theorem getIndex_fst : (hm.getIndex k).1 = maskIndex (hm.xxhash k) hm.basketNum := rfl

@[simp] theorem getIndex_snd : (hm.getIndex k).2 = hm.xxhash k := rfl

/-- The value and ttl `Get` finds for a key. -/
def lookup (hm : HashMap) (k : Bytes) : Option (Bytes × Int64) :=
  (findKey k (hm.basket (hm.getIndex k).1)).map fun e => (e.value, e.ttl)

@[simp] theorem lookup_enqueue : (hm.enqueue d).lookup k = hm.lookup k := by
  simp [lookup]

theorem get_eq (hm : HashMap) (k : Bytes) :
    hm.get k = match hm.lookup k with
      | some (v, _) => (true, v)
      | none => (false, []) := by
  unfold get lookup
  cases findKey k (hm.basket (hm.getIndex k).1) <;> rfl

/-- The table invariant. -/
structure Inv (hm : HashMap) : Prop where
  size : ∃ j, hm.basketNum = DefaultBasketSize * 2 ^ j
  length : hm.table.length = hm.basketNum
  hashed : ∀ e ∈ hm.table.flatten, e.hash = hm.xxhash e.key
  placed : ∀ j, ∀ e ∈ hm.basket j, maskIndex e.hash hm.basketNum = j
  nodup : (keys hm.table.flatten).Nodup
  count : hm.entries.toNat = hm.table.flatten.length % 2 ^ 64

/-- The invariant reads only the table, the hash, the counter and the basket
count. -/
theorem Inv.congr {hm' : HashMap} (h : Inv hm) (ht : hm'.table = hm.table)
    (hx : hm'.xxhash = hm.xxhash) (he : hm'.entries = hm.entries)
    (hb : hm'.basketNum = hm.basketNum) : Inv hm' where
  size := hb ▸ h.size
  length := by rw [ht, hb]; exact h.length
  hashed := by rw [ht, hx]; exact h.hashed
  placed := by simpa only [basket, ht, hb] using h.placed
  nodup := by rw [ht]; exact h.nodup
  count := by rw [ht, he]; exact h.count

@[simp] theorem inv_enqueue : Inv (hm.enqueue d) ↔ Inv hm :=
  ⟨fun h => h.congr (by simp) (by simp) (by simp) (by simp),
    fun h => h.congr (by simp) (by simp) (by simp) (by simp)⟩

section Init

variable (xxhash : Bytes → UInt64) (numCPU multiplier now : Int64)

@[simp] theorem basket_init (j : Nat) : (init xxhash numCPU multiplier now).basket j = [] := by
  simp only [init, basket, List.getD_eq_getElem?_getD, List.getElem?_replicate]
  split <;> rfl

theorem flatten_init : (init xxhash numCPU multiplier now).table.flatten = [] :=
  List.flatten_replicate_nil

@[simp] theorem lookup_init (k : Bytes) : (init xxhash numCPU multiplier now).lookup k = none := by
  simp [lookup]

/-- A new table, before its log is replayed, keeps the invariant. -/
theorem inv_init : Inv (init xxhash numCPU multiplier now) where
  size := ⟨0, rfl⟩
  length := List.length_replicate _ _
  hashed := by simp [flatten_init]
  placed := by simp
  nodup := by rw [flatten_init]; exact List.nodup_nil
  count := by rw [flatten_init]; rfl

end Init

theorem maskIndex_lt_of_size {n : Nat} (h : ∃ j, n = DefaultBasketSize * 2 ^ j) (x : UInt64) :
    maskIndex x n < n := by
  obtain ⟨j, rfl⟩ := h
  have h2 : DefaultBasketSize * 2 ^ j = 2 ^ (11 + j) := by rw [Nat.pow_add]; rfl
  rw [h2, maskIndex_two_pow]
  exact Nat.mod_lt _ (Nat.two_pow_pos _)

namespace Inv

variable (h : Inv hm)
include h

theorem index_lt (x : UInt64) : maskIndex x hm.basketNum < hm.table.length :=
  h.length ▸ maskIndex_lt_of_size h.size x

theorem mem_basket_of_mem {e : Entry} (he : e ∈ hm.table.flatten) :
    e ∈ hm.basket (hm.getIndex e.key).1 := by
  obtain ⟨j, hj⟩ := exists_getD_of_mem_flatten he
  rwa [getIndex_fst, ← h.hashed e he, h.placed j e hj]

theorem basket_nodup (j : Nat) : (keys (hm.basket j)).Nodup :=
  h.nodup.sublist ((getD_sublist_flatten j).map _)

/-- A key's lookup is the one entry of the table with that key. -/
theorem lookup_eq_some {b : Bytes × Int64} :
    hm.lookup k = some b ↔ ∃ e ∈ hm.table.flatten, e.key = k ∧ (e.value, e.ttl) = b := by
  constructor
  · intro hl
    obtain ⟨e, he, rfl⟩ := Option.map_eq_some'.mp hl
    obtain ⟨hmem, rfl⟩ := findKey_some he
    exact ⟨e, (getD_sublist_flatten _).subset hmem, rfl, rfl⟩
  · rintro ⟨e, he, rfl, rfl⟩
    simp only [lookup, findKey_of_mem (h.basket_nodup _) (h.mem_basket_of_mem he), Option.map_some']

theorem key_not_mem_of_findKey (hf : findKey k (hm.basket (hm.getIndex k).1) = none) :
    k ∉ keys hm.table.flatten := by
  intro hk
  obtain ⟨e, he, rfl⟩ := List.mem_map.mp hk
  exact findKey_eq_none.mp hf (List.mem_map_of_mem _ (h.mem_basket_of_mem he))

end Inv

/-! ### The branches of `Set`, `Incr` and `Del` -/

theorem toNat_add (x y : UInt64) : (x + y).toNat = (x.toNat + y.toNat) % 2 ^ 64 := by
  simp [UInt64.add_def, UInt64.toNat, BitVec.toNat_add]

@[simp] theorem keys_append (l r : List Entry) : keys (l ++ r) = keys l ++ keys r :=
  List.map_append _ _ _

theorem basket_modify {hm' : HashMap} {f : List Entry → List Entry}
    (ht : hm'.table = hm.table.modify f i) (hi : i < hm.table.length) (j : Nat) :
    hm'.basket j = if i = j then f (hm.basket j) else hm.basket j := by
  rw [basket, ht, getD_modify f hi]; rfl

/-- A change of one basket keeps the invariant when the entries it leaves in
the basket are placed there and hashed, and the keys and the counter of the
whole table stay right whatever the other baskets hold. -/
theorem Inv.modify (h : Inv hm) {hm' : HashMap} {f : List Entry → List Entry}
    (hi : i < hm.table.length) (ht : hm'.table = hm.table.modify f i)
    (hx : hm'.xxhash = hm.xxhash) (hb : hm'.basketNum = hm.basketNum)
    (hmem : ∀ e ∈ f (hm.basket i), e ∈ hm.basket i ∨
      (e.hash = hm.xxhash e.key ∧ maskIndex e.hash hm.basketNum = i))
    (hrest : ∀ rest, hm.table.flatten.Perm (hm.basket i ++ rest) →
      (keys (f (hm.basket i) ++ rest)).Nodup ∧
        hm'.entries.toNat = (f (hm.basket i) ++ rest).length % 2 ^ 64) :
    Inv hm' := by
  obtain ⟨rest, hnew, hold⟩ := flatten_modify_perm f hi
  obtain ⟨hnd, hcount⟩ := hrest rest hold
  rw [← ht] at hnew
  refine ⟨hb ▸ h.size, by rw [ht, List.length_modify, h.length, hb], ?_, ?_,
    (hnew.map _).nodup_iff.mpr hnd, by rw [hcount, hnew.length_eq]; rfl⟩
  · intro e he
    rw [hx]
    rcases List.mem_append.mp (hnew.subset he) with he | he
    · rcases hmem e he with he | he
      · exact h.hashed e ((getD_sublist_flatten i).subset he)
      · exact he.1
    · exact h.hashed e (hold.symm.subset (List.mem_append_right _ he))
  · intro j e he
    rw [basket_modify ht hi] at he
    rw [hb]
    split at he
    · subst_vars
      rcases hmem e he with he | he
      · exact h.placed _ e he
      · exact he.2
    · exact h.placed j e he

@[simp] theorem updateItem_xxhash : (hm.updateItem now i item value ttl).xxhash = hm.xxhash := rfl
@[simp] theorem updateItem_basketNum :
    (hm.updateItem now i item value ttl).basketNum = hm.basketNum := rfl
@[simp] theorem removeItem_xxhash : (hm.removeItem i item).xxhash = hm.xxhash := rfl
@[simp] theorem removeItem_basketNum : (hm.removeItem i item).basketNum = hm.basketNum := rfl
@[simp] theorem insertItem_xxhash {e : Entry} : (hm.insertItem now i e).xxhash = hm.xxhash := rfl
@[simp] theorem insertItem_basketNum {e : Entry} :
    (hm.insertItem now i e).basketNum = hm.basketNum := rfl
@[simp] theorem updateItem_ttlManager : (hm.updateItem now i item value ttl).ttlManager =
    (if item.ttl ≠ 0 then hm.ttlManager.delEntry item item.ttl else hm.ttlManager).addEntry now
      { item with value := value, ttl := ttl } := rfl
@[simp] theorem insertItem_ttlManager {e : Entry} :
    (hm.insertItem now i e).ttlManager = hm.ttlManager.addEntry now e := rfl
@[simp] theorem removeItem_ttlManager :
    (hm.removeItem i item).ttlManager = hm.ttlManager.delEntry item item.ttl := rfl

section Branches

variable (h : Inv hm) (hi : i = (hm.getIndex key).1)
include h hi

section Found

variable (hf : findKey key (hm.basket i) = some item)
include hf

theorem Inv.updateItem : Inv (hm.updateItem now i item value ttl) := by
  obtain ⟨hmem, rfl⟩ := findKey_some hf
  refine h.modify (hi ▸ h.index_lt _) rfl rfl rfl (fun e he => ?_) (fun rest hold => ?_)
  · rcases List.mem_cons.mp ((replace_perm hmem).subset he) with rfl | he
    · exact .inr ⟨h.hashed item ((getD_sublist_flatten i).subset hmem), h.placed i item hmem⟩
    · exact .inl (List.mem_of_mem_erase he)
  · have hk : keys ((hm.basket i).replace item { item with value := value, ttl := ttl } ++ rest) =
        keys (hm.basket i ++ rest) := by
      rw [keys_append, keys_append, keys_replace (a := item) (b := { item with value := value, ttl := ttl }) rfl]
    refine ⟨hk ▸ (hold.map _).nodup_iff.mp h.nodup, ?_⟩
    show hm.entries.toNat = _
    rw [h.count, hold.length_eq, List.length_append, List.length_append, List.length_replace]

theorem lookup_updateItem (k : Bytes) :
    (hm.updateItem now i item value ttl).lookup k =
      if k = key then some (value, ttl) else hm.lookup k := by
  obtain ⟨-, rfl⟩ := findKey_some hf
  have hlt : i < hm.table.length := by rw [hi]; exact h.index_lt _
  rw [getIndex_fst] at hi
  simp only [lookup, getIndex_fst, updateItem_xxhash, updateItem_basketNum]
  rw [basket_modify rfl hlt]
  by_cases hk : k = item.key
  · subst hk
    rw [if_pos hi, if_pos rfl, ← hi,
      findKey_replace_self (b := { item with value := value, ttl := ttl }) hf rfl]
    rfl
  · rw [if_neg hk]
    split_ifs
    · rw [findKey_replace_ne (b := { item with value := value, ttl := ttl }) (Ne.symm hk) (Ne.symm hk)]
    · rfl

theorem Inv.removeItem : Inv (hm.removeItem i item) := by
  obtain ⟨hmem, rfl⟩ := findKey_some hf
  refine h.modify (hi ▸ h.index_lt _) rfl rfl rfl (fun e he => .inl (List.mem_of_mem_erase he))
    (fun rest hold => ⟨?_, ?_⟩)
  · have hnd : (keys (hm.basket i ++ rest)).Nodup := (hold.map _).nodup_iff.mp h.nodup
    rw [keys_append] at hnd ⊢
    exact hnd.sublist (keys_erase_sublist.append_right _)
  · have h1 : 1 ≤ (hm.basket i).length := List.length_pos_of_mem hmem
    have hc := h.count
    rw [hold.length_eq, List.length_append] at hc
    rw [HashMap.removeItem, toNat_add, hc, List.length_append, List.length_erase_of_mem hmem]
    rw [show (~~~(0 : UInt64)).toNat = 2 ^ 64 - 1 from rfl]
    omega

theorem lookup_removeItem (k : Bytes) :
    (hm.removeItem i item).lookup k = if k = key then none else hm.lookup k := by
  obtain ⟨-, rfl⟩ := findKey_some hf
  have hlt : i < hm.table.length := by rw [hi]; exact h.index_lt _
  rw [getIndex_fst] at hi
  simp only [lookup, getIndex_fst, removeItem_xxhash, removeItem_basketNum]
  rw [basket_modify rfl hlt]
  by_cases hk : k = item.key
  · subst hk; rw [if_pos hi, if_pos rfl, ← hi, findKey_erase_self (h.basket_nodup i) hf]; rfl
  · rw [if_neg hk]
    split_ifs
    · rw [findKey_erase_ne (Ne.symm hk)]
    · rfl

end Found

section Absent

variable (hf : findKey key (hm.basket i) = none) {x : UInt64} (hx : x = hm.xxhash key)
include hf hx

theorem Inv.insertItem : Inv (hm.insertItem now i (newEntry ttl key value x)) := by
  subst hx
  have hnot := h.key_not_mem_of_findKey (hi ▸ hf)
  refine h.modify (hi ▸ h.index_lt _) rfl rfl rfl (fun e he => ?_) (fun rest hold => ⟨?_, ?_⟩)
  · rcases List.mem_cons.mp he with rfl | he
    · exact .inr ⟨rfl, hi.symm⟩
    · exact .inl he
  · rw [List.cons_append, keys_cons, List.nodup_cons]
    have hp := hold.map Entry.key
    exact ⟨fun hk => hnot (hp.symm.subset hk), hp.nodup_iff.mp h.nodup⟩
  · have hc := h.count
    rw [hold.length_eq] at hc
    rw [HashMap.insertItem, toNat_add, hc, List.cons_append, List.length_cons]
    change (_ + 1) % _ = _
    omega

theorem lookup_insertItem (k : Bytes) :
    (hm.insertItem now i (newEntry ttl key value x)).lookup k =
      if k = key then some (value, ttl) else hm.lookup k := by
  subst hx
  have hlt : i < hm.table.length := by rw [hi]; exact h.index_lt _
  rw [getIndex_fst] at hi
  simp only [lookup, getIndex_fst, insertItem_xxhash, insertItem_basketNum]
  rw [basket_modify rfl hlt]
  by_cases hk : k = key
  · subst hk; simp [hi, findKey_cons, newEntry]
  · rw [if_neg hk]
    split_ifs
    · simp only [findKey_cons, newEntry_key, if_neg (Ne.symm hk)]
    · rfl

end Absent

end Branches

/-! ### Resize -/

section Resize

variable {n : Nat} {t : List (List Entry)}

theorem length_foldl_relink (items : List Entry) (t : List (List Entry)) :
    (items.foldl (relink n) t).length = t.length := by
  induction items generalizing t with
  | nil => rfl
  | cons x xs ih => rw [List.foldl_cons, ih, relink, List.length_modify]

variable (hn : ∀ x : UInt64, maskIndex x n < t.length)
include hn

theorem flatten_relink_perm (item : Entry) : (relink n t item).flatten.Perm (item :: t.flatten) := by
  obtain ⟨rest, hnew, hold⟩ := flatten_modify_perm (item :: ·) (hn item.hash)
  exact hnew.trans ((hold.symm.cons item))

theorem foldl_relink (items : List Entry) :
    (items.foldl (relink n) t).flatten.Perm (items ++ t.flatten) ∧
      ((∀ j, ∀ e ∈ t.getD j [], maskIndex e.hash n = j) →
        ∀ j, ∀ e ∈ (items.foldl (relink n) t).getD j [], maskIndex e.hash n = j) := by
  induction items generalizing t with
  | nil => exact ⟨by simp, id⟩
  | cons x xs ih =>
    have hn' : ∀ y : UInt64, maskIndex y n < (relink n t x).length := by
      rw [relink, List.length_modify]; exact hn
    obtain ⟨hp, hplaced⟩ := ih hn'
    refine ⟨hp.trans ((((flatten_relink_perm hn x).append_left xs)).trans List.perm_middle), ?_⟩
    intro hpl
    refine hplaced fun j e he => ?_
    rw [relink, getD_modify _ (hn x.hash)] at he
    split at he
    · rcases List.mem_cons.mp he with rfl | he
      · assumption
      · exact hpl j e he
    · exact hpl j e he

end Resize

namespace Inv

variable (h : Inv hm)
include h

theorem checkNewBasket_table :
    hm.checkNewBasket.table.flatten.Perm hm.table.flatten ∧
      ∀ j, ∀ e ∈ hm.checkNewBasket.basket j, maskIndex e.hash hm.checkNewBasket.basketNum = j := by
  have hs : ∃ j, hm.table.length * 2 = DefaultBasketSize * 2 ^ j := by
    obtain ⟨j, hj⟩ := h.size
    exact ⟨j + 1, by rw [h.length, hj, Nat.pow_succ, Nat.mul_assoc]⟩
  have hn : ∀ x : UInt64, maskIndex x (hm.table.length * 2) <
      (List.replicate (hm.table.length * 2) ([] : List Entry)).length := by
    intro x; rw [List.length_replicate]; exact maskIndex_lt_of_size hs x
  obtain ⟨hp, hpl⟩ := foldl_relink hn hm.table.flatten
  simp only [checkNewBasket, basket, ← List.foldl_flatten]
  refine ⟨by simpa using hp, hpl fun j e he => ?_⟩
  simp [List.getD_eq_getElem?_getD, List.getElem?_replicate] at he
  split at he <;> simp at he

theorem checkNewBasket : Inv hm.checkNewBasket := by
  obtain ⟨hp, hpl⟩ := h.checkNewBasket_table
  refine ⟨?_, ?_, fun e he => h.hashed e (hp.subset he), hpl, (hp.map _).nodup_iff.mpr h.nodup,
    by rw [hp.length_eq]; exact h.count⟩
  · obtain ⟨j, hj⟩ := h.size
    exact ⟨j + 1, by simp only [HashMap.checkNewBasket]; rw [h.length, hj, Nat.pow_succ, Nat.mul_assoc]⟩
  · simp only [HashMap.checkNewBasket, length_foldl_relink, ← List.foldl_flatten, List.length_replicate]

theorem lookup_checkNewBasket (k : Bytes) : hm.checkNewBasket.lookup k = hm.lookup k := by
  obtain ⟨hp, -⟩ := h.checkNewBasket_table
  apply Option.ext
  intro b
  rw [Option.mem_def, Option.mem_def, h.checkNewBasket.lookup_eq_some, h.lookup_eq_some]
  exact ⟨fun ⟨e, he, hk⟩ => ⟨e, hp.subset he, hk⟩, fun ⟨e, he, hk⟩ => ⟨e, hp.symm.subset he, hk⟩⟩

end Inv

/-! ### Operations -/

namespace Inv

variable (h : Inv hm)
include h

theorem setLocked_spec (now ttl : Int64) (key value : Bytes) :
    (hm.setLocked now ttl key value).1 = true ∧ Inv (hm.setLocked now ttl key value).2 ∧
      ∀ k, (hm.setLocked now ttl key value).2.lookup k =
        if k = key then some (value, ttl) else hm.lookup k := by
  simp only [HashMap.setLocked]
  split
  · rename_i item hf
    exact ⟨rfl, h.updateItem rfl hf, lookup_updateItem h rfl hf⟩
  · rename_i hf
    exact ⟨rfl, h.insertItem rfl hf rfl, lookup_insertItem h rfl hf rfl⟩

theorem set_spec (now ttl : Int64) (key value : Bytes) :
    (hm.set now ttl key value).1 = true ∧ Inv (hm.set now ttl key value).2 ∧
      ∀ k, (hm.set now ttl key value).2.lookup k =
        if k = key then some (value, ttl) else hm.lookup k := by
  obtain ⟨h1, h2, h3⟩ := (inv_enqueue.mpr h).setLocked_spec now ttl key value
  exact ⟨h1, h2, fun k => by rw [HashMap.set, h3, lookup_enqueue]⟩

theorem delLocked_spec (key : Bytes) :
    (hm.delLocked key).1 = (hm.lookup key).isSome ∧ Inv (hm.delLocked key).2 ∧
      ∀ k, (hm.delLocked key).2.lookup k = if k = key then none else hm.lookup k := by
  have hl : hm.lookup key = (findKey key (hm.basket (hm.getIndex key).1)).map
      fun e => (e.value, e.ttl) := rfl
  have hnone (hf : findKey key (hm.basket (hm.getIndex key).1) = none) (k : Bytes) :
      hm.lookup k = if k = key then none else hm.lookup k := by
    split_ifs with hk
    · subst hk; rw [hl, hf]; rfl
    · rfl
  simp only [HashMap.delLocked]
  split_ifs with he
  · have hf : findKey key (hm.basket (hm.getIndex key).1) = none := by rw [he]; rfl
    exact ⟨by rw [hl, hf]; rfl, h, hnone hf⟩
  · split
    · rename_i item hf
      exact ⟨by rw [hl, hf]; rfl, h.removeItem rfl hf, lookup_removeItem h rfl hf⟩
    · rename_i hf
      exact ⟨by rw [hl, hf]; rfl, h, hnone hf⟩

theorem del_spec (key : Bytes) :
    (hm.del key).1 = (hm.lookup key).isSome ∧ Inv (hm.del key).2 ∧
      ∀ k, (hm.del key).2.lookup k = if k = key then none else hm.lookup k := by
  obtain ⟨h1, h2, h3⟩ := (inv_enqueue.mpr h).delLocked_spec key
  exact ⟨by rw [HashMap.del, h1, lookup_enqueue], h2, fun k => by rw [HashMap.del, h3, lookup_enqueue]⟩

theorem incrLocked_spec (now ttl : Int64) (key amount : Bytes) :
    Inv (hm.incrLocked now ttl key amount).2 ∧
    match hm.lookup key with
    | some (v, _) =>
      match checkIsNumber v, checkIsNumber amount with
      | some x, some y => (hm.incrLocked now ttl key amount).1 = true ∧
          ∀ k, (hm.incrLocked now ttl key amount).2.lookup k =
            if k = key then some (formatInt (x + y), ttl) else hm.lookup k
      | _, _ => (hm.incrLocked now ttl key amount).1 = false ∧
          ∀ k, (hm.incrLocked now ttl key amount).2.lookup k = hm.lookup k
    | none => (hm.incrLocked now ttl key amount).1 = true ∧
        ∀ k, (hm.incrLocked now ttl key amount).2.lookup k =
          if k = key then some (amount, ttl) else hm.lookup k := by
  have hl : hm.lookup key = (findKey key (hm.basket (hm.getIndex key).1)).map
      fun e => (e.value, e.ttl) := rfl
  simp only [HashMap.incrLocked, hl]
  cases hf : findKey key (hm.basket (hm.getIndex key).1) with
  | none => exact ⟨h.insertItem rfl hf rfl, rfl, lookup_insertItem h rfl hf rfl⟩
  | some item =>
    simp only [Option.map_some']
    cases checkIsNumber item.value <;> cases checkIsNumber amount
    · exact ⟨h, rfl, fun _ => rfl⟩
    · exact ⟨h, rfl, fun _ => rfl⟩
    · exact ⟨h, rfl, fun _ => rfl⟩
    · exact ⟨h.updateItem rfl hf, rfl, lookup_updateItem h rfl hf⟩

theorem incr_spec (now ttl : Int64) (key amount : Bytes) :
    Inv (hm.incr now ttl key amount).2 ∧
    match hm.lookup key with
    | some (v, _) =>
      match checkIsNumber v, checkIsNumber amount with
      | some x, some y => (hm.incr now ttl key amount).1 = true ∧
          ∀ k, (hm.incr now ttl key amount).2.lookup k =
            if k = key then some (formatInt (x + y), ttl) else hm.lookup k
      | _, _ => (hm.incr now ttl key amount).1 = false ∧
          ∀ k, (hm.incr now ttl key amount).2.lookup k = hm.lookup k
    | none => (hm.incr now ttl key amount).1 = true ∧
        ∀ k, (hm.incr now ttl key amount).2.lookup k =
          if k = key then some (amount, ttl) else hm.lookup k := by
  have h1 : Inv (hm.enqueue ⟨actionIncr, key, amount, 0⟩) := inv_enqueue.mpr h
  have := h1.incrLocked_spec now ttl key amount
  simp only [lookup_enqueue] at this
  exact this

/-- `Incr` of an absent key stores the amount as it is and returns `true`,
whether or not the amount parses. -/
theorem incr_stores_unparsed_amount (now ttl : Int64) (key amount : Bytes) (hk : hm.lookup key = none)
    (ha : checkIsNumber amount = none) :
    (hm.incr now ttl key amount).1 = true ∧
      ∃ v, (hm.incr now ttl key amount).2.lookup key = some (v, ttl) ∧ checkIsNumber v = none := by
  have := (h.incr_spec now ttl key amount).2
  simp only [hk] at this
  exact ⟨this.1, amount, (this.2 key).trans (if_pos rfl), ha⟩

theorem checkResize_spec : Inv hm.checkResize ∧ ∀ k, hm.checkResize.lookup k = hm.lookup k := by
  unfold HashMap.checkResize
  split
  · exact ⟨h.checkNewBasket, h.lookup_checkNewBasket⟩
  · exact ⟨h, fun _ => rfl⟩

end Inv

theorem incr_stores_unparsed_amount_witness :
    let hm := init (fun _ => 0) 4 16 1000
    (hm.incr 1000 0 [107] [97, 98, 99]).1 = true ∧
      ∃ v, (hm.incr 1000 0 [107] [97, 98, 99]).2.lookup [107] = some (v, 0) ∧ checkIsNumber v = none :=
  Inv.incr_stores_unparsed_amount (inv_init _ _ _ _) 1000 0 [107] [97, 98, 99] (lookup_init _ _ _ _ _)
    (by decide)

end HashMap

end HydraKV.Store
