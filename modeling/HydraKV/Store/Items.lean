import HydraKV.Store.Resize
import HydraKV.Store.Writer
import Mathlib.Data.List.GetD
import Mathlib.Data.List.Perm.Subperm

/-! `Get`, `Set`, `Incr` and `Del` over the items of a table. Each walks its
basket's chain `for item := basket.Items; item != nil; item = item.Next` to
the first item with the key. `Get` returns that item's `Value`; `Set` and
`Incr` write its `Value` and `Ttl` (`Incr` only when the item's value and the
amount parse), or link a new item at the head of the basket; `Del` keeps the
item before the current one in `prev` and unlinks the found item with
`prev.Next = item.Next`, or with `basket.Items = item.Next` at the head.
`Items` are a table's items: the heap, the baskets' `Items`, and the first
address no item has, where `NewEntry` allocates. Proved: from items that hold
the list model's table through chains that are finite and share no item
(`Represents`), `Get` returns what the list model's returns, the locked part
of every mutation returns what the list model's returns and leaves items that
hold the list model's new table, and so does every run of calls
(`Represents.run_calls`); the resize leaves items that hold the list model's
resized table; the items `NewHashMap` starts from hold its table. -/

namespace HydraKV.Store

open Go AOF

/-- The key of the item at `a`. -/
def keyAt (H : Heap) (a : Nat) : Bytes := ((H a).map (·.entry.key)).getD []

/-- The walk of `Set` and `Incr` from `item` to the first item with `key`,
for at most `fuel` items: its address, or `none` at `nil`. The outer `none`
when the fuel runs out or a pointer dangles. -/
def findItem (key : Bytes) : Nat → Heap → Option Nat → Option (Option Nat)
  | _, _, none => some none
  | 0, _, some _ => none
  | fuel + 1, H, some a =>
    match H a with
    | none => none
    | some item => if item.entry.key = key then some (some a) else findItem key fuel H item.next

/-- `Get`'s loop on a basket whose `Items` is `head`: the value of the first
item with `key`, or `(false, "")`. -/
def getItems (fuel : Nat) (key : Bytes) (H : Heap) (head : Option Nat) : Option (Bool × Bytes) :=
  match findItem key fuel H head with
  | none => none
  | some (some a) => (H a).map fun item => (true, item.entry.value)
  | some none => some (false, [])

/-- The search loop of `Del` from `item`, with `prev` the item before it: at
the first item with `key`, `prev.Next = item.Next`, or `basket.Items =
item.Next` when there is no `prev`. Whether it unlinked an item, the heap,
and the basket's `Items`. -/
def unlinkFrom (key : Bytes) : Nat → Heap → Option Nat → Option Nat → Option Nat →
    Option (Bool × Heap × Option Nat)
  | _, H, head, _, none => some (false, H, head)
  | 0, _, _, _, some _ => none
  | fuel + 1, H, head, prev, some a =>
    match H a with
    | none => none
    | some item =>
      if item.entry.key = key then
        match prev with
        | none => some (true, H, item.next)
        | some q => (H q).map fun p => (true, Function.update H q (some { p with next := item.next }), head)
      else unlinkFrom key fuel H head (some a) item.next

/-- `Del`'s change of a basket whose `Items` is `head`. -/
def delItems (fuel : Nat) (key : Bytes) (H : Heap) (head : Option Nat) : Option (Bool × Heap × Option Nat) :=
  if head = none then some (false, H, head) else unlinkFrom key fuel H head none head

/-- The loop of `Set` and `Incr` on a basket whose `Items` is `head`. The
first item with `key` takes the value `upd` makes of its entry, and `ttl`;
when `upd` fails nothing changes and the call returns false. With no such
item, `NewEntry(ttl, key, value, hash, Items)`, allocated at `fresh`, becomes
the head. -/
def upsertItems (upd : Entry → Option Bytes) (fuel : Nat) (ttl : Int64) (key value : Bytes) (hash : UInt64)
    (fresh : Nat) (H : Heap) (head : Option Nat) : Option (Bool × Heap × Option Nat) :=
  match findItem key fuel H head with
  | none => none
  | some (some a) =>
    (H a).map fun item =>
      match upd item.entry with
      | some v =>
        (true, Function.update H a (some { item with entry := { item.entry with value := v, ttl := ttl } }), head)
      | none => (false, H, head)
  | some none => some (true, Function.update H fresh (some ⟨newEntry ttl key value hash, head⟩), some fresh)

/-- `Set`'s loop: the found item takes `value`. -/
def setItems (fuel : Nat) (ttl : Int64) (key value : Bytes) :
    UInt64 → Nat → Heap → Option Nat → Option (Bool × Heap × Option Nat) :=
  upsertItems (fun _ => some value) fuel ttl key value

/-- The value `Incr` writes into the found item: `FormatInt(val+add)` when
the item's value and `amount` both parse, and nothing otherwise. -/
def incrValue (amount : Bytes) (e : Entry) : Option Bytes :=
  match HashMap.checkIsNumber e.value, HashMap.checkIsNumber amount with
  | some val, some add => some (formatInt (val + add))
  | _, _ => none

/-- `Incr`'s loop: a new item holds `amount`. -/
def incrItems (fuel : Nat) (ttl : Int64) (key amount : Bytes) :
    UInt64 → Nat → Heap → Option Nat → Option (Bool × Heap × Option Nat) :=
  upsertItems (incrValue amount) fuel ttl key amount

/-! ### Chains -/

namespace Chain

variable {H H' : Heap} {p : Option Nat} {l : List Nat}

/-- A chain reads only the `Next` of its items. -/
theorem of_next (hc : Chain H p l) (h : ∀ a ∈ l, (H' a).map Node.next = (H a).map Node.next) :
    Chain H' p l := by
  induction hc with
  | nil => exact .nil
  | @cons a item l ha _ ih =>
    have hn := h a (List.mem_cons_self _ _)
    rw [ha] at hn
    obtain ⟨item', h', he⟩ := Option.map_eq_some'.1 hn
    exact .cons h' (he ▸ ih fun b hb => h b (List.mem_cons_of_mem _ hb))

theorem ne_none {b : Nat} (hc : Chain H p l) (hb : b ∈ l) : p ≠ none := by
  cases hc with
  | nil => cases hb
  | cons => exact Option.some_ne_none _

theorem inv_cons {b : Nat} (hc : Chain H p (b :: l)) : ∃ item, p = some b ∧ H b = some item ∧ Chain H item.next l := by
  cases hc; exact ⟨_, rfl, ‹_›, ‹_›⟩

/-- Unlinking `a` after `q`: with `q.Next` set to `a.Next`, the chain skips
`a`. -/
theorem bypass {q a : Nat} {nq na : Node} (hq : H q = some nq) (ha : H a = some na) :
    ∀ (pre : List Nat) {p : Option Nat} {rest : List Nat}, Chain H p (pre ++ q :: a :: rest) →
      (pre ++ q :: a :: rest).Nodup →
      Chain (Function.update H q (some { nq with next := na.next })) p (pre ++ q :: rest)
  | [], p, rest, hc, hnd => by
    obtain ⟨nq', rfl, hq', hc⟩ := hc.inv_cons
    obtain ⟨na', -, ha', hc⟩ := hc.inv_cons
    obtain rfl := Option.some.inj (hq.symm.trans hq')
    obtain rfl := Option.some.inj (ha.symm.trans ha')
    refine .cons (Function.update_same _ _ _) (hc.congr fun b hb => Function.update_noteq ?_ _ _)
    rintro rfl
    exact (List.nodup_cons.1 hnd).1 (List.mem_cons_of_mem _ hb)
  | b :: pre, p, rest, hc, hnd => by
    obtain ⟨nb, rfl, hb, hc⟩ := hc.inv_cons
    have hbq : b ≠ q := fun h => (List.nodup_cons.1 hnd).1 (h ▸ List.mem_append_right _ (List.mem_cons_self _ _))
    exact .cons ((Function.update_noteq hbq _ _).trans hb) (bypass hq ha pre hc (List.nodup_cons.1 hnd).2)

end Chain

theorem keyAt_of_eq {H : Heap} {a : Nat} {item : Node} (ha : H a = some item) : keyAt H a = item.entry.key := by
  simp [keyAt, ha]

/-- Every chain either holds no item with `key` or splits at the first one. -/
theorem split_first (H : Heap) (key : Bytes) (l : List Nat) :
    (∀ b ∈ l, keyAt H b ≠ key) ∨
      ∃ l₁ a l₂, l = l₁ ++ a :: l₂ ∧ (∀ b ∈ l₁, keyAt H b ≠ key) ∧ keyAt H a = key := by
  induction l with
  | nil => exact .inl fun _ h => absurd h (List.not_mem_nil _)
  | cons b l ih =>
    by_cases hb : keyAt H b = key
    · exact .inr ⟨[], b, l, rfl, fun _ h => absurd h (List.not_mem_nil _), hb⟩
    rcases ih with h | ⟨l₁, a, l₂, rfl, h₁, ha⟩
    · exact .inl fun c hc => (List.mem_cons.1 hc).elim (· ▸ hb) (h c)
    · exact .inr ⟨b :: l₁, a, l₂, rfl, fun c hc => (List.mem_cons.1 hc).elim (· ▸ hb) (h₁ c), ha⟩

/-! ### The walks -/

section Walks

variable {H : Heap} {key : Bytes}

/-- With fuel for the chain, `Set`'s walk stops at its first item with the
key. -/
theorem findItem_eq {p : Option Nat} {l : List Nat} (hc : Chain H p l) :
    ∀ {fuel : Nat}, l.length ≤ fuel → findItem key fuel H p = some (l.find? (keyAt H · == key)) := by
  induction hc with
  | nil => intro fuel _; cases fuel <;> rfl
  | @cons a item l ha _ ih =>
    rintro (_ | fuel) hf
    · simp at hf
    · by_cases hk : item.entry.key = key <;>
        simp [findItem, ha, hk, keyAt_of_eq ha, ih (Nat.le_of_succ_le_succ hf)]

theorem find?_absent {l : List Nat} (hk : ∀ b ∈ l, keyAt H b ≠ key) : l.find? (keyAt H · == key) = none :=
  List.find?_eq_none.2 fun b hb => by simpa using hk b hb

theorem find?_found {l₁ l₂ : List Nat} {a : Nat} (hk₁ : ∀ b ∈ l₁, keyAt H b ≠ key) (hk : keyAt H a = key) :
    (l₁ ++ a :: l₂).find? (keyAt H · == key) = some a := by
  simp [find?_absent hk₁, hk]

/-- Without an item with the key, `Del`'s loop runs off the chain and changes
nothing. -/
theorem unlinkFrom_absent {p : Option Nat} {l : List Nat} (hc : Chain H p l) (hk : ∀ b ∈ l, keyAt H b ≠ key) :
    ∀ {fuel : Nat} (head prev : Option Nat), l.length ≤ fuel →
      unlinkFrom key fuel H head prev p = some (false, H, head) := by
  induction hc with
  | nil => intro fuel _ _ _; cases fuel <;> rfl
  | @cons a item l ha _ ih =>
    rintro (_ | fuel) head prev hf
    · simp at hf
    · have hne : item.entry.key ≠ key := keyAt_of_eq ha ▸ hk a (List.mem_cons_self _ _)
      simp only [unlinkFrom, ha, if_neg hne]
      exact ih (fun b hb => hk b (List.mem_cons_of_mem _ hb)) head (some a) (Nat.le_of_succ_le_succ hf)

/-- `Del`'s loop, entered at the items `l₁ ++ a :: l₂` that follow the items
`pre` of the chain from `head`, with `prev` the last of `pre`: it unlinks
`a`, the first item with the key, and changes only the `Next` of the item
before it. -/
theorem unlinkFrom_found {a : Nat} {na : Node} {l₂ : List Nat} (ha : H a = some na) (hk : na.entry.key = key) :
    ∀ (l₁ pre : List Nat) {fuel : Nat} {head p : Option Nat}, (∀ b ∈ l₁, keyAt H b ≠ key) → l₁.length < fuel →
      Chain H head (pre ++ l₁ ++ a :: l₂) → Chain H p (l₁ ++ a :: l₂) → (pre ++ l₁ ++ a :: l₂).Nodup →
      ∃ H' head', unlinkFrom key fuel H head pre.getLast? p = some (true, H', head') ∧
        Chain H' head' (pre ++ l₁ ++ l₂) ∧ Relinked H H' (pre ++ l₁)
  | _, _, 0, _, _, _, hf, _, _, _ => absurd hf (Nat.not_lt_zero _)
  | [], pre, fuel + 1, head, p, _, _, hc, hp, hnd => by
    obtain ⟨na', rfl, ha', hn⟩ := hp.inv_cons
    obtain rfl := Option.some.inj (ha.symm.trans ha')
    rcases List.eq_nil_or_concat pre with rfl | ⟨pre, q, rfl⟩
    · obtain ⟨_, rfl, -, -⟩ := hc.inv_cons
      exact ⟨H, na.next, by simp [unlinkFrom, ha, hk], hn, Relinked.refl H⟩
    · obtain ⟨nq, hq⟩ := hc.exists_of_mem (show q ∈ _ by simp)
      refine ⟨_, head, by simp [unlinkFrom, ha, hk, hq], ?_, (Relinked.update_next hq na.next).mono (by simp)⟩
      simpa using Chain.bypass hq ha pre (by simpa using hc) (by simpa using hnd)
  | b :: l₁, pre, fuel + 1, head, p, hk₁, hf, hc, hp, hnd => by
    obtain ⟨nb, rfl, hb, hp⟩ := hp.inv_cons
    have hne : nb.entry.key ≠ key := keyAt_of_eq hb ▸ hk₁ b (List.mem_cons_self _ _)
    obtain ⟨H', head', hrun, hc', hrel⟩ := unlinkFrom_found ha hk l₁ (pre ++ [b])
      (fun c hc => hk₁ c (List.mem_cons_of_mem _ hc)) (Nat.lt_of_succ_lt_succ hf) (by simpa using hc) hp
      (by simpa using hnd)
    refine ⟨H', head', ?_, by simpa using hc', by simpa using hrel⟩
    simpa [unlinkFrom, hb, hne] using hrun

end Walks

/-! ### One basket -/

/-- What a basket operation did to the basket's chain `l`: in the new heap
`H'` the basket's `Items` is `head'`, the head of a chain `l'` that has no
repeated item, holds only items of `l` and the new item at `fresh`, and reads
through `contents` as `f` of `l`'s entries; every other item is as it was. -/
structure Rewrote (H H' : Heap) (fresh : Nat) (l l' : List Nat) (head' : Option Nat)
    (f : List Entry → List Entry) : Prop where
  chain : Chain H' head' l'
  nodup : l'.Nodup
  mem : ∀ b ∈ l', b ∈ l ∨ b = fresh
  contents : contents H' l' = f (contents H l)
  frame : ∀ b, b ∉ l → b ≠ fresh → H' b = H b

section Basket

variable {H : Heap} {key : Bytes} {head : Option Nat} {l l₁ l₂ : List Nat} {a fuel fresh : Nat} {na : Node}

@[simp] theorem contents_append (H : Heap) (l l' : List Nat) : contents H (l ++ l') = contents H l ++ contents H l' :=
  List.filterMap_append ..

theorem contents_congr {H' : Heap} (h : ∀ b ∈ l, H' b = H b) : contents H' l = contents H l :=
  List.filterMap_congr fun b hb => by rw [h b hb]

theorem key_ne_of_mem_contents {e : Entry} (hk : ∀ b ∈ l, keyAt H b ≠ key) (he : e ∈ contents H l) :
    e.key ≠ key := by
  obtain ⟨b, hb, he⟩ := List.mem_filterMap.1 he
  obtain ⟨item, hbi, rfl⟩ := Option.map_eq_some'.1 he
  exact keyAt_of_eq hbi ▸ hk b hb

theorem findKey_contents_absent (hk : ∀ b ∈ l, keyAt H b ≠ key) : findKey key (contents H l) = none :=
  List.find?_eq_none.2 fun e he => by simpa using key_ne_of_mem_contents hk he

theorem findKey_contents_found (ha : H a = some na) (hk : na.entry.key = key) (hk₁ : ∀ b ∈ l₁, keyAt H b ≠ key) :
    findKey key (contents H (l₁ ++ a :: l₂)) = some na.entry := by
  have h₁ := findKey_contents_absent hk₁
  unfold findKey at h₁ ⊢
  rw [contents_append, List.find?_append, h₁, contents_cons ha]
  simp [hk]

theorem Rewrote.refl (hc : Chain H head l) (hnd : l.Nodup) : Rewrote H H fresh l l head id :=
  ⟨hc, hnd, fun _ hb => .inl hb, rfl, fun _ _ _ => rfl⟩

/-- Linking a new item, allocated at `fresh`, in front of the chain. -/
theorem rewrote_insert (hc : Chain H head l) (hnd : l.Nodup) (hfresh : H fresh = none) (e : Entry) :
    Rewrote H (Function.update H fresh (some ⟨e, head⟩)) fresh l (fresh :: l) (some fresh) (e :: ·) := by
  have hne : ∀ b ∈ l, b ≠ fresh := fun b hb hbf => by
    obtain ⟨_, hb'⟩ := hc.exists_of_mem hb
    simp [hbf, hfresh] at hb'
  have hfr : ∀ b ∈ l, Function.update H fresh (some ⟨e, head⟩) b = H b :=
    fun b hb => Function.update_noteq (hne b hb) _ _
  refine ⟨.cons (Function.update_same _ _ _) (hc.congr hfr), List.nodup_cons.2 ⟨fun h => hne _ h rfl, hnd⟩,
    fun b hb => (List.mem_cons.1 hb).symm, ?_, fun b _ hb => Function.update_noteq hb _ _⟩
  rw [contents_cons (Function.update_same _ _ _), contents_congr hfr]

/-- Writing a new entry into the first item with the key, in place. -/
theorem rewrote_update (hc : Chain H head (l₁ ++ a :: l₂)) (hnd : (l₁ ++ a :: l₂).Nodup) (ha : H a = some na)
    (hk : na.entry.key = key) (hk₁ : ∀ b ∈ l₁, keyAt H b ≠ key) (e : Entry) :
    Rewrote H (Function.update H a (some { na with entry := e })) fresh (l₁ ++ a :: l₂) (l₁ ++ a :: l₂) head
      (·.replace na.entry e) := by
  have hfr : ∀ b ∈ l₁ ++ l₂, Function.update H a (some { na with entry := e }) b = H b :=
    fun b hb => Function.update_noteq (by rintro rfl; exact (List.nodup_middle.1 hnd |> List.nodup_cons.1).1 hb) _ _
  have hna : na.entry ∉ contents H l₁ := fun h => key_ne_of_mem_contents hk₁ h hk
  refine ⟨hc.of_next fun b _ => ?_, hnd, fun _ hb => .inl hb, ?_, fun b hb _ => Function.update_noteq ?_ _ _⟩
  · by_cases hb : b = a
    · subst hb; simp [ha]
    · simp [Function.update_noteq hb]
  · rw [contents_append, contents_append, contents_cons ha, contents_cons (Function.update_same _ _ _),
      contents_congr fun b hb => hfr b (List.mem_append_left _ hb),
      contents_congr fun b hb => hfr b (List.mem_append_right _ hb), List.replace_append_right hna,
      List.replace_cons_self]
  · rintro rfl; simp at hb

/-- Unlinking the first item with the key: the chain skips it. -/
theorem rewrote_erase {H' : Heap} {head' : Option Nat} (hnd : (l₁ ++ a :: l₂).Nodup) (ha : H a = some na)
    (hk : na.entry.key = key) (hk₁ : ∀ b ∈ l₁, keyAt H b ≠ key) (hc' : Chain H' head' (l₁ ++ l₂))
    (hrel : Relinked H H' l₁) :
    Rewrote H H' fresh (l₁ ++ a :: l₂) (l₁ ++ l₂) head' (·.erase na.entry) := by
  have hna : na.entry ∉ contents H l₁ := fun h => key_ne_of_mem_contents hk₁ h hk
  refine ⟨hc', (List.nodup_cons.1 (List.nodup_middle.1 hnd)).2, fun b hb => .inl ?_, ?_,
    fun b hb _ => hrel.frame b fun h => hb (List.mem_append_left _ h)⟩
  · rcases List.mem_append.1 hb with hb | hb <;> simp [hb]
  · rw [hrel.contents, contents_append, contents_append, contents_cons ha, List.erase_append_right _ hna,
      List.erase_cons_head]

variable (fresh) (upd : Entry → Option Bytes) (ttl : Int64) (value : Bytes) (hash : UInt64)

/-- With no item with the key, `Set` and `Incr` link a new item. -/
theorem upsertItems_absent (hc : Chain H head l) (hnd : l.Nodup) (hf : l.length ≤ fuel) (hfresh : H fresh = none)
    (hk : ∀ b ∈ l, keyAt H b ≠ key) :
    ∃ H', upsertItems upd fuel ttl key value hash fresh H head = some (true, H', some fresh) ∧
      Rewrote H H' fresh l (fresh :: l) (some fresh) (newEntry ttl key value hash :: ·) :=
  ⟨_, by simp [upsertItems, findItem_eq hc hf, find?_absent hk], rewrote_insert hc hnd hfresh _⟩

/-- At the first item with the key, `Set` and `Incr` write the value `upd`
makes of its entry. -/
theorem upsertItems_update {v : Bytes} (hc : Chain H head (l₁ ++ a :: l₂)) (hnd : (l₁ ++ a :: l₂).Nodup)
    (hf : (l₁ ++ a :: l₂).length ≤ fuel) (ha : H a = some na) (hk : na.entry.key = key)
    (hk₁ : ∀ b ∈ l₁, keyAt H b ≠ key) (hv : upd na.entry = some v) :
    ∃ H', upsertItems upd fuel ttl key value hash fresh H head = some (true, H', head) ∧
      Rewrote H H' fresh (l₁ ++ a :: l₂) (l₁ ++ a :: l₂) head
        (·.replace na.entry { na.entry with value := v, ttl := ttl }) :=
  ⟨_, by simp [upsertItems, findItem_eq hc hf, find?_found hk₁ ((keyAt_of_eq ha).trans hk), ha, hv],
    rewrote_update hc hnd ha hk hk₁ _⟩

/-- When `upd` fails on the first item with the key, nothing changes. -/
theorem upsertItems_keep (hc : Chain H head (l₁ ++ a :: l₂)) (hf : (l₁ ++ a :: l₂).length ≤ fuel)
    (ha : H a = some na) (hk : na.entry.key = key) (hk₁ : ∀ b ∈ l₁, keyAt H b ≠ key) (hv : upd na.entry = none) :
    upsertItems upd fuel ttl key value hash fresh H head = some (false, H, head) := by
  simp [upsertItems, findItem_eq hc hf, find?_found hk₁ ((keyAt_of_eq ha).trans hk), ha, hv]

/-- With no item with the key, `Del` changes nothing. -/
theorem delItems_absent (hc : Chain H head l) (hk : ∀ b ∈ l, keyAt H b ≠ key) (hf : l.length ≤ fuel) :
    delItems fuel key H head = some (false, H, head) := by
  unfold delItems
  split_ifs
  · rfl
  · exact unlinkFrom_absent hc hk head none hf

/-- `Del` unlinks the first item with the key. -/
theorem delItems_found (hc : Chain H head (l₁ ++ a :: l₂)) (hnd : (l₁ ++ a :: l₂).Nodup)
    (hf : (l₁ ++ a :: l₂).length ≤ fuel) (ha : H a = some na) (hk : na.entry.key = key)
    (hk₁ : ∀ b ∈ l₁, keyAt H b ≠ key) :
    ∃ H' head', delItems fuel key H head = some (true, H', head') ∧
      Rewrote H H' fresh (l₁ ++ a :: l₂) (l₁ ++ l₂) head' (·.erase na.entry) := by
  obtain ⟨H', head', hrun, hc', hrel⟩ := unlinkFrom_found ha hk l₁ [] hk₁
    (show l₁.length < fuel by simp at hf; omega) (by simpa using hc) hc (by simpa using hnd)
  refine ⟨H', head', ?_, rewrote_erase hnd ha hk hk₁ (by simpa using hc') (by simpa using hrel)⟩
  simpa [delItems, hc.ne_none (List.mem_append_right _ (List.mem_cons_self a l₂))] using hrun

end Basket

/-! ### The table -/

section Table

variable {H H' : Heap} {table : List (Option Nat)} {ls : List (List Nat)}

theorem forall₂_getD (hc : List.Forall₂ (Chain H) table ls) : ∀ i, Chain H (table.getD i none) (ls.getD i []) := by
  induction hc with
  | nil => exact fun _ => .nil
  | cons h _ ih => rintro (_ | i); exacts [h, ih i]

theorem map_contents_congr (h : ∀ b ∈ ls.flatten, H' b = H b) : ls.map (contents H') = ls.map (contents H) :=
  List.map_congr_left fun _ hl => contents_congr fun b hb => h b (List.mem_flatten_of_mem hl hb)

/-- Writing basket `i`'s new `Items` back: when the new heap keeps every item
outside basket `i` and the basket's new chain reads as `f` of its old one,
the table reads as the list model's `modify f i`. -/
theorem forall₂_set {head' : Option Nat} {l' : List Nat} {f : List Entry → List Entry} :
    ∀ {table : List (Option Nat)} {ls : List (List Nat)} (i : Nat), List.Forall₂ (Chain H) table ls →
      ls.flatten.Nodup → (∀ b ∈ ls.flatten, b ∉ ls.getD i [] → H' b = H b) → Chain H' head' l' →
      contents H' l' = f (contents H (ls.getD i [])) →
      List.Forall₂ (Chain H') (table.set i head') (ls.modify (fun _ => l') i) ∧
        (ls.modify (fun _ => l') i).map (contents H') = (ls.map (contents H)).modify f i
  | _, _, _, .nil, _, _, _, _ => by simp
  | _ :: _, l :: ls, 0, .cons _ hc, hnd, hfr, hc', hct => by
    have hfr' : ∀ b ∈ ls.flatten, H' b = H b :=
      fun b hb => hfr b (List.mem_append_right _ hb) fun hl => List.disjoint_of_nodup_append hnd hl hb
    exact ⟨.cons hc' (Chain.forall₂_congr hc hfr'), by simp [hct, map_contents_congr hfr']⟩
  | _ :: _, l :: ls, i + 1, .cons hl hc, hnd, hfr, hc', hct => by
    have hfr₀ : ∀ b ∈ l, H' b = H b := fun b hb => hfr b (List.mem_append_left _ hb)
      fun hi => List.disjoint_of_nodup_append hnd hb ((getD_sublist_flatten i).subset hi)
    obtain ⟨h₁, h₂⟩ := forall₂_set i hc (List.nodup_append.1 hnd).2.1
      (fun b hb => hfr b (List.mem_append_right _ hb)) hc' hct
    exact ⟨.cons (hl.congr hfr₀) h₁, by simp [h₂, contents_congr hfr₀]⟩

/-- The chains stay free of repeated items when basket `i`'s new chain has
none and holds only its old items and items that were in no chain. -/
theorem nodup_flatten_modify {i : Nat} {l' : List Nat} (hnd : ls.flatten.Nodup) (hl' : l'.Nodup)
    (hnew : ∀ b ∈ l', b ∈ ls.getD i [] ∨ b ∉ ls.flatten) : (ls.modify (fun _ => l') i).flatten.Nodup := by
  rcases lt_or_le i ls.length with hi | hi
  · obtain ⟨rest, hp, hp'⟩ := flatten_modify_perm (fun _ => l') hi
    have hr := List.nodup_append.1 (hp'.nodup_iff.1 hnd)
    refine hp.nodup_iff.2 (List.nodup_append.2 ⟨hl', hr.2.1, fun b hb hb' => ?_⟩)
    rcases hnew b hb with h | h
    · exact hr.2.2 h hb'
    · exact h (hp'.symm.subset (List.mem_append_right _ hb'))
  · rwa [List.modify_eq_self hi]

end Table

/-! ### The items of a table -/

/-- Calls of the list model one after another, each at its clock second:
what each returned, and the table after. -/
def HashMap.calls (hm : HashMap) : List (Int64 × Mutation) → List Bool × HashMap
  | [] => ([], hm)
  | (now, m) :: ms => ((m.run now hm).1 :: ((m.run now hm).2.calls ms).1, ((m.run now hm).2.calls ms).2)

/-- The items of one table: the heap, each basket's `Items`, and the first
address no item has yet, where `NewEntry` allocates. -/
structure Items where
  heap : Heap
  heads : List (Option Nat)
  next : Nat

namespace Items

/-- The items `NewHashMap` starts from: `DefaultBasketSize` empty baskets. -/
def init : Items := ⟨fun _ => none, List.replicate DefaultBasketSize none, 0⟩

/-- A basket operation on basket `i`, its new `Items` written back. Every
walk gets `next` items of fuel, which no chain exceeds
(`Represents.length_le`), and the allocator moves on. -/
def onBasket (s : Items) (i : Nat) (op : Heap → Option Nat → Option (Bool × Heap × Option Nat)) :
    Option (Bool × Items) :=
  (op s.heap (s.heads.getD i none)).map fun r => (r.1, ⟨r.2.1, s.heads.set i r.2.2, s.next + 1⟩)

/-- A mutation's part under the locks, with `idx` the key's basket and hash
(`getIndex`). -/
def locked (idx : Bytes → Nat × UInt64) (s : Items) : Mutation → Option (Bool × Items)
  | .set ttl key value => s.onBasket (idx key).1 (setItems s.next ttl key value (idx key).2 s.next)
  | .incr ttl key amount => s.onBasket (idx key).1 (incrItems s.next ttl key amount (idx key).2 s.next)
  | .del key => s.onBasket (idx key).1 (delItems s.next key)

/-- `checkNewBasket` on the items, with `next` items of fuel. -/
def checkNewBasket (s : Items) : Option Items :=
  (checkNewBasketHeap s.next s.heap s.heads).map fun r => ⟨r.1, r.2, s.next⟩

/-- `Get` on the items, with `idx` the key's basket and hash. -/
def get (idx : Bytes → Nat × UInt64) (s : Items) (key : Bytes) : Option (Bool × Bytes) :=
  getItems s.next key s.heap (s.heads.getD (idx key).1 none)

/-- The locked parts of mutations, one after another: what each returned,
and the items after. -/
def run (idx : Bytes → Nat × UInt64) : Items → List Mutation → Option (List Bool × Items)
  | s, [] => some ([], s)
  | s, m :: ms => (s.locked idx m).bind fun r => (r.2.run idx ms).map fun r' => (r.1 :: r'.1, r'.2)

/-- The items hold the list model's table `hm.table` through the chains `ls`:
the baskets' chains are finite and share no item, they read through
`contents` as `hm.table`, and no item sits at `next` or after. -/
structure Represents (s : Items) (hm : HashMap) (ls : List (List Nat)) : Prop where
  chain : List.Forall₂ (Chain s.heap) s.heads ls
  nodup : ls.flatten.Nodup
  table : ls.map (contents s.heap) = hm.table
  fresh : ∀ b, s.next ≤ b → s.heap b = none

theorem represents_init (xxhash : Bytes → UInt64) (numCPU multiplier now : Int64) :
    init.Represents (HashMap.init xxhash numCPU multiplier now) (List.replicate DefaultBasketSize []) where
  chain := (holds_replicate _ _).forall₂
  nodup := by simp
  table := by simp [HashMap.init, contents]
  fresh _ _ := rfl

namespace Represents

variable {s : Items} {hm : HashMap} {ls : List (List Nat)} (h : s.Represents hm ls)
include h

theorem enqueue (d : Data) : s.Represents (hm.enqueue d) ls :=
  ⟨h.chain, h.nodup, by rw [HashMap.enqueue_table]; exact h.table, h.fresh⟩

theorem lt_next {b : Nat} (hb : b ∈ ls.flatten) : b < s.next := by
  obtain ⟨_, hb'⟩ := Chain.exists_of_mem_flatten h.chain b hb
  exact Nat.lt_of_not_le fun hn => by simp [h.fresh b hn] at hb'

/-- No part of the chains is longer than `next`: its items are distinct
addresses below it. -/
theorem length_le {l : List Nat} (hl : l.Sublist ls.flatten) : l.length ≤ s.next :=
  ((h.nodup.sublist hl).subperm fun _ hb => List.mem_range.2 (h.lt_next (hl.subset hb))).length_le.trans
    (List.length_range s.next).le

theorem basket_chain (i : Nat) :
    Chain s.heap (s.heads.getD i none) (ls.getD i []) ∧ (ls.getD i []).Nodup ∧ (ls.getD i []).length ≤ s.next :=
  ⟨forall₂_getD h.chain i, h.nodup.sublist (getD_sublist_flatten i), h.length_le (getD_sublist_flatten i)⟩

theorem basket (i : Nat) : hm.basket i = contents s.heap (ls.getD i []) := by
  rw [HashMap.basket, ← h.table]
  exact List.getD_map ls [] (contents s.heap)

/-- The key's basket either holds no item with the key, where the list
model's `findKey` finds none, or splits at the first one, whose entry
`findKey` finds. -/
theorem find (key : Bytes) (i : Nat) :
    (∀ b ∈ ls.getD i [], keyAt s.heap b ≠ key) ∧ findKey key (hm.basket i) = none ∨
      ∃ l₁ a l₂ na, ls.getD i [] = l₁ ++ a :: l₂ ∧ s.heap a = some na ∧ na.entry.key = key ∧
        (∀ b ∈ l₁, keyAt s.heap b ≠ key) ∧ findKey key (hm.basket i) = some na.entry := by
  rw [h.basket]
  rcases split_first s.heap key (ls.getD i []) with hk | ⟨l₁, a, l₂, hl, hk₁, hka⟩
  · exact .inl ⟨hk, findKey_contents_absent hk⟩
  · obtain ⟨na, ha⟩ := (forall₂_getD h.chain i).exists_of_mem (show a ∈ ls.getD i [] by rw [hl]; simp)
    have hk : na.entry.key = key := (keyAt_of_eq ha).symm.trans hka
    exact .inr ⟨l₁, a, l₂, na, hl, ha, hk, hk₁, by rw [hl]; exact findKey_contents_found ha hk hk₁⟩

/-- Basket `i` written back after an operation that did `Rewrote` to its
chain, with `next` as the fresh address: the items hold the table the list
model's `modify f i` gives. -/
theorem writeBack {i : Nat} {l : List Nat} {H' : Heap} {head' : Option Nat} {l' : List Nat}
    {f : List Entry → List Entry} (hl : ls.getD i [] = l) (hr : Rewrote s.heap H' s.next l l' head' f)
    {hm' : HashMap} (ht : hm'.table = hm.table.modify f i) :
    Represents ⟨H', s.heads.set i head', s.next + 1⟩ hm' (ls.modify (fun _ => l') i) := by
  subst hl
  obtain ⟨hc, hct⟩ := forall₂_set i h.chain h.nodup (fun b hb hbi => hr.frame b hbi (h.lt_next hb).ne)
    hr.chain hr.contents
  refine ⟨hc, nodup_flatten_modify h.nodup hr.nodup fun b hb => (hr.mem b hb).imp_right ?_,
    by rw [hct, h.table, ht], fun b hb => ?_⟩
  · rintro rfl hb
    exact Nat.lt_irrefl _ (h.lt_next hb)
  · have hb' : s.next < b := hb
    have hnot : b ∉ ls.getD i [] := fun hbi => by
      have := h.lt_next ((getD_sublist_flatten i).subset hbi)
      omega
    show H' b = none
    rw [hr.frame b hnot (by omega), h.fresh b (by omega)]

/-! ### Mutations -/

omit h in
theorem onBasket_eq {i : Nat} {op : Heap → Option Nat → Option (Bool × Heap × Option Nat)} {b : Bool} {H' : Heap}
    {head' : Option Nat} (hrun : op s.heap (s.heads.getD i none) = some (b, H', head')) :
    s.onBasket i op = some (b, ⟨H', s.heads.set i head', s.next + 1⟩) := by
  rw [onBasket, hrun]
  rfl

theorem setLocked (now ttl : Int64) (key value : Bytes) :
    ∃ s' ls', s.locked hm.getIndex (.set ttl key value) = some ((hm.setLocked now ttl key value).1, s') ∧
      s'.Represents (hm.setLocked now ttl key value).2 ls' := by
  obtain ⟨hc, hnd, hf⟩ := h.basket_chain (hm.getIndex key).1
  rcases h.find key (hm.getIndex key).1 with ⟨hk, hfk⟩ | ⟨l₁, a, l₂, na, hl, ha, hka, hk₁, hfk⟩
  · obtain ⟨H', hrun, hr⟩ := upsertItems_absent s.next (fun _ => some value) ttl value (hm.getIndex key).2 hc hnd
      hf (h.fresh _ le_rfl) hk
    have hset : hm.setLocked now ttl key value =
        (true, hm.insertItem now (hm.getIndex key).1 (newEntry ttl key value (hm.getIndex key).2)) := by
      simp only [HashMap.setLocked, hfk]
    rw [hset]
    exact ⟨_, _, onBasket_eq hrun, h.writeBack rfl hr rfl⟩
  · rw [hl] at hc hnd hf
    obtain ⟨H', hrun, hr⟩ := upsertItems_update s.next (fun _ => some value) ttl value (hm.getIndex key).2 hc hnd
      hf ha hka hk₁ rfl
    have hset : hm.setLocked now ttl key value =
        (true, hm.updateItem now (hm.getIndex key).1 na.entry value ttl) := by
      simp only [HashMap.setLocked, hfk]
    rw [hset]
    exact ⟨_, _, onBasket_eq hrun, h.writeBack hl hr rfl⟩

theorem incrLocked (now ttl : Int64) (key amount : Bytes) :
    ∃ s' ls', s.locked hm.getIndex (.incr ttl key amount) = some ((hm.incrLocked now ttl key amount).1, s') ∧
      s'.Represents (hm.incrLocked now ttl key amount).2 ls' := by
  obtain ⟨hc, hnd, hf⟩ := h.basket_chain (hm.getIndex key).1
  rcases h.find key (hm.getIndex key).1 with ⟨hk, hfk⟩ | ⟨l₁, a, l₂, na, hl, ha, hka, hk₁, hfk⟩
  · obtain ⟨H', hrun, hr⟩ := upsertItems_absent s.next (incrValue amount) ttl amount (hm.getIndex key).2 hc hnd
      hf (h.fresh _ le_rfl) hk
    have hincr : hm.incrLocked now ttl key amount =
        (true, hm.insertItem now (hm.getIndex key).1 (newEntry ttl key amount (hm.getIndex key).2)) := by
      simp only [HashMap.incrLocked, hfk]
    rw [hincr]
    exact ⟨_, _, onBasket_eq hrun, h.writeBack rfl hr rfl⟩
  rw [hl] at hc hnd hf
  simp only [HashMap.incrLocked, hfk]
  cases hx : HashMap.checkIsNumber na.entry.value <;> cases hy : HashMap.checkIsNumber amount
  case some.some x y =>
    obtain ⟨H', hrun, hr⟩ := upsertItems_update s.next (incrValue amount) ttl amount (hm.getIndex key).2 hc hnd hf
      ha hka hk₁ (show incrValue amount na.entry = some (formatInt (x + y)) by simp [incrValue, hx, hy])
    exact ⟨_, _, onBasket_eq hrun, h.writeBack hl hr rfl⟩
  all_goals
    have hrun := upsertItems_keep s.next (incrValue amount) ttl amount (hm.getIndex key).2 hc hf ha hka hk₁
      (by simp [incrValue, hx, hy])
    exact ⟨_, _, onBasket_eq hrun, h.writeBack hl (Rewrote.refl hc hnd) (List.modify_id _ _).symm⟩

theorem delLocked (key : Bytes) :
    ∃ s' ls', s.locked hm.getIndex (.del key) = some ((hm.delLocked key).1, s') ∧
      s'.Represents (hm.delLocked key).2 ls' := by
  obtain ⟨hc, hnd, hf⟩ := h.basket_chain (hm.getIndex key).1
  rcases h.find key (hm.getIndex key).1 with ⟨hk, hfk⟩ | ⟨l₁, a, l₂, na, hl, ha, hka, hk₁, hfk⟩
  · rw [show hm.delLocked key = (false, hm) by simp only [HashMap.delLocked, hfk, ite_self]]
    exact ⟨_, _, onBasket_eq (delItems_absent hc hk hf),
      h.writeBack rfl (Rewrote.refl hc hnd) (List.modify_id _ _).symm⟩
  · rw [hl] at hc hnd hf
    obtain ⟨H', head', hrun, hr⟩ := delItems_found s.next hc hnd hf ha hka hk₁
    have hne : hm.basket (hm.getIndex key).1 ≠ [] := fun he => by rw [he, findKey_nil] at hfk; cases hfk
    have hdel : hm.delLocked key = (true, hm.removeItem (hm.getIndex key).1 na.entry) := by
      simp only [HashMap.delLocked, hfk, hne, if_false]
    rw [hdel]
    exact ⟨_, _, onBasket_eq hrun, h.writeBack hl hr rfl⟩

/-- From items that hold the list model's table, the locked part of every
mutation returns what the list model's returns, and leaves items that hold
the list model's new table. -/
theorem locked (now : Int64) (m : Mutation) :
    ∃ s' ls', s.locked hm.getIndex m = some ((m.locked now hm).1, s') ∧ s'.Represents (m.locked now hm).2 ls' := by
  cases m with
  | set ttl key value => exact h.setLocked now ttl key value
  | incr ttl key amount => exact h.incrLocked now ttl key amount
  | del key => exact h.delLocked key

/-- `Get` on items that hold the list model's table returns what the list
model's `Get` returns. -/
theorem get (key : Bytes) : s.get hm.getIndex key = some (hm.get key) := by
  obtain ⟨hc, -, hf⟩ := h.basket_chain (hm.getIndex key).1
  rcases h.find key (hm.getIndex key).1 with ⟨hk, hfk⟩ | ⟨l₁, a, l₂, na, hl, ha, hka, hk₁, hfk⟩
  · simp only [Items.get, getItems, findItem_eq hc hf, find?_absent hk, HashMap.get, hfk]
  · rw [hl] at hc hf
    simp only [Items.get, getItems, findItem_eq hc hf, find?_found hk₁ ((keyAt_of_eq ha).trans hka), ha,
      HashMap.get, hfk, Option.map_some']

/-- The resize of items that hold the list model's table leaves items that
hold the table of the list model's `checkNewBasket`. -/
theorem checkNewBasket : ∃ s' ls', s.checkNewBasket = some s' ∧ s'.Represents hm.checkNewBasket ls' := by
  obtain ⟨H', t', ls', hrun, hc, hp, hent, htab⟩ := checkNewBasketHeap_refines hm s.heap s.heads ls s.next h.chain
    h.nodup (fun _ hl => h.length_le (List.sublist_flatten_of_mem hl)) h.table.symm
  refine ⟨⟨H', t', s.next⟩, ls', by simp [Items.checkNewBasket, hrun], hc, hp.nodup_iff.2 h.nodup, htab,
    fun b hb => ?_⟩
  simpa [h.fresh b hb] using hent b

end Represents

/-- A mutation's locked part keeps the key's basket and hash. -/
theorem getIndex_locked (now : Int64) (m : Mutation) (hm : HashMap) :
    (m.locked now hm).2.getIndex = hm.getIndex := by
  cases m <;> simp only [Mutation.locked, HashMap.setLocked, HashMap.incrLocked, HashMap.delLocked] <;>
    repeat' split
  all_goals rfl

/-- Every run of calls from items that hold the list model's table: the
items' locked parts return what the list model's calls return, and the items
after hold the list model's table after. -/
theorem Represents.run_calls (ms : List (Int64 × Mutation)) :
    ∀ {s : Items} {hm : HashMap} {ls : List (List Nat)}, s.Represents hm ls →
      ∃ s' ls', s.run hm.getIndex (ms.map Prod.snd) = some ((hm.calls ms).1, s') ∧
        s'.Represents (hm.calls ms).2 ls' := by
  induction ms with
  | nil => exact fun h => ⟨_, _, rfl, h⟩
  | cons c ms ih =>
    intro s hm ls h
    obtain ⟨now, m⟩ := c
    have hidx : (hm.enqueue m.data).getIndex = hm.getIndex := funext fun _ => HashMap.enqueue_getIndex
    obtain ⟨s₁, ls₁, h₁, hr₁⟩ := (h.enqueue m.data).locked now m
    obtain ⟨s₂, ls₂, h₂, hr₂⟩ := ih hr₁
    rw [getIndex_locked, hidx] at h₂
    rw [hidx] at h₁
    refine ⟨s₂, ls₂, ?_, ?_⟩
    · simp only [List.map_cons, Items.run, h₁, Option.some_bind, h₂, Option.map_some', HashMap.calls, Mutation.run_eq]
    · simpa only [HashMap.calls, Mutation.run_eq] using hr₂

/-- A `Set`, an `Incr` and a `Del` over the items a new table starts from. -/
theorem Represents.run_calls_witness :
    let hm := HashMap.init (fun _ => 0) 4 16 0
    let ms : List (Int64 × Mutation) := [(0, .set 0 [1] [2]), (0, .incr 0 [1] [3]), (0, .del [1])]
    ∃ s' ls', init.run hm.getIndex (ms.map Prod.snd) = some ((hm.calls ms).1, s') ∧
      s'.Represents (hm.calls ms).2 ls' :=
  Represents.run_calls _ (represents_init (fun _ => 0) 4 16 0)

example : ((⟨fun _ => none, [none, none], 0⟩ : Items).run (fun k => (k.length % 2, 0))
    [.set 0 [1] [2], .set 0 [3] [4], .set 0 [1] [5], .del [3], .del [3], .incr 0 [1] [6], .set 0 [3] [7],
      .del [1]]).map Prod.fst = some [true, true, true, true, false, false, true, true] := by
  decide

end Items

end HydraKV.Store
