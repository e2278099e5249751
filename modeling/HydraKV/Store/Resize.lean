import HydraKV.Store.Invariant
import Mathlib.Data.List.Nodup
import Mathlib.Data.List.Forall2

/-! `checkNewBasket` over the items themselves. An `*Item` is a node of a
heap: its entry and its `Next` pointer. A basket's `Items` is the head of a
chain, and `Chain H p l` says that following `Next` from `p` visits the
addresses `l` and reaches `nil`, so the chain is finite. The loop reads
`next := item.Next` before it overwrites `item.Next` with the head of the new
basket, so it walks the old chain while it builds the new ones; the model
runs it with fuel, and any fuel at least the longest old chain is enough.
Proved: from any table whose chains are finite and share no item,
`checkNewBasket` returns a table twice as long whose chains are finite, share
no item and hold every old item exactly once, each in the basket its hash
selects, and it changes no item's entry. Neither a power-of-two length nor
the old placement is needed. Read through `contents`, the new chains are the
table of the list model's `HashMap.checkNewBasket`. -/

namespace HydraKV.Store

open Go

/-- An `*Item`: its entry and its `Next` pointer, `none` for `nil`. -/
structure Node where
  entry : Entry
  next : Option Nat

/-- The items, by address. -/
abbrev Heap := Nat → Option Node

/-- Following `Next` from `p` visits the addresses `l`, in order, and reaches
`nil`. -/
inductive Chain (H : Heap) : Option Nat → List Nat → Prop
  | nil : Chain H none []
  | cons {a : Nat} {item : Node} {l : List Nat} :
    H a = some item → Chain H item.next l → Chain H (some a) (a :: l)

/-- The hash of the item at `a`. -/
def hashAt (H : Heap) (a : Nat) : UInt64 := ((H a).map (·.entry.hash)).getD 0

/-- The entries of the items at `l`: a chain as the list model holds it. -/
def contents (H : Heap) (l : List Nat) : List Entry := l.filterMap fun a => (H a).map Node.entry

/-- The inner loop of `checkNewBasket` from `item`, for at most `fuel`
passes: `next := item.Next`, `newIndex := item.Hash & (newSize-1)`,
`item.Next = newTable[newIndex].Items`, `newTable[newIndex].Items = item`,
`item = next`. The new table is its baskets' `Items`. `none` when the fuel
runs out or a pointer dangles. -/
def relinkChain (newSize : Nat) : Nat → Heap → List (Option Nat) → Option Nat →
    Option (Heap × List (Option Nat))
  | _, H, t, none => some (H, t)
  | 0, _, _, some _ => none
  | fuel + 1, H, t, some a =>
    match H a with
    | none => none
    | some item =>
      let next := item.next
      let newIndex := maskIndex item.entry.hash newSize
      let H := Function.update H a (some { item with next := t.getD newIndex none })
      let t := t.set newIndex (some a)
      relinkChain newSize fuel H t next

/-- `checkNewBasket` on the heap: `2 len` new empty baskets, then the inner
loop over each old basket's chain in order. -/
def checkNewBasketHeap (fuel : Nat) (H : Heap) (table : List (Option Nat)) :
    Option (Heap × List (Option Nat)) :=
  let newSize := table.length * 2
  table.foldlM (fun s head => relinkChain newSize fuel s.1 s.2 head) (H, List.replicate newSize none)

/-! ### Where the loop links the items -/

/-- The chains `ns` with the items `l` linked in order, each at the head of
the chain its hash selects. -/
def linkAll (hash : Nat → UInt64) (n : Nat) (ns : List (List Nat)) (l : List Nat) : List (List Nat) :=
  l.foldl (fun ns a => ns.modify (a :: ·) (maskIndex (hash a) n)) ns

section LinkAll

variable {hash : Nat → UInt64} {n : Nat}

@[simp] theorem length_linkAll (ns : List (List Nat)) (l : List Nat) :
    (linkAll hash n ns l).length = ns.length := by
  induction l generalizing ns with
  | nil => rfl
  | cons a l ih => rw [linkAll, List.foldl_cons, ← linkAll, ih, List.length_modify]

theorem linkAll_append (ns : List (List Nat)) (l l' : List Nat) :
    linkAll hash n ns (l ++ l') = linkAll hash n (linkAll hash n ns l) l' :=
  List.foldl_append ..

variable (hn : 0 < n)
include hn

/-- Linking keeps every item and adds those of `l`. -/
theorem linkAll_perm {ns : List (List Nat)} (hl : ns.length = n) (l : List Nat) :
    (linkAll hash n ns l).flatten.Perm (l ++ ns.flatten) := by
  induction l generalizing ns with
  | nil => exact List.Perm.refl _
  | cons a l ih =>
    have hi : maskIndex (hash a) n < ns.length := hl.symm ▸ maskIndex_lt_of_pos _ hn
    obtain ⟨rest, hnew, hold⟩ := flatten_modify_perm (a :: ·) hi
    exact (ih (by rw [List.length_modify, hl])).trans
      (((hnew.trans (hold.symm.cons a)).append_left l).trans List.perm_middle)

/-- Linking puts each item in the chain its hash selects. -/
theorem linkAll_placed {ns : List (List Nat)} (hl : ns.length = n)
    (hp : ∀ j, ∀ a ∈ ns.getD j [], maskIndex (hash a) n = j) (l : List Nat) :
    ∀ j, ∀ a ∈ (linkAll hash n ns l).getD j [], maskIndex (hash a) n = j := by
  induction l generalizing ns with
  | nil => exact hp
  | cons a l ih =>
    refine ih (by rw [List.length_modify, hl]) fun j b hb => ?_
    rw [getD_modify _ (hl.symm ▸ maskIndex_lt_of_pos _ hn)] at hb
    split at hb
    · rcases List.mem_cons.mp hb with rfl | hb
      · assumption
      · exact hp j b hb
    · exact hp j b hb

end LinkAll

/-! ### Chains in a changing heap -/

namespace Chain

variable {H H' : Heap} {p : Option Nat} {l : List Nat}

/-- A chain reads only its own items: a heap that agrees on them holds it. -/
theorem congr (hc : Chain H p l) (h : ∀ a ∈ l, H' a = H a) : Chain H' p l := by
  induction hc with
  | nil => exact .nil
  | cons ha _ ih =>
    exact .cons ((h _ (List.mem_cons_self _ _)).trans ha) (ih fun b hb => h b (List.mem_cons_of_mem _ hb))

theorem exists_of_mem (hc : Chain H p l) {a : Nat} (ha : a ∈ l) : ∃ item, H a = some item := by
  induction hc with
  | nil => cases ha
  | cons hb _ ih =>
    rcases List.mem_cons.mp ha with rfl | ha
    · exact ⟨_, hb⟩
    · exact ih ha

theorem exists_of_mem_flatten {table : List (Option Nat)} {ls : List (List Nat)}
    (hc : List.Forall₂ (Chain H) table ls) : ∀ a ∈ ls.flatten, ∃ item, H a = some item := by
  induction hc with
  | nil => intro a ha; cases ha
  | cons hl _ ih =>
    intro a ha
    rcases List.mem_append.1 ha with ha | ha
    · exact hl.exists_of_mem ha
    · exact ih a ha

theorem forall₂_congr {table : List (Option Nat)} {ls : List (List Nat)}
    (hc : List.Forall₂ (Chain H) table ls) (h : ∀ a ∈ ls.flatten, H' a = H a) :
    List.Forall₂ (Chain H') table ls := by
  induction hc with
  | nil => exact .nil
  | cons hl _ ih =>
    exact .cons (hl.congr fun a ha => h a (List.mem_append_left _ ha))
      (ih fun a ha => h a (List.mem_append_right _ ha))

end Chain

/-- The new table `t` of `n` baskets holds the chains `ns`. -/
structure Holds (H : Heap) (n : Nat) (t : List (Option Nat)) (ns : List (List Nat)) : Prop where
  length_table : t.length = n
  length_chains : ns.length = n
  chain : ∀ j, Chain H (t.getD j none) (ns.getD j [])

/-- `H'` is `H` with at most the `Next` of the items at `l` changed. -/
structure Relinked (H H' : Heap) (l : List Nat) : Prop where
  frame : ∀ a, a ∉ l → H' a = H a
  entry : ∀ a, (H' a).map Node.entry = (H a).map Node.entry

theorem Relinked.refl (H : Heap) : Relinked H H [] := ⟨fun _ _ => rfl, fun _ => rfl⟩

theorem Relinked.trans {H₁ H₂ H₃ : Heap} {l l' : List Nat} (h : Relinked H₁ H₂ l) (h' : Relinked H₂ H₃ l') :
    Relinked H₁ H₃ (l ++ l') :=
  ⟨fun a ha => (h'.frame a fun h => ha (List.mem_append_right _ h)).trans
      (h.frame a fun h => ha (List.mem_append_left _ h)),
    fun a => (h'.entry a).trans (h.entry a)⟩

/-- Setting one item's `Next` relinks only that item. -/
theorem Relinked.update_next {H : Heap} {a : Nat} {item : Node} (ha : H a = some item) (next : Option Nat) :
    Relinked H (Function.update H a (some { item with next := next })) [a] := by
  refine ⟨fun b hb => Function.update_noteq (by simpa using hb) _ _, fun b => ?_⟩
  by_cases hb : b = a
  · subst hb; simp [ha]
  · rw [Function.update_noteq hb]

theorem Relinked.mono {H H' : Heap} {l l' : List Nat} (h : Relinked H H' l) (hl : l ⊆ l') : Relinked H H' l' :=
  ⟨fun a ha => h.frame a fun h => ha (hl h), h.entry⟩

theorem Relinked.hashAt {H H' : Heap} {l : List Nat} (h : Relinked H H' l) : hashAt H' = hashAt H := by
  funext a
  show ((H' a).map (Entry.hash ∘ Node.entry)).getD 0 = ((H a).map (Entry.hash ∘ Node.entry)).getD 0
  rw [← Option.map_map, h.entry, Option.map_map]

theorem getD_set {α : Type} {t : List α} {i : Nat} (hi : i < t.length) (x d : α) (j : Nat) :
    (t.set i x).getD j d = if i = j then x else t.getD j d := by
  rw [List.getD_eq_getElem?_getD, List.getD_eq_getElem?_getD, List.getElem?_set]
  split_ifs <;> rfl

theorem getD_replicate_self {α : Type} (n j : Nat) (x : α) : (List.replicate n x).getD j x = x := by
  rw [List.getD_eq_getElem?_getD, List.getElem?_replicate]
  split_ifs <;> rfl

theorem forall₂_of_getD {α β : Type} {R : α → β → Prop} {x : α} {y : β} :
    ∀ {l₁ : List α} {l₂ : List β}, l₁.length = l₂.length → (∀ j, R (l₁.getD j x) (l₂.getD j y)) →
      List.Forall₂ R l₁ l₂
  | [], [], _, _ => .nil
  | _ :: _, _ :: _, hl, h => .cons (h 0) (forall₂_of_getD (Nat.succ.inj hl) fun j => h (j + 1))

theorem Holds.forall₂ {H : Heap} {n : Nat} {t : List (Option Nat)} {ns : List (List Nat)} (h : Holds H n t ns) :
    List.Forall₂ (Chain H) t ns :=
  forall₂_of_getD (h.length_table.trans h.length_chains.symm) h.chain

/-- The `2 len` new empty baskets hold empty chains. -/
theorem holds_replicate (H : Heap) (n : Nat) : Holds H n (List.replicate n none) (List.replicate n []) :=
  ⟨List.length_replicate .., List.length_replicate .., fun j => by
    rw [getD_replicate_self, getD_replicate_self]; exact .nil⟩

/-! ### The loop -/

section Loop

variable {n : Nat} (hn : 0 < n)
include hn

/-- One pass at the item `a`: the new table still holds its chains, with `a`
at the head of the chain its hash selects. -/
theorem holds_relinkOne {H : Heap} {t : List (Option Nat)} {ns : List (List Nat)} {a : Nat} {item : Node}
    (ha : H a = some item) (hold : Holds H n t ns) (hnot : a ∉ ns.flatten) :
    Holds (Function.update H a (some { item with next := t.getD (maskIndex item.entry.hash n) none })) n
      (t.set (maskIndex item.entry.hash n) (some a)) (linkAll (hashAt H) n ns [a]) := by
  have hh : hashAt H a = item.entry.hash := by simp [hashAt, ha]
  have hi : maskIndex item.entry.hash n < n := maskIndex_lt_of_pos _ hn
  have hframe (j : Nat) : ∀ b ∈ ns.getD j [],
      Function.update H a (some { item with next := t.getD (maskIndex item.entry.hash n) none }) b = H b :=
    fun b hb => Function.update_noteq (fun h => hnot (by subst h; exact (getD_sublist_flatten j).subset hb)) _ _
  refine ⟨by rw [List.length_set, hold.length_table], by rw [length_linkAll, hold.length_chains], fun j => ?_⟩
  rw [getD_set (by rw [hold.length_table]; exact hi), linkAll, List.foldl_cons, List.foldl_nil, hh,
    getD_modify _ (by rw [hold.length_chains]; exact hi)]
  split_ifs with hij
  · subst hij
    exact .cons (Function.update_same _ _ _) ((hold.chain _).congr (hframe _))
  · exact (hold.chain j).congr (hframe j)

/-- The inner loop over an old chain `rest` that shares no item with the new
chains returns, given fuel for every item, with the items of `rest` linked
and only their `Next` changed. -/
theorem relinkChain_spec (rest : List Nat) : ∀ {fuel : Nat} {H : Heap} {t : List (Option Nat)}
    {ns : List (List Nat)} {item : Option Nat}, Chain H item rest → rest.length ≤ fuel → Holds H n t ns →
    (ns.flatten ++ rest).Nodup → ∃ H' t', relinkChain n fuel H t item = some (H', t') ∧
      Holds H' n t' (linkAll (hashAt H) n ns rest) ∧ Relinked H H' rest := by
  induction rest with
  | nil =>
    rintro fuel H t ns item ⟨⟩ - hold -
    exact ⟨H, t, by cases fuel <;> rfl, hold, Relinked.refl H⟩
  | cons a rest ih =>
    rintro (_ | fuel) H t ns _ (_ | @⟨_, item, _, ha, hc⟩) hfuel hold hnd
    · exact absurd hfuel (by simp)
    obtain ⟨-, hnd', hdis⟩ := List.nodup_append.1 hnd
    have hnot : a ∉ ns.flatten := fun h => hdis h (List.mem_cons_self _ _)
    have hrest : a ∉ rest := (List.nodup_cons.1 hnd').1
    have hrel₁ := Relinked.update_next ha (t.getD (maskIndex item.entry.hash n) none)
    have hnd₁ : ((linkAll (hashAt H) n ns [a]).flatten ++ rest).Nodup :=
      (((linkAll_perm hn hold.length_chains [a]).append_right rest).trans List.perm_middle.symm).nodup_iff.2 hnd
    obtain ⟨H', t', hrun, hold', hrel⟩ := ih (hc.congr fun b hb => hrel₁.frame b fun h =>
      hrest (List.mem_singleton.1 h ▸ hb)) (by simpa using hfuel) (holds_relinkOne hn ha hold hnot) hnd₁
    refine ⟨H', t', by simpa only [relinkChain, ha] using hrun, ?_, hrel₁.trans hrel⟩
    rwa [hrel₁.hashAt, ← linkAll_append] at hold'

/-- The loop over the old baskets: from chains that share no item with each
other or with the new chains, and fuel for each, it returns with every old
item linked and only the items' `Next` changed. -/
theorem foldlM_relinkChain_spec (table : List (Option Nat)) : ∀ {ls : List (List Nat)} {fuel : Nat} {H : Heap}
    {t : List (Option Nat)} {ns : List (List Nat)}, List.Forall₂ (Chain H) table ls → (∀ l ∈ ls, l.length ≤ fuel) →
    Holds H n t ns → (ns.flatten ++ ls.flatten).Nodup →
    ∃ H' t', table.foldlM (fun s head => relinkChain n fuel s.1 s.2 head) (H, t) = some (H', t') ∧
      Holds H' n t' (linkAll (hashAt H) n ns ls.flatten) ∧ Relinked H H' ls.flatten := by
  induction table with
  | nil =>
    rintro _ fuel H t ns ⟨⟩ - hold -
    exact ⟨H, t, rfl, hold, Relinked.refl H⟩
  | cons head table ih =>
    rintro _ fuel H t ns (_ | @⟨_, l, _, ls, hl, hls⟩) hfuel hold hnd
    rw [List.flatten_cons, ← List.append_assoc] at hnd
    obtain ⟨-, -, hdis⟩ := List.nodup_append.1 hnd
    obtain ⟨H₁, t₁, hrun₁, hold₁, hrel₁⟩ :=
      relinkChain_spec hn l hl (hfuel l (List.mem_cons_self _ _)) hold (List.nodup_append.1 hnd).1
    have hnd₁ : ((linkAll (hashAt H) n ns l).flatten ++ ls.flatten).Nodup :=
      (((linkAll_perm hn hold.length_chains l).trans List.perm_append_comm).append_right _).nodup_iff.2 hnd
    obtain ⟨H', t', hrun, hold', hrel⟩ := ih (Chain.forall₂_congr hls fun a ha => hrel₁.frame a fun h =>
      hdis (List.mem_append_right _ h) ha) (fun l' hl' => hfuel l' (List.mem_cons_of_mem _ hl')) hold₁ hnd₁
    refine ⟨H', t', by rw [List.foldlM_cons, hrun₁]; exact hrun, ?_, hrel₁.trans hrel⟩
    rw [hrel₁.hashAt] at hold'
    rwa [List.flatten_cons, linkAll_append]

end Loop

/-- `checkNewBasket` on the items of a nonempty table returns, given fuel for
the longest chain, with the new chains `linkAll` makes from empty ones, and
only the items' `Next` changed. -/
theorem checkNewBasketHeap_spec {H : Heap} {table : List (Option Nat)} {ls : List (List Nat)} {fuel : Nat}
    (hc : List.Forall₂ (Chain H) table ls) (hnd : ls.flatten.Nodup) (hfuel : ∀ l ∈ ls, l.length ≤ fuel)
    (hn : 0 < table.length) :
    ∃ H' t', checkNewBasketHeap fuel H table = some (H', t') ∧
      Holds H' (table.length * 2) t'
        (linkAll (hashAt H) (table.length * 2) (List.replicate (table.length * 2) []) ls.flatten) ∧
      Relinked H H' ls.flatten :=
  foldlM_relinkChain_spec (by omega) table hc hfuel (holds_replicate H _) (by simpa using hnd)

/-- From any table whose chains are finite and share no item, with fuel for
the longest chain, `checkNewBasket` returns a table of twice as many baskets
whose chains are finite and share no item, hold every old item exactly once,
each in the basket `Hash & (2B-1)` of its hash, and it changes no item's
entry. -/
theorem checkNewBasket_relinks_every_item (H : Heap) (table : List (Option Nat)) (ls : List (List Nat))
    (fuel : Nat) (hc : List.Forall₂ (Chain H) table ls) (hnd : ls.flatten.Nodup)
    (hfuel : ∀ l ∈ ls, l.length ≤ fuel) :
    ∃ H' t' ls', checkNewBasketHeap fuel H table = some (H', t') ∧ t'.length = table.length * 2 ∧
      List.Forall₂ (Chain H') t' ls' ∧ ls'.flatten.Nodup ∧ ls'.flatten.Perm ls.flatten ∧
      (∀ j, ∀ a ∈ ls'.getD j [], ∃ item, H' a = some item ∧ maskIndex item.entry.hash (table.length * 2) = j) ∧
      ∀ a, (H' a).map Node.entry = (H a).map Node.entry := by
  rcases Nat.eq_zero_or_pos table.length with h0 | hn
  · obtain rfl := List.length_eq_zero.1 h0
    cases hc
    exact ⟨H, [], [], rfl, rfl, .nil, List.nodup_nil, List.Perm.refl _, fun j a ha => by simp at ha, fun _ => rfl⟩
  obtain ⟨H', t', hrun, hold, hrel⟩ := checkNewBasketHeap_spec hc hnd hfuel hn
  have hn2 : 0 < table.length * 2 := by omega
  have hp : (linkAll (hashAt H) (table.length * 2) (List.replicate (table.length * 2) [])
      ls.flatten).flatten.Perm ls.flatten := by
    simpa using linkAll_perm hn2 (List.length_replicate _ []) ls.flatten
  refine ⟨H', t', _, hrun, hold.length_table, hold.forall₂, hp.nodup_iff.2 hnd, hp, fun j a ha => ?_, hrel.entry⟩
  obtain ⟨item, hi⟩ := (hold.chain j).exists_of_mem ha
  refine ⟨item, hi, ?_⟩
  have hplace := linkAll_placed hn2 (List.length_replicate _ _)
    (fun j a ha => by rw [getD_replicate_self] at ha; cases ha) ls.flatten j a ha
  rwa [← hrel.hashAt, hashAt, hi] at hplace

/-- One basket holding the items `0 → 1` of hashes `0` and `1`: they move
to baskets `0` and `1` of two. -/
theorem checkNewBasket_relinks_every_item_witness :
    let H : Heap := fun a => if a = 0 then some ⟨⟨0, [107], [], 0⟩, some 1⟩
      else if a = 1 then some ⟨⟨1, [108], [], 0⟩, none⟩ else none
    (List.Forall₂ (Chain H) [some 0] [[0, 1]] ∧ [[0, 1]].flatten.Nodup ∧ ∀ l ∈ [[0, 1]], l.length ≤ 2) ∧
    ∃ H' t' ls', checkNewBasketHeap 2 H [some 0] = some (H', t') ∧ t'.length = [some 0].length * 2 ∧
      List.Forall₂ (Chain H') t' ls' ∧ ls'.flatten.Nodup ∧ ls'.flatten.Perm [[0, 1]].flatten ∧
      (∀ j, ∀ a ∈ ls'.getD j [], ∃ item, H' a = some item ∧
        maskIndex item.entry.hash ([some 0].length * 2) = j) ∧
      ∀ a, (H' a).map Node.entry = (H a).map Node.entry :=
  have hc : List.Forall₂ (Chain fun a => if a = 0 then some ⟨⟨0, [107], [], 0⟩, some 1⟩
      else if a = 1 then some ⟨⟨1, [108], [], 0⟩, none⟩ else none) [some 0] [[0, 1]] :=
    .cons (.cons rfl (.cons rfl .nil)) .nil
  ⟨⟨hc, by decide, by decide⟩, checkNewBasket_relinks_every_item _ _ _ 2 hc (by decide) (by decide)⟩

/-! ### The list model -/

theorem map_modify {α β : Type} (f : α → α) (f' : β → β) (g : α → β) (hf : ∀ x, g (f x) = f' (g x)) :
    ∀ (l : List α) (i : Nat), (l.modify f i).map g = (l.map g).modify f' i
  | [], _ => by simp
  | _ :: _, 0 => by simp [hf]
  | x :: l, i + 1 => by simp [map_modify f f' g hf l i]

theorem contents_cons {H : Heap} {a : Nat} {item : Node} (ha : H a = some item) (l : List Nat) :
    contents H (a :: l) = item.entry :: contents H l := by
  simp [contents, ha]

theorem contents_flatten (H : Heap) (ls : List (List Nat)) :
    contents H ls.flatten = (ls.map (contents H)).flatten :=
  List.filterMap_flatten ..

theorem Relinked.contents {H H' : Heap} {l : List Nat} (h : Relinked H H' l) :
    Store.contents H' = Store.contents H := by
  funext l'
  simp only [Store.contents, h.entry]

/-- Linking items that all exist is, read through `contents`, the list
model's `relink` of their entries. -/
theorem contents_linkAll {H : Heap} {n : Nat} (l : List Nat) (hl : ∀ a ∈ l, ∃ item, H a = some item)
    (ns : List (List Nat)) :
    (linkAll (hashAt H) n ns l).map (contents H) = (contents H l).foldl (HashMap.relink n) (ns.map (contents H)) := by
  induction l generalizing ns with
  | nil => rfl
  | cons a l ih =>
    obtain ⟨item, ha⟩ := hl a (List.mem_cons_self _ _)
    have hh : hashAt H a = item.entry.hash := by simp [hashAt, ha]
    rw [linkAll, List.foldl_cons, ← linkAll, ih fun b hb => hl b (List.mem_cons_of_mem _ hb), contents_cons ha,
      List.foldl_cons, HashMap.relink, hh, map_modify _ _ _ (contents_cons ha)]

/-- Read through `contents`, `checkNewBasket` on the items builds the table
that the list model's `checkNewBasket` builds from their entries; the new
chains hold the old items and it changes no item's entry. -/
theorem checkNewBasketHeap_refines (hm : HashMap) (H : Heap) (table : List (Option Nat)) (ls : List (List Nat))
    (fuel : Nat) (hc : List.Forall₂ (Chain H) table ls) (hnd : ls.flatten.Nodup)
    (hfuel : ∀ l ∈ ls, l.length ≤ fuel) (htab : hm.table = ls.map (contents H)) :
    ∃ H' t' ls', checkNewBasketHeap fuel H table = some (H', t') ∧ List.Forall₂ (Chain H') t' ls' ∧
      ls'.flatten.Perm ls.flatten ∧ (∀ a, (H' a).map Node.entry = (H a).map Node.entry) ∧
      ls'.map (contents H') = hm.checkNewBasket.table := by
  have hlen : hm.table.length = table.length := by rw [htab, List.length_map, hc.length_eq]
  rcases Nat.eq_zero_or_pos table.length with h0 | hn
  · obtain rfl := List.length_eq_zero.1 h0
    cases hc
    refine ⟨H, [], [], rfl, .nil, List.Perm.refl _, fun _ => rfl, ?_⟩
    simp [HashMap.checkNewBasket, htab]
  obtain ⟨H', t', hrun, hold, hrel⟩ := checkNewBasketHeap_spec hc hnd hfuel hn
  refine ⟨H', t', _, hrun, hold.forall₂,
    by simpa using linkAll_perm (by omega : 0 < table.length * 2) (List.length_replicate _ []) ls.flatten,
    hrel.entry, ?_⟩
  rw [hrel.contents, contents_linkAll _ (Chain.exists_of_mem_flatten hc), List.map_replicate, contents_flatten,
    List.foldl_flatten, HashMap.checkNewBasket, hlen, htab]
  rfl

end HydraKV.Store
