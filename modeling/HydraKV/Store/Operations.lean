import HydraKV.Store.TTLManager
import HydraKV.AOF.Frame

/-! The sharded hash table of one database (`HashMap`) and its operations, as
sequential state transformers. Locks are left out here: each operation runs
to completion before the next. A mutation in live mode first sends its record
on `Aof.com` (the queue `com`), then changes its basket's chain and files the
entry's expiry with the TTL manager. -/

namespace HydraKV.Store

open Go AOF

/-- `DefaultBasketSize`. -/
def DefaultBasketSize : Nat := 2048

/-- `HashMap`: the fields its table operations read and write. -/
structure HashMap where
  /-- `table`: the chain of each basket, head first. -/
  table : List (List Entry)
  /-- `xxhash.HashString`. -/
  xxhash : Bytes → UInt64
  /-- `Entries`. -/
  entries : UInt64
  /-- `deletedEntries`. -/
  deletedEntries : Int64
  /-- `reset`: replay mode, in which writes bypass the log queue. -/
  reset : Bool
  /-- `Aof.com`: the records sent to the log writer, oldest first. -/
  com : List Data
  /-- `TTlManager`. -/
  ttlManager : TTLManager
  basketNum : Nat
  basketLockNum : Nat

namespace HashMap

/-- `getIndex`: the basket of a key and the key's hash. -/
def getIndex (hm : HashMap) (key : Bytes) : Nat × UInt64 :=
  let h := hm.xxhash key
  (maskIndex h hm.basketNum, h)

/-- The chain of basket `i`. -/
def basket (hm : HashMap) (i : Nat) : List Entry := hm.table.getD i []

/-- `hm.Aof.com <- d` when the map is live. -/
def enqueue (d : Data) (hm : HashMap) : HashMap :=
  if hm.reset then hm else { hm with com := hm.com ++ [d] }

/-- `checkIsNumber`. -/
def checkIsNumber (s : Bytes) : Option Int64 := parseInt s

/-- The update branch of `Set` and `Incr` at clock second `now`: the found
entry takes the new value and ttl; its old expiry is dropped with
`delEntry(item, item.Ttl)` when its ttl is nonzero, and the updated entry is
filed with `addEntry`. -/
def updateItem (now : Int64) (i : Nat) (item : Entry) (value : Bytes) (ttl : Int64)
    (hm : HashMap) : HashMap :=
  let tm := if item.ttl ≠ 0 then hm.ttlManager.delEntry item item.ttl else hm.ttlManager
  let item' := { item with value := value, ttl := ttl }
  { hm with
    table := hm.table.modify (·.replace item item') i
    ttlManager := tm.addEntry now item' }

/-- The insert branch of `Set` and `Incr`: a new entry at the head of the
chain, filed with `addEntry`, and one more entry counted. -/
def insertItem (now : Int64) (i : Nat) (e : Entry) (hm : HashMap) : HashMap :=
  { hm with
    table := hm.table.modify (e :: ·) i
    ttlManager := hm.ttlManager.addEntry now e
    entries := hm.entries + 1 }

/-- The part of `Set` under the global read lock and the basket's write
lock: the key's entry is updated, or a new entry inserted. -/
def setLocked (now ttl : Int64) (key value : Bytes) (hm : HashMap) : Bool × HashMap :=
  let (i, h) := hm.getIndex key
  match findKey key (hm.basket i) with
  | some item => (true, hm.updateItem now i item value ttl)
  | none => (true, hm.insertItem now i (newEntry ttl key value h))

/-- `Set(ttl, key, value)` at clock second `now`: the record is sent before
the locks are taken. -/
def set (now ttl : Int64) (key value : Bytes) (hm : HashMap) : Bool × HashMap :=
  (hm.enqueue ⟨actionSet, key, value, ttl⟩).setLocked now ttl key value

/-- `Get(key)`. -/
def get (key : Bytes) (hm : HashMap) : Bool × Bytes :=
  match findKey key (hm.basket (hm.getIndex key).1) with
  | some item => (true, item.value)
  | none => (false, [])

/-- The part of `Incr` under the locks. -/
def incrLocked (now ttl : Int64) (key amount : Bytes) (hm : HashMap) : Bool × HashMap :=
  let (i, h) := hm.getIndex key
  match findKey key (hm.basket i) with
  | some item =>
    match checkIsNumber item.value, checkIsNumber amount with
    | some val, some add => (true, hm.updateItem now i item (formatInt (val + add)) ttl)
    | _, _ => (false, hm)
  | none => (true, hm.insertItem now i (newEntry ttl key amount h))

/-- `Incr(ttl, key, amount)` at clock second `now`. Its record carries no
ttl. -/
def incr (now ttl : Int64) (key amount : Bytes) (hm : HashMap) : Bool × HashMap :=
  (hm.enqueue ⟨actionIncr, key, amount, 0⟩).incrLocked now ttl key amount

/-- The unlink branch of `Del`: the entry's expiry is dropped with
`delEntry(item, item.Ttl)`, it leaves the chain, and `Entries.Add(^uint64(0))`
counts one less. -/
def removeItem (i : Nat) (item : Entry) (hm : HashMap) : HashMap :=
  { hm with
    ttlManager := hm.ttlManager.delEntry item item.ttl
    table := hm.table.modify (·.erase item) i
    entries := hm.entries + ~~~0
    deletedEntries := hm.deletedEntries + 1 }

/-- The part of `Del` under the locks. -/
def delLocked (key : Bytes) (hm : HashMap) : Bool × HashMap :=
  let i := (hm.getIndex key).1
  if hm.basket i = [] then (false, hm)
  else
    match findKey key (hm.basket i) with
    | some item => (true, hm.removeItem i item)
    | none => (false, hm)

/-- `Del(key)`. -/
def del (key : Bytes) (hm : HashMap) : Bool × HashMap :=
  (hm.enqueue ⟨actionDel, key, [], 0⟩).delLocked key

/-- Link an entry at the head of basket `maskIndex item.Hash n` of a new
table. -/
def relink (n : Nat) (t : List (List Entry)) (item : Entry) : List (List Entry) :=
  t.modify (item :: ·) (maskIndex item.hash n)

/-- `checkNewBasket`: twice as many baskets; each old basket in order, and
each chain from its head, is relinked into the new table. -/
def checkNewBasket (hm : HashMap) : HashMap :=
  let newSize := hm.table.length * 2
  let newTable := hm.table.foldl (fun t b => b.foldl (relink newSize) t) (List.replicate newSize [])
  { hm with table := newTable, basketNum := newSize }

/-- `CheckResize`: resize when the load `Entries / len(table)` exceeds `0.75`.
The `float64` comparison is exact while `Entries < 2^53`. -/
def checkResize (hm : HashMap) : HashMap :=
  if 3 * hm.table.length < 4 * hm.entries.toNat then hm.checkNewBasket else hm

/-- `GetAllEntriesAndCompress`: the entries of every basket in order, each
chain from its head. -/
def getAllEntriesAndCompress (hm : HashMap) : List AOFEntry :=
  hm.table.flatMap fun b => b.map fun item => ⟨item.key, item.value, item.ttl⟩

/-- `GetBasketNum`. -/
def getBasketNum (hm : HashMap) : Nat := hm.table.length

/-- `GetEntries`: `int64(Entries.Load())`. -/
def getEntries (hm : HashMap) : Int64 := BitVec.ofNat 64 hm.entries.toNat

end HashMap

/-- `MaxInt32`, the cap on the basket-lock count. -/
def MaxInt32 : UInt64 := 2147483647

/-- The table `NewHashMap` builds before it replays its log, at clock second
`now`: `DefaultBasketSize` empty baskets, a fresh TTL manager, and replay
mode on. The basket-lock count is `LowerPowerOfTwo` of the CPU product, capped
at `MaxInt32`. -/
def HashMap.init (xxhash : Bytes → UInt64) (numCPU multiplier now : Int64) : HashMap :=
  let lpot := lowerPowerOfTwo (cpuProduct numCPU multiplier)
  { table := List.replicate DefaultBasketSize []
    xxhash := xxhash
    entries := 0
    deletedEntries := 0
    reset := true
    com := []
    ttlManager := newTTLManager numCPU multiplier now
    basketNum := DefaultBasketSize
    basketLockNum := (if lpot ≥ MaxInt32 then MaxInt32 else lpot).toNat }

end HydraKV.Store
