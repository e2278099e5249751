import HydraKV.Store.Refinement

/-! The server's registry of databases (`routes.go`) and its sequential key
operations. The registry `dbs` maps each upper-cased database name to its
table and the name of the table's log file. `Set` and `SetNX` first ask `CheckEntries` whether the table holds
fewer than `MAX_ENTRIES` entries; `Incr` and `Del` go to the table directly,
`Incr` with ttl `0`. Names are upper-cased by `strings.ToUpper`, which maps
`a`..`z` to `A`..`Z` on ASCII input; database names are ASCII
alphanumerics. -/

namespace HydraKV.Routes

open Go Store

/-- `strings.ToUpper` on one ASCII byte. -/
def toUpperByte (b : UInt8) : UInt8 := if 97 ≤ b.toNat ∧ b.toNat ≤ 122 then b - 32 else b

/-- `strings.ToUpper` on ASCII input. -/
def toUpper (s : Bytes) : Bytes := s.map toUpperByte

/-- A registered database: its table and its log file's name,
`hm.Aof.FileName`. -/
structure Db where
  table : HashMap
  fileName : Bytes

/-- The registry `dbs`: upper-cased name to database. -/
abbrev Registry := AList fun _ : Bytes => Db

/-- `Server`: its registry, and `MAX_ENTRIES` as an `int64`. -/
structure Server where
  dbs : Registry
  maxEntries : Int64

namespace Server

/-- `s.dbs[strings.ToUpper(name)]`. -/
def db (s : Server) (name : Bytes) : Option HashMap := (s.dbs.lookup (toUpper name)).map Db.table

/-- `CheckEntries(name)`: the database exists and holds fewer than
`MAX_ENTRIES` entries. -/
def checkEntries (s : Server) (name : Bytes) : Bool :=
  match s.db name with
  | some hm => hm.getEntries.slt s.maxEntries
  | none => false

/-- A table operation on database `name`, the table stored back; `false` for
an unknown database. -/
def withDb (f : HashMap → Bool × HashMap) (name : Bytes) (s : Server) : Bool × Server :=
  match s.dbs.lookup (toUpper name) with
  | some d => ((f d.table).1, { s with dbs := s.dbs.insert (toUpper name) { d with table := (f d.table).2 } })
  | none => (false, s)

/-- `Set(db, key, value, ttl)` at clock second `now`. -/
def set (now : Int64) (db key value : Bytes) (ttl : Int64) (s : Server) : Bool × Server :=
  if s.checkEntries db = false then (false, s) else s.withDb (HashMap.set now ttl key value) db

/-- `SetNX(db, key, value, ttl)`: `Get`, then `Set` if the key is absent. -/
def setNX (now : Int64) (db key value : Bytes) (ttl : Int64) (s : Server) : Bool × Server :=
  if s.checkEntries db = false then (false, s)
  else
    match s.db db with
    | some hm => if (hm.get key).1 then (false, s) else s.withDb (HashMap.set now ttl key value) db
    | none => (false, s)

/-- `Incr(db, key, amount)`: the table's `Incr` with ttl `0`. -/
def incr (now : Int64) (db key amount : Bytes) (s : Server) : Bool × Server :=
  s.withDb (HashMap.incr now 0 key amount) db

/-- `Del(db, key)`. -/
def del (db key : Bytes) (s : Server) : Bool × Server := s.withDb (HashMap.del key) db

/-- `Get(db, key)`. -/
def get (db key : Bytes) (s : Server) : Bool × Bytes :=
  match s.db db with
  | some hm => hm.get key
  | none => (false, [])

variable {s : Server} {name : Bytes} {hm : HashMap} {f : HashMap → Bool × HashMap}

/-- An operation on a registered database returns what the table returns and
stores the table it leaves. -/
theorem withDb_spec (h : s.db name = some hm) :
    (s.withDb f name).1 = (f hm).1 ∧ (s.withDb f name).2.db name = some (f hm).2 ∧
      (s.withDb f name).2.maxEntries = s.maxEntries := by
  obtain ⟨d, hd, rfl⟩ := Option.map_eq_some'.mp h
  unfold withDb; rw [hd]
  exact ⟨rfl, by simp [db], rfl⟩

theorem set_of_db {now ttl : Int64} {key value : Bytes} (h : s.db name = some hm) :
    s.set now name key value ttl =
      if hm.getEntries.slt s.maxEntries then s.withDb (HashMap.set now ttl key value) name
      else (false, s) := by
  by_cases hc : hm.getEntries.slt s.maxEntries <;> simp [set, checkEntries, h, hc]

theorem set_eq_withDb {now ttl : Int64} {key value : Bytes} (h : s.db name = some hm)
    (hc : hm.getEntries.slt s.maxEntries = true) :
    s.set now name key value ttl = s.withDb (HashMap.set now ttl key value) name := by
  rw [set_of_db h, if_pos hc]

end Server

/-- With `MAX_ENTRIES = 1`, a new database holding one key refuses `Set` of a
second key, but `Incr` of that key inserts it and the table holds two
entries. -/
theorem incr_passes_max_entries (xxhash : Bytes → UInt64) (numCPU multiplier now : Int64) :
    let s : Server := ⟨(∅ : Registry).insert (ofString "D")
      ⟨newHashMap xxhash numCPU multiplier now [], ofString "d.bin"⟩, 1⟩
    let s₁ := (s.set now (ofString "d") (ofString "a") (ofString "1") 0).2
    (s.set now (ofString "d") (ofString "a") (ofString "1") 0).1 = true ∧
      (s₁.set now (ofString "d") (ofString "b") (ofString "1") 0).1 = false ∧
      (s₁.incr now (ofString "d") (ofString "b") (ofString "1")).1 = true ∧
      ((s₁.incr now (ofString "d") (ofString "b") (ofString "1")).2.db (ofString "d")).map
        HashMap.getEntries = some 2 := by
  intro s s₁
  have hd : toUpper (ofString "d") = ofString "D" := by decide
  have hr₀ := refines_newHashMap xxhash numCPU multiplier now
  obtain ⟨-, hr₁⟩ := hr₀.step now (.set 0 (ofString "a") (ofString "1"))
  have hl : ((∅ : RefMap).insert (ofString "a") (ofString "1", 0)).lookup (ofString "b") =
      none := by rw [AList.lookup_insert_ne (by decide)]; rfl
  obtain ⟨-, hr₂⟩ := hr₁.step now (.incr 0 (ofString "b") (ofString "1"))
  have hb := (hr₁.inv.incr_spec now 0 (ofString "b") (ofString "1")).2
  rw [hr₁.lookup_eq] at hb
  simp only [HashMap.step, RefMap.step, hl] at hr₁ hr₂ hb
  have hdb₀ : s.db (ofString "d") = some (newHashMap xxhash numCPU multiplier now []) := by
    show (AList.lookup (toUpper (ofString "d")) s.dbs).map Db.table = _
    rw [hd, AList.lookup_insert]; rfl
  have hmax : s.maxEntries = 1 := rfl
  have hc : (BitVec.ofNat 64 (AList.keys (∅ : RefMap)).length).slt 1 = true := by decide
  have hs := Server.withDb_spec (f := HashMap.set now 0 (ofString "a") (ofString "1")) hdb₀
  rw [← Server.set_eq_withDb hdb₀ (by rw [hr₀.getEntries_eq, hmax, hc])] at hs
  have hc₁ : (BitVec.ofNat 64 ((∅ : RefMap).insert (ofString "a") (ofString "1", 0)).keys.length).slt
      1 = false := by decide
  have hs₁ := Server.withDb_spec (f := HashMap.incr now 0 (ofString "b") (ofString "1")) hs.2.1
  refine ⟨hs.1.trans (hr₀.inv.set_spec now 0 _ _).1, ?_, hs₁.1.trans hb.1, ?_⟩
  · rw [Server.set_of_db hs.2.1, hr₁.getEntries_eq, hs.2.2, hmax, hc₁]; rfl
  · rw [Server.incr, hs₁.2.1, Option.map_some', hr₂.getEntries_eq]; rfl

end HydraKV.Routes
