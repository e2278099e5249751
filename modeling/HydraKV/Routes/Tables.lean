import HydraKV.Routes.Requests
import HydraKV.Store.Logged

/-! The tables of a serving process. Every table operation a request runs
keeps the table invariant, and `NewDB`, from a request or from `ReloadDb`,
opens a table over whatever log the folder holds, which the replay reads as
records of the reference map. So every registered table of every process that
start-up and a run of requests reach keeps the invariant. Over such tables the
key routes act as the reference map: a `PUT` or `POST` on `/db/{dbname}` that
the server accepts stores its key, and the next `POST /db/{dbname}/keys` of
that key reads the value back.

Proved: after `ReloadDb` over any folder and any run of HTTP requests and gRPC
calls, every registered table is well formed; over well-formed tables, a value
the server accepts over HTTP is read back. -/

namespace HydraKV.Routes

open Go Store

namespace Node

/-- Every registered table keeps the table invariant. -/
def TablesInv (n : Node) : Prop := ∀ u d, n.server.dbs.lookup u = some d → d.table.Inv

variable {env : Env} {n : Node} {fault : Fault} {now : Int64} {token name : Bytes}

theorem TablesInv.db (ht : n.TablesInv) {hm : HashMap} (h : n.server.db name = some hm) : hm.Inv := by
  obtain ⟨d, hd, rfl⟩ := Option.map_eq_some'.mp h
  exact ht _ d hd

/-! ### Every operation keeps the tables -/

theorem TablesInv.withServer (ht : n.TablesInv) {s : Server} (hs : s = n.server) :
    TablesInv { n with server := s } := hs ▸ ht

/-- `withDb` changes the table registered under `name` and nothing else. -/
theorem Server.lookup_withDb {s : Server} (f : HashMap → Bool × HashMap) (name u : Bytes) :
    (s.withDb f name).2.dbs.lookup u =
      if u = toUpper name then (s.dbs.lookup u).map fun d => { d with table := (f d.table).2 }
      else s.dbs.lookup u := by
  unfold Server.withDb
  split <;> rename_i hl <;> split_ifs with hu
  · subst hu; simp [hl]
  · exact AList.lookup_insert_ne hu
  · subst hu; simp [hl]
  · rfl

/-- `NewDB` registers the name over its log and changes no other name. -/
theorem register_lookup (u : Bytes) :
    (n.register env name now).server.dbs.lookup u =
      if u = toUpper name then
        some ⟨newHashMap env.xxhash env.numCPU env.multiplier now ((n.folder.lookup (binFile name)).getD []),
          binFile name⟩
      else n.server.dbs.lookup u := by
  split_ifs with hu
  · subst hu; exact AList.lookup_insert _
  · exact AList.lookup_insert_ne hu

theorem TablesInv.withDb (ht : n.TablesInv) {strs : List Bytes} {f : HashMap → Bool × HashMap}
    (hf : TableOp strs f) (name : Bytes) :
    TablesInv { n with server := (n.server.withDb f name).2 } := by
  intro u d' h
  rw [Server.lookup_withDb] at h
  split_ifs at h
  · obtain ⟨d, hd, rfl⟩ := Option.map_eq_some'.mp h
    exact hf.inv (ht u d hd)
  · exact ht u d' h

theorem TablesInv.register (ht : n.TablesInv) : TablesInv (n.register env name now) := by
  intro u d h
  rw [register_lookup] at h
  split_ifs at h
  · exact Option.some.inj h ▸ (newHashMap_refines _ _ _ _ _).inv
  · exact ht u d h

theorem TablesInv.createApiKeyAt (ht : n.TablesInv) {db : Bytes} :
    TablesInv (n.createApiKeyAt env fault token db).2 :=
  fun u d h => ht u d (createApiKeyAt_server ▸ h)

theorem TablesInv.newDBAt (ht : n.TablesInv) : TablesInv (n.newDBAt env fault now token name).2 := by
  rcases newDBAt_cases env fault now token name n with h | ⟨-, h | h⟩ <;> rw [h]
  · exact ht
  · exact ht.register
  · exact ht.register.createApiKeyAt

theorem TablesInv.dbDelete (ht : n.TablesInv) : TablesInv (n.dbDelete name) := by
  unfold Node.dbDelete
  split
  · intro u d h
    by_cases hu : u = toUpper name
    · subst hu
      simp only [AList.lookup_erase] at h
      cases h
    · exact ht u d (by simpa only [AList.lookup_erase_ne hu] using h)
  · exact ht

theorem Effect.tablesInv {keys strs names : List Bytes} {n' : Node} (he : Effect env keys strs names n n')
    (ht : n.TablesInv) :
    n'.TablesInv := by
  cases he with
  | read => exact ht
  | table name f hf => exact ht.withDb hf name
  | newDB => exact ht.newDBAt
  | createApiKey => exact ht.createApiKeyAt
  | dbDelete => exact ht.dbDelete

/-! ### Start-up -/

theorem restoreFiles_server (fs : List Bytes) (n : Node) : (restoreFiles fs n).1.server = n.server := by
  induction fs generalizing n with
  | nil => rfl
  | cons f fs ih =>
    unfold restoreFiles
    split
    · split
      · exact ih _
      · rfl
    · exact ih _

theorem TablesInv.newDB (ht : n.TablesInv) : TablesInv (n.newDB env now token name).2 := by
  have hr : TablesInv (n.register env name now) := ht.register
  unfold Node.newDB
  split_ifs
  · exact ht
  · exact hr
  · exact hr

theorem TablesInv.reloadDb (ht : n.TablesInv) (tokens : Nat → Bytes) :
    TablesInv (n.reloadDb env now tokens).1 := by
  have hfold : ∀ (xs : List (Nat × Bytes)) (n : Node), n.TablesInv →
      TablesInv (xs.foldl (fun n x => (n.newDB env now (tokens x.1) x.2).2) n) := by
    intro xs
    induction xs with
    | nil => exact fun _ h => h
    | cons x xs ih => exact fun _ h => ih _ h.newDB
  have hr : TablesInv (if env.apikeyEnabled then n.restoreApiKeys else (n, true)).1 := by
    split_ifs
    · exact ht.withServer (restoreFiles_server _ _)
    · exact ht
  unfold Node.reloadDb
  dsimp only
  generalize (if env.apikeyEnabled = true then n.restoreApiKeys else (n, true)) = r at hr ⊢
  split_ifs
  · exact hfold _ _ hr
  · exact hr

/-- After `ReloadDb` over any folder and any run of HTTP requests and gRPC
calls, every registered table is well formed: the basket count is
`DefaultBasketSize` doubled some number of times, every entry carries its key's
hash and sits in the basket of that hash, no key is stored twice, and
`Entries` counts the entries. This holds even of a table replayed from a log
cut short or corrupt. -/
theorem reload_run_tables_inv (env : Env) (f : Folder) (m now : Int64) (tokens : Nat → Bytes)
    (maxDuration : Int) (as : List Arrival) :
    (((fresh f m).reloadDb env now tokens).1.run env maxDuration as).TablesInv :=
  run_induction maxDuration (fun _ _ _ _ ht he => he.tablesInv ht)
    (TablesInv.reloadDb (fun _ _ h => by cases h) tokens)

/-! ### A write read back -/

theorem Server.get_of_lookup {s : Server} {key v : Bytes} {t : Int64} {hm : HashMap} (h : s.db name = some hm)
    (hl : hm.lookup key = some (v, t)) : s.get name key = (true, v) := by
  simp only [Server.get, h, HashMap.get_eq, hl]

/-- A `Set` that reaches the table leaves the key's value in it. -/
theorem Server.lookup_withDb_set {s : Server} {hm : HashMap} (h : s.db name = some hm) (hinv : hm.Inv)
    (now ttl : Int64) (key value : Bytes) :
    ∃ hm', (s.withDb (HashMap.set now ttl key value) name).2.db name = some hm' ∧ hm'.Inv ∧
      hm'.lookup key = some (value, ttl) :=
  ⟨_, (Server.withDb_spec h).2.1, (hinv.set_spec now ttl key value).2.1,
    by rw [(hinv.set_spec now ttl key value).2.2, if_pos rfl]⟩

/-- A `Set` that answers `true` found the database and ran the table's `Set`. -/
theorem Server.set_of_true {s : Server} {key value : Bytes} {ttl : Int64}
    (hw : (s.set now name key value ttl).1 = true) :
    ∃ hm, s.db name = some hm ∧ s.set now name key value ttl = s.withDb (HashMap.set now ttl key value) name := by
  unfold Server.set Server.checkEntries at *
  split at hw
  · cases hw
  · rename_i hc
    split at hc
    · exact ⟨_, ‹_›, if_neg hc⟩
    · cases hc rfl

/-- A `SetNX` that answers `true` found the database without the key and ran
the table's `Set`. -/
theorem Server.setNX_of_true {s : Server} {key value : Bytes} {ttl : Int64}
    (hw : (s.setNX now name key value ttl).1 = true) :
    ∃ hm, s.db name = some hm ∧
      s.setNX now name key value ttl = s.withDb (HashMap.set now ttl key value) name := by
  unfold Server.setNX at hw ⊢
  split at hw
  · cases hw
  · rename_i hc
    rw [if_neg hc]
    split at hw
    · rename_i hm hdb
      split at hw
      · cases hw
      · rename_i hg
        exact ⟨hm, hdb, by simp [hdb, hg]⟩
    · cases hw

theorem serveHttp_of_route {r : Request} {x : Route × Bytes} (h : n.rootHandler env r = .ok x) :
    n.serveHttp env fault now token r = n.handle env fault now token r x := by
  rw [serveHttp, h]

theorem bootstrap_of_db {hm : HashMap} (hn : checkDbName name = true) (h : n.server.db name = some hm) :
    n.bootstrap name = none := by
  obtain ⟨d, hd, -⟩ := Option.map_eq_some'.mp h
  simp [bootstrap, hn, dbExists, hd]

/-- `SetValue` on `PUT` or `POST` answering `ok: true` ran the table's `Set`
of the payload on a registered database. -/
theorem setValue_of_true {method : Method} {body : Body} {p : Payload.Set}
    (hm : method = .put ∨ method = .post)
    (hp : readPayloadAndValidate Body.decodeSet Payload.Set.validate body = some p)
    (hok : (n.setValue now method name body).1.reply = .ok true) :
    checkDbName name = true ∧ ∃ hm, n.server.db name = some hm ∧
      (n.setValue now method name body).2 =
        { n with server := (n.server.withDb (HashMap.set now p.ttl p.key p.value) name).2 } := by
  unfold setValue at hok ⊢
  cases hb : n.bootstrap name with
  | some st => simp [hb] at hok
  | none =>
    refine ⟨(bootstrap_none hb).1, ?_⟩
    rcases hm with rfl | rfl <;> simp only [hb, hp, okReply, Reply.ok.injEq] at hok ⊢
    · obtain ⟨hm, hdb, he⟩ := Server.set_of_true hok
      exact ⟨hm, hdb, by rw [he]⟩
    · obtain ⟨hm, hdb, he⟩ := Server.setNX_of_true hok
      exact ⟨hm, hdb, by rw [he]⟩

/-- Over well-formed tables, a `PUT` or `POST` on `/db/{dbname}` that the
server answers `ok: true` stores its key, and the next `POST /db/{dbname}/keys`
of that key that reaches its handler reads the value back with status 200. -/
theorem write_then_read (ht : n.TablesInv) {r r' : Request} {p : Payload.Set} {q : Payload.Key}
    {fault' : Fault} {now' : Int64} {token' : Bytes}
    (h : n.rootHandler env r = .ok (.setValue, name)) (hm : r.method = .put ∨ r.method = .post)
    (hp : readPayloadAndValidate Body.decodeSet Payload.Set.validate r.body = some p)
    (hok : (n.serveHttp env fault now token r).1.reply = .ok true)
    (h' : (n.serveHttp env fault now token r).2.rootHandler env r' = .ok (.getValue, name))
    (hq : readPayloadAndValidate Body.decodeKey Payload.Key.validate r'.body = some q) (hk : q.key = p.key) :
    ((n.serveHttp env fault now token r).2.serveHttp env fault' now' token' r').1 =
      ⟨200, .value true p.value⟩ := by
  rw [serveHttp_of_route h] at hok h' ⊢
  obtain ⟨hn, hm₀, hdb, he⟩ := setValue_of_true hm hp hok
  rw [handle, he] at h' ⊢
  obtain ⟨hm', hdb', -, hl⟩ := Server.lookup_withDb_set hdb (ht.db hdb) now p.ttl p.key p.value
  have hb : bootstrap name { n with server := (n.server.withDb (HashMap.set now p.ttl p.key p.value) name).2 } =
      none := bootstrap_of_db hn hdb'
  rw [serveHttp_of_route h']
  simp only [handle, getValue, hb, hq, hk, Server.get_of_lookup hdb' hl, if_true]

/-- A `PUT` of `k` on the database `a`, then a read of `k`. -/
theorem write_then_read_witness :
    let env : Env := ⟨fun _ => 0, 4, 16, id, true⟩
    let n : Node := ⟨⟨(∅ : Registry).insert (ofString "A")
        ⟨newHashMap (fun _ => 0) 4 16 0 [], ofString "a.bin"⟩, 100000⟩,
      (∅ : AList fun _ : Bytes => Bytes).insert (ofString "A") (ofString "t"), ∅⟩
    let r : Request := ⟨.put, ofString "/db/a", ofString "t",
      ⟨none, none, some 5, some (ofString "k"), some (ofString "v"), false⟩⟩
    let r' : Request := ⟨.post, ofString "/db/a/keys", ofString "t",
      ⟨none, none, none, some (ofString "k"), none, false⟩⟩
    ((n.serveHttp env .none 0 [] r).2.serveHttp env .none 1 [] r').1 = ⟨200, .value true (ofString "v")⟩ := by
  intro env n r r'
  have ht : n.TablesInv := fun u d h => by
    by_cases hu : u = ofString "A"
    · subst hu
      rw [AList.lookup_insert] at h
      cases h
      exact inv_newHashMap_nil _ _ _ _
    · rw [AList.lookup_insert_ne hu] at h
      cases h
  have h : n.rootHandler env r = .ok (.setValue, ofString "a") := rfl
  have hp : readPayloadAndValidate Body.decodeSet Payload.Set.validate r.body =
      some ⟨[], 5, ofString "k", ofString "v"⟩ := rfl
  have hdb : n.server.db (ofString "a") = some (newHashMap (fun _ => 0) 4 16 0 []) := rfl
  have hok : (n.serveHttp env .none 0 [] r).1.reply = .ok true := by
    have hc : (newHashMap (fun _ => 0) 4 16 0 []).getEntries.slt n.server.maxEntries = true := by
      rw [(refines_newHashMap _ _ _ _).getEntries_eq]; decide
    rw [serveHttp_of_route h]
    simp only [handle, setValue, bootstrap_of_db (by decide) hdb, hp, okReply, Server.set_of_db hdb, hc,
      if_true, (Server.withDb_spec hdb).1, ((inv_newHashMap_nil _ _ _ _).set_spec _ _ _ _).1]
  have h' : (n.serveHttp env .none 0 [] r).2.rootHandler env r' = .ok (.getValue, ofString "a") := rfl
  have hq : readPayloadAndValidate Body.decodeKey Payload.Key.validate r'.body = some ⟨[], ofString "k"⟩ := rfl
  exact write_then_read ht h (.inl rfl) hp hok h' hq rfl

end Node

end HydraKV.Routes
