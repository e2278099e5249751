import HydraKV.Routes.Grpc
import HydraKV.Store.Reopen

/-! Runs of HTTP requests and gRPC calls over one process, each served as one
step. What a request can do to the process is said once, by `Effect`: nothing,
one table operation on a database it may act on, `NewDB` of a name
`CheckDbName` accepts, or `CreateApiKey` or `DBDelete` of a registered
database it may act on, where a request may act on a database when keys are
disabled or one of its keys is the database's. The invariants over runs are
derived from that.

Proved: every request has one of these effects; with keys enabled, a run of
requests none of which carries the key of a registered database leaves its
table and its key as they were; every file a run leaves in the DB folder is the
log or the key file of a name `CheckDbName` accepts; and from a folder whose
logs all belong to registered databases, a run keeps it so, and `NewDB` of a
name no database is registered under after it starts an empty table. -/

namespace HydraKV.Routes

open Go Store

/-- A request reaching the process: over HTTP, or a gRPC call with the time
left to its deadline. -/
inductive Event
  | http (r : Request)
  | grpc (timeout : Option Int) (c : GrpcCall)
  deriving DecidableEq

/-- The API keys a request carries: the HTTP header, or the call's `Apikey`. -/
def Event.keys : Event → List Bytes
  | .http r => [r.apiKey]
  | .grpc _ c => c.keys

/-- The keys and values a call carries for the store. -/
def GrpcCall.strings : GrpcCall → List Bytes
  | .set _ key value _ _ | .setNX _ key value _ _ | .incr _ key value _ => [key, value]
  | .get _ key _ | .delete _ key _ => [key]
  | .createDB _ | .existsDb _ => []

/-- The key and value a request carries for the store: the body's fields, as
its payload decodes them, or the call's. -/
def Event.strings : Event → List Bytes
  | .http r => [r.body.key.getD [], r.body.value.getD []]
  | .grpc _ c => c.strings

/-- The database a call names. -/
def GrpcCall.names : GrpcCall → List Bytes
  | .createDB db | .set db _ _ _ _ | .setNX db _ _ _ _ | .incr db _ _ _ | .get db _ _ | .delete db _ _
  | .existsDb db => [db]

/-- The databases a request names: the name `rootHandler` takes from the path
and the name of a `/create` body, or the call's database. -/
def Event.names : Event → List Bytes
  | .http r => [pathDbName r.path, r.body.name.getD []]
  | .grpc _ c => c.names

/-- A request and what the environment supplies as it is served: the clock
second, the token `CreateRandomApiKey` draws, and the operation of `NewDB` or
`CreateApiKey` that fails, if any. -/
structure Arrival where
  event : Event
  now : Int64
  token : Bytes
  fault : Fault
  deriving DecidableEq

/-- A table operation of the server for a request carrying the strings
`strs`: the table's step for an operation at some clock second, its answer
aside, whose record holds a key and a value the request carries (or no value). -/
def TableOp (strs : List Bytes) (f : HashMap → Bool × HashMap) : Prop :=
  ∃ now op, (∀ hm, (f hm).2 = (hm.step now op).2) ∧ ∀ d ∈ op.record, d.key ∈ strs ∧ (d.value ∈ strs ∨ d.value = [])

variable {strs : List Bytes} {now ttl : Int64} {key value : Bytes}

theorem tableOp_set (hk : key ∈ strs) (hv : value ∈ strs) : TableOp strs (HashMap.set now ttl key value) :=
  ⟨now, .set ttl key value, fun _ => rfl, fun _ hd => by cases hd; exact ⟨hk, .inl hv⟩⟩

theorem tableOp_incr (hk : key ∈ strs) (hv : value ∈ strs) : TableOp strs (HashMap.incr now ttl key value) :=
  ⟨now, .incr ttl key value, fun _ => rfl, fun _ hd => by cases hd; exact ⟨hk, .inl hv⟩⟩

theorem tableOp_del (hk : key ∈ strs) : TableOp strs (HashMap.del key) :=
  ⟨0, .del key, fun _ => rfl, fun _ hd => by cases hd; exact ⟨hk, .inr rfl⟩⟩

/-- A table operation keeps the table invariant. -/
theorem TableOp.inv {f : HashMap → Bool × HashMap} (h : TableOp strs f) {hm : HashMap} (hi : hm.Inv) :
    (f hm).2.Inv := by
  obtain ⟨now, op, hf, -⟩ := h
  rw [hf]; exact hi.step now op

namespace Server

/-- One server operation on the database `name` for a request carrying the
strings `strs`: nothing, or one table operation on it. -/
def TableStep (strs : List Bytes) (s : Server) (name : Bytes) (s' : Server) : Prop :=
  s' = s ∨ ∃ f, TableOp strs f ∧ s' = (s.withDb f name).2

variable {s : Server} {db : Bytes}

theorem tableStep_set (hk : key ∈ strs) (hv : value ∈ strs) : s.TableStep strs db (s.set now db key value ttl).2 := by
  unfold set; split
  · exact .inl rfl
  · exact .inr ⟨_, tableOp_set hk hv, rfl⟩

theorem tableStep_setNX (hk : key ∈ strs) (hv : value ∈ strs) :
    s.TableStep strs db (s.setNX now db key value ttl).2 := by
  unfold setNX; split
  · exact .inl rfl
  · split
    · split
      · exact .inl rfl
      · exact .inr ⟨_, tableOp_set hk hv, rfl⟩
    · exact .inl rfl

/-- A table operation keeps which databases are registered and their log
files. -/
theorem withDb_fileName (f : HashMap → Bool × HashMap) (name u : Bytes) :
    ((s.withDb f name).2.dbs.lookup u).map Db.fileName = (s.dbs.lookup u).map Db.fileName := by
  unfold withDb
  split
  · rename_i d hd
    by_cases hu : u = toUpper name
    · subst hu; simp [hd]
    · simp only [AList.lookup_insert_ne hu]
  · rfl

end Server

namespace Node

variable (env : Env) (maxDuration : Int)

/-- One request served. -/
def serve (a : Arrival) (n : Node) : Node :=
  match a.event with
  | .http r => (n.serveHttp env a.fault a.now a.token r).2
  | .grpc timeout c => (n.serveGrpc env maxDuration a.fault a.now a.token timeout c).2

/-- A run of requests served one after another. -/
def run (as : List Arrival) (n : Node) : Node := as.foldl (fun n a => n.serve env maxDuration a) n

/-- A request carrying `keys` may act on the database `name`: keys are
disabled, or one of its keys is the database's. -/
def Authorized (keys : List Bytes) (name : Bytes) (n : Node) : Prop :=
  env.apikeyEnabled = true → ∃ k ∈ keys, n.isApiKeyValid env name k = true

/-- What one request carrying the API keys `keys` and the strings `strs`, and
naming the databases `names`, can do to the process `n`. -/
inductive Effect (keys strs names : List Bytes) (n : Node) : Node → Prop
  | read : Effect keys strs names n n
  | table (name : Bytes) (f : HashMap → Bool × HashMap) : TableOp strs f → n.Authorized env keys name →
      name ∈ names → Effect keys strs names n { n with server := (n.server.withDb f name).2 }
  | newDB (name : Bytes) (fault : Fault) (now : Int64) (token : Bytes) : checkDbName name = true →
      name ∈ names → Effect keys strs names n (n.newDBAt env fault now token name).2
  | createApiKey (name : Bytes) (fault : Fault) (token : Bytes) : checkDbName name = true →
      n.Authorized env keys name → name ∈ names → Effect keys strs names n (n.createApiKeyAt env fault token name).2
  | dbDelete (name : Bytes) : n.Authorized env keys name → name ∈ names → Effect keys strs names n (n.dbDelete name)

variable {env} {n : Node} {keys strs names : List Bytes}

theorem Effect.server {name : Bytes} {s : Server} (hs : n.server.TableStep strs name s)
    (ha : n.Authorized env keys name) (hm : name ∈ names) : Effect env keys strs names n { n with server := s } := by
  rcases hs with rfl | ⟨f, hf, rfl⟩
  · exact .read
  · exact .table name f hf ha hm

/-! ### Every request has an effect -/

theorem muxAnswer_eq_ok {α : Type} {e : Except Nat α} {x : α} : muxAnswer e = .ok x ↔ e = .ok x := by
  cases e <;> simp [muxAnswer, Except.mapError]

theorem publicMux_ne_private {m : Method} {path : Bytes} {rt : Route}
    (h : publicMux m path = .ok rt) : rt = .index ∨ rt = .health ∨ rt = .metrics ∨ rt = .createDB := by
  unfold publicMux at h
  split_ifs at h <;> cases h <;> simp

/-- A route `rootHandler` hands a request to is public, or the database it
names is the one the path names, and the request may act on it. -/
theorem rootHandler_ok {r : Request} {rt : Route} {name : Bytes}
    (h : n.rootHandler env r = .ok (rt, name)) :
    (rt = .index ∨ rt = .health ∨ rt = .metrics ∨ rt = .createDB) ∨
      n.Authorized env [r.apiKey] name ∧ name = pathDbName r.path := by
  unfold rootHandler at h
  split_ifs at h with hp hk hn hv
  · obtain ⟨rt', h', he⟩ : ∃ rt', publicMux r.method r.path = .ok rt' ∧ (rt', []) = (rt, name) := by
      rw [muxAnswer_eq_ok] at h
      cases h' : publicMux r.method r.path <;> rw [h'] at h <;> cases h
      exact ⟨_, rfl, rfl⟩
    cases he
    exact .inl (publicMux_ne_private h')
  · exact .inr ⟨fun he => by simp [he] at hk, (pathDbName_of_privateMux (muxAnswer_eq_ok.mp h)).symm⟩
  · simp only [Bool.or_eq_true, Bool.not_eq_true', not_or, Bool.not_eq_false] at hv
    rw [← pathDbName_of_privateMux (muxAnswer_eq_ok.mp h)]
    exact .inr ⟨fun _ => ⟨r.apiKey, List.mem_singleton_self _, hv.2⟩, rfl⟩

variable {fault : Fault} {now : Int64} {token : Bytes}

theorem bootstrap_none {name : Bytes} (h : n.bootstrap name = none) :
    checkDbName name = true ∧ n.dbExists name = true := by
  unfold bootstrap at h
  split_ifs at h with h₁ h₂
  simp only [Bool.not_eq_true', Bool.not_eq_false] at h₁ h₂
  exact ⟨h₁, h₂⟩

theorem effect_createDB {body : Body} (hb : body.name.getD [] ∈ names) :
    Effect env keys strs names n (n.createDB env fault now token body).2 := by
  unfold createDB
  split
  · exact .read
  · rename_i p hp
    obtain ⟨hd, hv⟩ := Option.filter_eq_some.mp hp
    have hn : checkDbName p.name = true := p.validate_eq ▸ hv
    have hp : p.name = body.name.getD [] := by
      unfold Body.decodeNewDB at hd
      split at hd <;> cases hd
      rfl
    dsimp only
    split <;> exact .newDB _ _ _ _ hn (hp ▸ hb)

/-- The key and the value of a `Set` payload are the body's. -/
theorem Body.decodeSet_fields {b : Body} {p : Payload.Set}
    (h : readPayloadAndValidate Body.decodeSet Payload.Set.validate b = some p) :
    p.key ∈ [b.key.getD [], b.value.getD []] ∧ p.value ∈ [b.key.getD [], b.value.getD []] := by
  obtain ⟨hd, -⟩ := Option.filter_eq_some.mp h
  unfold Body.decodeSet at hd
  split at hd <;> cases hd
  simp

/-- The key of a `Key` payload is the body's. -/
theorem Body.decodeKey_key {b : Body} {p : Payload.Key}
    (h : readPayloadAndValidate Body.decodeKey Payload.Key.validate b = some p) :
    p.key ∈ [b.key.getD [], b.value.getD []] := by
  obtain ⟨hd, -⟩ := Option.filter_eq_some.mp h
  unfold Body.decodeKey at hd
  split at hd <;> cases hd
  simp

theorem effect_setValue {method : Method} {name : Bytes} {body : Body}
    (ha : n.Authorized env keys name) (hm : name ∈ names) :
    Effect env keys [body.key.getD [], body.value.getD []] names n (n.setValue now method name body).2 := by
  unfold setValue
  split
  · exact .read
  · split
    · exact .read
    · rename_i p hp
      obtain ⟨hk, hv⟩ := Body.decodeSet_fields hp
      split
      · exact Effect.server (Server.tableStep_set hk hv) ha hm
      · exact Effect.server (Server.tableStep_setNX hk hv) ha hm
      · exact Effect.server (.inr ⟨_, tableOp_incr hk hv, rfl⟩) ha hm
      · exact .read

theorem effect_handle {r : Request} {rt : Route} {name : Bytes}
    (ha : (rt = .index ∨ rt = .health ∨ rt = .metrics ∨ rt = .createDB) ∨
      n.Authorized env [r.apiKey] name ∧ name = pathDbName r.path) :
    Effect env [r.apiKey] [r.body.key.getD [], r.body.value.getD []] [pathDbName r.path, r.body.name.getD []] n
      (n.handle env fault now token r (rt, name)).2 := by
  cases rt
  case index | health | metrics => exact .read
  case db => dsimp only [handle, db]; split <;> exact .read
  case createDB => exact effect_createDB (.tail _ (.head _))
  all_goals
    obtain ha | ⟨ha, rfl⟩ := ha
    · simp at ha
  case setValue => exact effect_setValue ha (.head _)
  case deleteValue =>
    dsimp only [handle, deleteValue]
    split
    · exact .read
    · split
      · exact .read
      · exact .table _ _ (tableOp_del (Body.decodeKey_key ‹_›)) ha (.head _)
  case getValue =>
    dsimp only [handle, getValue]
    split
    · exact .read
    · split <;> exact .read
  case deleteDB =>
    dsimp only [handle, deleteDB]
    split
    · exact .read
    · exact .dbDelete _ ha (.head _)
  case changeApiKey =>
    dsimp only [handle, changeApiKey]
    split
    · exact .read
    · split
      · exact .read
      · rename_i hb
        split <;> exact .createApiKey _ _ _ (bootstrap_none hb).1 ha (.head _)

/-- Every HTTP request has an effect. -/
theorem effect_serveHttp (r : Request) :
    Effect env [r.apiKey] [r.body.key.getD [], r.body.value.getD []] [pathDbName r.path, r.body.name.getD []] n
      (n.serveHttp env fault now token r).2 := by
  unfold serveHttp
  split
  · exact .read
  · rename_i rt h
    obtain ⟨rt, name⟩ := rt
    exact effect_handle (rootHandler_ok h)

theorem keyCallCheck_none {db apikey : Bytes} (h : n.keyCallCheck env db apikey = none) :
    n.Authorized env [apikey] db := by
  unfold keyCallCheck at h
  split_ifs at h with h₁ h₂
  simp only [Bool.and_eq_true, Bool.not_eq_true', not_and, Bool.not_eq_false] at h₂
  exact fun he => ⟨apikey, List.mem_singleton_self _, h₂ he⟩

theorem effect_keyCall {db apikey : Bytes} {op : Server → Answer × Server}
    (hop : ∀ s : Server, s.TableStep strs db (op s).2) :
    Effect env [apikey] strs [db] n (n.keyCall env db apikey op).2 := by
  unfold keyCall
  split
  · exact .read
  · rename_i h
    exact Effect.server (hop _) (keyCallCheck_none h) (.head _)

/-- Every gRPC call has an effect. -/
theorem effect_serveGrpc (timeout : Option Int) (c : GrpcCall) :
    Effect env c.keys c.strings c.names n (n.serveGrpc env maxDuration fault now token timeout c).2 := by
  unfold serveGrpc
  split
  · exact .read
  · cases c <;> dsimp only [kvService, grpcCreateDB, grpcSet, grpcSetNX, grpcIncr, grpcGet,
      grpcDelete, grpcExists]
    case createDB name =>
      split
      · exact .read
      · rename_i hn
        simp only [Bool.not_eq_true', Bool.not_eq_false] at hn
        split <;> exact .newDB _ _ _ _ hn (.head _)
    case set => exact effect_keyCall fun _ => Server.tableStep_set (.head _) (.tail _ (.head _))
    case setNX => exact effect_keyCall fun _ => Server.tableStep_setNX (.head _) (.tail _ (.head _))
    case incr => exact effect_keyCall fun _ => .inr ⟨_, tableOp_incr (.head _) (.tail _ (.head _)), rfl⟩
    case delete => exact effect_keyCall fun _ => .inr ⟨_, tableOp_del (.head _), rfl⟩
    case get => exact effect_keyCall fun _ => .inl rfl
    case existsDb => split <;> exact .read

theorem effect_serve (a : Arrival) :
    Effect env a.event.keys a.event.strings a.event.names n (n.serve env maxDuration a) := by
  unfold serve
  split <;> rename_i he <;> rw [he]
  · exact effect_serveHttp _
  · exact effect_serveGrpc maxDuration _ _

/-- A property every effect of the run's requests keeps holds after the run. -/
theorem run_induction {P : Node → Prop} {as : List Arrival}
    (hstep : ∀ a ∈ as, ∀ {n n' : Node}, P n → Effect env a.event.keys a.event.strings a.event.names n n' → P n')
    (h : P n) :
    P (n.run env maxDuration as) := by
  induction as generalizing n with
  | nil => exact h
  | cons a as ih =>
    exact ih (fun b hb => hstep b (List.mem_cons_of_mem _ hb))
      (hstep a (List.mem_cons_self _ _) h (effect_serve maxDuration a))

/-! ### What `NewDB` and `CreateApiKey` change -/

variable (env) in
/-- The process after `NewDB` registered `name` over the log it read from the
folder, before it creates the key. -/
def register (name : Bytes) (now : Int64) (n : Node) : Node :=
  let log := (n.folder.lookup (binFile name)).getD []
  let d : Db := ⟨newHashMap env.xxhash env.numCPU env.multiplier now log, binFile name⟩
  { n with
    server := { n.server with dbs := n.server.dbs.insert (toUpper name) d }
    folder := n.folder.insert (binFile name) log }

variable {name : Bytes}

/-- `NewDB` changes nothing, or registers a new name and then, with keys
enabled, runs `CreateApiKey` on it. -/
theorem newDBAt_cases (env : Env) (fault : Fault) (now : Int64) (token name : Bytes) (n : Node) :
    (n.newDBAt env fault now token name).2 = n ∨
    n.dbExists name = false ∧ ((n.newDBAt env fault now token name).2 = n.register env name now ∨
      (n.newDBAt env fault now token name).2 =
        ((n.register env name now).createApiKeyAt env fault token name).2) := by
  unfold newDBAt
  split_ifs with hex hf hk
  · exact .inl rfl
  · exact .inl rfl
  · refine .inr ⟨by simpa using hex, .inr ?_⟩
    dsimp only
    split <;> rename_i he <;> exact (congrArg Prod.snd he).symm
  · exact .inr ⟨by simpa using hex, .inl rfl⟩

theorem saveApiKeyAt_server {db hash : Bytes} : (n.saveApiKeyAt fault db hash).2.server = n.server := by
  unfold saveApiKeyAt; split <;> rfl

theorem createApiKeyAt_server {db : Bytes} :
    (n.createApiKeyAt env fault token db).2.server = n.server := by
  unfold createApiKeyAt; split
  · rfl
  · exact saveApiKeyAt_server

/-- `CreateApiKey` adds at most the key file of the database to the folder. -/
theorem mem_createApiKeyAt_folder {db x : Bytes} (hx : x ∈ (n.createApiKeyAt env fault token db).2.folder) :
    x = apikeyFile db ∨ x ∈ n.folder := by
  unfold createApiKeyAt saveApiKeyAt at hx
  split_ifs at hx
  · exact .inr hx
  · split at hx
    · exact .inr hx
    all_goals exact (AList.mem_insert _).mp hx

theorem binFile_ne_apikeyFile (x db : Bytes) : binFile x ≠ apikeyFile db := fun h => by
  have := hasSuffix_binFile x
  rw [h, hasSuffix_apikeyFile] at this
  cases this

theorem binFile_inj {x y : Bytes} (h : binFile x = binFile y) : x = y := List.append_cancel_right h

/-! ### A database no request has the key of -/

/-- `n'` has the database and the key of `n` at the upper-cased name `u`. -/
def Agrees (u : Bytes) (n n' : Node) : Prop :=
  n'.server.dbs.lookup u = n.server.dbs.lookup u ∧ n'.apiKeys.lookup u = n.apiKeys.lookup u

variable {u : Bytes}

theorem Agrees.trans {n₁ n₂ : Node} (h₁ : Agrees u n n₁) (h₂ : Agrees u n₁ n₂) : Agrees u n n₂ :=
  ⟨h₂.1.trans h₁.1, h₂.2.trans h₁.2⟩

theorem agrees_createApiKeyAt {db : Bytes} (hu : u ≠ toUpper db) :
    Agrees u n (n.createApiKeyAt env fault token db).2 := by
  unfold createApiKeyAt saveApiKeyAt
  split_ifs
  · exact ⟨rfl, rfl⟩
  · split <;> exact ⟨rfl, AList.lookup_insert_ne hu⟩

theorem agrees_newDBAt (hu : u ≠ toUpper name) : Agrees u n (n.newDBAt env fault now token name).2 := by
  have hr : Agrees u n (n.register env name now) := ⟨AList.lookup_insert_ne hu, rfl⟩
  rcases newDBAt_cases env fault now token name n with h | ⟨-, h | h⟩ <;> rw [h]
  · exact ⟨rfl, rfl⟩
  · exact hr
  · exact hr.trans (agrees_createApiKeyAt hu)

theorem agrees_dbDelete (hu : u ≠ toUpper name) : Agrees u n (n.dbDelete name) := by
  unfold dbDelete; split
  · exact ⟨AList.lookup_erase_ne hu, rfl⟩
  · exact ⟨rfl, rfl⟩

theorem agrees_withDb (f : HashMap → Bool × HashMap) (hu : u ≠ toUpper name) :
    Agrees u n { n with server := (n.server.withDb f name).2 } := by
  unfold Server.withDb; split
  · exact ⟨AList.lookup_insert_ne hu, rfl⟩
  · exact ⟨rfl, rfl⟩

/-- A request may act on a database only under its own name when it carries
none of the keys hashing to the key stored at `u`. -/
theorem Authorized.ne {h : Bytes} (ha : n.Authorized env keys name) (hkeys : env.apikeyEnabled = true)
    (hk : n.apiKeys.lookup u = some h) (hno : ∀ k ∈ keys, env.sha256 k ≠ h) : u ≠ toUpper name := by
  rintro rfl
  obtain ⟨k, hk', hv⟩ := ha hkeys
  rw [isApiKeyValid, hk] at hv
  exact hno k hk' (beq_iff_eq.mp hv).symm

/-- With keys enabled, a request that carries no key hashing to the key of the
registered database at `u` leaves that database and its key as they were. -/
theorem Effect.agrees {n' : Node} {h : Bytes} (he : Effect env keys strs names n n') (hkeys : env.apikeyEnabled = true)
    (hd : (n.server.dbs.lookup u).isSome) (hk : n.apiKeys.lookup u = some h)
    (hno : ∀ k ∈ keys, env.sha256 k ≠ h) : Agrees u n n' := by
  cases he with
  | read => exact ⟨rfl, rfl⟩
  | table name f _ ha => exact agrees_withDb f (ha.ne hkeys hk hno)
  | newDB name fault now token =>
    rcases newDBAt_cases env fault now token name n with h | ⟨hex, -⟩
    · rw [h]; exact ⟨rfl, rfl⟩
    · refine agrees_newDBAt fun hu => ?_
      rw [dbExists, ← hu, hd] at hex
      cases hex
  | createApiKey name fault token _ ha => exact agrees_createApiKeyAt (ha.ne hkeys hk hno)
  | dbDelete name ha => exact agrees_dbDelete (ha.ne hkeys hk hno)

/-- With keys enabled, a run of HTTP requests and gRPC calls none of which
carries a key whose hash is the stored key of the registered database at `u`
leaves that database's table and its key as they were. -/
theorem run_keeps_db_without_key (hkeys : env.apikeyEnabled = true) {d : Db} {h : Bytes}
    (hd : n.server.dbs.lookup u = some d) (hk : n.apiKeys.lookup u = some h) (as : List Arrival)
    (hno : ∀ a ∈ as, ∀ k ∈ a.event.keys, env.sha256 k ≠ h) :
    (n.run env maxDuration as).server.dbs.lookup u = some d ∧
      (n.run env maxDuration as).apiKeys.lookup u = some h :=
  run_induction maxDuration (P := fun n => n.server.dbs.lookup u = some d ∧ n.apiKeys.lookup u = some h)
    (fun a ha _ _ hP he => by
      have hag := he.agrees hkeys (by rw [hP.1]; rfl) hP.2 (hno a ha)
      exact ⟨hag.1.trans hP.1, hag.2.trans hP.2⟩) ⟨hd, hk⟩

/-- A `PUT` with a wrong `X-API-Key` and a gRPC `Delete` with a wrong `Apikey`
leave the database `A` and its key as they were. -/
theorem run_keeps_db_without_key_witness :
    let env : Env := ⟨fun _ => 0, 4, 16, id, true⟩
    let d : Db := ⟨newHashMap (fun _ => 0) 4 16 0 [], ofString "a.bin"⟩
    let n : Node := ⟨⟨(∅ : Registry).insert (ofString "A") d, 100000⟩,
      (∅ : AList fun _ : Bytes => Bytes).insert (ofString "A") (ofString "t"), ∅⟩
    let as : List Arrival :=
      [⟨.http ⟨.put, ofString "/db/a", ofString "x",
          ⟨none, none, none, some (ofString "k"), some (ofString "v"), false⟩⟩, 0, [], .none⟩,
        ⟨.grpc (some 1) (.delete (ofString "a") (ofString "k") (ofString "y")), 0, [], .none⟩]
    (n.run env 10000000000 as).server.dbs.lookup (ofString "A") = some d ∧
      (n.run env 10000000000 as).apiKeys.lookup (ofString "A") = some (ofString "t") :=
  run_keeps_db_without_key _ rfl (AList.lookup_insert _) (AList.lookup_insert _) _ (by decide)

/-! ### A database no request names -/

/-- A request that names no database upper-casing to `u` leaves the database
and the key at `u` as they were. -/
theorem Effect.agrees_of_names {n' : Node} (he : Effect env keys strs names n n')
    (hu : ∀ x ∈ names, toUpper x ≠ u) : Agrees u n n' := by
  cases he with
  | read => exact ⟨rfl, rfl⟩
  | table name f _ _ hm => exact agrees_withDb f (hu name hm).symm
  | newDB name fault now token _ hm => exact agrees_newDBAt (hu name hm).symm
  | createApiKey name fault token _ _ hm => exact agrees_createApiKeyAt (hu name hm).symm
  | dbDelete name _ hm => exact agrees_dbDelete (hu name hm).symm

/-- Requests act only on the databases they name: a run of HTTP requests and
gRPC calls none of which names a database upper-casing to `u` (in the path
`rootHandler` reads, in a `/create` body, or as a call's database) leaves the
database registered at `u`, its table and log, and its stored key as they
were, with keys enabled or not. -/
theorem run_isolates (n : Node) (u : Bytes) (as : List Arrival)
    (hu : ∀ a ∈ as, ∀ x ∈ a.event.names, toUpper x ≠ u) :
    (n.run env maxDuration as).server.dbs.lookup u = n.server.dbs.lookup u ∧
      (n.run env maxDuration as).apiKeys.lookup u = n.apiKeys.lookup u :=
  run_induction maxDuration (P := Agrees u n) (fun a ha _ _ hP he => hP.trans (he.agrees_of_names (hu a ha)))
    ⟨rfl, rfl⟩

/-- A `PUT` on `/db/b`, a `/create` of `c` and a gRPC `Delete` on `b` leave
the database `A` and its key as they were. -/
theorem run_isolates_witness :
    let env : Env := ⟨fun _ => 0, 4, 16, id, false⟩
    let n : Node := ⟨⟨(∅ : Registry).insert (ofString "A") ⟨newHashMap (fun _ => 0) 4 16 0 [], ofString "a.bin"⟩,
        100000⟩, (∅ : AList fun _ : Bytes => Bytes).insert (ofString "A") (ofString "t"), ∅⟩
    let as : List Arrival :=
      [⟨.http ⟨.put, ofString "/db/b", [], ⟨none, none, none, some (ofString "k"), some (ofString "v"), false⟩⟩,
          0, [], .none⟩,
        ⟨.http ⟨.post, ofString "/create", [], ⟨some (ofString "c"), none, none, none, none, false⟩⟩, 0, [], .none⟩,
        ⟨.grpc (some 1) (.delete (ofString "b") (ofString "k") []), 0, [], .none⟩]
    (n.run env 10 as).server.dbs.lookup (ofString "A") = n.server.dbs.lookup (ofString "A") ∧
      (n.run env 10 as).apiKeys.lookup (ofString "A") = n.apiKeys.lookup (ofString "A") :=
  run_isolates 10 _ _ _ (by decide)

/-! ### The files a run writes -/

theorem Good.withServer {s : Server} (hg : n.Good)
    (hs : ∀ u, (s.dbs.lookup u).map Db.fileName = (n.server.dbs.lookup u).map Db.fileName) :
    Good { n with server := s } := by
  refine ⟨hg.shaped, fun u d hd => ?_⟩
  have h := hs u
  rw [hd, Option.map_some'] at h
  obtain ⟨d₀, hd₀, he⟩ := Option.map_eq_some'.mp h.symm
  obtain ⟨x, hx, hf⟩ := hg.files u d₀ hd₀
  exact ⟨x, hx, he ▸ hf⟩

theorem Good.createApiKeyAt {db : Bytes} (hg : n.Good) (hn : checkDbName db = true) :
    Good (n.createApiKeyAt env fault token db).2 := by
  refine ⟨fun x hx => ?_, fun u d hd => hg.files u d (createApiKeyAt_server ▸ hd)⟩
  rcases mem_createApiKeyAt_folder hx with rfl | hx
  · exact ⟨db, hn, .inr rfl⟩
  · exact hg.shaped x hx

theorem Good.register (hg : n.Good) (hn : checkDbName name = true) : Good (n.register env name now) := by
  refine ⟨hg.shaped.insert ⟨name, hn, .inl rfl⟩, fun u d hd => ?_⟩
  by_cases hu : u = toUpper name
  · subst hu
    simp only [Node.register, AList.lookup_insert, Option.some.injEq] at hd
    exact ⟨name, hn, by rw [← hd]⟩
  · exact hg.files u d (by rwa [Node.register, AList.lookup_insert_ne hu] at hd)

theorem Good.newDBAt (hg : n.Good) (hn : checkDbName name = true) :
    Good (n.newDBAt env fault now token name).2 := by
  rcases newDBAt_cases env fault now token name n with h | ⟨-, h | h⟩ <;> rw [h]
  · exact hg
  · exact hg.register hn
  · exact (hg.register hn).createApiKeyAt hn

/-- Every log in the folder is the log of the database registered under its
name. -/
def Tidy (n : Node) : Prop :=
  ∀ name, binFile name ∈ n.folder →
    (n.server.dbs.lookup (toUpper name)).map Db.fileName = some (binFile name)

/-- No log of a name no database is registered under is left in a tidy
folder. -/
theorem Tidy.lookup_none (ht : n.Tidy) (hnew : n.dbExists name = false) :
    n.folder.lookup (binFile name) = none := by
  refine AList.lookup_eq_none.mpr fun hm => ?_
  obtain ⟨d, hd, -⟩ := Option.map_eq_some'.mp (ht name hm)
  simp [dbExists, hd] at hnew

theorem Tidy.withServer {s : Server} (ht : n.Tidy)
    (hs : ∀ u, (s.dbs.lookup u).map Db.fileName = (n.server.dbs.lookup u).map Db.fileName) :
    Tidy { n with server := s } := fun x hx => (hs _).trans (ht x hx)

theorem Tidy.createApiKeyAt {db : Bytes} (ht : n.Tidy) :
    Tidy (n.createApiKeyAt env fault token db).2 := fun x hx => by
  rcases mem_createApiKeyAt_folder hx with h | h
  · exact absurd h (binFile_ne_apikeyFile _ _)
  · rw [createApiKeyAt_server]; exact ht x h

theorem Tidy.register (ht : n.Tidy) (hnew : n.dbExists name = false) :
    Tidy (n.register env name now) := fun x hx => by
  rcases (AList.mem_insert _).mp hx with h | h
  · obtain rfl := binFile_inj h
    simp [Node.register, AList.lookup_insert]
  · have hne : toUpper x ≠ toUpper name := fun hu => by
      obtain ⟨d, hd, -⟩ := Option.map_eq_some'.mp (ht x h)
      rw [hu] at hd
      simp [dbExists, hd] at hnew
    show (AList.lookup (toUpper x) (n.server.dbs.insert (toUpper name) _)).map Db.fileName = _
    rw [AList.lookup_insert_ne hne]
    exact ht x h

theorem Tidy.newDBAt (ht : n.Tidy) : Tidy (n.newDBAt env fault now token name).2 := by
  rcases newDBAt_cases env fault now token name n with h | ⟨hnew, h | h⟩ <;> rw [h]
  · exact ht
  · exact ht.register hnew
  · exact (ht.register hnew).createApiKeyAt

theorem Tidy.dbDelete (ht : n.Tidy) : Tidy (n.dbDelete name) := by
  unfold Node.dbDelete
  split
  · rename_i d hd
    intro x hx
    obtain ⟨hne, hx⟩ := AList.mem_erase.mp hx
    have h := ht x hx
    have hu : toUpper x ≠ toUpper name := fun hu => by
      rw [hu, hd, Option.map_some', Option.some.injEq] at h
      exact hne h.symm
    show (AList.lookup (toUpper x) (n.server.dbs.erase (toUpper name))).map Db.fileName = _
    rw [AList.lookup_erase_ne hu]
    exact h
  · exact ht

theorem Effect.tidy {n' : Node} (he : Effect env keys strs names n n') (ht : n.Tidy) : n'.Tidy := by
  cases he with
  | read => exact ht
  | table name f => exact ht.withServer (Server.withDb_fileName f name)
  | newDB => exact ht.newDBAt
  | createApiKey => exact ht.createApiKeyAt
  | dbDelete => exact ht.dbDelete

/-- The table `NewDB` registers for a name is replayed from the log the folder
holds for it. -/
theorem register_db (env : Env) (name : Bytes) (now : Int64) (n : Node) :
    (n.register env name now).server.db name =
    some (newHashMap env.xxhash env.numCPU env.multiplier now ((n.folder.lookup (binFile name)).getD [])) := by
  simp [register, Server.db, AList.lookup_insert]

/-- From a process whose folder holds only the logs of its registered
databases, after any run of HTTP requests and gRPC calls, `NewDB` of a name no
database is registered under starts a table that holds no key: the data of a
deleted database never comes back. -/
theorem newDB_after_run_is_empty (ht : n.Tidy) (as : List Arrival)
    (hnew : (n.run env maxDuration as).dbExists name = false) {hm : HashMap}
    (hhm : ((n.run env maxDuration as).newDBAt env fault now token name).2.server.db name = some hm)
    (k : Bytes) : hm.lookup k = none := by
  have hlog := (run_induction maxDuration (fun _ _ _ _ ht he => he.tidy ht) ht).lookup_none hnew
  have hreg := register_db env name now (n.run env maxDuration as)
  rw [hlog, Option.getD_none] at hreg
  rcases newDBAt_cases env fault now token name (n.run env maxDuration as) with h | ⟨-, h | h⟩ <;>
    rw [h] at hhm
  · rw [dbExists] at hnew
    rw [Server.db, Option.map_eq_some'] at hhm
    obtain ⟨d, hd, -⟩ := hhm
    rw [hd] at hnew
    cases hnew
  · rw [hreg, Option.some.injEq] at hhm
    rw [← hhm]
    exact lookup_newHashMap_nil _ _ _ _ k
  · rw [createApiKeyAt_server, hreg, Option.some.injEq] at hhm
    rw [← hhm]
    exact lookup_newHashMap_nil _ _ _ _ k

/-- A database `a` is created and deleted over HTTP; created again, it holds no
key. -/
theorem newDB_after_run_is_empty_witness :
    let env : Env := ⟨fun _ => 0, 4, 16, id, false⟩
    let as : List Arrival :=
      [⟨.http ⟨.post, ofString "/create", [], ⟨some (ofString "a"), none, none, none, none, false⟩⟩,
          0, [], .none⟩,
        ⟨.http ⟨.delete, ofString "/db/a", [], ⟨none, none, none, none, none, false⟩⟩, 0, [], .none⟩]
    let n := (fresh ∅ 100000).run env 10000000000 as
    n.dbExists (ofString "a") = false ∧
      (n.newDBAt env .none 5 [] (ofString "a")).2.server.db (ofString "a") =
        some (newHashMap (fun _ => 0) 4 16 5 []) ∧
      ∀ k, (newHashMap (fun _ => 0) 4 16 5 []).lookup k = none := by
  intro env as n
  have hnew : n.dbExists (ofString "a") = false := by decide
  have hdb : (n.newDBAt env .none 5 [] (ofString "a")).2.server.db (ofString "a") =
      some (newHashMap (fun _ => 0) 4 16 5 []) := rfl
  exact ⟨hnew, hdb, newDB_after_run_is_empty _ (fun _ h => by cases h) as hnew hdb⟩

end Node

end HydraKV.Routes
