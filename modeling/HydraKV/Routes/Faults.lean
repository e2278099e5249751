import HydraKV.Routes.Reload

/-! `NewDB` and `CreateApiKey` when one of their operations fails. `NewDB`
registers the new table under the write lock before it creates the key, and
`SaveApiKey` stores the key's hash in `Utils.apiKeys` before it opens the key
file with `O_TRUNC` and writes it. Neither undoes a step when a later one
fails: a `NewDB` whose key creation fails returns the error with the database
registered, and a `CreateApiKey` that fails at the key file returns the error
with the in-memory key already replaced. A failed `file.Write` is taken to
have written nothing, leaving the truncated file empty; a failing `NewHashMap`
(creating the DB folder, replaying or opening the log) changes none of the
registry, the keys and the key files. -/

namespace HydraKV.Routes

open Go Store

/-- The operation of `NewDB` or `CreateApiKey` that fails, if any. -/
inductive Fault
  | none
  | newHashMap
  | randRead
  | openApikey
  | writeApikey
  deriving DecidableEq, Repr

namespace Node

variable (env : Env)

/-- `SaveApiKey(db, hash)` when `fault` fails: whether it returned `nil`. -/
def saveApiKeyAt (fault : Fault) (db hash : Bytes) (n : Node) : Bool × Node :=
  let n := { n with apiKeys := n.apiKeys.insert (toUpper db) hash }
  match fault with
  | .openApikey => (false, n)
  | .writeApikey => (false, { n with folder := n.folder.insert (apikeyFile db) [] })
  | _ => (true, { n with folder := n.folder.insert (apikeyFile db) hash })

/-- `CreateApiKey(db)` when `fault` fails, drawing `token`: the token, or
`none` for a returned error. -/
def createApiKeyAt (fault : Fault) (token db : Bytes) (n : Node) : Option Bytes × Node :=
  if fault = .randRead then (none, n)
  else
    let r := n.saveApiKeyAt fault db (env.sha256 token)
    (if r.1 then some token else none, r.2)

/-- `NewDB(name)` when `fault` fails: the error (the failing operation),
`exists`, `created` and the key. -/
def newDBAt (fault : Fault) (now : Int64) (token name : Bytes) (n : Node) :
    (Option Fault × Bool × Bool × Bytes) × Node :=
  if n.dbExists name then ((none, true, false, []), n)
  else if fault = .newHashMap then ((some .newHashMap, false, false, []), n)
  else
    let log := (n.folder.lookup (binFile name)).getD []
    let d : Db := ⟨newHashMap env.xxhash env.numCPU env.multiplier now log, binFile name⟩
    let n := { n with
      server := { n.server with dbs := n.server.dbs.insert (toUpper name) d }
      folder := n.folder.insert (binFile name) log }
    if env.apikeyEnabled then
      match n.createApiKeyAt env fault token name with
      | (some key, n) => ((none, false, true, key), n)
      | (none, n) => ((some fault, false, false, []), n)
    else ((none, false, true, []), n)

variable {n : Node} {token db name : Bytes} {now : Int64}

/-! ### Without a fault -/

/-! ### Faults that change nothing -/

/-! ### Faults after a change -/

/-- A key-file fault returns an error after the in-memory key was replaced. -/
theorem createApiKeyAt_file {f : Fault} (hf : f = .openApikey ∨ f = .writeApikey) :
    (n.createApiKeyAt env f token db).1 = none ∧
      (n.createApiKeyAt env f token db).2.apiKeys.lookup (toUpper db) = some (env.sha256 token) := by
  rcases hf with rfl | rfl <;> exact ⟨rfl, AList.lookup_insert _⟩

/-- With keys enabled, a `NewDB` of a new name whose key creation fails
returns that error with the database registered. -/
theorem newDBAt_key_fault (hkeys : env.apikeyEnabled = true) (hnew : n.dbExists name = false) {f : Fault}
    (hf : f = .randRead ∨ f = .openApikey ∨ f = .writeApikey) :
    (n.newDBAt env f now token name).1.1 = some f ∧ (n.newDBAt env f now token name).2.dbExists name = true := by
  have hreg (d : Db) (n' : Node) (h : n'.server.dbs = n.server.dbs.insert (toUpper name) d) :
      n'.dbExists name = true := by
    rw [dbExists, h, AList.lookup_insert]; rfl
  rcases hf with rfl | rfl | rfl <;>
    simp only [newDBAt, hnew, hkeys, if_true, if_false, reduceCtorEq, Bool.false_eq_true] <;>
    exact ⟨rfl, hreg _ _ rfl⟩

end Node

/-- With API keys enabled, a `NewDB` of a new name whose key creation fails
(at `rand.Read`, at opening the key file, or at writing it) returns the error
with the database registered; a `CreateApiKey` that fails at the key file
returns the error with the in-memory key of the database replaced by the hash
of a token no caller was given. -/
theorem newDB_createApiKey_not_atomic (env : Env) (n : Node) (now : Int64) (token name db : Bytes)
    (hkeys : env.apikeyEnabled = true) (hnew : n.dbExists name = false) :
    (∀ f ∈ [Fault.randRead, .openApikey, .writeApikey],
      (n.newDBAt env f now token name).1.1 = some f ∧ (n.newDBAt env f now token name).2.dbExists name = true) ∧
    (∀ f ∈ [Fault.openApikey, .writeApikey],
      (n.createApiKeyAt env f token db).1 = none ∧
        (n.createApiKeyAt env f token db).2.apiKeys.lookup (toUpper db) = some (env.sha256 token)) := by
  refine ⟨fun f hf => Node.newDBAt_key_fault env hkeys hnew ?_, fun f hf => Node.createApiKeyAt_file env ?_⟩
  · simpa only [List.mem_cons, List.mem_singleton, List.not_mem_nil, or_false] using hf
  · simpa only [List.mem_cons, List.mem_singleton, List.not_mem_nil, or_false] using hf

theorem newDB_createApiKey_not_atomic_witness :
    let env : Env := ⟨fun _ => 0, 4, 16, id, true⟩
    let n := Node.fresh ∅ 100000
    (∀ f ∈ [Fault.randRead, .openApikey, .writeApikey],
      (n.newDBAt env f 1000 [116] [97] ).1.1 = some f ∧ (n.newDBAt env f 1000 [116] [97]).2.dbExists [97] = true) ∧
    (∀ f ∈ [Fault.openApikey, .writeApikey],
      (n.createApiKeyAt env f [116] [97]).1 = none ∧
        (n.createApiKeyAt env f [116] [97]).2.apiKeys.lookup (toUpper [97]) = some (env.sha256 [116])) :=
  newDB_createApiKey_not_atomic _ _ 1000 [116] [97] [97] rfl (by decide)

end HydraKV.Routes
