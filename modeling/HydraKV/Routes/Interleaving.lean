import HydraKV.Routes.Reload

/-! Concurrent `SetNX` and `NewDB` calls. A call is a sequence of steps, each
one critical section of the source: a table's `Get` or `Set` runs under the
table's locks, and the registry is read under `s.mut.RLock` and written under
`s.mut.Lock`. A schedule lists which call moves next, so every schedule is an
interleaving the Go runtime can produce. `SetNX` reads with `Get` and writes
with `Set` in two steps, and `NewDB` checks with `DBExists`, opens the table,
and registers it in three, so two calls can both pass their check. Each call
run alone from its first step to its last is the sequential operation. -/

namespace HydraKV.Routes

open Go Store

/-! ### Schedules -/

/-- Run a schedule: each entry names the call that takes its next step. -/
def schedule {γ σ : Type} (step : γ → σ → γ × σ) : List Nat → List γ × σ → List γ × σ
  | [], st => st
  | i :: is, (cs, s) =>
    match cs[i]? with
    | some c => schedule step is (cs.set i (step c s).1, (step c s).2)
    | none => schedule step is (cs, s)

section Schedule

variable {γ σ : Type} {step : γ → σ → γ × σ}

@[simp] theorem schedule_nil (st : List γ × σ) : schedule step [] st = st := rfl

theorem schedule_cons {i : Nat} {is : List Nat} {cs : List γ} {c : γ} {s : σ} (h : cs[i]? = some c) :
    schedule step (i :: is) (cs, s) = schedule step is (cs.set i (step c s).1, (step c s).2) := by
  simp [schedule, h]

theorem set_eq_self_of_getElem? : ∀ {cs : List γ} {i : Nat} {c : γ}, cs[i]? = some c → cs.set i c = cs
  | _ :: _, 0, _, h => by simp at h; simp [h]
  | _ :: _, _ + 1, _, h => by simp at h; simp [set_eq_self_of_getElem? h]

/-- A property that every step keeps holds after every schedule. -/
theorem schedule_induction {P : List γ × σ → Prop}
    (hstep : ∀ {cs : List γ} {s : σ} {i : Nat} {c : γ}, P (cs, s) → cs[i]? = some c →
      P (cs.set i (step c s).1, (step c s).2)) :
    ∀ (sch : List Nat) {st : List γ × σ}, P st → P (schedule step sch st)
  | [], _, h => h
  | i :: sch, (cs, s), h => by
    cases hi : cs[i]? with
    | none => simpa [schedule, hi] using schedule_induction hstep sch h
    | some c => rw [schedule_cons hi]; exact schedule_induction hstep sch (hstep h hi)

theorem schedule_append (xs ys : List Nat) (st : List γ × σ) :
    schedule step (xs ++ ys) st = schedule step ys (schedule step xs st) := by
  induction xs generalizing st with
  | nil => rfl
  | cons i xs ih =>
    obtain ⟨cs, s⟩ := st
    cases h : cs[i]? with
    | none => simp [schedule, h, ih]
    | some c => simp [schedule, h, ih]

end Schedule

/-! ### `SetNX` -/

/-- Where a `SetNX` call is: before its `CheckEntries` and `Get`, after them
with the key absent, or returned. -/
inductive SetNXPc
  | start
  | checked
  | done (ok : Bool)
  deriving DecidableEq

/-- A `SetNX(db, key, value, ttl)` call. -/
structure SetNXCall where
  db : Bytes
  key : Bytes
  value : Bytes
  ttl : Int64
  pc : SetNXPc

namespace SetNXCall

/-- One step of the call at clock second `now`. -/
def step (now : Int64) (c : SetNXCall) (s : Server) : SetNXCall × Server :=
  match c.pc with
  | .start =>
    if s.checkEntries c.db = false then ({ c with pc := .done false }, s)
    else
      match s.db c.db with
      | some hm =>
        if (hm.get c.key).1 then ({ c with pc := .done false }, s) else ({ c with pc := .checked }, s)
      | none => ({ c with pc := .done false }, s)
  | .checked =>
    ({ c with pc := .done (s.withDb (HashMap.set now c.ttl c.key c.value) c.db).1 },
      (s.withDb (HashMap.set now c.ttl c.key c.value) c.db).2)
  | .done _ => (c, s)

variable {now : Int64} {c : SetNXCall} {s : Server}

theorem step_start (hc : c.pc = .start) (hce : s.checkEntries c.db = true)
    (hg : (s.get c.db c.key).1 = false) : c.step now s = ({ c with pc := .checked }, s) := by
  cases hdb : s.db c.db with
  | none => simp [Server.checkEntries, hdb] at hce
  | some hm =>
    simp only [Server.get, hdb] at hg
    simp [step, hc, hce, hdb, hg]

theorem step_checked (hc : c.pc = .checked) :
    c.step now s = ({ c with pc := .done (s.withDb (HashMap.set now c.ttl c.key c.value) c.db).1 },
      (s.withDb (HashMap.set now c.ttl c.key c.value) c.db).2) := by
  simp [step, hc]

end SetNXCall

section Race

variable {now : Int64} {s : Server} {hm : HashMap} {d k v₀ v₁ : Bytes} {t₀ t₁ : Int64}

/-- Two `SetNX` calls on key `k`, absent from a table with room: when both
`Get`s run before either `Set`, both calls return `true`, and the key holds
the value of the call that wrote last. -/
theorem setNX_get_get_set_set (hdb : s.db d = some hm) (hi : hm.Inv)
    (hce : hm.getEntries.slt s.maxEntries = true) (hk : hm.lookup k = none) :
    let r := schedule (SetNXCall.step now) [0, 1, 0, 1]
      ([⟨d, k, v₀, t₀, .start⟩, ⟨d, k, v₁, t₁, .start⟩], s)
    r.1.map SetNXCall.pc = [.done true, .done true] ∧ r.2.get d k = (true, v₁) := by
  have hce' : s.checkEntries d = true := by simp [Server.checkEntries, hdb, hce]
  have hg : (s.get d k).1 = false := by simp [Server.get, hdb, HashMap.get_eq, hk]
  have h₀ := hi.set_spec now t₀ k v₀
  have hs₁ := Server.withDb_spec (f := HashMap.set now t₀ k v₀) hdb
  have h₁ := h₀.2.1.set_spec now t₁ k v₁
  have hs₂ := Server.withDb_spec (f := HashMap.set now t₁ k v₁) hs₁.2.1
  have e₀ : SetNXCall.step now ⟨d, k, v₀, t₀, .start⟩ s = _ := SetNXCall.step_start rfl hce' hg
  have e₁ : SetNXCall.step now ⟨d, k, v₁, t₁, .start⟩ s = _ := SetNXCall.step_start rfl hce' hg
  dsimp only
  rw [schedule_cons (c := ⟨d, k, v₀, t₀, .start⟩) rfl, e₀,
    schedule_cons (c := ⟨d, k, v₁, t₁, .start⟩) rfl, e₁,
    schedule_cons (c := ⟨d, k, v₀, t₀, .checked⟩) rfl, SetNXCall.step_checked rfl,
    schedule_cons (c := ⟨d, k, v₁, t₁, .checked⟩) rfl, SetNXCall.step_checked rfl]
  simp [hs₁.1, h₀.1, hs₂.1, h₁.1, Server.get, hs₂.2.1, HashMap.get_eq, h₁.2.2]

end Race

/-- Two `SetNX` calls for the absent key `k` of a new database: when both
`Get`s run before either `Set`, both calls return `true`, and `Get` returns
the second call's value. -/
theorem setNX_race (xxhash : Bytes → UInt64) (numCPU multiplier now : Int64) :
    let s : Server := ⟨(∅ : Registry).insert (ofString "D")
      ⟨newHashMap xxhash numCPU multiplier now [], ofString "d.bin"⟩, 100000⟩
    let r := schedule (SetNXCall.step now) [0, 1, 0, 1]
      ([⟨ofString "d", ofString "k", ofString "1", 0, .start⟩,
        ⟨ofString "d", ofString "k", ofString "2", 0, .start⟩], s)
    r.1.map SetNXCall.pc = [.done true, .done true] ∧
      r.2.get (ofString "d") (ofString "k") = (true, ofString "2") := by
  intro s
  have hd : toUpper (ofString "d") = ofString "D" := by decide
  have hr₀ := refines_newHashMap xxhash numCPU multiplier now
  have hdb₀ : s.db (ofString "d") = some (newHashMap xxhash numCPU multiplier now []) := by
    show (AList.lookup (toUpper (ofString "d")) s.dbs).map Db.table = _
    rw [hd, AList.lookup_insert]; rfl
  have hce : (newHashMap xxhash numCPU multiplier now []).getEntries.slt s.maxEntries = true := by
    rw [hr₀.getEntries_eq, show s.maxEntries = 100000 from rfl]; decide
  exact setNX_get_get_set_set hdb₀ hr₀.inv hce (lookup_newHashMap_nil xxhash numCPU multiplier now _)

/-! ### `NewDB` -/

/-- Where a `NewDB` call is: before `DBExists`, after it with the name free,
after `NewHashMap` opened the table `hm`, after registering it, or returned
`(exists, created, apikey)`. -/
inductive NewDBPc
  | start
  | checked
  | opened (hm : HashMap)
  | registered
  | done (dbExists created : Bool) (apikey : Bytes)

/-- A `NewDB(name)` call; `token` is what its `CreateRandomApiKey` draws. -/
structure NewDBCall where
  name : Bytes
  token : Bytes
  pc : NewDBPc

/-- A process, with the log file of every table `NewHashMap` opened: each
such table replayed that file and runs its own `Loop` writing it. -/
structure World where
  node : Node
  writers : List Bytes

namespace NewDBCall

variable (env : Env)

/-- One step of the call at clock second `now`: `DBExists` under the read
lock, `NewHashMap` outside any lock, the registry insert under the write
lock, then `CreateApiKey` under the write lock when keys are enabled. -/
def step (now : Int64) (c : NewDBCall) (w : World) : NewDBCall × World :=
  match c.pc with
  | .start =>
    if w.node.dbExists c.name then ({ c with pc := .done true false [] }, w)
    else ({ c with pc := .checked }, w)
  | .checked =>
    let log := (w.node.folder.lookup (binFile c.name)).getD []
    ({ c with pc := .opened (newHashMap env.xxhash env.numCPU env.multiplier now log) },
      ⟨{ w.node with folder := w.node.folder.insert (binFile c.name) log },
        w.writers ++ [binFile c.name]⟩)
  | .opened hm =>
    let n := { w.node with
      server := { w.node.server with dbs := w.node.server.dbs.insert (toUpper c.name) ⟨hm, binFile c.name⟩ } }
    ({ c with pc := if env.apikeyEnabled then .registered else .done false true [] }, { w with node := n })
  | .registered =>
    ({ c with pc := .done false true (w.node.createApiKey env c.token c.name).1 },
      { w with node := (w.node.createApiKey env c.token c.name).2 })
  | .done .. => (c, w)

/-- What the call returned, once it has. -/
def result (c : NewDBCall) : Option (Bool × Bool × Bytes) :=
  match c.pc with
  | .done e cr a => some (e, cr, a)
  | _ => none

variable {env} {now : Int64} {c : NewDBCall} {w : World}

/-- Two `NewDB` calls for one free name, with keys enabled: when both
`DBExists` checks run before either call registers its table, both calls
return `created = true` with their own token, two tables are opened on the
log file, and the stored key hash is the second token's. -/
theorem schedule_check_check (now : Int64) (w : World) (name t₀ t₁ : Bytes)
    (henv : env.apikeyEnabled = true) (hn : w.node.dbExists name = false) :
    let r := schedule (step env now) [0, 1, 0, 1, 0, 1, 0, 1]
      ([⟨name, t₀, .start⟩, ⟨name, t₁, .start⟩], w)
    r.1.map result = [some (false, true, t₀), some (false, true, t₁)] ∧
      r.2.writers = w.writers ++ [binFile name, binFile name] ∧
      r.2.node.apiKeys.lookup (toUpper name) = some (env.sha256 t₁) := by
  simp [schedule, step, hn, henv, result, Node.createApiKey, Node.saveApiKey]

end NewDBCall

/-- Two concurrent `NewDB("a")` calls on a new process with keys enabled:
both return `created = true`, each with its own token, two tables are opened
on `a.bin`, and the first token is valid only if the two tokens' hashes
collide. -/
theorem newDB_race (xxhash : Bytes → UInt64) (sha256 : Bytes → Bytes)
    (numCPU multiplier now maxEntries : Int64) :
    let env : Env := ⟨xxhash, numCPU, multiplier, sha256, true⟩
    let r := schedule (NewDBCall.step env now) [0, 1, 0, 1, 0, 1, 0, 1]
      ([⟨ofString "a", ofString "t0", .start⟩, ⟨ofString "a", ofString "t1", .start⟩],
        ⟨Node.fresh ∅ maxEntries, []⟩)
    r.1.map NewDBCall.result = [some (false, true, ofString "t0"), some (false, true, ofString "t1")] ∧
      r.2.writers = [ofString "a.bin", ofString "a.bin"] ∧
      r.2.node.isApiKeyValid env (ofString "a") (ofString "t0") =
        (sha256 (ofString "t1") == sha256 (ofString "t0")) := by
  intro env r
  obtain ⟨h₁, h₂, h₃⟩ := NewDBCall.schedule_check_check now ⟨Node.fresh ∅ maxEntries, []⟩
    (ofString "a") (ofString "t0") (ofString "t1") (show env.apikeyEnabled = true from rfl) rfl
  exact ⟨h₁, h₂, by simp only [Node.isApiKeyValid, h₃]⟩

end HydraKV.Routes
