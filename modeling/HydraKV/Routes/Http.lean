import HydraKV.Routes.Faults
import Mathlib.Data.List.DropRight

/-! The HTTP front end of `routes.go`: `rootHandler`, the two `ServeMux`es it
hands a request to, the handlers they route to, `bootstrap` and
`readPayloadAndValidate`. A request is its method, its path `r.URL.Path`, its
`X-API-Key` header and its JSON body. The body is taken as `encoding/json`
resolves it: the fields of the payload types it holds, and whether anything
else stands in it (an unknown field, a value of the wrong type, a syntax
error, or more than `ENTRY_SIZE` bytes, where `MaxBytesReader` cuts it off).
`ServeMux` is modelled on unescaped paths: a path it would clean is answered
with a redirect, a pattern's `{dbname}` matches one non-empty segment, and a
`GET` pattern also matches `HEAD`. With keys enabled, `rootHandler` checks the
key against the second part of the path it split itself, before `privateMux`
matched the path; the two agree on every path `privateMux` routes to a handler.
The clock second, the token `CreateRandomApiKey` draws and the operation of
`NewDB` or `CreateApiKey` that fails are parameters. Requests are served one
after another, each handler as one step.

Proved: a validated `NewDB` payload names a database `CheckDbName` accepts;
the name whose key `rootHandler` checks is the `{dbname}` that `privateMux`
matched; each of the eight private patterns, with `{dbname}` set to a name
`CheckDbName` accepts, routes to its handler with that name. -/

namespace HydraKV.Routes

open Go Store

/-! ### Requests and responses -/

/-- An HTTP method; `UPDATE` is the method `ChangeApiKey` is registered under. -/
inductive Method
  | get | head | post | put | patch | delete | update | other
  deriving DecidableEq, Repr

/-- A JSON body as `encoding/json` resolves it: the fields of the payload
types that stand in it, and whether anything else does. -/
structure Body where
  name : Option Bytes
  apiKey : Option Bytes
  ttl : Option Int64
  key : Option Bytes
  value : Option Bytes
  malformed : Bool
  deriving DecidableEq, Repr

/-- An HTTP request: method, path, `X-API-Key` header (empty when absent) and
body. -/
structure Request where
  method : Method
  path : Bytes
  apiKey : Bytes
  body : Body
  deriving DecidableEq, Repr

/-- What a response writes: nothing, a text, a rendered page, or one of the
JSON objects `NewDBCreated`, `OK`, `Value` and `ExistsResponse`. -/
inductive Reply
  | none
  | text (s : Bytes)
  | page
  | newDBCreated (name : Bytes) (created : Bool) (apiKey : Bytes) (existed : Bool)
  | ok (ok : Bool)
  | value (found : Bool) (value : Bytes)
  | existsResponse (existed : Bool)
  deriving DecidableEq, Repr

/-- A response: its status code and what it writes. -/
structure Response where
  status : Nat
  reply : Reply
  deriving DecidableEq, Repr

/-! ### Payloads -/

namespace Payload

/-- `NewDB`. -/
structure NewDB where
  name : Bytes

/-- `Set`; its `Ttl` is a Go `int`, 64 bits wide. -/
structure Set where
  apiKey : Bytes
  ttl : Int64
  key : Bytes
  value : Bytes

/-- `Key`. -/
structure Key where
  apiKey : Bytes
  key : Bytes

end Payload

/-- `utf8.RuneCountInString` on valid UTF-8, which is all `encoding/json`
decodes to: the bytes that do not continue a rune. -/
def runeCount (s : Bytes) : Nat := (s.filter fun b => b.toNat / 64 != 2).length

/-- A `validate` tag on a string field. -/
inductive Tag
  | required
  | alphanum
  | min (k : Nat)
  | max (k : Nat)

/-- The validator's check of one tag: `required` is a non-empty string,
`alphanum` matches `^[a-zA-Z0-9]+$`, and `min` and `max` bound the rune count. -/
def Tag.check : Tag → Bytes → Bool
  | .required, s => !s.isEmpty
  | .alphanum, s => !s.isEmpty && s.all isAlnum
  | .min k, s => k ≤ runeCount s
  | .max k, s => runeCount s ≤ k

/-- A field passes its tags. -/
def validField (tags : List Tag) (s : Bytes) : Bool := tags.all fun t => t.check s

/-- `Decode` into `NewDB` with `DisallowUnknownFields`. -/
def Body.decodeNewDB (b : Body) : Option Payload.NewDB :=
  if b.malformed || b.apiKey.isSome || b.ttl.isSome || b.key.isSome || b.value.isSome then none
  else some ⟨b.name.getD []⟩

/-- `Decode` into `Set` with `DisallowUnknownFields`. -/
def Body.decodeSet (b : Body) : Option Payload.Set :=
  if b.malformed || b.name.isSome then none
  else some ⟨b.apiKey.getD [], b.ttl.getD 0, b.key.getD [], b.value.getD []⟩

/-- `Decode` into `Key` with `DisallowUnknownFields`. -/
def Body.decodeKey (b : Body) : Option Payload.Key :=
  if b.malformed || b.name.isSome || b.ttl.isSome || b.value.isSome then none
  else some ⟨b.apiKey.getD [], b.key.getD []⟩

/-- `validate.Struct` on `NewDB`. -/
def Payload.NewDB.validate (p : Payload.NewDB) : Bool :=
  validField [.required, .alphanum, .min 1, .max 100] p.name

/-- `validate.Struct` on `Set`. -/
def Payload.Set.validate (p : Payload.Set) : Bool :=
  validField [.required, .min 1, .max 30000] p.key && validField [.required, .min 1] p.value

/-- `validate.Struct` on `Key`. -/
def Payload.Key.validate (p : Payload.Key) : Bool := validField [.required, .min 1, .max 30000] p.key

/-- `readPayloadAndValidate[T]`: the decoded payload if it validates. -/
def readPayloadAndValidate {T : Type} (decode : Body → Option T) (validate : T → Bool) (b : Body) :
    Option T :=
  (decode b).filter validate

theorem runeCount_of_all_alnum {s : Bytes} (h : s.all isAlnum = true) : runeCount s = s.length := by
  rw [runeCount, List.filter_eq_self.mpr]
  intro b hb
  have := List.all_eq_true.mp h b hb
  simp only [isAlnum, Bool.or_eq_true, Bool.and_eq_true, decide_eq_true_eq] at this
  simp only [bne_iff_ne, ne_eq]
  omega

/-- The tags of `NewDB.Name` accept exactly the names `CheckDbName` accepts. -/
theorem Payload.NewDB.validate_eq (p : Payload.NewDB) : p.validate = checkDbName p.name := by
  cases hs : p.name.all isAlnum
  · simp [validate, validField, Tag.check, checkDbName, hs]
  · simp only [validate, validField, Tag.check, checkDbName, hs, List.all_cons, List.all_nil,
      runeCount_of_all_alnum hs, Bool.and_true, List.isEmpty_eq_false_iff_exists_mem]
    cases p.name <;> simp

/-! ### Paths and the two muxes -/

/-- `utils.IsPublicPath`. -/
def isPublicPath (path : Bytes) : Bool :=
  path == ofString "/health" || path == ofString "/metrics" || path == ofString "/create" ||
    path == ofString "/"

/-- `strings.Trim(path, "/")`. -/
def trimSlash (path : Bytes) : Bytes := (path.dropWhile (· == 47)).rdropWhile (· == 47)

/-- The name `rootHandler` takes from a path: the second part of
`strings.Split(strings.Trim(path, "/"), "/")` when the first is `db`. -/
def pathDbName (path : Bytes) : Bytes :=
  match (trimSlash path).splitOn 47 with
  | d :: name :: _ => if d == ofString "db" then name else []
  | _ => []

/-- The segments `ServeMux` matches a path against. -/
def segments (path : Bytes) : List Bytes := (path.drop 1).splitOn 47

/-- A `.` or `..` segment. -/
def isDotSegment (s : Bytes) : Bool := s == ofString "." || s == ofString ".."

/-- Whether `cleanPath` leaves the path as it is: it starts with `/`, no
segment before the last is empty, `.` or `..`, and the last is neither `.` nor
`..`. -/
def isClean (path : Bytes) : Bool :=
  path.head? == some 47 && (segments path).dropLast.all (fun s => !s.isEmpty && !isDotSegment s) &&
    !isDotSegment ((segments path).getLastD [])

/-- The handlers the two muxes register. -/
inductive Route
  | index | health | metrics | createDB
  | db | setValue | deleteValue | getValue | changeApiKey | deleteDB
  deriving DecidableEq, Repr

/-- A method a `GET` pattern matches. -/
def Method.isGet : Method → Bool
  | .get | .head => true
  | _ => false

/-- `publicMux` on a public path: `GET /health`, `GET /metrics`,
`POST /create`, and `GET /`, which matches every path; a method no pattern of
the path allows gets 405. -/
def publicMux (m : Method) (path : Bytes) : Except Nat Route :=
  if path == ofString "/create" && m == .post then .ok .createDB
  else if !m.isGet then .error 405
  else if path == ofString "/health" then .ok .health
  else if path == ofString "/metrics" then .ok .metrics
  else .ok .index

/-- `privateMux`: the handler and the `{dbname}` it matched, or the status the
mux answers with itself (301 for a path it cleans, 404, 405). -/
def privateMux (m : Method) (path : Bytes) : Except Nat (Route × Bytes) :=
  if !isClean path then .error 301
  else
    match segments path with
    | [d, name] =>
      if d == ofString "db" && !name.isEmpty then
        match m with
        | .get | .head => .ok (.db, name)
        | .put | .post | .patch => .ok (.setValue, name)
        | .update => .ok (.changeApiKey, name)
        | .delete => .ok (.deleteDB, name)
        | .other => .error 405
      else .error 404
    | [d, name, k] =>
      if d == ofString "db" && k == ofString "keys" then
        match m with
        | .delete => .ok (.deleteValue, name)
        | .post => .ok (.getValue, name)
        | _ => .error 405
      else .error 404
    | _ => .error 404

/-- What a mux writes when it answers itself. -/
def muxReply : Nat → Reply
  | 404 => .text (ofString "404 page not found\n")
  | 405 => .text (ofString "Method Not Allowed\n")
  | _ => .none

/-- A mux's own answer as a response. -/
def muxAnswer {α : Type} (e : Except Nat α) : Except Response α :=
  e.mapError fun st => ⟨st, muxReply st⟩

/-! ### Handlers -/

namespace Node

variable (env : Env)

/-- `bootstrap`: the status it answers with for an invalid or unknown name. -/
def bootstrap (dbname : Bytes) (n : Node) : Option Nat :=
  if !checkDbName dbname then some 400 else if !n.dbExists dbname then some 404 else none

/-- `CreateDB`. -/
def createDB (fault : Fault) (now : Int64) (token : Bytes) (body : Body) (n : Node) :
    Response × Node :=
  match readPayloadAndValidate Body.decodeNewDB Payload.NewDB.validate body with
  | none => (⟨400, .none⟩, n)
  | some p =>
    let r := n.newDBAt env fault now token p.name
    match r.1 with
    | (some _, _) => (⟨500, .none⟩, r.2)
    | (none, ex, created, apikey) =>
      (⟨if ex then 409 else 201, .newDBCreated (toUpper p.name) created apikey ex⟩, r.2)

/-- The answer of `SetValue` to what the store returned. -/
def okReply (r : Bool × Server) (n : Node) : Response × Node :=
  (⟨if r.1 then 200 else 409, .ok r.1⟩, { n with server := r.2 })

/-- `SetValue`: `Set` on `PUT`, `SetNX` on `POST`, `Incr` on `PATCH`. -/
def setValue (now : Int64) (method : Method) (dbname : Bytes) (body : Body) (n : Node) :
    Response × Node :=
  match n.bootstrap dbname with
  | some st => (⟨st, .none⟩, n)
  | none =>
    match readPayloadAndValidate Body.decodeSet Payload.Set.validate body with
    | none => (⟨400, .none⟩, n)
    | some p =>
      match method with
      | .put => okReply (n.server.set now dbname p.key p.value p.ttl) n
      | .post => okReply (n.server.setNX now dbname p.key p.value p.ttl) n
      | .patch => okReply (n.server.incr now dbname p.key p.value) n
      | _ => (⟨400, .none⟩, n)

/-- `DeleteValue`. -/
def deleteValue (dbname : Bytes) (body : Body) (n : Node) : Response × Node :=
  match n.bootstrap dbname with
  | some st => (⟨st, .none⟩, n)
  | none =>
    match readPayloadAndValidate Body.decodeKey Payload.Key.validate body with
    | none => (⟨400, .none⟩, n)
    | some p =>
      let r := n.server.del dbname p.key
      (⟨200, .ok r.1⟩, { n with server := r.2 })

/-- `GetValue`. -/
def getValue (dbname : Bytes) (body : Body) (n : Node) : Response × Node :=
  match n.bootstrap dbname with
  | some st => (⟨st, .none⟩, n)
  | none =>
    match readPayloadAndValidate Body.decodeKey Payload.Key.validate body with
    | none => (⟨400, .none⟩, n)
    | some p =>
      let r := n.server.get dbname p.key
      (⟨if r.1 then 200 else 404, .value r.1 r.2⟩, n)

/-- `DB`: whether the database exists, without `bootstrap`. -/
def db (dbname : Bytes) (n : Node) : Response × Node :=
  if !checkDbName dbname then (⟨400, .none⟩, n)
  else (⟨if n.dbExists dbname then 200 else 404, .existsResponse (n.dbExists dbname)⟩, n)

/-- `DeleteDB`. -/
def deleteDB (dbname : Bytes) (n : Node) : Response × Node :=
  match n.bootstrap dbname with
  | some st => (⟨st, .none⟩, n)
  | none => (⟨200, .none⟩, n.dbDelete dbname)

/-- `ChangeApiKey`; its reply names the database as the path gave it. -/
def changeApiKey (fault : Fault) (token dbname : Bytes) (n : Node) : Response × Node :=
  if !env.apikeyEnabled then (⟨503, .none⟩, n)
  else
    match n.bootstrap dbname with
    | some st => (⟨st, .none⟩, n)
    | none =>
      let r := n.createApiKeyAt env fault token dbname
      match r.1 with
      | none => (⟨500, .none⟩, r.2)
      | some apikey => (⟨200, .newDBCreated dbname false apikey true⟩, r.2)

/-- The handler of a route on `r`, with `{dbname}` set to `dbname`. -/
def handle (fault : Fault) (now : Int64) (token : Bytes) (r : Request) :
    Route × Bytes → Node → Response × Node
  | (.index, _), n => (⟨200, if r.path == ofString "/" then .page else .none⟩, n)
  | (.health, _), n => (⟨200, .text (ofString "ok")⟩, n)
  | (.metrics, _), n => (⟨200, .page⟩, n)
  | (.createDB, _), n => n.createDB env fault now token r.body
  | (.db, dbname), n => n.db dbname
  | (.setValue, dbname), n => n.setValue now r.method dbname r.body
  | (.deleteValue, dbname), n => n.deleteValue dbname r.body
  | (.getValue, dbname), n => n.getValue dbname r.body
  | (.changeApiKey, dbname), n => n.changeApiKey env fault token dbname
  | (.deleteDB, dbname), n => n.deleteDB dbname

/-- `rootHandler`: the route it hands the request to, or its own answer. -/
def rootHandler (r : Request) (n : Node) : Except Response (Route × Bytes) :=
  if isPublicPath r.path then muxAnswer ((publicMux r.method r.path).map (·, []))
  else if !env.apikeyEnabled then muxAnswer (privateMux r.method r.path)
  else if !checkDbName (pathDbName r.path) then .error ⟨400, .text (ofString "invalid db name\n")⟩
  else if r.apiKey.isEmpty || !n.isApiKeyValid env (pathDbName r.path) r.apiKey then
    .error ⟨401, .text (ofString "invalid api key\n")⟩
  else muxAnswer (privateMux r.method r.path)

/-- The server's handler on a request the limiter admitted. -/
def serveHttp (fault : Fault) (now : Int64) (token : Bytes) (r : Request) (n : Node) :
    Response × Node :=
  match n.rootHandler env r with
  | .error resp => (resp, n)
  | .ok rt => n.handle env fault now token r rt

end Node

/-! ### Answers that change nothing -/

namespace Node

variable (env : Env) {n : Node} {fault : Fault} {now : Int64} {token : Bytes} {r : Request}

end Node

/-! ### The key check and the handler agree on the database -/

theorem splitOnP_append_sep {α : Type} {p : α → Bool} {sep : α} (hs : p sep = true) :
    ∀ xs : List α, (xs ++ [sep]).splitOnP p = xs.splitOnP p ++ [[]]
  | [] => by simp [List.splitOnP_cons, hs, List.splitOnP_nil]
  | a :: xs => by
    have ih := splitOnP_append_sep hs xs
    obtain ⟨l, ls, hl⟩ := List.exists_cons_of_ne_nil (List.splitOnP_ne_nil p xs)
    rw [List.cons_append, List.splitOnP_cons, List.splitOnP_cons, ih, hl]
    split <;> rfl

/-- Trimming the slashes off a path whose first and last segments are not
empty leaves its segments. -/
theorem trimSlash_splitOn {s d : Bytes} {rest : List Bytes} (hs : s.splitOn 47 = d :: rest)
    (hd : d ≠ []) (hl : (d :: rest).getLast (List.cons_ne_nil _ _) ≠ []) :
    (trimSlash (47 :: s)).splitOn 47 = s.splitOn 47 := by
  have hhead : s.dropWhile (· == 47) = s := by
    match s, hs with
    | [], _ => rfl
    | c :: t, hs =>
      rw [List.dropWhile_cons_of_neg]
      rintro hc
      rw [List.splitOn, List.splitOnP_cons, if_pos hc] at hs
      exact hd (List.cons.inj hs).1.symm
  have hlast : s.rdropWhile (· == 47) = s := by
    refine List.rdropWhile_eq_self_iff.mpr fun hne hc => hl ?_
    rw [← List.dropLast_append_getLast hne, beq_iff_eq.mp hc, List.splitOn,
      splitOnP_append_sep (p := fun x => x == 47) (beq_self_eq_true _)] at hs
    simp [← hs]
  rw [trimSlash, List.dropWhile_cons_of_pos (p := fun x => x == 47) (beq_self_eq_true _), hhead,
    hlast]

/-- The name `rootHandler` checks the key against is the `{dbname}` that
`privateMux` routes the request with. -/
theorem pathDbName_of_privateMux {m : Method} {path name : Bytes} {rt : Route}
    (h : privateMux m path = .ok (rt, name)) : pathDbName path = name := by
  unfold privateMux at h
  split_ifs at h with hc
  simp only [Bool.not_eq_true', Bool.not_eq_false, isClean, Bool.and_eq_true, beq_iff_eq] at hc
  obtain ⟨s, rfl⟩ : ∃ s, path = 47 :: s := by
    obtain ⟨⟨hh, -⟩, -⟩ := hc
    match path, hh with
    | c :: s, hh => exact ⟨s, by rw [Option.some.inj hh]⟩
  have hseg : segments (47 :: s) = s.splitOn 47 := rfl
  rw [hseg] at h
  split at h
  · rename_i d x hs
    split_ifs at h with hd
    simp only [Bool.and_eq_true, beq_iff_eq, Bool.not_eq_true', List.isEmpty_eq_false_iff_exists_mem] at hd
    have hx : x ≠ [] := fun he => by simp [he] at hd
    rw [pathDbName, trimSlash_splitOn hs (by rw [hd.1]; decide) (by simpa using hx), hs]
    simp only [hd.1, beq_self_eq_true, if_true]
    split at h <;> cases h <;> rfl
  · rename_i d x k hs
    split_ifs at h with hd
    simp only [Bool.and_eq_true, beq_iff_eq] at hd
    rw [pathDbName, trimSlash_splitOn hs (by rw [hd.1]; decide) (by simp [hd.2]; decide), hs]
    simp only [hd.1, beq_self_eq_true, if_true]
    split at h <;> cases h <;> rfl
  · cases h

/-! ### Every valid name is routed -/

/-- The routes `NewServer` registers on `privateMux`: the method, the handler,
and whether the pattern is `/db/{dbname}/keys` rather than `/db/{dbname}`. -/
def privateRoutes : List (Method × Route × Bool) :=
  [(.get, .db, false), (.put, .setValue, false), (.post, .setValue, false), (.patch, .setValue, false),
    (.delete, .deleteValue, true), (.post, .getValue, true), (.update, .changeApiKey, false),
    (.delete, .deleteDB, false)]

/-- The path of a `privateMux` pattern with `{dbname}` set to `name`. -/
def dbPath (name : Bytes) (keys : Bool) : Bytes :=
  ofString "/db/" ++ name ++ if keys then ofString "/keys" else []

section DbPath

variable {name : Bytes}

theorem all_isAlnum (hn : checkDbName name = true) : ∀ b ∈ name, isAlnum b = true := by
  simp only [checkDbName, Bool.and_eq_true, decide_eq_true_eq] at hn
  exact List.all_eq_true.mp hn.2

/-- A valid name is neither `.` nor `..`. -/
theorem isDotSegment_eq_false (hn : checkDbName name = true) : isDotSegment name = false := by
  have h46 : 46 ∉ name := fun hm => absurd (all_isAlnum hn 46 hm) (by decide)
  rw [isDotSegment, Bool.or_eq_false_iff]
  constructor <;> rw [beq_eq_false_iff_ne] <;> rintro rfl <;> exact h46 (by decide)

/-- The segments of a pattern's path are `db`, the name, and `keys` for the
key routes. -/
theorem segments_dbPath (hn : checkDbName name = true) (keys : Bool) :
    segments (dbPath name keys) = ofString "db" :: name :: if keys then [ofString "keys"] else [] := by
  have h : (dbPath name keys).drop 1 =
      [47].intercalate (ofString "db" :: name :: if keys then [ofString "keys"] else []) := by
    rw [dbPath, show ofString "/db/" = [47, 100, 98, 47] by decide, show ofString "db" = [100, 98] by decide,
      show ofString "/keys" = 47 :: ofString "keys" by decide]
    cases keys <;> simp [List.intercalate]
  have hs : 47 ∉ name := fun hm => absurd (all_isAlnum hn 47 hm) (by decide)
  have hx : ∀ l ∈ ofString "db" :: name :: (if keys then [ofString "keys"] else []), 47 ∉ l := by
    cases keys <;> simp only [List.mem_cons, List.mem_singleton, List.not_mem_nil, or_false, if_true,
      if_false, Bool.false_eq_true, forall_eq_or_imp, forall_eq] <;>
      first | exact ⟨by decide, hs, by decide⟩ | exact ⟨by decide, hs⟩
  rw [segments, h, List.splitOn_intercalate _ 47 hx (List.cons_ne_nil _ _)]

theorem isClean_dbPath (hn : checkDbName name = true) (keys : Bool) : isClean (dbPath name keys) = true := by
  have hd := isDotSegment_eq_false hn
  have hne : name.isEmpty = false := by
    cases name <;> simp_all [checkDbName]
  rw [isClean, segments_dbPath hn]
  cases keys <;> simp [dbPath, show ofString "/db/" = [47, 100, 98, 47] by decide, hd, hne] <;> decide

theorem isPublicPath_dbPath (keys : Bool) : isPublicPath (dbPath name keys) = false := by
  rw [dbPath, show ofString "/db/" = [47, 100, 98, 47] by decide]
  simp [isPublicPath, show ofString "/health" = [47, 104, 101, 97, 108, 116, 104] by decide,
    show ofString "/metrics" = [47, 109, 101, 116, 114, 105, 99, 115] by decide,
    show ofString "/create" = [47, 99, 114, 101, 97, 116, 101] by decide, show ofString "/" = [47] by decide]

/-- `privateMux` hands each registered pattern, with `{dbname}` set to a
valid name, to its handler with that name. -/
theorem privateMux_dbPath (hn : checkDbName name = true) :
    ∀ x ∈ privateRoutes, privateMux x.1 (dbPath name x.2.2) = .ok (x.2.1, name) := by
  have hne : name.isEmpty = false := by
    cases name <;> simp_all [checkDbName]
  simp only [privateRoutes, List.mem_cons, List.not_mem_nil, or_false, forall_eq_or_imp, forall_eq]
  simp [privateMux, isClean_dbPath hn, segments_dbPath hn, hne]

end DbPath

namespace Node

/-- Every valid name comes back out of every path of the private routes: with
keys disabled, or with a non-empty `X-API-Key` valid for the name,
`rootHandler` hands a request on a registered pattern with `{dbname}` set to
the name to the pattern's handler, with the name as `{dbname}`. -/
theorem rootHandler_dbPath (env : Env) (n : Node) {name apiKey : Bytes} (hn : checkDbName name = true)
    (ha : env.apikeyEnabled = true → apiKey ≠ [] ∧ n.isApiKeyValid env name apiKey = true) (b : Body) :
    ∀ x ∈ privateRoutes, n.rootHandler env ⟨x.1, dbPath name x.2.2, apiKey, b⟩ = .ok (x.2.1, name) := by
  intro x hx
  have hm := privateMux_dbPath hn x hx
  have hp : pathDbName (dbPath name x.2.2) = name := pathDbName_of_privateMux hm
  unfold rootHandler
  dsimp only
  rw [if_neg (by rw [isPublicPath_dbPath]; decide)]
  cases he : env.apikeyEnabled
  · simp [muxAnswer, hm, Except.mapError]
  · obtain ⟨hk, hv⟩ := ha he
    simp [hp, hn, hk, hv, muxAnswer, hm, Except.mapError]

/-- With keys enabled and the key of `a`, a `PUT` on `/db/a` reaches
`SetValue` with `{dbname}` `a`. -/
theorem rootHandler_dbPath_witness :
    let env : Env := ⟨fun _ => 0, 4, 16, id, true⟩
    let n : Node := ⟨⟨∅, 100000⟩, (∅ : AList fun _ : Bytes => Bytes).insert (ofString "A") (ofString "t"), ∅⟩
    n.rootHandler env ⟨.put, dbPath (ofString "a") false, ofString "t", ⟨none, none, none, none, none, false⟩⟩ =
      .ok (.setValue, ofString "a") := by
  intro env n
  exact rootHandler_dbPath env n (by decide) (fun _ => ⟨by decide, by decide⟩) _ (.put, .setValue, false)
    (by decide)

end Node

end HydraKV.Routes
