import HydraKV.Routes.Requests

/-! The two front ends over one server. The HTTP key routes (`PUT`, `POST` and
`PATCH` on `/db/{dbname}`, `POST` and `DELETE` on `/db/{dbname}/keys`) and the
gRPC calls `Set`, `SetNX`, `Incr`, `Get` and `Delete` reach the same `Server`
operations. The HTTP side asks more before it gets there: `bootstrap` wants a
registered database, and the payload's key and value must validate. A key
request that passes these does what the gRPC call with the same database,
fields and key does, within its deadline. -/

namespace HydraKV.Routes

open Go Store

/-- The gRPC call with the database, the validated payload's fields and the
`X-API-Key` of the HTTP key request `r` that `rootHandler` routed to `route`
on `dbname`. -/
def Request.grpcCall (r : Request) (route : Route) (dbname : Bytes) : Option GrpcCall :=
  match route with
  | .setValue =>
    (readPayloadAndValidate Body.decodeSet Payload.Set.validate r.body).bind fun p =>
      match r.method with
      | .put => some (.set dbname p.key p.value p.ttl r.apiKey)
      | .post => some (.setNX dbname p.key p.value p.ttl r.apiKey)
      | .patch => some (.incr dbname p.key p.value r.apiKey)
      | _ => none
  | .getValue =>
    (readPayloadAndValidate Body.decodeKey Payload.Key.validate r.body).map fun p =>
      .get dbname p.key r.apiKey
  | .deleteValue =>
    (readPayloadAndValidate Body.decodeKey Payload.Key.validate r.body).map fun p =>
      .delete dbname p.key r.apiKey
  | _ => none

/-- What the HTTP handler encodes for a gRPC call's response message. -/
def Answer.toReply : Answer → Reply
  | .ok b => .ok b
  | .get found v => .value found v
  | _ => .none

namespace Node

variable {env : Env} {n : Node} {fault : Fault} {now : Int64} {token : Bytes}

theorem keyCallCheck_of_authorized {db apikey : Bytes} (hn : checkDbName db = true)
    (ha : n.Authorized env [apikey] db) : n.keyCallCheck env db apikey = none := by
  unfold keyCallCheck
  rw [if_neg (by simp [hn])]
  by_cases he : env.apikeyEnabled = true
  · obtain ⟨k, hk, hv⟩ := ha he
    rw [List.mem_singleton.mp hk] at hv
    simp [he, hv]
  · simp [Bool.eq_false_iff.mpr he]

/-- An HTTP key request on a registered database whose payload validates
leaves the process as the gRPC call with the same database, fields and key
does within its deadline, and answers with the same result. -/
theorem serveHttp_eq_serveGrpc {r : Request} {rt : Route} {name : Bytes} {c : GrpcCall}
    (maxDuration : Int) {t : Int} (h : n.rootHandler env r = .ok (rt, name))
    (hb : n.bootstrap name = none) (hc : r.grpcCall rt name = some c) (ht : t ≤ maxDuration) :
    (n.serveHttp env fault now token r).2 = (n.serveGrpc env maxDuration fault now token (some t) c).2 ∧
      (n.serveHttp env fault now token r).1.reply =
        (n.serveGrpc env maxDuration fault now token (some t) c).1.toReply := by
  have hd : deadlineCheck maxDuration (some t) = none := by simp [deadlineCheck, not_lt.mpr ht]
  have ha : n.Authorized env [r.apiKey] name := by
    refine ((rootHandler_ok h).resolve_left ?_).1
    rintro (rfl | rfl | rfl | rfl) <;> cases hc
  have hk := keyCallCheck_of_authorized (bootstrap_none hb).1 ha
  unfold serveHttp serveGrpc
  rw [h, hd]
  cases rt <;> simp only [Request.grpcCall, reduceCtorEq] at hc
  case setValue =>
    obtain ⟨p, hp, hc⟩ := Option.bind_eq_some.mp hc
    cases hm : r.method <;> rw [hm] at hc <;> cases hc <;>
      simp [handle, setValue, hb, hp, hm, kvService, grpcSet, grpcSetNX, grpcIncr, keyCall, hk, okReply,
        Answer.toReply]
  case getValue =>
    obtain ⟨p, hp, rfl⟩ := Option.map_eq_some'.mp hc
    simp [handle, getValue, hb, hp, kvService, grpcGet, keyCall, hk, Answer.toReply]
  case deleteValue =>
    obtain ⟨p, hp, rfl⟩ := Option.map_eq_some'.mp hc
    simp [handle, deleteValue, hb, hp, kvService, grpcDelete, keyCall, hk, Answer.toReply]

/-- A `PUT` of `k` with its key on the database `a`, and the gRPC `Set` with
the same fields. -/
theorem serveHttp_eq_serveGrpc_witness :
    let env : Env := ⟨fun _ => 0, 4, 16, id, true⟩
    let n : Node := ⟨⟨(∅ : Registry).insert (ofString "A")
        ⟨newHashMap (fun _ => 0) 4 16 0 [], ofString "a.bin"⟩, 100000⟩,
      (∅ : AList fun _ : Bytes => Bytes).insert (ofString "A") (ofString "t"), ∅⟩
    let r : Request := ⟨.put, ofString "/db/a", ofString "t",
      ⟨none, none, some 5, some (ofString "k"), some (ofString "v"), false⟩⟩
    let c : GrpcCall := .set (ofString "a") (ofString "k") (ofString "v") 5 (ofString "t")
    (n.serveHttp env .none 0 [] r).2 = (n.serveGrpc env 10 .none 0 [] (some 1) c).2 ∧
      (n.serveHttp env .none 0 [] r).1.reply = (n.serveGrpc env 10 .none 0 [] (some 1) c).1.toReply := by
  intro env n r c
  have h : n.rootHandler env r = .ok (.setValue, ofString "a") := rfl
  exact serveHttp_eq_serveGrpc 10 h (by decide) (by decide) (by decide)

end Node

end HydraKV.Routes
