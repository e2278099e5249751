import HydraKV.Routes.Http

/-! The gRPC front end of `grpcserver.go`: `KVService`'s calls over the same
server as the HTTP handlers, behind `grpcDeadlineInterceptor`. Each key call
checks the name with `CheckDbName` and then, with keys enabled, the request's
`Apikey` with `IsApiKeyValid`, before it calls the store; none validates the
key or the value, and none asks whether the database exists. `Exists` checks
no key. A call without a deadline, or whose deadline lies more than
`GRPC_MAX_DURATION` seconds away, fails with `InvalidArgument` before its
handler runs. An error `NewDB` returns is passed on as it is, which gRPC
reports as `Unknown`; its text is left out. The `FiFoLiFo` calls use methods
`kvLogic` does not declare and are left out, as is `grpcRequestLimitInterceptor`,
which is in Routes.Limiter. -/

namespace HydraKV.Routes

open Go Store

/-- The codes of `google.golang.org/grpc/codes` a call can end with. -/
inductive Code
  | invalidArgument | unauthenticated | resourceExhausted | unknown
  deriving DecidableEq, Repr

/-- A call of `KVService` and its request message. -/
inductive GrpcCall
  | createDB (name : Bytes)
  | set (db key value : Bytes) (ttl : Int64) (apikey : Bytes)
  | setNX (db key value : Bytes) (ttl : Int64) (apikey : Bytes)
  | incr (db key amount apikey : Bytes)
  | get (db key apikey : Bytes)
  | delete (db key apikey : Bytes)
  | existsDb (db : Bytes)
  deriving DecidableEq, Repr

/-- The API keys a call carries. -/
def GrpcCall.keys : GrpcCall → List Bytes
  | .set _ _ _ _ k | .setNX _ _ _ _ k | .incr _ _ _ k | .get _ _ k | .delete _ _ k => [k]
  | .createDB _ | .existsDb _ => []

/-- A call's response message, or the status it fails with. -/
inductive Answer
  | error (code : Code) (msg : Bytes)
  | createDB (name : Bytes) (created existed : Bool) (apikey : Bytes)
  | ok (ok : Bool)
  | get (found : Bool) (value : Bytes)
  | existsResponse (existed : Bool)
  deriving DecidableEq, Repr

/-- `grpcDeadlineInterceptor` with `MaxDuration` in nanoseconds, on a call
whose deadline is `timeout` nanoseconds away (`none` without a deadline): the
status it fails the call with, if any. -/
def deadlineCheck (maxDuration : Int) : Option Int → Option Answer
  | none => some (.error .invalidArgument (ofString "grpc deadline required"))
  | some t =>
    if t > maxDuration then some (.error .invalidArgument (ofString "grpc deadline too long"))
    else none

namespace Node

variable (env : Env)

/-- The checks a key call makes before it reaches the store: the name, then
the key when keys are enabled. -/
def keyCallCheck (db apikey : Bytes) (n : Node) : Option Answer :=
  if !checkDbName db then some (.error .invalidArgument (ofString "invalid db name"))
  else if env.apikeyEnabled && !n.isApiKeyValid env db apikey then
    some (.error .unauthenticated (ofString "invalid apikey"))
  else none

/-- A key call: its checks, then `op` on the server. -/
def keyCall (db apikey : Bytes) (op : Server → Answer × Server) (n : Node) : Answer × Node :=
  match n.keyCallCheck env db apikey with
  | some a => (a, n)
  | none => ((op n.server).1, { n with server := (op n.server).2 })

/-- `KVService.CreateDB`. -/
def grpcCreateDB (fault : Fault) (now : Int64) (token name : Bytes) (n : Node) : Answer × Node :=
  if !checkDbName name then (.error .invalidArgument (ofString "invalid db name"), n)
  else
    let r := n.newDBAt env fault now token name
    match r.1 with
    | (some _, _) => (.error .unknown [], r.2)
    | (none, ex, created, apikey) => (.createDB (toUpper name) created ex apikey, r.2)

/-- `KVService.Set`. -/
def grpcSet (now : Int64) (db key value : Bytes) (ttl : Int64) (apikey : Bytes) (n : Node) :
    Answer × Node :=
  n.keyCall env db apikey (fun s => (.ok (s.set now db key value ttl).1, (s.set now db key value ttl).2))

/-- `KVService.SetNX`. -/
def grpcSetNX (now : Int64) (db key value : Bytes) (ttl : Int64) (apikey : Bytes) (n : Node) :
    Answer × Node :=
  n.keyCall env db apikey
    (fun s => (.ok (s.setNX now db key value ttl).1, (s.setNX now db key value ttl).2))

/-- `KVService.Incr`. -/
def grpcIncr (now : Int64) (db key amount apikey : Bytes) (n : Node) : Answer × Node :=
  n.keyCall env db apikey (fun s => (.ok (s.incr now db key amount).1, (s.incr now db key amount).2))

/-- `KVService.Get`. -/
def grpcGet (db key apikey : Bytes) (n : Node) : Answer × Node :=
  n.keyCall env db apikey (fun s => (.get (s.get db key).1 (s.get db key).2, s))

/-- `KVService.Delete`. -/
def grpcDelete (db key apikey : Bytes) (n : Node) : Answer × Node :=
  n.keyCall env db apikey (fun s => (.ok (s.del db key).1, (s.del db key).2))

/-- `KVService.Exists`: no key is checked. -/
def grpcExists (db : Bytes) (n : Node) : Answer × Node :=
  if !checkDbName db then (.error .invalidArgument (ofString "invalid db name"), n)
  else (.existsResponse (n.dbExists db), n)

/-- The call's handler. -/
def kvService (fault : Fault) (now : Int64) (token : Bytes) : GrpcCall → Node → Answer × Node
  | .createDB name => grpcCreateDB env fault now token name
  | .set db key value ttl apikey => grpcSet env now db key value ttl apikey
  | .setNX db key value ttl apikey => grpcSetNX env now db key value ttl apikey
  | .incr db key amount apikey => grpcIncr env now db key amount apikey
  | .get db key apikey => grpcGet env db key apikey
  | .delete db key apikey => grpcDelete env db key apikey
  | .existsDb db => grpcExists db

/-- A call the request limiter admitted: the deadline interceptor, then the
handler. -/
def serveGrpc (maxDuration : Int) (fault : Fault) (now : Int64) (token : Bytes)
    (timeout : Option Int) (c : GrpcCall) (n : Node) : Answer × Node :=
  match deadlineCheck maxDuration timeout with
  | some a => (a, n)
  | none => n.kvService env fault now token c

/-! ### Failed calls -/

variable {n : Node} {maxDuration : Int} {fault : Fault} {now : Int64} {token : Bytes}
  {timeout : Option Int} {c : GrpcCall}

end Node

end HydraKV.Routes
