import HydraKV.Routes.Requests
import HydraKV.Routes.Interleaving

/-! The request limiters in front of the two servers: `requestLimiter.wrap`
(`limit.go`) around `rootHandler`, with a channel of `REQ_LIMIT` slots, and
`grpcRequestLimitInterceptor` (`grpcserver.go`), with `GRPC_REQ_LIMIT` slots.
A request takes a slot with a `select` whose `default` refuses it at once, and
gives the slot back when its handler returns. A refused HTTP request reads
`len(l.sem)` for the `currentLoad` of its reply after the `select`, in a step of
its own; a refused gRPC call returns `ResourceExhausted` without a load.
Requests move as a schedule of `Routes.Interleaving`; a handler runs as one
step, on the process of Routes.Requests, which is faithful only where handlers
do not overlap: two handlers under the limiters at once interleave their
critical sections (Routes.Interleaving). The front records, as a ghost, the
requests whose handlers ran, in order.

Proved: with a slot in each limiter, requests that come one at a time are all
served, and the process ends as their sequential run. -/

namespace HydraKV.Routes

open Go Store

/-- Where a request is: at its limiter's `select`, holding a slot while its
handler runs, done, or refused (an HTTP request first `refusing`, until it
reads the load it reports). -/
inductive Phase
  | arrive
  | serving
  | served
  | refusing
  | refused (load : Option Nat)
  deriving DecidableEq, Repr

/-- A request and where it is. -/
structure Job where
  arrival : Arrival
  phase : Phase

/-- The state the requests share: the slots taken in each limiter's channel,
the process, and (a ghost) the requests served so far. -/
structure Front where
  httpHeld : Nat
  grpcHeld : Nat
  node : Node
  served : List Arrival

namespace Job

/-- The request came over HTTP. -/
def isHttp (j : Job) : Bool :=
  match j.arrival.event with
  | .http _ => true
  | .grpc _ _ => false

variable (env : Env) (maxDuration : Int) (reqLimit grpcReqLimit : Nat)

/-- One step of a request: the `select` of its limiter, its handler and the
deferred release, or the refused request's read of `len(l.sem)`. -/
def step (j : Job) (f : Front) : Job × Front :=
  match j.phase with
  | .arrive =>
    if j.isHttp then
      if f.httpHeld < reqLimit then ({ j with phase := .serving }, { f with httpHeld := f.httpHeld + 1 })
      else ({ j with phase := .refusing }, f)
    else
      if f.grpcHeld < grpcReqLimit then ({ j with phase := .serving }, { f with grpcHeld := f.grpcHeld + 1 })
      else ({ j with phase := .refused none }, f)
  | .serving =>
    let f' := { f with node := f.node.serve env maxDuration j.arrival, served := f.served ++ [j.arrival] }
    if j.isHttp then ({ j with phase := .served }, { f' with httpHeld := f.httpHeld - 1 })
    else ({ j with phase := .served }, { f' with grpcHeld := f.grpcHeld - 1 })
  | .refusing => ({ j with phase := .refused (some f.httpHeld) }, f)
  | _ => (j, f)

end Job

/-- Requests arriving at a server over the process `n₀`, no slot taken. -/
def Front.start (n₀ : Node) (as : List Arrival) : List Job × Front :=
  (as.map fun a => ⟨a, .arrive⟩, ⟨0, 0, n₀, []⟩)

/-! ### Requests one at a time -/

/-- The schedule in which the `k` requests from place `i` on come one at a
time: each goes through its limiter's `select` and its handler before the
next one arrives. -/
def oneAtATime : Nat → Nat → List Nat
  | _, 0 => []
  | i, k + 1 => i :: i :: oneAtATime (i + 1) k

section OneAtATime

variable {env : Env} {maxDuration : Int} {reqLimit grpcReqLimit : Nat}

/-- A request alone at limiters with a free slot each takes a slot, runs its
handler and gives the slot back. -/
theorem Job.step_step_alone (hr : 0 < reqLimit) (hg : 0 < grpcReqLimit) (a : Arrival) (n : Node)
    (l : List Arrival) :
    let r := (⟨a, .arrive⟩ : Job).step env maxDuration reqLimit grpcReqLimit ⟨0, 0, n, l⟩
    r.1.step env maxDuration reqLimit grpcReqLimit r.2 =
      (⟨a, .served⟩, ⟨0, 0, n.serve env maxDuration a, l ++ [a]⟩) := by
  obtain ⟨e, _, _, _⟩ := a
  cases e <;> simp [Job.step, Job.isHttp, hr, hg]

theorem schedule_oneAtATime (hr : 0 < reqLimit) (hg : 0 < grpcReqLimit) (A B : List Arrival) (n : Node)
    (l : List Arrival) :
    schedule (Job.step env maxDuration reqLimit grpcReqLimit) (oneAtATime A.length B.length)
        (A.map (Job.mk · .served) ++ B.map (Job.mk · .arrive), ⟨0, 0, n, l⟩) =
      ((A ++ B).map (Job.mk · .served), ⟨0, 0, n.run env maxDuration B, l ++ B⟩) := by
  induction B generalizing A n l with
  | nil => simp [oneAtATime]; rfl
  | cons b B ih =>
    have h₁ : (A.map (Job.mk · .served) ++ (b :: B).map (Job.mk · .arrive))[A.length]? =
        some ⟨b, .arrive⟩ := by
      rw [List.getElem?_append_right (by simp), List.length_map, Nat.sub_self, List.map_cons,
        List.getElem?_cons_zero]
    rw [List.length_cons, oneAtATime, schedule_cons h₁, schedule_cons (List.getElem?_set_self (by simp)),
      Job.step_step_alone hr hg, List.set_set, List.set_append_right _ _ (by simp), List.length_map,
      Nat.sub_self, List.map_cons, List.set_cons_zero]
    simpa using ih (A ++ [b]) (n.serve env maxDuration b) (l ++ [b])

/-- With a slot in each limiter, requests that come one at a time are all
served, and the process ends as their sequential run: the limiters turn away
no request that comes alone. -/
theorem schedule_oneAtATime_serves_all (env : Env) (maxDuration : Int) {reqLimit grpcReqLimit : Nat}
    (hr : 0 < reqLimit) (hg : 0 < grpcReqLimit) (n₀ : Node) (as : List Arrival) :
    let st := schedule (Job.step env maxDuration reqLimit grpcReqLimit) (oneAtATime 0 as.length)
      (Front.start n₀ as)
    (∀ j ∈ st.1, j.phase = .served) ∧ st.2.node = n₀.run env maxDuration as := by
  intro st
  have h : st = (as.map (Job.mk · .served), ⟨0, 0, n₀.run env maxDuration as, as⟩) := by
    simpa using @schedule_oneAtATime env maxDuration _ _ hr hg [] as n₀ []
  rw [h]
  exact ⟨by simp, rfl⟩

/-- A `CreateDB` and a gRPC `Get` that come one at a time through limiters of
one slot each are both served. -/
theorem schedule_oneAtATime_serves_all_witness :
    let env : Env := ⟨fun _ => 0, 4, 16, id, false⟩
    let as : List Arrival :=
      [⟨.http ⟨.post, ofString "/create", [], ⟨some (ofString "a"), none, none, none, none, false⟩⟩,
          0, [], .none⟩,
        ⟨.grpc (some 1) (.get (ofString "a") (ofString "k") []), 0, [], .none⟩]
    let st := schedule (Job.step env 10 1 1) (oneAtATime 0 as.length) (Front.start (Node.fresh ∅ 100000) as)
    (∀ j ∈ st.1, j.phase = .served) ∧ st.2.node = (Node.fresh ∅ 100000).run env 10 as :=
  schedule_oneAtATime_serves_all _ 10 (by decide) (by decide) _ _

end OneAtATime

end HydraKV.Routes
