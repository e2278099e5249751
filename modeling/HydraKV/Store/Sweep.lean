import HydraKV.Store.TTLManager

/-! The sweep `delEntries(now)` interleaved with `addEntry` calls. Each
`addEntry` reads the clock, then compares against `lastDeleted` and inserts as
one step under its shard's lock. The sweep reads `lastDeleted` once, takes one
step per second and shard under that shard's lock, and stores
`lastDeleted := now` only after its last step. An `addEntry` whose locked step
falls after the sweep has passed its shard for its second, but before the
store, still reads the old `lastDeleted` and files its key under a second that
no later sweep visits. The callback `Del` runs outside the shard locks and
only reads the keys, so the sweep here records the keys it passes. -/

namespace HydraKV.Store

open Go

/-- The (second, shard) steps of `delEntries(now)` after `last`: the seconds
`last + 1 .. now` in order, each over every shard. -/
def sweepSteps (last now : Int64) (shards : Nat) : List (Int64 × Nat) :=
  (List.range (now.toInt - last.toInt).toNat).flatMap fun n =>
    (List.range shards).map fun i => (last + 1 + BitVec.ofNat 64 n, i)

/-- A sweep alongside `addEntry` calls: the manager, the sweep's clock second,
the steps it has still to take, the keys it has passed to `delCallback`, and
whether it has stored `lastDeleted`. -/
structure Sweep where
  ttl : TTLManager
  now : Int64
  todo : List (Int64 × Nat)
  passed : List Bytes
  stored : Bool

/-- The atomic steps: the locked step of an `addEntry` call that read the
clock second `clock`, the sweep's next step, and the sweep's store of
`lastDeleted`. -/
inductive SweepEvent
  | add (e : Entry) (clock : Int64)
  | take
  | store

namespace Sweep

/-- `delEntries(now)` about to start on `t`. -/
def start (t : TTLManager) (now : Int64) : Sweep :=
  ⟨t, now, sweepSteps t.lastDeleted now t.list.length, [], false⟩

/-- One atomic step; a step that cannot run changes nothing. -/
def step (s : Sweep) : SweepEvent → Sweep
  | .add e clock => { s with ttl := s.ttl.addEntry clock e }
  | .take =>
    match s.todo with
    | (sec, i) :: rest =>
      { s with ttl := (s.ttl.takeBucket i sec).2, todo := rest, passed := s.passed ++ (s.ttl.takeBucket i sec).1 }
    | [] => s
  | .store => if s.todo = [] then { s with ttl := { s.ttl with lastDeleted := s.now }, stored := true } else s

/-- A run of steps. -/
def run (s : Sweep) (es : List SweepEvent) : Sweep := es.foldl step s

variable {s : Sweep}

@[simp] theorem run_nil : s.run [] = s := rfl

@[simp] theorem run_cons (e : SweepEvent) (es : List SweepEvent) : s.run (e :: es) = (s.step e).run es :=
  rfl

@[simp] theorem run_append (es es' : List SweepEvent) : s.run (es ++ es') = (s.run es).run es' :=
  List.foldl_append ..

/-- The sweep's steps empty the list of steps, keep the shard list well
formed, and leave the clock second, `lastDeleted` and the shard count as they
were. -/
theorem run_takes (hw : s.ttl.WF) :
    let s' := s.run (List.replicate s.todo.length .take)
    s'.todo = [] ∧ s'.ttl.WF ∧ s'.now = s.now ∧ s'.ttl.lastDeleted = s.ttl.lastDeleted ∧
      s'.ttl.numShards = s.ttl.numShards := by
  obtain ⟨t, now, todo, passed, stored⟩ := s
  induction todo generalizing t passed with
  | nil => exact ⟨rfl, hw, rfl, rfl, rfl⟩
  | cons x todo ih =>
    obtain ⟨sec, i⟩ := x
    have hw' : (t.modifyBucket i sec fun _ => []).WF := TTLManager.WF.modifyBucket hw
    exact ih _ _ hw'

/-- Once the sweep has taken its last step, an `addEntry` whose expiry lies
after the old `lastDeleted` files its key, and the store then moves
`lastDeleted` to the sweep's clock second without touching the buckets. -/
theorem add_then_store {e : Entry} {clock : Int64} (hd : s.todo = []) (hw : s.ttl.WF)
    (ht : e.ttl.sle 0 = false) (hf : (clock + e.ttl).sle s.ttl.lastDeleted = false) :
    let s' := (s.step (.add e clock)).step .store
    s'.stored = true ∧ s'.ttl.lastDeleted = s.now ∧
      e.key ∈ s'.ttl.bucket (s.ttl.shard e.hash) (clock + e.ttl) := by
  simp only [step, hd, if_true, true_and]
  exact TTLManager.mem_bucket_addEntry_self hw ht hf

end Sweep

/-- An `addEntry` that read the clock second `clock`, for an entry whose
expiry `clock + ttl` lies after the old `lastDeleted` and at or before the
sweep's `now`, with its locked step after every step of the sweep and before
the store: when the sweep has returned, the key is filed under a second that is
at most `lastDeleted`. -/
theorem addEntry_during_sweep (t : TTLManager) (hw : t.WF) (e : Entry) (clock now : Int64)
    (ht : e.ttl.sle 0 = false) (hlast : (clock + e.ttl).sle t.lastDeleted = false)
    (hle : (clock + e.ttl).sle now = true) :
    let s := (Sweep.start t now).run
      (List.replicate (sweepSteps t.lastDeleted now t.list.length).length .take ++ [.add e clock, .store])
    s.stored = true ∧ (clock + e.ttl).sle s.ttl.lastDeleted = true ∧
      e.key ∈ s.ttl.bucket (t.shard e.hash) (clock + e.ttl) := by
  intro s
  have hsteps : (Sweep.start t now).todo = sweepSteps t.lastDeleted now t.list.length := rfl
  obtain ⟨hd, hw', hnow, hl, hn⟩ := Sweep.run_takes (s := Sweep.start t now) hw
  obtain ⟨h1, h2, h3⟩ := Sweep.add_then_store hd hw' ht (by rw [hl]; exact hlast)
  rw [hsteps] at h1 h2 h3 hnow hn
  simp only [s, Sweep.run_append, Sweep.run_cons, Sweep.run_nil]
  refine ⟨h1, by rw [h2, hnow]; exact hle, ?_⟩
  rwa [TTLManager.shard, hn] at h3

/-- A table opened at second 1000 with 64 shards: `addEntry` with ttl 1 reads
the clock at 1000, the sweep `delEntries(1001)` passes every shard, then the
locked step files the key under 1001, and the sweep stores
`lastDeleted = 1001`. -/
theorem addEntry_during_sweep_witness :
    let t := newTTLManager 4 16 1000
    let e : Entry := ⟨0, ofString "k", ofString "v", 1⟩
    let s := (Sweep.start t 1001).run
      (List.replicate (sweepSteps t.lastDeleted 1001 t.list.length).length .take ++ [.add e 1000, .store])
    s.stored = true ∧ (1000 + e.ttl).sle s.ttl.lastDeleted = true ∧
      e.key ∈ s.ttl.bucket (t.shard e.hash) (1000 + e.ttl) :=
  addEntry_during_sweep _ ⟨by decide, by decide⟩ _ _ _ (by decide) (by decide) (by decide)

end HydraKV.Store
