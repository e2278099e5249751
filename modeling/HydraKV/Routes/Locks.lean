import HydraKV.Routes.Interleaving
import Mathlib.Algebra.Order.BigOperators.Group.List
import Mathlib.Algebra.Order.Ring.Nat

/-! The registry lock `s.mut`, a `sync.RWMutex`, and the order in which the
`Server` calls take and release it. A goroutine is the list of lock
operations its call still has to run and the number of read locks it holds.
Under `sync.RWMutex` a `Lock` announces itself at once and then waits for the
readers to leave, and while it is pending every new `RLock` waits. `Set` and
`SetNX` hold `s.mut` for reading when they call `CheckEntries`, which takes
the read lock a second time; a `Lock` that comes between the two waits for
the first read lock, and the second `RLock` waits for the `Lock`. From then on
no schedule moves either goroutine again. Every other call runs a flat trace
of read blocks and write blocks, and calls of flat traces alone never
deadlock: the lock counts their read locks and knows the one goroutine that
holds or announces the write lock, so some goroutine can always move. The
table's own locks and what each call does under the lock are left out: only
the order of the operations on `s.mut` matters here. -/

namespace HydraKV.Routes

/-- An operation on `s.mut`. -/
inductive LockOp
  /-- `s.mut.RLock()`. -/
  | rlock
  /-- `s.mut.RUnlock()`. -/
  | runlock
  /-- `s.mut.Lock()`, before it announces the writer. -/
  | lock
  /-- Inside `s.mut.Lock()`: the writer is announced and waits for the
  readers to leave. -/
  | lockWait
  /-- `s.mut.Unlock()`. -/
  | unlock
  deriving DecidableEq

/-- A goroutine: the lock operations it has still to run, and the read locks
it holds. -/
structure Goroutine where
  ops : List LockOp
  reads : Nat
  deriving DecidableEq

/-- The state of `s.mut`: the read locks held, whether a goroutine holds the
write lock, and whether a `Lock` is pending. -/
structure RWMutex where
  readers : Nat
  writer : Bool
  pending : Bool
  deriving DecidableEq

namespace Goroutine

/-- The goroutine runs its next operation, or waits and nothing changes. -/
def step (g : Goroutine) (m : RWMutex) : Goroutine × RWMutex :=
  match g.ops with
  | .rlock :: ops =>
    if m.writer || m.pending then (g, m) else (⟨ops, g.reads + 1⟩, { m with readers := m.readers + 1 })
  | .runlock :: ops =>
    if g.reads = 0 then (g, m) else (⟨ops, g.reads - 1⟩, { m with readers := m.readers - 1 })
  | .lock :: ops =>
    if m.writer || m.pending then (g, m) else (⟨.lockWait :: ops, g.reads⟩, { m with pending := true })
  | .lockWait :: ops =>
    if m.readers = 0 then (⟨ops, g.reads⟩, { m with writer := true, pending := false }) else (g, m)
  | .unlock :: ops => if m.writer then (⟨ops, g.reads⟩, { m with writer := false }) else (g, m)
  | [] => (g, m)

/-- The goroutine can run its next operation. -/
def enabled (g : Goroutine) (m : RWMutex) : Bool := g.step m != (g, m)

variable {g : Goroutine} {m : RWMutex}

/-- What a step can do: wait, or run the next operation when `s.mut` lets it. -/
theorem step_cases (g : Goroutine) (m : RWMutex) :
    g.step m = (g, m) ∨
      (∃ ops, g.ops = .rlock :: ops ∧ m.writer = false ∧ m.pending = false ∧
        g.step m = (⟨ops, g.reads + 1⟩, { m with readers := m.readers + 1 })) ∨
      (∃ ops, g.ops = .runlock :: ops ∧ 0 < g.reads ∧
        g.step m = (⟨ops, g.reads - 1⟩, { m with readers := m.readers - 1 })) ∨
      (∃ ops, g.ops = .lock :: ops ∧ m.writer = false ∧ m.pending = false ∧
        g.step m = (⟨.lockWait :: ops, g.reads⟩, { m with pending := true })) ∨
      (∃ ops, g.ops = .lockWait :: ops ∧ m.readers = 0 ∧
        g.step m = (⟨ops, g.reads⟩, { m with writer := true, pending := false })) ∨
      (∃ ops, g.ops = .unlock :: ops ∧ m.writer = true ∧
        g.step m = (⟨ops, g.reads⟩, { m with writer := false })) := by
  obtain ⟨ops, r⟩ := g
  obtain ⟨rd, w, p⟩ := m
  match ops with
  | [] => exact .inl rfl
  | .rlock :: ops =>
    cases w <;> cases p
    · exact .inr (.inl ⟨ops, rfl, rfl, rfl, rfl⟩)
    all_goals exact .inl rfl
  | .runlock :: ops =>
    cases r
    · exact .inl rfl
    · exact .inr (.inr (.inl ⟨ops, rfl, Nat.succ_pos _, rfl⟩))
  | .lock :: ops =>
    cases w <;> cases p
    · exact .inr (.inr (.inr (.inl ⟨ops, rfl, rfl, rfl, rfl⟩)))
    all_goals exact .inl rfl
  | .lockWait :: ops =>
    cases rd
    · exact .inr (.inr (.inr (.inr (.inl ⟨ops, rfl, rfl, rfl⟩))))
    · exact .inl rfl
  | .unlock :: ops =>
    cases w
    · exact .inl rfl
    · exact .inr (.inr (.inr (.inr (.inr ⟨ops, rfl, rfl, rfl⟩))))

/-- A step moves the goroutine's read locks into or out of the lock's count. -/
theorem step_readers (hr : g.reads ≤ m.readers) :
    (g.step m).2.readers + g.reads = m.readers + (g.step m).1.reads := by
  rcases step_cases g m with h | ⟨_, -, -, -, h⟩ | ⟨_, -, h₀, h⟩ | ⟨_, -, -, -, h⟩ | ⟨_, -, -, h⟩ | ⟨_, -, -, h⟩ <;>
    rw [h] <;> dsimp only <;> omega

/-- While the lock is read-held, a pending `Lock` stays pending. -/
theorem step_pending (hp : m.pending = true) (hr : 0 < m.readers) : (g.step m).2.pending = true := by
  rcases step_cases g m with h | ⟨_, -, -, hp', -⟩ | ⟨_, -, -, h⟩ | ⟨_, -, -, hp', -⟩ | ⟨_, -, hr', -⟩ |
    ⟨_, -, -, h⟩
  all_goals first | (rw [h]; exact hp) | simp_all

/-- A goroutine at `RLock` waits while a `Lock` is pending. -/
theorem step_of_rlock {ops : List LockOp} (hg : g.ops = .rlock :: ops) (hp : m.pending = true) :
    g.step m = (g, m) := by
  simp [step, hg, hp]

end Goroutine

/-! ### Calls -/

/-- The `Server` calls that use `s.mut`; `newDB found keys` is a `NewDB` whose
`DBExists` answered `found`, with `APIKEY_ENABLED = keys`. -/
inductive Call
  | set | setNX | incr | get | del | dbExists | checkEntries | listDBs
  | newDB (found keys : Bool)
  | createApiKey | dbDelete | closeDbs

/-- The operations of each call on `s.mut`, in the order the source runs
them. `Set` and `SetNX` take the read lock, then `CheckEntries` takes it
again and releases it, and the deferred `RUnlock` releases the first.
`NewDB` runs `DBExists`, then takes the write lock to register the table,
then `CreateApiKey` takes it again. -/
def Call.locks : Call → List LockOp
  | .set | .setNX => [.rlock, .rlock, .runlock, .runlock]
  | .incr | .get | .del | .dbExists | .checkEntries | .listDBs => [.rlock, .runlock]
  | .newDB found keys =>
    [.rlock, .runlock] ++ if found then [] else [.lock, .unlock] ++ if keys then [.lock, .unlock] else []
  | .createApiKey | .dbDelete | .closeDbs => [.lock, .unlock]

/-- Concurrent calls, none started, on a free lock. -/
def start (cs : List Call) : List Goroutine × RWMutex :=
  (cs.map fun c => ⟨c.locks, 0⟩, ⟨0, false, false⟩)

/-- A deadlock: a goroutine has operations left and none can run one. -/
def deadlocked (st : List Goroutine × RWMutex) : Bool :=
  st.1.any (fun g => !g.ops.isEmpty) && st.1.all fun g => !g.enabled st.2

/-! ### The nested read lock -/

theorem sum_map_set_add {γ : Type} (f : γ → Nat) {g : γ} (x : γ) :
    ∀ {cs : List γ} {i : Nat}, cs[i]? = some g → ((cs.set i x).map f).sum + f g = (cs.map f).sum + f x
  | c :: cs, 0, h => by
    simp only [List.getElem?_cons_zero, Option.some.injEq] at h
    subst h
    simp only [List.set_cons_zero, List.map_cons, List.sum_cons]
    omega
  | c :: cs, i + 1, h => by
    simp only [List.getElem?_cons_succ] at h
    simp only [List.set_cons_succ, List.map_cons, List.sum_cons]
    have := sum_map_set_add f x h
    omega

/-- The lock counts the read locks the goroutines hold. -/
def Counted (st : List Goroutine × RWMutex) : Prop := st.2.readers = (st.1.map Goroutine.reads).sum

theorem le_sum_map_of_mem {γ : Type} (f : γ → Nat) {cs : List γ} {g : γ} (hg : g ∈ cs) :
    f g ≤ (cs.map f).sum :=
  List.le_sum_of_mem (List.mem_map_of_mem _ hg)

theorem Counted.reads_le {cs : List Goroutine} {m : RWMutex} {g : Goroutine} {i : Nat}
    (h : Counted (cs, m)) (hi : cs[i]? = some g) : g.reads ≤ m.readers :=
  h ▸ le_sum_map_of_mem _ (List.getElem?_mem hi)

theorem Counted.step {cs : List Goroutine} {m : RWMutex} {g : Goroutine} {i : Nat}
    (h : Counted (cs, m)) (hi : cs[i]? = some g) :
    Counted (cs.set i (g.step m).1, (g.step m).2) := by
  have := g.step_readers (h.reads_le hi)
  have := sum_map_set_add Goroutine.reads (g.step m).1 hi
  simp only [Counted] at h ⊢
  omega

/-- Goroutine `t` is `g`, holds a read lock and waits at `RLock`, while a
`Lock` is pending. -/
structure Trapped (t : Nat) (g : Goroutine) (st : List Goroutine × RWMutex) : Prop where
  counted : Counted st
  pending : st.2.pending = true
  get : st.1[t]? = some g
  rlock : ∃ ops, g.ops = .rlock :: ops
  reads : 0 < g.reads

theorem Trapped.step {t i : Nat} {g g' : Goroutine} {cs : List Goroutine} {m : RWMutex}
    (h : Trapped t g (cs, m)) (hi : cs[i]? = some g') :
    Trapped t g (cs.set i (g'.step m).1, (g'.step m).2) := by
  by_cases hit : i = t
  · subst hit
    obtain ⟨ops, hops⟩ := h.rlock
    cases hi.symm.trans h.get
    rw [Goroutine.step_of_rlock hops h.pending, set_eq_self_of_getElem? hi]
    exact h
  · have hr : 0 < m.readers := Nat.lt_of_lt_of_le h.reads (h.counted.reads_le h.get)
    exact ⟨h.counted.step hi, Goroutine.step_pending h.pending hr,
      by rw [List.getElem?_set_ne hit]; exact h.get, h.rlock, h.reads⟩

/-- Once a goroutine holding a read lock waits at `RLock` behind a pending
`Lock`, every schedule leaves it where it is and the `Lock` pending. -/
theorem schedule_trapped {t : Nat} {g : Goroutine} (sch : List Nat) {st : List Goroutine × RWMutex}
    (h : Trapped t g st) : Trapped t g (schedule Goroutine.step sch st) :=
  schedule_induction (fun h hi => Trapped.step h hi) sch h

theorem counted_start (cs : List Call) : Counted (start cs) := by
  simp [Counted, start, Function.comp_def]

/-- `Set` takes the read lock and `CreateApiKey` then calls `Lock`: the two
goroutines wait for each other and no other goroutine can end the wait.
Whatever other calls run alongside and whatever the schedule afterwards,
`Set` stays at its nested `RLock` holding one read lock, and the `Lock` stays
pending. -/
theorem set_createApiKey_deadlock :
    deadlocked (schedule Goroutine.step [0, 1] (start [.set, .createApiKey])) = true ∧
      ∀ (others : List Call) (sch : List Nat),
        let st := schedule Goroutine.step ([0, 1] ++ sch) (start ([.set, .createApiKey] ++ others))
        st.1[0]? = some ⟨[.rlock, .runlock, .runlock], 1⟩ ∧ st.2.pending = true := by
  refine ⟨by decide, fun others sch => ?_⟩
  have hs : schedule Goroutine.step [0, 1] (start ([.set, .createApiKey] ++ others)) =
      (⟨[.rlock, .runlock, .runlock], 1⟩ :: ⟨[.lockWait, .unlock], 0⟩ :: (start others).1, ⟨1, false, true⟩) := by
    simp [start, schedule, Goroutine.step, Call.locks]
  have ht : Trapped 0 ⟨[.rlock, .runlock, .runlock], 1⟩
      (schedule Goroutine.step [0, 1] (start ([.set, .createApiKey] ++ others))) := by
    have hc : ((start others).1.map Goroutine.reads).sum = 0 := (counted_start others).symm
    rw [hs]
    exact ⟨by simp [Counted, hc], rfl, rfl, ⟨_, rfl⟩, Nat.one_pos⟩
  have h := schedule_trapped sch ht
  rw [← schedule_append] at h
  exact ⟨h.get, h.pending⟩

/-! ### Calls without a nested read lock -/

/-- A trace of read blocks `RLock; RUnlock` and write blocks `Lock; Unlock`. -/
def flat : List LockOp → Bool
  | [] => true
  | .rlock :: .runlock :: ops => flat ops
  | .lock :: .unlock :: ops => flat ops
  | _ => false

/-- `Set` and `SetNX` take the read lock again inside their read block. -/
def Call.nested : Call → Bool
  | .set | .setNX => true
  | _ => false

theorem flat_head {ops : List LockOp} (h : flat ops = true) :
    ops.head? ≠ some .unlock ∧ ops.head? ≠ some .lockWait := by
  match ops, h with
  | [], _ | .rlock :: .runlock :: _, _ | .lock :: .unlock :: _, _ => simp

theorem flat_locks (c : Call) (h : c.nested = false) : flat c.locks = true := by
  cases c with
  | newDB f k => cases f <;> cases k <;> rfl
  | set | setNX => cases h
  | _ => rfl

namespace Goroutine

/-- Where a goroutine of a flat trace is: between two blocks, inside a read
block, announced in a write block, or holding the write lock. -/
def InBlock (g : Goroutine) : Prop :=
  (flat g.ops = true ∧ g.reads = 0) ∨
    (∃ ops, g.ops = .runlock :: ops ∧ flat ops = true ∧ g.reads = 1) ∨
    (∃ ops, g.ops = .lockWait :: .unlock :: ops ∧ flat ops = true ∧ g.reads = 0) ∨
    (∃ ops, g.ops = .unlock :: ops ∧ flat ops = true ∧ g.reads = 0)

/-- `1` for a goroutine that holds the write lock. -/
def writing (g : Goroutine) : Nat := if g.ops.head? = some .unlock then 1 else 0

/-- `1` for a goroutine whose `Lock` is pending. -/
def announcing (g : Goroutine) : Nat := if g.ops.head? = some .lockWait then 1 else 0

end Goroutine

/-- The lock agrees with goroutines that run flat traces: it counts their
read locks, it is write-held exactly when one of them holds it, a `Lock` is
pending exactly when one of them announced it, and never both. -/
structure Flat (st : List Goroutine × RWMutex) : Prop where
  inBlock : ∀ g ∈ st.1, g.InBlock
  counted : Counted st
  writer : st.2.writer.toNat = (st.1.map Goroutine.writing).sum
  pending : st.2.pending.toNat = (st.1.map Goroutine.announcing).sum
  excl : ¬(st.2.writer = true ∧ st.2.pending = true)

namespace Goroutine

variable {g : Goroutine} {m : RWMutex}

theorem InBlock.step (hg : g.InBlock) (hx : ¬(m.writer = true ∧ m.pending = true))
    (ha : 0 < g.announcing → m.pending = true) :
    (g.step m).1.InBlock ∧
      (g.step m).2.writer.toNat + g.writing = m.writer.toNat + (g.step m).1.writing ∧
      (g.step m).2.pending.toNat + g.announcing = m.pending.toNat + (g.step m).1.announcing ∧
      ¬((g.step m).2.writer = true ∧ (g.step m).2.pending = true) := by
  obtain ⟨ops, r⟩ := g
  rcases step_cases ⟨ops, r⟩ m with h | ⟨o, ho, hw, -, h⟩ | ⟨o, ho, -, h⟩ | ⟨o, ho, hw, hp, h⟩ | ⟨o, ho, hr, h⟩ |
      ⟨o, ho, hw, h⟩ <;> rw [h]
  · exact ⟨hg, rfl, rfl, hx⟩
  all_goals dsimp only at ho; subst ho
  · -- `RLock` opens a read block
    obtain ⟨hf, rfl⟩ : flat (.rlock :: o) = true ∧ r = 0 := by
      rcases hg with h' | ⟨_, h', -⟩ | ⟨_, h', -⟩ | ⟨_, h', -⟩ <;> first | exact h' | cases h'
    match o, hf with
    | .runlock :: o, hf => exact ⟨.inr (.inl ⟨o, rfl, hf, rfl⟩), rfl, rfl, by simp [hw]⟩
  · -- `RUnlock` closes it
    obtain ⟨hf, rfl⟩ : flat o = true ∧ r = 1 := by
      rcases hg with ⟨h', -⟩ | ⟨_, h', hf, hr⟩ | ⟨_, h', -⟩ | ⟨_, h', -⟩ <;> cases h'
      exact ⟨hf, hr⟩
    exact ⟨.inl ⟨hf, rfl⟩, by simp [writing, flat_head hf], by simp [announcing, flat_head hf], hx⟩
  · -- `Lock` announces a write block
    obtain ⟨hf, rfl⟩ : flat (.lock :: o) = true ∧ r = 0 := by
      rcases hg with h' | ⟨_, h', -⟩ | ⟨_, h', -⟩ | ⟨_, h', -⟩ <;> first | exact h' | cases h'
    match o, hf with
    | .unlock :: o, hf =>
      exact ⟨.inr (.inr (.inl ⟨o, rfl, hf, rfl⟩)), rfl, by simp [hp, announcing], by simp [hw]⟩
  · -- the announced writer takes the lock
    obtain ⟨o, rfl, hf, rfl⟩ : ∃ o', o = .unlock :: o' ∧ flat o' = true ∧ r = 0 := by
      rcases hg with ⟨h', -⟩ | ⟨_, h', -⟩ | ⟨o', h', hf, hr⟩ | ⟨_, h', -⟩ <;> cases h'
      exact ⟨o', rfl, hf, hr⟩
    have hp := ha (by simp [announcing])
    exact ⟨.inr (.inr (.inr ⟨o, rfl, hf, rfl⟩)), by simp_all [writing, announcing], by simp [hp, announcing],
      by simp⟩
  · -- `Unlock` closes the write block
    obtain ⟨hf, rfl⟩ : flat o = true ∧ r = 0 := by
      rcases hg with ⟨h', -⟩ | ⟨_, h', -⟩ | ⟨_, h', -⟩ | ⟨_, h', hf, hr⟩ <;> cases h'
      exact ⟨hf, hr⟩
    exact ⟨.inl ⟨hf, rfl⟩, by simp [writing, hw, flat_head hf], by simp [announcing, flat_head hf], by simp⟩

theorem enabled_of_step_ops (h : (g.step m).1.ops ≠ g.ops) : g.enabled m = true := by
  simp only [enabled, bne_iff_ne]
  intro he
  rw [he] at h
  exact h rfl

theorem writing_ops (h : 0 < g.writing) : ∃ ops, g.ops = .unlock :: ops := by
  unfold writing at h
  split_ifs at h with hh
  · exact List.head?_eq_some_iff.mp hh
  · omega

theorem announcing_ops (h : 0 < g.announcing) : ∃ ops, g.ops = .lockWait :: ops := by
  unfold announcing at h
  split_ifs at h with hh
  · exact List.head?_eq_some_iff.mp hh
  · omega

end Goroutine

theorem exists_of_sum_pos {γ : Type} {f : γ → Nat} {cs : List γ} (h : 0 < (cs.map f).sum) :
    ∃ g ∈ cs, 0 < f g := by
  obtain ⟨x, hx, hx0⟩ := List.exists_mem_ne_zero_of_sum_ne_zero (Nat.pos_iff_ne_zero.mp h)
  obtain ⟨g, hg, rfl⟩ := List.mem_map.mp hx
  exact ⟨g, hg, Nat.pos_of_ne_zero hx0⟩

namespace Flat

variable {cs : List Goroutine} {m : RWMutex}

theorem step {g : Goroutine} {i : Nat} (h : Flat (cs, m)) (hi : cs[i]? = some g) :
    Flat (cs.set i (g.step m).1, (g.step m).2) := by
  have hw := h.writer
  have hp := h.pending
  dsimp only at hw hp
  have ha : 0 < g.announcing → m.pending = true := fun h₀ => by
    have := le_sum_map_of_mem Goroutine.announcing (List.getElem?_mem hi)
    cases hpm : m.pending
    · rw [hpm, Bool.toNat_false] at hp; omega
    · rfl
  have hx : ¬(m.writer = true ∧ m.pending = true) := h.excl
  obtain ⟨h₁, h₂, h₃, h₄⟩ := (h.inBlock g (List.getElem?_mem hi)).step hx ha
  have := sum_map_set_add Goroutine.writing (g.step m).1 hi
  have := sum_map_set_add Goroutine.announcing (g.step m).1 hi
  refine ⟨fun g' hg' => ?_, h.counted.step hi, by dsimp only; omega, by dsimp only; omega, h₄⟩
  rcases List.mem_or_eq_of_mem_set hg' with hg' | rfl
  · exact h.inBlock g' hg'
  · exact h₁

/-- Some goroutine can run its next operation while any has operations
left. -/
theorem exists_enabled (h : Flat (cs, m)) {g : Goroutine} (hg : g ∈ cs) (hne : g.ops ≠ []) :
    ∃ g' ∈ cs, g'.enabled m = true := by
  have hw := h.writer
  have hp := h.pending
  have hc : m.readers = (cs.map Goroutine.reads).sum := h.counted
  dsimp only at hw hp
  cases hwm : m.writer
  · cases hpm : m.pending
    · rw [hwm, Bool.toNat_false] at hw
      rw [hpm, Bool.toNat_false] at hp
      rcases h.inBlock g hg with ⟨hf, -⟩ | ⟨ops, hops, -, hr⟩ | ⟨ops, hops, -, -⟩ | ⟨ops, hops, -, -⟩
      · obtain ⟨ops, r⟩ := g
        match ops, hf, hne with
        | .rlock :: .runlock :: _, _, _ | .lock :: .unlock :: _, _, _ =>
          exact ⟨_, hg, Goroutine.enabled_of_step_ops (by simp [Goroutine.step, hwm, hpm])⟩
      · exact ⟨g, hg, Goroutine.enabled_of_step_ops (by simp [Goroutine.step, hops, hr])⟩
      · have := le_sum_map_of_mem Goroutine.announcing hg
        simp [Goroutine.announcing, hops] at this; omega
      · have := le_sum_map_of_mem Goroutine.writing hg
        simp [Goroutine.writing, hops] at this; omega
    · obtain ⟨g', hg', ha⟩ := exists_of_sum_pos (f := Goroutine.announcing) (by rw [← hp, hpm]; decide)
      obtain ⟨ops, hops⟩ := Goroutine.announcing_ops ha
      by_cases hr : m.readers = 0
      · exact ⟨g', hg', Goroutine.enabled_of_step_ops (by simp [Goroutine.step, hops, hr])⟩
      · obtain ⟨g'', hg'', hr''⟩ := exists_of_sum_pos
          (show 0 < (cs.map Goroutine.reads).sum by omega)
        rcases h.inBlock g'' hg'' with ⟨-, hr0⟩ | ⟨ops, hops, -, hr1⟩ | ⟨-, -, -, hr0⟩ | ⟨-, -, -, hr0⟩
        · omega
        · exact ⟨g'', hg'', Goroutine.enabled_of_step_ops (by simp [Goroutine.step, hops, hr1])⟩
        · omega
        · omega
  · obtain ⟨g', hg', hw'⟩ := exists_of_sum_pos (f := Goroutine.writing) (by rw [← hw, hwm]; decide)
    obtain ⟨ops, hops⟩ := Goroutine.writing_ops hw'
    exact ⟨g', hg', Goroutine.enabled_of_step_ops (by simp [Goroutine.step, hops, hwm])⟩

theorem not_deadlocked (h : Flat (cs, m)) : deadlocked (cs, m) = false := by
  rw [Bool.eq_false_iff]
  intro hd
  simp only [deadlocked, Bool.and_eq_true, List.any_eq_true, List.all_eq_true, Bool.not_eq_true',
    List.isEmpty_eq_false] at hd
  obtain ⟨⟨g, hg, hne⟩, hall⟩ := hd
  obtain ⟨g', hg', he⟩ := h.exists_enabled hg (by simpa using hne)
  simp [hall g' hg'] at he

end Flat

theorem flat_start (cs : List Call) (h : ∀ c ∈ cs, c.nested = false) : Flat (start cs) where
  inBlock g hg := by
    obtain ⟨c, hc, rfl⟩ := List.mem_map.mp hg
    exact .inl ⟨flat_locks c (h c hc), rfl⟩
  counted := counted_start cs
  writer := by
    refine (List.sum_eq_zero fun x hx => ?_).symm
    obtain ⟨g, hg, rfl⟩ := List.mem_map.mp hx
    obtain ⟨c, hc, rfl⟩ := List.mem_map.mp hg
    simp [Goroutine.writing, (flat_head (flat_locks c (h c hc))).1]
  pending := by
    refine (List.sum_eq_zero fun x hx => ?_).symm
    obtain ⟨g, hg, rfl⟩ := List.mem_map.mp hx
    obtain ⟨c, hc, rfl⟩ := List.mem_map.mp hg
    simp [Goroutine.announcing, (flat_head (flat_locks c (h c hc))).2]
  excl := by simp [start]

/-- Calls other than `Set` and `SetNX` never deadlock on `s.mut`: after any
schedule, while a goroutine has operations left, some goroutine can run its
next one. -/
theorem deadlocked_schedule_of_not_nested (cs : List Call) (h : ∀ c ∈ cs, c.nested = false)
    (sch : List Nat) : deadlocked (schedule Goroutine.step sch (start cs)) = false := by
  have hf := schedule_induction (fun h hi => Flat.step h hi) sch (flat_start cs h)
  exact hf.not_deadlocked

/-- A `Get`, a `CreateApiKey`, a `NewDB` of a new name with keys enabled and a
`DBDelete`, interleaved. -/
theorem deadlocked_schedule_of_not_nested_witness :
    deadlocked (schedule Goroutine.step [2, 0, 2, 1, 3, 2, 0, 1, 2, 3, 2, 2]
      (start [.get, .createApiKey, .newDB false true, .dbDelete])) = false :=
  deadlocked_schedule_of_not_nested _ (by decide) _

end HydraKV.Routes
