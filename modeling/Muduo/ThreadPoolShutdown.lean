import Muduo.ThreadPoolFailures
import Mathlib.Algebra.BigOperators.Fin
import Mathlib.Algebra.Order.BigOperators.Group.Finset

/-!
# The end of the workers

`~ThreadPool` calls `stop()` and joins the workers.  A started pool that has been stopped
has no worker in `m_cond.wait`, nor will one wait again: `wait` comes after a test of
`m_running` under the mutex, and `stop()` takes the mutex to clear it and wakes all.  So
every task left costs four steps of some worker and every worker four more, and as long
as one has not returned some worker can take its next step: the joins return.

Before `stop()` only an exception ends a worker, of a task or of `m_threadInitCallback`.
-/

namespace Muduo

open Transitions

namespace WorkerPc

variable {F : Type}

/-- The steps a worker has left when the deque is empty and `m_running` is cleared. -/
def stepsLeft : WorkerPc F → Nat
  | .unstarted | .returned => 0
  | .testing => 1
  | .locking | .notified => 2
  | .starting | .waiting | .running _ | .holding _ none => 3
  | .holding _ (some _) => 4

theorem stepsLeft_le (pc : WorkerPc F) : pc.stepsLeft ≤ 4 := by
  rw [stepsLeft.eq_def]
  split <;> omega

theorem notify_eq {pc : WorkerPc F} (h : pc.isWaiting = false) : pc.notify = pc := by
  cases pc with
  | waiting => cases h
  | _ => rfl

end WorkerPc

/-- The steps of the workers, and not of the threads that start, add and stop. -/
def ThrowingEvent.isWorkers {n : Nat} {F : Type} : ThrowingEvent n F → Bool
  | .pool .start | .pool .stop | .pool (.addThreadFuncQueue ..) => false
  | _ => true

def ThrowingEvent.isAdd {n : Nat} {F : Type} : ThrowingEvent n F → Bool
  | .pool (.addThreadFuncQueue ..) => true
  | _ => false

def workerSteps {n : Nat} {F : Type} (es : List (ThrowingEvent n F)) : Nat :=
  (es.map fun e => e.isWorkers.toNat).sum

def additions {n : Nat} {F : Type} (es : List (ThrowingEvent n F)) : Nat :=
  (es.map fun e => e.isAdd.toNat).sum

namespace ThreadPool

variable {n : Nat} {F : Type}

/-! ### What a worker can do -/

/-- A worker goes from one place to another and leaves the mutex and the deque behind. -/
inductive Moves (s : ThreadPool n F) (worker : Fin n) :
    WorkerPc F → WorkerPc F → Option (Fin n) → List (Option F) → Prop where
  | initCallback : Moves s worker .starting .locking s.m_mutex s.m_funcDeque
  | lock {pc : WorkerPc F} (hpc : pc = .locking ∨ pc = .notified) (hfree : s.m_mutex = none) :
      Moves s worker pc .testing (some worker) s.m_funcDeque
  | wait (hrunning : s.m_running = true) (hempty : s.m_funcDeque = []) :
      Moves s worker .testing .waiting none s.m_funcDeque
  | leave (hstopped : s.m_running = false) (hempty : s.m_funcDeque = []) :
      Moves s worker .testing .returned none s.m_funcDeque
  | pop {place : Nat} {task : Option F} {rest : List (Option F)}
      (hdeque : s.m_funcDeque = task :: rest) :
      Moves s worker .testing (.holding place task) none rest
  | wake : Moves s worker .waiting .notified s.m_mutex s.m_funcDeque
  | run {place : Nat} {f : F} :
      Moves s worker (.holding place (some f)) (.running place) s.m_mutex s.m_funcDeque
  | skip {place : Nat} : Moves s worker (.holding place none) .locking s.m_mutex s.m_funcDeque
  | finish {place : Nat} : Moves s worker (.running place) .locking s.m_mutex s.m_funcDeque
  | throws {pc : WorkerPc F} (hpc : pc = .starting ∨ ∃ place, pc = .running place) :
      Moves s worker pc .returned s.m_mutex s.m_funcDeque

/-- What is left of a step when the history is put aside. -/
structure Worked (s t : ThreadPool n F) (worker : Fin n) (pc : WorkerPc F) : Prop where
  moves : Moves s worker (s.workers worker) pc t.m_mutex t.m_funcDeque
  workers : t.workers = Function.update s.workers worker pc
  running : t.m_running = s.m_running
  started : t.started = s.started

theorem worked_of_step {s t : ThreadPool n F} {e : PoolEvent n F} (hstep : s.step e = some t)
    (hworkers : (ThrowingEvent.pool e).isWorkers = true) :
    ∃ worker pc, Worked s t worker pc ∧ (pc.isReturned = true → s.m_running = false) := by
  cases e with
  | start | addThreadFuncQueue | stop => cases hworkers
  | initCallback worker =>
    simp only [ThreadPool.step] at hstep
    split at hstep
    · rename_i hpc
      cases hstep
      exact ⟨worker, .locking, ⟨hpc ▸ .initCallback, rfl, rfl, rfl⟩,
        fun hreturned => (by cases hreturned)⟩
    · cases hstep
  | lock worker =>
    simp only [ThreadPool.step] at hstep
    split at hstep
    · rename_i hpc hfree
      cases hstep
      exact ⟨worker, .testing, ⟨hpc ▸ .lock (Or.inl rfl) hfree, rfl, rfl, rfl⟩,
        fun hreturned => (by cases hreturned)⟩
    · rename_i hpc hfree
      cases hstep
      exact ⟨worker, .testing, ⟨hpc ▸ .lock (Or.inr rfl) hfree, rfl, rfl, rfl⟩,
        fun hreturned => (by cases hreturned)⟩
    · cases hstep
  | test worker =>
    simp only [ThreadPool.step] at hstep
    split at hstep
    · rename_i hpc
      cases hstep
      rw [ThreadPool.test]
      split
      · rename_i hempty
        split
        · rename_i hstopped
          exact ⟨worker, .returned, ⟨hpc ▸ .leave hstopped hempty, rfl, rfl, rfl⟩,
            fun _ => hstopped⟩
        · rename_i hrunning
          have hrunning' : s.m_running = true := by simpa using hrunning
          exact ⟨worker, .waiting, ⟨hpc ▸ .wait hrunning' hempty, rfl, rfl, rfl⟩,
            fun hreturned => (by cases hreturned)⟩
      · rename_i task rest hdeque
        exact ⟨worker, .holding s.popped.length task, ⟨hpc ▸ .pop hdeque, rfl, rfl, rfl⟩,
          fun hreturned => (by cases hreturned)⟩
    · cases hstep
  | wake worker =>
    simp only [ThreadPool.step] at hstep
    split at hstep
    · rename_i hpc
      cases hstep
      exact ⟨worker, .notified, ⟨hpc ▸ .wake, rfl, rfl, rfl⟩, fun hreturned => (by cases hreturned)⟩
    · cases hstep
  | run worker =>
    simp only [ThreadPool.step] at hstep
    split at hstep
    · rename_i hpc
      cases hstep
      exact ⟨worker, _, ⟨hpc ▸ .run, rfl, rfl, rfl⟩, fun hreturned => (by cases hreturned)⟩
    · rename_i hpc
      cases hstep
      exact ⟨worker, .locking, ⟨hpc ▸ .skip, rfl, rfl, rfl⟩, fun hreturned => (by cases hreturned)⟩
    · cases hstep
  | finish worker =>
    simp only [ThreadPool.step] at hstep
    split at hstep
    · rename_i hpc
      cases hstep
      exact ⟨worker, .locking, ⟨hpc ▸ .finish, rfl, rfl, rfl⟩,
        fun hreturned => (by cases hreturned)⟩
    · cases hstep

/-! ### The workers and the mutex -/

structure Manned (s : ThreadPool n F) : Prop where
  fresh : s.started = false → ∀ worker, s.workers worker = .unstarted
  manned : s.started = true → ∀ worker, s.workers worker ≠ .unstarted
  mutex : ∀ worker, s.m_mutex = some worker ↔ s.workers worker = .testing
  /-- Nobody waits in a pool that has been stopped. -/
  awake : s.started = true → s.m_running = false →
    ∀ worker, (s.workers worker).isWaiting = false

theorem new_manned (n : Nat) (F : Type) : Manned (new n F) where
  fresh _ _ := rfl
  manned h := by cases h
  mutex worker := by simp [new]
  awake h := by cases h

/-- A worker moves: neither to nor from `unstarted`, and the mutex is its own to take. -/
theorem Moves.to {s : ThreadPool n F} {worker : Fin n} {before after : WorkerPc F}
    {mutex : Option (Fin n)} {deque : List (Option F)}
    (h : Moves s worker before after mutex deque) :
    before ≠ .unstarted ∧ after ≠ .unstarted ∧ before.isReturned = false ∧
      (s.m_running = false → before.isWaiting = false → after.isWaiting = false) := by
  cases h with
  | lock hpc hfree => rcases hpc with rfl | rfl <;> simp [WorkerPc.isWaiting, WorkerPc.isReturned]
  | throws hpc =>
    rcases hpc with rfl | ⟨_, rfl⟩ <;> simp [WorkerPc.isWaiting, WorkerPc.isReturned]
  | wait hrunning hempty => simp [hrunning, WorkerPc.isReturned]
  | _ => simp [WorkerPc.isWaiting, WorkerPc.isReturned]

/-- The mutex changes hands only between the worker that moves and nobody. -/
theorem Manned.mutex_of_moves {s : ThreadPool n F} (hs : Manned s) {worker : Fin n}
    {before after : WorkerPc F} {mutex : Option (Fin n)} {deque : List (Option F)}
    (hbefore : s.workers worker = before) (h : Moves s worker before after mutex deque)
    (other : Fin n) :
    mutex = some other ↔ Function.update s.workers worker after other = .testing := by
  have hself := hs.mutex worker
  rw [hbefore] at hself
  by_cases hother : other = worker
  · subst hother
    rw [Function.update_self]
    cases h with
    | lock hpc hfree => simp
    | wait | leave | pop => simp
    | throws hpc =>
      rcases hpc with rfl | ⟨_, rfl⟩ <;> simp [hself]
    | _ => simp [hself]
  · rw [Function.update_of_ne hother, ← hs.mutex other]
    cases h with
    | lock hpc hfree => simp [hfree, Ne.symm hother]
    | wait | leave | pop => simp [hself.mpr rfl, Ne.symm hother]
    | _ => exact Iff.rfl

theorem Manned.move {s t : ThreadPool n F} (hs : Manned s) {worker : Fin n} {pc : WorkerPc F}
    (h : Worked s t worker pc) : Manned t := by
  obtain ⟨hbefore, hafter, _, hwaits⟩ := h.moves.to
  constructor
  · intro hfresh
    exact absurd (hs.fresh (h.started ▸ hfresh) worker) hbefore
  · intro hstarted other
    rw [h.workers]
    by_cases hother : other = worker
    · rw [hother, Function.update_self]
      exact hafter
    · rw [Function.update_of_ne hother]
      exact hs.manned (h.started ▸ hstarted) other
  · intro other
    rw [h.workers]
    exact hs.mutex_of_moves rfl h.moves other
  · intro hstarted hstopped other
    rw [h.started] at hstarted
    rw [h.running] at hstopped
    rw [h.workers]
    by_cases hother : other = worker
    · rw [hother, Function.update_self]
      exact hwaits hstopped (hs.awake hstarted hstopped worker)
    · rw [Function.update_of_ne hother]
      exact hs.awake hstarted hstopped other

theorem waiting_of_canNotify {s : ThreadPool n F} {worker : Fin n}
    (h : s.canNotify (some worker) = true) : s.workers worker = .waiting := by
  simp only [canNotify] at h
  cases hpc : s.workers worker with
  | waiting => rfl
  | _ => simp [hpc, WorkerPc.isWaiting] at h

theorem Manned.addThreadFuncQueue {s : ThreadPool n F} (hs : Manned s) {task : Option F}
    {woken : Option (Fin n)} (hnotify : s.canNotify woken = true) :
    Manned (s.addThreadFuncQueue task woken) := by
  cases woken with
  | none => exact ⟨hs.fresh, hs.manned, hs.mutex, hs.awake⟩
  | some worker =>
    have hwaiting := waiting_of_canNotify hnotify
    have hworked : Worked s (s.setWorker worker .notified) worker .notified :=
      ⟨hwaiting ▸ .wake, rfl, rfl, rfl⟩
    have hwoken := hs.move hworked
    exact ⟨hwoken.fresh, hwoken.manned, hwoken.mutex, hwoken.awake⟩

theorem Manned.stop {s : ThreadPool n F} (hs : Manned s) : Manned s.stop where
  fresh hfresh worker := by simp [ThreadPool.stop, hs.fresh hfresh worker, WorkerPc.notify]
  manned hstarted worker := by
    have hpc := hs.manned hstarted worker
    simp only [ThreadPool.stop]
    cases hworker : s.workers worker with
    | unstarted => exact absurd hworker hpc
    | _ => simp [WorkerPc.notify]
  mutex worker := by
    rw [show s.stop.m_mutex = s.m_mutex from rfl, hs.mutex worker]
    simp only [ThreadPool.stop]
    cases s.workers worker <;> simp [WorkerPc.notify]
  awake _ _ worker := by
    simp only [ThreadPool.stop]
    cases s.workers worker <;> rfl

theorem Manned.step {s t : ThreadPool n F} {e : PoolEvent n F} (hs : Manned s)
    (hstep : s.step e = some t) : Manned t := by
  by_cases hworkers : (ThrowingEvent.pool e).isWorkers = true
  · obtain ⟨worker, pc, hworked, _⟩ := worked_of_step hstep hworkers
    exact hs.move hworked
  · cases e with
    | start =>
      simp only [ThreadPool.step, Option.ite_none_left_eq_some, Bool.not_eq_true,
        Option.some.injEq] at hstep
      obtain ⟨hfresh, rfl⟩ := hstep
      have hfree : ∀ worker, s.m_mutex ≠ some worker := by
        intro worker hheld
        have htesting := (hs.mutex worker).mp hheld
        rw [hs.fresh hfresh worker] at htesting
        cases htesting
      exact ⟨by simp, by simp, by simpa using hfree, by simp⟩
    | stop =>
      simp only [ThreadPool.step, Option.ite_none_right_eq_some, Option.some.injEq] at hstep
      exact hstep.2 ▸ hs.stop
    | addThreadFuncQueue task woken =>
      simp only [ThreadPool.step, Option.ite_none_right_eq_some, Option.some.injEq] at hstep
      exact hstep.2 ▸ hs.addThreadFuncQueue hstep.1.2
    | _ => simp [ThrowingEvent.isWorkers] at hworkers

/-! ### A step less each time -/

/-- The steps the workers of a pool that has been stopped have left. -/
def stepsLeft (s : ThreadPool n F) : Nat :=
  4 * s.m_funcDeque.length + ∑ worker, (s.workers worker).stepsLeft

theorem stepsLeft_le (s : ThreadPool n F) : s.stepsLeft ≤ 4 * (s.m_funcDeque.length + n) := by
  have hsum : ∑ worker, (s.workers worker).stepsLeft ≤ n * 4 := by
    have hbound := Finset.sum_le_card_nsmul Finset.univ (fun worker => (s.workers worker).stepsLeft)
      4 fun worker _ => (s.workers worker).stepsLeft_le
    simpa using hbound
  rw [stepsLeft]
  omega

/-- A started pool that `stop()` has been called on. -/
structure Stopped (s : ThreadPool n F) : Prop where
  inv : Manned s
  started : s.started = true
  stopped : s.m_running = false

theorem Moves.stepsLeft_lt {s : ThreadPool n F} (hstopped : s.m_running = false) {worker : Fin n}
    {before after : WorkerPc F} {mutex : Option (Fin n)} {deque : List (Option F)}
    (h : Moves s worker before after mutex deque) :
    4 * deque.length + after.stepsLeft + 1 ≤
      4 * s.m_funcDeque.length + before.stepsLeft := by
  cases h with
  | lock hpc hfree => rcases hpc with rfl | rfl <;> simp [WorkerPc.stepsLeft]
  | throws hpc => rcases hpc with rfl | ⟨_, rfl⟩ <;> simp [WorkerPc.stepsLeft]
  | wait hrunning hempty =>
    rw [hstopped] at hrunning
    cases hrunning
  | pop hdeque =>
    rename_i place task
    have hheld := WorkerPc.stepsLeft_le (.holding place task)
    have htesting : (WorkerPc.testing : WorkerPc F).stepsLeft = 1 := rfl
    rw [hdeque, List.length_cons, htesting]
    omega
  | _ => simp [WorkerPc.stepsLeft]

theorem Worked.stepsLeft_lt {s t : ThreadPool n F} {worker : Fin n} {pc : WorkerPc F}
    (hstopped : s.m_running = false) (h : Worked s t worker pc) :
    t.stepsLeft + 1 ≤ s.stepsLeft := by
  have hmoves := h.moves.stepsLeft_lt hstopped
  have hsum : ∑ w, (t.workers w).stepsLeft + (s.workers worker).stepsLeft =
      ∑ w, (s.workers w).stepsLeft + pc.stepsLeft := by
    have hold := Finset.add_sum_erase Finset.univ (fun w => (s.workers w).stepsLeft)
      (Finset.mem_univ worker)
    have hnew := Finset.add_sum_erase Finset.univ (fun w => (t.workers w).stepsLeft)
      (Finset.mem_univ worker)
    have hothers : ∑ w ∈ Finset.univ.erase worker, (t.workers w).stepsLeft =
        ∑ w ∈ Finset.univ.erase worker, (s.workers w).stepsLeft := by
      apply Finset.sum_congr rfl
      intro w hw
      rw [h.workers, Function.update_of_ne (Finset.ne_of_mem_erase hw)]
    have hself : t.workers worker = pc := by rw [h.workers, Function.update_self]
    rw [hself] at hnew
    omega
  rw [stepsLeft, stepsLeft]
  omega

/-- Without a waiting worker `notify_one` and `notify_all` wake nobody. -/
theorem Stopped.not_waiting {s : ThreadPool n F} (hs : Stopped s) (worker : Fin n) :
    (s.workers worker).isWaiting = false :=
  hs.inv.awake hs.started hs.stopped worker

theorem Stopped.stop_workers {s : ThreadPool n F} (hs : Stopped s) :
    s.stop.workers = s.workers :=
  funext fun worker => WorkerPc.notify_eq (hs.not_waiting worker)

theorem Stopped.add_workers {s : ThreadPool n F} (hs : Stopped s) {task : Option F}
    {woken : Option (Fin n)} (hnotify : s.canNotify woken = true) :
    (s.addThreadFuncQueue task woken).workers = s.workers := by
  cases woken with
  | none => rfl
  | some worker =>
    have hwaiting := hs.not_waiting worker
    rw [waiting_of_canNotify hnotify] at hwaiting
    cases hwaiting

/-- A worker that has not returned is not stuck: it can go on, or the one with the mutex. -/
theorem Stopped.progress {s : ThreadPool n F} (hs : Stopped s) {worker : Fin n}
    (hworking : (s.workers worker).isReturned = false) :
    ∃ e t, (ThrowingEvent.pool e).isWorkers = true ∧ s.step e = some t := by
  cases hmutex : s.m_mutex with
  | some holder =>
    have htesting := (hs.inv.mutex holder).mp hmutex
    exact ⟨.test holder, s.test holder, rfl, by simp [ThreadPool.step, htesting]⟩
  | none =>
    cases hpc : s.workers worker with
    | unstarted => exact absurd hpc (hs.inv.manned hs.started worker)
    | starting => exact ⟨.initCallback worker, _, rfl, by simp [ThreadPool.step, hpc]; rfl⟩
    | locking | notified =>
      exact ⟨.lock worker, _, rfl, by simp [ThreadPool.step, hpc, hmutex]; rfl⟩
    | testing =>
      have hheld := (hs.inv.mutex worker).mpr hpc
      rw [hmutex] at hheld
      cases hheld
    | waiting =>
      have hwaiting := hs.not_waiting worker
      rw [hpc] at hwaiting
      cases hwaiting
    | holding place task =>
      cases task with
      | none => exact ⟨.run worker, _, rfl, by simp [ThreadPool.step, hpc]; rfl⟩
      | some f => exact ⟨.run worker, _, rfl, by simp [ThreadPool.step, hpc]; rfl⟩
    | running place => exact ⟨.finish worker, _, rfl, by simp [ThreadPool.step, hpc]; rfl⟩
    | returned =>
      rw [hpc] at hworking
      cases hworking

end ThreadPool

namespace ThrowingPool

open ThreadPool

variable {n : Nat} {F : Type}

/-- A step of the workers, with those that throw. -/
theorem worked_of_step {s t : ThrowingPool n F} {e : ThrowingEvent n F} (hstep : s.step e = some t)
    (hworkers : e.isWorkers = true) : ∃ worker pc, Worked s.pool t.pool worker pc := by
  cases e with
  | pool e =>
    simp only [step, Option.map_eq_some_iff] at hstep
    obtain ⟨pool, hpool, rfl⟩ := hstep
    obtain ⟨worker, pc, hworked, _⟩ := ThreadPool.worked_of_step hpool hworkers
    exact ⟨worker, pc, hworked⟩
  | throws worker =>
    obtain ⟨hthrows, rfl⟩ := step_throws.mp hstep
    exact ⟨worker, .returned, .throws (canThrow_iff.mp hthrows), rfl, rfl, rfl⟩

theorem manned_step {s t : ThrowingPool n F} {e : ThrowingEvent n F} (hs : Manned s.pool)
    (hstep : s.step e = some t) : Manned t.pool := by
  cases e with
  | pool e =>
    simp only [step, Option.map_eq_some_iff] at hstep
    obtain ⟨pool, hpool, rfl⟩ := hstep
    exact hs.step hpool
  | throws worker =>
    obtain ⟨worker, pc, hworked⟩ := worked_of_step hstep rfl
    exact hs.move hworked

theorem stopped_step {s t : ThrowingPool n F} {e : ThrowingEvent n F} (hs : Stopped s.pool)
    (hstep : s.step e = some t) :
    Stopped t.pool ∧
      t.pool.stepsLeft + e.isWorkers.toNat ≤ s.pool.stepsLeft + 4 * e.isAdd.toNat := by
  have hmanned := manned_step hs.inv hstep
  cases hworkers : e.isWorkers with
  | true =>
    obtain ⟨worker, pc, hworked⟩ := worked_of_step hstep hworkers
    refine ⟨⟨hmanned, hworked.started.trans hs.started, hworked.running.trans hs.stopped⟩, ?_⟩
    have hless := hworked.stepsLeft_lt hs.stopped
    rw [Bool.toNat_true]
    omega
  | false =>
    cases e with
    | throws worker => cases hworkers
    | pool e =>
      simp only [step, Option.map_eq_some_iff] at hstep
      obtain ⟨pool, hpool, rfl⟩ := hstep
      cases e with
      | start => simp [ThreadPool.step, hs.started] at hpool
      | stop =>
        simp only [ThreadPool.step, Option.ite_none_right_eq_some, Option.some.injEq] at hpool
        obtain ⟨_, rfl⟩ := hpool
        refine ⟨⟨hmanned, hs.started, rfl⟩, ?_⟩
        simp only [ThreadPool.stepsLeft, hs.stop_workers]
        exact Nat.le_add_right _ _
      | addThreadFuncQueue task woken =>
        simp only [ThreadPool.step, Option.ite_none_right_eq_some, Option.some.injEq] at hpool
        obtain ⟨⟨_, hnotify⟩, rfl⟩ := hpool
        refine ⟨⟨hmanned, hs.started, hs.stopped⟩, ?_⟩
        simp only [ThreadPool.stepsLeft, hs.add_workers hnotify]
        simp only [ThreadPool.addThreadFuncQueue, List.length_append, List.length_singleton,
          ThrowingEvent.isAdd, Bool.toNat_true, Bool.toNat_false]
        omega
      | _ => cases hworkers

/-! ### Not before `stop()` -/

/-- Unless `stop()` has been called, the workers that have returned are those that threw. -/
def EndedByThrow (es : List (ThrowingEvent n F)) (s : ThrowingPool n F) : Prop :=
  s.pool.started = false ∨ s.pool.m_running = true →
    ∀ worker, (s.pool.workers worker).isReturned = true ↔ .throws worker ∈ es

/-- A step that is no throw and lets nobody return. -/
theorem EndedByThrow.of_pool {es : List (ThrowingEvent n F)} {s t : ThrowingPool n F}
    {e : PoolEvent n F} (h : EndedByThrow es s)
    (hcalm : t.pool.started = false ∨ t.pool.m_running = true →
      (s.pool.started = false ∨ s.pool.m_running = true) ∧
        ∀ worker, (t.pool.workers worker).isReturned = (s.pool.workers worker).isReturned) :
    EndedByThrow (es ++ [.pool e]) t := by
  intro hopen worker
  obtain ⟨hbefore, hsame⟩ := hcalm hopen
  rw [hsame worker, h hbefore worker]
  simp

theorem EndedByThrow.step {es : List (ThrowingEvent n F)} {s t : ThrowingPool n F}
    {e : ThrowingEvent n F} (hs : Manned s.pool) (h : EndedByThrow es s)
    (hstep : s.step e = some t) : EndedByThrow (es ++ [e]) t := by
  cases e with
  | throws worker =>
    obtain ⟨_, rfl⟩ := step_throws.mp hstep
    intro hopen other
    by_cases hother : other = worker
    · subst hother
      simp [setWorker, WorkerPc.isReturned]
    · rw [List.mem_append, ← h hopen other]
      simp [setWorker, hother]
  | pool e =>
    simp only [ThrowingPool.step, Option.map_eq_some_iff] at hstep
    obtain ⟨pool, hpool, rfl⟩ := hstep
    by_cases hworkers : (ThrowingEvent.pool e).isWorkers = true
    · obtain ⟨worker, pc, hworked, hreturns⟩ := ThreadPool.worked_of_step hpool hworkers
      obtain ⟨hbefore, _, hworking, _⟩ := hworked.moves.to
      apply h.of_pool
      intro hopen
      rw [hworked.started, hworked.running] at hopen
      refine ⟨hopen, fun other => ?_⟩
      have hpc : pc.isReturned = false := by
        by_contra hreturned
        have hstopped := hreturns (by simpa using hreturned)
        rcases hopen with hfresh | hrunning
        · exact hbefore (hs.fresh hfresh worker)
        · rw [hstopped] at hrunning
          cases hrunning
      rw [hworked.workers]
      by_cases hother : other = worker
      · rw [hother, Function.update_self, hpc, hworking]
      · rw [Function.update_of_ne hother]
    · cases e with
      | start =>
        simp only [ThreadPool.step, Option.ite_none_left_eq_some, Bool.not_eq_true,
          Option.some.injEq] at hpool
        obtain ⟨hfresh, rfl⟩ := hpool
        refine h.of_pool fun _ => ⟨Or.inl hfresh, fun worker => ?_⟩
        rw [hs.fresh hfresh worker]
        rfl
      | stop =>
        simp only [ThreadPool.step, Option.ite_none_right_eq_some, Option.some.injEq] at hpool
        obtain ⟨_, rfl⟩ := hpool
        refine h.of_pool fun hopen => ⟨Or.inl ?_, fun worker => notify_isReturned⟩
        rcases hopen with hfresh | hrunning
        · exact hfresh
        · cases hrunning
      | addThreadFuncQueue task woken =>
        simp only [ThreadPool.step, Option.ite_none_right_eq_some, Option.some.injEq] at hpool
        obtain ⟨⟨_, hnotify⟩, rfl⟩ := hpool
        refine h.of_pool fun hopen => ⟨hopen, fun worker => ?_⟩
        cases woken with
        | none => rfl
        | some other =>
          by_cases hworker : worker = other
          · subst hworker
            rw [waiting_of_canNotify hnotify]
            simp [ThreadPool.addThreadFuncQueue, WorkerPc.isReturned]
          · simp [ThreadPool.addThreadFuncQueue, Function.update_of_ne hworker]
      | _ => simp [ThrowingEvent.isWorkers] at hworkers

theorem run_ended {s : ThrowingPool n F} {es : List (ThrowingEvent n F)}
    (hrun : Run step (new n F) es s) : Manned s.pool ∧ EndedByThrow es s := by
  refine hrun.history (I := fun fs u => Manned u.pool ∧ EndedByThrow fs u)
    ⟨new_manned n F, fun _ worker => ?_⟩ ?_
  · simp [new, ThreadPool.new, WorkerPc.isReturned]
  · rintro fs u e v _ ⟨hmanned, hended⟩ hstep
    exact ⟨manned_step hmanned hstep, hended.step hmanned hstep⟩

end ThrowingPool

/-! ### The joins of the destructor -/

section Joins

open ThreadPool

variable {n : Nat} {F : Type}

/-- **The workers end when they are told to.**  In every run of a pool, a worker returns
    before `stop()` only if its task or `m_threadInitCallback` throws.  From any state of a
    started pool that has been stopped, in every run, no worker waits, the workers take at
    most four steps for each task in the deque, each task added and each worker, and as long
    as one has not returned some worker can take a step. -/
theorem stopped_pool_ends {s : ThrowingPool n F} {es : List (ThrowingEvent n F)}
    (hrun : Run ThrowingPool.step (ThrowingPool.new n F) es s) :
    (s.pool.m_running = true →
      ∀ worker, (s.pool.workers worker).isReturned = true ↔ .throws worker ∈ es) ∧
    (s.pool.started = true → s.pool.m_running = false → ∀ fs t, Run ThrowingPool.step s fs t →
      (∀ worker, (t.pool.workers worker).isWaiting = false) ∧
      workerSteps fs ≤ 4 * (s.pool.m_funcDeque.length + additions fs + n) ∧
      (¬ t.AllReturned → ∃ e u, e.isWorkers = true ∧ t.step e = some u)) := by
  obtain ⟨hmanned, hended⟩ := ThrowingPool.run_ended hrun
  refine ⟨fun hrunning => hended (Or.inr hrunning), ?_⟩
  intro hstarted hstopped fs t hrest
  have hs : Stopped s.pool := ⟨hmanned, hstarted, hstopped⟩
  have ht : Stopped t.pool :=
    hrest.invariant (fun _ _ _ h hstep => (ThrowingPool.stopped_step h hstep).1) hs
  refine ⟨ht.not_waiting, ?_, ?_⟩
  · have hbudget := hrest.budget (fun _ _ _ h hstep => ThrowingPool.stopped_step h hstep) hs
    have hadded : (fs.map fun e => 4 * e.isAdd.toNat).sum = 4 * additions fs :=
      List.sum_map_mul_left ..
    have hleft := s.pool.stepsLeft_le
    rw [hadded] at hbudget
    rw [workerSteps]
    omega
  · intro hworking
    obtain ⟨worker, hworker⟩ := not_forall.mp hworking
    obtain ⟨e, pool, hworkers, hstep⟩ := ht.progress (by simpa using hworker)
    exact ⟨.pool e, _, hworkers, by simp only [ThrowingPool.step, hstep]; rfl⟩

/-- One worker ends by its init callback, and the other one waits and is woken by a task. -/
theorem stopped_pool_ends_one_task :
    ∃ s : ThrowingPool 2 Nat,
      Run ThrowingPool.step (ThrowingPool.new 2 Nat)
        [.pool .start, .throws 1, .pool (.initCallback 0), .pool (.lock 0), .pool (.test 0),
          .pool (.addThreadFuncQueue (some 7) (some 0)), .pool .stop] s ∧
      ∀ fs t, Run ThrowingPool.step s fs t →
        workerSteps fs ≤ 4 * (1 + additions fs + 2) ∧
        (¬ t.AllReturned → ∃ e u, e.isWorkers = true ∧ t.step e = some u) := by
  obtain ⟨s, hrun, hends⟩ := exists_run ThrowingPool.step (ThrowingPool.new 2 Nat)
    [.pool .start, .throws 1, .pool (.initCallback 0), .pool (.lock 0), .pool (.test 0),
      .pool (.addThreadFuncQueue (some 7) (some 0)), .pool .stop]
    (fun s => (s.pool.started, s.pool.m_running, s.pool.m_funcDeque)) (true, false, [some 7]) rfl
  simp only [Prod.mk.injEq] at hends
  obtain ⟨hstarted, hstopped, hdeque⟩ := hends
  refine ⟨s, hrun, fun fs t hrest => ?_⟩
  have hends := ((stopped_pool_ends hrun).2 hstarted hstopped fs t hrest).2
  rw [hdeque] at hends
  exact hends

end Joins

end Muduo
