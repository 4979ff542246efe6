import Muduo.ThreadPool

/-!
# Tasks that throw

The catch-all of `runInThread` is around its loop, so a task that throws ends the worker
that runs it, and an `m_threadInitCallback` that throws ends the worker before it has locked
the mutex.  As long as another worker is left the tasks behind are run; when the last one
ends so, they stay in the deque, and so does every task that is added then.

The pool is the one of `ThreadPool`, with one more event.  What `ThreadPool.Inv` says of
the tasks and the workers holds of it, but the pool need not drain.
-/

namespace Muduo

open Transitions

structure ThrowingPool (n : Nat) (F : Type) where
  pool : ThreadPool n F
  /-- History: how many tasks had been added at the last `stop()` that found a worker which
      had not returned, or at the first one; `none` before. -/
  stopMark : Option Nat

inductive ThrowingEvent (n : Nat) (F : Type) where
  | pool (e : PoolEvent n F)
  /-- The task that `worker` runs throws, or its `m_threadInitCallback`. -/
  | throws (worker : Fin n)

namespace ThreadPool

variable {n : Nat} {F : Type}

/-- Whether some worker has not returned. -/
def someWorking (s : ThreadPool n F) : Bool :=
  (List.finRange n).any fun worker => !(s.workers worker).isReturned

/-- Whether a worker is in code of the user. -/
def canThrow (s : ThreadPool n F) (worker : Fin n) : Bool :=
  match s.workers worker with
  | .starting | .running _ => true
  | _ => false

theorem canThrow_iff {s : ThreadPool n F} {worker : Fin n} :
    s.canThrow worker = true ↔
      s.workers worker = .starting ∨ ∃ place, s.workers worker = .running place := by
  rw [canThrow]
  cases s.workers worker <;> simp

/-- The catch-all: the worker returns, whatever is in the deque. -/
theorem Inv.throws {s : ThreadPool n F} (hs : Inv s) {worker : Fin n}
    (hthrows : s.canThrow worker = true) : Inv (s.setWorker worker .returned) := by
  have hworker := canThrow_iff.mp hthrows
  apply hs.move worker .returned s.m_mutex ?_ ?_ (by simp) (by simp [WorkerPc.isWaiting])
  · intro hpc
    simp [hpc] at hworker
  · intro place f hpc
    simp [hpc] at hworker

end ThreadPool

namespace ThrowingPool

variable {n : Nat} {F : Type}

def new (n : Nat) (F : Type) : ThrowingPool n F where
  pool := .new n F
  stopMark := none

def markAfter (s : ThrowingPool n F) : PoolEvent n F → Option Nat
  | .stop =>
    if s.pool.someWorking ∨ s.stopMark = none then some s.pool.added.length else s.stopMark
  | _ => s.stopMark

def step (s : ThrowingPool n F) : ThrowingEvent n F → Option (ThrowingPool n F)
  | .pool e => (s.pool.step e).map fun pool => { pool, stopMark := s.markAfter e }
  | .throws worker =>
    if s.pool.canThrow worker then some { s with pool := s.pool.setWorker worker .returned }
    else none

/-! ### The law and the condition -/

def AllReturned (s : ThrowingPool n F) : Prop :=
  ∀ worker, (s.pool.workers worker).isReturned = true

/-- How many of the tasks added were added before `stop()`: all of them, until it is called. -/
def beforeStop (s : ThrowingPool n F) : Nat := s.stopMark.getD s.pool.added.length

/-- When all workers have returned, every task added before `stop()` has been started, and
    once only. -/
def AllStarted (s : ThrowingPool n F) : Prop :=
  s.AllReturned → ∀ place f, place < s.beforeStop → s.pool.added[place]? = some (some f) →
    (s.pool.ran.map Prod.snd).count place = 1

/-- A task added before `stop()` is in the deque. -/
def Pending (s : ThrowingPool n F) : Prop :=
  ∃ task ∈ s.pool.m_funcDeque.take (s.beforeStop - s.pool.popped.length), task.isSome = true

/-- The last worker does not end by throwing, with tasks in the deque; and no task is added
    when there is no worker. -/
def Spares (s : ThrowingPool n F) : ThrowingEvent n F → Prop
  | .throws worker =>
    (∃ other, other ≠ worker ∧ (s.pool.workers other).isReturned = false) ∨ ¬ s.Pending
  | .pool (.addThreadFuncQueue (some _) _) => ¬ s.AllReturned ∨ s.stopMark ≠ none
  | .pool _ => True

instance (s : ThrowingPool n F) : Decidable s.AllReturned :=
  inferInstanceAs (Decidable (∀ worker, (s.pool.workers worker).isReturned = true))

instance (s : ThrowingPool n F) : Decidable s.Pending :=
  inferInstanceAs (Decidable (∃ task ∈ List.take _ _, Option.isSome task = true))

instance (s : ThrowingPool n F) : DecidablePred s.Spares
  | .throws worker => inferInstanceAs (Decidable
      ((∃ other, other ≠ worker ∧ (s.pool.workers other).isReturned = false) ∨ ¬ s.Pending))
  | .pool (.addThreadFuncQueue (some _) _) =>
    inferInstanceAs (Decidable (¬ s.AllReturned ∨ s.stopMark ≠ none))
  | .pool (.addThreadFuncQueue none _) | .pool .start | .pool .stop | .pool (.initCallback _)
  | .pool (.lock _) | .pool (.test _) | .pool (.wake _) | .pool (.run _) | .pool (.finish _) =>
    inferInstanceAs (Decidable True)

/-! ### What holds in every run -/

structure Inv (s : ThrowingPool n F) : Prop where
  tasks : s.pool.Inv
  mark : s.beforeStop ≤ s.pool.added.length

theorem new_inv (n : Nat) (F : Type) : Inv (new n F) where
  tasks := ThreadPool.new_inv n F
  mark := Nat.le_refl 0

theorem step_throws {s t : ThrowingPool n F} {worker : Fin n} :
    s.step (.throws worker) = some t ↔ s.pool.canThrow worker = true ∧
      t = { s with pool := s.pool.setWorker worker .returned } := by
  simp only [step, Option.ite_none_right_eq_some, Option.some.injEq]
  exact and_congr_right fun _ => eq_comm

theorem markAfter_of_ne {s : ThrowingPool n F} {e : PoolEvent n F} (hevent : e ≠ .stop) :
    s.markAfter e = s.stopMark := by
  cases e with
  | stop => exact absurd rfl hevent
  | _ => rfl

/-- A task that is added moves the mark only before `stop()`. -/
theorem getD_succ_le {m : Option Nat} {k : Nat} (h : m.getD k ≤ k) : m.getD (k + 1) ≤ k + 1 := by
  cases m with
  | none => exact Nat.le_refl _
  | some _ => exact Nat.le_succ_of_le h

/-- A `stop()` puts the mark behind all tasks, or it stops nothing. -/
theorem markAfter_stop_le {s : ThrowingPool n F} (hmark : s.beforeStop ≤ s.pool.added.length) :
    (s.markAfter .stop).getD s.pool.added.length ≤ s.pool.added.length := by
  rw [markAfter]
  split
  · exact Nat.le_refl _
  · exact hmark

theorem Inv.step {s t : ThrowingPool n F} {e : ThrowingEvent n F} (hn : 0 < n) (hs : Inv s)
    (hstep : ThrowingPool.step s e = some t) : Inv t := by
  cases e with
  | pool e =>
    simp only [ThrowingPool.step, Option.map_eq_some_iff] at hstep
    obtain ⟨pool, hpool, rfl⟩ := hstep
    refine ⟨hs.tasks.step hn hpool, ?_⟩
    cases ThreadPool.stepped_of_step hpool with
    | @addThreadFuncQueue task _ hnotify =>
      have hmark := getD_succ_le hs.mark
      simpa [beforeStop, markAfter, ThreadPool.addThreadFuncQueue] using hmark
    | stop => exact markAfter_stop_le hs.mark
    | move _ _ _ hevent =>
      rw [beforeStop, markAfter_of_ne hevent]
      exact hs.mark
    | start | pop _ _ | run _ => exact hs.mark
  | throws worker =>
    obtain ⟨hthrows, rfl⟩ := step_throws.mp hstep
    exact ⟨hs.tasks.throws hthrows, hs.mark⟩

/-! ### When all workers have returned -/

theorem Inv.added_get {s : ThrowingPool n F} (hs : Inv s) (i : Nat) :
    s.pool.added[s.pool.popped.length + i]? = s.pool.m_funcDeque[i]? := by
  have horder : s.pool.popped.map Prod.snd ++ s.pool.m_funcDeque = s.pool.added := hs.tasks.order
  rw [← horder, List.getElem?_append_right (by simp)]
  simp

theorem pending_iff {s : ThrowingPool n F} :
    s.Pending ↔
      ∃ i f, s.pool.m_funcDeque[i]? = some (some f) ∧ s.pool.popped.length + i < s.beforeStop := by
  constructor
  · rintro ⟨task, hmem, hsome⟩
    obtain ⟨f, rfl⟩ := Option.isSome_iff_exists.mp hsome
    obtain ⟨i, hi⟩ := List.mem_iff_getElem?.mp hmem
    rw [List.getElem?_take] at hi
    split at hi
    · exact ⟨i, f, hi, by omega⟩
    · cases hi
  · rintro ⟨i, f, hi, hlt⟩
    refine ⟨some f, List.mem_iff_getElem?.mpr ⟨i, ?_⟩, rfl⟩
    rw [List.getElem?_take, if_pos (by omega)]
    exact hi

/-- The tasks are all started when none of them is left. -/
theorem Inv.allStarted_iff {s : ThrowingPool n F} (hs : Inv s) :
    s.AllStarted ↔ (s.AllReturned → ¬ s.Pending) := by
  constructor
  · intro hall hreturned hpending
    obtain ⟨i, f, hdeque, hlt⟩ := pending_iff.mp hpending
    rw [← hs.added_get i] at hdeque
    have hcount := hall hreturned _ f hlt hdeque
    have hmem : s.pool.popped.length + i ∈ s.pool.ran.map Prod.snd := by
      rw [← List.count_pos_iff, hcount]
      exact Nat.one_pos
    obtain ⟨⟨worker, place⟩, hran, hplace⟩ := List.mem_map.mp hmem
    obtain ⟨g, hpopped⟩ := hs.tasks.ran worker place hran
    have hbound := (List.getElem?_eq_some_iff.mp hpopped).1
    simp only at hplace
    omega
  · intro hnone hreturned place f hlt hadded
    by_cases hpopped : place < s.pool.popped.length
    · exact hs.tasks.count_of_popped hreturned hpopped hadded
    · obtain ⟨i, rfl⟩ := Nat.exists_eq_add_of_le (Nat.not_lt.mp hpopped)
      rw [hs.added_get i] at hadded
      exact absurd (pending_iff.mpr ⟨i, f, hadded, hlt⟩) (hnone hreturned)

theorem not_pending_of_empty {s : ThrowingPool n F} (hempty : s.pool.m_funcDeque = []) :
    ¬ s.Pending := by
  simp [Pending, hempty]

/-- A `stop()` that comes after the last worker has returned does not move the mark. -/
theorem beforeStop_stop {s : ThrowingPool n F} (hreturned : s.AllReturned) :
    (s.markAfter .stop).getD s.pool.added.length = s.beforeStop := by
  have hnone : s.pool.someWorking = false := by
    simp [ThreadPool.someWorking, hreturned _]
  simp only [markAfter, hnone, Bool.false_eq_true, false_or]
  split
  · rename_i hfirst
    rw [beforeStop, hfirst]
    rfl
  · rfl

/-- The pool after `addThreadFuncQueue` with no worker to wake. -/
def push (s : ThrowingPool n F) (task : Option F) : ThrowingPool n F :=
  { s with pool := s.pool.addThreadFuncQueue task none }

theorem Inv.length_eq {s : ThrowingPool n F} (hs : Inv s) :
    s.pool.popped.length + s.pool.m_funcDeque.length = s.pool.added.length := by
  have horder : s.pool.popped.map Prod.snd ++ s.pool.m_funcDeque = s.pool.added := hs.tasks.order
  rw [← horder]
  simp

/-- What `addThreadFuncQueue` leaves in the deque before the mark: what was there, and the
    new task when there has been no `stop()`. -/
theorem Inv.pending_push {s : ThrowingPool n F} (hs : Inv s) {task : Option F} :
    (s.push task).Pending ↔ s.Pending ∨ s.stopMark = none ∧ ∃ f, task = some f := by
  have hlength := hs.length_eq
  have hmark := hs.mark
  simp only [pending_iff, push, ThreadPool.addThreadFuncQueue, beforeStop, List.length_append,
    List.length_singleton] at hmark ⊢
  constructor
  · rintro ⟨i, f, hdeque, hlt⟩
    by_cases hold : i < s.pool.m_funcDeque.length
    · rw [List.getElem?_append_left hold] at hdeque
      refine Or.inl ⟨i, f, hdeque, ?_⟩
      cases hstop : s.stopMark with
      | none =>
        rw [Option.getD_none]
        omega
      | some m =>
        rw [hstop] at hlt
        exact hlt
    · have hi : i = s.pool.m_funcDeque.length := by
        have hbound := (List.getElem?_eq_some_iff.mp hdeque).1
        simp only [List.length_append, List.length_singleton] at hbound
        omega
      subst hi
      simp only [List.getElem?_concat_length, Option.some.injEq] at hdeque
      refine Or.inr ⟨?_, f, hdeque⟩
      cases hstop : s.stopMark with
      | none => rfl
      | some m =>
        -- the mark is not behind the tasks added so far
        rw [hstop, Option.getD_some] at hlt hmark
        omega
  · rintro (⟨i, f, hdeque, hlt⟩ | ⟨hstop, f, htask⟩)
    · have hold := (List.getElem?_eq_some_iff.mp hdeque).1
      refine ⟨i, f, by rw [List.getElem?_append_left hold]; exact hdeque, ?_⟩
      cases hstop : s.stopMark with
      | none =>
        rw [Option.getD_none]
        omega
      | some m =>
        rw [hstop] at hlt
        exact hlt
    · refine ⟨s.pool.m_funcDeque.length, f, by simp [htask], ?_⟩
      rw [hstop, Option.getD_none]
      omega

theorem Inv.not_pending_step {s t : ThrowingPool n F} {e : ThrowingEvent n F} (hn : 0 < n)
    (hs : Inv s) (hsafe : s.AllReturned → ¬ s.Pending) (hspares : s.Spares e)
    (hstep : ThrowingPool.step s e = some t) : t.AllReturned → ¬ t.Pending := by
  intro hreturned
  cases e with
  | pool e =>
    simp only [ThrowingPool.step, Option.map_eq_some_iff] at hstep
    obtain ⟨pool, hpool, rfl⟩ := hstep
    cases ThreadPool.lastStepped_of_step hn hpool hreturned with
    | returns hempty => exact not_pending_of_empty hempty
    | @addThreadFuncQueue task hbefore =>
      intro hpending
      rcases hs.pending_push.mp hpending with hold | ⟨hstop, f, htask⟩
      · exact hsafe hbefore hold
      · subst htask
        rcases hspares with hworking | hstopped
        · exact hworking hbefore
        · exact hstopped hstop
    | stop hbefore =>
      have hsame := hsafe hbefore
      rw [Pending, ← beforeStop_stop hbefore] at hsame
      exact hsame
  | throws worker =>
    obtain ⟨_, rfl⟩ := step_throws.mp hstep
    rcases hspares with ⟨other, hne, hother⟩ | hnone
    · have hself := hreturned other
      simp only [ThreadPool.setWorker, Function.update_of_ne hne] at hself
      rw [hother] at hself
      cases hself
    · exact hnone

theorem not_waiting_of_returned {pc : WorkerPc F} (h : pc.isReturned = true) :
    pc.isWaiting = false := by
  cases pc <;> first | rfl | cases h

theorem Inv.pending_of_not_spares {s t : ThrowingPool n F} {e : ThrowingEvent n F} (hs : Inv s)
    (hspares : ¬ s.Spares e) (hstep : ThrowingPool.step s e = some t) :
    t.AllReturned ∧ t.Pending := by
  cases e with
  | throws worker =>
    simp only [Spares, not_or, not_exists, not_and, Bool.not_eq_false, Classical.not_not]
      at hspares
    obtain ⟨hothers, hpending⟩ := hspares
    obtain ⟨_, rfl⟩ := step_throws.mp hstep
    refine ⟨fun w => ?_, hpending⟩
    by_cases hw : w = worker
    · rw [hw]
      simp [ThreadPool.setWorker, WorkerPc.isReturned]
    · simpa only [ThreadPool.setWorker, Function.update_of_ne hw] using hothers w hw
  | pool e =>
    cases e with
    | addThreadFuncQueue task woken =>
      cases task with
      | none => exact absurd trivial hspares
      | some f =>
        simp only [Spares, not_or, Classical.not_not, ne_eq] at hspares
        obtain ⟨hreturned, hstop⟩ := hspares
        simp only [ThrowingPool.step, Option.map_eq_some_iff] at hstep
        obtain ⟨pool, hpool, rfl⟩ := hstep
        simp only [ThreadPool.step, Option.ite_none_right_eq_some, Option.some.injEq] at hpool
        obtain ⟨⟨_, hnotify⟩, rfl⟩ := hpool
        cases woken with
        | none => exact ⟨hreturned, hs.pending_push.mpr (Or.inr ⟨hstop, f, rfl⟩)⟩
        | some worker =>
          have hwaiting := not_waiting_of_returned (hreturned worker)
          rw [ThreadPool.canNotify, hwaiting] at hnotify
          cases hnotify
    | _ => exact absurd trivial hspares

/-! ### No task takes others down -/

/-- A run keeps the law exactly when no exception ends the last worker with tasks added before
    `stop()` in the deque, and none is added, before `stop()`, to a pool with no worker left. -/
theorem throwing_tasks_iff (hn : 0 < n) {s : ThrowingPool n F} {es : List (ThrowingEvent n F)}
    (hrun : Run step (new n F) es s) :
    Always step AllStarted (new n F) es ↔ Along step Spares (new n F) es := by
  refine always_iff_along (I := fun s => Inv s ∧ (s.AllReturned → ¬ s.Pending)) ?_ ?_ ?_ ?_ hrun
  · rintro s ⟨hinv, hsafe⟩
    rw [hinv.allStarted_iff]
    exact hsafe
  · rintro s e t ⟨hinv, hsafe⟩ hspares hstep
    exact ⟨hinv.step hn hstep, hinv.not_pending_step hn hsafe hspares hstep⟩
  · rintro s e t ⟨hinv, _⟩ hspares hstep hall
    obtain ⟨hreturned, hpending⟩ := hinv.pending_of_not_spares hspares hstep
    exact (hinv.step hn hstep).allStarted_iff.mp hall hreturned hpending
  · exact ⟨new_inv n F, fun _ => not_pending_of_empty rfl⟩

/-- The first worker runs the first of two tasks, which throws. -/
def firstThrows (hn : 0 < n) : List (ThrowingEvent n Nat) :=
  [.pool .start, .pool (.addThreadFuncQueue (some 7) none),
    .pool (.addThreadFuncQueue (some 8) none), .pool .stop, .pool (.initCallback ⟨0, hn⟩),
    .pool (.lock ⟨0, hn⟩), .pool (.test ⟨0, hn⟩), .pool (.run ⟨0, hn⟩), .throws ⟨0, hn⟩]

/-- Another worker runs the second task. -/
def secondWorker : List (ThrowingEvent 2 Nat) :=
  [.pool (.initCallback (.last 1)), .pool (.lock (.last 1)), .pool (.test (.last 1)),
    .pool (.run (.last 1)), .pool (.finish (.last 1)), .pool (.lock (.last 1)),
    .pool (.test (.last 1))]

theorem throwing_tasks_iff_two_workers :
    ∃ s, Run step (new 2 Nat) (firstThrows (by decide) ++ secondWorker) s ∧
      s.AllReturned ∧ s.AllStarted := by
  obtain ⟨s, hrun, hreturned⟩ := exists_run step (new 2 Nat)
    (firstThrows (by decide) ++ secondWorker)
    (fun s => (s.pool.workers 0, s.pool.workers 1)) (.returned, .returned) rfl
  simp only [Prod.mk.injEq] at hreturned
  have hall : Along step Spares (new 2 Nat) (firstThrows (by decide) ++ secondWorker) := by decide
  rw [← throwing_tasks_iff (by decide) hrun] at hall
  refine ⟨s, hrun, ?_, hall _ [] s (by simp) hrun⟩
  rw [AllReturned, Fin.forall_fin_two, hreturned.1, hreturned.2]
  exact ⟨rfl, rfl⟩

/-- In a pool of one the second task is never started. -/
theorem last_worker_taken_down :
    ∃ s, Run step (new 1 Nat) (firstThrows (by decide)) s ∧ s.AllReturned ∧
      s.pool.added = [some 7, some 8] ∧ s.stopMark = some 2 ∧ s.pool.ran = [(0, 0)] ∧
      ¬ s.AllStarted := by
  obtain ⟨s, hrun, hends⟩ := exists_run step (new 1 Nat) (firstThrows (by decide))
    (fun s => (s.pool.workers 0, s.pool.added, s.stopMark, s.pool.ran))
    (.returned, [some 7, some 8], some 2, [(0, 0)]) rfl
  simp only [Prod.mk.injEq] at hends
  rcases hends with ⟨hpc, hadded, hstop, hran⟩
  have hreturned : s.AllReturned := by
    intro worker
    rw [Subsingleton.elim worker 0, hpc]
    rfl
  refine ⟨s, hrun, hreturned, hadded, hstop, hran, fun hall => ?_⟩
  have hbefore : 1 < s.beforeStop := by
    rw [beforeStop, hstop]
    exact Nat.one_lt_two
  have hcount := hall hreturned 1 8 hbefore (by rw [hadded]; rfl)
  rw [hran] at hcount
  cases hcount

end ThrowingPool

end Muduo
