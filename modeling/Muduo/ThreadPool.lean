import Muduo.Transitions
import Mathlib.Data.Fin.Basic
import Mathlib.Data.List.Nodup
import Mathlib.Logic.Function.Basic

/-!
# `ThreadPool`

`Thread/ThreadPool.cpp`: `m_threadSize` workers over one deque, one mutex and one
condition variable.  The critical sections of `addThreadFuncQueue` and `stop` are one
step each; a worker locks, tests, waits, pops and runs in steps of its own, and others
come between them.  `notify_one` wakes one of the waiting workers, any of them, and a
worker can also wake up without a notification.

A worker looks at `m_running` only when the deque is empty, so the last one to return
has seen every task that was added before.  A `stop()` that comes later finds the tasks
added since in the deque, and nobody takes them.
-/

namespace Muduo

open Transitions

/-- Where a worker is in `runInThread`.  A task goes by its place in the order of the
    additions. -/
inductive WorkerPc (F : Type) where
  | unstarted
  | starting       -- `m_threadInitCallback`
  | locking        -- at the head of `while (true)`
  | testing        -- with the mutex, in front of `while (m_funcDeque.empty())`
  | waiting        -- in `m_cond.wait`
  | notified       -- woken, and about to lock again
  | holding (place : Nat) (task : Option F)
  | running (place : Nat)
  | returned
deriving DecidableEq

structure ThreadPool (n : Nat) (F : Type) where
  m_running : Bool
  /-- The worker that holds `m_mutex`. -/
  m_mutex : Option (Fin n)
  /-- A `std::function` may be null. -/
  m_funcDeque : List (Option F)
  workers : Fin n → WorkerPc F
  started : Bool
  /-- History: the tasks in the order they were added. -/
  added : List (Option F)
  /-- The tasks popped, each with the worker. -/
  popped : List (Fin n × Option F)
  /-- The calls `task()`: the worker and the place of the task. -/
  ran : List (Fin n × Nat)

inductive PoolEvent (n : Nat) (F : Type) where
  | start
  /-- `woken` is the worker that `notify_one` wakes. -/
  | addThreadFuncQueue (task : Option F) (woken : Option (Fin n))
  | stop
  | initCallback (worker : Fin n)
  | lock (worker : Fin n)
  /-- The inner loop of `runInThread`: wait, return or pop. -/
  | test (worker : Fin n)
  /-- A wakeup without a notification. -/
  | wake (worker : Fin n)
  | run (worker : Fin n)
  | finish (worker : Fin n)

namespace WorkerPc

variable {F : Type}

def isWaiting : WorkerPc F → Bool
  | .waiting => true
  | _ => false

def isReturned : WorkerPc F → Bool
  | .returned => true
  | _ => false

/-- What `notify_all` does to a worker. -/
def notify : WorkerPc F → WorkerPc F
  | .waiting => .notified
  | pc => pc

end WorkerPc

namespace ThreadPool

variable {n : Nat} {F : Type}

/-- The pool before `start()`. -/
def new (n : Nat) (F : Type) : ThreadPool n F where
  m_running := false
  m_mutex := none
  m_funcDeque := []
  workers := fun _ => .unstarted
  started := false
  added := []
  popped := []
  ran := []

def setWorker (s : ThreadPool n F) (worker : Fin n) (pc : WorkerPc F) : ThreadPool n F :=
  { s with workers := Function.update s.workers worker pc }

/-- Whether `notify_one` can wake `woken`: a waiting worker, and none only if none waits. -/
def canNotify (s : ThreadPool n F) : Option (Fin n) → Bool
  | some worker => (s.workers worker).isWaiting
  | none => (List.finRange n).all fun worker => !(s.workers worker).isWaiting

def addThreadFuncQueue (s : ThreadPool n F) (task : Option F) (woken : Option (Fin n)) :
    ThreadPool n F :=
  { s with
    m_funcDeque := s.m_funcDeque ++ [task]
    workers := match woken with
      | some worker => Function.update s.workers worker .notified
      | none => s.workers
    added := s.added ++ [task] }

def stop (s : ThreadPool n F) : ThreadPool n F :=
  { s with
    m_running := false
    workers := fun worker => (s.workers worker).notify }

/-- `while (m_funcDeque.empty())` on the worker that holds the mutex. -/
def test (s : ThreadPool n F) (worker : Fin n) : ThreadPool n F :=
  match s.m_funcDeque with
  | [] =>
    if s.m_running = false then
      { s.setWorker worker .returned with m_mutex := none }
    else
      { s.setWorker worker .waiting with m_mutex := none }
  | task :: rest =>
    { s.setWorker worker (.holding s.popped.length task) with
      m_mutex := none
      m_funcDeque := rest
      popped := s.popped ++ [(worker, task)] }

def step (s : ThreadPool n F) : PoolEvent n F → Option (ThreadPool n F)
  | .start =>
    if s.started then none
    else some { s with m_running := true, workers := fun _ => .starting, started := true }
  | .addThreadFuncQueue task woken =>
    if s.m_mutex = none ∧ s.canNotify woken = true then
      some (s.addThreadFuncQueue task woken)
    else
      none
  | .stop => if s.m_mutex = none then some s.stop else none
  | .initCallback worker => match s.workers worker with
    | .starting => some (s.setWorker worker .locking)
    | _ => none
  | .lock worker => match s.workers worker, s.m_mutex with
    | .locking, none | .notified, none =>
      some { s.setWorker worker .testing with m_mutex := some worker }
    | _, _ => none
  | .test worker => match s.workers worker with
    | .testing => some (s.test worker)
    | _ => none
  | .wake worker => match s.workers worker with
    | .waiting => some (s.setWorker worker .notified)
    | _ => none
  | .run worker => match s.workers worker with
    | .holding place (some _) =>
      some { s.setWorker worker (.running place) with ran := s.ran ++ [(worker, place)] }
    | .holding _ none => some (s.setWorker worker .locking)
    | _ => none
  | .finish worker => match s.workers worker with
    | .running _ => some (s.setWorker worker .locking)
    | _ => none

/-! ### What a step can do -/

inductive Stepped (s : ThreadPool n F) : PoolEvent n F → ThreadPool n F → Prop where
  | start (hfresh : s.started = false) :
      Stepped s .start { s with m_running := true, workers := fun _ => .starting, started := true }
  | addThreadFuncQueue {task : Option F} {woken : Option (Fin n)}
      (hnotify : s.canNotify woken = true) :
      Stepped s (.addThreadFuncQueue task woken) (s.addThreadFuncQueue task woken)
  | stop : Stepped s .stop s.stop
  /-- A worker goes on, with no task in hand before or after.  It waits or returns only
      with an empty deque. -/
  | move {e : PoolEvent n F} (worker : Fin n) (pc : WorkerPc F) (mutex : Option (Fin n))
      (hevent : e ≠ .stop) (hstarted : s.workers worker ≠ .unstarted)
      (hbefore : ∀ place f, s.workers worker ≠ .holding place (some f))
      (hafter : ∀ place task, pc ≠ .holding place task)
      (hempty : pc.isWaiting = true ∨ pc.isReturned = true → s.m_funcDeque = []) :
      Stepped s e { s.setWorker worker pc with m_mutex := mutex }
  | pop {worker : Fin n} {task : Option F} {rest : List (Option F)}
      (hpc : s.workers worker = .testing) (hdeque : s.m_funcDeque = task :: rest) :
      Stepped s (.test worker)
        { s.setWorker worker (.holding s.popped.length task) with
          m_mutex := none
          m_funcDeque := rest
          popped := s.popped ++ [(worker, task)] }
  | run {worker : Fin n} {place : Nat} {f : F}
      (hpc : s.workers worker = .holding place (some f)) :
      Stepped s (.run worker)
        { s.setWorker worker (.running place) with ran := s.ran ++ [(worker, place)] }

theorem stepped_test {s : ThreadPool n F} {worker : Fin n} (hpc : s.workers worker = .testing) :
    Stepped s (.test worker) (s.test worker) := by
  rw [ThreadPool.test]
  split
  · rename_i hempty
    split
    · exact .move worker .returned none (by simp) (by simp [hpc]) (by simp [hpc]) (by simp)
        fun _ => hempty
    · exact .move worker .waiting none (by simp) (by simp [hpc]) (by simp [hpc]) (by simp)
        fun _ => hempty
  · rename_i task rest hdeque
    exact .pop hpc hdeque

/-- A step to a place where a worker neither waits nor has returned. -/
theorem Stepped.advance {s : ThreadPool n F} {e : PoolEvent n F} (worker : Fin n)
    (pc : WorkerPc F) (mutex : Option (Fin n)) (hevent : e ≠ .stop)
    (hstarted : s.workers worker ≠ .unstarted)
    (hbefore : ∀ place f, s.workers worker ≠ .holding place (some f))
    (hafter : ∀ place task, pc ≠ .holding place task)
    (hpc : pc.isWaiting = false ∧ pc.isReturned = false) :
    Stepped s e { s.setWorker worker pc with m_mutex := mutex } := by
  apply Stepped.move worker pc mutex hevent hstarted hbefore hafter
  simp [hpc]

theorem stepped_of_step {s t : ThreadPool n F} {e : PoolEvent n F} (hstep : s.step e = some t) :
    Stepped s e t := by
  cases e with
  | start =>
    simp only [ThreadPool.step, Option.ite_none_left_eq_some, Bool.not_eq_true,
      Option.some.injEq] at hstep
    exact hstep.2 ▸ .start hstep.1
  | addThreadFuncQueue task woken =>
    simp only [ThreadPool.step, Option.ite_none_right_eq_some, Option.some.injEq] at hstep
    exact hstep.2 ▸ .addThreadFuncQueue hstep.1.2
  | stop =>
    simp only [ThreadPool.step, Option.ite_none_right_eq_some, Option.some.injEq] at hstep
    exact hstep.2 ▸ .stop
  | test worker =>
    simp only [ThreadPool.step] at hstep
    split at hstep
    · rename_i hpc
      cases hstep
      exact stepped_test hpc
    · cases hstep
  | initCallback worker =>
    simp only [ThreadPool.step] at hstep
    split at hstep
    · rename_i hpc
      cases hstep
      exact .advance worker .locking s.m_mutex (by simp) (by simp [hpc]) (by simp [hpc])
        (by simp) ⟨rfl, rfl⟩
    · cases hstep
  | lock worker =>
    simp only [ThreadPool.step] at hstep
    split at hstep
    · rename_i hpc hmutex
      cases hstep
      exact .advance worker .testing _ (by simp) (by simp [hpc]) (by simp [hpc]) (by simp)
        ⟨rfl, rfl⟩
    · rename_i hpc hmutex
      cases hstep
      exact .advance worker .testing _ (by simp) (by simp [hpc]) (by simp [hpc]) (by simp)
        ⟨rfl, rfl⟩
    · cases hstep
  | wake worker =>
    simp only [ThreadPool.step] at hstep
    split at hstep
    · rename_i hpc
      cases hstep
      exact .advance worker .notified s.m_mutex (by simp) (by simp [hpc]) (by simp [hpc])
        (by simp) ⟨rfl, rfl⟩
    · cases hstep
  | run worker =>
    simp only [ThreadPool.step] at hstep
    split at hstep
    · rename_i hpc
      cases hstep
      exact .run hpc
    · rename_i hpc
      cases hstep
      exact .advance worker .locking s.m_mutex (by simp) (by simp [hpc]) (by simp [hpc])
        (by simp) ⟨rfl, rfl⟩
    · cases hstep
  | finish worker =>
    simp only [ThreadPool.step] at hstep
    split at hstep
    · rename_i hpc
      cases hstep
      exact .advance worker .locking s.m_mutex (by simp) (by simp [hpc]) (by simp [hpc])
        (by simp) ⟨rfl, rfl⟩
    · cases hstep

/-! ### The invariant -/

/-- What holds of the tasks and the workers in every state. -/
structure Inv (s : ThreadPool n F) : Prop where
  order : s.popped.map Prod.snd ++ s.m_funcDeque = s.added
  fresh : s.started = false → ∀ worker, s.workers worker = .unstarted
  /-- A worker with a task in hand is the one that popped it, and has not run it. -/
  holding : ∀ worker place task, s.workers worker = .holding place task →
    s.popped[place]? = some (worker, task) ∧ place ∉ s.ran.map Prod.snd
  /-- A task that ran was popped by the worker that ran it. -/
  ran : ∀ worker place, (worker, place) ∈ s.ran →
    ∃ f, s.popped[place]? = some (worker, some f)
  once : (s.ran.map Prod.snd).Nodup
  /-- A popped task has run, or its worker has it in hand. -/
  popped : ∀ worker place f, s.popped[place]? = some (worker, some f) →
    (worker, place) ∈ s.ran ∨ s.workers worker = .holding place (some f)
  awake : s.m_funcDeque ≠ [] → ∃ worker, (s.workers worker).isWaiting = false

theorem new_inv (n : Nat) (F : Type) : Inv (new n F) where
  order := rfl
  fresh _ _ := rfl
  holding worker place task h := by simp [new] at h
  ran worker place h := by simp [new] at h
  once := List.nodup_nil
  popped worker place f h := by simp [new] at h
  awake h := absurd rfl h

/-- One worker moves, with no task in hand before or after. -/
theorem Inv.move {s : ThreadPool n F} (hs : Inv s) (worker : Fin n) (pc : WorkerPc F)
    (mutex : Option (Fin n)) (hstarted : s.workers worker ≠ .unstarted)
    (hbefore : ∀ place f, s.workers worker ≠ .holding place (some f))
    (hafter : ∀ place task, pc ≠ .holding place task)
    (hwait : pc.isWaiting = true → s.m_funcDeque = []) :
    Inv { s.setWorker worker pc with m_mutex := mutex } where
  order := hs.order
  fresh h := absurd (hs.fresh h worker) hstarted
  holding w place task h := by
    simp only [setWorker] at h
    by_cases hw : w = worker
    · subst hw
      rw [Function.update_self] at h
      exact absurd h (hafter place task)
    · rw [Function.update_of_ne hw] at h
      exact hs.holding w place task h
  ran := hs.ran
  once := hs.once
  popped w place f h := by
    rcases hs.popped w place f h with hran | hheld
    · exact Or.inl hran
    · have hw : w ≠ worker := fun hw => hbefore place f (hw ▸ hheld)
      exact Or.inr (by simpa only [setWorker, Function.update_of_ne hw] using hheld)
  awake h := by
    have hawake : pc.isWaiting = false := by
      by_contra hwaits
      exact h (hwait (by simpa using hwaits))
    exact ⟨worker, by simpa only [setWorker, Function.update_self] using hawake⟩

theorem Inv.start {s : ThreadPool n F} (hn : 0 < n) (hs : Inv s) (hfresh : s.started = false) :
    Inv { s with m_running := true, workers := fun _ => .starting, started := true } where
  order := hs.order
  fresh h := by simp at h
  holding worker place task h := by simp at h
  ran := hs.ran
  once := hs.once
  popped worker place f h := by
    rcases hs.popped worker place f h with hran | hheld
    · exact Or.inl hran
    · simp [hs.fresh hfresh worker] at hheld
  awake _ := ⟨⟨0, hn⟩, rfl⟩

theorem notify_holding {pc : WorkerPc F} {place : Nat} {task : Option F} :
    pc.notify = .holding place task ↔ pc = .holding place task := by
  cases pc <;> simp [WorkerPc.notify]

theorem notify_isReturned {pc : WorkerPc F} : pc.notify.isReturned = pc.isReturned := by
  cases pc <;> rfl

theorem Inv.stop {s : ThreadPool n F} (hn : 0 < n) (hs : Inv s) : Inv s.stop where
  order := hs.order
  fresh h worker := by simp [ThreadPool.stop, hs.fresh h worker, WorkerPc.notify]
  holding worker place task h := hs.holding worker place task (notify_holding.mp h)
  ran := hs.ran
  once := hs.once
  popped worker place f h := (hs.popped worker place f h).imp id notify_holding.mpr
  awake _ := by
    refine ⟨⟨0, hn⟩, ?_⟩
    simp only [ThreadPool.stop]
    cases s.workers ⟨0, hn⟩ <;> rfl

theorem Inv.push {s : ThreadPool n F} (hs : Inv s) (task : Option F)
    (hawake : ∃ worker, (s.workers worker).isWaiting = false) :
    Inv { s with m_funcDeque := s.m_funcDeque ++ [task], added := s.added ++ [task] } where
  order := by rw [← hs.order, List.append_assoc]
  fresh := hs.fresh
  holding := hs.holding
  ran := hs.ran
  once := hs.once
  popped := hs.popped
  awake _ := hawake

/-- `notify_one` after the push: if no worker is woken, none was waiting. -/
theorem Inv.addThreadFuncQueue {s : ThreadPool n F} (hn : 0 < n) (hs : Inv s)
    {task : Option F} {woken : Option (Fin n)} (hnotify : s.canNotify woken = true) :
    Inv (s.addThreadFuncQueue task woken) := by
  cases woken with
  | none =>
    simp only [canNotify, List.all_eq_true, List.mem_finRange, true_implies,
      Bool.not_eq_true'] at hnotify
    exact hs.push task ⟨⟨0, hn⟩, hnotify ⟨0, hn⟩⟩
  | some worker =>
    have hwaiting : s.workers worker = .waiting := by
      simp only [canNotify] at hnotify
      cases hpc : s.workers worker <;> simp [hpc, WorkerPc.isWaiting] at hnotify
      rfl
    have hmoved := hs.move worker .notified s.m_mutex (by simp [hwaiting]) (by simp [hwaiting])
      (by simp) (by simp [WorkerPc.isWaiting])
    refine hmoved.push task ⟨worker, ?_⟩
    simp [setWorker, WorkerPc.isWaiting]

theorem Inv.pop {s : ThreadPool n F} (hs : Inv s) {worker : Fin n} {task : Option F}
    {rest : List (Option F)} (hpc : s.workers worker = .testing)
    (hdeque : s.m_funcDeque = task :: rest) :
    Inv { s.setWorker worker (.holding s.popped.length task) with
      m_mutex := none
      m_funcDeque := rest
      popped := s.popped ++ [(worker, task)] } where
  order := by
    have horder := hs.order
    rw [hdeque] at horder
    simpa [setWorker] using horder
  fresh h := by
    have hun := hs.fresh h worker
    simp [hpc] at hun
  holding w place t h := by
    by_cases hw : w = worker
    · subst hw
      simp only [setWorker, Function.update_self, WorkerPc.holding.injEq] at h
      rcases h with ⟨hplace, ht⟩
      subst hplace ht
      refine ⟨by simp, ?_⟩
      -- the tasks that ran were popped before
      intro hmem
      obtain ⟨⟨v, place⟩, hran, hplace⟩ := List.mem_map.mp hmem
      obtain ⟨f, hf⟩ := hs.ran v place hran
      have hlt := (List.getElem?_eq_some_iff.mp hf).1
      simp only at hplace
      omega
    · simp only [setWorker, Function.update_of_ne hw] at h
      obtain ⟨hpopped, hnot⟩ := hs.holding w place t h
      have hlt := (List.getElem?_eq_some_iff.mp hpopped).1
      exact ⟨by rw [List.getElem?_append_left hlt, hpopped], hnot⟩
  ran w place h := by
    obtain ⟨f, hf⟩ := hs.ran w place h
    have hlt := (List.getElem?_eq_some_iff.mp hf).1
    exact ⟨f, by rw [List.getElem?_append_left hlt, hf]⟩
  once := hs.once
  popped w place f h := by
    by_cases hlt : place < s.popped.length
    · rw [List.getElem?_append_left hlt] at h
      rcases hs.popped w place f h with hran | hheld
      · exact Or.inl hran
      · have hw : w ≠ worker := by
          intro hw
          rw [hw, hpc] at hheld
          simp at hheld
        exact Or.inr (by simpa only [setWorker, Function.update_of_ne hw] using hheld)
    · have hplace : place = s.popped.length := by
        have hbound := (List.getElem?_eq_some_iff.mp h).1
        simp only [List.length_append, List.length_singleton] at hbound
        omega
      subst hplace
      simp only [List.getElem?_concat_length, Option.some.injEq, Prod.mk.injEq] at h
      rcases h with ⟨hw, htask⟩
      subst hw htask
      exact Or.inr (by simp only [setWorker, Function.update_self])
  awake _ := ⟨worker, by simp [setWorker, WorkerPc.isWaiting]⟩

theorem Inv.run {s : ThreadPool n F} (hs : Inv s) {worker : Fin n} {place : Nat} {f : F}
    (hpc : s.workers worker = .holding place (some f)) :
    Inv { s.setWorker worker (.running place) with ran := s.ran ++ [(worker, place)] } where
  order := hs.order
  fresh h := by
    have hun := hs.fresh h worker
    simp [hpc] at hun
  holding w k task h := by
    by_cases hw : w = worker
    · subst hw
      simp [setWorker] at h
    · simp only [setWorker, Function.update_of_ne hw] at h
      obtain ⟨hpopped, hnot⟩ := hs.holding w k task h
      refine ⟨hpopped, ?_⟩
      -- two workers hold tasks of different places
      have hne : k ≠ place := by
        intro hk
        have hother := (hs.holding worker place (some f) hpc).1
        rw [← hk, hpopped] at hother
        simp only [Option.some.injEq, Prod.mk.injEq] at hother
        exact hw hother.1
      simp only [List.map_append, List.mem_append, not_or]
      exact ⟨hnot, by simpa using hne⟩
  ran w k h := by
    rcases List.mem_append.mp h with hold | hnew
    · exact hs.ran w k hold
    · simp only [List.mem_singleton, Prod.mk.injEq] at hnew
      rcases hnew with ⟨hw, hk⟩
      subst hw hk
      exact ⟨f, (hs.holding w k (some f) hpc).1⟩
  once := by
    rw [List.map_append]
    apply hs.once.append (List.nodup_singleton _)
    intro k hk hnew
    have hplace : k = place := by simpa using hnew
    exact (hs.holding worker place (some f) hpc).2 (hplace ▸ hk)
  popped w k g h := by
    rcases hs.popped w k g h with hran | hheld
    · exact Or.inl (List.mem_append_left _ hran)
    · by_cases hw : w = worker
      · subst hw
        rw [hpc] at hheld
        simp only [WorkerPc.holding.injEq] at hheld
        rw [← hheld.1]
        exact Or.inl (List.mem_append_right _ (List.mem_singleton_self _))
      · exact Or.inr (by simpa only [setWorker, Function.update_of_ne hw] using hheld)
  awake _ := ⟨worker, by simp [setWorker, WorkerPc.isWaiting]⟩

theorem Inv.step {s t : ThreadPool n F} {e : PoolEvent n F} (hn : 0 < n) (hs : Inv s)
    (hstep : s.step e = some t) : Inv t := by
  cases stepped_of_step hstep with
  | start hfresh => exact hs.start hn hfresh
  | addThreadFuncQueue hnotify => exact hs.addThreadFuncQueue hn hnotify
  | stop => exact hs.stop hn
  | move worker pc mutex _ hstarted hbefore hafter hempty =>
    exact hs.move worker pc mutex hstarted hbefore hafter fun hwait => hempty (Or.inl hwait)
  | pop hpc hdeque => exact hs.pop hpc hdeque
  | run hpc => exact hs.run hpc

/-- When all workers have returned, the tasks popped have run. -/
theorem Inv.count_of_popped {s : ThreadPool n F} (hs : Inv s)
    (hreturned : ∀ worker, (s.workers worker).isReturned = true) {place : Nat} {f : F}
    (hlt : place < s.popped.length) (hadded : s.added[place]? = some (some f)) :
    (s.ran.map Prod.snd).count place = 1 := by
  have hpopped : s.popped[place]? = some (s.popped[place].1, some f) := by
    have hsnd : (s.popped.map Prod.snd)[place]? = some (some f) := by
      rw [← hs.order, List.getElem?_append_left (by simpa using hlt)] at hadded
      exact hadded
    rw [List.getElem?_map, List.getElem?_eq_getElem hlt, Option.map_some,
      Option.some.injEq] at hsnd
    rw [List.getElem?_eq_getElem hlt, ← hsnd]
  rcases hs.popped _ place f hpopped with hran | hheld
  · exact List.count_eq_one_of_mem hs.once (List.mem_map.mpr ⟨_, hran, rfl⟩)
  · have hself := hreturned s.popped[place].1
    simp [hheld, WorkerPc.isReturned] at hself

/-! ### When all workers have returned -/

theorem isReturned_setWorker {s : ThreadPool n F} {worker : Fin n} {pc : WorkerPc F}
    (hreturned : ∀ w, ((s.setWorker worker pc).workers w).isReturned = true) :
    pc.isReturned = true := by
  have hself := hreturned worker
  simpa only [setWorker, Function.update_self] using hself

/-- What a step can be that leaves all workers returned. -/
inductive LastStepped (s : ThreadPool n F) : PoolEvent n F → ThreadPool n F → Prop where
  | returns {e : PoolEvent n F} {t : ThreadPool n F} (hempty : t.m_funcDeque = []) :
      LastStepped s e t
  | addThreadFuncQueue {task : Option F}
      (hreturned : ∀ worker, (s.workers worker).isReturned = true) :
      LastStepped s (.addThreadFuncQueue task none) (s.addThreadFuncQueue task none)
  | stop (hreturned : ∀ worker, (s.workers worker).isReturned = true) : LastStepped s .stop s.stop

theorem lastStepped_of_step {s t : ThreadPool n F} {e : PoolEvent n F} (hn : 0 < n)
    (hstep : s.step e = some t) (hreturned : ∀ worker, (t.workers worker).isReturned = true) :
    LastStepped s e t := by
  cases stepped_of_step hstep with
  | start => cases hreturned ⟨0, hn⟩
  | @addThreadFuncQueue task woken =>
    cases woken with
    | none => exact .addThreadFuncQueue hreturned
    | some worker =>
      have hwoken : (WorkerPc.notified : WorkerPc F).isReturned = true :=
        isReturned_setWorker (s := s) hreturned
      cases hwoken
  | stop =>
    refine .stop fun worker => ?_
    rw [← notify_isReturned]
    exact hreturned worker
  | move worker pc mutex _ _ _ _ hempty =>
    exact .returns (hempty (Or.inr (isReturned_setWorker hreturned)))
  | pop => cases isReturned_setWorker hreturned
  | run => cases isReturned_setWorker hreturned

/-- The tasks are the first ones added, and popped when all workers have returned. -/
structure Drains (tasks : List (Option F)) (s : ThreadPool n F) : Prop where
  first : tasks <+: s.added
  popped : (∀ worker, (s.workers worker).isReturned = true) → tasks.length ≤ s.popped.length

theorem added_prefix_of_step {s t : ThreadPool n F} {e : PoolEvent n F}
    (hstep : s.step e = some t) : s.added <+: t.added := by
  cases stepped_of_step hstep with
  | addThreadFuncQueue => exact List.prefix_append _ _
  | _ => exact List.prefix_rfl

theorem Drains.step {tasks : List (Option F)} {s t : ThreadPool n F} {e : PoolEvent n F}
    (hn : 0 < n) (hs : Inv s) (h : Drains tasks s) (hstep : s.step e = some t) :
    Drains tasks t := by
  have hfirst := h.first.trans (added_prefix_of_step hstep)
  refine ⟨hfirst, fun hreturned => ?_⟩
  cases lastStepped_of_step hn hstep hreturned with
  | returns hempty =>
    have horder := congrArg List.length (hs.step hn hstep).order
    rw [hempty, List.append_nil, List.length_map] at horder
    rw [horder]
    exact hfirst.length_le
  | addThreadFuncQueue hbefore => exact h.popped hbefore
  | stop hbefore => exact h.popped hbefore

end ThreadPool

/-! ### Exactly once, and all of them -/

section Drain

open ThreadPool

variable {n : Nat} {F : Type}

/-- **A pool runs every task once and drains when it is stopped.**  In every run of a pool
    of at least one worker:

    * the tasks popped, followed by the deque, are the tasks added, in order, and a popped
      task is run at most once, by the worker that popped it;
    * with a task in the deque some worker is not waiting, or has been woken;
    * when all workers have returned, every task that was added before a `stop()` acquired
      the mutex has been run exactly once, if some worker had not returned then. -/
theorem thread_pool_drains (hn : 0 < n) {s : ThreadPool n F} {es : List (PoolEvent n F)}
    (hrun : Run ThreadPool.step (ThreadPool.new n F) es s) :
    (s.popped.map Prod.snd ++ s.m_funcDeque = s.added ∧
      (s.ran.map Prod.snd).Nodup ∧
      ∀ worker place, (worker, place) ∈ s.ran →
        ∃ f, s.popped[place]? = some (worker, some f)) ∧
    (s.m_funcDeque ≠ [] → ∃ worker, (s.workers worker).isWaiting = false) ∧
    ((∀ worker, (s.workers worker).isReturned = true) →
      ∀ before after r, es = before ++ .stop :: after →
        Run ThreadPool.step (ThreadPool.new n F) before r →
        (∃ worker, (r.workers worker).isReturned = false) →
        ∀ place f, r.added[place]? = some (some f) →
          s.added[place]? = some (some f) ∧ (s.ran.map Prod.snd).count place = 1) := by
  have hstart : Inv (ThreadPool.new n F) := new_inv n F
  have hinv : Inv s := hrun.invariant (fun _ _ _ hs hstep => hs.step hn hstep) hstart
  refine ⟨⟨hinv.order, hinv.once, hinv.ran⟩, hinv.awake, ?_⟩
  intro hreturned before after r hes hbefore hworking place f hadded
  subst hes
  obtain ⟨u, hu, hrest⟩ := hrun.split
  obtain rfl : r = u := Option.some.inj (hbefore.symm.trans hu)
  have hr : Inv r := hbefore.invariant (fun _ _ _ hs hstep => hs.step hn hstep) hstart
  have hopen : Drains r.added r := by
    refine ⟨List.prefix_rfl, fun hall => ?_⟩
    obtain ⟨worker, hworker⟩ := hworking
    rw [hall worker] at hworker
    cases hworker
  have hdrains : Inv s ∧ Drains r.added s :=
    hrest.invariant (I := fun t => Inv t ∧ Drains r.added t)
      (fun _ _ _ ht hstep => ⟨ht.1.step hn hstep, ht.2.step hn ht.1 hstep⟩) ⟨hr, hopen⟩
  have hplace : place < r.added.length := (List.getElem?_eq_some_iff.mp hadded).1
  have hkept : s.added[place]? = some (some f) := by
    rw [← hadded]
    exact (List.prefix_iff_getElem?.mp hdrains.2.first place hplace).trans
      (List.getElem?_eq_getElem hplace).symm
  exact ⟨hkept, hinv.count_of_popped hreturned
    (Nat.lt_of_lt_of_le hplace (hdrains.2.popped hreturned)) hkept⟩

/-- The second worker finds nothing to do, and the first one runs the task. -/
def oneTaskRun : List (PoolEvent 2 Nat) :=
  [.initCallback 0, .lock 0, .test 0, .initCallback 1, .lock 1, .test 1, .run 0, .finish 0,
    .lock 0, .test 0]

theorem thread_pool_drains_one_task :
    ∃ s : ThreadPool 2 Nat,
      Run ThreadPool.step (ThreadPool.new 2 Nat)
        ([.start, .addThreadFuncQueue (some 7) none] ++ .stop :: oneTaskRun) s ∧
      s.added[0]? = some (some 7) ∧ (s.ran.map Prod.snd).count 0 = 1 := by
  obtain ⟨s, hrun, hends⟩ := exists_run ThreadPool.step (ThreadPool.new 2 Nat)
    ([.start, .addThreadFuncQueue (some 7) none] ++ .stop :: oneTaskRun)
    (fun s => (s.workers 0, s.workers 1)) (.returned, .returned) rfl
  simp only [Prod.mk.injEq] at hends
  refine ⟨s, hrun, ?_⟩
  refine (thread_pool_drains (by decide) hrun).2.2 ?_ _ _ _ rfl rfl ⟨0, rfl⟩ 0 7 rfl
  rw [Fin.forall_fin_two, hends.1, hends.2]
  exact ⟨rfl, rfl⟩

/-- The only worker has returned after a `stop()` when a task is added, and the `stop()` of the
    destructor finds it in the deque. -/
theorem late_stop_finds_task :
    ∃ r s : ThreadPool 1 Nat,
      Run ThreadPool.step (ThreadPool.new 1 Nat)
        [.start, .stop, .initCallback 0, .lock 0, .test 0, .addThreadFuncQueue (some 7) none] r ∧
      r.step .stop = some s ∧ (∀ worker, (s.workers worker).isReturned = true) ∧
      r.added[0]? = some (some 7) ∧ (s.ran.map Prod.snd).count 0 ≠ 1 := by
  refine ⟨_, _, rfl, rfl, fun worker => ?_, rfl, by decide⟩
  rw [Subsingleton.elim worker 0]
  rfl

end Drain

end Muduo
