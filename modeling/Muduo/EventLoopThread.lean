import Muduo.Transitions

/-!
# `EventLoopThread`

`startLoop`, the destructor and `threadFunc` of `EventLoopThread.cpp`, with `Thread::start`
and `Thread::join`, in the steps that the two threads take between each other.  `loop_` is
set while the loop of the thread can be used: `startLoop` waits until it is set, and the
destructor takes it for a sign that the thread has to be joined.

A loop that quits by itself clears `loop_` again.  If it does so before `startLoop` has
looked, the owner waits for a notification that has been; and the destructor, which looks
without the mutex, can find `loop_` cleared by a thread that still holds it.
-/

namespace Muduo

open Transitions

/-- Where the owner is. -/
inductive OwnerPc where
  | constructed
  | starting       -- in `Thread::start`, at its `sem_wait`
  | locking
  | testing        -- with the mutex, at `while (loop_ == nullptr)`
  | waiting        -- in `cond_.wait`
  | notified       -- woken, and about to lock again
  | started        -- `startLoop` has returned
  | destroying     -- in the destructor, at `if (loop_ != nullptr)`
  | quitting       -- `loop_->quit()` is next
  | joining
  | freeing        -- the destructors of the members
  | destroyed
deriving DecidableEq, Repr

/-- Where the thread is in `threadFunc`. -/
inductive LoopThreadPc where
  | unstarted
  | posting        -- in the lambda of `Thread::start`, before `sem_post`
  | initializing   -- the `EventLoop` and `callback_`
  | locking
  | publishing     -- with the mutex, `loop_ = &loop` is next
  | notifying
  | unlocking
  | entering       -- `loop.loop()` is called
  | looping
  | relocking      -- `loop()` has returned
  | clearing       -- with the mutex, `loop_ = nullptr` is next
  | returning      -- the unlock is next
  | finished
deriving DecidableEq, Repr

inductive HandshakeSide where
  | owner
  | thread
deriving DecidableEq, Repr

structure EventLoopThread where
  exite_ : Bool
  /-- Whether `loop_` is set. -/
  loop_ : Bool
  /-- Who holds `mutex_`. -/
  mutex_ : Option HandshakeSide
  /-- `quit_` of the thread's `EventLoop`. -/
  quit_ : Bool
  /-- `Thread::started_`, `Thread::joined_` and whether `~Thread` detached the thread. -/
  started_ : Bool
  joined_ : Bool
  detached : Bool
  owner : OwnerPc
  thread : LoopThreadPc
deriving DecidableEq

inductive HandshakeEvent where
  /-- The next step of the owner. -/
  | owner
  /-- The next step of `threadFunc`. -/
  | thread
  /-- The owner calls the destructor. -/
  | destroy
  /-- `cond_.wait` returns without a notification. -/
  | wake
  /-- The loop quits by itself. -/
  | quitItself
deriving DecidableEq, Repr

namespace EventLoopThread

def new : EventLoopThread where
  exite_ := false
  loop_ := false
  mutex_ := none
  quit_ := false
  started_ := false
  joined_ := false
  detached := false
  owner := .constructed
  thread := .unstarted

/-- The next step of the owner, if it is not blocked. -/
def stepOwner (s : EventLoopThread) : Option EventLoopThread :=
  match s.owner with
  | .constructed => some { s with owner := .starting, thread := .posting, started_ := true }
  | .starting =>
    if s.thread = .unstarted ∨ s.thread = .posting then none else some { s with owner := .locking }
  | .locking | .notified =>
    if s.mutex_ = none then some { s with owner := .testing, mutex_ := some .owner } else none
  | .testing =>
    some { s with owner := if s.loop_ then .started else .waiting, mutex_ := none }
  | .destroying => some { s with owner := if s.loop_ then .quitting else .freeing }
  -- with `loop_` cleared since the test the call is made through a null pointer
  | .quitting => if s.loop_ then some { s with owner := .joining, quit_ := true } else none
  | .joining =>
    if s.thread = .finished then some { s with owner := .freeing, joined_ := true } else none
  | .freeing => some { s with owner := .destroyed, detached := s.started_ && !s.joined_ }
  | .waiting | .started | .destroyed => none

/-- The next step of `threadFunc`, if it is not blocked. -/
def stepThread (s : EventLoopThread) : Option EventLoopThread :=
  match s.thread with
  | .posting => some { s with thread := .initializing }
  | .initializing => some { s with thread := .locking }
  | .locking =>
    if s.mutex_ = none then some { s with thread := .publishing, mutex_ := some .thread } else none
  | .publishing => some { s with thread := .notifying, loop_ := true }
  | .notifying =>
    some { s with
      thread := .unlocking
      owner := if s.owner = .waiting then .notified else s.owner }
  | .unlocking => some { s with thread := .entering, mutex_ := none }
  | .entering => some { s with thread := .looping, quit_ := false }
  | .looping => if s.quit_ then some { s with thread := .relocking } else none
  | .relocking =>
    if s.mutex_ = none then some { s with thread := .clearing, mutex_ := some .thread } else none
  | .clearing => some { s with thread := .returning, loop_ := false }
  | .returning => some { s with thread := .finished, mutex_ := none }
  | .unstarted | .finished => none

def step (s : EventLoopThread) : HandshakeEvent → Option EventLoopThread
  | .owner => s.stepOwner
  | .thread => s.stepThread
  | .destroy =>
    if s.owner = .constructed ∨ s.owner = .started then
      some { s with owner := .destroying, exite_ := true }
    else
      none
  | .wake => if s.owner = .waiting then some { s with owner := .notified } else none
  | .quitItself => if s.thread = .looping then some { s with quit_ := true } else none

/-! ### The law and the condition -/

/-- `startLoop` waits for a thread that will not notify it any more. -/
def Stranded (s : EventLoopThread) : Prop :=
  s.owner = .waiting ∧ s.loop_ = false ∧ s.thread = .finished

/-- The owner is not stranded, and a destructor that has completed leaves no step of
    `threadFunc` behind. -/
def Handshakes (s : EventLoopThread) : Prop :=
  ¬ s.Stranded ∧ (s.owner = .destroyed → s.thread = .finished ∨ s.thread = .unstarted)

/-- `startLoop` has returned, or the destructor is running without it. -/
def pastWait : OwnerPc → Bool
  | .started | .destroying | .quitting | .joining | .freeing | .destroyed => true
  | _ => false

/-- A step comes when the other side is ready for it: the thread clears `loop_` when
    `startLoop` has returned, and the destructor does not look at `loop_` between that and
    the unlock. -/
def Timely (s : EventLoopThread) : HandshakeEvent → Prop
  | .thread => s.thread = .clearing → pastWait s.owner = true
  | .owner => s.owner = .destroying → s.thread ≠ .returning
  | _ => True

instance (s : EventLoopThread) : DecidablePred (Timely s)
  | .thread => inferInstanceAs (Decidable (s.thread = .clearing → pastWait s.owner = true))
  | .owner => inferInstanceAs (Decidable (s.owner = .destroying → s.thread ≠ .returning))
  | .destroy | .wake | .quitItself => inferInstanceAs (Decidable True)

/-! ### What a step can do -/

/-- Whether `loop_` is set where the thread is. -/
def hasLoop : LoopThreadPc → Bool
  | .notifying | .unlocking | .entering | .looping | .relocking | .clearing => true
  | _ => false

/-- Whether the thread has cleared `loop_` again. -/
def cleared : LoopThreadPc → Bool
  | .returning | .finished => true
  | _ => false

def running : LoopThreadPc → Bool
  | .unstarted | .finished => false
  | _ => true

/-- A step of the owner. -/
inductive OwnerStepped (s : EventLoopThread) : EventLoopThread → Prop where
  | start (hpc : s.owner = .constructed) :
      OwnerStepped s { s with owner := .starting, thread := .posting, started_ := true }
  | approach {pc : OwnerPc} {mutex : Option HandshakeSide} (hfrom : pastWait s.owner = false)
      (hto : pastWait pc = false) (hpc : pc ≠ .constructed) :
      OwnerStepped s { s with owner := pc, mutex_ := mutex }
  | returns (hpc : s.owner = .testing) (hloop : s.loop_ = true) :
      OwnerStepped s { s with owner := .started, mutex_ := none }
  | destroyQuit (hpc : s.owner = .destroying) (hloop : s.loop_ = true) :
      OwnerStepped s { s with owner := .quitting }
  | destroyFree (hpc : s.owner = .destroying) (hloop : s.loop_ = false) :
      OwnerStepped s { s with owner := .freeing }
  | quit (hpc : s.owner = .quitting) :
      OwnerStepped s { s with owner := .joining, quit_ := true }
  | join (hpc : s.owner = .joining) (hthread : s.thread = .finished) :
      OwnerStepped s { s with owner := .freeing, joined_ := true }
  | free (hpc : s.owner = .freeing) :
      OwnerStepped s { s with owner := .destroyed, detached := s.started_ && !s.joined_ }

theorem ownerStepped_of_stepOwner {s t : EventLoopThread} (h : s.stepOwner = some t) :
    OwnerStepped s t := by
  unfold stepOwner at h
  cases hpc : s.owner <;> simp only [hpc] at h
  case constructed =>
    cases h
    exact .start hpc
  case starting =>
    split at h
    · cases h
    · cases h
      exact .approach (by rw [hpc]; rfl) rfl (by decide)
  case locking | notified =>
    split at h
    · cases h
      exact .approach (by rw [hpc]; rfl) rfl (by decide)
    · cases h
  case testing =>
    cases hloop : s.loop_ with
    | true =>
      rw [if_pos hloop] at h
      cases h
      exact .returns hpc hloop
    | false =>
      rw [if_neg (by rw [hloop]; decide)] at h
      cases h
      exact .approach (by rw [hpc]; rfl) rfl (by decide)
  case destroying =>
    cases hloop : s.loop_ with
    | true =>
      rw [if_pos hloop] at h
      cases h
      exact .destroyQuit hpc hloop
    | false =>
      rw [if_neg (by rw [hloop]; decide)] at h
      cases h
      exact .destroyFree hpc hloop
  case quitting =>
    split at h
    · cases h
      exact .quit hpc
    · cases h
  case joining =>
    split at h
    · rename_i hthread
      cases h
      exact .join hpc hthread
    · cases h
  case freeing =>
    cases h
    exact .free hpc
  case waiting | started | destroyed => cases h

/-- A step of `threadFunc`. -/
inductive ThreadStepped (s : EventLoopThread) : EventLoopThread → Prop where
  | advance {pc : LoopThreadPc} {mutex : Option HandshakeSide} {quit : Bool}
      (hrunning : running s.thread = true) (hpc : pc ≠ .unstarted)
      (hloop : hasLoop pc = hasLoop s.thread) (hcleared : cleared pc = cleared s.thread) :
      ThreadStepped s { s with thread := pc, mutex_ := mutex, quit_ := quit }
  | publish (hpc : s.thread = .publishing) :
      ThreadStepped s { s with thread := .notifying, loop_ := true }
  | notify (hpc : s.thread = .notifying) (hwaiting : s.owner = .waiting) :
      ThreadStepped s { s with thread := .unlocking, owner := .notified }
  | clear (hpc : s.thread = .clearing) :
      ThreadStepped s { s with thread := .returning, loop_ := false }

theorem threadStepped_of_stepThread {s t : EventLoopThread} (h : s.stepThread = some t) :
    ThreadStepped s t := by
  unfold stepThread at h
  cases hpc : s.thread <;> simp only [hpc] at h
  case posting | initializing | unlocking | entering | returning =>
    cases h
    exact .advance (by rw [hpc]; rfl) (by decide) (by rw [hpc]; rfl) (by rw [hpc]; rfl)
  case locking | looping | relocking =>
    split at h
    · cases h
      exact .advance (by rw [hpc]; rfl) (by decide) (by rw [hpc]; rfl) (by rw [hpc]; rfl)
    · cases h
  case publishing =>
    cases h
    exact .publish hpc
  case notifying =>
    split at h
    · rename_i hwaiting
      cases h
      exact .notify hpc hwaiting
    · cases h
      exact .advance (by rw [hpc]; rfl) (by decide) (by rw [hpc]; rfl) (by rw [hpc]; rfl)
  case clearing =>
    cases h
    exact .clear hpc
  case unstarted | finished => cases h

/-! ### Every run -/

/-- What `loop_` and the owner's place say of the thread, however the steps interleave. -/
structure Inv (s : EventLoopThread) : Prop where
  fresh : s.owner = .constructed → s.thread = .unstarted
  loop_eq : s.loop_ = hasLoop s.thread
  seen : pastWait s.owner = true →
    s.thread = .unstarted ∨ hasLoop s.thread = true ∨ cleared s.thread = true

theorem new_inv : Inv new where
  fresh _ := rfl
  loop_eq := rfl
  seen _ := Or.inl rfl

theorem unstarted_not_running {pc : LoopThreadPc} (h : running pc = true) : pc ≠ .unstarted := by
  rintro rfl
  cases h

theorem Inv.stepOwner {s t : EventLoopThread} (h : Inv s) (hstep : s.stepOwner = some t) :
    Inv t := by
  cases ownerStepped_of_stepOwner hstep with
  | start hpc =>
    refine ⟨fun hfresh => (by cases hfresh), ?_, fun hpast => (by cases hpast)⟩
    rw [h.loop_eq, h.fresh hpc]
    rfl
  | approach hfrom hto hpc =>
    refine ⟨fun hfresh => absurd hfresh hpc, h.loop_eq, ?_⟩
    intro hpast
    rw [hto] at hpast
    cases hpast
  | returns hpc hloop =>
    refine ⟨fun hfresh => (by cases hfresh), h.loop_eq, fun _ => Or.inr (Or.inl ?_)⟩
    rw [← h.loop_eq]
    exact hloop
  | destroyQuit hpc _ | destroyFree hpc _ | quit hpc | join hpc _ | free hpc =>
    exact ⟨fun hfresh => (by cases hfresh), h.loop_eq, fun _ => h.seen (by rw [hpc]; rfl)⟩

theorem Inv.stepThread {s t : EventLoopThread} (h : Inv s) (hstep : s.stepThread = some t) :
    Inv t := by
  cases threadStepped_of_stepThread hstep with
  | advance hrunning hpc hloop hcleared =>
    refine ⟨fun hfresh => ?_, ?_, fun hpast => ?_⟩
    · exact absurd (h.fresh hfresh) (unstarted_not_running hrunning)
    · rw [hloop]
      exact h.loop_eq
    · rw [hloop, hcleared]
      exact Or.inr ((h.seen hpast).resolve_left (unstarted_not_running hrunning))
  | publish hpc =>
    refine ⟨fun hfresh => ?_, rfl, fun _ => Or.inr (Or.inl rfl)⟩
    rw [h.fresh hfresh] at hpc
    cases hpc
  | notify hpc _ =>
    refine ⟨fun hfresh => (by cases hfresh), ?_, fun hpast => (by cases hpast)⟩
    rw [h.loop_eq, hpc]
    rfl
  | clear hpc =>
    refine ⟨fun hfresh => ?_, rfl, fun _ => Or.inr (Or.inr rfl)⟩
    rw [h.fresh hfresh] at hpc
    cases hpc

/-- The destructor is only called before `startLoop` or after it. -/
theorem Inv.destroy {s : EventLoopThread} (h : Inv s)
    (hpc : s.owner = .constructed ∨ s.owner = .started) :
    Inv { s with owner := .destroying, exite_ := true } := by
  refine ⟨fun hfresh => (by cases hfresh), h.loop_eq, fun _ => ?_⟩
  rcases hpc with hconstructed | hstarted
  · exact Or.inl (h.fresh hconstructed)
  · exact h.seen (by rw [hstarted]; rfl)

theorem Inv.step {s t : EventLoopThread} {e : HandshakeEvent} (h : Inv s)
    (hstep : EventLoopThread.step s e = some t) : Inv t := by
  cases e with
  | owner => exact h.stepOwner hstep
  | thread => exact h.stepThread hstep
  | destroy =>
    simp only [EventLoopThread.step, Option.ite_none_right_eq_some, Option.some.injEq] at hstep
    obtain ⟨hpc, rfl⟩ := hstep
    exact h.destroy hpc
  | wake =>
    simp only [EventLoopThread.step, Option.ite_none_right_eq_some, Option.some.injEq] at hstep
    obtain ⟨hpc, rfl⟩ := hstep
    exact ⟨fun hfresh => (by cases hfresh), h.loop_eq, fun hpast => (by cases hpast)⟩
  | quitItself =>
    simp only [EventLoopThread.step, Option.ite_none_right_eq_some, Option.some.injEq] at hstep
    obtain ⟨_, rfl⟩ := hstep
    exact ⟨h.fresh, h.loop_eq, h.seen⟩

theorem run_inv {s : EventLoopThread} {es : List HandshakeEvent} (hrun : Run step new es s) :
    Inv s :=
  hrun.invariant (fun _ _ _ h hstep => h.step hstep) new_inv

/-! ### Timely runs -/

/-- The destructor is past its `if`, and nothing keeps it from completing. -/
def freed : OwnerPc → Bool
  | .freeing | .destroyed => true
  | _ => false

/-- In a timely run `loop_` is cleared after `startLoop` has returned, and the destructor
    goes on to free the members with no thread there. -/
structure TimelyInv (s : EventLoopThread) : Prop extends Inv s where
  late : cleared s.thread = true → pastWait s.owner = true
  gone : freed s.owner = true → s.thread = .finished ∨ s.thread = .unstarted

theorem pastWait_of_freed {pc : OwnerPc} (h : freed pc = true) : pastWait pc = true := by
  cases pc <;> first | rfl | cases h

theorem TimelyInv.handshakes {s : EventLoopThread} (h : TimelyInv s) : Handshakes s := by
  refine ⟨?_, fun hdestroyed => h.gone (by rw [hdestroyed]; rfl)⟩
  rintro ⟨hwaiting, _, hfinished⟩
  have hpast := h.late (by rw [hfinished]; rfl)
  rw [hwaiting] at hpast
  cases hpast

theorem new_timelyInv : TimelyInv new where
  toInv := new_inv
  late hcleared := by cases hcleared
  gone hfreed := by cases hfreed

/-- A thread without `loop_` that a destructor finds has not started or is past its clearing. -/
theorem Inv.gone_of_unset {s : EventLoopThread} (h : Inv s) (hpast : pastWait s.owner = true)
    (hloop : s.loop_ = false) (hreturning : s.thread ≠ .returning) :
    s.thread = .finished ∨ s.thread = .unstarted := by
  have hnot := hloop
  rw [h.loop_eq] at hnot
  rcases h.seen hpast with hunstarted | hhas | hcleared
  · exact Or.inr hunstarted
  · rw [hnot] at hhas
    cases hhas
  · cases hpc : s.thread with
    | finished => exact Or.inl rfl
    | returning => exact absurd hpc hreturning
    | _ =>
      rw [hpc] at hcleared
      cases hcleared

theorem TimelyInv.stepOwner {s t : EventLoopThread} (h : TimelyInv s)
    (htimely : s.owner = .destroying → s.thread ≠ .returning) (hstep : s.stepOwner = some t) :
    TimelyInv t := by
  have hinv := h.toInv.stepOwner hstep
  cases ownerStepped_of_stepOwner hstep with
  | start hpc =>
    exact ⟨hinv, fun hcleared => (by cases hcleared), fun hfreed => (by cases hfreed)⟩
  | approach hfrom hto hpc =>
    refine ⟨hinv, fun hcleared => ?_, fun hfreed => ?_⟩
    · have hpast := h.late hcleared
      rw [hfrom] at hpast
      cases hpast
    · have hpast := pastWait_of_freed hfreed
      rw [hto] at hpast
      cases hpast
  | returns hpc _ | destroyQuit hpc _ | quit hpc =>
    exact ⟨hinv, fun _ => rfl, fun hfreed => (by cases hfreed)⟩
  | destroyFree hpc hloop =>
    refine ⟨hinv, fun _ => rfl, fun _ => ?_⟩
    exact h.gone_of_unset (by rw [hpc]; rfl) hloop (htimely hpc)
  | join hpc hthread => exact ⟨hinv, fun _ => rfl, fun _ => Or.inl hthread⟩
  | free hpc => exact ⟨hinv, fun _ => rfl, fun _ => h.gone (by rw [hpc]; rfl)⟩

theorem TimelyInv.stepThread {s t : EventLoopThread} (h : TimelyInv s)
    (htimely : s.thread = .clearing → pastWait s.owner = true) (hstep : s.stepThread = some t) :
    TimelyInv t := by
  have hinv := h.toInv.stepThread hstep
  cases threadStepped_of_stepThread hstep with
  | advance hrunning hpc hloop hcleared =>
    refine ⟨hinv, fun hc => h.late (hcleared ▸ hc), fun hfreed => ?_⟩
    rcases h.gone hfreed with hfinished | hunstarted
    · rw [hfinished] at hrunning
      cases hrunning
    · exact absurd hunstarted (unstarted_not_running hrunning)
  | publish hpc =>
    refine ⟨hinv, fun hcleared => (by cases hcleared), fun hfreed => ?_⟩
    rcases h.gone hfreed with hthread | hthread <;> (rw [hpc] at hthread; cases hthread)
  | notify hpc hwaiting =>
    exact ⟨hinv, fun hcleared => (by cases hcleared), fun hfreed => (by cases hfreed)⟩
  | clear hpc =>
    refine ⟨hinv, fun _ => htimely hpc, fun hfreed => ?_⟩
    rcases h.gone hfreed with hthread | hthread <;> (rw [hpc] at hthread; cases hthread)

theorem TimelyInv.step {s t : EventLoopThread} {e : HandshakeEvent} (h : TimelyInv s)
    (htimely : Timely s e) (hstep : EventLoopThread.step s e = some t) : TimelyInv t := by
  have hinv := h.toInv.step hstep
  cases e with
  | owner => exact h.stepOwner htimely hstep
  | thread => exact h.stepThread htimely hstep
  | destroy =>
    simp only [EventLoopThread.step, Option.ite_none_right_eq_some, Option.some.injEq] at hstep
    obtain ⟨_, rfl⟩ := hstep
    exact ⟨hinv, fun _ => rfl, fun hfreed => (by cases hfreed)⟩
  | wake =>
    simp only [EventLoopThread.step, Option.ite_none_right_eq_some, Option.some.injEq] at hstep
    obtain ⟨hpc, rfl⟩ := hstep
    refine ⟨hinv, fun hcleared => ?_, fun hfreed => (by cases hfreed)⟩
    have hpast := h.late hcleared
    rw [hpc] at hpast
    cases hpast
  | quitItself =>
    simp only [EventLoopThread.step, Option.ite_none_right_eq_some, Option.some.injEq] at hstep
    obtain ⟨_, rfl⟩ := hstep
    exact ⟨hinv, h.late, h.gone⟩

/-! ### Steps that are not timely -/

/-- The run can go on to a state that breaks the handshake. -/
def CanBreak (s : EventLoopThread) : Prop := CanReach step (fun t => ¬ Handshakes t) s

theorem Stranded.canBreak {s : EventLoopThread} (h : Stranded s) : CanBreak s :=
  CanReach.here fun hshakes => hshakes.1 h

/-- An owner that looks again after the thread has ended waits for good. -/
theorem canBreak_of_finished {s : EventLoopThread} (hthread : s.thread = .finished)
    (hmutex : s.mutex_ = none) (hloop : s.loop_ = false) (hpast : pastWait s.owner = false)
    (hstarted : s.owner ≠ .constructed) : CanBreak s := by
  have htesting : ∀ mutex, CanBreak { s with owner := .testing, mutex_ := mutex } := by
    intro mutex
    have hstranded : Stranded { s with owner := .waiting, mutex_ := none } :=
      ⟨rfl, hloop, hthread⟩
    apply CanReach.of_step (e := .owner) hstranded.canBreak
    simp [step, stepOwner, hloop]
  have hlocking : CanBreak { s with owner := .locking } := by
    apply CanReach.of_step (e := .owner) (htesting (some .owner))
    simp [step, stepOwner, hmutex]
  cases hpc : s.owner with
  | constructed => exact absurd hpc hstarted
  | starting =>
    apply CanReach.of_step (e := .owner) hlocking
    simp [step, stepOwner, hpc, hthread]
  | locking | notified =>
    apply CanReach.of_step (e := .owner) (htesting (some .owner))
    simp [step, stepOwner, hpc, hmutex]
  | testing =>
    have hsame := htesting s.mutex_
    rwa [← hpc] at hsame
  | waiting =>
    have hstranded : Stranded s := ⟨hpc, hloop, hthread⟩
    exact hstranded.canBreak
  | started | destroying | quitting | joining | freeing | destroyed =>
    rw [hpc] at hpast
    cases hpast

/-- The thread has cleared `loop_` before `startLoop` has returned. -/
theorem Inv.canBreak_of_clearing {s t : EventLoopThread} (h : Inv s) (hpc : s.thread = .clearing)
    (hpast : pastWait s.owner = false) (hstep : s.stepThread = some t) : CanBreak t := by
  have hstarted : s.owner ≠ .constructed := by
    intro hfresh
    rw [h.fresh hfresh] at hpc
    cases hpc
  simp only [EventLoopThread.stepThread, hpc, Option.some.injEq] at hstep
  subst hstep
  have hfinished : CanBreak { s with thread := .finished, loop_ := false, mutex_ := none } :=
    canBreak_of_finished rfl rfl rfl hpast hstarted
  exact CanReach.of_step (e := .thread) hfinished rfl

/-- The destructor has looked at `loop_` while the thread held the mutex for the last time. -/
theorem Inv.canBreak_of_destroying {s t : EventLoopThread} (h : Inv s)
    (hpc : s.owner = .destroying) (hthread : s.thread = .returning)
    (hstep : s.stepOwner = some t) : CanBreak t := by
  have hloop : s.loop_ = false := by
    rw [h.loop_eq, hthread]
    rfl
  simp only [EventLoopThread.stepOwner, hpc, hloop, Bool.false_eq_true, if_false,
    Option.some.injEq] at hstep
  subst hstep
  refine ⟨[.owner], _, Run.one rfl, ?_⟩
  rintro ⟨-, hgone⟩
  rcases hgone rfl with hfinished | hunstarted
  · rw [hthread] at hfinished
    cases hfinished
  · rw [hthread] at hunstarted
    cases hunstarted

theorem Inv.canBreak {s t : EventLoopThread} {e : HandshakeEvent} (h : Inv s)
    (hstep : EventLoopThread.step s e = some t) (htimely : ¬ Timely s e) : CanBreak t := by
  cases e with
  | thread =>
    obtain ⟨hpc, hpast⟩ := Classical.not_imp.mp htimely
    exact h.canBreak_of_clearing hpc (Bool.eq_false_iff.mpr hpast) hstep
  | owner =>
    obtain ⟨hpc, hreturning⟩ := Classical.not_imp.mp htimely
    exact h.canBreak_of_destroying hpc (Classical.not_not.mp hreturning) hstep
  | destroy | wake | quitItself => exact absurd trivial htimely

/-! ### What becomes of a stranded owner -/

/-- The owner is in its wait loop, and there is nothing left that could set `loop_`. -/
structure Overdue (s : EventLoopThread) : Prop where
  owner : s.owner = .testing ∨ s.owner = .waiting ∨ s.owner = .notified
  unset : s.loop_ = false
  thread : s.thread = .finished

theorem Stranded.overdue {s : EventLoopThread} (h : Stranded s) : Overdue s :=
  ⟨Or.inr (Or.inl h.1), h.2.1, h.2.2⟩

theorem Overdue.not_past {s : EventLoopThread} (h : Overdue s) : pastWait s.owner = false := by
  rcases h.owner with hpc | hpc | hpc
  all_goals
    rw [hpc]
    rfl

/-- `cond_.wait` may return by itself, but `startLoop` tests `loop_` and waits again. -/
theorem Overdue.step {s t : EventLoopThread} {e : HandshakeEvent} (h : Overdue s)
    (hstep : EventLoopThread.step s e = some t) : Overdue t := by
  cases e with
  | owner =>
    rcases h.owner with hpc | hpc | hpc
    · simp only [EventLoopThread.step, EventLoopThread.stepOwner, hpc, h.unset,
        Bool.false_eq_true, if_false, Option.some.injEq] at hstep
      subst hstep
      exact ⟨Or.inr (Or.inl rfl), rfl, h.thread⟩
    · simp [EventLoopThread.step, EventLoopThread.stepOwner, hpc] at hstep
    · simp only [EventLoopThread.step, EventLoopThread.stepOwner, hpc,
        Option.ite_none_right_eq_some, Option.some.injEq] at hstep
      obtain ⟨_, rfl⟩ := hstep
      exact ⟨Or.inl rfl, h.unset, h.thread⟩
  | thread => simp [EventLoopThread.step, EventLoopThread.stepThread, h.thread] at hstep
  | destroy =>
    have hpast := h.not_past
    simp only [EventLoopThread.step, Option.ite_none_right_eq_some, Option.some.injEq] at hstep
    obtain ⟨hpc, rfl⟩ := hstep
    rcases hpc with hconstructed | hstarted
    · rcases h.owner with hpc | hpc | hpc <;> (rw [hconstructed] at hpc; cases hpc)
    · rw [hstarted] at hpast
      cases hpast
  | wake =>
    simp only [EventLoopThread.step, Option.ite_none_right_eq_some, Option.some.injEq] at hstep
    obtain ⟨_, rfl⟩ := hstep
    exact ⟨Or.inr (Or.inr rfl), h.unset, h.thread⟩
  | quitItself => simp [EventLoopThread.step, h.thread] at hstep

/-- The `startLoop` of a stranded owner never returns. -/
theorem Stranded.never_returns {s t : EventLoopThread} {es : List HandshakeEvent}
    (h : Stranded s) (hrun : Run step s es t) : pastWait t.owner = false := by
  have hoverdue : Overdue t := hrun.invariant (fun _ _ _ h hstep => h.step hstep) h.overdue
  exact hoverdue.not_past

/-! ### The handshake -/

/-- A run whose steps are timely keeps the handshake, and whatever step is not timely can be
    followed by steps that break it. -/
theorem timely_handshakes {s : EventLoopThread} {es : List HandshakeEvent}
    (hrun : Run step new es s) :
    (Along step Timely new es → Always step Handshakes new es) ∧
      ∀ e t, step s e = some t → ¬ Timely s e → ∃ fs u, Run step t fs u ∧ ¬ Handshakes u := by
  constructor
  · intro halong
    have hinv : Always step TimelyInv new es :=
      always_of_along (fun _ _ _ h htimely hstep => h.step htimely hstep) new_timelyInv halong
    exact hinv.mono fun _ h => h.handshakes
  · intro e t hstep htimely
    exact (run_inv hrun).canBreak hstep htimely

/-- `startLoop`, and the thread in its loop. -/
def startedRun : List HandshakeEvent :=
  .owner :: List.replicate 7 .thread ++ List.replicate 3 .owner

/-- A loop that quits by itself after `startLoop`, and a destructor that finds it gone. -/
theorem timely_handshakes_quit :
    ∃ s, Run step new
        (startedRun ++ .quitItself :: List.replicate 4 .thread ++ [.destroy, .owner, .owner]) s ∧
      s.owner = .destroyed ∧ Always step Handshakes new
        (startedRun ++ .quitItself :: List.replicate 4 .thread ++ [.destroy, .owner, .owner]) := by
  obtain ⟨s, hrun, hpc⟩ := exists_run step new
    (startedRun ++ .quitItself :: List.replicate 4 .thread ++ [.destroy, .owner, .owner])
    EventLoopThread.owner .destroyed rfl
  exact ⟨s, hrun, hpc, (timely_handshakes hrun).1 (by decide)⟩

/-- The loop quits before `startLoop` has looked at `loop_`, and `startLoop` waits for good; or
    it quits after that, and the destructor completes before the thread has given back the
    mutex. -/
theorem self_quit_breaks_handshake :
    (∃ s, Run step new
        (.owner :: List.replicate 7 .thread ++ .quitItself :: List.replicate 4 .thread ++
          List.replicate 3 .owner) s ∧ Stranded s) ∧
      ∃ s, Run step new
        (startedRun ++ .quitItself :: List.replicate 3 .thread ++ [.destroy, .owner, .owner]) s ∧
        s.owner = .destroyed ∧ s.thread = .returning := by
  refine ⟨⟨_, rfl, ?_⟩, ⟨_, rfl, ?_⟩⟩
  · exact ⟨rfl, rfl, rfl⟩
  · exact ⟨rfl, rfl⟩

end EventLoopThread

end Muduo
