import Muduo.Basics
import Muduo.Transitions
import Mathlib.Logic.Function.Basic

/-!
# `EventLoop` and the threads that call it

`loop()`, `quit()`, `runInLoop`, `queueInLoop` and `doPendingFunctors` of `EventLoop.cpp`
in the steps that other threads can come between.  The loop's thread has a program
counter; every thread has one for the call of `queueInLoop` or `quit` it is in.  Threads
and functors are arbitrary types.

What an event handler, a functor or the thread's own code before `loop()` does to the
loop is calls of `queueInLoop`, `runInLoop` and `quit`, in any number.  `poll` can return
any list of channels; the wakeup channel is among them only when `wakeupFd_` is readable.
-/

namespace Muduo

open Transitions

/-- Where the loop's thread is. -/
inductive LoopPc where
  | constructed    -- before `loop()`
  | resetting      -- `quit_ = false` is next
  | testing        -- `while (!quit_)`
  | clearing       -- `activeChannels_.clear()`, then `poll`
  | polling
  | dispatching    -- the loop over `activeChannels_`
  | handling       -- in the handler of one of them
  | calling        -- `callingPendingFunctor_ = true` is next
  | swapping
  | executing      -- the loop over `functors`
  | inFunctor
  | exited         -- `loop()` has returned
deriving DecidableEq, Repr

/-- Where a thread is in its call of `queueInLoop` or `quit`. -/
inductive CallPc where
  | idle
  | queued         -- the functor is pushed, the test in front of `wakeup()` is next
  | waking         -- the `wakeup()` of `queueInLoop` is next
  | quitting       -- `quit_` is stored, the test is next
  | wakingQuit     -- the `wakeup()` of `quit` is next
deriving DecidableEq, Repr

inductive ActiveChannel where
  | wakeupChannel_
  | other
deriving DecidableEq, Repr

/-- The largest value of an eventfd; a `write` that would pass it fails with `EAGAIN`. -/
def eventfdMax : Nat := sizeModulus - 2

structure EventLoop (T F : Type) where
  threadId_ : T
  pc : LoopPc
  quit_ : Bool
  callingPendingFunctor_ : Bool
  /-- The counter of `wakeupFd_`. -/
  wakeupFd_ : Nat
  activeChannels_ : List ActiveChannel
  pendingFunctor_ : List F
  /-- The functors `doPendingFunctors` swapped out and has not called yet. -/
  functors : List F
  calls : T → CallPc
  /-- History: the functors in the order they were pushed. -/
  pushed : List F
  /-- How many were pushed before the last swap. -/
  pushedBeforeSwap : Nat
  /-- The functors called, each with the thread. -/
  executed : List (T × F)
  swaps : Nat
  /-- Whether some call of `quit()` has returned. -/
  quitReturned : Bool

inductive LoopEvent (T F : Type) where
  | queueInLoop (thread : T) (cb : F)
  | runInLoop (thread : T) (cb : F)
  /-- The test in front of the `wakeup()` of `queueInLoop`. -/
  | queueTest (thread : T)
  | quit (thread : T)
  | quitTest (thread : T)
  | wakeup (thread : T)
  | pollReturns (active : List ActiveChannel)
  /-- The next step of the loop's thread, when it is not in `poll`. -/
  | advance
deriving DecidableEq

namespace EventLoop

variable {T F : Type} [DecidableEq T]

def new (thread : T) : EventLoop T F where
  threadId_ := thread
  pc := .constructed
  quit_ := false
  callingPendingFunctor_ := false
  wakeupFd_ := 0
  activeChannels_ := []
  pendingFunctor_ := []
  functors := []
  calls := fun _ => .idle
  pushed := []
  pushedBeforeSwap := 0
  executed := []
  swaps := 0
  quitReturned := false

def isInLoopThread (s : EventLoop T F) (thread : T) : Bool := decide (s.threadId_ = thread)

/-- Whether the loop's thread is in code that can call the loop. -/
def inUserCode : LoopPc → Bool
  | .constructed | .handling | .inFunctor => true
  | _ => false

/-- Whether a thread can begin a call. -/
def mayCall (s : EventLoop T F) (thread : T) : Bool :=
  s.calls thread == .idle && (!s.isInLoopThread thread || inUserCode s.pc)

def setCall (s : EventLoop T F) (thread : T) (pc : CallPc) : EventLoop T F :=
  { s with calls := Function.update s.calls thread pc }

/-! ### Calls of any thread -/

/-- The locked part of `queueInLoop`. -/
def queueInLoop (s : EventLoop T F) (thread : T) (cb : F) : EventLoop T F :=
  { s.setCall thread .queued with
    pendingFunctor_ := s.pendingFunctor_ ++ [cb]
    pushed := s.pushed ++ [cb] }

/-- On the loop's thread `cb` runs at once, and the calls it makes are the thread's. -/
def runInLoop (s : EventLoop T F) (thread : T) (cb : F) : EventLoop T F :=
  if s.isInLoopThread thread then s else s.queueInLoop thread cb

def queueTest (s : EventLoop T F) (thread : T) : EventLoop T F :=
  if !s.isInLoopThread thread || s.callingPendingFunctor_ then
    s.setCall thread .waking
  else
    s.setCall thread .idle

def quit (s : EventLoop T F) (thread : T) : EventLoop T F :=
  { s.setCall thread .quitting with quit_ := true }

def quitTest (s : EventLoop T F) (thread : T) : EventLoop T F :=
  if !s.isInLoopThread thread then
    s.setCall thread .wakingQuit
  else
    { s.setCall thread .idle with quitReturned := true }

/-- The `write` of `wakeup()`, which ends the call it is made in. -/
def wakeup (s : EventLoop T F) (thread : T) : EventLoop T F :=
  { s.setCall thread .idle with
    wakeupFd_ := if s.wakeupFd_ < eventfdMax then s.wakeupFd_ + 1 else s.wakeupFd_
    quitReturned := s.quitReturned || s.calls thread == .wakingQuit }

/-! ### The loop's thread -/

/-- `EventLoop::handleRead`: the read takes the whole counter. -/
def handleRead (s : EventLoop T F) : EventLoop T F := { s with wakeupFd_ := 0 }

def swap (s : EventLoop T F) : EventLoop T F :=
  { s with
    pc := .executing
    functors := s.pendingFunctor_
    pendingFunctor_ := s.functors
    pushedBeforeSwap := s.pushed.length
    swaps := s.swaps + 1 }

/-- One step of `loop()` and of the `doPendingFunctors` in it. -/
def advance (s : EventLoop T F) : Option (EventLoop T F) :=
  match s.pc with
  | .constructed => some { s with pc := .resetting }
  | .resetting => some { s with pc := .testing, quit_ := false }
  | .testing => some { s with pc := if s.quit_ then .exited else .clearing }
  | .clearing => some { s with pc := .polling, activeChannels_ := [] }
  | .polling => none
  | .dispatching => match s.activeChannels_ with
    | [] => some { s with pc := .calling }
    | .wakeupChannel_ :: rest => some { s.handleRead with activeChannels_ := rest }
    | .other :: rest => some { s with pc := .handling, activeChannels_ := rest }
  | .handling => some { s with pc := .dispatching }
  | .calling => some { s with pc := .swapping, functors := [], callingPendingFunctor_ := true }
  | .swapping => some s.swap
  | .executing => match s.functors with
    | [] => some { s with pc := .testing, callingPendingFunctor_ := false }
    | functor :: rest => some { s with
        pc := .inFunctor
        functors := rest
        executed := s.executed ++ [(s.threadId_, functor)] }
  | .inFunctor => some { s with pc := .executing }
  | .exited => none

def step (s : EventLoop T F) : LoopEvent T F → Option (EventLoop T F)
  | .queueInLoop thread cb => if s.mayCall thread then some (s.queueInLoop thread cb) else none
  | .runInLoop thread cb => if s.mayCall thread then some (s.runInLoop thread cb) else none
  | .queueTest thread => if s.calls thread = .queued then some (s.queueTest thread) else none
  | .quit thread => if s.mayCall thread then some (s.quit thread) else none
  | .quitTest thread => if s.calls thread = .quitting then some (s.quitTest thread) else none
  | .wakeup thread =>
    if s.calls thread = .waking ∨ s.calls thread = .wakingQuit then
      some (s.wakeup thread)
    else
      none
  | .pollReturns active =>
    if s.pc = .polling ∧ (.wakeupChannel_ ∈ active → s.wakeupFd_ ≠ 0) then
      some { s with pc := .dispatching, activeChannels_ := active }
    else
      none
  | .advance => if s.calls s.threadId_ = .idle then s.advance else none

/-- A thread that has pushed a functor and whose `wakeup()` is still to come. -/
def owesWakeup (s : EventLoop T F) (thread : T) : Prop :=
  s.calls thread = .queued ∨ s.calls thread = .waking

end EventLoop

end Muduo
