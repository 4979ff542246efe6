import Muduo.Basics
import Muduo.OrderedSets
import Mathlib.Data.Prod.Lex
import Mathlib.Data.Int.Order.Basic
import Mathlib.Logic.Function.Basic

/-!
# `Timer` and `TimerQueue`

The model of `Timer.h`, `Timer.cpp`, `TimerId.h` and `TimerQueue.cpp`: two ordered sets
with different keys, the set of cancels made during a batch, and the descriptor that
wakes the loop.  `Timer` objects live in a heap, so that an address can be freed and
given to another timer.

The queue logs what it deletes.

A `Timestamp` is its number of microseconds.  The `double` of an interval matters in two
ways only, whether it is positive and the microseconds it is cast to, and `Interval`
holds the two.  User callbacks are not part of a queue operation: `handleRead` is split
at each callback, and what a callback does to the queue is a sequence of further calls.
-/

namespace Muduo

/-! ### `Timer` and `TimerId` -/

abbrev Timestamp := Int

/-- `Timer *`; 0 is the null pointer. -/
abbrev TimerPtr := Nat

def UINTPTR_MAX : Nat := 2 ^ 64 - 1

/-- `Timestamp::valid()`. -/
def valid (time : Timestamp) : Bool := decide (0 < time)

/-- An interval in seconds: whether it is greater than zero, and its microseconds. -/
structure Interval where
  positive : Bool
  micros : Int
deriving DecidableEq, Repr

/-- `addTime`, whose sum is an `int64_t`. -/
def addTime (timestamp : Timestamp) (seconds : Interval) : Timestamp :=
  Int.bmod (timestamp + seconds.micros) (2 ^ 64)

structure Timer where
  expiration_ : Timestamp
  interval_ : Interval
  repeat_ : Bool
  /-- An `int64_t` in the source, of which only the start is used. -/
  sequence_ : Nat
deriving DecidableEq, Repr

namespace Timer

/-- The constructor, given the sequence number `++s_numCreated_` returned. -/
def new (when_ : Timestamp) (interval : Interval) (sequence : Nat) : Timer :=
  ⟨when_, interval, interval.positive, sequence⟩

def restart (timer : Timer) (now : Timestamp) : Timer :=
  if timer.repeat_ then
    { timer with expiration_ := addTime now timer.interval_ }
  else
    { timer with expiration_ := 0 }

end Timer

structure TimerId where
  timer_ : TimerPtr
  sequence_ : Nat
deriving DecidableEq, Repr

/-- `TimerId()`. -/
def TimerId.null : TimerId := ⟨0, 0⟩

/-! ### The keys of the two sets -/

/-- `std::pair<Timestamp, Timer *>`, ordered by the first component, then the second. -/
structure Entry where
  first : Timestamp
  second : TimerPtr
deriving DecidableEq, Repr

/-- `std::pair<Timer *, int64_t>`, ordered the same way. -/
structure ActiveTimer where
  timer : TimerPtr
  sequence : Nat
deriving DecidableEq, Repr

def Entry.key (e : Entry) : Int ×ₗ Nat := toLex (e.first, e.second)

theorem Entry.key_injective : Function.Injective Entry.key := by
  rintro ⟨a, b⟩ ⟨c, d⟩ h
  cases h
  rfl

instance : LinearOrder Entry := LinearOrder.lift' Entry.key Entry.key_injective

def ActiveTimer.key (x : ActiveTimer) : Nat ×ₗ Nat := toLex (x.timer, x.sequence)

theorem ActiveTimer.key_injective : Function.Injective ActiveTimer.key := by
  rintro ⟨a, b⟩ ⟨c, d⟩ h
  cases h
  rfl

instance : LinearOrder ActiveTimer := LinearOrder.lift' ActiveTimer.key ActiveTimer.key_injective

theorem Entry.lt_iff {e f : Entry} :
    e < f ↔ e.first < f.first ∨ e.first = f.first ∧ e.second < f.second := by
  show e.key < f.key ↔ _
  rw [Entry.key, Entry.key, Prod.Lex.toLex_lt_toLex]

theorem Entry.first_le_of_le {e f : Entry} (h : e ≤ f) : e.first ≤ f.first := by
  rcases eq_or_lt_of_le h with heq | hlt
  · rw [heq]
  · rcases Entry.lt_iff.mp hlt with hfirst | ⟨hfirst, _⟩
    · exact le_of_lt hfirst
    · exact le_of_eq hfirst

/-! ### The queue -/

/-- The timer descriptor, as `resetTimerfd` and `readTimerfd` leave it: a
    `timerfd_settime` also clears an expiry that was not read. -/
inductive TimerFd where
  | disarmed
  | armed (expiration : Timestamp)
  | expired
deriving DecidableEq, Repr

structure TimerQueue where
  timers_ : OrdSet Entry
  activeTimers_ : OrdSet ActiveTimer
  callingExpiredTimers_ : Bool
  cancelingTimers_ : OrdSet ActiveTimer
  timerfd_ : TimerFd
  /-- The `Timer` objects that exist. -/
  heap : TimerPtr → Option Timer
  /-- The timers deleted, by the ids that `addTimer` returned for them. -/
  deleted : List TimerId

namespace TimerQueue

def new : TimerQueue :=
  ⟨OrdSet.empty, OrdSet.empty, false, OrdSet.empty, .disarmed, fun _ => none, []⟩

def deref (q : TimerQueue) (timer : TimerPtr) : Except Fault Timer :=
  match q.heap timer with
  | some t => .ok t
  | none => .error .dangling

def store (q : TimerQueue) (timer : TimerPtr) (t : Timer) : TimerQueue :=
  { q with heap := Function.update q.heap timer (some t) }

/-- `delete timer`. -/
def delete (q : TimerQueue) (timer : TimerPtr) : Except Fault TimerQueue := do
  let t ← q.deref timer
  .ok { q with
    heap := Function.update q.heap timer none
    deleted := q.deleted ++ [⟨timer, t.sequence_⟩] }

def resetTimerfd (q : TimerQueue) (expiration : Timestamp) : TimerQueue :=
  { q with timerfd_ := .armed expiration }

/-- `readTimerfd`: the read fails and changes nothing unless the descriptor expired. -/
def readTimerfd (q : TimerQueue) : TimerQueue :=
  { q with timerfd_ := if q.timerfd_ = .expired then .disarmed else q.timerfd_ }

/-- `insert`; the result says whether the earliest expiration changed. -/
def insert (q : TimerQueue) (timer : TimerPtr) : Except Fault (Bool × TimerQueue) := do
  let t ← q.deref timer
  let earliestChanged := match q.timers_.first? with
    | none => true
    | some it => decide (t.expiration_ < it.first)
  if ⟨t.expiration_, timer⟩ ∈ q.timers_ then
    .error .assertFailed
  else
    .ok (earliestChanged, { q with
      timers_ := q.timers_.insert ⟨t.expiration_, timer⟩
      activeTimers_ := q.activeTimers_.insert ⟨timer, t.sequence_⟩ })

def addTimerInLoop (q : TimerQueue) (timer : TimerPtr) : Except Fault TimerQueue := do
  let (earliestChanged, q) ← q.insert timer
  match earliestChanged, q.timers_.first? with
  | true, some it => .ok (q.resetTimerfd it.first)
  | _, _ => .ok q

def cancelInLoop (q : TimerQueue) (timerId : TimerId) : Except Fault TimerQueue :=
  let timer : ActiveTimer := ⟨timerId.timer_, timerId.sequence_⟩
  if timer ∈ q.activeTimers_ then do
    let t ← q.deref timer.timer
    if ⟨t.expiration_, timer.timer⟩ ∈ q.timers_ then
      let q := { q with timers_ := q.timers_.erase ⟨t.expiration_, timer.timer⟩ }
      let q ← q.delete timer.timer
      .ok { q with activeTimers_ := q.activeTimers_.erase timer }
    else
      .error .assertFailed
  else if q.callingExpiredTimers_ then
    .ok { q with cancelingTimers_ := q.cancelingTimers_.insert timer }
  else
    .ok q

/-- One round of the loop of `getExpired` over the expired entries. -/
def deactivate (q : TimerQueue) (it : Entry) : Except Fault TimerQueue := do
  let t ← q.deref it.second
  if ⟨it.second, t.sequence_⟩ ∈ q.activeTimers_ then
    .ok { q with activeTimers_ := q.activeTimers_.erase ⟨it.second, t.sequence_⟩ }
  else
    .error .assertFailed

/-- The entry no entry that expired at `now` comes after. -/
def sentry (now : Timestamp) : Entry := ⟨now, UINTPTR_MAX⟩

def getExpired (q : TimerQueue) (now : Timestamp) : Except Fault (List Entry × TimerQueue) := do
  let expired := (q.timers_.below (sentry now)).toList
  let q ← expired.foldlM deactivate { q with timers_ := q.timers_.from_ (sentry now) }
  .ok (expired, q)

/-- `handleRead` up to its loop over the expired timers. -/
def beginBatch (q : TimerQueue) (now : Timestamp) : Except Fault (List Entry × TimerQueue) := do
  let (expired, q) ← q.readTimerfd.getExpired now
  .ok (expired, { q with callingExpiredTimers_ := true, cancelingTimers_ := OrdSet.empty })

/-- What `reset` does with one expired timer before it looks at the next expiration:
    restart and insert it, or delete it. -/
def renew (q : TimerQueue) (now : Timestamp) (it : Entry) : Except Fault TimerQueue := do
  let t ← q.deref it.second
  if t.repeat_ = true ∧ ⟨it.second, t.sequence_⟩ ∉ q.cancelingTimers_ then do
    let (_, q) ← (q.store it.second (t.restart now)).insert it.second
    .ok q
  else
    q.delete it.second

/-- `nextExpire` after the loop body looked at `timers_`. -/
def nextExpiration (q : TimerQueue) (nextExpire : Timestamp) : Except Fault Timestamp :=
  match q.timers_.first? with
  | some it => do
    let t ← q.deref it.second
    .ok t.expiration_
  | none => .ok nextExpire

/-- One round of the loop of `reset`, which re-arms the descriptor in each round. -/
def resetItem (now : Timestamp) (state : Timestamp × TimerQueue) (it : Entry) :
    Except Fault (Timestamp × TimerQueue) := do
  let q ← state.2.renew now it
  let nextExpire ← q.nextExpiration state.1
  .ok (nextExpire, if valid nextExpire then q.resetTimerfd nextExpire else q)

def reset (q : TimerQueue) (expired : List Entry) (now : Timestamp) : Except Fault TimerQueue := do
  let (_, q) ← expired.foldlM (resetItem now) (0, q)
  .ok q

/-- `handleRead` after its loop over the expired timers. -/
def endBatch (q : TimerQueue) (expired : List Entry) (now : Timestamp) : Except Fault TimerQueue :=
  { q with callingExpiredTimers_ := false }.reset expired now

/-- `~TimerQueue`, as far as it is about timers. -/
def destroy (q : TimerQueue) : Except Fault TimerQueue :=
  q.timers_.toList.foldlM (fun q timer => q.delete timer.second) q

end TimerQueue

/-! ### Runs of a queue -/

/-- A `handleRead` in execution: the clock reading, the expired entries, and those whose
    callback has not been called yet. -/
structure Batch where
  now : Timestamp
  expired : List Entry
  rest : List Entry
deriving DecidableEq

structure TimerWorld where
  queue : TimerQueue
  /-- `Timer::s_numCreated_`, an `int64_t` that is taken not to overflow. -/
  s_numCreated_ : Nat
  /-- The timers that `addTimer` created and `addTimerInLoop` has not inserted. -/
  created : List TimerPtr
  /-- The ids of all timers created so far, which `addTimer` returns. -/
  issued : List TimerId
  batch : Option Batch

inductive TimerEvent where
  /-- `new Timer` in `addTimer`, at an address the allocator chose. -/
  | newTimer (timer : TimerPtr) (when_ : Timestamp) (interval : Interval)
  /-- A timer of another queue takes a sequence number. -/
  | newElsewhere
  | addTimerInLoop (timer : TimerPtr)
  | cancelInLoop (timerId : TimerId)
  | timerfdExpires
  /-- `handleRead` starts and reads the clock. -/
  | handleRead (now : Timestamp)
  /-- The next callback of the batch is called. -/
  | run
  /-- The last callback has returned and `handleRead` finishes. -/
  | reset
deriving DecidableEq, Repr

namespace TimerWorld

def start : TimerWorld := ⟨TimerQueue.new, 0, [], [], none⟩

/-- Whether code other than `handleRead` can run on the loop's thread: no batch is in
    execution, or one of its callbacks is. -/
def inUserCode (w : TimerWorld) : Bool :=
  match w.batch with
  | none => true
  | some b => decide (b.rest.length < b.expired.length)

/-- Whether the event can happen. -/
def legal (w : TimerWorld) : TimerEvent → Bool
  | .newTimer timer _ _ =>
    decide (0 < timer) && decide (timer < UINTPTR_MAX) && decide (w.queue.heap timer = none)
  | .newElsewhere => true
  | .addTimerInLoop timer => w.inUserCode && decide (timer ∈ w.created)
  | .cancelInLoop _ => w.inUserCode
  | .timerfdExpires => match w.queue.timerfd_ with
    | .armed _ => true
    | _ => false
  | .handleRead _ => decide (w.batch = none)
  | .run => match w.batch with
    | some ⟨_, _, _ :: _⟩ => true
    | _ => false
  | .reset => match w.batch with
    | some ⟨_, _, []⟩ => true
    | _ => false

/-- What the event does. -/
def perform (w : TimerWorld) : TimerEvent → Except Fault TimerWorld
  | .newTimer timer when_ interval =>
    .ok { w with
      queue := w.queue.store timer (Timer.new when_ interval (w.s_numCreated_ + 1))
      s_numCreated_ := w.s_numCreated_ + 1
      created := timer :: w.created
      issued := ⟨timer, w.s_numCreated_ + 1⟩ :: w.issued }
  | .newElsewhere => .ok { w with s_numCreated_ := w.s_numCreated_ + 1 }
  | .addTimerInLoop timer => do
    let q ← w.queue.addTimerInLoop timer
    .ok { w with queue := q, created := w.created.erase timer }
  | .cancelInLoop timerId => do
    let q ← w.queue.cancelInLoop timerId
    .ok { w with queue := q }
  | .timerfdExpires => .ok { w with queue := { w.queue with timerfd_ := .expired } }
  | .handleRead now => do
    let (expired, q) ← w.queue.beginBatch now
    .ok { w with queue := q, batch := some ⟨now, expired, expired⟩ }
  | .run =>
    match w.batch with
    | some ⟨now, expired, it :: rest⟩ => do
      let _ ← w.queue.deref it.second
      .ok { w with batch := some ⟨now, expired, rest⟩ }
    | _ => .ok w
  | .reset =>
    match w.batch with
    | some b => do
      let q ← w.queue.endBatch b.expired b.now
      .ok { w with queue := q, batch := none }
    | none => .ok w

def step (w : TimerWorld) (e : TimerEvent) : Option TimerWorld :=
  if w.legal e then returned (w.perform e) else none

end TimerWorld

end Muduo
