import Muduo.Basics
import Mathlib.Data.BitVec

/-!
# `Channel`

A descriptor with the events it is interested in, the events the poller reported and
its registration index, after `Channel.h` and `Channel.cpp`.  The dispatch of
`handleEventWithGuard` is generic in the state its callbacks act on; the read test is
parsed as the language parses it, `(revents_ & EPOLLIN) | EPOLLPRI | EPOLLRDHUP`.
-/

namespace Muduo

abbrev EventMask := BitVec 32

def EPOLLIN : EventMask := 0x001
def EPOLLPRI : EventMask := 0x002
def EPOLLOUT : EventMask := 0x004
def EPOLLERR : EventMask := 0x008
def EPOLLHUP : EventMask := 0x010
def EPOLLRDHUP : EventMask := 0x2000

def kNoneEvent : EventMask := 0
def kReadEvent : EventMask := EPOLLIN ||| EPOLLPRI
def kWriteEvent : EventMask := EPOLLOUT

structure Channel where
  fd_ : Nat
  events_ : EventMask
  revents_ : EventMask
  index_ : Int
  tied_ : Bool
deriving DecidableEq

namespace Channel

def new (fd : Nat) : Channel := ⟨fd, 0, 0, -1, false⟩

def isNoneEvent (ch : Channel) : Bool := ch.events_ == kNoneEvent
def isWriting (ch : Channel) : Bool := ch.events_ &&& kWriteEvent != 0

theorem new_isWriting (fd : Nat) : (new fd).isWriting = false := by
  simp [isWriting, new]

end Channel

/-! ### Dispatch -/

/-- The callbacks set on a channel, as calls on a state `σ`. -/
structure EventCallbacks (σ : Type) where
  readCallback_ : Option (σ → Except Fault σ)
  writeCallback_ : Option (σ → Except Fault σ)
  closeCallback_ : Option (σ → Except Fault σ)
  errorCallback_ : Option (σ → Except Fault σ)

/-- Call a `std::function` when the test holds and the function is set. -/
def callWhen {σ : Type} (test : Bool) (cb : Option (σ → Except Fault σ)) (s : σ) :
    Except Fault σ :=
  match test, cb with
  | true, some f => f s
  | _, _ => .ok s

/-- A hang-up with nothing left to read. -/
def hangsUp (revents : EventMask) : Bool :=
  revents &&& EPOLLHUP != 0 && !(revents &&& EPOLLIN != 0)

/-- The test in front of the read callback. -/
def readTest (revents : EventMask) : Bool :=
  (revents &&& EPOLLIN) ||| EPOLLPRI ||| EPOLLRDHUP != 0

def handleEventWithGuard {σ : Type} (cbs : EventCallbacks σ) (revents : EventMask) (s : σ) :
    Except Fault σ := do
  let s ← callWhen (hangsUp revents) cbs.closeCallback_ s
  let s ← callWhen (revents &&& EPOLLERR != 0) cbs.errorCallback_ s
  let s ← callWhen (readTest revents) cbs.readCallback_ s
  callWhen (revents &&& EPOLLOUT != 0) cbs.writeCallback_ s

/-- `handleEvent`: a tied channel is handled while its owner can be locked. -/
def handleEvent {σ : Type} (cbs : EventCallbacks σ) (tied ownerAlive : Bool)
    (revents : EventMask) (s : σ) : Except Fault σ :=
  if tied then
    if ownerAlive then handleEventWithGuard cbs revents s else .ok s
  else
    handleEventWithGuard cbs revents s

theorem callWhen_ok {σ : Type} {test : Bool} {f : σ → σ} {s : σ} :
    callWhen test (some fun s => .ok (f s)) s = .ok (if test then f s else s) := by
  cases test <;> rfl

/-- The read callback runs for every mask: two of the three operands are constants. -/
theorem readTest_eq_true (revents : EventMask) : readTest revents = true := by
  have hbit : ((revents &&& EPOLLIN) ||| EPOLLPRI ||| EPOLLRDHUP).getLsbD 1 = true := by
    rw [BitVec.getLsbD_or, BitVec.getLsbD_or, show EPOLLPRI.getLsbD 1 = true from rfl]
    simp
  rw [readTest, bne_iff_ne]
  intro hzero
  rw [hzero] at hbit
  exact absurd hbit (by decide)

/-! ### Interest masks -/

theorem kReadEvent_and_kWriteEvent : kReadEvent &&& kWriteEvent = 0 := by decide

/-- Read interest does not touch write interest. -/
theorem or_kReadEvent_and_kWriteEvent (events : EventMask) :
    (events ||| kReadEvent) &&& kWriteEvent = events &&& kWriteEvent := by
  rw [BitVec.and_or_distrib_right, kReadEvent_and_kWriteEvent]
  exact BitVec.or_zero

end Muduo
