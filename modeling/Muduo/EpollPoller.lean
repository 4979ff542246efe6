import Muduo.Channel
import Mathlib.Logic.Function.Basic

/-!
# `EpollPoller`

The poller's map from descriptors to channels and the kernel's interest list, after
`EpollPoller.cpp` and the `epoll_ctl` it calls.  A channel is known to both by its
address, here a `Nat`.  A failing `epoll_ctl` changes nothing, and the poller only
logs it.
-/

namespace Muduo

/-- `Channel *`. -/
abbrev ChannelPtr := Nat

def kNew : Int := -1
def kAdded : Int := 1
def kDelete : Int := 2

/-- `struct epoll_event`. -/
structure EpollEvent where
  events : EventMask
  data : ChannelPtr
deriving DecidableEq

inductive EpollOp where
  | EPOLL_CTL_ADD
  | EPOLL_CTL_MOD
  | EPOLL_CTL_DEL
deriving DecidableEq

/-- The kernel's interest list after `epoll_ctl`; `none` is a failure (`EEXIST` for an
    `ADD` of a registered descriptor, `ENOENT` for the others). -/
def epollCtl (interest : Nat → Option EpollEvent) (op : EpollOp) (fd : Nat) (event : EpollEvent) :
    Option (Nat → Option EpollEvent) :=
  match op, interest fd with
  | .EPOLL_CTL_ADD, none => some (Function.update interest fd (some event))
  | .EPOLL_CTL_MOD, some _ => some (Function.update interest fd (some event))
  | .EPOLL_CTL_DEL, some _ => some (Function.update interest fd none)
  | _, _ => none

/-- A call of `epoll_ctl` that was made, and whether its descriptor was registered then. -/
structure EpollCtl where
  op : EpollOp
  fd : Nat
  registered : Bool
deriving DecidableEq

structure EpollPoller where
  m_channels : Nat → Option ChannelPtr
  interest : Nat → Option EpollEvent
  /-- The calls of `epoll_ctl` so far, in their order. -/
  ctls : List EpollCtl

namespace EpollPoller

def new : EpollPoller := ⟨fun _ => none, fun _ => none, []⟩

def update (p : EpollPoller) (op : EpollOp) (ptr : ChannelPtr) (ch : Channel) : EpollPoller :=
  let p := { p with ctls := p.ctls ++ [⟨op, ch.fd_, (p.interest ch.fd_).isSome⟩] }
  match epollCtl p.interest op ch.fd_ ⟨ch.events_, ptr⟩ with
  | some interest => { p with interest := interest }
  | none => p

def updateChannel (p : EpollPoller) (ptr : ChannelPtr) (ch : Channel) : Channel × EpollPoller :=
  if ch.index_ = kNew ∨ ch.index_ = kDelete then
    let p := if ch.index_ = kNew then
        { p with m_channels := Function.update p.m_channels ch.fd_ (some ptr) }
      else
        p
    let ch := { ch with index_ := kAdded }
    (ch, p.update .EPOLL_CTL_ADD ptr ch)
  else if ch.isNoneEvent then
    ({ ch with index_ := kDelete }, p.update .EPOLL_CTL_DEL ptr ch)
  else
    (ch, p.update .EPOLL_CTL_MOD ptr ch)

def removeChannel (p : EpollPoller) (ptr : ChannelPtr) (ch : Channel) : Channel × EpollPoller :=
  let p := { p with m_channels := Function.update p.m_channels ch.fd_ none }
  let p := if ch.index_ = kAdded then p.update .EPOLL_CTL_DEL ptr ch else p
  ({ ch with index_ := kNew }, p)

/-- `hasChannel`. -/
def hasChannel (p : EpollPoller) (ptr : ChannelPtr) (ch : Channel) : Bool :=
  p.m_channels ch.fd_ == some ptr

/-! ### What an update leaves alone -/

@[simp] theorem updateChannel_events (p : EpollPoller) (ptr : ChannelPtr) (ch : Channel) :
    (p.updateChannel ptr ch).1.events_ = ch.events_ := by
  simp only [updateChannel]
  split
  · rfl
  · split <;> rfl

@[simp] theorem updateChannel_tied (p : EpollPoller) (ptr : ChannelPtr) (ch : Channel) :
    (p.updateChannel ptr ch).1.tied_ = ch.tied_ := by
  simp only [updateChannel]
  split
  · rfl
  · split <;> rfl

@[simp] theorem removeChannel_tied (p : EpollPoller) (ptr : ChannelPtr) (ch : Channel) :
    (p.removeChannel ptr ch).1.tied_ = ch.tied_ := rfl

end EpollPoller

end Muduo
