import Muduo.EpollPoller
import Muduo.Transitions

/-!
# Registration of channels with a poller

Any number of channels with distinct descriptors on one poller, and any sequence of the
calls of `Channel.h` on them.  Three places say whether a channel is registered: its
`index_`, the poller's `m_channels` and the kernel's interest list.  They agree in every
reachable state, and every `epoll_ctl` meets the registration it expects.

`updateChannel` looks at `isNoneEvent()` only when the channel is registered.  A call
that leaves no interest on a channel that is not adds it, with an empty mask.
-/

namespace Muduo

open Transitions

/-! ### The channel's methods -/

namespace Channel

/-- Set `events_` and `Channel::update()`. -/
def setEvents (ch : Channel) (ptr : ChannelPtr) (p : EpollPoller) (events : EventMask) :
    Channel × EpollPoller :=
  p.updateChannel ptr { ch with events_ := events }

def enableReading (ch : Channel) (ptr : ChannelPtr) (p : EpollPoller) : Channel × EpollPoller :=
  ch.setEvents ptr p (ch.events_ ||| kReadEvent)

def disableReading (ch : Channel) (ptr : ChannelPtr) (p : EpollPoller) : Channel × EpollPoller :=
  ch.setEvents ptr p (ch.events_ &&& ~~~kReadEvent)

def enableWriting (ch : Channel) (ptr : ChannelPtr) (p : EpollPoller) : Channel × EpollPoller :=
  ch.setEvents ptr p (ch.events_ ||| kWriteEvent)

def disableWriting (ch : Channel) (ptr : ChannelPtr) (p : EpollPoller) : Channel × EpollPoller :=
  ch.setEvents ptr p (ch.events_ &&& ~~~kWriteEvent)

def disableAll (ch : Channel) (ptr : ChannelPtr) (p : EpollPoller) : Channel × EpollPoller :=
  ch.setEvents ptr p kNoneEvent

def remove (ch : Channel) (ptr : ChannelPtr) (p : EpollPoller) : Channel × EpollPoller :=
  p.removeChannel ptr ch

end Channel

inductive ChannelCall where
  | enableReading
  | disableReading
  | enableWriting
  | disableWriting
  | disableAll
  | remove
deriving DecidableEq

/-- The `events_` a call leaves, when it is not `remove`. -/
def ChannelCall.events (events : EventMask) : ChannelCall → Option EventMask
  | .enableReading => some (events ||| kReadEvent)
  | .disableReading => some (events &&& ~~~kReadEvent)
  | .enableWriting => some (events ||| kWriteEvent)
  | .disableWriting => some (events &&& ~~~kWriteEvent)
  | .disableAll => some kNoneEvent
  | .remove => none

def Channel.perform (ch : Channel) (ptr : ChannelPtr) (p : EpollPoller) :
    ChannelCall → Channel × EpollPoller
  | .enableReading => ch.enableReading ptr p
  | .disableReading => ch.disableReading ptr p
  | .enableWriting => ch.enableWriting ptr p
  | .disableWriting => ch.disableWriting ptr p
  | .disableAll => ch.disableAll ptr p
  | .remove => ch.remove ptr p

/-! ### Channels on one poller -/

structure PollerChannels where
  poller_ : EpollPoller
  channels : ChannelPtr → Option Channel

namespace PollerChannels

/-- Fresh channels, each with its descriptor, on a fresh poller. -/
def start (fds : ChannelPtr → Option Nat) : PollerChannels where
  poller_ := EpollPoller.new
  channels ptr := (fds ptr).map Channel.new

def step (s : PollerChannels) (e : ChannelPtr × ChannelCall) : Option PollerChannels :=
  (s.channels e.1).map fun ch =>
    let (ch', p) := ch.perform e.1 s.poller_ e.2
    { poller_ := p, channels := Function.update s.channels e.1 (some ch') }

end PollerChannels

/-! ### The calls of `epoll_ctl` -/

/-- `ADD` of a descriptor that is not registered, `MOD` or `DEL` of one that is. -/
def EpollCtl.Legal (c : EpollCtl) : Prop :=
  match c.op with
  | .EPOLL_CTL_ADD => c.registered = false
  | .EPOLL_CTL_MOD | .EPOLL_CTL_DEL => c.registered = true

/-- `epoll_ctl` fails exactly when the call is not legal. -/
theorem epollCtl_isSome_iff {interest : Nat → Option EpollEvent} {op : EpollOp} {fd : Nat}
    {event : EpollEvent} :
    (epollCtl interest op fd event).isSome = true ↔
      EpollCtl.Legal ⟨op, fd, (interest fd).isSome⟩ := by
  cases op <;> cases h : interest fd <;> simp [epollCtl, EpollCtl.Legal, h]

namespace EpollPoller

@[simp] theorem update_ctls (p : EpollPoller) (op : EpollOp) (ptr : ChannelPtr) (ch : Channel) :
    (p.update op ptr ch).ctls = p.ctls ++ [⟨op, ch.fd_, (p.interest ch.fd_).isSome⟩] := by
  simp only [update]
  split <;> rfl

@[simp] theorem update_m_channels (p : EpollPoller) (op : EpollOp) (ptr : ChannelPtr)
    (ch : Channel) : (p.update op ptr ch).m_channels = p.m_channels := by
  simp only [update]
  split <;> rfl

theorem update_interest_of_ne {p : EpollPoller} {op : EpollOp} {ptr : ChannelPtr} {ch : Channel}
    {fd : Nat} (hfd : fd ≠ ch.fd_) : (p.update op ptr ch).interest fd = p.interest fd := by
  cases op <;> cases h : p.interest ch.fd_ <;>
    simp [update, epollCtl, h, Function.update_of_ne hfd]

/-- A call leaves the entry it finds, no entry or the event it is made with. -/
theorem update_interest {p : EpollPoller} {op : EpollOp} {ptr : ChannelPtr} {ch : Channel}
    {fd : Nat} {event : EpollEvent} (h : (p.update op ptr ch).interest fd = some event) :
    p.interest fd = some event ∨ event.data = ptr := by
  by_cases hfd : fd = ch.fd_
  · subst hfd
    cases op <;> cases hentry : p.interest ch.fd_ <;>
      simp [update, epollCtl, hentry] at h <;> simp [← h]
  · rw [update_interest_of_ne hfd] at h
    exact Or.inl h

/-- Other descriptors keep what the map and the kernel have for them. -/
theorem updateChannel_of_ne {p : EpollPoller} {ptr : ChannelPtr} {ch : Channel} {fd : Nat}
    (hfd : fd ≠ ch.fd_) :
    (p.updateChannel ptr ch).2.m_channels fd = p.m_channels fd ∧
      (p.updateChannel ptr ch).2.interest fd = p.interest fd := by
  constructor
  · simp only [updateChannel]
    split
    · rw [update_m_channels]
      split
      · exact Function.update_of_ne hfd _ _
      · rfl
    · split <;> rw [update_m_channels]
  · simp only [updateChannel]
    split
    · split <;> exact update_interest_of_ne hfd
    · split <;> exact update_interest_of_ne hfd

theorem removeChannel_of_ne {p : EpollPoller} {ptr : ChannelPtr} {ch : Channel} {fd : Nat}
    (hfd : fd ≠ ch.fd_) :
    (p.removeChannel ptr ch).2.m_channels fd = p.m_channels fd ∧
      (p.removeChannel ptr ch).2.interest fd = p.interest fd := by
  constructor
  · simp only [removeChannel]
    split
    · rw [update_m_channels]
      exact Function.update_of_ne hfd _ _
    · exact Function.update_of_ne hfd _ _
  · simp only [removeChannel]
    split
    · exact update_interest_of_ne hfd
    · rfl

/-! ### The three states of a registration -/

/-- Where a channel stands with its poller. -/
inductive Registered (p : EpollPoller) (ptr : ChannelPtr) (ch : Channel) : Prop where
  | new (hindex : ch.index_ = kNew) (hmap : p.m_channels ch.fd_ = none)
      (hkernel : p.interest ch.fd_ = none)
  | added (hindex : ch.index_ = kAdded) (hmap : p.m_channels ch.fd_ = some ptr)
      (hkernel : p.interest ch.fd_ = some ⟨ch.events_, ptr⟩)
  | deleted (hindex : ch.index_ = kDelete) (hmap : p.m_channels ch.fd_ = some ptr)
      (hkernel : p.interest ch.fd_ = none)

theorem updateChannel_new {p : EpollPoller} {ptr : ChannelPtr} {ch : Channel}
    (hindex : ch.index_ = kNew) (hkernel : p.interest ch.fd_ = none) :
    p.updateChannel ptr ch = ({ ch with index_ := kAdded },
      { m_channels := Function.update p.m_channels ch.fd_ (some ptr)
        interest := Function.update p.interest ch.fd_ (some ⟨ch.events_, ptr⟩)
        ctls := p.ctls ++ [⟨.EPOLL_CTL_ADD, ch.fd_, false⟩] }) := by
  simp [updateChannel, hindex, update, epollCtl, hkernel]

theorem updateChannel_deleted {p : EpollPoller} {ptr : ChannelPtr} {ch : Channel}
    (hindex : ch.index_ = kDelete) (hkernel : p.interest ch.fd_ = none) :
    p.updateChannel ptr ch = ({ ch with index_ := kAdded },
      { p with
        interest := Function.update p.interest ch.fd_ (some ⟨ch.events_, ptr⟩)
        ctls := p.ctls ++ [⟨.EPOLL_CTL_ADD, ch.fd_, false⟩] }) := by
  have hold : kDelete ≠ kNew := by decide
  simp [updateChannel, hindex, hold, update, epollCtl, hkernel]

theorem updateChannel_added {p : EpollPoller} {ptr : ChannelPtr} {ch : Channel}
    (hindex : ch.index_ = kAdded) (hkernel : p.interest ch.fd_ ≠ none) :
    p.updateChannel ptr ch =
      if ch.isNoneEvent then
        ({ ch with index_ := kDelete },
          { p with
            interest := Function.update p.interest ch.fd_ none
            ctls := p.ctls ++ [⟨.EPOLL_CTL_DEL, ch.fd_, true⟩] })
      else
        (ch,
          { p with
            interest := Function.update p.interest ch.fd_ (some ⟨ch.events_, ptr⟩)
            ctls := p.ctls ++ [⟨.EPOLL_CTL_MOD, ch.fd_, true⟩] }) := by
  have hold : ¬ (ch.index_ = kNew ∨ ch.index_ = kDelete) := by
    rw [hindex]
    decide
  obtain ⟨event, hevent⟩ := Option.ne_none_iff_exists'.mp hkernel
  simp [updateChannel, hold, update, epollCtl, hevent]

theorem removeChannel_eq {p : EpollPoller} {ptr : ChannelPtr} {ch : Channel}
    (h : p.Registered ptr ch) :
    p.removeChannel ptr ch = ({ ch with index_ := kNew },
      { m_channels := Function.update p.m_channels ch.fd_ none
        interest := Function.update p.interest ch.fd_ none
        ctls := if ch.index_ = kAdded then p.ctls ++ [⟨.EPOLL_CTL_DEL, ch.fd_, true⟩]
          else p.ctls }) := by
  cases h with
  | new hindex hmap hkernel =>
    have hnot : kNew ≠ kAdded := by decide
    simp [removeChannel, hindex, hnot, hkernel]
  | added hindex hmap hkernel =>
    simp [removeChannel, hindex, update, epollCtl, hkernel]
  | deleted hindex hmap hkernel =>
    have hnot : kDelete ≠ kAdded := by decide
    simp [removeChannel, hindex, hnot, hkernel]

/-- `updateChannel` after `events_` was set: a registered channel without interest is
    deleted, any other one is registered with its mask. -/
theorem Registered.update {p : EpollPoller} {ptr : ChannelPtr} {ch : Channel}
    (h : p.Registered ptr ch) (events : EventMask) :
    ∃ index q,
      p.updateChannel ptr { ch with events_ := events } =
        ({ ch with events_ := events, index_ := index }, q) ∧
      index = (if ch.index_ = kAdded ∧ events = kNoneEvent then kDelete else kAdded) ∧
      q.Registered ptr { ch with events_ := events, index_ := index } := by
  cases h with
  | new hindex hmap hkernel =>
    have hnot : kNew ≠ kAdded := by decide
    refine ⟨kAdded, _, updateChannel_new hindex hkernel, by simp [hindex, hnot], ?_⟩
    exact .added rfl (Function.update_self ..) (Function.update_self ..)
  | added hindex hmap hkernel =>
    have hset : p.interest ({ ch with events_ := events } : Channel).fd_ ≠ none := by
      simp [hkernel]
    have heq : p.updateChannel ptr { ch with events_ := events } = _ :=
      updateChannel_added hindex hset
    by_cases hnone : events = kNoneEvent
    · rw [if_pos (by simp [Channel.isNoneEvent, hnone])] at heq
      exact ⟨kDelete, _, heq, by simp [hindex, hnone],
        .deleted rfl hmap (Function.update_self ..)⟩
    · rw [if_neg (by simp [Channel.isNoneEvent, hnone])] at heq
      rw [← hindex]
      exact ⟨ch.index_, _, heq, by simp [hnone], .added hindex hmap (Function.update_self ..)⟩
  | deleted hindex hmap hkernel =>
    have hnot : kDelete ≠ kAdded := by decide
    refine ⟨kAdded, _, updateChannel_deleted hindex hkernel, by simp [hindex, hnot], ?_⟩
    exact .added rfl hmap (Function.update_self ..)

theorem Registered.remove {p : EpollPoller} {ptr : ChannelPtr} {ch : Channel}
    (h : p.Registered ptr ch) :
    (p.removeChannel ptr ch).2.Registered ptr { ch with index_ := kNew } := by
  rw [removeChannel_eq h]
  exact .new rfl (Function.update_self ..) (Function.update_self ..)

theorem Registered.of_same {p q : EpollPoller} {ptr : ChannelPtr} {ch : Channel}
    (h : p.Registered ptr ch)
    (hq : q.m_channels ch.fd_ = p.m_channels ch.fd_ ∧ q.interest ch.fd_ = p.interest ch.fd_) :
    q.Registered ptr ch := by
  cases h with
  | new hindex hmap hkernel => exact .new hindex (hq.1.trans hmap) (hq.2.trans hkernel)
  | added hindex hmap hkernel => exact .added hindex (hq.1.trans hmap) (hq.2.trans hkernel)
  | deleted hindex hmap hkernel => exact .deleted hindex (hq.1.trans hmap) (hq.2.trans hkernel)

theorem Registered.hasChannel_iff {p : EpollPoller} {ptr : ChannelPtr} {ch : Channel}
    (h : p.Registered ptr ch) : p.hasChannel ptr ch = true ↔ ch.index_ ≠ kNew := by
  cases h with
  | new hindex hmap => simp [hasChannel, hindex, hmap]
  | added hindex hmap => simp [hasChannel, hindex, hmap, kAdded, kNew]
  | deleted hindex hmap => simp [hasChannel, hindex, hmap, kDelete, kNew]

theorem perform_eq (ch : Channel) (ptr : ChannelPtr) (p : EpollPoller) (call : ChannelCall) :
    ch.perform ptr p call = (call.events ch.events_).elim (p.removeChannel ptr ch)
      fun events => p.updateChannel ptr { ch with events_ := events } := by
  cases call <;> rfl

/-- Every call of `epoll_ctl` so far was legal. -/
def CtlsLegal (p : EpollPoller) : Prop := ∀ c ∈ p.ctls, c.Legal

theorem CtlsLegal.concat {p q : EpollPoller} {c : EpollCtl} (hp : p.CtlsLegal)
    (hq : q.ctls = p.ctls ++ [c]) (hc : c.Legal) : q.CtlsLegal := by
  intro d hd
  rw [hq, List.mem_append, List.mem_singleton] at hd
  rcases hd with hold | hlast
  · exact hp d hold
  · exact hlast ▸ hc

/-- The `epoll_ctl` of `updateChannel` is legal, whatever `events_` has been set to. -/
theorem Registered.update_legal {p : EpollPoller} {ptr : ChannelPtr} {ch : Channel}
    (h : p.Registered ptr ch) (hp : p.CtlsLegal) (events : EventMask) :
    (p.updateChannel ptr { ch with events_ := events }).2.CtlsLegal := by
  cases h with
  | new hindex hmap hkernel =>
    have heq : p.updateChannel ptr { ch with events_ := events } = _ :=
      updateChannel_new hindex hkernel
    rw [heq]
    exact hp.concat rfl rfl
  | added hindex hmap hkernel =>
    have hset : p.interest ({ ch with events_ := events } : Channel).fd_ ≠ none := by
      simp [hkernel]
    have heq : p.updateChannel ptr { ch with events_ := events } = _ :=
      updateChannel_added hindex hset
    rw [heq]
    split <;> exact hp.concat rfl rfl
  | deleted hindex hmap hkernel =>
    have heq : p.updateChannel ptr { ch with events_ := events } = _ :=
      updateChannel_deleted hindex hkernel
    rw [heq]
    exact hp.concat rfl rfl

theorem Registered.remove_legal {p : EpollPoller} {ptr : ChannelPtr} {ch : Channel}
    (h : p.Registered ptr ch) (hp : p.CtlsLegal) : (p.removeChannel ptr ch).2.CtlsLegal := by
  rw [removeChannel_eq h]
  by_cases hadded : ch.index_ = kAdded
  · exact hp.concat (if_pos hadded) rfl
  · intro c hc
    rw [if_neg hadded] at hc
    exact hp c hc

theorem Registered.perform_legal {p : EpollPoller} {ptr : ChannelPtr} {ch : Channel}
    (h : p.Registered ptr ch) (hp : p.CtlsLegal) (call : ChannelCall) :
    (ch.perform ptr p call).2.CtlsLegal := by
  rw [perform_eq]
  cases call.events ch.events_ with
  | none => exact h.remove_legal hp
  | some events => exact h.update_legal hp events

/-- What a call does to its channel and to the descriptors of the others. -/
theorem Registered.perform {p : EpollPoller} {ptr : ChannelPtr} {ch : Channel}
    (h : p.Registered ptr ch) (call : ChannelCall) :
    ∃ ch' q, ch.perform ptr p call = (ch', q) ∧ ch'.fd_ = ch.fd_ ∧ q.Registered ptr ch' ∧
      (∀ fd, fd ≠ ch.fd_ → q.m_channels fd = p.m_channels fd ∧ q.interest fd = p.interest fd) := by
  rw [perform_eq]
  cases call.events ch.events_ with
  | none =>
    exact ⟨_, _, rfl, rfl, h.remove, fun fd hfd => removeChannel_of_ne hfd⟩
  | some events =>
    obtain ⟨index, q, heq, _, hreg⟩ := h.update events
    refine ⟨_, q, heq, rfl, hreg, ?_⟩
    intro fd hfd
    have hsame : (p.updateChannel ptr { ch with events_ := events }).2.m_channels fd =
          p.m_channels fd ∧
        (p.updateChannel ptr { ch with events_ := events }).2.interest fd = p.interest fd :=
      updateChannel_of_ne hfd
    rwa [heq] at hsame

end EpollPoller

/-! ### Runs -/

namespace PollerChannels

/-- A channel's `index_` is `kNew` when the map has no entry for its descriptor, `kAdded`
    when the kernel's list has one, and `kDelete` when only the map has.  The kernel's entry
    is the channel's own, with its `events_`. -/
structure Agrees (p : EpollPoller) (ptr : ChannelPtr) (ch : Channel) : Prop where
  new_iff : ch.index_ = kNew ↔ p.m_channels ch.fd_ = none
  added_iff : ch.index_ = kAdded ↔ p.interest ch.fd_ ≠ none
  interest : ch.index_ = kAdded → p.interest ch.fd_ = some ⟨ch.events_, ptr⟩
  deleted_iff : ch.index_ = kDelete ↔ p.m_channels ch.fd_ ≠ none ∧ p.interest ch.fd_ = none

def Consistent (s : PollerChannels) : Prop :=
  ∀ ptr ch, s.channels ptr = some ch → Agrees s.poller_ ptr ch

/-- The channels keep their descriptors, each is in one of the three states, and every
    `epoll_ctl` was legal. -/
structure Inv (fds : ChannelPtr → Option Nat) (s : PollerChannels) : Prop where
  fd_eq : ∀ ptr ch, s.channels ptr = some ch → fds ptr = some ch.fd_
  registered : ∀ ptr ch, s.channels ptr = some ch → s.poller_.Registered ptr ch
  legal : s.poller_.CtlsLegal

theorem agrees_of_registered {p : EpollPoller} {ptr : ChannelPtr} {ch : Channel}
    (h : p.Registered ptr ch) : Agrees p ptr ch := by
  cases h with
  | new hindex hmap hkernel =>
    constructor <;> simp [hindex, hmap, hkernel, kNew, kAdded, kDelete]
  | added hindex hmap hkernel =>
    constructor <;> simp [hindex, hmap, hkernel, kNew, kAdded, kDelete]
  | deleted hindex hmap hkernel =>
    constructor <;> simp [hindex, hmap, hkernel, kNew, kAdded, kDelete]

theorem start_inv (fds : ChannelPtr → Option Nat) : Inv fds (start fds) := by
  constructor
  · intro ptr ch hch
    obtain ⟨fd, hfd, hnew⟩ := Option.map_eq_some_iff.mp hch
    rw [hfd, ← hnew]
    rfl
  · intro ptr ch hch
    obtain ⟨fd, hfd, hnew⟩ := Option.map_eq_some_iff.mp hch
    rw [← hnew]
    exact .new rfl rfl rfl
  · intro c hc
    cases hc

theorem step_eq_some {s t : PollerChannels} {e : ChannelPtr × ChannelCall}
    (hstep : s.step e = some t) :
    ∃ ch, s.channels e.1 = some ch ∧ t.poller_ = (ch.perform e.1 s.poller_ e.2).2 ∧
      t.channels = Function.update s.channels e.1 (some (ch.perform e.1 s.poller_ e.2).1) := by
  obtain ⟨ch, hch, ht⟩ := Option.map_eq_some_iff.mp hstep
  subst ht
  exact ⟨ch, hch, rfl, rfl⟩

theorem Inv.step {fds : ChannelPtr → Option Nat}
    (hfds : ∀ p q fd, fds p = some fd → fds q = some fd → p = q)
    {s t : PollerChannels} {e : ChannelPtr × ChannelCall} (hs : Inv fds s)
    (hstep : s.step e = some t) : Inv fds t := by
  obtain ⟨ch, hch, hpoller, hchannels⟩ := step_eq_some hstep
  obtain ⟨ch', q, heq, hfd, hreg, hothers⟩ := (hs.registered e.1 ch hch).perform e.2
  have hlegal := (hs.registered e.1 ch hch).perform_legal hs.legal e.2
  rw [heq] at hpoller hchannels hlegal
  have hfdof := hs.fd_eq e.1 ch hch
  constructor
  · intro ptr c hc
    rw [hchannels] at hc
    by_cases hptr : ptr = e.1
    · subst hptr
      simp only [Function.update_self, Option.some.injEq] at hc
      rw [← hc, hfdof, hfd]
    · rw [Function.update_of_ne hptr] at hc
      exact hs.fd_eq ptr c hc
  · intro ptr c hc
    rw [hchannels] at hc
    rw [hpoller]
    by_cases hptr : ptr = e.1
    · subst hptr
      simp only [Function.update_self, Option.some.injEq] at hc
      exact hc ▸ hreg
    · rw [Function.update_of_ne hptr] at hc
      have hne : c.fd_ ≠ ch.fd_ := by
        intro hsame
        exact hptr (hfds ptr e.1 ch.fd_ (hsame ▸ hs.fd_eq ptr c hc) hfdof)
      exact (hs.registered ptr c hc).of_same (hothers c.fd_ hne)
  · rw [hpoller]
    exact hlegal

end PollerChannels

section Registration

open PollerChannels

/-- **The three views of a registration agree.**  For channels with distinct descriptors
    on one poller and every sequence of calls on them, in every state `index_` tells what
    `m_channels` and the kernel have, and every `epoll_ctl` made so far was legal. -/
theorem poller_registration_consistent (fds : ChannelPtr → Option Nat)
    (hfds : ∀ p q fd, fds p = some fd → fds q = some fd → p = q)
    (es : List (ChannelPtr × ChannelCall)) :
    Always PollerChannels.step Consistent (start fds) es ∧
      Always PollerChannels.step (fun s => s.poller_.CtlsLegal) (start fds) es := by
  have hinv : Always PollerChannels.step (Inv fds) (start fds) es := by
    intro pre post t _ hrun
    exact hrun.invariant (fun _ _ _ hs hstep => hs.step hfds hstep) (start_inv fds)
  constructor
  · intro pre post t hes hrun ptr ch hch
    exact agrees_of_registered ((hinv pre post t hes hrun).registered ptr ch hch)
  · intro pre post t hes hrun
    exact (hinv pre post t hes hrun).legal

theorem poller_registration_consistent_two_channels :
    Always PollerChannels.step Consistent (start fun ptr => some (ptr + 5))
        [(0, .enableReading), (1, .disableAll), (0, .disableAll), (0, .remove)] ∧
      Always PollerChannels.step (fun s => s.poller_.CtlsLegal)
        (start fun ptr => some (ptr + 5))
        [(0, .enableReading), (1, .disableAll), (0, .disableAll), (0, .remove)] := by
  apply poller_registration_consistent
  intro p q fd hp hq
  simp only [Option.some.injEq] at hp hq
  exact Nat.add_right_cancel (hp.trans hq.symm)

end Registration

/-! ### Channels without interest -/

namespace PollerChannels

/-- No channel without interest is in the kernel's interest list. -/
def UninterestedAbsent (s : PollerChannels) : Prop :=
  ∀ ptr ch, s.channels ptr = some ch → ch.isNoneEvent = true → s.poller_.interest ch.fd_ = none

/-- The call leaves its channel some interest, or the channel is registered. -/
def ClearsRegistered (s : PollerChannels) (e : ChannelPtr × ChannelCall) : Prop :=
  ∀ ch, s.channels e.1 = some ch → e.2.events ch.events_ = some kNoneEvent → ch.index_ = kAdded

/-- The entry of a channel that has no interest after a call. -/
theorem interest_after {p q : EpollPoller} {ptr : ChannelPtr} {ch ch' : Channel}
    {call : ChannelCall} (h : p.Registered ptr ch) (hperform : ch.perform ptr p call = (ch', q))
    (hnone : ch'.isNoneEvent = true) :
    q.interest ch'.fd_ = none ↔
      (call.events ch.events_ = some kNoneEvent → ch.index_ = kAdded) := by
  rw [EpollPoller.perform_eq] at hperform
  cases hevents : call.events ch.events_ with
  | none =>
    rw [hevents, Option.elim_none, EpollPoller.removeChannel_eq h, Prod.mk.injEq] at hperform
    rcases hperform with ⟨hch, hq⟩
    subst hch hq
    simp
  | some events =>
    obtain ⟨index, r, heq, hindex, hreg⟩ := h.update events
    rw [hevents, Option.elim_some, heq, Prod.mk.injEq] at hperform
    rcases hperform with ⟨hch, hr⟩
    subst hch hr
    have hzero : events = kNoneEvent := by simpa [Channel.isNoneEvent] using hnone
    subst hzero
    have hagrees := agrees_of_registered hreg
    by_cases hadded : ch.index_ = kAdded
    · have hdeleted : index = kDelete := by simp [hindex, hadded]
      exact iff_of_true (hagrees.deleted_iff.mp hdeleted).2 fun _ => hadded
    · have hregistered : index = kAdded := by simp [hindex, hadded]
      exact iff_of_false (hagrees.added_iff.mp hregistered) fun h => hadded (h rfl)

theorem perform_events (ch : Channel) (ptr : ChannelPtr) (p : EpollPoller) (call : ChannelCall) :
    (ch.perform ptr p call).1.events_ = (call.events ch.events_).getD ch.events_ := by
  rw [EpollPoller.perform_eq]
  cases call.events ch.events_ with
  | none => rfl
  | some events => exact EpollPoller.updateChannel_events p ptr { ch with events_ := events }

/-- The law is kept by exactly the calls that `ClearsRegistered` allows. -/
theorem step_uninterested_iff {fds : ChannelPtr → Option Nat}
    (hfds : ∀ p q fd, fds p = some fd → fds q = some fd → p = q)
    {s t : PollerChannels} {e : ChannelPtr × ChannelCall} (hs : Inv fds s)
    (habsent : UninterestedAbsent s) (hstep : s.step e = some t) :
    UninterestedAbsent t ↔ ClearsRegistered s e := by
  obtain ⟨ch, hch, hpoller, hchannels⟩ := step_eq_some hstep
  have hreg := hs.registered e.1 ch hch
  obtain ⟨ch', q, heq, hfd, _, hothers⟩ := hreg.perform e.2
  have hevents := perform_events ch e.1 s.poller_ e.2
  rw [heq] at hpoller hchannels hevents
  have hself : t.channels e.1 = some ch' := by rw [hchannels, Function.update_self]
  constructor
  · intro ht c hc hclears
    cases hch.symm.trans hc
    rw [hclears] at hevents
    have hnone : ch'.isNoneEvent = true := by simpa [Channel.isNoneEvent] using hevents
    have hgone := ht e.1 ch' hself hnone
    rw [hpoller] at hgone
    exact (interest_after hreg heq hnone).mp hgone hclears
  · intro hclears ptr c hc hnone
    rw [hpoller]
    by_cases hptr : ptr = e.1
    · subst hptr
      cases hself.symm.trans hc
      exact (interest_after hreg heq hnone).mpr (hclears ch hch)
    · rw [hchannels, Function.update_of_ne hptr] at hc
      have hne : c.fd_ ≠ ch.fd_ := by
        intro hsame
        exact hptr (hfds ptr e.1 ch.fd_ (hsame ▸ hs.fd_eq ptr c hc) (hs.fd_eq e.1 ch hch))
      exact (hothers c.fd_ hne).2.trans (habsent ptr c hc hnone)

end PollerChannels

section NoInterest

open PollerChannels

/-- **When a channel without interest is never registered.**  In every state of a run no
    channel without interest is in the kernel's list, exactly when every call that clears
    a channel's interest finds the channel registered. -/
theorem uninterested_absent_iff (fds : ChannelPtr → Option Nat)
    (hfds : ∀ p q fd, fds p = some fd → fds q = some fd → p = q)
    (es : List (ChannelPtr × ChannelCall)) (s : PollerChannels)
    (hrun : Run PollerChannels.step (start fds) es s) :
    Always PollerChannels.step UninterestedAbsent (start fds) es ↔
      Along PollerChannels.step ClearsRegistered (start fds) es := by
  refine always_iff_along (I := fun s => Inv fds s ∧ UninterestedAbsent s)
    (fun _ hs => hs.2) ?_ ?_ ⟨start_inv fds, ?_⟩ hrun
  · intro u e v hu hclears hstep
    exact ⟨hu.1.step hfds hstep, (step_uninterested_iff hfds hu.1 hu.2 hstep).mpr hclears⟩
  · intro u e v hu hclears hstep hv
    exact hclears ((step_uninterested_iff hfds hu.1 hu.2 hstep).mp hv)
  · intro ptr ch hch _
    rfl

theorem uninterested_absent_iff_one_disable :
    Always PollerChannels.step UninterestedAbsent (start fun ptr => some (ptr + 5))
        [(0, .enableReading), (0, .disableAll)] ↔
      Along PollerChannels.step ClearsRegistered (start fun ptr => some (ptr + 5))
        [(0, .enableReading), (0, .disableAll)] := by
  obtain ⟨s, hrun, _⟩ := exists_run PollerChannels.step (start fun ptr => some (ptr + 5))
    [(0, .enableReading), (0, .disableAll)] (fun _ => ()) () rfl
  apply uninterested_absent_iff _ _ _ s hrun
  intro p q fd hp hq
  simp only [Option.some.injEq] at hp hq
  exact Nat.add_right_cancel (hp.trans hq.symm)

/-- `disableAll` registers a channel that was never enabled, and one it has deleted. -/
theorem disableAll_registers :
    (∃ s ch, Run PollerChannels.step (start fun ptr => some (ptr + 5)) [(0, .disableAll)] s ∧
      s.channels 0 = some ch ∧ ch.isNoneEvent = true ∧
      s.poller_.interest ch.fd_ = some ⟨kNoneEvent, 0⟩) ∧
    ∃ s ch, Run PollerChannels.step (start fun ptr => some (ptr + 5))
        [(0, .enableReading), (0, .disableAll), (0, .disableAll)] s ∧
      s.channels 0 = some ch ∧ ch.isNoneEvent = true ∧
      s.poller_.interest ch.fd_ = some ⟨kNoneEvent, 0⟩ := by
  constructor
  · obtain ⟨s, hrun, hends⟩ := exists_run PollerChannels.step (start fun ptr => some (ptr + 5))
      [(0, .disableAll)] (fun s => (s.channels 0, s.poller_.interest 5))
      (some ⟨5, 0, 0, kAdded, false⟩, some ⟨kNoneEvent, 0⟩) rfl
    simp only [Prod.mk.injEq] at hends
    exact ⟨s, _, hrun, hends.1, rfl, hends.2⟩
  · obtain ⟨s, hrun, hends⟩ := exists_run PollerChannels.step (start fun ptr => some (ptr + 5))
      [(0, .enableReading), (0, .disableAll), (0, .disableAll)]
      (fun s => (s.channels 0, s.poller_.interest 5))
      (some ⟨5, 0, 0, kAdded, false⟩, some ⟨kNoneEvent, 0⟩) rfl
    simp only [Prod.mk.injEq] at hends
    exact ⟨s, _, hrun, hends.1, rfl, hends.2⟩

end NoInterest

end Muduo
