import Muduo.PollerRegistration

/-!
# `Acceptor`

The acceptor of a server on its loop, from the constructor to the destructor, with what the
kernel keeps for it: the queue of the clients that have connected, and the table that
`accept4` takes the lowest free descriptor from.  The loop reports `acceptChannel_` while the
queue is not empty, and `handleRead` takes one client each time.
-/

namespace Muduo

open Transitions

structure Acceptor where
  /-- `acceptSocket_.fd()`. -/
  acceptSocket_ : Nat
  acceptChannel_ : Channel
  /-- Whether `NewConnectionCallback_` is set. -/
  NewConnectionCallback_ : Bool
  listenning_ : Bool

structure AcceptorSystem where
  /-- `none` after the destructor. -/
  acceptor : Option Acceptor
  /-- The address of `acceptChannel_` and the descriptor of `acceptSocket_`, also of those freed. -/
  channelPtr : ChannelPtr
  sockfd : Nat
  poller_ : EpollPoller
  /-- `revents_` of `acceptChannel_`, if it is among the active channels still to be handled. -/
  activeChannel : Option EventMask
  /-- How often `listen` is in `pendingFunctor_`. -/
  pendingListens : Nat
  /-- The clients `accept4` takes from. -/
  backlog : List Nat
  openFds : List Nat
  /-- `RLIMIT_NOFILE`. -/
  limit : Nat
  /-- The clients taken, in order; each with its descriptor if it went to
      `NewConnectionCallback_`, and without if it was closed. -/
  served : List (Nat × Option Nat)
  /-- The clients that the closed socket has reset. -/
  reset : List Nat
  /-- The descriptors given to `NewConnectionCallback_` that are not closed yet. -/
  owned : List Nat
  /-- The descriptors of the process that are neither these nor the acceptor's. -/
  others : List Nat
  /-- A method of the freed acceptor, or of its channel, has been called. -/
  dangling : Bool

inductive AcceptorEvent where
  /-- `runInLoop(std::bind(&Acceptor::listen, acceptor_.get()))`, on the loop's thread or not. -/
  | listen (inLoopThread : Bool)
  /-- The loop runs its pending `listen`. -/
  | runListen
  /-- A client connects. -/
  | connect (client : Nat)
  | poll
  /-- The loop handles `acceptChannel_`. -/
  | handleEvent
  /-- The owner of a connection closes its descriptor. -/
  | closeConnection (fd : Nat)
  /-- Somebody else opens or closes a file. -/
  | openOther
  | closeOther (fd : Nat)
  | destroy
deriving DecidableEq, Repr

namespace Acceptor

/-- The constructor.  `bind` and the socket options leave no trace here. -/
def new (sockfd : Nat) (callback : Bool) : Acceptor where
  acceptSocket_ := sockfd
  acceptChannel_ := Channel.new sockfd
  NewConnectionCallback_ := callback
  listenning_ := false

/-- `listen`: what it leaves of the acceptor and of the poller. -/
def listen (a : Acceptor) (ptr : ChannelPtr) (p : EpollPoller) : Acceptor × EpollPoller :=
  let (ch, p) := a.acceptChannel_.enableReading ptr p
  ({ a with listenning_ := true, acceptChannel_ := ch }, p)

/-- `~Acceptor`: what it leaves of the poller. -/
def destroy (a : Acceptor) (ptr : ChannelPtr) (p : EpollPoller) : EpollPoller :=
  let (ch, p) := a.acceptChannel_.disableAll ptr p
  (ch.remove ptr p).2

/-- How an acceptor that is there stands with its poller. -/
structure Attached (a : Acceptor) (ptr : ChannelPtr) (p : EpollPoller) (sockfd : Nat) : Prop where
  socket_eq : a.acceptSocket_ = sockfd
  channel_eq : a.acceptChannel_.fd_ = sockfd
  untied : a.acceptChannel_.tied_ = false
  registered : p.Registered ptr a.acceptChannel_
  unused : a.listenning_ = false →
    a.acceptChannel_.index_ = kNew ∧ a.acceptChannel_.events_ = kNoneEvent
  used : a.listenning_ = true →
    a.acceptChannel_.index_ = kAdded ∧ a.acceptChannel_.events_ = kReadEvent

theorem new_attached {ptr : ChannelPtr} {p : EpollPoller} {sockfd : Nat} (callback : Bool)
    (hmap : p.m_channels sockfd = none) (hkernel : p.interest sockfd = none) :
    (new sockfd callback).Attached ptr p sockfd where
  socket_eq := rfl
  channel_eq := rfl
  untied := rfl
  registered := .new rfl hmap hkernel
  unused _ := ⟨rfl, rfl⟩
  used h := by cases h

/-- What `epoll_wait` goes by. -/
theorem Attached.interest_eq {a : Acceptor} {ptr : ChannelPtr} {p : EpollPoller} {sockfd : Nat}
    (h : a.Attached ptr p sockfd) :
    p.interest sockfd = if a.listenning_ then some ⟨kReadEvent, ptr⟩ else none := by
  have hregistered := h.registered
  cases hlistenning : a.listenning_ with
  | true =>
    obtain ⟨hindex, hevents⟩ := h.used hlistenning
    cases hregistered with
    | new hold => exact absurd (hold.symm.trans hindex) (by decide)
    | added _ _ hkernel =>
      rw [h.channel_eq, hevents] at hkernel
      exact hkernel
    | deleted hold => exact absurd (hold.symm.trans hindex) (by decide)
  | false =>
    obtain ⟨hindex, _⟩ := h.unused hlistenning
    cases hregistered with
    | new _ _ hkernel =>
      rw [h.channel_eq] at hkernel
      exact hkernel
    | added hold => exact absurd (hold.symm.trans hindex) (by decide)
    | deleted hold => exact absurd (hold.symm.trans hindex) (by decide)

theorem setEvents_of_ne {fd : Nat} (ch : Channel) (ptr : ChannelPtr) (p : EpollPoller)
    (events : EventMask) (hfd : fd ≠ ch.fd_) :
    (ch.setEvents ptr p events).2.m_channels fd = p.m_channels fd ∧
      (ch.setEvents ptr p events).2.interest fd = p.interest fd :=
  EpollPoller.updateChannel_of_ne hfd

theorem Attached.listen {a : Acceptor} {ptr : ChannelPtr} {p : EpollPoller} {sockfd : Nat}
    (h : a.Attached ptr p sockfd) :
    (a.listen ptr p).1.Attached ptr (a.listen ptr p).2 sockfd ∧
      (a.listen ptr p).1.listenning_ = true ∧
      (a.listen ptr p).1.NewConnectionCallback_ = a.NewConnectionCallback_ ∧
      ∀ fd, fd ≠ sockfd → (a.listen ptr p).2.m_channels fd = p.m_channels fd ∧
        (a.listen ptr p).2.interest fd = p.interest fd := by
  have hevents : a.acceptChannel_.events_ ||| kReadEvent = kReadEvent := by
    cases hlistenning : a.listenning_ with
    | true =>
      rw [(h.used hlistenning).2]
      decide
    | false =>
      rw [(h.unused hlistenning).2]
      decide
  obtain ⟨index, q, heq, hindex, hregistered⟩ := h.registered.update kReadEvent
  have hadded : index = kAdded := by
    rw [hindex, if_neg]
    exact fun hnone => absurd hnone.2 (by decide)
  have hlisten : a.listen ptr p = ({ a with
      listenning_ := true
      acceptChannel_ := { a.acceptChannel_ with events_ := kReadEvent, index_ := index } }, q) := by
    simp only [Acceptor.listen, Channel.enableReading, Channel.setEvents, hevents, heq]
  rw [hlisten]
  refine ⟨⟨h.socket_eq, h.channel_eq, h.untied, hregistered, fun hnot => (by cases hnot),
    fun _ => ⟨hadded, rfl⟩⟩, rfl, rfl, ?_⟩
  intro fd hfd
  rw [← h.channel_eq] at hfd
  have hother := setEvents_of_ne a.acceptChannel_ ptr p kReadEvent hfd
  rwa [Channel.setEvents, heq] at hother

/-- The destructor takes the channel out of the poller, also if it was never in. -/
theorem Attached.destroy {a : Acceptor} {ptr : ChannelPtr} {p : EpollPoller} {sockfd : Nat}
    (h : a.Attached ptr p sockfd) :
    (a.destroy ptr p).m_channels sockfd = none ∧ (a.destroy ptr p).interest sockfd = none ∧
      ∀ fd, fd ≠ sockfd → (a.destroy ptr p).m_channels fd = p.m_channels fd ∧
        (a.destroy ptr p).interest fd = p.interest fd := by
  obtain ⟨index, q, heq, _, hregistered⟩ := h.registered.update kNoneEvent
  have hdestroy : a.destroy ptr p =
      (q.removeChannel ptr { a.acceptChannel_ with events_ := kNoneEvent, index_ := index }).2 := by
    simp only [Acceptor.destroy, Channel.disableAll, Channel.setEvents, heq, Channel.remove]
  have hremoved := EpollPoller.removeChannel_eq hregistered
  rw [hdestroy, hremoved]
  refine ⟨?_, ?_, fun fd hfd => ?_⟩
  · rw [← h.channel_eq]
    exact Function.update_self ..
  · rw [← h.channel_eq]
    exact Function.update_self ..
  · rw [← h.channel_eq] at hfd
    have hother := setEvents_of_ne a.acceptChannel_ ptr p kNoneEvent hfd
    rw [Channel.setEvents, heq] at hother
    exact ⟨(Function.update_of_ne hfd ..).trans hother.1,
      (Function.update_of_ne hfd ..).trans hother.2⟩

end Acceptor

namespace AcceptorSystem

/-! ### The kernel -/

/-- The lowest descriptor that is free. -/
def lowestFree (s : AcceptorSystem) : Option Nat :=
  (List.range s.limit).find? fun fd => fd ∉ s.openFds

/-- `accept4`, if it returns a descriptor: the client with it, and the state after. -/
def accept4 (s : AcceptorSystem) : Option ((Nat × Nat) × AcceptorSystem) :=
  match s.backlog, s.lowestFree with
  | client :: rest, some connfd =>
    some ((client, connfd), { s with backlog := rest, openFds := connfd :: s.openFds })
  | _, _ => none

def close (s : AcceptorSystem) (fd : Nat) : AcceptorSystem :=
  { s with openFds := s.openFds.erase fd }

/-- What `epoll_wait` reports for `acceptChannel_`. -/
def reported (s : AcceptorSystem) : Option EventMask :=
  (s.poller_.interest s.sockfd).bind fun event =>
    if event.data = s.channelPtr ∧ event.events &&& EPOLLIN ≠ 0 ∧ s.backlog ≠ [] then
      some EPOLLIN
    else
      none

/-! ### The methods on the loop -/

/-- `Acceptor::handleRead`; a failed `accept4` is only logged. -/
def handleRead (a : Acceptor) (s : AcceptorSystem) : AcceptorSystem :=
  match s.accept4 with
  | some ((client, connfd), s) =>
    if a.NewConnectionCallback_ then
      { s with served := s.served ++ [(client, some connfd)], owned := connfd :: s.owned }
    else
      { s.close connfd with served := s.served ++ [(client, none)] }
  | none => s

def eventCallbacks (a : Acceptor) : EventCallbacks AcceptorSystem where
  readCallback_ := some fun s => .ok (handleRead a s)
  writeCallback_ := none
  closeCallback_ := none
  errorCallback_ := none

def listen (s : AcceptorSystem) : AcceptorSystem :=
  match s.acceptor with
  | some a =>
    let (a, p) := a.listen s.channelPtr s.poller_
    { s with acceptor := some a, poller_ := p }
  | none => { s with dangling := true }

def handleEvent (s : AcceptorSystem) (revents : EventMask) : Option AcceptorSystem :=
  match s.acceptor with
  | some a =>
    returned (Muduo.handleEvent (eventCallbacks a) a.acceptChannel_.tied_ true revents s)
  | none => some { s with dangling := true }

/-- `~Acceptor`, with the sockets of the clients that nobody has taken. -/
def destroy (s : AcceptorSystem) (a : Acceptor) : AcceptorSystem :=
  let s := s.close a.acceptSocket_
  { s with
    acceptor := none
    poller_ := a.destroy s.channelPtr s.poller_
    backlog := []
    reset := s.backlog }

def step (s : AcceptorSystem) : AcceptorEvent → Option AcceptorSystem
  | .listen inLoopThread =>
    if s.acceptor.isSome then
      some (if inLoopThread then s.listen else { s with pendingListens := s.pendingListens + 1 })
    else
      none
  | .runListen =>
    if 0 < s.pendingListens ∧ s.activeChannel = none then
      some { s with pendingListens := s.pendingListens - 1 }.listen
    else
      none
  | .connect client =>
    if s.acceptor.any Acceptor.listenning_ then some { s with backlog := s.backlog ++ [client] }
    else none
  | .poll =>
    if s.activeChannel = none then some { s with activeChannel := s.reported } else none
  | .handleEvent =>
    s.activeChannel.bind fun revents => { s with activeChannel := none }.handleEvent revents
  | .closeConnection fd =>
    if fd ∈ s.owned then some { s.close fd with owned := s.owned.erase fd } else none
  | .openOther =>
    s.lowestFree.map fun fd => { s with openFds := fd :: s.openFds, others := fd :: s.others }
  | .closeOther fd =>
    if fd ∈ s.others then some { s.close fd with others := s.others.erase fd } else none
  | .destroy => s.acceptor.map s.destroy

/-! ### What a step can do -/

/-- The descriptor is the lowest free one. -/
structure Free (s : AcceptorSystem) (fd : Nat) : Prop where
  below : fd < s.limit
  closed : fd ∉ s.openFds

theorem free_of_lowestFree {s : AcceptorSystem} {fd : Nat} (h : s.lowestFree = some fd) :
    s.Free fd := by
  refine ⟨List.mem_range.mp (List.mem_of_find?_eq_some h), ?_⟩
  simpa using List.find?_some h

inductive Stepped (s : AcceptorSystem) : AcceptorEvent → AcceptorSystem → Prop where
  | listen {e : AcceptorEvent} {a : Acceptor} (he : e = .listen true ∨ e = .runListen)
      (ha : s.acceptor = some a) (pending : Nat) :
      Stepped s e { s with
        acceptor := some (a.listen s.channelPtr s.poller_).1
        poller_ := (a.listen s.channelPtr s.poller_).2
        pendingListens := pending }
  | queue {b : Bool} (halive : s.acceptor.isSome = true) :
      Stepped s (.listen b) { s with pendingListens := s.pendingListens + 1 }
  | dangle {e : AcceptorEvent} (he : e = .runListen ∨ e = .handleEvent)
      (hdead : s.acceptor = none)
      (hcalled : 0 < s.pendingListens ∨ s.activeChannel ≠ none) (pending : Nat)
      (active : Option EventMask) :
      Stepped s e { s with dangling := true, pendingListens := pending, activeChannel := active }
  | connect {client : Nat} {a : Acceptor} (ha : s.acceptor = some a)
      (hlistenning : a.listenning_ = true) :
      Stepped s (.connect client) { s with backlog := s.backlog ++ [client] }
  | poll (hidle : s.activeChannel = none) : Stepped s .poll { s with activeChannel := s.reported }
  | take {a : Acceptor} {client connfd : Nat} {rest : List Nat} (ha : s.acceptor = some a)
      (hcallback : a.NewConnectionCallback_ = true) (hbacklog : s.backlog = client :: rest)
      (hfree : s.Free connfd) :
      Stepped s .handleEvent { s with
        activeChannel := none
        backlog := rest
        openFds := connfd :: s.openFds
        served := s.served ++ [(client, some connfd)]
        owned := connfd :: s.owned }
  | refuse {a : Acceptor} {client connfd : Nat} {rest : List Nat} (ha : s.acceptor = some a)
      (hcallback : a.NewConnectionCallback_ = false) (hbacklog : s.backlog = client :: rest)
      (hfree : s.Free connfd) :
      Stepped s .handleEvent { s with
        activeChannel := none
        backlog := rest
        served := s.served ++ [(client, none)] }
  | fail {a : Acceptor} (ha : s.acceptor = some a)
      (hfails : s.backlog = [] ∨ s.lowestFree = none) :
      Stepped s .handleEvent { s with activeChannel := none }
  | closeConnection {fd : Nat} (hfd : fd ∈ s.owned) :
      Stepped s (.closeConnection fd) { s.close fd with owned := s.owned.erase fd }
  | openOther {fd : Nat} (hfree : s.Free fd) :
      Stepped s .openOther { s with openFds := fd :: s.openFds, others := fd :: s.others }
  | closeOther {fd : Nat} (hfd : fd ∈ s.others) :
      Stepped s (.closeOther fd) { s.close fd with others := s.others.erase fd }
  | destroy {a : Acceptor} (ha : s.acceptor = some a) : Stepped s .destroy (s.destroy a)

/-- The event runs `handleRead` of an acceptor that is there, whatever it is. -/
theorem handleEvent_alive {s : AcceptorSystem} {a : Acceptor} (ha : s.acceptor = some a)
    (htied : a.acceptChannel_.tied_ = false) (revents : EventMask) :
    s.handleEvent revents = some (handleRead a s) := by
  simp only [handleEvent, ha, htied, Muduo.handleEvent, Bool.false_eq_true, if_false,
    handleEventWithGuard, eventCallbacks, callWhen, readTest_eq_true]
  cases hangsUp revents <;> cases (revents &&& EPOLLERR != 0) <;>
    cases (revents &&& EPOLLOUT != 0) <;> rfl

/-- A client is taken if there is one and a descriptor is free. -/
theorem handleRead_cases (a : Acceptor) (s : AcceptorSystem) :
    ((s.backlog = [] ∨ s.lowestFree = none) ∧ handleRead a s = s) ∨
    ∃ client rest connfd, s.backlog = client :: rest ∧ s.lowestFree = some connfd ∧
      handleRead a s = if a.NewConnectionCallback_ then { s with
          backlog := rest
          openFds := connfd :: s.openFds
          served := s.served ++ [(client, some connfd)]
          owned := connfd :: s.owned }
        else { s with
          backlog := rest
          served := s.served ++ [(client, none)] } := by
  unfold handleRead accept4
  split
  · rename_i t haccept
    split at haccept
    · rename_i client rest connfd hbacklog hfree
      cases haccept
      refine Or.inr ⟨_, rest, _, hbacklog, hfree, ?_⟩
      simp only [close, List.erase_cons_head]
    · cases haccept
  · rename_i haccept
    split at haccept
    · cases haccept
    · rename_i hnone
      refine Or.inl ⟨?_, rfl⟩
      cases hbacklog : s.backlog with
      | nil => exact Or.inl rfl
      | cons client rest =>
        refine Or.inr (Option.eq_none_iff_forall_ne_some.mpr fun connfd hfree => ?_)
        exact hnone client rest connfd hbacklog hfree

theorem stepped_of_handleRead {s : AcceptorSystem} {a : Acceptor} (ha : s.acceptor = some a) :
    Stepped s .handleEvent (handleRead a { s with activeChannel := none }) := by
  rcases handleRead_cases a { s with activeChannel := none } with
    ⟨hfails, heq⟩ | ⟨client, rest, connfd, hbacklog, hfree, heq⟩
  · rw [heq]
    exact .fail ha hfails
  · rw [heq]
    have hlowest : s.Free connfd := free_of_lowestFree hfree
    cases hcallback : a.NewConnectionCallback_ with
    | true => exact .take ha hcallback hbacklog hlowest
    | false => exact .refuse ha hcallback hbacklog hlowest

theorem stepped_of_step {s t : AcceptorSystem} {e : AcceptorEvent}
    (htied : ∀ a, s.acceptor = some a → a.acceptChannel_.tied_ = false)
    (hstep : s.step e = some t) : Stepped s e t := by
  cases e with
  | listen inLoopThread =>
    simp only [step, Option.ite_none_right_eq_some, Option.some.injEq] at hstep
    obtain ⟨halive, rfl⟩ := hstep
    obtain ⟨a, ha⟩ := Option.isSome_iff_exists.mp halive
    cases inLoopThread with
    | true =>
      simp only [if_true, listen, ha]
      exact .listen (Or.inl rfl) ha s.pendingListens
    | false => exact .queue halive
  | runListen =>
    simp only [step, Option.ite_none_right_eq_some, Option.some.injEq] at hstep
    obtain ⟨⟨hpending, _⟩, rfl⟩ := hstep
    cases ha : s.acceptor with
    | some a =>
      simp only [listen]
      exact .listen (Or.inr rfl) ha _
    | none =>
      simp only [listen]
      exact ha ▸ .dangle (Or.inl rfl) ha (Or.inl hpending) _ s.activeChannel
  | connect client =>
    simp only [step, Option.ite_none_right_eq_some, Option.some.injEq] at hstep
    obtain ⟨hlistenning, rfl⟩ := hstep
    obtain ⟨a, ha, hlistenning⟩ := (Option.any_eq_true ..).mp hlistenning
    exact .connect ha hlistenning
  | poll =>
    simp only [step, Option.ite_none_right_eq_some, Option.some.injEq] at hstep
    obtain ⟨hidle, rfl⟩ := hstep
    exact .poll hidle
  | handleEvent =>
    obtain ⟨revents, hactive, hhandle⟩ := Option.bind_eq_some_iff.mp hstep
    cases ha : s.acceptor with
    | some a =>
      rw [handleEvent_alive (s := { s with activeChannel := none }) ha (htied a ha)] at hhandle
      cases hhandle
      exact stepped_of_handleRead ha
    | none =>
      simp only [handleEvent, ha, Option.some.injEq] at hhandle
      subst hhandle
      exact ha ▸ .dangle (Or.inr rfl) ha (Or.inr (by simp [hactive])) s.pendingListens none
  | closeConnection fd =>
    simp only [step, Option.ite_none_right_eq_some, Option.some.injEq] at hstep
    obtain ⟨hfd, rfl⟩ := hstep
    exact .closeConnection hfd
  | openOther =>
    obtain ⟨fd, hfree, rfl⟩ := Option.map_eq_some_iff.mp hstep
    exact .openOther (free_of_lowestFree hfree)
  | closeOther fd =>
    simp only [step, Option.ite_none_right_eq_some, Option.some.injEq] at hstep
    obtain ⟨hfd, rfl⟩ := hstep
    exact .closeOther hfd
  | destroy =>
    obtain ⟨a, ha, rfl⟩ := Option.map_eq_some_iff.mp hstep
    exact .destroy ha

end AcceptorSystem

end Muduo
