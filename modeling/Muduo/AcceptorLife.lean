import Muduo.Acceptor

/-!
# What becomes of the clients of an acceptor

Every client that has connected is taken in its turn, given to the server or closed, unless
the destructor comes first.  Taking one needs a free descriptor, and the loop reports the
acceptor again and again while there is none.

`TcpServer::start` binds `listen` to the bare pointer of the acceptor, and a batch of active
channels holds bare pointers as well.  So the destructor has to wait for both.
-/

namespace Muduo

open Transitions

/-! ### Every run -/

/-- Where an acceptor is made: a descriptor that the poller does not know, and the descriptors
    that are open besides. -/
structure Listener where
  sockfd : Nat
  channelPtr : ChannelPtr
  poller_ : EpollPoller
  others : List Nat
  limit : Nat
  /-- Whether `setNewConnectionCallback` is called. -/
  callback : Bool
  map_free : poller_.m_channels sockfd = none
  kernel_free : poller_.interest sockfd = none
  nodup : (sockfd :: others).Nodup

def Listener.start (l : Listener) : AcceptorSystem where
  acceptor := some (Acceptor.new l.sockfd l.callback)
  channelPtr := l.channelPtr
  sockfd := l.sockfd
  poller_ := l.poller_
  activeChannel := none
  pendingListens := 0
  backlog := []
  openFds := l.sockfd :: l.others
  limit := l.limit
  served := []
  reset := []
  owned := []
  others := l.others
  dangling := false

namespace AcceptorSystem

/-- The acceptor, its poller and the queue. -/
structure Wired (l : Listener) (s : AcceptorSystem) : Prop where
  ptr_eq : s.channelPtr = l.channelPtr
  fd_eq : s.sockfd = l.sockfd
  alive : ∀ a, s.acceptor = some a →
    a.Attached s.channelPtr s.poller_ s.sockfd ∧ a.NewConnectionCallback_ = l.callback
  dead : s.acceptor = none →
    s.poller_.m_channels s.sockfd = none ∧ s.poller_.interest s.sockfd = none
  waits : s.backlog ≠ [] → ∃ a, s.acceptor = some a ∧ a.listenning_ = true
  frame : ∀ fd, fd ≠ s.sockfd → s.poller_.m_channels fd = l.poller_.m_channels fd ∧
    s.poller_.interest fd = l.poller_.interest fd

theorem start_wired (l : Listener) : Wired l l.start where
  ptr_eq := rfl
  fd_eq := rfl
  alive a ha := by
    cases ha
    exact ⟨Acceptor.new_attached l.callback l.map_free l.kernel_free, rfl⟩
  dead h := by cases h
  waits h := absurd rfl h
  frame _ _ := ⟨rfl, rfl⟩

theorem Wired.stepped {l : Listener} {s t : AcceptorSystem} {e : AcceptorEvent} (h : Wired l s)
    (hstep : Stepped s e t) : Wired l t := by
  cases hstep with
  | listen he ha pending =>
    rename_i a
    obtain ⟨hattached, hcallback⟩ := h.alive a ha
    obtain ⟨hafter, hlistenning, hsame, hothers⟩ := hattached.listen
    refine ⟨h.ptr_eq, h.fd_eq, ?_, fun hdead => (by cases hdead),
      fun _ => ⟨_, rfl, hlistenning⟩, ?_⟩
    · intro a' ha'
      cases ha'
      exact ⟨hafter, hsame.trans hcallback⟩
    · intro fd hfd
      have hframe := h.frame fd hfd
      have hother := hothers fd hfd
      exact ⟨hother.1.trans hframe.1, hother.2.trans hframe.2⟩
  | queue | dangle | poll | fail | closeConnection | openOther | closeOther =>
    exact ⟨h.ptr_eq, h.fd_eq, h.alive, h.dead, h.waits, h.frame⟩
  | connect ha hlistenning =>
    exact ⟨h.ptr_eq, h.fd_eq, h.alive, h.dead, fun _ => ⟨_, ha, hlistenning⟩, h.frame⟩
  | take ha _ hbacklog | refuse ha _ hbacklog =>
    have hsome := h.waits (by rw [hbacklog]; exact List.cons_ne_nil _ _)
    exact ⟨h.ptr_eq, h.fd_eq, h.alive, h.dead, fun _ => hsome, h.frame⟩
  | destroy ha =>
    rename_i a
    obtain ⟨hattached, _⟩ := h.alive a ha
    obtain ⟨hmap, hkernel, hothers⟩ := hattached.destroy
    refine ⟨h.ptr_eq, h.fd_eq, fun _ hnone => (by cases hnone), fun _ => ⟨hmap, hkernel⟩,
      fun hwaits => absurd rfl hwaits, ?_⟩
    intro fd hfd
    have hframe := h.frame fd hfd
    have hother := hothers fd hfd
    exact ⟨hother.1.trans hframe.1, hother.2.trans hframe.2⟩

theorem Wired.untied {l : Listener} {s : AcceptorSystem} (h : Wired l s) :
    ∀ a, s.acceptor = some a → a.acceptChannel_.tied_ = false :=
  fun a ha => (h.alive a ha).1.untied

theorem Wired.step {l : Listener} {s t : AcceptorSystem} {e : AcceptorEvent} (h : Wired l s)
    (hstep : s.step e = some t) : Wired l t :=
  h.stepped (stepped_of_step h.untied hstep)

/-- The open descriptors: that of an acceptor that is there, those of the connections and
    those of others. -/
structure Filed (s : AcceptorSystem) : Prop where
  nodup : s.openFds.Nodup
  perm : s.openFds.Perm
    ((if s.acceptor.isSome then [s.sockfd] else []) ++ s.owned ++ s.others)

theorem start_filed (l : Listener) : l.start.Filed := ⟨l.nodup, List.Perm.refl _⟩

theorem perm_erase {l m : List Nat} {fd : Nat} (h : l.Perm (fd :: m)) : (l.erase fd).Perm m := by
  have herased := h.erase fd
  rwa [List.erase_cons_head] at herased

theorem Filed.stepped {s t : AcceptorSystem} {e : AcceptorEvent} (h : s.Filed)
    (hsocket : ∀ a, s.acceptor = some a → a.acceptSocket_ = s.sockfd) (hstep : Stepped s e t) :
    t.Filed := by
  cases hstep with
  | listen _ ha | connect ha | queue | dangle | poll | refuse | fail =>
    refine ⟨h.nodup, ?_⟩
    first
      | exact h.perm
      | (have hperm := h.perm; rw [ha] at hperm; exact hperm)
  | take ha _ _ hfree =>
    rename_i connfd _
    refine ⟨List.nodup_cons.mpr ⟨hfree.closed, h.nodup⟩, ?_⟩
    refine (h.perm.cons _).trans ?_
    simp only [List.append_assoc]
    exact (List.perm_middle).symm
  | openOther hfree =>
    refine ⟨List.nodup_cons.mpr ⟨hfree.closed, h.nodup⟩, ?_⟩
    exact (h.perm.cons _).trans List.perm_middle.symm
  | closeConnection hfd =>
    rename_i fd
    refine ⟨h.nodup.erase fd, perm_erase (h.perm.trans ?_)⟩
    refine (((List.perm_cons_erase hfd).append_left _).append_right _).trans ?_
    simp only [List.append_assoc, List.cons_append]
    exact List.perm_middle
  | closeOther hfd =>
    rename_i fd
    refine ⟨h.nodup.erase fd, perm_erase (h.perm.trans ?_)⟩
    exact ((List.perm_cons_erase hfd).append_left _).trans List.perm_middle
  | destroy ha =>
    rename_i a
    have hperm := h.perm
    rw [ha, Option.isSome_some, if_pos rfl, ← hsocket a ha] at hperm
    exact ⟨h.nodup.erase _, perm_erase hperm⟩

/-- The clients that have connected, in order. -/
def arrivals (es : List AcceptorEvent) : List Nat :=
  es.filterMap fun
    | .connect client => some client
    | _ => none

/-- Every client has been taken, waits or was reset, those that came first before the others. -/
structure Accounted (es : List AcceptorEvent) (s : AcceptorSystem) : Prop where
  arrived : arrivals es = s.served.map Prod.fst ++ s.backlog ++ s.reset
  kept : s.acceptor.isSome = true → s.reset = []

theorem arrivals_connect (es : List AcceptorEvent) (client : Nat) :
    arrivals (es ++ [.connect client]) = arrivals es ++ [client] := by
  simp [arrivals]

theorem arrivals_other {es : List AcceptorEvent} {e : AcceptorEvent}
    (he : ∀ client, e ≠ .connect client) : arrivals (es ++ [e]) = arrivals es := by
  cases e with
  | connect client => exact absurd rfl (he client)
  | _ => simp [arrivals]

theorem Accounted.same {es : List AcceptorEvent} {e : AcceptorEvent} {s t : AcceptorSystem}
    (h : Accounted es s) (he : ∀ client, e ≠ .connect client) (hserved : t.served = s.served)
    (hbacklog : t.backlog = s.backlog) (hreset : t.reset = s.reset)
    (halive : t.acceptor.isSome = s.acceptor.isSome) : Accounted (es ++ [e]) t := by
  refine ⟨?_, ?_⟩
  · rw [arrivals_other he, hserved, hbacklog, hreset]
    exact h.arrived
  · rw [halive, hreset]
    exact h.kept

theorem Accounted.taken {es : List AcceptorEvent} {e : AcceptorEvent} {s t : AcceptorSystem}
    {client : Nat} {rest : List Nat} {fd : Option Nat} (h : Accounted es s)
    (he : ∀ client, e ≠ .connect client) (hbacklog : s.backlog = client :: rest)
    (hserved : t.served = s.served ++ [(client, fd)]) (hrest : t.backlog = rest)
    (hreset : t.reset = s.reset) (halive : t.acceptor = s.acceptor) :
    Accounted (es ++ [e]) t := by
  refine ⟨?_, ?_⟩
  · rw [arrivals_other he, hserved, hrest, hreset, h.arrived, hbacklog]
    simp
  · rw [halive, hreset]
    exact h.kept

theorem Accounted.stepped {es : List AcceptorEvent} {e : AcceptorEvent} {s t : AcceptorSystem}
    (h : Accounted es s) (hstep : Stepped s e t) : Accounted (es ++ [e]) t := by
  cases hstep with
  | listen he ha =>
    refine h.same ?_ rfl rfl rfl (by rw [ha]; rfl)
    rintro client rfl
    rcases he with he | he <;> cases he
  | dangle he =>
    refine h.same ?_ rfl rfl rfl rfl
    rintro client rfl
    rcases he with he | he <;> cases he
  | queue | poll | fail | closeConnection | openOther | closeOther =>
    exact h.same (fun _ he => (by cases he)) rfl rfl rfl rfl
  | connect ha =>
    have hkept := h.kept (by rw [ha]; rfl)
    refine ⟨?_, fun _ => hkept⟩
    rw [arrivals_connect, h.arrived, hkept]
    simp
  | take _ _ hbacklog | refuse _ _ hbacklog =>
    exact h.taken (fun _ he => (by cases he)) hbacklog rfl rfl rfl rfl
  | destroy ha =>
    have hkept := h.kept (by rw [ha]; rfl)
    refine ⟨?_, fun halive => (by cases halive)⟩
    rw [arrivals_other fun _ he => (by cases he), h.arrived, hkept]
    simp [destroy, close]

/-! ### The freed acceptor -/

/-- The destructor runs when nothing refers to the acceptor. -/
def Orderly (s : AcceptorSystem) : AcceptorEvent → Prop
  | .destroy => s.pendingListens = 0 ∧ s.activeChannel = none
  | _ => True

instance (s : AcceptorSystem) : DecidablePred (Orderly s)
  | .destroy => inferInstanceAs (Decidable (s.pendingListens = 0 ∧ s.activeChannel = none))
  | .listen _ | .runListen | .connect _ | .poll | .handleEvent | .closeConnection _
  | .openOther | .closeOther _ => inferInstanceAs (Decidable True)

/-- Nothing refers to an acceptor that is gone, and nothing has. -/
structure Unreferenced (s : AcceptorSystem) : Prop where
  pending : s.acceptor = none → s.pendingListens = 0
  active : s.acceptor = none → s.activeChannel = none
  safe : s.dangling = false

theorem Unreferenced.stepped {l : Listener} {s t : AcceptorSystem} {e : AcceptorEvent}
    (h : s.Unreferenced) (hwired : Wired l s) (horderly : s.Orderly e) (hstep : Stepped s e t) :
    t.Unreferenced := by
  cases hstep with
  | listen => exact ⟨fun hdead => (by cases hdead), fun hdead => (by cases hdead), h.safe⟩
  | queue halive =>
    refine ⟨fun hdead => ?_, h.active, h.safe⟩
    change s.acceptor = none at hdead
    rw [hdead] at halive
    cases halive
  | dangle _ hdead hcalled =>
    rcases hcalled with hpending | hactive
    · rw [h.pending hdead] at hpending
      cases hpending
    · exact absurd (h.active hdead) hactive
  | connect | closeConnection | openOther | closeOther => exact ⟨h.pending, h.active, h.safe⟩
  | poll hidle =>
    refine ⟨h.pending, fun hdead => ?_, h.safe⟩
    change s.reported = none
    rw [reported, (hwired.dead hdead).2]
    rfl
  | take | refuse | fail => exact ⟨h.pending, fun _ => rfl, h.safe⟩
  | destroy => exact ⟨fun _ => horderly.1, fun _ => horderly.2, h.safe⟩

/-- What the destructor has left behind is called. -/
theorem canReach_dangling {s t : AcceptorSystem} (horderly : ¬ s.Orderly .destroy)
    (hstep : s.step .destroy = some t) : CanReach step (fun u => u.dangling = true) t := by
  obtain ⟨a, ha, rfl⟩ := Option.map_eq_some_iff.mp hstep
  cases hactive : s.activeChannel with
  | some revents =>
    refine ⟨[.handleEvent], { s.destroy a with activeChannel := none, dangling := true },
      Run.one ?_, rfl⟩
    simp [step, destroy, close, hactive, handleEvent]
  | none =>
    have hpending : 0 < s.pendingListens :=
      Nat.pos_of_ne_zero fun hzero => horderly ⟨hzero, hactive⟩
    refine ⟨[.runListen], { s.destroy a with
      pendingListens := s.pendingListens - 1, dangling := true }, Run.one ?_, rfl⟩
    simp [step, destroy, close, hactive, hpending, listen]

/-! ### The acceptor's life -/

theorem Wired.filed {l : Listener} {s t : AcceptorSystem} {e : AcceptorEvent} (h : Wired l s)
    (hfiled : s.Filed) (hstep : s.step e = some t) : t.Filed :=
  hfiled.stepped (fun a ha => (h.alive a ha).1.socket_eq) (stepped_of_step h.untied hstep)

theorem run_wired {l : Listener} {s : AcceptorSystem} {es : List AcceptorEvent}
    (hrun : Run step l.start es s) : Wired l s ∧ s.Filed := by
  refine hrun.invariant (I := fun s => Wired l s ∧ s.Filed) ?_ ⟨start_wired l, start_filed l⟩
  intro u e v hu hstep
  exact ⟨hu.1.step hstep, hu.1.filed hu.2 hstep⟩

theorem run_accounted {l : Listener} {s : AcceptorSystem} {es : List AcceptorEvent}
    (hrun : Run step l.start es s) : Accounted es s := by
  refine hrun.history (I := Accounted) ⟨rfl, fun _ => rfl⟩ ?_
  intro fs u e v hpre hu hstep
  exact hu.stepped (stepped_of_step (run_wired hpre).1.untied hstep)

/-- What the loop's poller has for the acceptor's descriptor. -/
theorem Wired.interest_eq {l : Listener} {s : AcceptorSystem} (h : Wired l s) :
    s.poller_.interest l.sockfd =
      if s.acceptor.any Acceptor.listenning_ then some ⟨kReadEvent, l.channelPtr⟩ else none := by
  rw [← h.fd_eq, ← h.ptr_eq]
  cases ha : s.acceptor with
  | none => exact (h.dead ha).2
  | some a => exact (h.alive a ha).1.interest_eq

end AcceptorSystem

open AcceptorSystem in
/-- **The life of an acceptor.**  In every run, from the constructor on:

    * the clients that have connected are those taken, in the order of their arrival, then
      those that wait, then those that the destructor has reset;
    * the descriptors that are open are the acceptor's while it is there, those given to
      `NewConnectionCallback_` and not closed, and those of others, all different;
    * the loop's poller watches the acceptor's descriptor exactly while the acceptor is there
      and listens, and keeps what it had for other descriptors; and
    * if the destructor only runs when no `listen` is pending and `acceptChannel_` is in no
      batch, nothing of the freed acceptor is called; and if it runs when one of them is so,
      the loop can go on to call it. -/
theorem acceptor_life {l : Listener} {s : AcceptorSystem} {es : List AcceptorEvent}
    (hrun : Run step l.start es s) :
    arrivals es = s.served.map Prod.fst ++ s.backlog ++ s.reset ∧
    (s.openFds.Nodup ∧ s.openFds.Perm
      ((if s.acceptor.isSome then [l.sockfd] else []) ++ s.owned ++ s.others)) ∧
    (s.poller_.interest l.sockfd =
        (if s.acceptor.any Acceptor.listenning_ then some ⟨kReadEvent, l.channelPtr⟩ else none) ∧
      ∀ fd, fd ≠ l.sockfd → s.poller_.m_channels fd = l.poller_.m_channels fd ∧
        s.poller_.interest fd = l.poller_.interest fd) ∧
    (Along step Orderly l.start es → Always step (fun u => u.dangling = false) l.start es) ∧
    ∀ e t, s.step e = some t → ¬ s.Orderly e → CanReach step (fun u => u.dangling = true) t := by
  obtain ⟨hwired, hfiled⟩ := run_wired hrun
  refine ⟨(run_accounted hrun).arrived, ⟨hfiled.nodup, ?_⟩, ⟨hwired.interest_eq, ?_⟩, ?_, ?_⟩
  · rw [← hwired.fd_eq]
    exact hfiled.perm
  · rw [← hwired.fd_eq]
    exact hwired.frame
  · intro halong
    have halways := always_of_along (I := fun u => Wired l u ∧ u.Unreferenced)
      (fun u e v hu horderly hstep => ⟨hu.1.step hstep,
        hu.2.stepped hu.1 horderly (stepped_of_step hu.1.untied hstep)⟩)
      ⟨start_wired l, fun hdead => (by cases hdead), fun hdead => (by cases hdead), rfl⟩ halong
    exact halways.mono fun u hu => hu.2.safe
  · intro e t hstep horderly
    cases e with
    | destroy => exact canReach_dangling horderly hstep
    | _ => exact absurd trivial horderly

/-- An acceptor of a process that may open five files. -/
def oneLeft : Listener where
  sockfd := 3
  channelPtr := 100
  poller_ := EpollPoller.new
  others := [0, 1, 2]
  limit := 5
  callback := true
  map_free := rfl
  kernel_free := rfl
  nodup := by decide

open AcceptorSystem in
/-- Two clients, one of them taken before the destructor. -/
theorem acceptor_life_reset :
    ∃ s, Run step oneLeft.start [.listen false, .runListen, .connect 10, .connect 11, .poll,
        .handleEvent, .destroy] s ∧
      s.served = [(10, some 4)] ∧ arrivals [.listen false, .runListen, .connect 10, .connect 11,
        .poll, .handleEvent, .destroy] = s.served.map Prod.fst ++ s.backlog ++ s.reset := by
  obtain ⟨s, hrun, hserved⟩ := exists_run step oneLeft.start
    [.listen false, .runListen, .connect 10, .connect 11, .poll, .handleEvent, .destroy]
    AcceptorSystem.served [(10, some 4)] rfl
  exact ⟨s, hrun, hserved, (acceptor_life hrun).1⟩

/-! ### Rounds of the loop -/

namespace AcceptorSystem

def freeFds (s : AcceptorSystem) : List Nat := (List.range s.limit).filter fun fd => fd ∉ s.openFds

/-- A round of the loop in which nothing else happens. -/
def round (s : AcceptorSystem) : Option AcceptorSystem :=
  (s.step .poll).bind fun s => if s.activeChannel = none then some s else s.step .handleEvent

def rounds : Nat → AcceptorSystem → Option AcceptorSystem
  | 0, s => some s
  | n + 1, s => s.round.bind (rounds n)

/-- How many of the clients `n` rounds take: a client that is closed at once gives its
    descriptor back. -/
def takes (callback : Bool) (n clients free : Nat) : Nat :=
  min n (if callback then min clients free else if free = 0 then 0 else clients)

theorem lowestFree_eq (s : AcceptorSystem) : s.lowestFree = s.freeFds.head? :=
  (List.head?_filter ..).symm

/-- A listening acceptor between two batches. -/
structure Serving (l : Listener) (s : AcceptorSystem) : Prop where
  wired : Wired l s
  idle : s.activeChannel = none
  listens : s.acceptor.any Acceptor.listenning_ = true

theorem Serving.acceptor_some {l : Listener} {s : AcceptorSystem} (h : Serving l s) :
    ∃ a, s.acceptor = some a ∧ a.listenning_ = true := (Option.any_eq_true ..).mp h.listens

theorem Serving.reported_eq {l : Listener} {s : AcceptorSystem} (h : Serving l s) :
    s.reported = if s.backlog = [] then none else some EPOLLIN := by
  have hinterest := h.wired.interest_eq
  rw [h.listens, if_pos rfl, ← h.wired.fd_eq] at hinterest
  rw [reported, hinterest, Option.bind_some, h.wired.ptr_eq]
  have hmask : kReadEvent &&& EPOLLIN ≠ 0 := by decide
  by_cases hbacklog : s.backlog = []
  · rw [if_neg fun hready => hready.2.2 hbacklog, if_pos hbacklog]
  · rw [if_pos ⟨rfl, hmask, hbacklog⟩, if_neg hbacklog]

theorem idle_eq {s : AcceptorSystem} (hidle : s.activeChannel = none) :
    { s with activeChannel := none } = s := by
  rw [← hidle]

theorem Serving.round_eq {l : Listener} {s : AcceptorSystem} (h : Serving l s) {a : Acceptor}
    (ha : s.acceptor = some a) : s.round = some (handleRead a s) := by
  have hpoll : s.step .poll = some { s with activeChannel := s.reported } := by
    simp only [step, h.idle, if_true]
  rw [round, hpoll, Option.bind_some, h.reported_eq]
  by_cases hbacklog : s.backlog = []
  · have hnone : handleRead a s = s := by
      simp only [handleRead, accept4, hbacklog]
    rw [if_pos hbacklog, hnone, idle_eq h.idle, if_pos h.idle]
  · rw [if_neg hbacklog, if_neg (by simp)]
    have hhandle := handleEvent_alive ha (h.wired.untied a ha) EPOLLIN
    have hstep : step { s with activeChannel := some EPOLLIN } .handleEvent =
        handleEvent { s with activeChannel := none } EPOLLIN := rfl
    rw [hstep, idle_eq h.idle, hhandle]

theorem Serving.handleRead {l : Listener} {s : AcceptorSystem} (h : Serving l s) {a : Acceptor}
    (ha : s.acceptor = some a) : Serving l (handleRead a s) := by
  have hstepped := stepped_of_handleRead ha
  rw [idle_eq h.idle] at hstepped
  have hwired := h.wired.stepped hstepped
  rcases handleRead_cases a s with ⟨_, heq⟩ | ⟨client, rest, connfd, _, _, heq⟩
  · rwa [heq]
  · rw [heq] at hwired ⊢
    refine ⟨hwired, ?_, ?_⟩
    · split <;> exact h.idle
    · split <;> exact h.listens

/-- The free descriptors when the lowest one has been opened. -/
theorem length_freeFds {s t : AcceptorSystem} {fd : Nat} (hlowest : s.lowestFree = some fd)
    (hlimit : t.limit = s.limit) (hopen : t.openFds = fd :: s.openFds) :
    s.freeFds.length = t.freeFds.length + 1 := by
  have hmem : fd ∈ s.freeFds := by
    rw [lowestFree_eq] at hlowest
    exact List.mem_of_mem_head? hlowest
  have hnodup : s.freeFds.Nodup := List.nodup_range.filter _
  have herase : t.freeFds = s.freeFds.erase fd := by
    rw [hnodup.erase_eq_filter, freeFds, freeFds, List.filter_filter, hlimit, hopen]
    apply List.filter_congr
    intro x _
    rw [Bool.eq_iff_iff]
    simp [not_or]
  rw [herase, List.length_erase_of_mem hmem]
  have hpos := List.length_pos_of_mem hmem
  omega

theorem takes_take (n clients free : Nat) :
    takes true (n + 1) (clients + 1) (free + 1) = takes true n clients free + 1 := by
  simp only [takes, if_true]
  omega

theorem takes_refuse (n clients : Nat) {free : Nat} (hfree : free ≠ 0) :
    takes false (n + 1) (clients + 1) free = takes false n clients free + 1 := by
  simp only [takes, Bool.false_eq_true, if_false, hfree]
  omega

/-- What the rounds take. -/
theorem Serving.rounds {l : Listener} {s : AcceptorSystem} (h : Serving l s) (n : Nat) :
    ∃ t, AcceptorSystem.rounds n s = some t ∧ Serving l t ∧
      t.served.map Prod.fst = s.served.map Prod.fst ++
        s.backlog.take (takes l.callback n s.backlog.length s.freeFds.length) ∧
      t.backlog = s.backlog.drop (takes l.callback n s.backlog.length s.freeFds.length) := by
  induction n generalizing s with
  | zero => exact ⟨s, rfl, h, by simp [takes], by simp [takes]⟩
  | succ n ih =>
    obtain ⟨a, ha, _⟩ := h.acceptor_some
    have hcallback := (h.wired.alive a ha).2
    have hnext := h.handleRead ha
    rw [AcceptorSystem.rounds, h.round_eq ha, Option.bind_some]
    rcases handleRead_cases a s with ⟨hfails, heq⟩ | ⟨client, rest, connfd, hbacklog, hfree, heq⟩
    · -- nobody to take, or nothing to take with: the next round finds the same
      obtain ⟨t, ht, hserving, hserved, hrest⟩ := ih h
      have hsame : takes l.callback (n + 1) s.backlog.length s.freeFds.length =
          takes l.callback n s.backlog.length s.freeFds.length := by
        rcases hfails with hempty | hfull
        · simp [takes, hempty]
        · rw [lowestFree_eq, List.head?_eq_none_iff] at hfull
          simp [takes, hfull]
      rw [heq, hsame]
      exact ⟨t, ht, hserving, hserved, hrest⟩
    · obtain ⟨t, ht, hserving, hserved, hrest⟩ := ih hnext
      refine ⟨t, ht, hserving, ?_⟩
      rw [hbacklog, List.length_cons]
      cases hset : a.NewConnectionCallback_ with
      | true =>
        rw [hset, if_pos rfl] at heq
        have hlength := length_freeFds hfree (t := AcceptorSystem.handleRead a s)
          (by rw [heq]) (by rw [heq])
        rw [heq] at hserved hrest hlength
        rw [← hcallback, hset] at hserved hrest ⊢
        rw [hlength, takes_take, List.take_succ_cons, List.drop_succ_cons]
        exact ⟨by simpa using hserved, hrest⟩
      | false =>
        rw [hset, if_neg Bool.false_ne_true] at heq
        have hkept : (AcceptorSystem.handleRead a s).freeFds = s.freeFds := by
          rw [freeFds, freeFds, heq]
        rw [hkept, heq] at hserved hrest
        have hfree' : s.freeFds.length ≠ 0 := by
          rw [lowestFree_eq] at hfree
          intro hzero
          rw [List.length_eq_zero_iff.mp hzero] at hfree
          cases hfree
        rw [← hcallback, hset] at hserved hrest ⊢
        rw [takes_refuse _ _ hfree', List.take_succ_cons, List.drop_succ_cons]
        exact ⟨by simpa using hserved, hrest⟩

/-- Without a free descriptor a round changes nothing. -/
theorem Serving.rounds_full {l : Listener} {s : AcceptorSystem} (h : Serving l s)
    (hfull : s.freeFds = []) (n : Nat) : AcceptorSystem.rounds n s = some s := by
  obtain ⟨a, ha, _⟩ := h.acceptor_some
  have hround : s.round = some s := by
    rw [h.round_eq ha]
    rcases handleRead_cases a s with ⟨_, heq⟩ | ⟨_, _, connfd, _, hfree, _⟩
    · rw [heq]
    · rw [lowestFree_eq, hfull] at hfree
      cases hfree
  induction n with
  | zero => rfl
  | succ n ih => rw [AcceptorSystem.rounds, hround, Option.bind_some, ih]

end AcceptorSystem

open AcceptorSystem in
/-- **One client a round.**  Let `n` rounds of the loop go by with no other event, from any
    reachable state between two batches in which the acceptor listens.  They take the first
    clients of the queue, in order: with a callback `n` of them, or all, or as many as there are
    free descriptors, whichever is least; without one `n` or all, if a descriptor is free at
    all.  The poller reports the acceptor as long as one is left.  So without a free descriptor
    the loop goes round and round and leaves the state as it is. -/
theorem accept_rounds {l : Listener} {s : AcceptorSystem} {es : List AcceptorEvent}
    (hrun : Run step l.start es s) (hidle : s.activeChannel = none)
    (hlistens : s.acceptor.any Acceptor.listenning_ = true) (n : Nat) :
    ∃ t, rounds n s = some t ∧
      t.served.map Prod.fst = s.served.map Prod.fst ++
        s.backlog.take (takes l.callback n s.backlog.length s.freeFds.length) ∧
      t.backlog = s.backlog.drop (takes l.callback n s.backlog.length s.freeFds.length) ∧
      (t.reported = none ↔ t.backlog = []) ∧ (s.freeFds = [] → t = s) := by
  have hserving : Serving l s := ⟨(run_wired hrun).1, hidle, hlistens⟩
  obtain ⟨t, ht, hafter, hserved, hrest⟩ := hserving.rounds n
  refine ⟨t, ht, hserved, hrest, ?_, ?_⟩
  · rw [hafter.reported_eq]
    by_cases hempty : t.backlog = [] <;> simp [hempty]
  · intro hfull
    rw [hserving.rounds_full hfull] at ht
    exact (Option.some.inj ht).symm

open AcceptorSystem in
/-- Two clients, and one descriptor left. -/
theorem accept_rounds_last_descriptor :
    ∃ s t, Run step oneLeft.start [.listen true, .connect 10, .connect 11] s ∧
      rounds 2 s = some t ∧ t.backlog = [11] := by
  obtain ⟨s, hrun, hends⟩ := exists_run step oneLeft.start
    [.listen true, .connect 10, .connect 11]
    (fun s => (s.activeChannel, s.acceptor.any Acceptor.listenning_, s.backlog, s.freeFds))
    (none, true, [10, 11], [4]) rfl
  simp only [Prod.mk.injEq] at hends
  obtain ⟨hidle, hlistens, hbacklog, hfree⟩ := hends
  obtain ⟨t, ht, _, hrest, _⟩ := accept_rounds hrun hidle hlistens 2
  rw [hbacklog, hfree] at hrest
  exact ⟨s, t, hrun, ht, hrest⟩

end Muduo
