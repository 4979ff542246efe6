import Muduo.EpollPoller

/-!
# One pass of the loop over its active channels

`EpollPoller::fillActivChannels` stores each reported mask in its channel's `revents_`
and lists the channel; `EventLoop::loop` then calls `handleEvent` on the list.  Only the
poller writes `revents_`.  The callbacks act on the rest of the program, which decides at
any time whether a channel is tied and whether its owner can be locked.

`DispatchStep` records what a pass does, so that "exactly these callbacks, in this order"
is an equation between lists.  The read test is always true, and a pass is faithful to the
reported masks exactly when every channel it handles was reported readable or has no read
callback.
-/

namespace Muduo

/-! ### The pass -/

inductive CallbackKind where
  | close
  | error
  | read
  | write
deriving DecidableEq, Repr

/-- In the order of `handleEventWithGuard`. -/
def CallbackKind.order : List CallbackKind := [.close, .error, .read, .write]

theorem CallbackKind.mem_order (kind : CallbackKind) : kind ∈ order := by
  cases kind <;> decide

def EventCallbacks.get {σ : Type} (cbs : EventCallbacks σ) :
    CallbackKind → Option (σ → Except Fault σ)
  | .close => cbs.closeCallback_
  | .error => cbs.errorCallback_
  | .read => cbs.readCallback_
  | .write => cbs.writeCallback_

inductive DispatchStep where
  | handleEvent (channel : ChannelPtr)
  | callback (channel : ChannelPtr) (kind : CallbackKind)
deriving DecidableEq, Repr

/-- A pass in execution: the state the callbacks act on, and what was done so far. -/
structure DispatchPass (σ : Type) where
  user : σ
  steps : List DispatchStep
deriving DecidableEq

/-- The channels of a loop: their callbacks, and what `tied_` and `tie_.lock()` say of
    them in a state of the program. -/
structure LoopChannels (σ : Type) where
  callbacks : ChannelPtr → EventCallbacks σ
  tied_ : ChannelPtr → σ → Bool
  ownerAlive : ChannelPtr → σ → Bool

/-- Call `f` and record it. -/
def recordCall {σ : Type} (channel : ChannelPtr) (kind : CallbackKind) (f : σ → Except Fault σ)
    (p : DispatchPass σ) : Except Fault (DispatchPass σ) := do
  let user ← f p.user
  .ok ⟨user, p.steps ++ [.callback channel kind]⟩

/-- The callbacks of a channel, recorded. -/
def EventCallbacks.recorded {σ : Type} (cbs : EventCallbacks σ) (channel : ChannelPtr) :
    EventCallbacks (DispatchPass σ) where
  readCallback_ := cbs.readCallback_.map (recordCall channel .read)
  writeCallback_ := cbs.writeCallback_.map (recordCall channel .write)
  closeCallback_ := cbs.closeCallback_.map (recordCall channel .close)
  errorCallback_ := cbs.errorCallback_.map (recordCall channel .error)

/-- One round of `fillActivChannels`: store the mask in `revents_` and list the channel. -/
def fillActive (filled : (ChannelPtr → Channel) × List ChannelPtr) (event : EpollEvent) :
    (ChannelPtr → Channel) × List ChannelPtr :=
  (Function.update filled.1 event.data { filled.1 event.data with revents_ := event.events },
    filled.2 ++ [event.data])

def fillActivChannels (channels : ChannelPtr → Channel) (events : List EpollEvent) :
    (ChannelPtr → Channel) × List ChannelPtr :=
  events.foldl fillActive (channels, [])

namespace LoopChannels

variable {σ : Type}

/-- `channel->handleEvent(pollReturnTime_)`. -/
def handleActive (loop : LoopChannels σ) (channels : ChannelPtr → Channel) (p : DispatchPass σ)
    (channel : ChannelPtr) : Except Fault (DispatchPass σ) :=
  handleEvent ((loop.callbacks channel).recorded channel) (loop.tied_ channel p.user)
    (loop.ownerAlive channel p.user) (channels channel).revents_
    ⟨p.user, p.steps ++ [.handleEvent channel]⟩

/-- The part of an iteration of `loop()` between `poll` and `doPendingFunctors`, with
    what `epoll_wait` reported. -/
def dispatch (loop : LoopChannels σ) (channels : ChannelPtr → Channel) (events : List EpollEvent)
    (user : σ) : Except Fault (DispatchPass σ) :=
  let (channels, activeChannels_) := fillActivChannels channels events
  activeChannels_.foldlM (loop.handleActive channels) ⟨user, []⟩

end LoopChannels

/-! ### What the masks name -/

/-- The tests of `handleEventWithGuard`. -/
def CallbackKind.tested (revents : EventMask) : CallbackKind → Bool
  | .close => hangsUp revents
  | .error => revents &&& EPOLLERR != 0
  | .read => readTest revents
  | .write => revents &&& EPOLLOUT != 0

/-- Whether a mask reports something to read. -/
def reportsRead (revents : EventMask) : Bool :=
  revents &&& (EPOLLIN ||| EPOLLPRI ||| EPOLLRDHUP) != 0

/-- The callbacks that a mask names. -/
def CallbackKind.named (revents : EventMask) : CallbackKind → Bool
  | .close => hangsUp revents
  | .error => revents &&& EPOLLERR != 0
  | .read => reportsRead revents
  | .write => revents &&& EPOLLOUT != 0

/-- The callbacks that are set and pass a test, in order. -/
def EventCallbacks.passing {σ : Type} (cbs : EventCallbacks σ) (test : CallbackKind → Bool) :
    List CallbackKind :=
  CallbackKind.order.filter fun kind => (cbs.get kind).isSome && test kind

namespace LoopChannels

variable {σ : Type}

/-- A tied channel whose owner is gone is not handled. -/
def handles (loop : LoopChannels σ) (user : σ) (channel : ChannelPtr) : Bool :=
  !loop.tied_ channel user || loop.ownerAlive channel user

/-- What a pass does on one channel when each callback is called on its test. -/
def stepsOn (loop : LoopChannels σ) (user : σ) (channel : ChannelPtr)
    (test : CallbackKind → Bool) : List DispatchStep :=
  .handleEvent channel ::
    if loop.handles user channel then
      ((loop.callbacks channel).passing test).map (.callback channel)
    else
      []

/-- **Faithful dispatch.**  Each reported channel is handled once, in order, with exactly
    the set callbacks that its mask names. -/
def faithful (loop : LoopChannels σ) (user : σ) (events : List EpollEvent) : List DispatchStep :=
  events.flatMap fun event => loop.stepsOn user event.data (CallbackKind.named event.events)

/-- A callback leaves the ties of the other reported channels alone. -/
def KeepsTies (loop : LoopChannels σ) (reported : List ChannelPtr) : Prop :=
  ∀ channel kind f, (loop.callbacks channel).get kind = some f → ∀ s s', f s = .ok s' →
    ∀ other ∈ reported, other ≠ channel →
      loop.tied_ other s' = loop.tied_ other s ∧ loop.ownerAlive other s' = loop.ownerAlive other s

/-! ### One channel -/

/-- A move of a pass on one channel: what it did, and that it left the ties of the other
    reported channels alone. -/
structure Moved (loop : LoopChannels σ) (reported : List ChannelPtr) (channel : ChannelPtr)
    (steps : List DispatchStep) (p p' : DispatchPass σ) : Prop where
  steps_eq : p'.steps = p.steps ++ steps
  ties : ∀ other ∈ reported, other ≠ channel →
    loop.tied_ other p'.user = loop.tied_ other p.user ∧
      loop.ownerAlive other p'.user = loop.ownerAlive other p.user

variable {loop : LoopChannels σ} {reported : List ChannelPtr} {channel : ChannelPtr}

theorem Moved.refl (p : DispatchPass σ) : Moved loop reported channel [] p p :=
  ⟨(List.append_nil _).symm, fun _ _ _ => ⟨rfl, rfl⟩⟩

theorem Moved.trans {p p' p'' : DispatchPass σ} {steps steps' : List DispatchStep}
    (h : Moved loop reported channel steps p p') (h' : Moved loop reported channel steps' p' p'') :
    Moved loop reported channel (steps ++ steps') p p'' := by
  refine ⟨?_, ?_⟩
  · rw [h'.steps_eq, h.steps_eq, List.append_assoc]
  · intro other hin hne
    rw [(h'.ties other hin hne).1, (h'.ties other hin hne).2]
    exact h.ties other hin hne

/-- The step of a callback whose test may fail. -/
def callStep (loop : LoopChannels σ) (channel : ChannelPtr) (test : CallbackKind → Bool)
    (kind : CallbackKind) : List DispatchStep :=
  if ((loop.callbacks channel).get kind).isSome && test kind then
    [.callback channel kind]
  else
    []

theorem callWhen_moved (hties : loop.KeepsTies reported) {kind : CallbackKind}
    {test : CallbackKind → Bool} {p p' : DispatchPass σ}
    (h : callWhen (test kind)
      (((loop.callbacks channel).get kind).map (recordCall channel kind)) p = .ok p') :
    Moved loop reported channel (loop.callStep channel test kind) p p' := by
  cases hcallback : (loop.callbacks channel).get kind with
  | none =>
    rw [hcallback, Option.map_none] at h
    have hsame : p = p' := by
      cases htest : test kind with
      | true =>
        rw [htest] at h
        cases h
        rfl
      | false =>
        rw [htest] at h
        cases h
        rfl
    rw [callStep, hcallback, ← hsame]
    exact Moved.refl p
  | some f =>
    rw [hcallback, Option.map_some] at h
    rw [callStep, hcallback]
    cases htest : test kind with
    | false =>
      rw [htest] at h
      cases h
      exact Moved.refl p
    | true =>
      rw [htest] at h
      obtain ⟨user, huser, hok⟩ := bind_eq_ok.mp h
      cases hok
      exact ⟨rfl, fun other hin hne => hties channel kind f hcallback _ _ huser other hin hne⟩

theorem map_passing (test : CallbackKind → Bool) :
    ((loop.callbacks channel).passing test).map (DispatchStep.callback channel) =
      loop.callStep channel test .close ++ loop.callStep channel test .error ++
        loop.callStep channel test .read ++ loop.callStep channel test .write := by
  simp only [EventCallbacks.passing, CallbackKind.order, List.filter_cons, List.filter_nil,
    callStep]
  split <;> split <;> split <;> split <;> rfl

theorem handleEventWithGuard_moved (hties : loop.KeepsTies reported) {revents : EventMask}
    {p p' : DispatchPass σ}
    (h : handleEventWithGuard ((loop.callbacks channel).recorded channel) revents p = .ok p') :
    Moved loop reported channel
      (((loop.callbacks channel).passing (CallbackKind.tested revents)).map
        (.callback channel)) p p' := by
  obtain ⟨p₁, hclose, hrest⟩ := bind_eq_ok.mp h
  obtain ⟨p₂, herror, hrest⟩ := bind_eq_ok.mp hrest
  obtain ⟨p₃, hread, hwrite⟩ := bind_eq_ok.mp hrest
  have hclosed : Moved loop reported channel
      (loop.callStep channel (CallbackKind.tested revents) .close) p p₁ :=
    callWhen_moved hties hclose
  have herrored : Moved loop reported channel
      (loop.callStep channel (CallbackKind.tested revents) .error) p₁ p₂ :=
    callWhen_moved hties herror
  have hreaded : Moved loop reported channel
      (loop.callStep channel (CallbackKind.tested revents) .read) p₂ p₃ :=
    callWhen_moved hties hread
  have hwritten : Moved loop reported channel
      (loop.callStep channel (CallbackKind.tested revents) .write) p₃ p' :=
    callWhen_moved hties hwrite
  rw [map_passing]
  exact ((hclosed.trans herrored).trans hreaded).trans hwritten

theorem handleActive_moved (hties : loop.KeepsTies reported) {channels : ChannelPtr → Channel}
    {p p' : DispatchPass σ} (h : loop.handleActive channels p channel = .ok p') :
    Moved loop reported channel
      (loop.stepsOn p.user channel (CallbackKind.tested (channels channel).revents_)) p p' := by
  have hmark : Moved loop reported channel [.handleEvent channel] p
      ⟨p.user, p.steps ++ [.handleEvent channel]⟩ := ⟨rfl, fun _ _ _ => ⟨rfl, rfl⟩⟩
  simp only [handleActive, handleEvent] at h
  rw [stepsOn, ← List.singleton_append, handles]
  split at h
  · rename_i htied
    split at h
    · rename_i halive
      simp only [htied, halive, Bool.or_true, if_true]
      exact hmark.trans (handleEventWithGuard_moved hties h)
    · rename_i hgone
      rw [Bool.not_eq_true] at hgone
      cases h
      simp only [htied, hgone, Bool.not_true, Bool.or_false, Bool.false_eq_true, if_false]
      exact hmark.trans (Moved.refl _)
  · rename_i hfree
    rw [Bool.not_eq_true] at hfree
    simp only [hfree, Bool.not_false, Bool.true_or, if_true]
    exact hmark.trans (handleEventWithGuard_moved hties h)

/-! ### The whole pass -/

theorem stepsOn_congr {user user' : σ} {test : CallbackKind → Bool}
    (htied : loop.tied_ channel user' = loop.tied_ channel user)
    (halive : loop.ownerAlive channel user' = loop.ownerAlive channel user) :
    loop.stepsOn user' channel test = loop.stepsOn user channel test := by
  rw [stepsOn, stepsOn, handles, handles, htied, halive]

/-- The loop over the active channels. -/
theorem dispatch_fold {channels : ChannelPtr → Channel} {active : List ChannelPtr}
    (hties : loop.KeepsTies active) (hdistinct : active.Nodup) {p p' : DispatchPass σ}
    (h : active.foldlM (loop.handleActive channels) p = .ok p') :
    p'.steps = p.steps ++ active.flatMap fun channel =>
      loop.stepsOn p.user channel (CallbackKind.tested (channels channel).revents_) := by
  induction active generalizing p with
  | nil =>
    cases h
    exact (List.append_nil _).symm
  | cons channel active ih =>
    rw [List.foldlM_cons] at h
    obtain ⟨p₁, hfirst, hrest⟩ := bind_eq_ok.mp h
    obtain ⟨hfresh, hdistinct'⟩ := List.nodup_cons.mp hdistinct
    have hmoved := handleActive_moved hties hfirst
    have hties' : loop.KeepsTies active := by
      intro first kind f hf s s' hs other hin hne
      exact hties first kind f hf s s' hs other (List.mem_cons_of_mem _ hin) hne
    rw [ih hties' hdistinct' hrest, hmoved.steps_eq, List.flatMap_cons, List.append_assoc]
    congr 2
    -- the channels that are left find their ties as they were
    apply List.flatMap_congr
    intro other hin
    have hother : other ≠ channel := by
      rintro rfl
      exact hfresh hin
    obtain ⟨htied, halive⟩ := hmoved.ties other (List.mem_cons_of_mem _ hin) hother
    exact stepsOn_congr htied halive

end LoopChannels

theorem foldl_fillActive (filled : (ChannelPtr → Channel) × List ChannelPtr)
    {events : List EpollEvent} (hdistinct : (events.map EpollEvent.data).Nodup) :
    (events.foldl fillActive filled).2 = filled.2 ++ events.map EpollEvent.data ∧
      (∀ channel ∉ events.map EpollEvent.data,
        (events.foldl fillActive filled).1 channel = filled.1 channel) ∧
      ∀ event ∈ events,
        ((events.foldl fillActive filled).1 event.data).revents_ = event.events := by
  induction events generalizing filled with
  | nil =>
    refine ⟨(List.append_nil _).symm, fun _ _ => rfl, ?_⟩
    intro event hin
    cases hin
  | cons first events ih =>
    rw [List.map_cons, List.nodup_cons] at hdistinct
    obtain ⟨hlisted, hothers, hmasks⟩ := ih (fillActive filled first) hdistinct.2
    rw [List.foldl_cons]
    refine ⟨?_, ?_, ?_⟩
    · rw [hlisted, fillActive, List.append_assoc]
      rfl
    · intro channel hout
      rw [List.map_cons, List.mem_cons, not_or] at hout
      rw [hothers channel hout.2]
      exact Function.update_of_ne hout.1 ..
    · intro event hin
      rcases List.mem_cons.mp hin with rfl | hin
      · rw [hothers event.data hdistinct.1]
        simp only [fillActive, Function.update_self]
      · exact hmasks event hin

/-- Every reported channel is listed, in order, with its mask. -/
theorem fillActivChannels_spec (channels : ChannelPtr → Channel) {events : List EpollEvent}
    (hdistinct : (events.map EpollEvent.data).Nodup) :
    (fillActivChannels channels events).2 = events.map EpollEvent.data ∧
      ∀ event ∈ events, ((fillActivChannels channels events).1 event.data).revents_ =
        event.events := by
  obtain ⟨hlisted, _, hmasks⟩ := foldl_fillActive (channels, []) hdistinct
  exact ⟨hlisted, hmasks⟩

namespace LoopChannels

variable {σ : Type} {loop : LoopChannels σ}

/-- What a pass does: on each reported channel, the callbacks that pass the tests. -/
theorem dispatch_spec {channels : ChannelPtr → Channel} {events : List EpollEvent} {user : σ}
    {p : DispatchPass σ} (hdistinct : (events.map EpollEvent.data).Nodup)
    (hties : loop.KeepsTies (events.map EpollEvent.data))
    (h : loop.dispatch channels events user = .ok p) :
    p.steps = events.flatMap fun event =>
      loop.stepsOn user event.data (CallbackKind.tested event.events) := by
  obtain ⟨hlisted, hmasks⟩ := fillActivChannels_spec channels hdistinct
  simp only [dispatch, hlisted] at h
  rw [dispatch_fold hties hdistinct h, List.nil_append, List.flatMap_map]
  apply List.flatMap_congr
  intro event hin
  rw [hmasks event hin]

/-- The tests and the masks differ in the read callback alone. -/
theorem tested_eq_named {revents : EventMask} {kind : CallbackKind} (h : kind ≠ .read) :
    kind.tested revents = kind.named revents := by
  cases kind with
  | read => exact absurd rfl h
  | _ => rfl

theorem passing_named_sublist (cbs : EventCallbacks σ) (revents : EventMask) :
    (cbs.passing (CallbackKind.named revents)).Sublist
      (cbs.passing (CallbackKind.tested revents)) := by
  apply List.monotone_filter_right
  intro kind hnamed
  rw [Bool.and_eq_true] at hnamed ⊢
  refine ⟨hnamed.1, ?_⟩
  by_cases hread : kind = .read
  · rw [hread]
    exact readTest_eq_true revents
  · rw [tested_eq_named hread]
    exact hnamed.2

theorem passing_eq_iff (cbs : EventCallbacks σ) (revents : EventMask) :
    cbs.passing (CallbackKind.tested revents) = cbs.passing (CallbackKind.named revents) ↔
      (cbs.readCallback_.isSome = true → reportsRead revents = true) := by
  constructor
  · intro heq hset
    have htested : CallbackKind.read ∈ cbs.passing (CallbackKind.tested revents) := by
      refine List.mem_filter.mpr ⟨CallbackKind.mem_order _, ?_⟩
      rw [Bool.and_eq_true]
      exact ⟨hset, readTest_eq_true revents⟩
    rw [heq] at htested
    have hnamed := (List.mem_filter.mp htested).2
    rw [Bool.and_eq_true] at hnamed
    exact hnamed.2
  · intro hread
    apply List.filter_congr
    intro kind _
    by_cases hkind : kind = .read
    · rw [hkind]
      cases hset : (cbs.get .read).isSome with
      | false => rfl
      | true => exact (readTest_eq_true revents).trans (hread hset).symm
    · rw [tested_eq_named hkind]

theorem stepsOn_eq_iff {user : σ} {event : EpollEvent} :
    loop.stepsOn user event.data (CallbackKind.named event.events) =
        loop.stepsOn user event.data (CallbackKind.tested event.events) ↔
      (loop.handles user event.data = true →
        (loop.callbacks event.data).readCallback_.isSome = true →
          reportsRead event.events = true) := by
  rw [stepsOn, stepsOn, List.cons_inj_right]
  cases hhandles : loop.handles user event.data with
  | false => simp
  | true =>
    have hinj : Function.Injective (DispatchStep.callback event.data) := by
      intro kind kind' heq
      cases heq
      rfl
    rw [if_pos rfl, if_pos rfl, List.map_inj_right hinj, eq_comm, passing_eq_iff]
    simp only [true_imp_iff]

end LoopChannels

/-- **When a pass is faithful to the reported masks.**  Whatever channels are reported, with
    whatever masks and ties, a pass that returns has handled each of them once, in order,
    with exactly the set callbacks its mask names, exactly when each of those it handles
    has no read callback or was reported readable.  (`epoll_wait` reports a descriptor at
    most once.) -/
theorem dispatch_faithful_iff {σ : Type} (loop : LoopChannels σ)
    (channels : ChannelPtr → Channel) (events : List EpollEvent) (user : σ)
    (p : DispatchPass σ) (hdistinct : (events.map EpollEvent.data).Nodup)
    (hties : loop.KeepsTies (events.map EpollEvent.data))
    (hpass : loop.dispatch channels events user = .ok p) :
    p.steps = loop.faithful user events ↔
      ∀ event ∈ events, loop.handles user event.data = true →
        (loop.callbacks event.data).readCallback_.isSome = true →
          reportsRead event.events = true := by
  have hlength : ∀ event : EpollEvent,
      (loop.stepsOn user event.data (CallbackKind.named event.events)).length ≤
        (loop.stepsOn user event.data (CallbackKind.tested event.events)).length := by
    intro event
    simp only [LoopChannels.stepsOn, List.length_cons]
    split
    · rw [List.length_map, List.length_map]
      have hsublist := LoopChannels.passing_named_sublist (loop.callbacks event.data) event.events
      exact Nat.succ_le_succ hsublist.length_le
    · exact Nat.le_refl _
  rw [LoopChannels.dispatch_spec hdistinct hties hpass, LoopChannels.faithful, eq_comm,
    flatMap_eq_iff_of_length_le hlength]
  apply forall_congr'
  intro event
  rw [LoopChannels.stepsOn_eq_iff]

/-- Two channels with read and write callbacks; the first is tied and its owner is gone. -/
def twoChannels : LoopChannels Unit where
  callbacks _ := ⟨some .ok, some .ok, none, none⟩
  tied_ channel _ := channel == 1
  ownerAlive _ _ := false

theorem twoChannels_keepsTies (reported : List ChannelPtr) : twoChannels.KeepsTies reported := by
  intro channel kind f _ s s' _ other _ _
  exact ⟨rfl, rfl⟩

theorem dispatch_faithful_iff_two_channels :
    ∃ p, twoChannels.dispatch (fun _ => Channel.new 5)
        [⟨EPOLLOUT, 1⟩, ⟨EPOLLIN ||| EPOLLOUT, 2⟩] () = .ok p ∧
      (p.steps = twoChannels.faithful () [⟨EPOLLOUT, 1⟩, ⟨EPOLLIN ||| EPOLLOUT, 2⟩] ↔
        ∀ event ∈ [EpollEvent.mk EPOLLOUT 1, ⟨EPOLLIN ||| EPOLLOUT, 2⟩],
          twoChannels.handles () event.data = true →
            (twoChannels.callbacks event.data).readCallback_.isSome = true →
              reportsRead event.events = true) := by
  have hpass : twoChannels.dispatch (fun _ => Channel.new 5)
      [⟨EPOLLOUT, 1⟩, ⟨EPOLLIN ||| EPOLLOUT, 2⟩] () =
        .ok ⟨(), [.handleEvent 1, .handleEvent 2, .callback 2 .read, .callback 2 .write]⟩ := rfl
  refine ⟨_, hpass, ?_⟩
  exact dispatch_faithful_iff twoChannels _ _ () _ (by decide) (twoChannels_keepsTies _) hpass

/-- A channel that is only writable gets its read callback as well. -/
theorem read_callback_on_writable_channel :
    twoChannels.KeepsTies [2] ∧
      ∃ p, twoChannels.dispatch (fun _ => Channel.new 5) [⟨EPOLLOUT, 2⟩] () = .ok p ∧
        p.steps ≠ twoChannels.faithful () [⟨EPOLLOUT, 2⟩] := by
  have hpass : twoChannels.dispatch (fun _ => Channel.new 5) [⟨EPOLLOUT, 2⟩] () =
      .ok ⟨(), [.handleEvent 2, .callback 2 .read, .callback 2 .write]⟩ := rfl
  exact ⟨twoChannels_keepsTies _, _, hpass, by decide⟩

end Muduo
