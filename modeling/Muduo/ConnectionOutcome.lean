import Muduo.Ownership

/-!
# What a method leaves behind

Every method of a connection keeps the poller's registration of its channel in step with
the channel, leaves the other descriptors alone, and either keeps the connection as open
as it was or closes it.
-/

namespace Muduo

/-! ### What a method does to the registration -/

namespace ConnCtx

variable {P : Output → Prop}

/-- The poller and the channel agree. -/
def Known (c : ConnCtx) : Prop := c.poller_.Registered c.conn.channelPtr c.conn.channel_

/-- The channel is in the interest list, for reading at least. -/
structure Watching (c : ConnCtx) : Prop where
  added : c.conn.channel_.index_ = kAdded
  reads : c.conn.channel_.events_ &&& kReadEvent = kReadEvent

/-- The connection is closed, and its channel wants nothing. -/
def Shut (c : ConnCtx) : Prop :=
  c.conn.state_ = .kDisconnected ∧ c.conn.channel_.events_ = kNoneEvent

/-- Descriptor and loops stay, and so does what the poller knows of other descriptors. -/
structure Beside (c c' : ConnCtx) : Prop where
  fd_eq : c'.conn.channel_.fd_ = c.conn.channel_.fd_
  serverLoop_eq : c'.conn.serverLoop_ = c.conn.serverLoop_
  elsewhere : ∀ fd, fd ≠ c.conn.channel_.fd_ →
    c'.poller_.m_channels fd = c.poller_.m_channels fd ∧
      c'.poller_.interest fd = c.poller_.interest fd

theorem Beside.refl (c : ConnCtx) : c.Beside c := ⟨rfl, rfl, fun _ _ => ⟨rfl, rfl⟩⟩

theorem Beside.trans {a b c : ConnCtx} (hab : a.Beside b) (hbc : b.Beside c) : a.Beside c := by
  refine ⟨hbc.fd_eq.trans hab.fd_eq, hbc.serverLoop_eq.trans hab.serverLoop_eq, ?_⟩
  intro fd hfd
  have hfirst := hab.elsewhere fd hfd
  have hsecond := hbc.elsewhere fd (by rwa [hab.fd_eq])
  exact ⟨hsecond.1.trans hfirst.1, hsecond.2.trans hfirst.2⟩

theorem updateChannel_fd (p : EpollPoller) (ptr : ChannelPtr) (ch : Channel) :
    (p.updateChannel ptr ch).1.fd_ = ch.fd_ := by
  simp only [EpollPoller.updateChannel]
  split
  · rfl
  · split <;> rfl

theorem Move.beside {c c' : ConnCtx} (h : Move P c c') : c.Beside c' := by
  cases h with
  | setEvents _ events =>
    refine ⟨updateChannel_fd _ _ _, rfl, ?_⟩
    intro fd hfd
    have hne : fd ≠ ({ c.conn.channel_ with events_ := events } : Channel).fd_ := hfd
    exact EpollPoller.updateChannel_of_ne hne
  | remove =>
    refine ⟨rfl, rfl, ?_⟩
    intro fd hfd
    exact EpollPoller.removeChannel_of_ne hfd
  | _ => exact ⟨rfl, rfl, fun _ _ => ⟨rfl, rfl⟩⟩

theorem Reaches.beside {c c' : ConnCtx} (h : c.Reaches P c') : c.Beside c' :=
  h.frame Beside.refl (fun _ _ _ => Beside.trans) fun _ _ => Move.beside

theorem Known.setEvents {c : ConnCtx} (h : c.Known) (events : EventMask) :
    (c.setEvents events).Known := by
  obtain ⟨index, q, hupdate, _, hq⟩ := EpollPoller.Registered.update h events
  simp only [Known, ConnCtx.setEvents, hupdate]
  exact hq

theorem Known.remove {c : ConnCtx} (h : c.Known) : c.remove.Known :=
  EpollPoller.Registered.remove h

theorem Move.known {c c' : ConnCtx} (h : Move P c c') (hknown : c.Known) : c'.Known := by
  cases h with
  | setEvents _ events => exact hknown.setEvents events
  | remove => exact hknown.remove
  | tie =>
    cases hknown with
    | new hindex hmap hkernel => exact .new hindex hmap hkernel
    | added hindex hmap hkernel => exact .added hindex hmap hkernel
    | deleted hindex hmap hkernel => exact .deleted hindex hmap hkernel
  | _ => exact hknown

theorem Reaches.known {c c' : ConnCtx} (h : c.Reaches P c') (hknown : c.Known) : c'.Known :=
  h.frame (R := fun c c' => c.Known → c'.Known) (fun _ => id) (fun _ _ _ hab hbc => hbc ∘ hab)
    (fun _ _ => Move.known) hknown

/-! ### What a method does to the state -/

/-- The method leaves the connection as open as it was. -/
structure Keeps (c c' : ConnCtx) : Prop where
  open_iff : c'.conn.state_ = .kDisconnected ↔ c.conn.state_ = .kDisconnected
  loops_eq : c'.conn.serverLoop_ = c.conn.serverLoop_ ∧ c'.conn.loop_ = c.conn.loop_
  outputs : .closeCallback ∈ c.outputs ↔ .closeCallback ∈ c'.outputs
  watching : c.Watching → c'.Watching

/-- It leaves a shut one alone. -/
structure Steady (c c' : ConnCtx) : Prop extends Keeps c c' where
  shut : c.Shut → c'.conn.channel_ = c.conn.channel_ ∧ c'.poller_ = c.poller_

/-- The method has closed the connection; on the server's loop it is removed as well. -/
structure Closed (c : ConnCtx) : Prop where
  shut : c.Shut
  called : .closeCallback ∈ c.outputs
  removed : c.conn.serverLoop_ = c.conn.loop_ → c.conn.channel_.index_ = kNew

theorem Keeps.trans {a b c : ConnCtx} (hab : a.Keeps b) (hbc : b.Keeps c) : a.Keeps c :=
  ⟨hbc.open_iff.trans hab.open_iff,
    ⟨hbc.loops_eq.1.trans hab.loops_eq.1, hbc.loops_eq.2.trans hab.loops_eq.2⟩,
    hab.outputs.trans hbc.outputs, hbc.watching ∘ hab.watching⟩

theorem Steady.of_eq {c c' : ConnCtx} (hstate : c'.conn.state_ = c.conn.state_)
    (hloops : c'.conn.serverLoop_ = c.conn.serverLoop_ ∧ c'.conn.loop_ = c.conn.loop_)
    (houtputs : .closeCallback ∈ c.outputs ↔ .closeCallback ∈ c'.outputs)
    (hchannel : c'.conn.channel_ = c.conn.channel_) (hpoller : c'.poller_ = c.poller_) :
    Steady c c' := by
  refine ⟨⟨by rw [hstate], hloops, houtputs, ?_⟩, fun _ => ⟨hchannel, hpoller⟩⟩
  rintro ⟨hadded, hreads⟩
  exact ⟨by rw [hchannel, hadded], by rw [hchannel, hreads]⟩

theorem Steady.refl (c : ConnCtx) : c.Steady c := .of_eq rfl ⟨rfl, rfl⟩ Iff.rfl rfl rfl

theorem Steady.keeps_shut {c c' : ConnCtx} (h : c.Steady c') (hs : c.Shut) : c'.Shut :=
  ⟨h.open_iff.mpr hs.1, by rw [(h.shut hs).1, hs.2]⟩

theorem Steady.trans {a b c : ConnCtx} (hab : a.Steady b) (hbc : b.Steady c) : a.Steady c := by
  refine ⟨hab.toKeeps.trans hbc.toKeeps, ?_⟩
  intro hs
  have hfirst := hab.shut hs
  have hsecond := hbc.shut (hab.keeps_shut hs)
  exact ⟨hsecond.1.trans hfirst.1, hsecond.2.trans hfirst.2⟩

theorem Closed.steady {c c' : ConnCtx} (h : c.Closed) (hs : c.Steady c') : c'.Closed := by
  refine ⟨hs.keeps_shut h.shut, hs.outputs.mp h.called, ?_⟩
  intro hsame
  rw [hs.loops_eq.1, hs.loops_eq.2] at hsame
  rw [(hs.shut h.shut).1]
  exact h.removed hsame

/-- What an event can do to a connection. -/
def Outcome (c c' : ConnCtx) : Prop := c.Steady c' ∨ c'.Closed

theorem Outcome.trans {a b c : ConnCtx} (hab : a.Outcome b) (hbc : b.Outcome c) :
    a.Outcome c := by
  rcases hbc with hsteady | hclosed
  · exact hab.imp (fun h => h.trans hsteady) fun h => h.steady hsteady
  · exact Or.inr hclosed

theorem emit_steady (c : ConnCtx) {o : Output} (ho : o ≠ .closeCallback) :
    c.Steady (c.emit o) := by
  refine .of_eq rfl ⟨rfl, rfl⟩ ?_ rfl rfl
  simp [emit, ho.symm]

theorem take_steady (c : ConnCtx) (data : List UInt8) : c.Steady (c.take data) :=
  .of_eq rfl ⟨rfl, rfl⟩ Iff.rfl rfl rfl

theorem setInputBuffer_steady (c : ConnCtx) (b : Buffer) : c.Steady (c.setInputBuffer b) :=
  .of_eq rfl ⟨rfl, rfl⟩ Iff.rfl rfl rfl

theorem setOutputBuffer_steady (c : ConnCtx) (b : Buffer) : c.Steady (c.setOutputBuffer b) :=
  .of_eq rfl ⟨rfl, rfl⟩ Iff.rfl rfl rfl

theorem shutdownInLoop_steady (c : ConnCtx) : c.Steady c.shutdownInLoop := by
  simp only [shutdownInLoop]
  split
  · refine .of_eq rfl ⟨rfl, rfl⟩ ?_ rfl rfl
    simp
  · exact Steady.refl c

theorem queueWriteComplete_steady (c : ConnCtx) : c.Steady c.queueWriteComplete := by
  simp only [queueWriteComplete]
  split
  · exact emit_steady c (by simp)
  · exact Steady.refl c

theorem queueHighWaterMark_steady (c : ConnCtx) (remaining : Nat) :
    c.Steady (c.queueHighWaterMark remaining) := by
  simp only [queueHighWaterMark]
  split
  · exact emit_steady c (by simp)
  · exact Steady.refl c

/-- Interest that keeps reading is a `MOD` of a channel in the list. -/
theorem Watching.setEvents {c : ConnCtx} (h : c.Watching) {events : EventMask}
    (hreads : events &&& kReadEvent = kReadEvent) : (c.setEvents events).Watching := by
  have hold : ¬ (kAdded = kNew ∨ kAdded = kDelete) := by decide
  have hsome : events ≠ kNoneEvent := by
    rintro rfl
    exact absurd hreads (by decide)
  have hch : (c.poller_.updateChannel c.conn.channelPtr
      { c.conn.channel_ with events_ := events }).1 =
        { c.conn.channel_ with events_ := events } := by
    simp [EpollPoller.updateChannel, h.added, hold, Channel.isNoneEvent, hsome]
  constructor
  · simp only [ConnCtx.setEvents, hch]
    exact h.added
  · simp only [ConnCtx.setEvents, hch]
    exact hreads

theorem setEvents_keeps {c : ConnCtx} {events : EventMask}
    (hreads : c.Watching → events &&& kReadEvent = kReadEvent) : c.Keeps (c.setEvents events) := by
  refine ⟨Iff.rfl, ⟨rfl, rfl⟩, ?_, fun h => h.setEvents (hreads h)⟩
  simp [ConnCtx.setEvents]

theorem or_kReadEvent_reads (events : EventMask) :
    (events ||| kReadEvent) &&& kReadEvent = kReadEvent := by
  rw [BitVec.and_or_distrib_right, BitVec.and_self]
  ext i
  simp only [BitVec.getElem_or, BitVec.getElem_and]
  cases events[i] <;> simp

theorem and_not_kWriteEvent_reads {events : EventMask}
    (h : events &&& kReadEvent = kReadEvent) :
    (events &&& ~~~kWriteEvent) &&& kReadEvent = kReadEvent := by
  have hdisjoint : ~~~kWriteEvent &&& kReadEvent = kReadEvent := by decide
  rw [BitVec.and_assoc, hdisjoint, h]

theorem handleWrite_steady (c : ConnCtx) (w : WriteResult) : c.Steady (c.handleWrite w) := by
  simp only [handleWrite]
  split
  · next hwriting =>
    have hopen : ¬ c.Shut := by
      rintro ⟨_, hnone⟩
      rw [Channel.isWriting, hnone] at hwriting
      exact absurd hwriting (by decide)
    have hkeeps : ∀ k, c.Keeps (c.afterWrite k) := by
      intro k
      have htaken := (take_steady c (c.conn.outputBuffer_.readable.take k)).trans
        (setOutputBuffer_steady _ (c.conn.outputBuffer_.retrieve k))
      simp only [afterWrite]
      split
      · have hdone := (htaken.toKeeps.trans (setEvents_keeps fun h =>
          and_not_kWriteEvent_reads h.reads)).trans (queueWriteComplete_steady _).toKeeps
        split
        · exact hdone.trans (shutdownInLoop_steady _).toKeeps
        · exact hdone
      · exact htaken.toKeeps
    split
    · split
      · exact ⟨hkeeps _, fun hs => absurd hs hopen⟩
      · exact Steady.refl c
    · exact Steady.refl c
  · exact Steady.refl c

theorem sendInLoop_steady {c c' : ConnCtx} {message : List UInt8} {w : WriteResult}
    (h : c.sendInLoop message w = .ok c') : c.Steady c' := by
  simp only [sendInLoop] at h
  split at h
  · cases h
    exact Steady.refl c
  · next hstate =>
    have hopen : ¬ c.Shut := by
      rintro ⟨hshut, _⟩
      exact hstate (by rw [hshut]; rfl)
    have hfirst : c.Steady (c.firstWrite message w).1 := by
      simp only [firstWrite]
      split
      · cases w with
        | wrote k =>
          simp only [directWrite]
          split
          · exact (take_steady c _).trans (queueWriteComplete_steady _)
          · exact take_steady c _
        | failed errno => exact Steady.refl c
      · exact Steady.refl c
    split at h
    · obtain ⟨b, _, hrest⟩ := bind_eq_ok.mp h
      have hbuffer := (hfirst.trans (queueHighWaterMark_steady _
        (message.drop (c.firstWrite message w).2).length)).trans (setOutputBuffer_steady _ b)
      cases hrest
      split
      · exact ⟨hbuffer.toKeeps.trans (setEvents_keeps fun _ => or_kReadEvent_reads _),
          fun hs => absurd hs hopen⟩
      · exact hbuffer
    · cases h
      exact hfirst

/-! ### Closing -/

theorem connectDestroyed_of_shut {c : ConnCtx} (h : c.Shut) : c.connectDestroyed = c.remove := by
  simp [connectDestroyed, h.1]

theorem handleClose_closed (c : ConnCtx) : c.handleClose.Closed := by
  have hshut : ((((c.setState .kDisconnected).disableAll).connectionCallback).emit
      .closeCallback).Shut :=
    ⟨rfl, EpollPoller.updateChannel_events ..⟩
  simp only [handleClose, closeCallback]
  split
  · rw [connectDestroyed_of_shut hshut]
    exact ⟨hshut, by simp [remove, emit], fun _ => rfl⟩
  · next hloops =>
    refine ⟨hshut, by simp [emit], ?_⟩
    intro hsame
    exact absurd (beq_iff_eq.mpr hsame) hloops

theorem handleRead_outcome {c c' : ConnCtx} {r : ReadResult} (h : c.handleRead r = .ok c') :
    c.Outcome c' := by
  obtain ⟨⟨ret, b⟩, _, hrest⟩ := bind_eq_ok.mp h
  have hbuffer := setInputBuffer_steady c b
  simp only at hrest
  split at hrest
  · cases hrest
    exact Or.inl (hbuffer.trans (emit_steady _ (by simp)))
  · split at hrest
    · cases hrest
      exact Or.inr (handleClose_closed _)
    · cases hrest
      exact Or.inl (hbuffer.trans (emit_steady _ (by simp)))

/-- An event leaves the connection as open as it was, or closes it. -/
theorem handleEvent_outcome {c c' : ConnCtx} {ownerAlive : Bool} {revents : EventMask}
    {r : ReadResult} {w : WriteResult} (h : c.handleEvent ownerAlive revents r w = .ok c') :
    c.Outcome c' := by
  have hguard : ∀ c', handleEventWithGuard (eventCallbacks r w) revents c = .ok c' →
      c.Outcome c' := by
    intro c' hok
    obtain ⟨c₁, hclosed, hok⟩ := bind_eq_ok.mp hok
    obtain ⟨c₂, herror, hok⟩ := bind_eq_ok.mp hok
    obtain ⟨c₃, hread, hwrite⟩ := bind_eq_ok.mp hok
    have h₁ : c.Outcome c₁ := by
      rw [← Except.ok.inj (callWhen_ok.symm.trans hclosed)]
      split
      · exact Or.inr (handleClose_closed c)
      · exact Or.inl (Steady.refl c)
    have h₂ : c₁.Outcome c₂ := by
      rw [← Except.ok.inj (callWhen_ok.symm.trans herror)]
      split
      · exact Or.inl (emit_steady c₁ (by simp))
      · exact Or.inl (Steady.refl c₁)
    have h₃ : c₃.Outcome c' := by
      rw [← Except.ok.inj (callWhen_ok.symm.trans hwrite)]
      split
      · exact Or.inl (handleWrite_steady c₃ w)
      · exact Or.inl (Steady.refl c₃)
    rw [readTest_eq_true] at hread
    exact ((h₁.trans h₂).trans (handleRead_outcome hread)).trans h₃
  simp only [ConnCtx.handleEvent, Muduo.handleEvent] at h
  split at h
  · split at h
    · exact hguard c' h
    · cases h
      exact Or.inl (Steady.refl c)
  · exact hguard c' h

/-- The store of `shutdown()` leaves an open connection open. -/
theorem shutdownStore_steady {c : ConnCtx} (hopen : c.conn.state_ ≠ .kDisconnected) :
    c.Steady c.shutdownStore := by
  refine ⟨⟨?_, ⟨rfl, rfl⟩, ?_, fun h => ⟨h.added, h.reads⟩⟩, fun _ => ⟨rfl, rfl⟩⟩
  · simp [shutdownStore, setState, emit, hopen]
  · simp [shutdownStore, setState, emit]

theorem connectEstablished_watching {c : ConnCtx} (hnew : c.conn.channel_.index_ = kNew) :
    c.connectEstablished.Watching := by
  have hch : (c.poller_.updateChannel c.conn.channelPtr { c.conn.channel_ with
      tied_ := true, events_ := c.conn.channel_.events_ ||| kReadEvent }).1 =
        { c.conn.channel_ with
          tied_ := true, events_ := c.conn.channel_.events_ ||| kReadEvent, index_ := kAdded } := by
    simp [EpollPoller.updateChannel, hnew]
  constructor
  · exact congrArg Channel.index_ hch
  · exact (congrArg (fun ch => ch.events_ &&& kReadEvent) hch).trans (or_kReadEvent_reads _)

end ConnCtx

end Muduo
