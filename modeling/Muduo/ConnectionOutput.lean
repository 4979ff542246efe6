import Muduo.TcpConnection
import Muduo.BufferStreams

/-!
# The output side of a connection

A session is a connection that was just established, and everything that can happen to
its output: messages reaching `sendInLoop` on the loop thread, write events, `shutdown()`
calls on any number of threads (the check of `state_` and the store behind it are two
steps), and the queued `shutdownInLoop` functors.  The kernel answers every `write()`
with any count up to the length offered, or with an error.

The code never sets `kWriteEvent`: after a short write `sendInLoop` calls
`enableReading`, and the rest of the message is appended to a buffer whose writer index
does not move.  `Calm` is the resulting invariant of every session.  From it follow the
exact conditions for the three laws of this side: no byte is lost, pending bytes are
watched, and the half close waits for them.
-/

namespace Muduo

open Transitions

/-! ### Sessions -/

inductive OutEvent where
  | sendInLoop (message : List UInt8) (w : WriteResult)
  | handleWrite (w : WriteResult)
  /-- A `shutdown()` call reads `state_`. -/
  | shutdownLoad
  /-- A `shutdown()` call that read `kConnected` stores `kDisconnecting` and queues. -/
  | shutdownStore
  /-- The loop runs a queued `shutdownInLoop`. -/
  | shutdownInLoop
deriving DecidableEq

structure Session where
  ctx : ConnCtx
  /-- The messages passed to `sendInLoop`, less those dropped on its fault path. -/
  accepted : List UInt8
  /-- `shutdown()` calls between their load and their store. -/
  shutdownCalls : Nat
  queuedShutdowns : Nat
  /-- For each `shutdownWrite()`, the bytes accepted and the bytes taken when it ran. -/
  shutdownLog : List (List UInt8 × List UInt8)

namespace Session

def start (cfg : ConnConfig) : Session := ⟨cfg.established, [], 0, 0, []⟩

/-- The bytes the kernel has taken. -/
def taken (s : Session) : List UInt8 := s.ctx.conn.socket_.taken

/-- The session after a call that left `c` behind. -/
def after (s : Session) (c : ConnCtx) : Session :=
  { s with
    ctx := c
    shutdownLog :=
      if s.ctx.conn.socket_.shutdownWrites < c.conn.socket_.shutdownWrites then
        s.shutdownLog ++ [(s.accepted, c.conn.socket_.taken)]
      else
        s.shutdownLog }

/-- The results a `write()` of `len` bytes can have. -/
def possible (len : Nat) : WriteResult → Bool
  | .wrote k => decide (k ≤ len)
  | .failed _ => true

def step (s : Session) : OutEvent → Option Session
  | .sendInLoop message w =>
    if possible message.length w then
      (returned (s.ctx.sendInLoop message w)).map fun c =>
        { s.after c with accepted :=
            if s.ctx.conn.state_ == .kDisconnected || s.ctx.writesDirectly && ConnCtx.isFault w then
              s.accepted
            else
              s.accepted ++ message }
    else
      none
  | .handleWrite w =>
    if possible s.ctx.conn.outputBuffer_.readableBytes w then
      some (s.after (s.ctx.handleWrite w))
    else
      none
  | .shutdownLoad =>
    if s.ctx.conn.state_ == .kConnected then
      some { s with shutdownCalls := s.shutdownCalls + 1 }
    else
      some s
  | .shutdownStore =>
    if 0 < s.shutdownCalls then
      some { s with
        ctx := s.ctx.setState .kDisconnecting
        shutdownCalls := s.shutdownCalls - 1
        queuedShutdowns := s.queuedShutdowns + 1 }
    else
      none
  | .shutdownInLoop =>
    if 0 < s.queuedShutdowns then
      some { s.after s.ctx.shutdownInLoop with queuedShutdowns := s.queuedShutdowns - 1 }
    else
      none

/-! ### The laws -/

/-- The bytes taken, then the readable ones, are the messages accepted. -/
def NothingLost (s : Session) : Prop :=
  s.taken ++ s.ctx.conn.outputBuffer_.readable = s.accepted

/-- The channel asks for write events, and so does its registration with the kernel. -/
def WatchesWrites (s : Session) : Prop :=
  s.ctx.conn.channel_.isWriting = true ∧
    ∃ event, s.ctx.poller_.interest s.ctx.conn.channel_.fd_ = some event ∧
      event.events &&& kWriteEvent ≠ 0

/-- Write interest is on while an accepted byte is not taken, and off otherwise. -/
def PendingWatched (s : Session) : Prop :=
  (s.taken ≠ s.accepted → s.WatchesWrites) ∧
    (s.taken = s.accepted → s.ctx.conn.channel_.isWriting = false)

/-- Every half close found every accepted byte taken. -/
def ShutsDownDrained (s : Session) : Prop := ∀ entry ∈ s.shutdownLog, entry.1 = entry.2

end Session

namespace OutEvent

/-- The event, when it is a send, has its whole message taken by the direct `write()`. -/
def TakesAll : OutEvent → Prop
  | .sendInLoop message (.wrote k) => k = message.length
  | .sendInLoop message (.failed _) => message = []
  | _ => True

/-- The event's `write()`, when it fails, fails with `EPIPE` or `ECONNRESET`. -/
def Faults : OutEvent → Prop
  | .sendInLoop _ w => ConnCtx.isFault w = true
  | .handleWrite w => ConnCtx.isFault w = true
  | _ => False

/-- The event's `write()` takes some bytes or fails with `EWOULDBLOCK`. -/
def OnlyBlocks : OutEvent → Prop
  | .sendInLoop _ (.failed errno) => errno = .EWOULDBLOCK
  | .handleWrite (.failed errno) => errno = .EWOULDBLOCK
  | _ => True

instance : DecidablePred TakesAll
  | .sendInLoop message (.wrote k) => inferInstanceAs (Decidable (k = message.length))
  | .sendInLoop message (.failed _) => inferInstanceAs (Decidable (message = []))
  | .handleWrite _ | .shutdownLoad | .shutdownStore | .shutdownInLoop => isTrue trivial

instance : DecidablePred Faults
  | .sendInLoop _ w | .handleWrite w => inferInstanceAs (Decidable (ConnCtx.isFault w = true))
  | .shutdownLoad | .shutdownStore | .shutdownInLoop => isFalse id

instance : DecidablePred OnlyBlocks
  | .sendInLoop _ (.failed errno) | .handleWrite (.failed errno) =>
    inferInstanceAs (Decidable (errno = .EWOULDBLOCK))
  | .sendInLoop _ (.wrote _) | .handleWrite (.wrote _) => isTrue trivial
  | .shutdownLoad | .shutdownStore | .shutdownInLoop => isTrue trivial

end OutEvent

/-! ### What every session leaves invariant -/

/-- The state between steps: open, not watching for writes, and with nothing readable
    in the output buffer. -/
structure ConnCtx.Calm (c : ConnCtx) : Prop where
  opened : c.conn.state_ ≠ .kDisconnected
  notWriting : c.conn.channel_.isWriting = false
  drained : c.conn.outputBuffer_.Drained

namespace ConnCtx

@[simp] theorem queueWriteComplete_conn (c : ConnCtx) : c.queueWriteComplete.conn = c.conn := by
  simp only [queueWriteComplete]
  split <;> rfl

theorem enableReading_isWriting (c : ConnCtx) :
    c.enableReading.conn.channel_.isWriting = c.conn.channel_.isWriting := by
  simp only [enableReading, setEvents, Channel.isWriting, EpollPoller.updateChannel_events,
    or_kReadEvent_and_kWriteEvent]

theorem Calm.writesDirectly {c : ConnCtx} (h : c.Calm) : c.writesDirectly = true := by
  simp [ConnCtx.writesDirectly, h.notWriting, h.drained.readableBytes_eq]

theorem Calm.handleWrite {c : ConnCtx} (h : c.Calm) (w : WriteResult) : c.handleWrite w = c := by
  simp [ConnCtx.handleWrite, h.notWriting]

/-- The bytes of a message that a `write()` takes. -/
def takenOf (message : List UInt8) : WriteResult → List UInt8
  | .wrote k => message.take k
  | .failed _ => []

theorem Calm.of_conn {c c' : ConnCtx} (h : c.Calm) (hconn : c'.conn = c.conn) : c'.Calm := by
  rcases h with ⟨hopened, hnot, hdrained⟩
  rw [← hconn] at hopened hnot hdrained
  exact ⟨hopened, hnot, hdrained⟩

theorem directWrite_conn (c : ConnCtx) (message : List UInt8) (w : WriteResult) :
    (c.directWrite message w).1.conn = (c.take (takenOf message w)).conn := by
  cases w with
  | wrote k =>
    simp only [directWrite, takenOf]
    split
    · exact queueWriteComplete_conn _
    · rfl
  | failed errno => simp [directWrite, takenOf, take]

@[simp] theorem queueHighWaterMark_conn (c : ConnCtx) (remaining : Nat) :
    (c.queueHighWaterMark remaining).conn = c.conn := by
  simp only [queueHighWaterMark]
  split <;> rfl

/-- Buffering a rest asks for read events, whatever the buffer then holds. -/
theorem bufferRest_calm {c c' : ConnCtx} {rest : List UInt8} (h : c.Calm)
    (hok : c.bufferRest rest = .ok c') :
    c'.Calm ∧ c'.conn.socket_ = c.conn.socket_ ∧ c'.conn.state_ = c.conn.state_ := by
  simp only [bufferRest, queueHighWaterMark_conn] at hok
  obtain ⟨b, hb, hrest⟩ := bind_eq_ok.mp hok
  have hconn : ((c.queueHighWaterMark rest.length).setOutputBuffer b).conn
      = (c.setOutputBuffer b).conn := by
    simp only [setOutputBuffer, queueHighWaterMark_conn]
  have hnot : (c.setOutputBuffer b).conn.channel_.isWriting = false := h.notWriting
  simp only [hconn, hnot, Bool.not_false, if_true] at hrest
  cases hrest
  have hkept : (c.setOutputBuffer b).Calm := ⟨h.opened, hnot, h.drained.append hb⟩
  rcases hkept.of_conn hconn with ⟨hopened, _, hdrained⟩
  have hsocket := congrArg TcpConnection.socket_ hconn
  have hstate := congrArg TcpConnection.state_ hconn
  refine ⟨⟨hopened, ?_, hdrained⟩, hsocket, hstate⟩
  rw [enableReading_isWriting, hconn]
  exact hnot

theorem Calm.directWrite {c : ConnCtx} (h : c.Calm) (message : List UInt8) (w : WriteResult) :
    (c.directWrite message w).1.Calm := by
  have htake : (c.take (takenOf message w)).Calm := ⟨h.opened, h.notWriting, h.drained⟩
  exact htake.of_conn (directWrite_conn c message w)

/-- **What a send does.**  It leaves the connection calm and hands the kernel the bytes
    of one `write()`; the others are in no readable place afterwards. -/
theorem sendInLoop_calm {c c' : ConnCtx} {message : List UInt8} {w : WriteResult} (h : c.Calm)
    (hok : c.sendInLoop message w = .ok c') :
    c'.Calm ∧ c'.conn.socket_ = (c.take (takenOf message w)).conn.socket_ ∧
      c'.conn.state_ = c.conn.state_ := by
  have hopened : (c.conn.state_ == .kDisconnected) = false := by
    rw [beq_eq_false_iff_ne]
    exact h.opened
  have hwritten := h.directWrite message w
  simp only [sendInLoop, firstWrite, hopened, h.writesDirectly, if_true, Bool.false_eq_true,
    if_false] at hok
  split at hok
  · obtain ⟨hcalm, hsocket, hstate⟩ := bufferRest_calm hwritten hok
    rw [hsocket, hstate, directWrite_conn]
    exact ⟨hcalm, rfl, rfl⟩
  · cases hok
    refine ⟨hwritten, ?_, ?_⟩
    · rw [directWrite_conn]
    · rw [directWrite_conn]
      rfl

theorem bufferRest_returns {c : ConnCtx} {rest : List UInt8} (h : c.Calm)
    (hfits : Buffer.kCheapPrepend + rest.length ≤ vectorMaxSize) :
    ∃ c', c.bufferRest rest = .ok c' := by
  rw [← h.drained.writer_eq] at hfits
  obtain ⟨b, hb⟩ := Buffer.append_returns rest h.drained.wf hfits
  simp only [bufferRest, queueHighWaterMark_conn]
  exact ⟨_, bind_eq_ok.mpr ⟨b, hb, rfl⟩⟩

theorem sendInLoop_returns {c : ConnCtx} (message : List UInt8) (w : WriteResult) (h : c.Calm)
    (hfits : Buffer.kCheapPrepend + message.length ≤ vectorMaxSize) :
    ∃ c', c.sendInLoop message w = .ok c' := by
  have hwritten := h.directWrite message w
  simp only [sendInLoop, firstWrite, h.writesDirectly, if_true]
  split
  · exact ⟨c, rfl⟩
  · split
    · apply bufferRest_returns hwritten
      rw [List.length_drop]
      omega
    · exact ⟨_, rfl⟩

theorem Calm.shutdownInLoop {c : ConnCtx} (h : c.Calm) :
    c.shutdownInLoop.Calm ∧ c.shutdownInLoop.conn.socket_
      = ⟨c.conn.socket_.taken, c.conn.socket_.shutdownWrites + 1⟩ := by
  simp only [ConnCtx.shutdownInLoop, h.notWriting, Bool.not_false, if_true, and_true]
  exact ⟨h.opened, h.notWriting, h.drained⟩

end ConnCtx

theorem ConnConfig.established_calm (cfg : ConnConfig) : cfg.established.Calm := by
  refine ⟨?_, ?_, Buffer.new_drained⟩
  · show StateE.kConnected ≠ .kDisconnected
    decide
  · calc cfg.established.conn.channel_.isWriting
        = (Channel.new cfg.sockfd).isWriting := ConnCtx.enableReading_isWriting _
      _ = false := Channel.new_isWriting cfg.sockfd

/-! ### What one event adds to the streams -/

namespace OutEvent

/-- The bytes the kernel takes in the event, on a calm connection. -/
def taken : OutEvent → List UInt8
  | .sendInLoop message w => ConnCtx.takenOf message w
  | _ => []

def accepted : OutEvent → List UInt8
  | .sendInLoop message w => if ConnCtx.isFault w then [] else message
  | _ => []

/-- The kernel takes no more than it is offered. -/
def Possible : OutEvent → Prop
  | .sendInLoop message w => Session.possible message.length w = true
  | _ => True

theorem taken_eq_accepted_iff {e : OutEvent} (hpossible : e.Possible) :
    e.taken = e.accepted ↔ e.TakesAll ∨ e.Faults := by
  cases e with
  | sendInLoop message w =>
    cases w with
    | wrote k =>
      have hk : k ≤ message.length := of_decide_eq_true hpossible
      simp only [taken, accepted, ConnCtx.takenOf, ConnCtx.isFault, TakesAll, Faults,
        Bool.false_eq_true, if_false, or_false, List.take_eq_self_iff]
      omega
    | failed errno =>
      cases errno <;>
        simp [taken, accepted, ConnCtx.takenOf, ConnCtx.isFault, TakesAll, Faults, eq_comm]
  | _ => simp [taken, accepted, TakesAll]

theorem length_taken_le (e : OutEvent) : e.taken.length ≤ e.accepted.length := by
  cases e with
  | sendInLoop message w =>
    cases w with
    | wrote k =>
      simp only [taken, accepted, ConnCtx.takenOf, ConnCtx.isFault, Bool.false_eq_true, if_false]
      exact List.length_take_le' k message
    | failed errno => exact Nat.zero_le _
  | _ => exact Nat.le_refl 0

theorem OnlyBlocks.not_faults {e : OutEvent} (h : e.OnlyBlocks) : ¬ e.Faults := by
  cases e with
  | sendInLoop message w =>
    cases w with
    | wrote k => exact Bool.false_ne_true
    | failed errno =>
      cases h
      exact Bool.false_ne_true
  | handleWrite w =>
    cases w with
    | wrote k => exact Bool.false_ne_true
    | failed errno =>
      cases h
      exact Bool.false_ne_true
  | _ => exact id

/-- Streams that start equal stay equal while every event takes what it accepts. -/
theorem streams_eq_iff (es : List OutEvent) :
    es.flatMap taken = es.flatMap accepted ↔ ∀ e ∈ es, e.taken = e.accepted :=
  flatMap_eq_iff_of_length_le length_taken_le

end OutEvent

namespace Session

/-- What one step does to a calm session. -/
structure Stepped (s : Session) (e : OutEvent) (t : Session) : Prop where
  possible : e.Possible
  calm : t.ctx.Calm
  taken_eq : t.taken = s.taken ++ e.taken
  accepted_eq : t.accepted = s.accepted ++ e.accepted
  log_eq : t.shutdownLog =
    s.shutdownLog ++ if e = .shutdownInLoop then [(s.accepted, s.taken)] else []

theorem after_shutdownLog {s : Session} {c : ConnCtx}
    (h : c.conn.socket_.shutdownWrites = s.ctx.conn.socket_.shutdownWrites) :
    (s.after c).shutdownLog = s.shutdownLog := by
  simp only [after, h, Nat.lt_irrefl, if_false]

/-- **One step of a session.**  A send adds to the streams, a queued `shutdownInLoop`
    closes at once, and a write event finds nothing to write. -/
theorem step_calm {s t : Session} {e : OutEvent} (h : s.ctx.Calm) (hstep : s.step e = some t) :
    Stepped s e t := by
  cases e with
  | sendInLoop message w =>
    simp only [step] at hstep
    split at hstep
    · rename_i hpossible
      obtain ⟨c, hc, rfl⟩ := Option.map_eq_some_iff.mp hstep
      obtain ⟨hcalm, hsocket, _⟩ := ConnCtx.sendInLoop_calm h (returned_eq_some.mp hc)
      have hopened : (s.ctx.conn.state_ == .kDisconnected) = false := by
        rw [beq_eq_false_iff_ne]
        exact h.opened
      refine ⟨hpossible, hcalm, ?_, ?_, ?_⟩
      · show c.conn.socket_.taken = _
        rw [hsocket]
        rfl
      · simp only [hopened, h.writesDirectly, Bool.false_or, Bool.true_and, OutEvent.accepted]
        split
        · rw [List.append_nil]
        · rfl
      · have hlog := after_shutdownLog (s := s) (c := c) (by rw [hsocket]; rfl)
        simpa using hlog
    · cases hstep
  | handleWrite w =>
    simp only [step, h.handleWrite] at hstep
    split at hstep
    · cases hstep
      refine ⟨trivial, h, (List.append_nil _).symm, (List.append_nil _).symm, ?_⟩
      rw [after_shutdownLog rfl]
      exact (List.append_nil _).symm
    · cases hstep
  | shutdownLoad =>
    simp only [step] at hstep
    split at hstep
    all_goals
      cases hstep
      exact ⟨trivial, h, (List.append_nil _).symm, (List.append_nil _).symm,
        (List.append_nil _).symm⟩
  | shutdownStore =>
    simp only [step] at hstep
    split at hstep
    · cases hstep
      have hcalm : (s.ctx.setState .kDisconnecting).Calm :=
        ⟨StateE.noConfusion, h.notWriting, h.drained⟩
      exact ⟨trivial, hcalm, (List.append_nil _).symm, (List.append_nil _).symm,
        (List.append_nil _).symm⟩
    · cases hstep
  | shutdownInLoop =>
    simp only [step] at hstep
    split at hstep
    · cases hstep
      rcases h.shutdownInLoop with ⟨hcalm, hsocket⟩
      refine ⟨trivial, hcalm, ?_, (List.append_nil _).symm, ?_⟩
      · show s.ctx.shutdownInLoop.conn.socket_.taken = _
        rw [hsocket]
        exact (List.append_nil _).symm
      · simp only [after, hsocket, Nat.lt_succ_self, if_true]
        rfl
    · cases hstep

/-- The streams after a whole run. -/
theorem run_calm {s t : Session} {es : List OutEvent} (h : s.ctx.Calm)
    (hrun : Run step s es t) :
    t.ctx.Calm ∧ (∀ e ∈ es, e.Possible) ∧ t.taken = s.taken ++ es.flatMap OutEvent.taken ∧
      t.accepted = s.accepted ++ es.flatMap OutEvent.accepted := by
  induction es generalizing s with
  | nil =>
    cases hrun.eq_of_nil
    refine ⟨h, ?_, (List.append_nil _).symm, (List.append_nil _).symm⟩
    intro e he
    cases he
  | cons e es ih =>
    obtain ⟨u, hu, hrest⟩ := hrun.uncons
    have hstepped := step_calm h hu
    obtain ⟨hcalm, hpossible, htaken, haccepted⟩ := ih hstepped.calm hrest
    refine ⟨hcalm, ?_, ?_, ?_⟩
    · rw [List.forall_mem_cons]
      exact ⟨hstepped.possible, hpossible⟩
    · rw [htaken, hstepped.taken_eq, List.flatMap_cons, List.append_assoc]
    · rw [haccepted, hstepped.accepted_eq, List.flatMap_cons, List.append_assoc]

theorem start_calm (cfg : ConnConfig) : (start cfg).ctx.Calm := cfg.established_calm

/-! ### No byte is lost -/

/-- The part of the invariant that is about the streams. -/
def Flushed (s : Session) : Prop := s.ctx.Calm ∧ s.taken = s.accepted

theorem start_flushed (cfg : ConnConfig) : (start cfg).Flushed := ⟨start_calm cfg, rfl⟩

theorem Flushed.nothingLost {s : Session} (h : s.Flushed) : s.NothingLost := by
  rw [NothingLost, h.1.drained.readable_eq, List.append_nil]
  exact h.2

theorem Flushed.step_iff {s t : Session} {e : OutEvent} (h : s.Flushed)
    (hstep : s.step e = some t) : t.taken = t.accepted ↔ e.TakesAll ∨ e.Faults := by
  have hstepped := step_calm h.1 hstep
  rw [hstepped.taken_eq, hstepped.accepted_eq, h.2, List.append_cancel_left_eq,
    OutEvent.taken_eq_accepted_iff hstepped.possible]

theorem Flushed.step {s t : Session} {e : OutEvent} (h : s.Flushed)
    (htakes : e.TakesAll ∨ e.Faults) (hstep : s.step e = some t) : t.Flushed :=
  ⟨(step_calm h.1 hstep).calm, (h.step_iff hstep).mpr htakes⟩

theorem Flushed.step_loses {s t : Session} {e : OutEvent} (h : s.Flushed)
    (hshort : ¬ (e.TakesAll ∨ e.Faults)) (hstep : s.step e = some t) : ¬ t.NothingLost := by
  intro hkept
  rw [NothingLost, (step_calm h.1 hstep).calm.drained.readable_eq, List.append_nil] at hkept
  exact hshort ((h.step_iff hstep).mp hkept)

/-- Write interest is never on, so it is right exactly while nothing is pending. -/
theorem pendingWatched_iff {s : Session} (h : s.ctx.Calm) :
    s.PendingWatched ↔ s.taken = s.accepted := by
  constructor
  · rintro ⟨hwatched, _⟩
    by_contra hpending
    have hwriting := (hwatched hpending).1
    rw [h.notWriting] at hwriting
    cases hwriting
  · intro hflushed
    exact ⟨fun hpending => absurd hflushed hpending, fun _ => h.notWriting⟩

/-! ### The half close -/

theorem step_shutsDownDrained_iff {s t : Session} {e : OutEvent} (h : s.ctx.Calm)
    (hlog : s.ShutsDownDrained) (hstep : s.step e = some t) :
    t.ShutsDownDrained ↔ (e = .shutdownInLoop → s.taken = s.accepted) := by
  rw [ShutsDownDrained, (step_calm h hstep).log_eq]
  constructor
  · intro hdrained he
    have hentry := hdrained (s.accepted, s.taken) (by
      rw [if_pos he]
      exact List.mem_append_right _ (List.mem_singleton_self _))
    exact hentry.symm
  · intro hflushed entry hentry
    rcases List.mem_append.mp hentry with hold | hnew
    · exact hlog entry hold
    · by_cases he : e = .shutdownInLoop
      · rw [if_pos he, List.mem_singleton] at hnew
        rw [hnew]
        exact (hflushed he).symm
      · rw [if_neg he] at hnew
        cases hnew

/-- The streams are equal after a run without faults when every send took everything. -/
theorem run_flushed_iff {cfg : ConnConfig} {t : Session} {es : List OutEvent}
    (hfaultless : ∀ e ∈ es, ¬ e.Faults) (hrun : Run step (start cfg) es t) :
    t.taken = t.accepted ↔ ∀ e ∈ es, e.TakesAll := by
  obtain ⟨_, hpossible, htaken, haccepted⟩ := run_calm (start_calm cfg) hrun
  have hstreams : t.taken = t.accepted ↔ ∀ e ∈ es, e.taken = e.accepted := by
    rw [htaken, haccepted, ← OutEvent.streams_eq_iff]
    exact Iff.rfl
  rw [hstreams]
  constructor
  · intro h e he
    have hor := (OutEvent.taken_eq_accepted_iff (hpossible e he)).mp (h e he)
    exact hor.resolve_right (hfaultless e he)
  · intro h e he
    exact (OutEvent.taken_eq_accepted_iff (hpossible e he)).mpr (Or.inl (h e he))

end Session

/-- A send whose message fits the vector can happen in a calm session. -/
theorem Session.send_enabled {s : Session} (h : s.ctx.Calm) (message : List UInt8)
    (w : WriteResult) (hpossible : possible message.length w = true)
    (hfits : Buffer.kCheapPrepend + message.length ≤ vectorMaxSize) :
    ∃ t, s.step (.sendInLoop message w) = some t ∧ t.ctx.conn.state_ = s.ctx.conn.state_ ∧
      t.shutdownCalls = s.shutdownCalls ∧ t.queuedShutdowns = s.queuedShutdowns := by
  obtain ⟨c, hc⟩ := ConnCtx.sendInLoop_returns message w h hfits
  simp only [step, if_pos hpossible, hc, returned, Option.map_some]
  exact ⟨_, rfl, (ConnCtx.sendInLoop_calm h hc).2.2, rfl, rfl⟩

/-! ### The three laws -/

/-- **When no output byte is lost.**  While each `write()` takes some bytes or would
    block, the bytes taken and the readable ones are the messages sent, after every
    step, exactly when every send has its whole message taken by its own `write()`. -/
theorem output_stream_intact_iff (cfg : ConnConfig) (es : List OutEvent) (t : Session)
    (hblocks : ∀ e ∈ es, e.OnlyBlocks) (hrun : Run Session.step (Session.start cfg) es t) :
    Always Session.step Session.NothingLost (Session.start cfg) es ↔ ∀ e ∈ es, e.TakesAll := by
  have hiff : Always Session.step Session.NothingLost (Session.start cfg) es ↔
      Along Session.step (fun _ e => e.TakesAll ∨ e.Faults) (Session.start cfg) es :=
    always_iff_along (fun _ => Session.Flushed.nothingLost)
      (fun _ _ _ h htakes hstep => h.step htakes hstep)
      (fun _ _ _ h hshort hstep => h.step_loses hshort hstep)
      (Session.start_flushed cfg) hrun
  rw [hiff, along_event hrun]
  constructor
  · intro h e he
    exact (h e he).resolve_right (hblocks e he).not_faults
  · intro h e he
    exact Or.inl (h e he)

/-- Sends taken whole, a write event between them, and a `shutdown()`. -/
def OutEvent.wholeWrites : List OutEvent :=
  [.sendInLoop [97, 98] (.wrote 2), .handleWrite (.wrote 0), .sendInLoop [99] (.wrote 1),
    .shutdownLoad, .shutdownStore, .shutdownInLoop]

theorem output_stream_intact_iff_whole_write :
    ∃ t, Run Session.step (Session.start .sameLoop) OutEvent.wholeWrites t ∧
      t.taken = [97, 98, 99] ∧
      (Always Session.step Session.NothingLost (Session.start .sameLoop) OutEvent.wholeWrites ↔
        ∀ e ∈ OutEvent.wholeWrites, e.TakesAll) := by
  refine ⟨_, rfl, rfl, ?_⟩
  exact output_stream_intact_iff .sameLoop _ _ (by decide) rfl

/-- The kernel takes one byte of two: the other one is neither taken nor readable. -/
theorem output_stream_loses_short_write :
    (∀ e ∈ [OutEvent.sendInLoop [97, 98] (.wrote 1)], e.OnlyBlocks) ∧
      ∃ t, Run Session.step (Session.start .sameLoop) [.sendInLoop [97, 98] (.wrote 1)] t ∧
        ¬ t.NothingLost := by
  obtain ⟨t, ht, _⟩ := Session.send_enabled (Session.start_calm .sameLoop) [97, 98] (.wrote 1)
    rfl (by decide)
  refine ⟨by decide, t, Run.one ht, ?_⟩
  exact (Session.start_flushed _).step_loses (by decide) ht

/-- **When pending output is watched.**  Exactly when every send has its whole message
    taken by its own `write()` or dropped by a fault. -/
theorem pending_output_watched_iff (cfg : ConnConfig) (es : List OutEvent) (t : Session)
    (hrun : Run Session.step (Session.start cfg) es t) :
    Always Session.step Session.PendingWatched (Session.start cfg) es ↔
      ∀ e ∈ es, e.TakesAll ∨ e.Faults := by
  rw [← along_event hrun]
  refine always_iff_along (I := Session.Flushed) ?_
    (fun _ _ _ h htakes hstep => h.step htakes hstep) ?_ (Session.start_flushed cfg) hrun
  · intro s h
    exact (Session.pendingWatched_iff h.1).mpr h.2
  · intro s e u h hshort hstep hwatched
    have hflushed := (Session.pendingWatched_iff (Session.step_calm h.1 hstep).calm).mp hwatched
    exact hshort ((h.step_iff hstep).mp hflushed)

theorem pending_output_watched_iff_whole_write :
    ∃ t, Run Session.step (Session.start .sameLoop)
        (OutEvent.wholeWrites ++ [.sendInLoop [100] (.failed .EPIPE)]) t ∧
      (Always Session.step Session.PendingWatched (Session.start .sameLoop)
          (OutEvent.wholeWrites ++ [.sendInLoop [100] (.failed .EPIPE)]) ↔
        ∀ e ∈ OutEvent.wholeWrites ++ [.sendInLoop [100] (.failed .EPIPE)],
          e.TakesAll ∨ e.Faults) := by
  refine ⟨_, rfl, ?_⟩
  exact pending_output_watched_iff .sameLoop _ _ rfl

/-- A `write()` that would block leaves the message pending with write interest off. -/
theorem pending_output_unwatched :
    ∃ t, Run Session.step (Session.start .sameLoop) [.sendInLoop [97] (.failed .EWOULDBLOCK)] t ∧
      ¬ t.PendingWatched := by
  obtain ⟨t, ht, _⟩ := Session.send_enabled (Session.start_calm .sameLoop) [97]
    (.failed .EWOULDBLOCK) rfl (by decide)
  refine ⟨t, Run.one ht, ?_⟩
  rw [Session.pendingWatched_iff (Session.step_calm (Session.start_calm _) ht).calm,
    (Session.start_flushed _).step_iff ht]
  decide

/-- **When the half close waits for the output.**  Without faults, every
    `shutdownWrite()` of a run finds all accepted bytes taken exactly when every send
    before a queued `shutdownInLoop` has its whole message taken by its own `write()`. -/
theorem shutdown_waits_for_output_iff (cfg : ConnConfig) (es : List OutEvent) (t : Session)
    (hfaultless : ∀ e ∈ es, ¬ e.Faults) (hrun : Run Session.step (Session.start cfg) es t) :
    Always Session.step Session.ShutsDownDrained (Session.start cfg) es ↔
      ∀ pre post, es = pre ++ .shutdownInLoop :: post → ∀ e ∈ pre, e.TakesAll := by
  have hiff : Always Session.step Session.ShutsDownDrained (Session.start cfg) es ↔
      Along Session.step (fun s e => e = .shutdownInLoop → s.taken = s.accepted)
        (Session.start cfg) es := by
    refine always_iff_along (I := fun s => s.ctx.Calm ∧ s.ShutsDownDrained) (fun _ h => h.2)
      ?_ ?_ ⟨Session.start_calm cfg, ?_⟩ hrun
    · rintro s e u ⟨hcalm, hlog⟩ hflushed hstep
      exact ⟨(Session.step_calm hcalm hstep).calm,
        (Session.step_shutsDownDrained_iff hcalm hlog hstep).mpr hflushed⟩
    · rintro s e u ⟨hcalm, hlog⟩ hpending hstep hdrained
      exact hpending ((Session.step_shutsDownDrained_iff hcalm hlog hstep).mp hdrained)
    · intro entry hentry
      cases hentry
  rw [hiff]
  constructor
  · intro h pre post hes
    subst hes
    obtain ⟨u, hu, _⟩ := hrun.split
    have hpre : ∀ e ∈ pre, ¬ e.Faults := fun e he => hfaultless e (List.mem_append_left _ he)
    exact (Session.run_flushed_iff hpre hu).mp (h pre _ post u rfl hu rfl)
  · intro h pre e post u hes hu he
    subst hes he
    have hpre : ∀ e ∈ pre, ¬ e.Faults := fun e he => hfaultless e (List.mem_append_left _ he)
    exact (Session.run_flushed_iff hpre hu).mpr (h pre post rfl)

/-- The half close of this run comes after its three bytes. -/
theorem shutdown_waits_for_output_iff_whole_write :
    ∃ t, Run Session.step (Session.start .sameLoop) OutEvent.wholeWrites t ∧
      t.shutdownLog = [([97, 98, 99], [97, 98, 99])] ∧
      (Always Session.step Session.ShutsDownDrained (Session.start .sameLoop)
          OutEvent.wholeWrites ↔
        ∀ pre post, OutEvent.wholeWrites = pre ++ .shutdownInLoop :: post →
          ∀ e ∈ pre, e.TakesAll) := by
  refine ⟨_, rfl, rfl, ?_⟩
  exact shutdown_waits_for_output_iff .sameLoop _ _ (by decide) rfl

/-- A `write()` takes nothing, `shutdown()` is called, and its functor closes the
    output before the byte that is left. -/
theorem shutdown_before_output :
    (∀ e ∈ [OutEvent.sendInLoop [97] (.wrote 0), .shutdownLoad, .shutdownStore, .shutdownInLoop],
        ¬ e.Faults) ∧
      ∃ t, Run Session.step (Session.start .sameLoop)
        [.sendInLoop [97] (.wrote 0), .shutdownLoad, .shutdownStore, .shutdownInLoop] t ∧
        ¬ t.ShutsDownDrained := by
  refine ⟨by decide, ?_⟩
  obtain ⟨s, hs, hstate, hcalls, hqueued⟩ := Session.send_enabled
    (Session.start_calm .sameLoop) [97] (.wrote 0) rfl (by decide)
  have hconnected : s.ctx.conn.state_ = .kConnected := hstate
  have hpre : ∃ u, Run Session.step s [.shutdownLoad, .shutdownStore] u ∧
      u.queuedShutdowns = 1 := by
    simp [Run, exec, Session.step, hconnected, hqueued, Session.start]
  rcases hpre with ⟨u, hu, hone⟩
  have hlast : ∃ t, u.step .shutdownInLoop = some t := by
    simp [Session.step, hone]
  rcases hlast with ⟨t, ht⟩
  have hrun : Run Session.step (Session.start .sameLoop)
      [.sendInLoop [97] (.wrote 0), .shutdownLoad, .shutdownStore] u := Run.cons hs hu
  have hall : Run Session.step (Session.start .sameLoop)
      ([.sendInLoop [97] (.wrote 0), .shutdownLoad, .shutdownStore] ++ [.shutdownInLoop]) t :=
    hrun.append (Run.one ht)
  refine ⟨t, hall, ?_⟩
  intro hdrained
  obtain ⟨hcalm, _, htaken, haccepted⟩ := Session.run_calm (Session.start_calm _) hrun
  have hentry := hdrained (u.accepted, u.taken) (by
    rw [(Session.step_calm hcalm ht).log_eq, if_pos rfl]
    exact List.mem_append_right _ (List.mem_singleton_self _))
  have hnone : u.taken = [] := htaken
  have hlost : u.accepted = [97] := by
    simpa [Session.start, OutEvent.accepted, ConnCtx.isFault] using haccepted
  rw [hnone, hlost] at hentry
  exact List.cons_ne_nil _ _ hentry

end Muduo
