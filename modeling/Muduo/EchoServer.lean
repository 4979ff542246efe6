import Muduo.BufferFootprint
import Muduo.ConnectionOutput
import Muduo.ConnectionReads
import Muduo.ConnectionOutcome
import Muduo.SendCapture

/-!
# The echo server

`tests/echoServer.cc` is the library's own user: `onMessage` takes everything that is
readable and sends it back on the loop's thread.  A connection of it runs through every
layer at once, from the mask of an event to the two buffers.

Between events both buffers are drained, and nothing waits to be written, so what the peer
gets back of a read is decided by that read and by the one `write()` behind it.
-/

namespace Muduo

open Transitions

/-! ### `onMessage` -/

namespace ConnCtx

/-- `send(const std::string &buf)` on the loop's own thread. -/
def sendHere (c : ConnCtx) (buf : List UInt8) (w : WriteResult) : Except Fault ConnCtx :=
  if c.conn.state_ == .kConnected then c.sendInLoop buf w else .ok c

/-- The string is still there when `send` reads it. -/
theorem send_eq_sendHere {m : CallerMemory} {buf : StringCell} (h : m.str = some buf)
    (c : ConnCtx) (w : WriteResult) :
    c.send m buf true w = (c.sendHere (m.content buf) w).map fun c => (c, []) := by
  simp only [send, sendHere, SendFunctor.run, SendFunctor.message, CallerMemory.read_content h,
    if_true]
  split
  · change (c.sendInLoop (m.content buf) w >>= fun c => .ok (c, [])) = _
    cases c.sendInLoop (m.content buf) w <;> rfl
  · rfl

end ConnCtx

namespace EchoServer

/-- `onMessage`, less its log lines. -/
def onMessage (c : ConnCtx) (echo : WriteResult) : Except Fault ConnCtx := do
  let (msg, buf) ← c.conn.inputBuffer_.retrieveAllAsString
  (c.setInputBuffer buf).sendHere msg echo

/-- `handleRead`, which ends with its call of `messageCallback_` where it makes it. -/
def handleRead (c : ConnCtx) (r : ReadResult) (echo : WriteResult) : Except Fault ConnCtx := do
  let c' ← c.handleRead r
  if c'.messages = c.messages then .ok c' else onMessage c' echo

def eventCallbacks (r : ReadResult) (echo w : WriteResult) : EventCallbacks ConnCtx :=
  { ConnCtx.eventCallbacks r w with readCallback_ := some fun c => handleRead c r echo }

def handleEvent (c : ConnCtx) (ownerAlive : Bool) (revents : EventMask) (r : ReadResult)
    (echo w : WriteResult) : Except Fault ConnCtx :=
  Muduo.handleEvent (eventCallbacks r echo w) c.conn.channel_.tied_ ownerAlive revents c

/-- What `onMessage` finds readable after a read. -/
def message (b : Buffer) : ReadResult → List UInt8
  | .received data => b.readable ++ data.take b.writableBytes
  | .failed _ => b.readable

end EchoServer

/-! ### A connection of the server -/

inductive EchoEvent where
  /-- `r` is what the read delivers, `echo` the `write()` of `onMessage`, `w` that of
      `handleWrite`. -/
  | handleEvent (ownerAlive : Bool) (revents : EventMask) (r : ReadResult) (echo w : WriteResult)
  | connectDestroyed
deriving DecidableEq

structure EchoSession where
  ctx : ConnCtx
  /-- The bytes that reads delivered. -/
  delivered : List UInt8

def ReadResult.bytes : ReadResult → List UInt8
  | .received data => data
  | .failed _ => []

namespace EchoSession

def start (cfg : ConnConfig) : EchoSession := ⟨cfg.established, []⟩

/-- The bytes the kernel has taken. -/
def taken (s : EchoSession) : List UInt8 := s.ctx.conn.socket_.taken

/-- What the kernel can answer: no call takes or delivers more than it is offered. -/
def Possible (s : EchoSession) : EchoEvent → Prop
  | .handleEvent _ _ r echo w =>
    r.bytes.length ≤ s.ctx.conn.inputBuffer_.offered ∧
      Session.possible (EchoServer.message s.ctx.conn.inputBuffer_ r).length echo = true ∧
      Session.possible s.ctx.conn.outputBuffer_.readableBytes w = true
  | .connectDestroyed => True

instance (s : EchoSession) : DecidablePred s.Possible
  | .handleEvent .. => inferInstanceAs (Decidable (_ ∧ _ ∧ _))
  | .connectDestroyed => inferInstanceAs (Decidable True)

def step (s : EchoSession) (e : EchoEvent) : Option EchoSession :=
  if s.Possible e then
    match e with
    | .handleEvent ownerAlive revents r echo w =>
      (returned (EchoServer.handleEvent s.ctx ownerAlive revents r echo w)).map fun c =>
        { ctx := c
          delivered :=
            if s.ctx.handles ownerAlive then s.delivered ++ r.bytes else s.delivered }
    | .connectDestroyed => some { s with ctx := s.ctx.connectDestroyed }
  else
    none

/-- A read with data comes to a connection that is open and stays so up to the read, fits in
    the input vector's tail, and its echo is taken whole. -/
def EchoesAll (s : EchoSession) : EchoEvent → Prop
  | .handleEvent ownerAlive revents r echo _ =>
    s.ctx.handles ownerAlive = true → r.bytes ≠ [] →
      s.ctx.conn.state_ = .kConnected ∧ hangsUp revents = false ∧
        r.bytes.length ≤ s.ctx.conn.inputBuffer_.writableBytes ∧ echo = .wrote r.bytes.length
  | .connectDestroyed => True

end EchoSession

/-! ### Between events -/

/-- The most a buffer of the server holds: `readFd` spills into `extrabuf` only while the
    vector's tail is shorter than it. -/
def echoFootprint : Nat := 2 * Buffer.extrabufSize + Buffer.kCheapPrepend

structure Buffer.Resting (b : Buffer) : Prop where
  drained : b.Drained
  length_le : b.buffer_.length ≤ echoFootprint

/-- Nothing is pending on either side. -/
structure ConnCtx.Resting (c : ConnCtx) : Prop where
  notWriting : c.conn.channel_.isWriting = false
  input : c.conn.inputBuffer_.Resting
  output : c.conn.outputBuffer_.Resting

theorem Buffer.new_resting : Buffer.new.Resting := by
  refine ⟨new_drained, ?_⟩
  rw [length_buffer_new]
  decide

theorem Buffer.retrieveAll_resting {b : Buffer} (hwf : b.WF)
    (hlength : b.buffer_.length ≤ echoFootprint) : b.retrieveAll.Resting :=
  ⟨⟨retrieveAll_wf hwf, rfl, rfl⟩, hlength⟩

theorem Buffer.retrieveAllAsString_eq {b : Buffer} (hwf : b.WF) :
    b.retrieveAllAsString = .ok (b.readable, b.retrieveAll) := by
  have hall : b.retrieve b.readableBytes = b.retrieveAll := if_neg (Nat.lt_irrefl _)
  rw [retrieveAllAsString, retrieveAsString_eq hwf (Nat.le_refl _), hall, ← hwf.length_readable,
    List.take_length]

/-- A read into a drained buffer: its vector stays in the bound, and the end of the input
    leaves it drained. -/
theorem Buffer.Resting.readFd {b b' : Buffer} {data : List UInt8} {n : Int} (h : b.Resting)
    (hoffered : data.length ≤ b.offered) (hread : b.readFd (.received data) = .ok (n, b')) :
    b'.WF ∧ b'.readable = data.take b.writableBytes ∧ b'.buffer_.length ≤ echoFootprint := by
  obtain ⟨_, hwf, hreadable⟩ := readFd_spec h.drained.wf hread
  rw [h.drained.readable_eq, List.nil_append] at hreadable
  refine ⟨hwf, hreadable, ?_⟩
  have hlength := h.length_le
  rcases readFd_grown h.drained.wf hread with hsame | ⟨c, _, hsame, hwriter, _, hgrown⟩
  · rw [hsame]
    exact hlength
  · have hgrown := hgrown.length_le
    have hprepend := h.drained.writer_eq
    have hwriter_le := h.drained.wf.writer_le
    unfold offered writableBytes at *
    unfold echoFootprint extrabufSize kCheapPrepend at *
    split at hoffered <;> omega

theorem Buffer.Resting.readFd_returns {b : Buffer} {data : List UInt8} (h : b.Resting)
    (hoffered : data.length ≤ b.offered) :
    ∃ b', b.readFd (.received data) = .ok (data.length, b') := by
  apply Buffer.readFd_returns h.drained.wf
  have hlength := h.length_le
  unfold offered at hoffered
  unfold echoFootprint extrabufSize kCheapPrepend vectorMaxSize at *
  split at hoffered <;> omega

/-- The end of the input moves nothing, also in a vector without a tail. -/
theorem Buffer.Resting.readFd_nil {b b' : Buffer} {n : Int} (h : b.Resting)
    (hread : b.readFd (.received []) = .ok (n, b')) : b'.Resting := by
  refine ⟨?_, (h.readFd (Nat.zero_le _) hread).2.2⟩
  obtain ⟨hwf, hreader, hwriter⟩ := h.drained
  obtain ⟨_, hfits, v, rfl, hrest⟩ := readFd_eq_ok hread
  have hspliced := hwf.spliced hfits
  by_cases hshort : 0 < b.writableBytes
  · rw [List.length_nil, if_pos hshort] at hrest
    subst hrest
    exact ⟨hspliced, hreader, hwriter⟩
  · rw [List.length_nil, if_neg hshort] at hrest
    have hlength := Windows.length_splice hfits
    have hend : b.buffer_.length = kCheapPrepend := by
      have hle := hwf.writer_le
      unfold writableBytes at hshort
      omega
    refine Drained.append ⟨hspliced.full, hreader, ?_⟩ hrest
    rw [hlength, hend]

/-! ### What an event does before its read, and after -/

namespace ConnCtx

theorem isWriting_of_shut {c : ConnCtx} (h : c.Shut) : c.conn.channel_.isWriting = false := by
  rw [Channel.isWriting, h.2]
  rfl

/-- The streams and the buffers are left alone, and the channel does not ask to write. -/
structure Aside (c c' : ConnCtx) : Prop where
  taken : c'.conn.socket_.taken = c.conn.socket_.taken
  input : c'.conn.inputBuffer_ = c.conn.inputBuffer_
  output : c'.conn.outputBuffer_ = c.conn.outputBuffer_
  notWriting : c.conn.channel_.isWriting = false → c'.conn.channel_.isWriting = false

theorem Aside.refl (c : ConnCtx) : c.Aside c := ⟨rfl, rfl, rfl, id⟩

theorem Aside.trans {a b c : ConnCtx} (hab : a.Aside b) (hbc : b.Aside c) : a.Aside c where
  taken := hbc.taken.trans hab.taken
  input := hbc.input.trans hab.input
  output := hbc.output.trans hab.output
  notWriting h := hbc.notWriting (hab.notWriting h)

theorem Aside.resting {c c' : ConnCtx} (h : c.Aside c') (hc : c.Resting) : c'.Resting where
  notWriting := h.notWriting hc.notWriting
  input := h.input ▸ hc.input
  output := h.output ▸ hc.output

theorem connectDestroyed_aside (c : ConnCtx) : c.Aside c.connectDestroyed := by
  simp only [connectDestroyed]
  split
  · refine ⟨rfl, rfl, rfl, fun _ => ?_⟩
    exact isWriting_of_shut ⟨rfl, EpollPoller.updateChannel_events ..⟩
  · exact ⟨rfl, rfl, rfl, id⟩

theorem handleClose_aside (c : ConnCtx) : c.Aside c.handleClose := by
  have hkept : c.handleClose.conn.socket_ = c.conn.socket_ ∧
      c.handleClose.conn.outputBuffer_ = c.conn.outputBuffer_ := by
    simp only [handleClose, closeCallback, connectDestroyed]
    split
    · split
      · exact ⟨rfl, rfl⟩
      · exact ⟨rfl, rfl⟩
    · exact ⟨rfl, rfl⟩
  exact ⟨congrArg Socket.taken hkept.1, handleClose_inputBuffer c, hkept.2,
    fun _ => isWriting_of_shut (handleClose_closed c).shut⟩

theorem beforeRead_aside (c : ConnCtx) (revents : EventMask) :
    c.Aside (c.beforeRead revents) := by
  have hclose : c.Aside (if hangsUp revents then c.handleClose else c) := by
    split
    · exact handleClose_aside c
    · exact Aside.refl c
  simp only [beforeRead]
  split
  · exact ⟨hclose.taken, hclose.input, hclose.output, hclose.notWriting⟩
  · exact hclose

theorem beforeRead_state (c : ConnCtx) (revents : EventMask) :
    (c.beforeRead revents).conn.state_ =
      if hangsUp revents then .kDisconnected else c.conn.state_ := by
  have hclose : (if hangsUp revents then c.handleClose else c).conn.state_ =
      if hangsUp revents then .kDisconnected else c.conn.state_ := by
    split
    · exact (handleClose_closed c).shut.1
    · rfl
  simp only [beforeRead]
  split
  · exact hclose
  · exact hclose

theorem afterRead_of_notWriting {c : ConnCtx} (h : c.conn.channel_.isWriting = false)
    (revents : EventMask) (w : WriteResult) : c.afterRead revents w = c := by
  simp [afterRead, handleWrite, h]

/-! ### What a send leaves -/

theorem sendInLoop_buffers {c c' : ConnCtx} {message : List UInt8} {w : WriteResult} (h : c.Calm)
    (hok : c.sendInLoop message w = .ok c') :
    c'.conn.inputBuffer_ = c.conn.inputBuffer_ ∧
      c'.conn.outputBuffer_.buffer_.length ≤
        max c.conn.outputBuffer_.buffer_.length (Buffer.kCheapPrepend + message.length) := by
  have hopened : (c.conn.state_ == .kDisconnected) = false := by
    rw [beq_eq_false_iff_ne]
    exact h.opened
  simp only [sendInLoop, firstWrite, hopened, h.writesDirectly, if_true, Bool.false_eq_true,
    if_false] at hok
  have hwritten := directWrite_conn c message w
  split at hok
  · simp only [bufferRest, queueHighWaterMark_conn, hwritten] at hok
    obtain ⟨b, hb, hrest⟩ := bind_eq_ok.mp hok
    have hgrown := (Buffer.append_grown h.drained.wf hb).length_le
    rw [h.drained.writer_eq, List.length_drop] at hgrown
    cases hrest
    have hinput : (((c.directWrite message w).1.queueHighWaterMark
        (message.drop (c.directWrite message w).2).length).setOutputBuffer b).conn.inputBuffer_ =
        c.conn.inputBuffer_ := by
      simp only [setOutputBuffer, queueHighWaterMark_conn, hwritten]
      rfl
    have hsize : b.buffer_.length ≤
        max c.conn.outputBuffer_.buffer_.length (Buffer.kCheapPrepend + message.length) := by
      omega
    split
    · exact ⟨hinput, hsize⟩
    · exact ⟨hinput, hsize⟩
  · cases hok
    rw [hwritten]
    exact ⟨rfl, Nat.le_max_left ..⟩

end ConnCtx

/-! ### What an event does to the streams -/

namespace EchoServer

/-- The bytes of a read that go back to the peer. -/
def echoed (c : ConnCtx) (r : ReadResult) (echo : WriteResult) : List UInt8 :=
  if c.conn.state_ = .kConnected then
    ConnCtx.takenOf (message c.conn.inputBuffer_ r) echo
  else
    []

theorem length_readable_le {b : Buffer} (hwf : b.WF) (hlength : b.buffer_.length ≤ echoFootprint) :
    Buffer.kCheapPrepend + b.readable.length ≤ echoFootprint := by
  have hprepend := hwf.prepend_le
  have hwriter := hwf.writer_le
  rw [hwf.length_readable]
  unfold Buffer.readableBytes
  have hreader := hwf.reader_le
  omega

theorem onMessage_spec {c c' : ConnCtx} {echo : WriteResult}
    (hnot : c.conn.channel_.isWriting = false) (houtput : c.conn.outputBuffer_.Resting)
    (hwf : c.conn.inputBuffer_.WF) (hlength : c.conn.inputBuffer_.buffer_.length ≤ echoFootprint)
    (hok : onMessage c echo = .ok c') :
    c'.Resting ∧ c'.conn.socket_.taken = c.conn.socket_.taken ++
      if c.conn.state_ = .kConnected then ConnCtx.takenOf c.conn.inputBuffer_.readable echo
      else [] := by
  have hinput := Buffer.retrieveAll_resting hwf hlength
  simp only [onMessage, Buffer.retrieveAllAsString_eq hwf] at hok
  change (c.setInputBuffer c.conn.inputBuffer_.retrieveAll).sendHere _ _ = _ at hok
  simp only [ConnCtx.sendHere, beq_iff_eq] at hok
  have hstate : (c.setInputBuffer c.conn.inputBuffer_.retrieveAll).conn.state_ =
    c.conn.state_ := rfl
  rw [hstate] at hok
  split at hok
  · rename_i hconnected
    have hcalm : (c.setInputBuffer c.conn.inputBuffer_.retrieveAll).Calm := by
      refine ⟨?_, hnot, houtput.drained⟩
      rw [hstate, hconnected]
      decide
    obtain ⟨hcalm', hsocket, _⟩ := ConnCtx.sendInLoop_calm hcalm hok
    obtain ⟨hkept, hsize⟩ := ConnCtx.sendInLoop_buffers hcalm hok
    rw [hsocket, if_pos hconnected]
    refine ⟨⟨hcalm'.notWriting, ?_, hcalm'.drained, ?_⟩, rfl⟩
    · rw [hkept]
      exact hinput
    · have hmessage := length_readable_le hwf hlength
      have hold : (c.setInputBuffer c.conn.inputBuffer_.retrieveAll).conn.outputBuffer_ =
        c.conn.outputBuffer_ := rfl
      have hbefore := houtput.length_le
      rw [hold] at hsize
      omega
  · rename_i hnotConnected
    cases hok
    rw [if_neg hnotConnected, List.append_nil]
    exact ⟨⟨hnot, hinput, houtput⟩, rfl⟩

theorem onMessage_returns {c : ConnCtx} (echo : WriteResult)
    (hnot : c.conn.channel_.isWriting = false) (houtput : c.conn.outputBuffer_.Resting)
    (hwf : c.conn.inputBuffer_.WF)
    (hlength : c.conn.inputBuffer_.buffer_.length ≤ echoFootprint) :
    ∃ c', onMessage c echo = .ok c' := by
  simp only [onMessage, Buffer.retrieveAllAsString_eq hwf]
  change ∃ c', (c.setInputBuffer c.conn.inputBuffer_.retrieveAll).sendHere _ _ = .ok c'
  simp only [ConnCtx.sendHere, beq_iff_eq]
  split
  · rename_i hconnected
    apply ConnCtx.sendInLoop_returns
    · refine ⟨?_, hnot, houtput.drained⟩
      rw [hconnected]
      decide
    · have hmessage := length_readable_le hwf hlength
      have hmax : echoFootprint ≤ vectorMaxSize := by decide
      omega
  · exact ⟨_, rfl⟩

theorem handleRead_spec {c c' : ConnCtx} {r : ReadResult} {echo : WriteResult} (h : c.Resting)
    (hoffered : r.bytes.length ≤ c.conn.inputBuffer_.offered)
    (hok : handleRead c r echo = .ok c') :
    c'.Resting ∧ c'.conn.socket_.taken = c.conn.socket_.taken ++ echoed c r echo := by
  have hwf := h.input.drained.wf
  obtain ⟨c₁, hread, hrest⟩ := bind_eq_ok.mp hok
  cases r with
  | failed errno =>
    rw [ConnCtx.handleRead_failed] at hread
    cases hread
    have hmessages := c.emit_message_messages
    rw [if_neg (by omega)] at hrest
    exact onMessage_spec (c := c.emit .messageCallback) h.notWriting h.output hwf
      h.input.length_le hrest
  | received data =>
    have hoffered : data.length ≤ c.conn.inputBuffer_.offered := hoffered
    obtain ⟨b, hfd, hb, hreadable, hc₁⟩ := ConnCtx.handleRead_received hwf hoffered hread
    by_cases hempty : data = []
    · subst hempty
      rw [if_pos rfl] at hc₁
      have haside := ConnCtx.handleClose_aside (c.setInputBuffer b)
      have hsame : c₁.messages = c.messages := by
        rw [hc₁]
        exact ConnCtx.handleClose_messages _
      rw [if_pos hsame, Except.ok.injEq] at hrest
      subst hrest hc₁
      have hinput : (c.setInputBuffer b).Resting := ⟨h.notWriting, h.input.readFd_nil hfd, h.output⟩
      refine ⟨haside.resting hinput, ?_⟩
      have hnothing : echoed c (.received []) echo = [] := by
        rw [echoed, message, h.input.drained.readable_eq]
        split
        · cases echo <;> simp [ConnCtx.takenOf]
        · rfl
      rw [hnothing, List.append_nil]
      exact haside.taken
    · rw [if_neg hempty] at hc₁
      have hmore : c₁.messages = c.messages + 1 := by
        rw [hc₁]
        exact ConnCtx.emit_message_messages _
      rw [if_neg (by omega), hc₁] at hrest
      obtain ⟨_, _, hlength⟩ := h.input.readFd hoffered hfd
      obtain ⟨hresting, htaken⟩ := onMessage_spec (c := (c.setInputBuffer b).emit .messageCallback)
        h.notWriting h.output hb hlength hrest
      refine ⟨hresting, htaken.trans ?_⟩
      rw [echoed, message, ← hreadable]
      rfl

theorem handleRead_returns {c : ConnCtx} {r : ReadResult} (echo : WriteResult) (h : c.Resting)
    (hoffered : r.bytes.length ≤ c.conn.inputBuffer_.offered) :
    ∃ c', handleRead c r echo = .ok c' := by
  have hwf := h.input.drained.wf
  cases r with
  | failed errno =>
    have hmessages := c.emit_message_messages
    obtain ⟨c', hc'⟩ := onMessage_returns (c := c.emit .messageCallback) echo h.notWriting
      h.output hwf h.input.length_le
    refine ⟨c', bind_eq_ok.mpr ⟨_, ConnCtx.handleRead_failed c errno, ?_⟩⟩
    rw [if_neg (by omega)]
    exact hc'
  | received data =>
    have hoffered : data.length ≤ c.conn.inputBuffer_.offered := hoffered
    obtain ⟨c₁, hread⟩ : ∃ c₁, c.handleRead (.received data) = .ok c₁ := by
      obtain ⟨b, hfd⟩ := h.input.readFd_returns hoffered
      simp only [ConnCtx.handleRead, hfd, bind, Except.bind]
      split
      · exact ⟨_, rfl⟩
      · split
        · exact ⟨_, rfl⟩
        · exact ⟨_, rfl⟩
    obtain ⟨b, hfd, hb, _, hc₁⟩ := ConnCtx.handleRead_received hwf hoffered hread
    by_cases hempty : data = []
    · have hsame : c₁.messages = c.messages := by
        rw [hc₁, if_pos hempty]
        exact ConnCtx.handleClose_messages _
      exact ⟨c₁, bind_eq_ok.mpr ⟨c₁, hread, if_pos hsame⟩⟩
    · rw [if_neg hempty] at hc₁
      have hmore : c₁.messages = c.messages + 1 := by
        rw [hc₁]
        exact ConnCtx.emit_message_messages _
      obtain ⟨_, _, hlength⟩ := h.input.readFd hoffered hfd
      obtain ⟨c', hc'⟩ := onMessage_returns (c := (c.setInputBuffer b).emit .messageCallback) echo
        h.notWriting h.output hb hlength
      refine ⟨c', bind_eq_ok.mpr ⟨c₁, hread, ?_⟩⟩
      rw [if_neg (by omega), hc₁]
      exact hc'

/-- A handled event is what comes before the read, the read with its echo, and the write. -/
theorem handleEvent_eq {c : ConnCtx} {ownerAlive : Bool} (revents : EventMask) (r : ReadResult)
    (echo w : WriteResult) (hhandles : c.handles ownerAlive = true) :
    handleEvent c ownerAlive revents r echo w =
      (handleRead (c.beforeRead revents) r echo).map fun c => c.afterRead revents w := by
  have hguard : handleEvent c ownerAlive revents r echo w =
      handleEventWithGuard (eventCallbacks r echo w) revents c := by
    simp only [ConnCtx.handles, Bool.or_eq_true, Bool.not_eq_true'] at hhandles
    simp only [handleEvent, Muduo.handleEvent]
    rcases hhandles with htied | halive
    · simp [htied]
    · simp [halive]
  rw [hguard, handleEventWithGuard, readTest_eq_true]
  simp only [eventCallbacks, ConnCtx.eventCallbacks, callWhen_ok]
  change (handleRead (c.beforeRead revents) r echo >>= fun c => .ok (c.afterRead revents w)) = _
  cases handleRead (c.beforeRead revents) r echo <;> rfl

theorem handleEvent_unhandled {c : ConnCtx} {ownerAlive : Bool} (revents : EventMask)
    (r : ReadResult) (echo w : WriteResult) (hhandles : c.handles ownerAlive = false) :
    handleEvent c ownerAlive revents r echo w = .ok c := by
  simp only [ConnCtx.handles, Bool.or_eq_false_iff, Bool.not_eq_false'] at hhandles
  simp [handleEvent, Muduo.handleEvent, hhandles.1, hhandles.2]

theorem handleEvent_spec {c c' : ConnCtx} {ownerAlive : Bool} {revents : EventMask}
    {r : ReadResult} {echo w : WriteResult} (h : c.Resting)
    (hoffered : r.bytes.length ≤ c.conn.inputBuffer_.offered)
    (hhandles : c.handles ownerAlive = true)
    (hok : handleEvent c ownerAlive revents r echo w = .ok c') :
    c'.Resting ∧ c'.conn.socket_.taken =
      c.conn.socket_.taken ++ echoed (c.beforeRead revents) r echo := by
  have haside := c.beforeRead_aside revents
  have hbefore := haside.resting h
  rw [handleEvent_eq revents r echo w hhandles] at hok
  obtain ⟨c₁, hread, hc'⟩ := bind_eq_ok.mp hok
  rw [← haside.input] at hoffered
  obtain ⟨hresting, htaken⟩ := handleRead_spec hbefore hoffered hread
  have hc' : c₁.afterRead revents w = c' := Except.ok.inj hc'
  rw [← hc', ConnCtx.afterRead_of_notWriting hresting.notWriting, htaken, haside.taken]
  exact ⟨hresting, rfl⟩

theorem handleEvent_returns {c : ConnCtx} (ownerAlive : Bool) (revents : EventMask)
    {r : ReadResult} (echo w : WriteResult) (h : c.Resting)
    (hoffered : r.bytes.length ≤ c.conn.inputBuffer_.offered) :
    ∃ c', handleEvent c ownerAlive revents r echo w = .ok c' := by
  cases hhandles : c.handles ownerAlive with
  | false => exact ⟨c, handleEvent_unhandled revents r echo w hhandles⟩
  | true =>
    have haside := c.beforeRead_aside revents
    rw [← haside.input] at hoffered
    obtain ⟨c₁, hread⟩ := handleRead_returns echo (haside.resting h) hoffered
    rw [handleEvent_eq revents r echo w hhandles, hread]
    exact ⟨_, rfl⟩

/-- What comes back of a read is a part of it, in order. -/
theorem echoed_sublist {c : ConnCtx} (h : c.Resting) (r : ReadResult) (echo : WriteResult) :
    (echoed c r echo).Sublist r.bytes := by
  have hmessage : (message c.conn.inputBuffer_ r).Sublist r.bytes := by
    cases r with
    | received data =>
      rw [message, h.input.drained.readable_eq, List.nil_append]
      exact List.take_sublist ..
    | failed errno =>
      rw [message, h.input.drained.readable_eq]
      exact List.nil_sublist _
  rw [echoed]
  split
  · cases echo with
    | wrote k => exact (List.take_sublist ..).trans hmessage
    | failed errno => exact List.nil_sublist _
  · exact List.nil_sublist _

theorem echoed_eq_iff {c : ConnCtx} (h : c.Resting) {r : ReadResult} {echo : WriteResult}
    (hpossible : Session.possible (message c.conn.inputBuffer_ r).length echo = true) :
    echoed c r echo = r.bytes ↔ (r.bytes ≠ [] → c.conn.state_ = .kConnected ∧
      r.bytes.length ≤ c.conn.inputBuffer_.writableBytes ∧ echo = .wrote r.bytes.length) := by
  by_cases hempty : r.bytes = []
  · have hsublist := echoed_sublist h r echo
    rw [hempty] at hsublist ⊢
    exact iff_of_true (List.sublist_nil.mp hsublist) fun hne => absurd rfl hne
  · cases r with
    | failed errno => exact absurd rfl hempty
    | received data =>
      have hempty : data ≠ [] := hempty
      simp only [message, h.input.drained.readable_eq, List.nil_append] at hpossible
      simp only [echoed, message, h.input.drained.readable_eq, List.nil_append, ReadResult.bytes,
        hempty, ne_eq, not_false_eq_true, true_implies]
      by_cases hconnected : c.conn.state_ = .kConnected
      · simp only [hconnected, if_true, true_and]
        cases echo with
        | failed errno => simp [ConnCtx.takenOf, Ne.symm hempty]
        | wrote k =>
          simp only [Session.possible, decide_eq_true_eq, List.length_take] at hpossible
          simp only [ConnCtx.takenOf, WriteResult.wrote.injEq]
          constructor
          · intro hall
            have hlength := congrArg List.length hall
            simp only [List.length_take] at hlength
            omega
          · rintro ⟨hfits, rfl⟩
            rw [List.take_of_length_le hfits, List.take_length]
      · simp [hconnected, Ne.symm hempty]

end EchoServer

namespace EchoSession

open EchoServer

theorem start_resting (cfg : ConnConfig) : (start cfg).ctx.Resting :=
  ⟨cfg.established_calm.notWriting, Buffer.new_resting, Buffer.new_resting⟩

/-- What a step adds to the two streams. -/
structure Stepped (s : EchoSession) (e : EchoEvent) (t : EchoSession) : Prop where
  resting : t.ctx.Resting
  streams : ∃ back data : List UInt8, t.taken = s.taken ++ back ∧
    t.delivered = s.delivered ++ data ∧ back.Sublist data ∧ (back = data ↔ s.EchoesAll e)

theorem step_stepped {s t : EchoSession} {e : EchoEvent} (h : s.ctx.Resting)
    (hstep : s.step e = some t) : s.Stepped e t := by
  simp only [step, Option.ite_none_right_eq_some] at hstep
  obtain ⟨hpossible, hstep⟩ := hstep
  cases e with
  | connectDestroyed =>
    cases hstep
    have haside := s.ctx.connectDestroyed_aside
    refine ⟨haside.resting h, [], [], ?_, ?_, List.nil_sublist _, ?_⟩
    · rw [List.append_nil]
      exact haside.taken
    · rw [List.append_nil]
    · exact iff_of_true rfl trivial
  | handleEvent ownerAlive revents r echo w =>
    obtain ⟨c, hok, rfl⟩ := Option.map_eq_some_iff.mp hstep
    rw [returned_eq_some] at hok
    cases hhandles : s.ctx.handles ownerAlive with
    | false =>
      rw [EchoServer.handleEvent_unhandled revents r echo w hhandles] at hok
      cases hok
      refine ⟨h, [], [], (List.append_nil _).symm, ?_, List.nil_sublist _, ?_⟩
      · simp
      · exact iff_of_true rfl fun hhandled => by simp [hhandles] at hhandled
    | true =>
      obtain ⟨hresting, htaken⟩ := EchoServer.handleEvent_spec h hpossible.1 hhandles hok
      have haside := s.ctx.beforeRead_aside revents
      have hbefore := haside.resting h
      refine ⟨hresting, _, r.bytes, htaken, ?_, echoed_sublist hbefore r echo, ?_⟩
      · simp
      · rw [echoed_eq_iff hbefore (by rw [haside.input]; exact hpossible.2.1), haside.input,
          ConnCtx.beforeRead_state]
        simp only [EchoesAll, hhandles, true_implies]
        cases hangsUp revents <;> simp

theorem step_returns {s : EchoSession} {e : EchoEvent} (h : s.ctx.Resting)
    (hpossible : s.Possible e) : ∃ t, s.step e = some t := by
  simp only [step, hpossible, if_true]
  cases e with
  | connectDestroyed => exact ⟨_, rfl⟩
  | handleEvent ownerAlive revents r echo w =>
    obtain ⟨c, hc⟩ := EchoServer.handleEvent_returns ownerAlive revents echo w h hpossible.1
    simp only [hc]
    exact ⟨_, rfl⟩

end EchoSession

/-! ### The server and its peer -/

/-- **What comes back from the echo server.**  In every run of a connection of it, whatever
    the masks, the reads and the writes, every event returns, neither vector exceeds
    `echoFootprint`, and what the peer gets is a part of what it sent, in order.  It is all
    of it, in every state, exactly along the runs in which each read with data comes to an
    open connection, fits in the vector's tail and is echoed by a whole write. -/
theorem echo_server_iff (cfg : ConnConfig) (es : List EchoEvent) (t : EchoSession)
    (hrun : Run EchoSession.step (EchoSession.start cfg) es t) :
    Always EchoSession.step
      (fun s => s.taken.Sublist s.delivered ∧
        s.ctx.conn.inputBuffer_.buffer_.length ≤ echoFootprint ∧
        s.ctx.conn.outputBuffer_.buffer_.length ≤ echoFootprint ∧
        ∀ e, s.Possible e → ∃ u, s.step e = some u)
      (EchoSession.start cfg) es ∧
    (Always EchoSession.step (fun s => s.taken = s.delivered) (EchoSession.start cfg) es ↔
      Along EchoSession.step EchoSession.EchoesAll (EchoSession.start cfg) es) := by
  have hstart := EchoSession.start_resting cfg
  constructor
  · have hinv : Always EchoSession.step (fun s => s.ctx.Resting ∧ s.taken.Sublist s.delivered)
        (EchoSession.start cfg) es := by
      refine always_of_along (G := fun _ _ => True) ?_ ⟨hstart, List.Sublist.refl _⟩
        fun _ _ _ _ _ _ => trivial
      rintro s e u ⟨hresting, hsublist⟩ _ hstep
      obtain ⟨hresting', back, data, htaken, hdelivered, hback, _⟩ :=
        EchoSession.step_stepped hresting hstep
      refine ⟨hresting', ?_⟩
      rw [htaken, hdelivered]
      exact hsublist.append hback
    refine hinv.mono fun s h => ⟨h.2, h.1.input.length_le, h.1.output.length_le, ?_⟩
    intro e hpossible
    exact EchoSession.step_returns h.1 hpossible
  · apply always_iff_along (I := fun s => s.ctx.Resting ∧ s.taken = s.delivered)
      (fun s h => h.2) ?_ ?_ ⟨hstart, rfl⟩ hrun
    · rintro s e u ⟨hresting, hequal⟩ hgood hstep
      obtain ⟨hresting', back, data, htaken, hdelivered, _, hiff⟩ :=
        EchoSession.step_stepped hresting hstep
      rw [htaken, hdelivered, hequal, hiff.mpr hgood]
      exact ⟨hresting', rfl⟩
    · rintro s e u ⟨hresting, hequal⟩ hbad hstep
      obtain ⟨_, back, data, htaken, hdelivered, _, hiff⟩ :=
        EchoSession.step_stepped hresting hstep
      rw [htaken, hdelivered, hequal]
      exact fun heq => hbad (hiff.mp (List.append_cancel_left heq))

/-- A byte that is sent back. -/
theorem echo_server_iff_one_byte :
    ∃ t, Run EchoSession.step (EchoSession.start .sameLoop)
        [.handleEvent true EPOLLIN (.received [104]) (.wrote 1) (.wrote 0)] t ∧
      t.taken = t.delivered := by
  have hwritable : Buffer.new.writableBytes = Buffer.kInitialSize := by
    rw [Buffer.writableBytes, Buffer.length_buffer_new]
    rfl
  have hpossible : (EchoSession.start .sameLoop).Possible
      (.handleEvent true EPOLLIN (.received [104]) (.wrote 1) (.wrote 0)) := by
    refine ⟨?_, ?_, rfl⟩
    · show [104].length ≤ Buffer.new.offered
      rw [Buffer.offered, hwritable]
      decide
    · show Session.possible (EchoServer.message Buffer.new (.received [104])).length (.wrote 1) = _
      rw [EchoServer.message, hwritable, Buffer.readable_new]
      rfl
  obtain ⟨t, ht⟩ := EchoSession.step_returns (EchoSession.start_resting .sameLoop) hpossible
  have hechoes : Along EchoSession.step EchoSession.EchoesAll (EchoSession.start .sameLoop)
      [.handleEvent true EPOLLIN (.received [104]) (.wrote 1) (.wrote 0)] := by
    refine along_cons.mpr ⟨fun _ _ => ⟨rfl, by decide, ?_, rfl⟩, fun _ _ => along_nil⟩
    show [104].length ≤ Buffer.new.writableBytes
    rw [hwritable]
    decide
  exact ⟨t, Run.one ht,
    (echo_server_iff .sameLoop _ t (Run.one ht)).2.mpr hechoes [_] [] t rfl (Run.one ht)⟩

end Muduo
