import Muduo.ConnectionCallbacks

/-!
# Reads of a connection

What one channel event does with the result of its `readv`.  `messageCallback_` stands
for new data: it should be called when the read delivered bytes into `inputBuffer_`, a
read of 0 should close, and a failed read should end in `handleError`.

`handleRead` stores the `ssize_t` of `readFd` in a `size_t`.  A failed read is then a
large positive count, and the last of its three branches is never taken.
-/

namespace Muduo

open Transitions

namespace ConnCtx

/-- How often `messageCallback_` has been called. -/
def messages (c : ConnCtx) : Nat := c.outputs.count .messageCallback

/-- A tied channel is handled while its owner lives. -/
def handles (c : ConnCtx) (ownerAlive : Bool) : Bool := !c.conn.channel_.tied_ || ownerAlive

/-- An event up to its read: the close callback of a hang-up and the error callback. -/
def beforeRead (c : ConnCtx) (revents : EventMask) : ConnCtx :=
  let c := if hangsUp revents then c.handleClose else c
  if revents &&& EPOLLERR != 0 then c.handleError else c

/-- The rest of an event after its read. -/
def afterRead (c : ConnCtx) (revents : EventMask) (w : WriteResult) : ConnCtx :=
  if revents &&& EPOLLOUT != 0 then c.handleWrite w else c

/-! ### What the parts of an event touch -/

theorem messages_eq_view (c : ConnCtx) : c.messages = c.view.callbacks.count .messageCallback := by
  rw [messages, view, List.count_filter]
  rfl

theorem messages_of_view_eq {c c' : ConnCtx} (h : c'.view = c.view) : c'.messages = c.messages := by
  rw [messages_eq_view, messages_eq_view, h]

theorem handleClose_messages (c : ConnCtx) : c.handleClose.messages = c.messages := by
  rw [messages_eq_view, messages_eq_view, handleClose_view]
  simp [CallbackView.close, List.count_append]

theorem emit_message_messages (c : ConnCtx) :
    (c.emit .messageCallback).messages = c.messages + 1 := by
  simp [messages, emit, List.count_append]

theorem beforeRead_messages (c : ConnCtx) (revents : EventMask) :
    (c.beforeRead revents).messages = c.messages := by
  have hclose : (if hangsUp revents then c.handleClose else c).messages = c.messages := by
    split
    · exact handleClose_messages c
    · rfl
  simp only [beforeRead]
  split
  · rw [messages_of_view_eq (handleError_view _), hclose]
  · exact hclose

theorem afterRead_messages (c : ConnCtx) (revents : EventMask) (w : WriteResult) :
    (c.afterRead revents w).messages = c.messages := by
  simp only [afterRead]
  split
  · exact messages_of_view_eq (handleWrite_view c w)
  · rfl

theorem beforeRead_inputBuffer (c : ConnCtx) (revents : EventMask) :
    (c.beforeRead revents).conn.inputBuffer_ = c.conn.inputBuffer_ := by
  have hclose : (if hangsUp revents then c.handleClose else c).conn.inputBuffer_
      = c.conn.inputBuffer_ := by
    split
    · exact handleClose_inputBuffer c
    · rfl
  simp only [beforeRead]
  split
  · exact hclose
  · exact hclose

theorem queueWriteComplete_inputBuffer (c : ConnCtx) :
    c.queueWriteComplete.conn.inputBuffer_ = c.conn.inputBuffer_ := by
  simp only [queueWriteComplete]
  split <;> rfl

theorem shutdownInLoop_inputBuffer (c : ConnCtx) :
    c.shutdownInLoop.conn.inputBuffer_ = c.conn.inputBuffer_ := by
  simp only [shutdownInLoop]
  split <;> rfl

theorem handleWrite_inputBuffer (c : ConnCtx) (w : WriteResult) :
    (c.handleWrite w).conn.inputBuffer_ = c.conn.inputBuffer_ := by
  have hafter (k : Nat) : (c.afterWrite k).conn.inputBuffer_ = c.conn.inputBuffer_ := by
    simp only [afterWrite]
    split
    · split
      · rw [shutdownInLoop_inputBuffer, queueWriteComplete_inputBuffer]
        rfl
      · rw [queueWriteComplete_inputBuffer]
        rfl
    · rfl
  simp only [handleWrite]
  split
  · cases w with
    | wrote k =>
      simp only
      split
      · exact hafter k
      · rfl
    | failed errno => rfl
  · rfl

theorem afterRead_inputBuffer (c : ConnCtx) (revents : EventMask) (w : WriteResult) :
    (c.afterRead revents w).conn.inputBuffer_ = c.conn.inputBuffer_ := by
  simp only [afterRead]
  split
  · exact handleWrite_inputBuffer c w
  · rfl

/-- A handled event is its three parts; the read is part of every one of them. -/
theorem handleEvent_eq_ok {c c' : ConnCtx} {ownerAlive : Bool} {revents : EventMask}
    {r : ReadResult} {w : WriteResult} (hhandles : c.handles ownerAlive = true) :
    c.handleEvent ownerAlive revents r w = .ok c' ↔
      ∃ c₁, (c.beforeRead revents).handleRead r = .ok c₁ ∧ c' = c₁.afterRead revents w := by
  have hguard : c.handleEvent ownerAlive revents r w =
      handleEventWithGuard (eventCallbacks r w) revents c := by
    simp only [handles, Bool.or_eq_true, Bool.not_eq_true'] at hhandles
    simp only [ConnCtx.handleEvent, Muduo.handleEvent]
    rcases hhandles with htied | halive
    · simp [htied]
    · simp [halive]
  rw [hguard, handleEventWithGuard, readTest_eq_true]
  constructor
  · intro h
    obtain ⟨c₁, hclose, h⟩ := bind_eq_ok.mp h
    obtain ⟨c₂, herror, h⟩ := bind_eq_ok.mp h
    obtain ⟨c₃, hread, hwrite⟩ := bind_eq_ok.mp h
    cases callWhen_ok.symm.trans hclose
    cases callWhen_ok.symm.trans herror
    exact ⟨c₃, hread, Except.ok.inj (hwrite.symm.trans callWhen_ok)⟩
  · rintro ⟨c₁, hread, hc'⟩
    refine bind_eq_ok.mpr ⟨_, callWhen_ok, bind_eq_ok.mpr ⟨_, callWhen_ok, bind_eq_ok.mpr
      ⟨c₁, hread, ?_⟩⟩⟩
    rw [hc']
    exact callWhen_ok

theorem handleEvent_unhandled {c : ConnCtx} {ownerAlive : Bool} {revents : EventMask}
    {r : ReadResult} {w : WriteResult} (hhandles : c.handles ownerAlive = false) :
    c.handleEvent ownerAlive revents r w = .ok c := by
  simp only [handles, Bool.or_eq_false_iff, Bool.not_eq_false'] at hhandles
  simp [ConnCtx.handleEvent, Muduo.handleEvent, hhandles.1, hhandles.2]

/-! ### The read callback -/

/-- A failed read calls `messageCallback_`: `-1` is a positive `size_t`. -/
theorem handleRead_failed (c : ConnCtx) (errno : Errno) :
    c.handleRead (.failed errno) = .ok (c.emit .messageCallback) := by
  have hpositive : 0 < toSizeT (-1) := by decide
  refine bind_eq_ok.mpr ⟨(-1, c.conn.inputBuffer_), rfl, ?_⟩
  exact if_pos hpositive

/-- A read that delivered `data`: the end of the input closes, anything else is a message. -/
theorem handleRead_received {c c' : ConnCtx} {data : List UInt8} (hwf : c.conn.inputBuffer_.WF)
    (hoffered : data.length ≤ c.conn.inputBuffer_.offered)
    (h : c.handleRead (.received data) = .ok c') :
    ∃ b, c.conn.inputBuffer_.readFd (.received data) = .ok (data.length, b) ∧ b.WF ∧
      b.readable = c.conn.inputBuffer_.readable ++
        data.take c.conn.inputBuffer_.writableBytes ∧
      c' = if data = [] then (c.setInputBuffer b).handleClose
        else (c.setInputBuffer b).emit .messageCallback := by
  obtain ⟨⟨ret, b⟩, hread, hrest⟩ := bind_eq_ok.mp h
  obtain ⟨hret, hb, hreadable⟩ := Buffer.readFd_spec hwf hread
  subst hret
  have hsize : data.length < 2 ^ 64 := by
    have hlength := hwf.size_le
    unfold Buffer.offered Buffer.writableBytes Buffer.extrabufSize at hoffered
    unfold vectorMaxSize at hlength
    split at hoffered <;> omega
  have hcount : toSizeT data.length = data.length := by
    unfold toSizeT
    omega
  refine ⟨b, hread, hb, hreadable, ?_⟩
  simp only [hcount] at hrest
  by_cases hempty : data = []
  · subst hempty
    simp only [List.length_nil, Nat.lt_irrefl, if_false, if_true, Except.ok.injEq] at hrest
    simp [← hrest]
  · have hpositive : 0 < data.length := List.length_pos_iff.mpr hempty
    simp only [hpositive, if_true, Except.ok.injEq] at hrest
    simp [← hrest, hempty]

/-! ### The contract of an event -/

/-- `readFd` returns a positive count, and that many bytes are new in the buffer. -/
def Delivers (b : Buffer) (r : ReadResult) : Prop :=
  ∃ data b', r = .received data ∧ b.readFd r = .ok (data.length, b') ∧ 0 < data.length ∧
    b'.readable = b.readable ++ data

/-- What a handled event should do with its read. -/
structure ReadContract (c : ConnCtx) (revents : EventMask) (r : ReadResult) (c' : ConnCtx) :
    Prop where
  message : c'.messages ≠ c.messages ↔ Delivers c.conn.inputBuffer_ r
  /-- The end of the input is `handleClose` and nothing else. -/
  eof : r = .received [] → ∃ b, b.readable = c.conn.inputBuffer_.readable ∧
    (c.beforeRead revents).handleRead r = .ok ((c.beforeRead revents).setInputBuffer b).handleClose
  /-- A failure is `handleError` and nothing else: the connection stays as it is. -/
  failed : ∀ errno, r = .failed errno → ∃ c₁, (c.beforeRead revents).handleRead r = .ok c₁ ∧
    c₁.conn = (c.beforeRead revents).conn ∧
    c₁.outputs = (c.beforeRead revents).outputs ++ [.getsockopt]

theorem delivers_received_iff {b : Buffer} {data : List UInt8} {b' : Buffer}
    (hread : b.readFd (.received data) = .ok (data.length, b'))
    (hreadable : b'.readable = b.readable ++ data.take b.writableBytes) :
    Delivers b (.received data) ↔ data ≠ [] ∧ data.length ≤ b.writableBytes := by
  rw [← List.length_pos_iff]
  constructor
  · rintro ⟨data', b'', hdata, hread', hpositive, hall⟩
    cases hdata
    cases hread.symm.trans hread'
    rw [hreadable] at hall
    have htake := congrArg List.length (List.append_cancel_left hall)
    rw [List.length_take] at htake
    exact ⟨hpositive, by omega⟩
  · rintro ⟨hpositive, hfits⟩
    refine ⟨data, b', rfl, hread, hpositive, ?_⟩
    rw [hreadable, List.take_of_length_le hfits]

/-- The contract holds of a handled event exactly when its read delivered bytes, or the
    end of the input, and what it delivered fits in the vector's tail. -/
theorem readContract_iff {c c' : ConnCtx} {ownerAlive : Bool} {revents : EventMask}
    {r : ReadResult} {w : WriteResult} (hwf : c.conn.inputBuffer_.WF)
    (hoffered : ∀ data, r = .received data → data.length ≤ c.conn.inputBuffer_.offered)
    (hhandles : c.handles ownerAlive = true) (h : c.handleEvent ownerAlive revents r w = .ok c') :
    c.ReadContract revents r c' ↔
      ∃ data, r = .received data ∧ data.length ≤ c.conn.inputBuffer_.writableBytes := by
  obtain ⟨c₁, hread, hc'⟩ := (handleEvent_eq_ok hhandles).mp h
  have hmessages : c'.messages = c₁.messages := by rw [hc', afterRead_messages]
  have hbuffer := beforeRead_inputBuffer c revents
  cases r with
  | failed errno =>
    rw [handleRead_failed] at hread
    cases hread
    rw [emit_message_messages, beforeRead_messages] at hmessages
    refine iff_of_false ?_ (by simp)
    intro hcontract
    obtain ⟨data, b, hdata, _⟩ := hcontract.message.mp (by omega)
    simp at hdata
  | received data =>
    obtain ⟨b, hfd, hb, hreadable, hc₁⟩ := handleRead_received (hbuffer ▸ hwf)
      (hbuffer ▸ hoffered data rfl) hread
    rw [hbuffer] at hfd hreadable
    have hdelivers := delivers_received_iff hfd hreadable
    by_cases hempty : data = []
    · subst hempty
      rw [if_pos rfl] at hc₁
      refine iff_of_true ?_ ⟨[], rfl, Nat.zero_le _⟩
      constructor
      · rw [hmessages, hc₁, handleClose_messages, hdelivers]
        have hsame : ((c.beforeRead revents).setInputBuffer b).messages = c.messages :=
          beforeRead_messages c revents
        simp [hsame]
      · intro _
        rw [hc₁] at hread
        exact ⟨b, by simpa using hreadable, hread⟩
      · intro errno herrno
        simp at herrno
    · rw [if_neg hempty] at hc₁
      have hmore : c'.messages ≠ c.messages := by
        have hsame : ((c.beforeRead revents).setInputBuffer b).messages = c.messages :=
          beforeRead_messages c revents
        rw [hmessages, hc₁, emit_message_messages, hsame]
        omega
      constructor
      · intro hcontract
        exact ⟨data, rfl, (hdelivers.mp (hcontract.message.mp hmore)).2⟩
      · rintro ⟨data', hdata, hfits⟩
        cases hdata
        constructor
        · exact iff_of_true hmore (hdelivers.mpr ⟨hempty, hfits⟩)
        · intro hnil
          simp only [ReadResult.received.injEq] at hnil
          exact absurd hnil hempty
        · intro errno herrno
          simp at herrno

/-! ### Sequences of events -/

inductive ReadEvent where
  | handleEvent (ownerAlive : Bool) (revents : EventMask) (r : ReadResult) (w : WriteResult)
  /-- The user takes bytes out of the input buffer. -/
  | retrieve (len : Nat)
deriving DecidableEq

/-- `readv` delivers no more than the length it is offered. -/
def readStep (c : ConnCtx) : ReadEvent → Option ConnCtx
  | .handleEvent ownerAlive revents r w =>
    match r with
    | .received data =>
      if data.length ≤ c.conn.inputBuffer_.offered then
        returned (c.handleEvent ownerAlive revents r w)
      else
        none
    | .failed _ => returned (c.handleEvent ownerAlive revents r w)
  | .retrieve len => some (c.setInputBuffer (c.conn.inputBuffer_.retrieve len))

/-- Every handled event keeps the contract, and an unhandled one does nothing. -/
def MessageMeansData (c : ConnCtx) : ReadEvent → Prop
  | .handleEvent ownerAlive revents r w => ∀ c', readStep c (.handleEvent ownerAlive revents r w) =
      some c' → if c.handles ownerAlive then c.ReadContract revents r c' else c' = c
  | .retrieve _ => True

/-- The read of a handled event does not fail, and what it delivers fits in the tail. -/
def ReadFits (c : ConnCtx) : ReadEvent → Prop
  | .handleEvent ownerAlive _ r _ => c.handles ownerAlive = true →
      ∃ data, r = .received data ∧ data.length ≤ c.conn.inputBuffer_.writableBytes
  | .retrieve _ => True

theorem readStep_handleEvent {c c' : ConnCtx} {ownerAlive : Bool} {revents : EventMask}
    {r : ReadResult} {w : WriteResult}
    (hstep : readStep c (.handleEvent ownerAlive revents r w) = some c') :
    c.handleEvent ownerAlive revents r w = .ok c' ∧
      ∀ data, r = .received data → data.length ≤ c.conn.inputBuffer_.offered := by
  cases r with
  | failed errno => exact ⟨returned_eq_some.mp hstep, by simp⟩
  | received data =>
    simp only [readStep, Option.ite_none_right_eq_some] at hstep
    refine ⟨returned_eq_some.mp hstep.2, ?_⟩
    intro data' hdata
    cases hdata
    exact hstep.1

theorem readStep_wf {c c' : ConnCtx} {e : ReadEvent} (hwf : c.conn.inputBuffer_.WF)
    (hstep : readStep c e = some c') : c'.conn.inputBuffer_.WF := by
  cases e with
  | retrieve len =>
    cases hstep
    exact Buffer.retrieve_wf hwf len
  | handleEvent ownerAlive revents r w =>
    obtain ⟨hevent, hoffered⟩ := readStep_handleEvent hstep
    cases hhandles : c.handles ownerAlive with
    | false =>
      rw [handleEvent_unhandled hhandles] at hevent
      cases hevent
      exact hwf
    | true =>
      obtain ⟨c₁, hread, hc'⟩ := (handleEvent_eq_ok hhandles).mp hevent
      have hbuffer := beforeRead_inputBuffer c revents
      rw [hc', afterRead_inputBuffer]
      cases r with
      | failed errno =>
        rw [handleRead_failed] at hread
        cases hread
        exact hbuffer ▸ hwf
      | received data =>
        obtain ⟨b, _, hb, _, hc₁⟩ := handleRead_received (hbuffer ▸ hwf)
          (hbuffer ▸ hoffered data rfl) hread
        rw [hc₁]
        split
        · rw [handleClose_inputBuffer]
          exact hb
        · exact hb

theorem messageMeansData_iff {c c' : ConnCtx} {e : ReadEvent} (hwf : c.conn.inputBuffer_.WF)
    (hstep : readStep c e = some c') : c.MessageMeansData e ↔ c.ReadFits e := by
  cases e with
  | retrieve len => exact Iff.rfl
  | handleEvent ownerAlive revents r w =>
    obtain ⟨hevent, hoffered⟩ := readStep_handleEvent hstep
    simp only [MessageMeansData, ReadFits]
    cases hhandles : c.handles ownerAlive with
    | false =>
      simp only [Bool.false_eq_true, if_false, false_implies, iff_true]
      intro c'' hstep'
      have hevent' := (readStep_handleEvent hstep').1
      rw [handleEvent_unhandled hhandles] at hevent'
      exact (Except.ok.inj hevent').symm
    | true =>
      simp only [if_true, true_implies]
      have hcontract := readContract_iff hwf hoffered hhandles hevent
      constructor
      · intro h
        exact hcontract.mp (h c' hstep)
      · intro h c'' hstep'
        cases hstep.symm.trans hstep'
        exact hcontract.mpr h

end ConnCtx

/-- **When `messageCallback_` means new data.**  For every connection and every sequence
    of channel events, each event keeps the contract of its read exactly when no handled
    event's read fails or delivers more than `writableBytes()`. -/
theorem message_means_data_iff (c t : ConnCtx) (es : List ConnCtx.ReadEvent)
    (hwf : c.conn.inputBuffer_.WF) (hrun : Run ConnCtx.readStep c es t) :
    Along ConnCtx.readStep ConnCtx.MessageMeansData c es ↔
      Along ConnCtx.readStep ConnCtx.ReadFits c es :=
  along_congr (I := fun c => c.conn.inputBuffer_.WF) (fun _ _ _ => ConnCtx.readStep_wf)
    (fun _ _ _ => ConnCtx.messageMeansData_iff) hwf hrun

/-- Two bytes arrive and are taken, and then the end of the input. -/
def ConnCtx.ReadEvent.oneEof : List ConnCtx.ReadEvent :=
  [.handleEvent true EPOLLIN (.received [104, 105]) (.wrote 0), .retrieve 2,
    .handleEvent true EPOLLIN (.received []) (.wrote 0)]

set_option maxRecDepth 20000 in
theorem message_means_data_iff_one_eof :
    ∃ t, Run ConnCtx.readStep ConnConfig.sameLoop.established ConnCtx.ReadEvent.oneEof t ∧
      t.messages = 1 ∧
      (Along ConnCtx.readStep ConnCtx.MessageMeansData ConnConfig.sameLoop.established
          ConnCtx.ReadEvent.oneEof ↔
        Along ConnCtx.readStep ConnCtx.ReadFits ConnConfig.sameLoop.established
          ConnCtx.ReadEvent.oneEof) := by
  refine ⟨_, rfl, rfl, ?_⟩
  exact message_means_data_iff _ _ _ Buffer.new_wf rfl

/-- A write event whose read attempt fails with `EWOULDBLOCK` delivers a message. -/
theorem message_without_data :
    ∃ t, ConnCtx.readStep ConnConfig.sameLoop.established
        (.handleEvent true EPOLLOUT (.failed .EWOULDBLOCK) (.wrote 0)) = some t ∧
      t.messages ≠ ConnConfig.sameLoop.established.messages ∧
      t.conn.inputBuffer_ = ConnConfig.sameLoop.established.conn.inputBuffer_ ∧
      ¬ ConnConfig.sameLoop.established.MessageMeansData
        (.handleEvent true EPOLLOUT (.failed .EWOULDBLOCK) (.wrote 0)) := by
  obtain ⟨t, ht, hmessages, hbuffer⟩ : ∃ t,
      ConnConfig.sameLoop.established.handleEvent true EPOLLOUT (.failed .EWOULDBLOCK) (.wrote 0) =
        .ok t ∧
      t.messages = ConnConfig.sameLoop.established.messages + 1 ∧
      t.conn.inputBuffer_ = ConnConfig.sameLoop.established.conn.inputBuffer_ := by
    refine ⟨_, (ConnCtx.handleEvent_eq_ok ?_).mpr ⟨_, ConnCtx.handleRead_failed _ _, rfl⟩, ?_, ?_⟩
    · simp [ConnCtx.handles]
    · rw [ConnCtx.afterRead_messages, ConnCtx.emit_message_messages, ConnCtx.beforeRead_messages]
    · rw [ConnCtx.afterRead_inputBuffer]
      exact ConnCtx.beforeRead_inputBuffer _ _
  have hstep : ConnCtx.readStep ConnConfig.sameLoop.established
      (.handleEvent true EPOLLOUT (.failed .EWOULDBLOCK) (.wrote 0)) = some t :=
    returned_eq_some.mpr ht
  refine ⟨t, hstep, by omega, hbuffer, ?_⟩
  rw [ConnCtx.messageMeansData_iff Buffer.new_wf hstep]
  intro hfits
  obtain ⟨data, hdata, _⟩ := hfits (by simp [ConnCtx.handles])
  simp at hdata

end Muduo
