import Muduo.ConnectionFrames
import Muduo.Transitions

/-!
# The callback protocol of a connection

A connection from the return of `connectEstablished` on: events on its channel with any
mask and any read and write results, sends and shutdowns in between, and the queued
`connectDestroyed` of a server that runs on another loop.

`CallbackView` keeps what the protocol is about, and every method is one of three
moves on it: nothing, a message, or a close.  The read callback runs for every mask, so
an event that closes through a hang-up goes on reading, and so does any event after
the close.
-/

namespace Muduo

open Transitions

/-! ### The protocol -/

def Output.isCallback : Output → Bool
  | .connectionCallback _ | .messageCallback => true
  | _ => false

/-- The user callbacks of a connection that is open and delivered `n` messages. -/
def openTrace (n : Nat) : List Output :=
  .connectionCallback true :: List.replicate n .messageCallback

def closedTrace (n : Nat) : List Output := openTrace n ++ [.connectionCallback false]

/-- One connected callback, messages, at most one disconnected callback at the end, and
    at most one call of `closeCallback_`. -/
def CallbackProtocol (outputs : List Output) : Prop :=
  (∃ n, outputs.filter Output.isCallback = openTrace n ∨
    outputs.filter Output.isCallback = closedTrace n) ∧
  outputs.count .closeCallback ≤ 1

theorem disconnected_not_mem_openTrace (n : Nat) : .connectionCallback false ∉ openTrace n := by
  intro hmem
  rcases List.mem_cons.mp hmem with hfirst | hrest
  · cases hfirst
  · cases List.eq_of_mem_replicate hrest

/-- Nothing follows the disconnected callback. -/
theorem closedTrace_append_not_trace (n m : Nat) (rest : List Output) (o : Output) :
    closedTrace n ++ (rest ++ [o]) ≠ openTrace m ∧
      closedTrace n ++ (rest ++ [o]) ≠ closedTrace m := by
  have hmem : .connectionCallback false ∈ closedTrace n :=
    List.mem_append_right _ (List.mem_singleton_self _)
  constructor
  · intro heq
    apply disconnected_not_mem_openTrace m
    rw [← heq]
    exact List.mem_append_left _ hmem
  · intro heq
    rw [← List.append_assoc] at heq
    apply disconnected_not_mem_openTrace m
    rw [← (List.append_inj' heq rfl).1]
    exact List.mem_append_left _ hmem

/-! ### The moves of a connection -/

/-- The part of a connection the protocol is about. -/
structure CallbackView where
  state : StateE
  tied : Bool
  callbacks : List Output
  closes : Nat
deriving DecidableEq

namespace CallbackView

def message (v : CallbackView) : CallbackView :=
  { v with callbacks := v.callbacks ++ [.messageCallback] }

def close (v : CallbackView) : CallbackView :=
  { v with
    state := .kDisconnected
    callbacks := v.callbacks ++ [.connectionCallback false]
    closes := v.closes + 1 }

end CallbackView

namespace ConnCtx

def view (c : ConnCtx) : CallbackView :=
  ⟨c.conn.state_, c.conn.channel_.tied_, c.outputs.filter Output.isCallback,
    c.outputs.count .closeCallback⟩

theorem emit_view {c : ConnCtx} {o : Output} (hcallback : o.isCallback = false)
    (hclose : o ≠ .closeCallback) : (c.emit o).view = c.view := by
  simp [view, emit, List.filter_append, hcallback, List.count_append, hclose]

@[simp] theorem setEvents_view (c : ConnCtx) (events : EventMask) :
    (c.setEvents events).view = c.view := by
  simp [view, setEvents, List.filter_append, Output.isCallback, List.count_append]

@[simp] theorem remove_view (c : ConnCtx) : c.remove.view = c.view := by
  simp [view, remove, List.filter_append, Output.isCallback, List.count_append]

theorem connectDestroyed_view {c : ConnCtx} (h : c.view.state ≠ .kConnected) :
    c.connectDestroyed.view = c.view := by
  have hnot : (c.conn.state_ == .kConnected) = false := beq_eq_false_iff_ne.mpr h
  simp only [connectDestroyed, hnot, Bool.false_eq_true, if_false, remove_view]

theorem handleClose_view (c : ConnCtx) : c.handleClose.view = c.view.close := by
  have hclosed : ((((c.setState .kDisconnected).disableAll).connectionCallback).emit
      .closeCallback).view = c.view.close := by
    simp [view, CallbackView.close, emit, connectionCallback, disableAll, setEvents, setState,
      List.filter_append, Output.isCallback, List.count_append]
    rfl
  simp only [handleClose, closeCallback]
  split
  · rw [connectDestroyed_view]
    · exact hclosed
    · rw [hclosed]
      exact StateE.noConfusion
  · exact hclosed

theorem handleError_view (c : ConnCtx) : c.handleError.view = c.view :=
  emit_view rfl Output.noConfusion

/-- Reading closes when the read returns 0, and delivers a message otherwise. -/
theorem handleRead_view {c c' : ConnCtx} {r : ReadResult} (h : c.handleRead r = .ok c') :
    c'.view = if r.endsStream then c.view.close else c.view.message := by
  obtain ⟨⟨ret, b⟩, hread, hrest⟩ := bind_eq_ok.mp h
  have hbuffer : (c.setInputBuffer b).view = c.view := rfl
  have hends := Buffer.readFd_endsStream hread
  by_cases hmessage : 0 < toSizeT ret
  · simp only [hmessage, if_true] at hrest
    cases hrest
    rw [if_neg (mt hends.mp (by omega))]
    simp [view, emit, CallbackView.message, List.filter_append, Output.isCallback,
      List.count_append, setInputBuffer]
  · have hend : toSizeT ret = 0 := by omega
    simp only [hend, Nat.lt_irrefl, if_false, if_true] at hrest
    cases hrest
    rw [if_pos (hends.mpr hend), handleClose_view, hbuffer]

theorem shutdownInLoop_view (c : ConnCtx) : c.shutdownInLoop.view = c.view := by
  simp only [shutdownInLoop]
  split
  · simp [view, List.filter_append, Output.isCallback, List.count_append]
  · rfl

theorem queueWriteComplete_view (c : ConnCtx) : c.queueWriteComplete.view = c.view := by
  simp only [queueWriteComplete]
  split
  · exact emit_view rfl Output.noConfusion
  · rfl

theorem afterWrite_view (c : ConnCtx) (k : Nat) : (c.afterWrite k).view = c.view := by
  simp only [afterWrite]
  split
  · split
    · rw [shutdownInLoop_view, queueWriteComplete_view]
      exact setEvents_view _ _
    · rw [queueWriteComplete_view]
      exact setEvents_view _ _
  · rfl

theorem handleWrite_view (c : ConnCtx) (w : WriteResult) : (c.handleWrite w).view = c.view := by
  simp only [handleWrite]
  split
  · cases w with
    | wrote k =>
      simp only
      split
      · exact afterWrite_view c k
      · rfl
    | failed errno => rfl
  · rfl

theorem directWrite_view (c : ConnCtx) (message : List UInt8) (w : WriteResult) :
    (c.directWrite message w).1.view = c.view := by
  cases w with
  | wrote k =>
    simp only [directWrite]
    split
    · exact queueWriteComplete_view _
    · rfl
  | failed errno => rfl

theorem firstWrite_view (c : ConnCtx) (message : List UInt8) (w : WriteResult) :
    (c.firstWrite message w).1.view = c.view := by
  simp only [firstWrite]
  split
  · exact directWrite_view c message w
  · rfl

theorem queueHighWaterMark_view (c : ConnCtx) (remaining : Nat) :
    (c.queueHighWaterMark remaining).view = c.view := by
  simp only [queueHighWaterMark]
  split
  · exact emit_view rfl (by simp)
  · rfl

theorem bufferRest_view {c c' : ConnCtx} {rest : List UInt8} (h : c.bufferRest rest = .ok c') :
    c'.view = c.view := by
  simp only [bufferRest] at h
  obtain ⟨b, _, hrest⟩ := bind_eq_ok.mp h
  cases hrest
  split
  · exact (setEvents_view _ _).trans (queueHighWaterMark_view c _)
  · exact queueHighWaterMark_view c _

theorem sendInLoop_view {c c' : ConnCtx} {message : List UInt8} {w : WriteResult}
    (h : c.sendInLoop message w = .ok c') : c'.view = c.view := by
  simp only [sendInLoop] at h
  split at h
  · cases h
    rfl
  · split at h
    · exact (bufferRest_view h).trans (firstWrite_view c message w)
    · cases h
      exact firstWrite_view c message w

/-- A handled event: a hang-up closes, and then the read callback runs in any case. -/
theorem handleEvent_view {c c' : ConnCtx} {revents : EventMask} {r : ReadResult} {w : WriteResult}
    (htied : c.view.tied = true) (h : c.handleEvent true revents r w = .ok c') :
    ∃ v, v = (if hangsUp revents then c.view.close else c.view) ∧
      c'.view = if r.endsStream then v.close else v.message := by
  have htied' : c.conn.channel_.tied_ = true := htied
  simp only [ConnCtx.handleEvent, Muduo.handleEvent, htied', if_true, handleEventWithGuard] at h
  obtain ⟨c₁, hclose, h⟩ := bind_eq_ok.mp h
  obtain ⟨c₂, herror, h⟩ := bind_eq_ok.mp h
  obtain ⟨c₃, hread, hwrite⟩ := bind_eq_ok.mp h
  have h₁ : c₁.view = if hangsUp revents then c.view.close else c.view := by
    rw [← Except.ok.inj (callWhen_ok.symm.trans hclose)]
    split
    · exact handleClose_view c
    · rfl
  have h₂ : c₂.view = c₁.view := by
    rw [← Except.ok.inj (callWhen_ok.symm.trans herror)]
    split
    · exact handleError_view c₁
    · rfl
  have h₃ : c'.view = c₃.view := by
    rw [← Except.ok.inj (callWhen_ok.symm.trans hwrite)]
    split
    · exact handleWrite_view c₃ w
    · rfl
  rw [readTest_eq_true] at hread
  refine ⟨c₂.view, h₂.trans h₁, ?_⟩
  rw [h₃]
  exact handleRead_view hread

theorem handleClose_inputBuffer (c : ConnCtx) :
    c.handleClose.conn.inputBuffer_ = c.conn.inputBuffer_ := by
  simp only [handleClose, closeCallback, connectDestroyed]
  split
  · split <;> rfl
  · rfl

theorem handleEvent_dead {c : ConnCtx} {revents : EventMask} {r : ReadResult} {w : WriteResult}
    (htied : c.view.tied = true) : c.handleEvent false revents r w = .ok c := by
  have htied' : c.conn.channel_.tied_ = true := htied
  simp only [ConnCtx.handleEvent, Muduo.handleEvent, htied', if_true, Bool.false_eq_true, if_false]

theorem shutdownStore_view (c : ConnCtx) :
    c.shutdownStore.view = { c.view with state := .kDisconnecting } :=
  emit_view rfl Output.noConfusion

end ConnCtx

/-! ### Lifetimes -/

inductive LifetimeEvent where
  | handleEvent (revents : EventMask) (r : ReadResult) (w : WriteResult)
  | sendInLoop (message : List UInt8) (w : WriteResult)
  /-- A `shutdown()` call reads `state_`. -/
  | shutdownLoad
  /-- A `shutdown()` call that read `kConnected` stores `kDisconnecting` and queues. -/
  | shutdownStore
  | shutdownInLoop
  /-- The loop runs a queued `connectDestroyed`. -/
  | connectDestroyed
  /-- The last `TcpConnectionPtr` goes. -/
  | release
deriving DecidableEq

structure Lifetime where
  ctx : ConnCtx
  ownerAlive : Bool
  /-- `shutdown()` calls between their load and their store. -/
  shutdownCalls : Nat
  /-- The `connectDestroyed` calls that `closeCallback_` left to another loop. -/
  queuedDestroys : Nat
  /-- The `readv` of an event that was handled has returned 0. -/
  inputEnded : Bool

namespace Lifetime

def start (cfg : ConnConfig) : Lifetime := ⟨cfg.established, true, 0, 0, false⟩

def step (s : Lifetime) : LifetimeEvent → Option Lifetime
  | .handleEvent revents r w =>
    (returned (s.ctx.handleEvent s.ownerAlive revents r w)).map fun c =>
      { s with
        ctx := c
        queuedDestroys :=
          if c.conn.serverLoop_ == c.conn.loop_ then
            s.queuedDestroys
          else
            s.queuedDestroys + (c.view.closes - s.ctx.view.closes)
        inputEnded := s.inputEnded || s.ownerAlive && r.endsStream }
  | .sendInLoop message w =>
    if s.ownerAlive then
      (returned (s.ctx.sendInLoop message w)).map fun c => { s with ctx := c }
    else
      none
  | .shutdownLoad =>
    if s.ownerAlive then
      if s.ctx.conn.state_ = .kConnected then
        some { s with shutdownCalls := s.shutdownCalls + 1 }
      else
        some s
    else
      none
  | .shutdownStore =>
    if s.ownerAlive ∧ 0 < s.shutdownCalls then
      some { s with ctx := s.ctx.shutdownStore, shutdownCalls := s.shutdownCalls - 1 }
    else
      none
  | .shutdownInLoop => if s.ownerAlive then some { s with ctx := s.ctx.shutdownInLoop } else none
  | .connectDestroyed =>
    if 0 < s.queuedDestroys then
      some { s with ctx := s.ctx.connectDestroyed, queuedDestroys := s.queuedDestroys - 1 }
    else
      none
  | .release =>
    if 0 < s.ctx.view.closes ∧ s.queuedDestroys = 0 then
      some { s with ownerAlive := false }
    else
      none

/-- The protocol holds of the calls made so far. -/
def KeepsProtocol (s : Lifetime) : Prop := CallbackProtocol s.ctx.outputs

/-- An event that is handled comes before the input has ended and is no hang-up. -/
def Orderly (s : Lifetime) : LifetimeEvent → Prop
  | .handleEvent revents _ _ =>
    s.ownerAlive = true → s.inputEnded = false ∧ hangsUp revents = false
  | _ => True

/-- Before the close nothing of it has happened; after it everything has. -/
structure Inv (s : Lifetime) : Prop where
  tied : s.ctx.view.tied = true
  ended : s.inputEnded = false ↔ s.ctx.view.closes = 0
  opened : s.ctx.view.closes = 0 → s.queuedDestroys = 0 ∧
    ∃ n, s.ctx.view.callbacks = openTrace n
  closed : s.ctx.view.closes ≠ 0 → s.ctx.view.closes = 1 ∧ s.ctx.view.state ≠ .kConnected ∧
    ∃ n, s.ctx.view.callbacks = closedTrace n

theorem Inv.keepsProtocol {s : Lifetime} (h : s.Inv) : s.KeepsProtocol := by
  by_cases hopen : s.ctx.view.closes = 0
  · rcases h.opened hopen with ⟨_, n, htrace⟩
    exact ⟨⟨n, Or.inl htrace⟩, by
      rw [show s.ctx.outputs.count .closeCallback = 0 from hopen]
      exact Nat.zero_le 1⟩
  · rcases h.closed hopen with ⟨hcloses, _, n, htrace⟩
    exact ⟨⟨n, Or.inr htrace⟩, Nat.le_of_eq hcloses⟩

theorem start_inv (cfg : ConnConfig) : (start cfg).Inv := by
  have hcloses : (start cfg).ctx.view.closes = 0 := rfl
  refine ⟨?_, ?_, ?_, ?_⟩
  · exact congrArg CallbackView.tied
      (ConnCtx.setEvents_view (cfg.connecting.setState .kConnected).tie _)
  · exact iff_of_true rfl hcloses
  · intro _
    exact ⟨rfl, 0, rfl⟩
  · intro hclosed
    exact absurd hcloses hclosed

theorem Inv.of_view {s t : Lifetime} (h : s.Inv) (hview : t.ctx.view = s.ctx.view)
    (hqueued : t.queuedDestroys ≤ s.queuedDestroys) (hended : t.inputEnded = s.inputEnded) :
    t.Inv := by
  refine ⟨?_, ?_, ?_, ?_⟩
  · rw [hview]
    exact h.tied
  · rw [hview, hended]
    exact h.ended
  · rw [hview]
    intro hopen
    rcases h.opened hopen with ⟨hnone, htrace⟩
    exact ⟨by omega, htrace⟩
  · rw [hview]
    exact h.closed

theorem Inv.message {s t : Lifetime} (h : s.Inv) (hopen : s.ctx.view.closes = 0)
    (hview : t.ctx.view = s.ctx.view.message) (hqueued : t.queuedDestroys = s.queuedDestroys)
    (hended : t.inputEnded = s.inputEnded) : t.Inv := by
  rcases h.opened hopen with ⟨hnone, n, htrace⟩
  refine ⟨?_, ?_, ?_, ?_⟩
  · rw [hview]
    exact h.tied
  · rw [hview, hended]
    exact h.ended
  · rw [hview, hqueued]
    intro _
    refine ⟨hnone, n + 1, ?_⟩
    simp only [CallbackView.message, htrace, openTrace, List.replicate_succ', List.cons_append]
  · rw [hview]
    intro hclosed
    exact absurd hopen hclosed

theorem Inv.close {s t : Lifetime} (h : s.Inv) (hopen : s.ctx.view.closes = 0)
    (hview : t.ctx.view = s.ctx.view.close) (hended : t.inputEnded = true) : t.Inv := by
  rcases h.opened hopen with ⟨_, n, htrace⟩
  refine ⟨?_, ?_, ?_, ?_⟩
  · rw [hview]
    exact h.tied
  · rw [hview, hended]
    exact iff_of_false Bool.noConfusion (Nat.succ_ne_zero _)
  · rw [hview]
    intro hopen'
    exact absurd hopen' (Nat.succ_ne_zero _)
  · rw [hview]
    intro _
    refine ⟨congrArg (· + 1) hopen, StateE.noConfusion, n, ?_⟩
    simp only [CallbackView.close, htrace, closedTrace]

/-- Before the close and after it, a `shutdown()` may store. -/
theorem Inv.shutdownStore {s t : Lifetime} (h : s.Inv)
    (hview : t.ctx.view = { s.ctx.view with state := .kDisconnecting })
    (hqueued : t.queuedDestroys = s.queuedDestroys) (hended : t.inputEnded = s.inputEnded) :
    t.Inv := by
  refine ⟨?_, ?_, ?_, ?_⟩
  · rw [hview]
    exact h.tied
  · rw [hview, hended]
    exact h.ended
  · rw [hview, hqueued]
    exact h.opened
  · rw [hview]
    intro hclosed
    rcases h.closed hclosed with ⟨hcloses, _, htrace⟩
    exact ⟨hcloses, StateE.noConfusion, htrace⟩

theorem Inv.step {s t : Lifetime} {e : LifetimeEvent} (h : s.Inv) (horderly : s.Orderly e)
    (hstep : s.step e = some t) : t.Inv := by
  cases e with
  | handleEvent revents r w =>
    obtain ⟨c, hc, rfl⟩ := Option.map_eq_some_iff.mp hstep
    rw [returned_eq_some] at hc
    cases halive : s.ownerAlive with
    | false =>
      rw [halive, ConnCtx.handleEvent_dead h.tied] at hc
      cases hc
      refine h.of_view rfl ?_ (Bool.or_false _)
      simp
    | true =>
      rw [halive] at hc
      obtain ⟨hnotEnded, hmask⟩ := horderly halive
      have hopen := h.ended.mp hnotEnded
      obtain ⟨v, hv, hread⟩ := ConnCtx.handleEvent_view h.tied hc
      rw [hmask, if_neg Bool.false_ne_true] at hv
      cases hend : r.endsStream with
      | false =>
        rw [hend, if_neg Bool.false_ne_true, hv] at hread
        apply h.message hopen hread
        · simp [hread, CallbackView.message]
        · simp
      | true =>
        rw [hend, if_pos rfl, hv] at hread
        exact h.close hopen hread (by simp)
  | sendInLoop message w =>
    simp only [Lifetime.step] at hstep
    split at hstep
    · obtain ⟨c, hc, rfl⟩ := Option.map_eq_some_iff.mp hstep
      exact h.of_view (ConnCtx.sendInLoop_view (returned_eq_some.mp hc)) (Nat.le_refl _) rfl
    · cases hstep
  | shutdownLoad =>
    simp only [Lifetime.step] at hstep
    split at hstep
    · split at hstep
      · cases hstep
        exact h.of_view rfl (Nat.le_refl _) rfl
      · cases hstep
        exact h
    · cases hstep
  | shutdownStore =>
    simp only [Lifetime.step] at hstep
    split at hstep
    · cases hstep
      exact h.shutdownStore s.ctx.shutdownStore_view rfl rfl
    · cases hstep
  | shutdownInLoop =>
    simp only [Lifetime.step] at hstep
    split at hstep
    · cases hstep
      exact h.of_view (ConnCtx.shutdownInLoop_view _) (Nat.le_refl _) rfl
    · cases hstep
  | connectDestroyed =>
    simp only [Lifetime.step] at hstep
    split at hstep
    · rename_i hqueued
      cases hstep
      have hclosed : s.ctx.view.closes ≠ 0 := by
        intro hopen
        have hnone := (h.opened hopen).1
        omega
      exact h.of_view (ConnCtx.connectDestroyed_view (h.closed hclosed).2.1) (Nat.sub_le _ _) rfl
    · cases hstep
  | release =>
    simp only [Lifetime.step] at hstep
    split at hstep
    · cases hstep
      exact h.of_view rfl (Nat.le_refl _) rfl
    · cases hstep

/-- Whatever is called after the close is one callback too many. -/
theorem breaks_after_close {outputs rest : List Output} {v : CallbackView} {n : Nat}
    (hclosed : v.callbacks = closedTrace n ++ rest)
    (hnext : outputs.filter Output.isCallback = v.message.callbacks ∨
      outputs.filter Output.isCallback = v.close.callbacks) : ¬ CallbackProtocol outputs := by
  rintro ⟨⟨m, htrace⟩, _⟩
  have hextra : ∃ o, outputs.filter Output.isCallback = closedTrace n ++ (rest ++ [o]) := by
    simp only [← List.append_assoc, ← hclosed]
    rcases hnext with hmessage | hclose
    · exact ⟨_, hmessage⟩
    · exact ⟨_, hclose⟩
  rcases hextra with ⟨o, ho⟩
  obtain ⟨hopen, hclose⟩ := closedTrace_append_not_trace n m rest o
  rw [ho] at htrace
  exact htrace.elim hopen hclose

theorem Inv.disorderly_breaks {s t : Lifetime} {e : LifetimeEvent} (h : s.Inv)
    (hdisorderly : ¬ s.Orderly e) (hstep : s.step e = some t) : ¬ t.KeepsProtocol := by
  cases e with
  | handleEvent revents r w =>
    obtain ⟨c, hc, rfl⟩ := Option.map_eq_some_iff.mp hstep
    rw [returned_eq_some] at hc
    simp only [Orderly, Classical.not_imp] at hdisorderly
    rcases hdisorderly with ⟨halive, hbad⟩
    rw [halive] at hc
    obtain ⟨v, hv, hread⟩ := ConnCtx.handleEvent_view h.tied hc
    -- the read callback runs on a view that is closed already
    have hclosed : ∃ n rest, v.callbacks = closedTrace n ++ rest := by
      by_cases hopen : s.ctx.view.closes = 0
      · rcases h.opened hopen with ⟨_, n, htrace⟩
        have hmask : hangsUp revents = true := by
          by_contra hmask
          exact hbad ⟨h.ended.mpr hopen, by simpa using hmask⟩
        rw [hmask, if_pos rfl] at hv
        exact ⟨n, [], by rw [hv, CallbackView.close, htrace, closedTrace, List.append_nil]⟩
      · rcases h.closed hopen with ⟨_, _, n, htrace⟩
        cases hmask : hangsUp revents with
        | true =>
          rw [hmask, if_pos rfl] at hv
          exact ⟨n, [.connectionCallback false], by rw [hv, CallbackView.close, htrace]⟩
        | false =>
          rw [hmask, if_neg Bool.false_ne_true] at hv
          exact ⟨n, [], by rw [hv, htrace, List.append_nil]⟩
    rcases hclosed with ⟨n, rest, hn⟩
    apply breaks_after_close hn
    cases hend : r.endsStream with
    | false =>
      rw [hend, if_neg Bool.false_ne_true] at hread
      exact Or.inl (congrArg CallbackView.callbacks hread)
    | true =>
      rw [hend, if_pos rfl] at hread
      exact Or.inr (congrArg CallbackView.callbacks hread)
  | _ => exact absurd trivial hdisorderly

end Lifetime

/-- **When the callback protocol is kept.**  Exactly along the lifetimes in which every
    event handled while the owner lives comes before the end of the input and reports no
    hang-up without input. -/
theorem callback_protocol_iff (cfg : ConnConfig) (es : List LifetimeEvent) (t : Lifetime)
    (hrun : Run Lifetime.step (Lifetime.start cfg) es t) :
    Always Lifetime.step Lifetime.KeepsProtocol (Lifetime.start cfg) es ↔
      Along Lifetime.step Lifetime.Orderly (Lifetime.start cfg) es :=
  always_iff_along (fun _ => Lifetime.Inv.keepsProtocol)
    (fun _ _ _ h horderly hstep => h.step horderly hstep)
    (fun _ _ _ h hdisorderly hstep => h.disorderly_breaks hdisorderly hstep)
    (Lifetime.start_inv cfg) hrun

/-- A message, a `shutdown()`, and the end of the input. -/
def LifetimeEvent.oneEof : List LifetimeEvent :=
  [.handleEvent EPOLLIN (.received [104]) (.wrote 0), .shutdownLoad, .shutdownStore,
    .shutdownInLoop, .handleEvent EPOLLIN (.received []) (.wrote 0), .release]

set_option maxRecDepth 20000 in
theorem callback_protocol_iff_one_eof :
    ∃ t, Run Lifetime.step (Lifetime.start .sameLoop) LifetimeEvent.oneEof t ∧
      t.ctx.view.callbacks = closedTrace 1 ∧
      (Always Lifetime.step Lifetime.KeepsProtocol (Lifetime.start .sameLoop)
          LifetimeEvent.oneEof ↔
        Along Lifetime.step Lifetime.Orderly (Lifetime.start .sameLoop)
          LifetimeEvent.oneEof) := by
  refine ⟨_, rfl, rfl, ?_⟩
  exact callback_protocol_iff .sameLoop _ _ rfl

set_option maxRecDepth 20000 in
/-- A hang-up closes the connection, and the read that follows in the same event closes
    it again. -/
theorem callback_protocol_broken_by_hangup :
    ∃ t, Run Lifetime.step (Lifetime.start .sameLoop)
        [.handleEvent EPOLLHUP (.received []) (.wrote 0)] t ∧ ¬ t.KeepsProtocol := by
  obtain ⟨t, hrun⟩ : ∃ t, Run Lifetime.step (Lifetime.start .sameLoop)
    [.handleEvent EPOLLHUP (.received []) (.wrote 0)] t := ⟨_, rfl⟩
  refine ⟨t, hrun, (Lifetime.start_inv _).disorderly_breaks ?_ (hrun.step_of_one)⟩
  intro horderly
  have hmask := (horderly rfl).2
  exact absurd hmask (by decide)

end Muduo
