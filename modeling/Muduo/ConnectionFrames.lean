import Mathlib.Logic.Relation
import Muduo.TcpConnection

/-!
# What a connection's methods are made of

Every method of a connection is a sequence of a few moves: an output, a store to a field,
a change of the channel's events or its removal.  What each move leaves alone every method
leaves alone, and the outputs of a method are those of its moves.
-/

namespace Muduo

/-- The functor binds the raw `this`, not a `shared_ptr`: the functors of `send` and
    `shutdown`. -/
def ConnFunctor.bindsThis : ConnFunctor → Bool
  | .sendInLoop _ | .shutdownInLoop => true
  | _ => false

/-- `readFd` returns 0. -/
def ReadResult.endsStream : ReadResult → Bool
  | .received data => toSizeT data.length == 0
  | .failed _ => false

/-- The event ends in `handleClose`, through a hang-up or a read that returns 0. -/
def closesOn (revents : EventMask) (r : ReadResult) : Bool := hangsUp revents || r.endsStream

theorem Buffer.readFd_endsStream {b b' : Buffer} {r : ReadResult} {ret : Int}
    (hread : b.readFd r = .ok (ret, b')) : r.endsStream = true ↔ toSizeT ret = 0 := by
  cases r with
  | failed errno =>
    cases hread
    exact iff_of_false Bool.false_ne_true (by decide)
  | received data =>
    rw [(readFd_eq_ok hread).1]
    exact beq_iff_eq

/-- Neither a functor that binds the raw `this` nor a call of `closeCallback_`. -/
def Output.quiet : Output → Bool
  | .queueInLoop f => !f.bindsThis
  | .closeCallback => false
  | _ => true

/-- A callback of the user. -/
def ConnFunctor.isCallback : ConnFunctor → Bool
  | .writeCompleteCallback | .highWaterMarkCallback _ => true
  | _ => false

/-- No functor but the user's callbacks, and no call of `closeCallback_`. -/
def Output.routine : Output → Bool
  | .queueInLoop f => f.isCallback
  | .closeCallback => false
  | _ => true

theorem Output.quiet_of_routine {o : Output} (h : o.routine = true) : o.quiet = true := by
  cases o with
  | queueInLoop f => cases f <;> first | rfl | cases h
  | closeCallback => cases h
  | _ => rfl

namespace ConnCtx

/-- A move with outputs in `P`. -/
inductive Move (P : Output → Prop) (c : ConnCtx) : ConnCtx → Prop where
  | emit {o : Output} (h : P o) : Move P c (c.emit o)
  | setState (state : StateE) : Move P c (c.setState state)
  | tie : Move P c c.tie
  | setInputBuffer (b : Buffer) : Move P c (c.setInputBuffer b)
  | setOutputBuffer (b : Buffer) : Move P c (c.setOutputBuffer b)
  | setSocket (socket : Socket) : Move P c { c with conn := { c.conn with socket_ := socket } }
  | setEvents (h : P .updateChannel) (events : EventMask) : Move P c (c.setEvents events)
  | remove (h : P .removeChannel) : Move P c c.remove

/-- `c'` comes from `c` by moves with outputs in `P`. -/
def Reaches (P : Output → Prop) : ConnCtx → ConnCtx → Prop := Relation.ReflTransGen (Move P)

variable {P : Output → Prop}

theorem Reaches.trans {a b c : ConnCtx} (hab : a.Reaches P b) (hbc : b.Reaches P c) :
    a.Reaches P c :=
  Relation.ReflTransGen.trans hab hbc

theorem Reaches.tail {a b c : ConnCtx} (hab : a.Reaches P b) (hbc : Move P b c) : a.Reaches P c :=
  Relation.ReflTransGen.tail hab hbc

/-- What relates every state to itself, composes, and holds of each move holds of every
    sequence of moves. -/
theorem Reaches.frame {R : ConnCtx → ConnCtx → Prop} (hrefl : ∀ c, R c c)
    (htrans : ∀ a b c, R a b → R b c → R a c) (hmove : ∀ c c', Move P c c' → R c c')
    {c c' : ConnCtx} (h : c.Reaches P c') : R c c' := by
  induction h with
  | refl => exact hrefl c
  | tail _ hlast ih => exact htrans _ _ _ ih (hmove _ _ hlast)

theorem Reaches.name_eq {c c' : ConnCtx} (h : c.Reaches P c') :
    c'.conn.name_ = c.conn.name_ := by
  apply h.frame (R := fun c c' => c'.conn.name_ = c.conn.name_) (fun _ => rfl)
  · intro a b d hab hbd
    exact hbd.trans hab
  · intro a b hmove
    cases hmove <;> rfl

theorem Move.outputs {c c' : ConnCtx} (h : Move P c c') :
    ∃ os, c'.outputs = c.outputs ++ os ∧ ∀ o ∈ os, P o := by
  have hone : ∀ o, P o → ∃ os, c.outputs ++ [o] = c.outputs ++ os ∧ ∀ o ∈ os, P o := by
    intro o ho
    refine ⟨[o], rfl, ?_⟩
    intro o' ho'
    rwa [List.mem_singleton.mp ho']
  have hnone : ∃ os, c.outputs = c.outputs ++ os ∧ ∀ o ∈ os, P o :=
    ⟨[], (List.append_nil _).symm, by simp⟩
  cases h with
  | emit ho => exact hone _ ho
  | setEvents ho events => exact hone _ ho
  | remove ho => exact hone _ ho
  | _ => exact hnone

/-- The outputs of a method that starts with none. -/
theorem Reaches.outputs {c c' : ConnCtx} (h : c.Reaches P c') :
    ∃ os, c'.outputs = c.outputs ++ os ∧ ∀ o ∈ os, P o := by
  refine h.frame (R := fun c c' => ∃ os, c'.outputs = c.outputs ++ os ∧ ∀ o ∈ os, P o)
    (fun c => ⟨[], (List.append_nil _).symm, by simp⟩) ?_ fun _ _ => Move.outputs
  rintro a b d ⟨os, hos, hP⟩ ⟨os', hos', hP'⟩
  refine ⟨os ++ os', by rw [hos', hos, List.append_assoc], ?_⟩
  intro o ho
  rcases List.mem_append.mp ho with hold | hnew
  · exact hP o hold
  · exact hP' o hnew

theorem emit_reaches (c : ConnCtx) {o : Output} (h : P o) : c.Reaches P (c.emit o) :=
  .single (.emit h)

theorem setState_reaches (c : ConnCtx) (state : StateE) : c.Reaches P (c.setState state) :=
  .single (.setState state)

theorem setEvents_reaches (c : ConnCtx) (h : P .updateChannel) (events : EventMask) :
    c.Reaches P (c.setEvents events) :=
  .single (.setEvents h events)

theorem remove_reaches (c : ConnCtx) (h : P .removeChannel) : c.Reaches P c.remove :=
  .single (.remove h)

/-! ### The methods -/

section Methods

variable (hP : ∀ o : Output, o.routine = true → P o)

include hP

theorem disableWriting_reaches (c : ConnCtx) : c.Reaches P c.disableWriting :=
  setEvents_reaches c (hP _ rfl) _

theorem connectEstablished_reaches (c : ConnCtx) : c.Reaches P c.connectEstablished := by
  have htie : c.Reaches P (c.setState .kConnected).tie := (setState_reaches c _).tail .tie
  exact (htie.trans (setEvents_reaches _ (hP _ rfl) _)).trans (emit_reaches _ (hP _ rfl))

theorem connectDestroyed_reaches (c : ConnCtx) : c.Reaches P c.connectDestroyed := by
  simp only [connectDestroyed]
  split
  · have hclosed := (setState_reaches c .kDisconnected).trans
      (setEvents_reaches _ (hP _ rfl) kNoneEvent)
    exact (hclosed.trans (emit_reaches _ (hP _ rfl))).trans (remove_reaches _ (hP _ rfl))
  · exact remove_reaches c (hP _ rfl)

theorem handleClose_reaches (hclose : P .closeCallback) (c : ConnCtx) :
    c.Reaches P c.handleClose := by
  have hclosed : c.Reaches P ((((c.setState .kDisconnected).disableAll).connectionCallback).emit
      .closeCallback) :=
    (((setState_reaches c _).trans (setEvents_reaches _ (hP _ rfl) _)).trans
      (emit_reaches _ (hP _ rfl))).trans (emit_reaches _ hclose)
  simp only [handleClose, closeCallback]
  split
  · exact hclosed.trans (connectDestroyed_reaches hP _)
  · exact hclosed

theorem handleRead_reaches {c c' : ConnCtx} {r : ReadResult}
    (hclose : r.endsStream = true → P .closeCallback) (h : c.handleRead r = .ok c') :
    c.Reaches P c' := by
  obtain ⟨⟨ret, b⟩, hread, hrest⟩ := bind_eq_ok.mp h
  have hbuffer : c.Reaches P (c.setInputBuffer b) := .single (.setInputBuffer b)
  simp only at hrest
  split at hrest
  · cases hrest
    exact hbuffer.trans (emit_reaches _ (hP _ rfl))
  · split at hrest
    · rename_i hend
      cases hrest
      have hends : r.endsStream = true := (Buffer.readFd_endsStream hread).mpr hend
      exact hbuffer.trans (handleClose_reaches hP (hclose hends) _)
    · cases hrest
      exact hbuffer.trans (emit_reaches _ (hP _ rfl))

theorem shutdownInLoop_reaches (c : ConnCtx) : c.Reaches P c.shutdownInLoop := by
  simp only [shutdownInLoop]
  split
  · exact Relation.ReflTransGen.tail (.single (.setSocket _)) (.emit (hP .shutdownWrite rfl))
  · exact Relation.ReflTransGen.refl

theorem queueWriteComplete_reaches (c : ConnCtx) : c.Reaches P c.queueWriteComplete := by
  simp only [queueWriteComplete]
  split
  · exact emit_reaches c (hP _ rfl)
  · exact Relation.ReflTransGen.refl

theorem handleWrite_reaches (c : ConnCtx) (w : WriteResult) : c.Reaches P (c.handleWrite w) := by
  simp only [handleWrite]
  split
  · cases w with
    | wrote k =>
      simp only
      split
      · simp only [afterWrite]
        have htaken : c.Reaches P ((c.take (c.conn.outputBuffer_.readable.take k)).setOutputBuffer
            (c.conn.outputBuffer_.retrieve k)) :=
          Relation.ReflTransGen.tail (.single (.setSocket _)) (.setOutputBuffer _)
        split
        · have hdone := (htaken.trans (disableWriting_reaches hP _)).trans
            (queueWriteComplete_reaches hP _)
          split
          · exact hdone.trans (shutdownInLoop_reaches hP _)
          · exact hdone
        · exact htaken
      · exact Relation.ReflTransGen.refl
    | failed errno => exact Relation.ReflTransGen.refl
  · exact Relation.ReflTransGen.refl

theorem firstWrite_reaches (c : ConnCtx) (message : List UInt8) (w : WriteResult) :
    c.Reaches P (c.firstWrite message w).1 := by
  simp only [firstWrite]
  split
  · cases w with
    | wrote k =>
      have htaken : c.Reaches P (c.take (message.take k)) := .single (.setSocket _)
      simp only [directWrite]
      split
      · exact htaken.trans (queueWriteComplete_reaches hP _)
      · exact htaken
    | failed errno => exact Relation.ReflTransGen.refl
  · exact Relation.ReflTransGen.refl

theorem bufferRest_reaches {c c' : ConnCtx} {rest : List UInt8} (h : c.bufferRest rest = .ok c') :
    c.Reaches P c' := by
  simp only [bufferRest] at h
  obtain ⟨b, _, hrest⟩ := bind_eq_ok.mp h
  have hmark : c.Reaches P (c.queueHighWaterMark rest.length) := by
    simp only [queueHighWaterMark]
    split
    · exact emit_reaches c (hP _ rfl)
    · exact Relation.ReflTransGen.refl
  have hbuffer : c.Reaches P ((c.queueHighWaterMark rest.length).setOutputBuffer b) :=
    hmark.tail (.setOutputBuffer b)
  cases hrest
  split
  · exact hbuffer.trans (setEvents_reaches _ (hP _ rfl) _)
  · exact hbuffer

theorem sendInLoop_reaches {c c' : ConnCtx} {message : List UInt8} {w : WriteResult}
    (h : c.sendInLoop message w = .ok c') : c.Reaches P c' := by
  simp only [sendInLoop] at h
  split at h
  · cases h
    exact Relation.ReflTransGen.refl
  · split at h
    · exact (firstWrite_reaches hP c message w).trans (bufferRest_reaches hP h)
    · cases h
      exact firstWrite_reaches hP c message w

/-- `closeCallback_` is called by an event that is handled and closes. -/
theorem handleEvent_reaches {c c' : ConnCtx} {ownerAlive : Bool} {revents : EventMask}
    {r : ReadResult} {w : WriteResult}
    (hclose : (c.conn.channel_.tied_ = true → ownerAlive = true) → closesOn revents r = true →
      P .closeCallback)
    (h : c.handleEvent ownerAlive revents r w = .ok c') : c.Reaches P c' := by
  have hguard : ∀ c', (c.conn.channel_.tied_ = true → ownerAlive = true) →
      handleEventWithGuard (eventCallbacks r w) revents c = .ok c' → c.Reaches P c' := by
    intro c' hhandled hok
    obtain ⟨c₁, hclosed, hok⟩ := bind_eq_ok.mp hok
    obtain ⟨c₂, herror, hok⟩ := bind_eq_ok.mp hok
    obtain ⟨c₃, hread, hwrite⟩ := bind_eq_ok.mp hok
    have h₁ : c.Reaches P c₁ := by
      rw [← Except.ok.inj (callWhen_ok.symm.trans hclosed)]
      split
      · rename_i hhangup
        exact handleClose_reaches hP (hclose hhandled (by simp [closesOn, hhangup])) c
      · exact Relation.ReflTransGen.refl
    have h₂ : c₁.Reaches P c₂ := by
      rw [← Except.ok.inj (callWhen_ok.symm.trans herror)]
      split
      · exact emit_reaches c₁ (hP _ rfl)
      · exact Relation.ReflTransGen.refl
    have h₃ : c₃.Reaches P c' := by
      rw [← Except.ok.inj (callWhen_ok.symm.trans hwrite)]
      split
      · exact handleWrite_reaches hP c₃ w
      · exact Relation.ReflTransGen.refl
    rw [readTest_eq_true] at hread
    have hend : r.endsStream = true → P .closeCallback := by
      intro hend
      exact hclose hhandled (by simp [closesOn, hend])
    exact ((h₁.trans h₂).trans (handleRead_reaches hP hend hread)).trans h₃
  simp only [ConnCtx.handleEvent, Muduo.handleEvent] at h
  split at h
  · split at h
    · rename_i halive
      exact hguard c' (fun _ => halive) h
    · cases h
      exact Relation.ReflTransGen.refl
  · rename_i huntied
    exact hguard c' (fun htied => absurd htied huntied) h

end Methods

/-- `shutdown()` is the one method that queues the raw `this`. -/
theorem shutdownStore_reaches (h : P (.queueInLoop .shutdownInLoop)) (c : ConnCtx) :
    c.Reaches P c.shutdownStore :=
  (setState_reaches c _).trans (emit_reaches _ h)

/-- The same for a method that always returns. -/
theorem reaches_of_total {method : ConnCtx → ConnCtx}
    (hmethod : ∀ c : ConnCtx, c.Reaches P (method c)) (c c' : ConnCtx)
    (hok : (Except.ok (method c) : Except Fault ConnCtx) = .ok c') : c.Reaches P c' := by
  cases hok
  exact hmethod c

end ConnCtx

end Muduo
