import Muduo.ConnectionOutput

/-!
# Notifications about the backlog

The backlog of a connection is what `sendInLoop` has accepted and the kernel has not
taken.  A user who set `highWaterMarkCallback_` learns that it has come up to the mark,
and one who set `writeCompleteCallback_` that it is gone.  The code computes both from
`outputBuffer_.readableBytes()`, which is 0 in every session, since `append` does not move
the writer index.  A send is therefore treated as if there were no backlog: `Unnoticed`
says when that makes no difference.
-/

namespace Muduo

open Transitions

/-- The functor an output queues, when it is one of the two notifications. -/
def Output.notification : Output → Option ConnFunctor
  | .queueInLoop .writeCompleteCallback => some .writeCompleteCallback
  | .queueInLoop (.highWaterMarkCallback size) => some (.highWaterMarkCallback size)
  | _ => none

namespace ConnCtx

/-- What the setters of a connection decide about the notifications. -/
def settings (c : ConnCtx) : Int × Bool × Bool :=
  (c.conn.highWaterMark_, c.conn.writeCompleteCallback_, c.conn.highWaterMarkCallback_)

/-- The notifications queued so far. -/
def notifications (c : ConnCtx) : List ConnFunctor := c.outputs.filterMap Output.notification

theorem notifications_emit (c : ConnCtx) (o : Output) :
    (c.emit o).notifications = c.notifications ++ o.notification.toList := by
  simp only [notifications, emit, List.filterMap_append]
  cases h : o.notification <;> simp [h]

theorem notifications_setEvents (c : ConnCtx) (events : EventMask) :
    (c.setEvents events).notifications = c.notifications := by
  simp [notifications, setEvents, Output.notification]

theorem notifications_shutdownInLoop (c : ConnCtx) :
    c.shutdownInLoop.notifications = c.notifications := by
  simp only [shutdownInLoop]
  split
  · simp [notifications, Output.notification]
  · rfl

/-- A notification that is queued when `test` holds. -/
def notifyWhen (test : Prop) [Decidable test] (f : ConnFunctor) : List ConnFunctor :=
  if test then [f] else []

theorem notifications_queueWriteComplete (c : ConnCtx) :
    c.queueWriteComplete.notifications = c.notifications ++
      notifyWhen (c.conn.writeCompleteCallback_ = true) .writeCompleteCallback := by
  simp only [queueWriteComplete, notifyWhen]
  split
  · exact notifications_emit c _
  · rw [List.append_nil]

/-- With nothing readable in the output buffer the rest of the message alone is compared
    with the mark. -/
theorem notifications_queueHighWaterMark {c : ConnCtx} (h : c.conn.outputBuffer_.readableBytes = 0)
    (remaining : Nat) :
    (c.queueHighWaterMark remaining).notifications = c.notifications ++
      notifyWhen (toSizeT c.conn.highWaterMark_ ≤ remaining ∧ 0 < toSizeT c.conn.highWaterMark_ ∧
        c.conn.highWaterMarkCallback_ = true) (.highWaterMarkCallback remaining) := by
  simp only [queueHighWaterMark, notifyWhen, h, Nat.zero_add]
  split
  · exact notifications_emit c _
  · rw [List.append_nil]

end ConnCtx

namespace OutEvent

def isSend : OutEvent → Bool
  | .sendInLoop _ _ => true
  | _ => false

def isWriteEvent : OutEvent → Bool
  | .handleWrite _ => true
  | _ => false

/-- Whether the event is a send whose `write()` returned the length of the message. -/
def completes : OutEvent → Bool
  | .sendInLoop message (.wrote k) => decide (k = message.length)
  | _ => false

/-- How many bytes a send accepts beyond those its own `write()` takes. -/
def left (e : OutEvent) : Nat := e.accepted.length - e.taken.length

theorem left_of_not_send {e : OutEvent} (h : e.isSend = false) : e.left = 0 := by
  cases e with
  | sendInLoop message w => cases h
  | _ => rfl

theorem left_of_completes {e : OutEvent} (h : e.completes = true) : e.left = 0 := by
  cases e with
  | sendInLoop message w =>
    cases w with
    | wrote k =>
      have hk : k = message.length := of_decide_eq_true h
      simp [left, accepted, taken, ConnCtx.takenOf, ConnCtx.isFault, hk]
    | failed errno => cases h
  | _ => cases h

end OutEvent

namespace ConnCtx

/-! ### What a send queues -/

theorem settings_bufferRest {c c' : ConnCtx} {rest : List UInt8}
    (hok : c.bufferRest rest = .ok c') : c'.settings = c.settings := by
  simp only [bufferRest] at hok
  obtain ⟨b, _, hrest⟩ := bind_eq_ok.mp hok
  split at hrest
  all_goals
    cases hrest
    simp [settings, setOutputBuffer, enableReading, setEvents]

theorem notifications_bufferRest {c c' : ConnCtx} {rest : List UInt8}
    (hok : c.bufferRest rest = .ok c') :
    c'.notifications = (c.queueHighWaterMark rest.length).notifications := by
  simp only [bufferRest] at hok
  obtain ⟨b, _, hrest⟩ := bind_eq_ok.mp hok
  split at hrest
  · cases hrest
    rw [enableReading, notifications_setEvents]
    rfl
  · cases hrest
    rfl

theorem notifications_directWrite (c : ConnCtx) (message : List UInt8) {w : WriteResult}
    (hpossible : Session.possible message.length w = true) :
    (c.directWrite message w).1.notifications = c.notifications ++
      notifyWhen (c.conn.writeCompleteCallback_ = true ∧
        (OutEvent.sendInLoop message w).completes = true) .writeCompleteCallback := by
  cases w with
  | wrote k =>
    have hk : k ≤ message.length := of_decide_eq_true hpossible
    simp only [directWrite, OutEvent.completes, decide_eq_true_eq]
    by_cases hall : k = message.length
    · rw [if_pos (by omega), notifications_queueWriteComplete]
      simp [hall, take, notifications]
    · rw [if_neg (by omega)]
      simp [hall, notifyWhen, take, notifications]
  | failed errno => simp [directWrite, OutEvent.completes, notifyWhen]

/-- What `sendInLoop` is left with after its `write()`. -/
theorem left_eq {c : ConnCtx} {message : List UInt8} {w : WriteResult}
    (hpossible : Session.possible message.length w = true) :
    (OutEvent.sendInLoop message w).left =
      if isFault w = true then 0 else message.length - (c.directWrite message w).2 := by
  cases w with
  | wrote k =>
    have hk : k ≤ message.length := of_decide_eq_true hpossible
    simp only [OutEvent.left, OutEvent.accepted, OutEvent.taken, takenOf, isFault, directWrite,
      Bool.false_eq_true, if_false, List.length_take]
    omega
  | failed errno =>
    simp only [OutEvent.left, OutEvent.accepted, OutEvent.taken, takenOf, directWrite,
      List.length_nil, Nat.sub_zero]
    split <;> rfl

/-- **What a send queues**, whatever the backlog is. -/
theorem Calm.sendInLoop_notifies {c c' : ConnCtx} {message : List UInt8} {w : WriteResult}
    (h : c.Calm) (hmark : 0 < c.conn.highWaterMark_) (hsize : c.conn.highWaterMark_ < 2 ^ 63)
    (hpossible : Session.possible message.length w = true)
    (hok : c.sendInLoop message w = .ok c') :
    c'.settings = c.settings ∧ c'.notifications = c.notifications ++
      (notifyWhen (c.conn.writeCompleteCallback_ = true ∧
          (OutEvent.sendInLoop message w).completes = true) .writeCompleteCallback ++
        notifyWhen (c.conn.highWaterMarkCallback_ = true ∧
            c.conn.highWaterMark_ ≤ (OutEvent.sendInLoop message w).left)
          (.highWaterMarkCallback (OutEvent.sendInLoop message w).left)) := by
  have hopened : (c.conn.state_ == .kDisconnected) = false := by
    rw [beq_eq_false_iff_ne]
    exact h.opened
  have hwritten := h.directWrite message w
  have hdirect := notifications_directWrite c message hpossible
  have hconn := directWrite_conn c message w
  simp only [sendInLoop, firstWrite, hopened, h.writesDirectly, if_true, Bool.false_eq_true,
    if_false, Bool.true_and] at hok
  split at hok
  · rename_i hrest
    refine ⟨?_, ?_⟩
    · rw [settings_bufferRest hok, settings, hconn]
      rfl
    · rw [notifications_bufferRest hok,
        notifications_queueHighWaterMark hwritten.drained.readableBytes_eq, hdirect, hconn,
        List.append_assoc]
      have hleft : (message.drop (c.directWrite message w).2).length =
          (OutEvent.sendInLoop message w).left := by
        rw [left_eq (c := c) hpossible, if_neg (by simp [hrest.1]), List.length_drop]
      rw [hleft, show (c.take (takenOf message w)).conn.highWaterMark_ = c.conn.highWaterMark_
        from rfl, show (c.take (takenOf message w)).conn.highWaterMarkCallback_
          = c.conn.highWaterMarkCallback_ from rfl]
      congr 2
      simp only [notifyWhen]
      refine if_congr ?_ rfl rfl
      have hvalue := toSizeT_cast (Int.le_of_lt hmark) hsize
      constructor
      · rintro ⟨hle, _, hset⟩
        exact ⟨hset, by omega⟩
      · rintro ⟨hset, hle⟩
        exact ⟨by omega, by omega, hset⟩
  · rename_i hrest
    cases hok
    refine ⟨?_, ?_⟩
    · rw [settings, hconn]
      rfl
    · have hleft : (OutEvent.sendInLoop message w).left = 0 := by
        rw [left_eq (c := c) hpossible]
        split
        · rfl
        · rename_i hfault
          rw [Bool.not_eq_true] at hfault
          simp only [hfault, true_and, Nat.not_lt, Nat.le_zero] at hrest
          exact hrest
      have hnone : ¬ (c.conn.highWaterMarkCallback_ = true ∧
          c.conn.highWaterMark_ ≤ ((OutEvent.sendInLoop message w).left : Int)) := by
        rw [hleft]
        omega
      rw [hdirect, notifyWhen, notifyWhen, if_neg hnone, List.append_nil]

end ConnCtx

namespace Session

/-- How many accepted bytes the kernel has not taken. -/
def backlog (s : Session) : Nat := s.accepted.length - s.taken.length

/-! ### The law -/

/-- The notifications owed for an event that leads from `s` to `t`: the whole output is
    gone, or the backlog has come up to the mark. -/
def owed (s : Session) (e : OutEvent) (t : Session) : List ConnFunctor :=
  ConnCtx.notifyWhen (s.ctx.conn.writeCompleteCallback_ = true ∧ t.backlog = 0 ∧
      (e.completes = true ∨ e.isWriteEvent = true ∧ 0 < s.backlog)) .writeCompleteCallback ++
    ConnCtx.notifyWhen (s.ctx.conn.highWaterMarkCallback_ = true ∧ e.isSend = true ∧
      s.backlog < s.ctx.conn.highWaterMark_ ∧ s.ctx.conn.highWaterMark_ ≤ t.backlog)
      (.highWaterMarkCallback t.backlog)

/-- The event queues exactly the notifications owed for it. -/
def NotifiesExactly (s : Session) (e : OutEvent) : Prop :=
  ∀ t, s.step e = some t → t.ctx.notifications = s.ctx.notifications ++ s.owed e t

/-- There is no backlog before the event, or it makes no difference to what is owed: the
    event completes no message, and its own bytes and the backlog with them stay below the
    mark, or the backlog had reached the mark before. -/
def Unnoticed (s : Session) (e : OutEvent) : Prop :=
  s.backlog = 0 ∨
    (s.ctx.conn.writeCompleteCallback_ = true → e.completes = false) ∧
      (s.ctx.conn.highWaterMarkCallback_ = true → (e.left : Int) < s.ctx.conn.highWaterMark_ ∧
        (s.backlog + e.left < s.ctx.conn.highWaterMark_ ∨
          s.ctx.conn.highWaterMark_ ≤ s.backlog))

/-! ### One step -/

/-- A calm session with a positive mark, whose streams are in step. -/
structure Marked (s : Session) : Prop where
  calm : s.ctx.Calm
  positive : 0 < s.ctx.conn.highWaterMark_
  bounded : s.ctx.conn.highWaterMark_ < 2 ^ 63
  taken_le : s.taken.length ≤ s.accepted.length

/-- What an event queues and what it adds to the backlog. -/
structure Notified (s : Session) (e : OutEvent) (t : Session) : Prop where
  settings_eq : t.ctx.settings = s.ctx.settings
  backlog_eq : t.backlog = s.backlog + e.left
  queued : t.ctx.notifications = s.ctx.notifications ++
    (ConnCtx.notifyWhen (s.ctx.conn.writeCompleteCallback_ = true ∧ e.completes = true)
        .writeCompleteCallback ++
      ConnCtx.notifyWhen (s.ctx.conn.highWaterMarkCallback_ = true ∧
        s.ctx.conn.highWaterMark_ ≤ e.left) (.highWaterMarkCallback e.left))

theorem Marked.backlog_step {s t : Session} {e : OutEvent} (h : s.Marked)
    (hstep : s.step e = some t) : t.backlog = s.backlog + e.left := by
  have hstepped := step_calm h.calm hstep
  have hle := e.length_taken_le
  have hbefore := h.taken_le
  rw [backlog, hstepped.taken_eq, hstepped.accepted_eq, List.length_append, List.length_append,
    backlog, OutEvent.left]
  omega

/-- An event that is no send leaves the settings and the notifications alone. -/
theorem frame_of_not_send {s t : Session} {e : OutEvent} (h : s.ctx.Calm)
    (hsend : e.isSend = false) (hstep : s.step e = some t) :
    t.ctx.settings = s.ctx.settings ∧ t.ctx.notifications = s.ctx.notifications := by
  cases e with
  | sendInLoop message w => cases hsend
  | handleWrite w =>
    simp only [step, h.handleWrite] at hstep
    split at hstep
    · cases hstep
      exact ⟨rfl, rfl⟩
    · cases hstep
  | shutdownLoad =>
    simp only [step] at hstep
    split at hstep
    all_goals
      cases hstep
      exact ⟨rfl, rfl⟩
  | shutdownStore =>
    simp only [step] at hstep
    split at hstep
    · cases hstep
      exact ⟨rfl, rfl⟩
    · cases hstep
  | shutdownInLoop =>
    simp only [step] at hstep
    split at hstep
    · cases hstep
      refine ⟨?_, s.ctx.notifications_shutdownInLoop⟩
      simp only [after, ConnCtx.shutdownInLoop]
      split <;> rfl
    · cases hstep

theorem Marked.notified_of_not_send {s t : Session} {e : OutEvent} (h : s.Marked)
    (hsend : e.isSend = false) (hstep : s.step e = some t) : Notified s e t := by
  have hcompletes : e.completes = false := by
    cases e with
    | sendInLoop message w => cases hsend
    | _ => rfl
  obtain ⟨hsettings, hsame⟩ := frame_of_not_send h.calm hsend hstep
  refine ⟨hsettings, h.backlog_step hstep, ?_⟩
  simp [hsame, ConnCtx.notifyWhen, hcompletes, OutEvent.left_of_not_send hsend, h.positive]

theorem Marked.notified {s t : Session} {e : OutEvent} (h : s.Marked)
    (hstep : s.step e = some t) : Notified s e t := by
  cases e with
  | sendInLoop message w =>
    have hbacklog := h.backlog_step hstep
    simp only [step] at hstep
    split at hstep
    · rename_i hpossible
      obtain ⟨c, hc, rfl⟩ := Option.map_eq_some_iff.mp hstep
      obtain ⟨hsettings, hqueued⟩ := h.calm.sendInLoop_notifies h.positive h.bounded hpossible
        (returned_eq_some.mp hc)
      exact ⟨hsettings, hbacklog, hqueued⟩
    · cases hstep
  | _ => exact h.notified_of_not_send rfl hstep

theorem Marked.step {s t : Session} {e : OutEvent} (h : s.Marked) (hstep : s.step e = some t) :
    t.Marked := by
  have hmark : t.ctx.conn.highWaterMark_ = s.ctx.conn.highWaterMark_ :=
    congrArg Prod.fst (h.notified hstep).settings_eq
  have hstepped := step_calm h.calm hstep
  have hle := e.length_taken_le
  have hbefore := h.taken_le
  refine ⟨hstepped.calm, ?_, ?_, ?_⟩
  · rw [hmark]
    exact h.positive
  · rw [hmark]
    exact h.bounded
  · rw [hstepped.taken_eq, hstepped.accepted_eq, List.length_append, List.length_append]
    omega

/-! ### When an event queues what is owed -/

theorem notifyWhen_pair_eq {p p' q q' : Prop} [Decidable p] [Decidable p'] [Decidable q]
    [Decidable q'] {m n : Nat} :
    ConnCtx.notifyWhen p .writeCompleteCallback ++
          ConnCtx.notifyWhen q (.highWaterMarkCallback m) =
        ConnCtx.notifyWhen p' .writeCompleteCallback ++
          ConnCtx.notifyWhen q' (.highWaterMarkCallback n) ↔
      (p ↔ p') ∧ (q ↔ q') ∧ (q → m = n) := by
  by_cases hp : p <;> by_cases hp' : p' <;> by_cases hq : q <;> by_cases hq' : q' <;>
    simp [ConnCtx.notifyWhen, hp, hp', hq, hq']

theorem Marked.notifiesExactly_iff {s t : Session} {e : OutEvent} (h : s.Marked)
    (hstep : s.step e = some t) : s.NotifiesExactly e ↔ s.Unnoticed e := by
  have hnotified := h.notified hstep
  have hpositive := h.positive
  have hsend : 0 < e.left → e.isSend = true := by
    intro hleft
    by_contra hnot
    rw [Bool.not_eq_true] at hnot
    rw [OutEvent.left_of_not_send hnot] at hleft
    omega
  have hexact : s.NotifiesExactly e ↔
      t.ctx.notifications = s.ctx.notifications ++ s.owed e t := by
    constructor
    · intro hall
      exact hall t hstep
    · intro hqueued u hu
      cases hstep.symm.trans hu
      exact hqueued
  rw [hexact, hnotified.queued, List.append_cancel_left_eq, owed, notifyWhen_pair_eq,
    hnotified.backlog_eq, Unnoticed]
  by_cases hnone : s.backlog = 0
  · -- the code's view, in which there never is a backlog, is right
    rw [hnone]
    refine iff_of_true ⟨?_, ?_, ?_⟩ (Or.inl rfl)
    · constructor
      · rintro ⟨hset, hcompletes⟩
        exact ⟨hset, by rw [OutEvent.left_of_completes hcompletes], Or.inl hcompletes⟩
      · rintro ⟨hset, _, hcompletes | ⟨_, hpending⟩⟩
        · exact ⟨hset, hcompletes⟩
        · exact absurd hpending (Nat.lt_irrefl 0)
    · rw [Nat.zero_add]
      constructor
      · rintro ⟨hset, hle⟩
        exact ⟨hset, hsend (by omega), hpositive, hle⟩
      · rintro ⟨hset, _, _, hle⟩
        exact ⟨hset, hle⟩
    · intro _
      exact (Nat.zero_add _).symm
  · -- nothing but a crossing of the mark is owed, and the code compares its own bytes
    constructor
    · rintro ⟨hdone, hcrossed, hsize⟩
      refine Or.inr ⟨?_, ?_⟩
      · intro hset
        by_contra hcompletes
        rw [Bool.not_eq_false] at hcompletes
        have hzero := (hdone.mp ⟨hset, hcompletes⟩).2.1
        omega
      · intro hset
        have hbelow : ¬ s.ctx.conn.highWaterMark_ ≤ (e.left : Int) := by
          intro hle
          have hsame := hsize ⟨hset, hle⟩
          omega
        refine ⟨by omega, ?_⟩
        by_contra hcross
        exact hbelow (hcrossed.mpr ⟨hset, hsend (by omega), by omega, by omega⟩).2
    · rintro (hzero | ⟨hdone, hmark⟩)
      · exact absurd hzero hnone
      · refine ⟨?_, ?_, ?_⟩
        · constructor
          · rintro ⟨hset, hcompletes⟩
            rw [hdone hset] at hcompletes
            cases hcompletes
          · rintro ⟨_, hzero, _⟩
            omega
        · constructor
          · rintro ⟨hset, hle⟩
            have hbelow := (hmark hset).1
            omega
          · rintro ⟨hset, _, hbefore, hafter⟩
            rcases (hmark hset).2 with hbelow | habove
            · omega
            · omega
        · rintro ⟨hset, hle⟩
          have hbelow := (hmark hset).1
          omega

theorem start_marked (cfg : ConnConfig) (hpositive : 0 < cfg.highWaterMark)
    (hbounded : cfg.highWaterMark < 2 ^ 63) : (start cfg).Marked :=
  ⟨start_calm cfg, hpositive, hbounded, Nat.le_refl _⟩

end Session

/-- **When the notifications about the backlog are exact.**  For every positive mark, each
    step of a run queues exactly the notifications owed for it, with the new backlog as
    the argument, exactly when the backlog of every step goes unnoticed. -/
theorem backlog_notifications_exact_iff (cfg : ConnConfig) (hpositive : 0 < cfg.highWaterMark)
    (hbounded : cfg.highWaterMark < 2 ^ 63) (es : List OutEvent) (t : Session)
    (hrun : Run Session.step (Session.start cfg) es t) :
    Along Session.step Session.NotifiesExactly (Session.start cfg) es ↔
      Along Session.step Session.Unnoticed (Session.start cfg) es :=
  along_congr (fun _ _ _ h hstep => h.step hstep) (fun _ _ _ h hstep => h.notifiesExactly_iff hstep)
    (Session.start_marked cfg hpositive hbounded) hrun

theorem backlog_notifications_exact_iff_short_write :
    Along Session.step Session.NotifiesExactly (Session.start .sameLoop)
        [.sendInLoop [97, 98] (.wrote 1)] ↔
      Along Session.step Session.Unnoticed (Session.start .sameLoop)
        [.sendInLoop [97, 98] (.wrote 1)] := by
  obtain ⟨t, ht, _⟩ := Session.send_enabled (Session.start_calm .sameLoop) [97, 98] (.wrote 1)
    rfl (by decide)
  exact backlog_notifications_exact_iff .sameLoop (by decide) (by decide) _ t (Run.one ht)

/-- One byte of two is left; the next message is taken whole, and `writeCompleteCallback_`
    is queued although that byte is still there. -/
theorem write_complete_with_backlog :
    (∀ e ∈ [OutEvent.sendInLoop [97, 98] (.wrote 1), .sendInLoop [99] (.wrote 1)], ¬ e.Faults) ∧
      (∃ t, Run Session.step (Session.start .sameLoop)
        [.sendInLoop [97, 98] (.wrote 1), .sendInLoop [99] (.wrote 1)] t) ∧
      ¬ Along Session.step Session.NotifiesExactly (Session.start .sameLoop)
        [.sendInLoop [97, 98] (.wrote 1), .sendInLoop [99] (.wrote 1)] := by
  have hmarked := Session.start_marked .sameLoop (by decide) (by decide)
  obtain ⟨s, hs, _⟩ := Session.send_enabled hmarked.calm [97, 98] (.wrote 1) rfl (by decide)
  have hmarked' := hmarked.step hs
  obtain ⟨t, ht, _⟩ := Session.send_enabled hmarked'.calm [99] (.wrote 1) rfl (by decide)
  refine ⟨by decide, ⟨t, Run.cons hs (Run.one ht)⟩, ?_⟩
  intro hexact
  have hone : s.backlog = 1 := (hmarked.notified hs).backlog_eq
  have hset : s.ctx.conn.writeCompleteCallback_ = true :=
    congrArg (fun settings => settings.2.1) (hmarked.notified hs).settings_eq
  rcases (hmarked'.notifiesExactly_iff ht).mp (hexact.tail hs).head with hzero | ⟨hdone, _⟩
  · omega
  · cases hdone hset

end Muduo
