import Muduo.TimerInvariants

/-!
# Timers of several threads

`TimerQueue::addTimer` and `cancel` go through `EventLoop::runInLoop`: on the loop's
thread the work is done at once, from another thread it is queued in `pendingFunctor_`.
`addTimer` returns the id when the functor is queued, so an id can be in use before its
timer is in the queue.

Functors run in the order they were queued, and a cancel that is queued finds its timer
inserted.  A cancel on the loop's thread does not wait for the queue: it can come before
the `addTimerInLoop` of its timer, finds nothing to cancel, and is forgotten.
-/

namespace Muduo

open Transitions

/-- What is bound into a functor of the loop; the functors of other components are not
    modelled, and what they do to the timers is calls on the loop's thread. -/
inductive TimerFunctor where
  | addTimerInLoop (timer : TimerPtr)
  | cancelInLoop (timerId : TimerId)
deriving DecidableEq, Repr

/-- What has happened on the loop's thread. -/
inductive TimerAction where
  | added (timerId : TimerId)
  | cancelled (timerId : TimerId)
  | began
  | called (timerId : TimerId)
deriving DecidableEq, Repr

structure TimerThreads where
  timers : TimerWorld
  pendingFunctor_ : List TimerFunctor
  /-- The functors `doPendingFunctors` swapped out and has not run yet. -/
  functors : List TimerFunctor
  /-- The timers of calls of `addTimer` on other threads: not queued yet. -/
  creating : List TimerId
  /-- Those queued, whose call has not returned yet. -/
  returning : List TimerId
  /-- The ids that `addTimer` has returned. -/
  handedOut : List TimerId
  log : List TimerAction

inductive ThreadEvent where
  /-- `addTimer` on the loop's thread. -/
  | addTimer (timer : TimerPtr) (when_ : Timestamp) (interval : Interval)
  /-- `addTimer` on another thread, in three steps. -/
  | newTimer (timer : TimerPtr) (when_ : Timestamp) (interval : Interval)
  | queueAdd (timerId : TimerId)
  | returnAdd (timerId : TimerId)
  | cancel (inLoopThread : Bool) (timerId : TimerId)
  /-- `doPendingFunctors` swaps the functors out. -/
  | doPendingFunctors
  | runFunctor
  /-- A step of the timer queue that is no call of these functions. -/
  | timers (event : TimerEvent)
deriving DecidableEq, Repr

namespace TimerThreads

def start : TimerThreads := ⟨TimerWorld.start, [], [], [], [], [], []⟩

/-- The functors that have not run, in the order in which they will. -/
def queued (s : TimerThreads) : List TimerFunctor := s.functors ++ s.pendingFunctor_

/-- What an event of the timer queue shows. -/
def shown (s : TimerThreads) : TimerEvent → List TimerAction
  | .addTimerInLoop timer => [.added ⟨timer, s.timers.queue.sequenceAt timer⟩]
  | .cancelInLoop timerId => [.cancelled timerId]
  | .handleRead _ => [.began]
  | .run => match s.timers.batch with
    | some ⟨_, _, it :: _⟩ => [.called ⟨it.second, s.timers.queue.sequenceAt it.second⟩]
    | _ => []
  | _ => []

def onQueue (s : TimerThreads) (event : TimerEvent) : Except Fault TimerThreads := do
  let w ← s.timers.perform event
  .ok { s with timers := w, log := s.log ++ s.shown event }

/-- Call a functor. -/
def call (s : TimerThreads) : TimerFunctor → Except Fault TimerThreads
  | .addTimerInLoop timer => s.onQueue (.addTimerInLoop timer)
  | .cancelInLoop timerId => s.onQueue (.cancelInLoop timerId)

def queueInLoop (s : TimerThreads) (cb : TimerFunctor) : TimerThreads :=
  { s with pendingFunctor_ := s.pendingFunctor_ ++ [cb] }

def runInLoop (s : TimerThreads) (inLoopThread : Bool) (cb : TimerFunctor) :
    Except Fault TimerThreads :=
  if inLoopThread then s.call cb else .ok (s.queueInLoop cb)

/-- An id a caller of `cancel` can have: one that `addTimer` returned, or one that is no
    id of this queue, as a default id or one of another queue. -/
def nameable (s : TimerThreads) (timerId : TimerId) : Bool :=
  decide (timerId ∈ s.handedOut) ||
    decide (timerId ∉ s.timers.issued) && decide (timerId.sequence_ ≤ s.timers.s_numCreated_)

/-- Whether the event can happen. -/
def legal (s : TimerThreads) : ThreadEvent → Bool
  | .addTimer timer when_ interval =>
    s.timers.inUserCode && s.timers.legal (.newTimer timer when_ interval)
  | .newTimer timer when_ interval => s.timers.legal (.newTimer timer when_ interval)
  | .queueAdd timerId => decide (timerId ∈ s.creating)
  | .returnAdd timerId => decide (timerId ∈ s.returning)
  | .cancel inLoopThread timerId =>
    s.nameable timerId && (!inLoopThread || s.timers.inUserCode)
  | .doPendingFunctors => decide (s.functors = []) && decide (s.timers.batch = none)
  | .runFunctor => decide (s.functors ≠ []) && decide (s.timers.batch = none)
  | .timers event => match event with
    | .newElsewhere | .timerfdExpires | .run | .reset => s.timers.legal event
    | .handleRead _ => decide (s.functors = []) && s.timers.legal event
    | _ => false

/-- What the event does. -/
def perform (s : TimerThreads) : ThreadEvent → Except Fault TimerThreads
  | .addTimer timer when_ interval => do
    let timerId : TimerId := ⟨timer, s.timers.s_numCreated_ + 1⟩
    let s ← s.onQueue (.newTimer timer when_ interval)
    let s ← s.runInLoop true (.addTimerInLoop timer)
    .ok { s with handedOut := timerId :: s.handedOut }
  | .newTimer timer when_ interval => do
    let timerId : TimerId := ⟨timer, s.timers.s_numCreated_ + 1⟩
    let s ← s.onQueue (.newTimer timer when_ interval)
    .ok { s with creating := timerId :: s.creating }
  | .queueAdd timerId => do
    let s ← s.runInLoop false (.addTimerInLoop timerId.timer_)
    .ok { s with creating := s.creating.erase timerId, returning := timerId :: s.returning }
  | .returnAdd timerId => do
    -- `timer->sequence()` reads an object that the loop may have deleted by now
    let t ← s.timers.queue.deref timerId.timer_
    if t.sequence_ = timerId.sequence_ then
      .ok { s with returning := s.returning.erase timerId, handedOut := timerId :: s.handedOut }
    else
      .error .dangling
  | .cancel inLoopThread timerId => s.runInLoop inLoopThread (.cancelInLoop timerId)
  | .doPendingFunctors => .ok { s with functors := s.pendingFunctor_, pendingFunctor_ := [] }
  | .runFunctor =>
    match s.functors with
    | functor :: rest => { s with functors := rest }.call functor
    | [] => .ok s
  | .timers event => s.onQueue event

def step (s : TimerThreads) (e : ThreadEvent) : Option TimerThreads :=
  if s.legal e then returned (s.perform e) else none

end TimerThreads

/-! ### What becomes of one timer -/

namespace TimerWorld

/-- The timer an id names exists. -/
def Alive (w : TimerWorld) (timerId : TimerId) : Prop :=
  ∃ t, w.queue.heap timerId.timer_ = some t ∧ t.sequence_ = timerId.sequence_

/-- It exists and has not been inserted. -/
def Waiting (w : TimerWorld) (timerId : TimerId) : Prop :=
  w.Alive timerId ∧ timerId.timer_ ∈ w.created

/-- No batch that starts later will call it: if it exists, it was taken out for the batch
    in execution and will not be put back. -/
def Doomed (w : TimerWorld) (timerId : TimerId) : Prop :=
  ∀ t, w.queue.heap timerId.timer_ = some t → t.sequence_ = timerId.sequence_ →
    timerId.timer_ ∈ w.expired.map Entry.second ∧ ¬ w.queue.renews timerId.timer_ t

theorem Doomed.gone {w : TimerWorld} {timerId : TimerId} (h : w.Doomed timerId)
    (hbatch : w.batch = none) : ¬ w.Alive timerId := by
  rintro ⟨t, ht, hsequence⟩
  have hin := (h t ht hsequence).1
  rw [expired_idle hbatch] at hin
  cases hin

/-- What holds of a timer after any step: no timer comes back that does not exist, none
    waits again, and a doomed one stays doomed. -/
structure Evolves (w w' : TimerWorld) : Prop where
  numCreated : w.s_numCreated_ ≤ w'.s_numCreated_
  alive : ∀ timerId, timerId.sequence_ ≤ w.s_numCreated_ → w'.Alive timerId → w.Alive timerId
  waiting : ∀ timerId, timerId.sequence_ ≤ w.s_numCreated_ → w'.Waiting timerId → w.Waiting timerId
  doomed : ∀ timerId, timerId.sequence_ ≤ w.s_numCreated_ → w.Doomed timerId → w'.Doomed timerId

theorem Evolves.refl (w : TimerWorld) : w.Evolves w :=
  ⟨Nat.le_refl _, fun _ _ h => h, fun _ _ h => h, fun _ _ h => h⟩

theorem Evolves.trans {w w' w'' : TimerWorld} (h : w.Evolves w') (h' : w'.Evolves w'') :
    w.Evolves w'' := by
  refine ⟨h.numCreated.trans h'.numCreated, ?_, ?_, ?_⟩
  · intro timerId hold halive
    exact h.alive timerId hold (h'.alive timerId (hold.trans h.numCreated) halive)
  · intro timerId hold hwaiting
    exact h.waiting timerId hold (h'.waiting timerId (hold.trans h.numCreated) hwaiting)
  · intro timerId hold hdoomed
    exact h'.doomed timerId (hold.trans h.numCreated) (h.doomed timerId hold hdoomed)

/-- A step that creates no timer and deletes or changes none outside the batch. -/
theorem Evolves.of_frame {w w' : TimerWorld} (hnumber : w.s_numCreated_ ≤ w'.s_numCreated_)
    (hheap : ∀ timer t, w'.queue.heap timer = some t → w.queue.heap timer = some t)
    (hcreated : w'.created ⊆ w.created) (hexpired : w'.expired = w.expired)
    (hcanceling : ∀ x ∈ w.queue.cancelingTimers_, x ∈ w'.queue.cancelingTimers_) :
    w.Evolves w' := by
  refine ⟨hnumber, ?_, ?_, ?_⟩
  · rintro timerId _ ⟨t, ht, hsequence⟩
    exact ⟨t, hheap _ t ht, hsequence⟩
  · rintro timerId _ ⟨⟨t, ht, hsequence⟩, hin⟩
    exact ⟨⟨t, hheap _ t ht, hsequence⟩, hcreated hin⟩
  · intro timerId _ hdoomed t ht hsequence
    rcases hdoomed t (hheap _ t ht) hsequence with ⟨hin, hout⟩
    rw [hexpired]
    refine ⟨hin, ?_⟩
    rintro ⟨hrepeat, hkept⟩
    exact hout ⟨hrepeat, fun hcancel => hkept (hcanceling _ hcancel)⟩

theorem Evolves.newTimer {w : TimerWorld} {timer : TimerPtr} (when_ : Timestamp)
    (interval : Interval) : w.Evolves { w with
      queue := w.queue.store timer (Timer.new when_ interval (w.s_numCreated_ + 1))
      s_numCreated_ := w.s_numCreated_ + 1
      created := timer :: w.created
      issued := ⟨timer, w.s_numCreated_ + 1⟩ :: w.issued } := by
  have hother : ∀ (timerId : TimerId) t, timerId.sequence_ ≤ w.s_numCreated_ →
      (w.queue.store timer (Timer.new when_ interval (w.s_numCreated_ + 1))).heap timerId.timer_
        = some t → t.sequence_ = timerId.sequence_ →
      timerId.timer_ ≠ timer ∧ w.queue.heap timerId.timer_ = some t := by
    intro timerId t hold ht hsequence
    have hne : timerId.timer_ ≠ timer := by
      intro hsame
      rw [hsame, show (w.queue.store timer _).heap timer = some _ from
        Function.update_self ..] at ht
      cases ht
      simp only [Timer.new] at hsequence
      omega
    exact ⟨hne, (Function.update_of_ne hne ..).symm.trans ht⟩
  refine ⟨Nat.le_succ _, ?_, ?_, ?_⟩
  · rintro timerId hold ⟨t, ht, hsequence⟩
    exact ⟨t, (hother timerId t hold ht hsequence).2, hsequence⟩
  · rintro timerId hold ⟨⟨t, ht, hsequence⟩, hin⟩
    rcases hother timerId t hold ht hsequence with ⟨hne, ht'⟩
    rcases List.mem_cons.mp hin with hsame | hcreated
    · exact absurd hsame hne
    · exact ⟨⟨t, ht', hsequence⟩, hcreated⟩
  · intro timerId hold hdoomed t ht hsequence
    exact hdoomed t (hother timerId t hold ht hsequence).2 hsequence

theorem Inv.reset_evolves {w : TimerWorld} (h : w.Inv) {now : Timestamp} {expired : List Entry}
    {q : TimerQueue} (hbatch : w.batch = some ⟨now, expired, []⟩)
    (hput : ({ w.queue with callingExpiredTimers_ := false } : TimerQueue).PutBack expired now q) :
    w.Evolves { w with queue := q, batch := none } := by
  have hconsistent := h.batch_consistent hbatch
  have hexpired : w.expired = expired := expired_batch hbatch
  refine ⟨Nat.le_refl _, ?_, ?_, ?_⟩
  · rintro timerId _ ⟨t', ht', hsequence⟩
    rcases hput.heap_origin hconsistent ht' with ⟨t, ht, hsame⟩
    exact ⟨t, ht, hsame.trans hsequence⟩
  · rintro timerId _ ⟨⟨t', ht', hsequence⟩, hin⟩
    rcases hput.heap_origin hconsistent ht' with ⟨t, ht, hsame⟩
    exact ⟨⟨t, ht, hsame.trans hsequence⟩, hin⟩
  · intro timerId _ hdoomed t' ht' hsequence
    rcases hput.heap_origin hconsistent ht' with ⟨t, ht, hsame⟩
    rcases hdoomed t ht (hsame.trans hsequence) with ⟨hin, hout⟩
    rw [hexpired] at hin
    obtain ⟨e, he, hsecond⟩ := List.mem_map.mp hin
    rw [← hsecond] at ht ht' hout
    have hitem : q.heap e.second =
        if w.queue.renews e.second t then some (t.restart now) else none :=
      hput.heap_item e he t ht
    rw [if_neg hout, ht'] at hitem
    cases hitem

theorem Stepped.evolves {w w' : TimerWorld} {e : TimerEvent} (hinv : w.Inv)
    (h : Stepped w e w') : w.Evolves w' := by
  cases h with
  | newTimer _ _ _ => exact Evolves.newTimer _ _
  | newElsewhere =>
    exact Evolves.of_frame (Nat.le_succ _) (fun _ _ ht => ht) (List.Subset.refl _) rfl
      fun _ hx => hx
  | addTimerInLoop _ _ _ _ _ =>
    exact Evolves.of_frame (Nat.le_refl _) (fun _ _ ht => ht) List.erase_subset rfl fun _ hx => hx
  | @cancelActive timerId t _ _ _ _ =>
    refine Evolves.of_frame (Nat.le_refl _) ?_ (List.Subset.refl _) rfl fun _ hx => hx
    intro other u hu
    exact (TimerQueue.removed_heap_origin hu).2
  | @cancelInactive timerId _ _ =>
    refine Evolves.of_frame (Nat.le_refl _) ?_ (List.Subset.refl _) rfl
      fun _ hx => TimerQueue.noted_canceling_of_mem hx
    intro timer t ht
    exact (congrFun (w.queue.noted_heap timerId) timer).symm.trans ht
  | timerfdExpires _ =>
    exact Evolves.of_frame (Nat.le_refl _) (fun _ _ ht => ht) (List.Subset.refl _) rfl
      fun _ hx => hx
  | handleRead hbatch hbegun =>
    refine ⟨Nat.le_refl _, ?_, ?_, ?_⟩
    · rintro timerId _ ⟨t, ht, hsequence⟩
      rw [hbegun.heap_eq] at ht
      exact ⟨t, ht, hsequence⟩
    · rintro timerId _ ⟨⟨t, ht, hsequence⟩, hin⟩
      rw [hbegun.heap_eq] at ht
      exact ⟨⟨t, ht, hsequence⟩, hin⟩
    · intro timerId _ hdoomed t ht hsequence
      rw [hbegun.heap_eq] at ht
      exact absurd ⟨t, ht, hsequence⟩ (hdoomed.gone hbatch)
  | run hbatch =>
    refine Evolves.of_frame (Nat.le_refl _) (fun _ _ ht => ht) (List.Subset.refl _) ?_
      fun _ hx => hx
    simp only [expired, hbatch]
  | reset hbatch _ hput => exact hinv.reset_evolves hbatch hput

/-- A timer that was inserted is doomed by its cancel. -/
theorem Inv.doomed_of_cancel {w w' : TimerWorld} {timerId : TimerId} (h : w.Inv)
    (hinserted : ¬ w.Waiting timerId) (hstepped : Stepped w (.cancelInLoop timerId) w') :
    w'.Doomed timerId := by
  cases hstepped with
  | @cancelActive _ t _ _ _ _ =>
    intro u hu _
    exact absurd rfl (TimerQueue.removed_heap_origin hu).1
  | cancelInactive _ hactive =>
    intro t ht hsequence
    have ht' : w.queue.heap timerId.timer_ = some t :=
      (congrFun (w.queue.noted_heap timerId) timerId.timer_).symm.trans ht
    have hexpired : timerId.timer_ ∈ w.expired.map Entry.second := by
      rcases h.placed _ t ht' with hcreated | hin | hin
      · exact absurd ⟨⟨t, ht', hsequence⟩, hcreated⟩ hinserted
      · rw [hsequence] at hin
        exact absurd hin hactive
      · exact hin
    refine ⟨hexpired, ?_⟩
    rintro ⟨_, hkept⟩
    apply hkept
    have hcalling : w.queue.callingExpiredTimers_ = true := by
      rw [h.calling, Option.isSome_iff_ne_none]
      intro hbatch
      rw [expired_idle hbatch] at hexpired
      cases hexpired
    simp only [TimerQueue.noted, hcalling, if_true, hsequence]
    exact OrdSet.mem_insert.mpr (Or.inl rfl)

theorem Stepped.newTimer_facts {w w' : TimerWorld} {timer : TimerPtr} {when_ : Timestamp}
    {interval : Interval} (h : Stepped w (.newTimer timer when_ interval) w') :
    w.queue.heap timer = none ∧ w'.created = timer :: w.created ∧
      w'.s_numCreated_ = w.s_numCreated_ + 1 := by
  cases h with
  | newTimer _ _ hfree => exact ⟨hfree, rfl, rfl⟩

theorem Stepped.addTimerInLoop_facts {w w' : TimerWorld} {timer : TimerPtr}
    (h : Stepped w (.addTimerInLoop timer) w') :
    w'.created = w.created.erase timer ∧ w'.s_numCreated_ = w.s_numCreated_ := by
  cases h
  exact ⟨rfl, rfl⟩

/-- A timer just created can be inserted where it was created. -/
theorem Stepped.addTimer_legal {w w' : TimerWorld} {timer : TimerPtr} {when_ : Timestamp}
    {interval : Interval} (h : Stepped w (.newTimer timer when_ interval) w')
    (huser : w.inUserCode = true) : w'.legal (.addTimerInLoop timer) = true := by
  cases h with
  | newTimer _ _ _ =>
    simp only [legal, Bool.and_eq_true, decide_eq_true_eq]
    exact ⟨huser, List.mem_cons_self ..⟩

/-- Whether a step of the queue neither creates nor inserts a timer. -/
def Quiet : TimerEvent → Prop
  | .newTimer .. | .addTimerInLoop _ => False
  | _ => True

theorem Stepped.created_eq {w w' : TimerWorld} {e : TimerEvent} (h : Stepped w e w')
    (hquiet : Quiet e) : w'.created = w.created := by
  cases h with
  | newTimer _ _ _ => exact hquiet.elim
  | addTimerInLoop _ _ _ _ _ => exact hquiet.elim
  | _ => rfl

end TimerWorld

/-! ### The order of the functors -/

/-- The timer a functor will insert. -/
def TimerFunctor.adding : TimerFunctor → Option TimerPtr
  | .addTimerInLoop timer => some timer
  | .cancelInLoop _ => none

/-- The functors `queue` are the requests for the timers that wait, apart from those of
    `creating`; for an id of `named` the `addTimerInLoop` is queued as long as its timer
    waits, and no cancel of the timer is queued before it. -/
structure Ordered (w : TimerWorld) (creating named : List TimerId) (queue : List TimerFunctor) :
    Prop where
  waiting : (creating.map TimerId.timer_ ++ queue.filterMap TimerFunctor.adding).Perm w.created
  old : ∀ timerId, timerId ∈ creating ∨ timerId ∈ named ∨ .cancelInLoop timerId ∈ queue →
    timerId.sequence_ ≤ w.s_numCreated_
  added : ∀ timerId, timerId ∈ named ∨ .cancelInLoop timerId ∈ queue → w.Waiting timerId →
    .addTimerInLoop timerId.timer_ ∈ queue
  ordered : queue.Pairwise fun functor later => ∀ timerId, functor = .cancelInLoop timerId →
    later = .addTimerInLoop timerId.timer_ → ¬ w.Waiting timerId

namespace Ordered

variable {w w' : TimerWorld} {creating named : List TimerId} {queue : List TimerFunctor}

theorem evolves (h : Ordered w creating named queue) (hevolves : w.Evolves w')
    (hcreated : w'.created = w.created) : Ordered w' creating named queue := by
  refine ⟨?_, ?_, ?_, ?_⟩
  · rw [hcreated]
    exact h.waiting
  · intro timerId hin
    exact (h.old timerId hin).trans hevolves.numCreated
  · intro timerId hin hwaiting
    exact h.added timerId hin (hevolves.waiting timerId (h.old timerId (Or.inr hin)) hwaiting)
  · refine h.ordered.imp_of_mem ?_
    rintro _ later hin _ hordered timerId rfl hlater hwaiting
    refine hordered timerId rfl hlater (hevolves.waiting timerId ?_ hwaiting)
    exact h.old timerId (Or.inr (Or.inr hin))

theorem subset (h : Ordered w creating named queue) {named' : List TimerId}
    (hsubset : named' ⊆ named) : Ordered w creating named' queue := by
  refine ⟨h.waiting, ?_, ?_, h.ordered⟩
  · intro timerId hin
    exact h.old timerId (hin.imp_right (Or.imp_left (hsubset ·)))
  · intro timerId hin
    exact h.added timerId (hin.imp_left (hsubset ·))

/-- `addTimer` on the loop's thread: its timer does not wait. -/
theorem addTimer (h : Ordered w creating named queue) (hevolves : w.Evolves w')
    (hcreated : w'.created = w.created) (timerId : TimerId) (hinserted : timerId.timer_ ∉ w.created)
    (hold : timerId.sequence_ ≤ w'.s_numCreated_) :
    Ordered w' creating (timerId :: named) queue := by
  have h' := h.evolves hevolves hcreated
  refine ⟨h'.waiting, ?_, ?_, h'.ordered⟩
  · intro other hin
    by_cases hother : other = timerId
    · exact hother ▸ hold
    · refine h'.old other (hin.imp_right (Or.imp_left fun hin => ?_))
      exact (List.mem_cons.mp hin).resolve_left hother
  · intro other hin hwaiting
    by_cases hother : other = timerId
    · subst hother
      rw [← hcreated] at hinserted
      exact absurd hwaiting.2 hinserted
    · refine h'.added other (hin.imp_left fun hin => ?_) hwaiting
      exact (List.mem_cons.mp hin).resolve_left hother

/-- `new Timer` on another thread. -/
theorem newTimer (h : Ordered w creating named queue) (hevolves : w.Evolves w')
    {timerId : TimerId} (hcreated : w'.created = timerId.timer_ :: w.created)
    (hold : timerId.sequence_ ≤ w'.s_numCreated_) :
    Ordered w' (timerId :: creating) named queue := by
  refine ⟨?_, ?_, ?_, ?_⟩
  · rw [hcreated]
    exact h.waiting.cons _
  · intro other hin
    by_cases hother : other = timerId
    · exact hother ▸ hold
    · refine (h.old other (hin.imp_left fun hin => ?_)).trans hevolves.numCreated
      exact (List.mem_cons.mp hin).resolve_left hother
  · intro other hin hwaiting
    exact h.added other hin (hevolves.waiting other (h.old other (Or.inr hin)) hwaiting)
  · refine h.ordered.imp_of_mem ?_
    rintro _ later hin _ hordered other rfl hlater hwaiting
    refine hordered other rfl hlater (hevolves.waiting other ?_ hwaiting)
    exact h.old other (Or.inr (Or.inr hin))

/-- `queueInLoop` of an `addTimerInLoop`. -/
theorem queueAdd (h : Ordered w creating named queue) (hdistinct : w.created.Nodup)
    {timerId : TimerId} (hin : timerId ∈ creating) :
    Ordered w (creating.erase timerId) (timerId :: named)
      (queue ++ [.addTimerInLoop timerId.timer_]) := by
  have hfresh : .addTimerInLoop timerId.timer_ ∉ queue := by
    intro hqueued
    have hnodup := h.waiting.nodup_iff.mpr hdistinct
    apply (List.nodup_append.mp hnodup).2.2 timerId.timer_ (List.mem_map_of_mem hin)
      timerId.timer_ _ rfl
    exact List.mem_filterMap.mpr ⟨_, hqueued, rfl⟩
  refine ⟨?_, ?_, ?_, ?_⟩
  · have hmoved : (creating.map TimerId.timer_).Perm
        (timerId.timer_ :: (creating.erase timerId).map TimerId.timer_) :=
      (List.perm_cons_erase hin).map _
    refine List.Perm.trans ?_ h.waiting
    rw [List.filterMap_append, ← List.append_assoc]
    exact (List.perm_append_singleton _ _).trans ((hmoved.append_right _).symm)
  · intro other hother
    apply h.old
    rcases hother with hcreating | hnamed | hqueued
    · exact Or.inl (List.mem_of_mem_erase hcreating)
    · rcases List.mem_cons.mp hnamed with rfl | hnamed
      · exact Or.inl hin
      · exact Or.inr (Or.inl hnamed)
    · simp at hqueued
      exact Or.inr (Or.inr hqueued)
  · intro other hother hwaiting
    by_cases hsame : other = timerId
    · rw [hsame]
      simp
    · refine List.mem_append_left _ (h.added other ?_ hwaiting)
      rcases hother with hnamed | hqueued
      · exact Or.inl ((List.mem_cons.mp hnamed).resolve_left hsame)
      · simp at hqueued
        exact Or.inr hqueued
  · rw [List.pairwise_append]
    refine ⟨h.ordered, List.pairwise_singleton _ _, ?_⟩
    rintro _ hqueued later hlater other rfl heq hwaiting
    rw [List.mem_singleton] at hlater
    rw [hlater] at heq
    apply hfresh
    rw [heq]
    exact h.added other (Or.inr hqueued) hwaiting

/-- `queueInLoop` of a `cancelInLoop`. -/
theorem queueCancel (h : Ordered w creating named queue) {timerId : TimerId}
    (hold : timerId.sequence_ ≤ w.s_numCreated_) (hnamed : timerId ∈ named ∨ ¬ w.Waiting timerId) :
    Ordered w creating named (queue ++ [.cancelInLoop timerId]) := by
  have hqueued : ∀ other, .cancelInLoop other ∈ queue ++ [.cancelInLoop timerId] →
      .cancelInLoop other ∈ queue ∨ other = timerId := by
    intro other hin
    simpa using hin
  refine ⟨?_, ?_, ?_, ?_⟩
  · rw [List.filterMap_append, List.filterMap_cons_none rfl, List.filterMap_nil, List.append_nil]
    exact h.waiting
  · rintro other (hcreating | hnamed' | hin)
    · exact h.old other (Or.inl hcreating)
    · exact h.old other (Or.inr (Or.inl hnamed'))
    · rcases hqueued other hin with hin | rfl
      · exact h.old other (Or.inr (Or.inr hin))
      · exact hold
  · rintro other (hnamed' | hin) hwaiting
    · exact List.mem_append_left _ (h.added other (Or.inl hnamed') hwaiting)
    · rcases hqueued other hin with hin | rfl
      · exact List.mem_append_left _ (h.added other (Or.inr hin) hwaiting)
      · refine List.mem_append_left _ (h.added other (Or.inl ?_) hwaiting)
        exact hnamed.resolve_right (not_not_intro hwaiting)
  · rw [List.pairwise_append]
    refine ⟨h.ordered, List.pairwise_singleton _ _, ?_⟩
    rintro functor _ later hlater other _ heq
    rw [List.mem_singleton.mp hlater] at heq
    cases heq

/-- The first functor is an `addTimerInLoop`, and it is run. -/
theorem runAdd {timer : TimerPtr} (h : Ordered w creating named (.addTimerInLoop timer :: queue))
    (hdistinct : w.created.Nodup) (hevolves : w.Evolves w')
    (hcreated : w'.created = w.created.erase timer) : Ordered w' creating named queue := by
  refine ⟨?_, ?_, ?_, ?_⟩
  · rw [hcreated]
    have hmoved : (timer ::
        (creating.map TimerId.timer_ ++ queue.filterMap TimerFunctor.adding)).Perm w.created :=
      List.perm_middle.symm.trans h.waiting
    simpa using hmoved.erase timer
  · intro other hin
    refine (h.old other ?_).trans hevolves.numCreated
    exact hin.imp_right (Or.imp_right (List.mem_cons_of_mem _))
  · intro other hin hwaiting
    have hin' := hin.imp_right (List.mem_cons_of_mem (TimerFunctor.addTimerInLoop timer))
    have hqueued := h.added other hin'
      (hevolves.waiting other (h.old other (Or.inr hin')) hwaiting)
    have hother : other.timer_ ≠ timer := by
      have hcreated' := hwaiting.2
      rw [hcreated] at hcreated'
      exact ((List.Nodup.mem_erase_iff hdistinct).mp hcreated').1
    rcases List.mem_cons.mp hqueued with heq | hqueued
    · cases heq
      exact absurd rfl hother
    · exact hqueued
  · refine (List.pairwise_cons.mp h.ordered).2.imp_of_mem ?_
    rintro _ later hin _ hordered other rfl hlater hwaiting
    refine hordered other rfl hlater (hevolves.waiting other ?_ hwaiting)
    exact h.old other (Or.inr (Or.inr (List.mem_cons_of_mem _ hin)))

/-- The first functor is a `cancelInLoop`: its timer was inserted. -/
theorem runCancel {timerId : TimerId}
    (h : Ordered w creating named (.cancelInLoop timerId :: queue)) :
    Ordered w creating named queue ∧ ¬ w.Waiting timerId := by
  obtain ⟨hfirst, hrest⟩ := List.pairwise_cons.mp h.ordered
  refine ⟨⟨h.waiting, ?_, ?_, hrest⟩, ?_⟩
  · intro other hin
    exact h.old other (hin.imp_right (Or.imp_right (List.mem_cons_of_mem _)))
  · intro other hin hwaiting
    have hqueued := h.added other (hin.imp_right (List.mem_cons_of_mem _)) hwaiting
    simpa using hqueued
  · intro hwaiting
    have hqueued := h.added timerId (Or.inr (List.mem_cons_self ..)) hwaiting
    have hlater : .addTimerInLoop timerId.timer_ ∈ queue := by simpa using hqueued
    exact hfirst _ hlater timerId rfl rfl hwaiting

end Ordered

/-! ### What the log says -/

/-- What holds of an action when it happens. -/
def TimerWorld.Admits (w : TimerWorld) : TimerAction → Prop
  | .added _ => True
  | .cancelled timerId => timerId.sequence_ ≤ w.s_numCreated_ ∧ w.Doomed timerId
  | .began => w.batch = none
  | .called timerId => w.Alive timerId

/-- A timer whose cancel was executed is doomed, and once a batch has begun after the
    cancel it is gone and is never called again. -/
structure Logged (w : TimerWorld) (log : List TimerAction) : Prop where
  old : ∀ timerId, .cancelled timerId ∈ log → timerId.sequence_ ≤ w.s_numCreated_
  doomed : ∀ timerId, .cancelled timerId ∈ log → w.Doomed timerId
  gone : ∀ pre post timerId, log = pre ++ .began :: post → .cancelled timerId ∈ pre →
    ¬ w.Alive timerId
  honoured : ∀ pre post timerId, log = pre ++ .began :: post → .cancelled timerId ∈ pre →
    .called timerId ∉ post

namespace Logged

variable {w w' : TimerWorld} {log : List TimerAction}

theorem evolves (h : Logged w log) (hevolves : w.Evolves w') : Logged w' log := by
  refine ⟨?_, ?_, ?_, h.honoured⟩
  · intro timerId hin
    exact (h.old timerId hin).trans hevolves.numCreated
  · intro timerId hin
    exact hevolves.doomed timerId (h.old timerId hin) (h.doomed timerId hin)
  · intro pre post timerId hlog hin halive
    have hold : timerId.sequence_ ≤ w.s_numCreated_ := by
      apply h.old timerId
      rw [hlog]
      exact List.mem_append_left _ hin
    exact h.gone pre post timerId hlog hin (hevolves.alive timerId hold halive)

/-- One more action. -/
theorem append (h : Logged w log) {action : TimerAction} (haction : w.Admits action) :
    Logged w (log ++ [action]) := by
  -- a batch in the longer log is the last action, or it was in the log before
  have hsplit : ∀ pre post, log ++ [action] = pre ++ .began :: post →
      (pre = log ∧ action = .began ∧ post = []) ∨
        ∃ before, post = before ++ [action] ∧ log = pre ++ .began :: before := by
    intro pre post hlog
    rcases List.eq_nil_or_concat post with rfl | ⟨before, last, rfl⟩
    · obtain ⟨hpre, hlast⟩ := List.append_inj' hlog rfl
      cases hlast
      exact Or.inl ⟨hpre.symm, rfl, rfl⟩
    · rw [List.concat_eq_append, ← List.cons_append, ← List.append_assoc] at hlog
      obtain ⟨hpre, hlast⟩ := List.append_inj' hlog rfl
      cases hlast
      exact Or.inr ⟨before, List.concat_eq_append, hpre⟩
  have hcancelled : ∀ timerId, .cancelled timerId ∈ log ++ [action] →
      timerId.sequence_ ≤ w.s_numCreated_ ∧ w.Doomed timerId := by
    intro timerId hin
    rcases List.mem_append.mp hin with hin | hlast
    · exact ⟨h.old timerId hin, h.doomed timerId hin⟩
    · rw [← List.mem_singleton.mp hlast] at haction
      exact haction
  refine ⟨fun timerId hin => (hcancelled timerId hin).1,
    fun timerId hin => (hcancelled timerId hin).2, ?_, ?_⟩
  · intro pre post timerId hlog hin
    rcases hsplit pre post hlog with ⟨rfl, rfl, _⟩ | ⟨before, _, hprefix⟩
    · exact (h.doomed timerId hin).gone haction
    · exact h.gone pre before timerId hprefix hin
  · intro pre post timerId hlog hin hcall
    rcases hsplit pre post hlog with ⟨_, _, rfl⟩ | ⟨before, rfl, hprefix⟩
    · exact absurd hcall List.not_mem_nil
    · rcases List.mem_append.mp hcall with hcall | hlast
      · exact h.honoured pre before timerId hprefix hin hcall
      · rw [← List.mem_singleton.mp hlast] at haction
        exact h.gone pre before timerId hprefix hin haction

/-- The cancel of a timer that does not wait. -/
theorem append_cancelled (h : Logged w log) (hinv : w.Inv) {timerId : TimerId}
    (hold : timerId.sequence_ ≤ w.s_numCreated_) (hinserted : ¬ w.Waiting timerId)
    (hstepped : TimerWorld.Stepped w (.cancelInLoop timerId) w') :
    Logged w' (log ++ [.cancelled timerId]) := by
  have hevolves := hstepped.evolves hinv
  apply (h.evolves hevolves).append
  exact ⟨hold.trans hevolves.numCreated, hinv.doomed_of_cancel hinserted hstepped⟩

end Logged

/-! ### Runs -/

namespace TimerThreads

/-- Once a timer was added and its cancel executed, no batch that begins later calls it. -/
def CancelsHonoured (s : TimerThreads) : Prop :=
  ∀ pre post timerId, s.log = pre ++ .began :: post → .added timerId ∈ pre →
    .cancelled timerId ∈ pre → .called timerId ∉ post

/-- A cancel on the loop's thread does not come while the `addTimerInLoop` of its timer is
    still queued. -/
def CancelsInserted (s : TimerThreads) : ThreadEvent → Prop
  | .cancel true timerId =>
    .addTimerInLoop timerId.timer_ ∈ s.queued →
      s.timers.queue.sequenceAt timerId.timer_ ≠ timerId.sequence_
  | _ => True

structure Inv (s : TimerThreads) : Prop where
  timers : s.timers.Inv
  ordered : Ordered s.timers s.creating (s.returning ++ s.handedOut) s.queued
  logged : Logged s.timers s.log

theorem start_inv : start.Inv := by
  refine ⟨TimerWorld.start_inv, ⟨List.Perm.refl _, ?_, ?_, List.Pairwise.nil⟩, ⟨?_, ?_, ?_, ?_⟩⟩
  · rintro timerId (hin | hin | hin)
    · cases hin
    · cases hin
    · cases hin
  · rintro timerId (hin | hin)
    · cases hin
    · cases hin
  · intro timerId hin
    cases hin
  · intro timerId hin
    cases hin
  · intro pre post timerId hlog
    simp [start] at hlog
  · intro pre post timerId hlog
    simp [start] at hlog

/-- A call into the queue returns what one of its steps leads to. -/
theorem onQueue_eq_ok {s s' : TimerThreads} {event : TimerEvent} (h : s.timers.Inv)
    (hlegal : s.timers.legal event = true) (hok : s.onQueue event = .ok s') :
    ∃ w, TimerWorld.Stepped s.timers event w ∧
      s' = { s with timers := w, log := s.log ++ s.shown event } := by
  rcases h.performs hlegal with ⟨w, hperform, hstepped⟩
  rw [TimerThreads.onQueue, hperform] at hok
  cases hok
  exact ⟨w, hstepped, rfl⟩

/-- What a nameable id is. -/
theorem Inv.of_nameable {s : TimerThreads} (h : s.Inv) {timerId : TimerId}
    (hname : s.nameable timerId = true) : timerId.sequence_ ≤ s.timers.s_numCreated_ ∧
      (timerId ∈ s.handedOut ∨ ¬ s.timers.Waiting timerId) := by
  simp only [nameable, Bool.or_eq_true, Bool.and_eq_true, decide_eq_true_eq] at hname
  rcases hname with hhanded | ⟨hissued, hold⟩
  · have hnamed : timerId ∈ s.returning ++ s.handedOut := List.mem_append_right _ hhanded
    exact ⟨h.ordered.old timerId (Or.inr (Or.inl hnamed)), Or.inl hhanded⟩
  · refine ⟨hold, Or.inr ?_⟩
    rintro ⟨⟨t, ht, hsequence⟩, _⟩
    have hin := (h.timers.numbered _ t ht).2
    rw [hsequence] at hin
    exact hissued hin

/-- `addTimer` on the loop's thread. -/
theorem Inv.addTimer {s : TimerThreads} (h : s.Inv) {timer : TimerPtr} {when_ : Timestamp}
    {interval : Interval} {w w' : TimerWorld}
    (hnew : TimerWorld.Stepped s.timers (.newTimer timer when_ interval) w)
    (hadd : TimerWorld.Stepped w (.addTimerInLoop timer) w') (added : TimerId) :
    Inv { s with
      timers := w'
      handedOut := ⟨timer, s.timers.s_numCreated_ + 1⟩ :: s.handedOut
      log := s.log ++ [.added added] } := by
  rcases hnew.newTimer_facts with ⟨hfree, hcreated, hnumber⟩
  rcases hadd.addTimerInLoop_facts with ⟨hcreated', hnumber'⟩
  rw [hcreated, List.erase_cons_head] at hcreated'
  have hinv := h.timers.stepped hnew
  have hevolves := (hnew.evolves h.timers).trans (hadd.evolves hinv)
  refine ⟨hinv.stepped hadd, ?_, Logged.evolves (h.logged.append trivial) hevolves⟩
  have hfresh : timer ∉ s.timers.created := by
    intro hin
    rcases h.timers.created timer hin with ⟨t, ht, _⟩
    rw [hfree] at ht
    cases ht
  have hordered := h.ordered.addTimer hevolves hcreated' ⟨timer, s.timers.s_numCreated_ + 1⟩
    hfresh (le_of_eq (hnumber'.trans hnumber).symm)
  apply hordered.subset
  intro timerId hin
  simp only [List.mem_append, List.mem_cons] at hin ⊢
  tauto

/-- `new Timer` on another thread. -/
theorem Inv.newTimer {s : TimerThreads} (h : s.Inv) {timer : TimerPtr} {when_ : Timestamp}
    {interval : Interval} {w : TimerWorld}
    (hnew : TimerWorld.Stepped s.timers (.newTimer timer when_ interval) w) :
    Inv { s with
      timers := w
      creating := ⟨timer, s.timers.s_numCreated_ + 1⟩ :: s.creating
      log := s.log ++ [] } := by
  rcases hnew.newTimer_facts with ⟨_, hcreated, hnumber⟩
  have hevolves := hnew.evolves h.timers
  rw [List.append_nil]
  exact ⟨h.timers.stepped hnew, h.ordered.newTimer hevolves hcreated (le_of_eq hnumber.symm),
    h.logged.evolves hevolves⟩

/-- A step of the queue that neither adds nor creates a timer. -/
theorem Inv.quiet {s : TimerThreads} (h : s.Inv) {event : TimerEvent} {w : TimerWorld}
    (hstepped : TimerWorld.Stepped s.timers event w) (hquiet : TimerWorld.Quiet event)
    {log : List TimerAction} (hlog : Logged w log) : Inv { s with timers := w, log := log } :=
  ⟨h.timers.stepped hstepped,
    h.ordered.evolves (hstepped.evolves h.timers) (hstepped.created_eq hquiet), hlog⟩

theorem legal_of_timers {s : TimerThreads} {event : TimerEvent}
    (h : s.legal (.timers event) = true) : s.timers.legal event = true := by
  cases event with
  | newTimer timer when_ interval => cases h
  | addTimerInLoop timer => cases h
  | cancelInLoop timerId => cases h
  | handleRead now =>
    simp only [legal, Bool.and_eq_true] at h
    exact h.2
  | _ => exact h

/-- `handleRead` and what happens beside the queue. -/
theorem Inv.timersStep {s s' : TimerThreads} {event : TimerEvent} (h : s.Inv)
    (hlegal : s.legal (.timers event) = true) (hok : s.onQueue event = .ok s') : s'.Inv := by
  obtain ⟨w, hw, rfl⟩ := onQueue_eq_ok h.timers (legal_of_timers hlegal) hok
  have hquiet : Logged s.timers (s.log ++ []) := by
    rw [List.append_nil]
    exact h.logged
  cases event with
  | newTimer timer when_ interval => cases hlegal
  | addTimerInLoop timer => cases hlegal
  | cancelInLoop timerId => cases hlegal
  | handleRead now =>
    have hbatch : s.timers.batch = none := of_decide_eq_true (legal_of_timers hlegal)
    exact h.quiet hw trivial (Logged.evolves (h.logged.append hbatch) (hw.evolves h.timers))
  | run =>
    refine h.quiet hw trivial (Logged.evolves ?_ (hw.evolves h.timers))
    cases hw with
    | @run now expired rest it hbatch =>
      have hin : it ∈ s.timers.expired := by
        rw [TimerWorld.expired_batch hbatch]
        exact (h.timers.rest _ hbatch).subset (List.mem_cons_self ..)
      rcases h.timers.consistent.taken it hin with ⟨t, ht, _⟩
      simp only [shown, hbatch]
      exact h.logged.append ⟨t, ht, (TimerQueue.sequenceAt_eq ht).symm⟩
  | newElsewhere => exact h.quiet hw trivial (hquiet.evolves (hw.evolves h.timers))
  | timerfdExpires => exact h.quiet hw trivial (hquiet.evolves (hw.evolves h.timers))
  | reset => exact h.quiet hw trivial (hquiet.evolves (hw.evolves h.timers))

/-- A cancel on the loop's thread that comes after the `addTimerInLoop` of its timer. -/
theorem Inv.cancelHere {s s' : TimerThreads} {timerId : TimerId} (h : s.Inv)
    (huser : s.timers.inUserCode = true) (hname : s.nameable timerId = true)
    (hgood : s.CancelsInserted (.cancel true timerId))
    (hok : s.onQueue (.cancelInLoop timerId) = .ok s') : s'.Inv := by
  rcases h.of_nameable hname with ⟨hold, hnamed⟩
  have hinserted : ¬ s.timers.Waiting timerId := by
    intro hwaiting
    have ⟨⟨t, ht, hsequence⟩, _⟩ := hwaiting
    have hhanded := hnamed.resolve_right (not_not_intro hwaiting)
    refine hgood (h.ordered.added timerId (Or.inl (List.mem_append_right _ hhanded)) hwaiting) ?_
    rw [TimerQueue.sequenceAt_eq ht, hsequence]
  have hlegal : s.timers.legal (.cancelInLoop timerId) = true := huser
  obtain ⟨w, hw, rfl⟩ := onQueue_eq_ok h.timers hlegal hok
  exact h.quiet hw trivial (h.logged.append_cancelled h.timers hold hinserted hw)

/-- The functors run in the order in which they were queued. -/
theorem Inv.runFunctor {s s' : TimerThreads} {functor : TimerFunctor} {rest : List TimerFunctor}
    (h : s.Inv) (hbatch : s.timers.batch = none) (hfunctors : s.functors = functor :: rest)
    (hok : ({ s with functors := rest } : TimerThreads).call functor = .ok s') : s'.Inv := by
  have huser : s.timers.inUserCode = true := by
    rw [TimerWorld.inUserCode, hbatch]
  have hordered := h.ordered
  rw [queued, hfunctors, List.cons_append] at hordered
  cases functor with
  | addTimerInLoop timer =>
    have hcreated : timer ∈ s.timers.created := by
      apply h.ordered.waiting.subset
      simp [queued, hfunctors, TimerFunctor.adding]
    have hlegal : s.timers.legal (.addTimerInLoop timer) = true := by
      simp only [TimerWorld.legal, huser, hcreated, decide_true, Bool.and_self]
    obtain ⟨w, hw, rfl⟩ := onQueue_eq_ok (s := { s with functors := rest }) h.timers hlegal hok
    have hevolves := hw.evolves h.timers
    exact ⟨h.timers.stepped hw,
      hordered.runAdd h.timers.distinct hevolves hw.addTimerInLoop_facts.1,
      Logged.evolves (h.logged.append trivial) hevolves⟩
  | cancelInLoop timerId =>
    rcases hordered.runCancel with ⟨hrest, hinserted⟩
    have hold := hordered.old timerId (Or.inr (Or.inr (List.mem_cons_self ..)))
    have hlegal : s.timers.legal (.cancelInLoop timerId) = true := huser
    obtain ⟨w, hw, rfl⟩ := onQueue_eq_ok (s := { s with functors := rest }) h.timers hlegal hok
    exact ⟨h.timers.stepped hw, hrest.evolves (hw.evolves h.timers) (hw.created_eq trivial),
      h.logged.append_cancelled h.timers hold hinserted hw⟩

theorem Inv.step {s s' : TimerThreads} {e : ThreadEvent} (h : s.Inv) (hgood : s.CancelsInserted e)
    (hstep : TimerThreads.step s e = some s') : s'.Inv := by
  simp only [TimerThreads.step] at hstep
  split at hstep
  · rename_i hlegal
    rw [returned_eq_some] at hstep
    cases e with
    | addTimer timer when_ interval =>
      simp only [legal, Bool.and_eq_true] at hlegal
      obtain ⟨s₁, hnew, hstep⟩ := bind_eq_ok.mp hstep
      obtain ⟨s₂, hadd, hstep⟩ := bind_eq_ok.mp hstep
      obtain ⟨w, hw, rfl⟩ := onQueue_eq_ok h.timers hlegal.2 hnew
      obtain ⟨w', hw', rfl⟩ := onQueue_eq_ok (h.timers.stepped hw) (hw.addTimer_legal hlegal.1) hadd
      cases hstep
      have hinv := h.addTimer hw hw' ⟨timer, w.queue.sequenceAt timer⟩
      rw [← List.append_nil s.log] at hinv
      exact hinv
    | newTimer timer when_ interval =>
      have hlegal' : s.timers.legal (.newTimer timer when_ interval) = true := hlegal
      obtain ⟨s₁, hnew, hstep⟩ := bind_eq_ok.mp hstep
      obtain ⟨w, hw, rfl⟩ := onQueue_eq_ok h.timers hlegal' hnew
      cases hstep
      exact h.newTimer hw
    | queueAdd timerId =>
      cases hstep
      have hordered := h.ordered.queueAdd h.timers.distinct (of_decide_eq_true hlegal)
      refine ⟨h.timers, ?_, h.logged⟩
      rw [queued, List.append_assoc] at hordered
      exact hordered
    | returnAdd timerId =>
      obtain ⟨t, ht, hstep⟩ := bind_eq_ok.mp hstep
      split at hstep
      · cases hstep
        refine ⟨h.timers, h.ordered.subset ?_, h.logged⟩
        intro other hin
        rcases List.mem_append.mp hin with hreturning | hhanded
        · exact List.mem_append_left _ (List.mem_of_mem_erase hreturning)
        · rcases List.mem_cons.mp hhanded with rfl | hhanded
          · exact List.mem_append_left _ (of_decide_eq_true hlegal)
          · exact List.mem_append_right _ hhanded
      · cases hstep
    | cancel inLoopThread timerId =>
      simp only [legal, Bool.and_eq_true] at hlegal
      cases inLoopThread with
      | true => exact h.cancelHere hlegal.2 hlegal.1 hgood hstep
      | false =>
        rcases h.of_nameable hlegal.1 with ⟨hold, hnamed⟩
        cases hstep
        refine ⟨h.timers, ?_, h.logged⟩
        have hordered := h.ordered.queueCancel hold (hnamed.imp_left (List.mem_append_right _))
        rw [queued, List.append_assoc] at hordered
        exact hordered
    | doPendingFunctors =>
      simp only [legal, Bool.and_eq_true, decide_eq_true_eq] at hlegal
      cases hstep
      refine ⟨h.timers, ?_, h.logged⟩
      have hordered := h.ordered
      simp only [queued, hlegal.1, List.nil_append] at hordered
      simpa only [queued, List.append_nil] using hordered
    | runFunctor =>
      simp only [legal, Bool.and_eq_true, decide_eq_true_eq] at hlegal
      simp only [perform] at hstep
      split at hstep
      · rename_i functor rest hfunctors
        exact h.runFunctor hlegal.2 hfunctors hstep
      · rename_i hfunctors
        exact absurd hfunctors hlegal.1
    | timers event => exact h.timersStep hlegal hstep
  · cases hstep

theorem Inv.cancelsHonoured {s : TimerThreads} (h : s.Inv) : s.CancelsHonoured := by
  intro pre post timerId hlog _ hcancelled
  exact h.logged.honoured pre post timerId hlog hcancelled

/-- What goes wrong otherwise: outside a batch, a cancel that comes before the
    `addTimerInLoop` of its timer changes nothing. -/
theorem Inv.cancel_forgotten {s s' : TimerThreads} {timerId : TimerId} (h : s.Inv)
    (hbad : ¬ s.CancelsInserted (.cancel true timerId)) (hbatch : s.timers.batch = none)
    (hstep : TimerThreads.step s (.cancel true timerId) = some s') : s'.timers = s.timers := by
  have hqueued : .addTimerInLoop timerId.timer_ ∈ s.queued ∧
      s.timers.queue.sequenceAt timerId.timer_ = timerId.sequence_ := by
    simpa only [CancelsInserted, ne_eq, Classical.not_imp, not_not] using hbad
  have hcreated : timerId.timer_ ∈ s.timers.created := by
    apply h.ordered.waiting.subset
    exact List.mem_append_right _ (List.mem_filterMap.mpr ⟨_, hqueued.1, rfl⟩)
  rcases h.timers.created _ hcreated with ⟨t, ht, hinactive, _⟩
  have hsequence : t.sequence_ = timerId.sequence_ := by
    rw [← TimerQueue.sequenceAt_eq ht, hqueued.2]
  rw [hsequence] at hinactive
  have hnoted : s.timers.queue.noted timerId = s.timers.queue := by
    simp only [TimerQueue.noted, h.timers.calling, hbatch, Option.isSome_none, Bool.false_eq_true,
      if_false]
  simp only [TimerThreads.step] at hstep
  split at hstep
  · rw [returned_eq_some] at hstep
    obtain ⟨w, hw, hok⟩ := bind_eq_ok.mp hstep
    cases hok
    simp only [TimerWorld.perform, TimerQueue.cancelInLoop_inactive hinactive, hnoted] at hw
    cases hw
    rfl
  · cases hstep

end TimerThreads

/-- **Cancels across threads.**  In every run in which no cancel on the loop's thread comes
    while the `addTimerInLoop` of its timer is queued, a timer that was added and whose
    cancel was executed is called by no `handleRead` that starts later. -/
theorem cancels_honoured_across_threads (es : List ThreadEvent)
    (hgood : Along TimerThreads.step TimerThreads.CancelsInserted TimerThreads.start es) :
    Always TimerThreads.step TimerThreads.CancelsHonoured TimerThreads.start es := by
  have hinv : Always TimerThreads.step TimerThreads.Inv TimerThreads.start es :=
    always_of_along (fun _ _ _ h hgood hstep => h.step hgood hstep) TimerThreads.start_inv hgood
  exact hinv.mono fun _ h => h.cancelsHonoured

/-- A timer of another thread is inserted and then cancelled on the loop's thread. -/
theorem cancels_honoured_across_threads_after_insertion :
    Always TimerThreads.step TimerThreads.CancelsHonoured TimerThreads.start
      [.newTimer 4096 100 ⟨false, 0⟩, .queueAdd ⟨4096, 1⟩, .returnAdd ⟨4096, 1⟩,
        .doPendingFunctors, .runFunctor, .cancel true ⟨4096, 1⟩, .timers .timerfdExpires,
        .timers (.handleRead 200), .timers .reset] := by
  apply cancels_honoured_across_threads
  refine along_cons.mpr ⟨trivial, fun s hs => ?_⟩
  cases hs
  refine along_cons.mpr ⟨trivial, fun s hs => ?_⟩
  cases hs
  refine along_cons.mpr ⟨trivial, fun s hs => ?_⟩
  cases hs
  refine along_cons.mpr ⟨trivial, fun s hs => ?_⟩
  cases hs
  refine along_cons.mpr ⟨trivial, fun s hs => ?_⟩
  cases hs
  refine along_cons.mpr ⟨?_, fun s hs => ?_⟩
  · intro hqueued
    cases hqueued
  cases hs
  refine along_cons.mpr ⟨trivial, fun s hs => ?_⟩
  cases hs
  refine along_cons.mpr ⟨trivial, fun s hs => ?_⟩
  cases hs
  exact along_cons.mpr ⟨trivial, fun s hs => along_nil⟩

/-- Another thread adds a timer and its id is cancelled on the loop's thread before the
    functor runs: the timer is inserted all the same and fires. -/
theorem cancel_lost_before_insertion :
    ∃ s, Run TimerThreads.step TimerThreads.start
      [.newTimer 4096 100 ⟨false, 0⟩, .queueAdd ⟨4096, 1⟩, .returnAdd ⟨4096, 1⟩,
        .cancel true ⟨4096, 1⟩, .doPendingFunctors, .runFunctor, .timers .timerfdExpires,
        .timers (.handleRead 200), .timers .run] s ∧ ¬ s.CancelsHonoured := by
  refine ⟨_, rfl, ?_⟩
  intro hhonoured
  exact hhonoured [.cancelled ⟨4096, 1⟩, .added ⟨4096, 1⟩] [.called ⟨4096, 1⟩] ⟨4096, 1⟩ rfl
    (by decide) (by decide) (by decide)

end Muduo
