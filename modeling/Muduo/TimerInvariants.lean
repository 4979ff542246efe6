import Muduo.TimerQueue
import Muduo.Transitions

/-!
# What a timer queue keeps

`Consistent` ties the two sets to each other and to the `Timer` objects: an entry of one
set determines its entry of the other, and a timer that was taken out for a batch is in
neither.  Each operation is described by one lemma, which says that it runs into no fault
and what its result is; every result about runs rests on these lemmas and on nothing else
about the operations.
-/

namespace Muduo

open Transitions

namespace TimerQueue

/-- The sets agree with each other and with the heap; `batch` has the entries that were
    taken out and not put back yet. -/
structure Consistent (q : TimerQueue) (batch : List Entry) : Prop where
  timers : ∀ e ∈ q.timers_, ∃ t, q.heap e.second = some t ∧ t.expiration_ = e.first ∧
    ⟨e.second, t.sequence_⟩ ∈ q.activeTimers_
  active : ∀ x ∈ q.activeTimers_, ∃ t, q.heap x.timer = some t ∧ t.sequence_ = x.sequence ∧
    ⟨t.expiration_, x.timer⟩ ∈ q.timers_
  taken : ∀ e ∈ batch, ∃ t, q.heap e.second = some t ∧ t.expiration_ = e.first ∧
    ⟨e.second, t.sequence_⟩ ∉ q.activeTimers_
  distinct : (batch.map Entry.second).Nodup

/-- Two entries of one timer are the same entry. -/
theorem Consistent.entry_unique {q : TimerQueue} {batch : List Entry} (h : q.Consistent batch)
    {e f : Entry} (he : e ∈ q.timers_) (hf : f ∈ q.timers_) (hsame : e.second = f.second) :
    e = f := by
  rcases h.timers e he with ⟨t, ht, hfirst, _⟩
  rcases h.timers f hf with ⟨u, hu, hfirst', _⟩
  rw [hsame, hu] at ht
  cases ht
  cases e
  cases f
  simp only at hfirst hfirst' hsame
  rw [← hfirst, ← hfirst', hsame]

/-- Nothing but the two sets and the heap matters. -/
theorem Consistent.of_eq {q q' : TimerQueue} {batch : List Entry} (h : q.Consistent batch)
    (htimers : q'.timers_ = q.timers_) (hactive : q'.activeTimers_ = q.activeTimers_)
    (hheap : q'.heap = q.heap) : q'.Consistent batch := by
  rcases h with ⟨h₁, h₂, h₃, h₄⟩
  rw [← htimers, ← hactive, ← hheap] at h₁
  rw [← htimers, ← hactive, ← hheap] at h₂
  rw [← hactive, ← hheap] at h₃
  exact ⟨h₁, h₂, h₃, h₄⟩

/-- A timer is active exactly when its entry is in `timers_`. -/
theorem Consistent.entry_iff {q : TimerQueue} {batch : List Entry} (h : q.Consistent batch)
    {timer : TimerPtr} {t : Timer} (ht : q.heap timer = some t) :
    ⟨t.expiration_, timer⟩ ∈ q.timers_ ↔ ⟨timer, t.sequence_⟩ ∈ q.activeTimers_ := by
  constructor
  · intro hentry
    rcases h.timers _ hentry with ⟨u, hu, _, hactive⟩
    rw [ht] at hu
    cases hu
    exact hactive
  · intro hactive
    rcases h.active _ hactive with ⟨u, hu, _, hentry⟩
    rw [ht] at hu
    cases hu
    exact hentry

theorem deref_eq_ok {q : TimerQueue} {timer : TimerPtr} {t : Timer} (h : q.heap timer = some t) :
    q.deref timer = .ok t := by
  rw [deref, h]

/-- The queue without an object. -/
def dropped (q : TimerQueue) (timer : TimerPtr) (t : Timer) : TimerQueue :=
  { q with
    heap := Function.update q.heap timer none
    deleted := q.deleted ++ [⟨timer, t.sequence_⟩] }

theorem delete_eq_ok {q : TimerQueue} {timer : TimerPtr} {t : Timer} (h : q.heap timer = some t) :
    q.delete timer = .ok (q.dropped timer t) := by
  simp only [delete, deref_eq_ok h, bind, Except.bind, dropped]

/-- `timer->sequence()`, or 0 for a timer that does not exist. -/
def sequenceAt (q : TimerQueue) (timer : TimerPtr) : Nat :=
  match q.heap timer with
  | some t => t.sequence_
  | none => 0

theorem sequenceAt_eq {q : TimerQueue} {timer : TimerPtr} {t : Timer} (ht : q.heap timer = some t) :
    q.sequenceAt timer = t.sequence_ := by
  simp only [sequenceAt, ht]

/-! ### Insertion -/

/-- The queue with a timer in both sets. -/
def inserted (q : TimerQueue) (timer : TimerPtr) (t : Timer) : TimerQueue :=
  { q with
    timers_ := q.timers_.insert ⟨t.expiration_, timer⟩
    activeTimers_ := q.activeTimers_.insert ⟨timer, t.sequence_⟩ }

/-- Whether an expiration comes before all those in the queue. -/
def isEarliest (q : TimerQueue) (expiration : Timestamp) : Bool :=
  match q.timers_.first? with
  | none => true
  | some it => decide (expiration < it.first)

theorem insert_eq {q : TimerQueue} {timer : TimerPtr} {t : Timer} (ht : q.heap timer = some t)
    (hnew : ⟨t.expiration_, timer⟩ ∉ q.timers_) :
    q.insert timer = .ok (q.isEarliest t.expiration_, q.inserted timer t) := by
  rw [insert, deref_eq_ok ht]
  exact if_neg hnew

theorem inserted_consistent {q : TimerQueue} {batch : List Entry} {timer : TimerPtr} {t : Timer}
    (h : q.Consistent batch) (ht : q.heap timer = some t) (hout : timer ∉ batch.map Entry.second) :
    (q.inserted timer t).Consistent batch := by
  refine ⟨?_, ?_, ?_, h.distinct⟩
  · intro e he
    rcases OrdSet.mem_insert.mp he with rfl | hold
    · exact ⟨t, ht, rfl, OrdSet.mem_insert.mpr (Or.inl rfl)⟩
    · rcases h.timers e hold with ⟨u, hu, hfirst, hactive⟩
      exact ⟨u, hu, hfirst, OrdSet.mem_insert.mpr (Or.inr hactive)⟩
  · intro x hx
    rcases OrdSet.mem_insert.mp hx with rfl | hold
    · exact ⟨t, ht, rfl, OrdSet.mem_insert.mpr (Or.inl rfl)⟩
    · rcases h.active x hold with ⟨u, hu, hsequence, hentry⟩
      exact ⟨u, hu, hsequence, OrdSet.mem_insert.mpr (Or.inr hentry)⟩
  · intro e he
    rcases h.taken e he with ⟨u, hu, hfirst, hactive⟩
    refine ⟨u, hu, hfirst, ?_⟩
    intro hmem
    rcases OrdSet.mem_insert.mp hmem with heq | hold
    · apply hout
      rw [← show e.second = timer from congrArg ActiveTimer.timer heq]
      exact List.mem_map_of_mem he
    · exact hactive hold

/-- The descriptor after `addTimerInLoop`. -/
def fdAfterAdd (q : TimerQueue) (timer : TimerPtr) (t : Timer) : TimerFd :=
  match q.isEarliest t.expiration_, (q.inserted timer t).timers_.first? with
  | true, some it => .armed it.first
  | _, _ => q.timerfd_

theorem addTimerInLoop_eq {q : TimerQueue} {timer : TimerPtr} {t : Timer}
    (ht : q.heap timer = some t) (hnew : ⟨t.expiration_, timer⟩ ∉ q.timers_) :
    q.addTimerInLoop timer
      = .ok { q.inserted timer t with timerfd_ := q.fdAfterAdd timer t } := by
  rw [addTimerInLoop, insert_eq ht hnew]
  simp only [fdAfterAdd, bind, Except.bind]
  cases q.isEarliest t.expiration_ with
  | false => rfl
  | true =>
    cases (q.inserted timer t).timers_.first? with
    | none => rfl
    | some it => rfl

/-! ### Cancelling -/

/-- The queue without an active timer and its object. -/
def removed (q : TimerQueue) (timer : TimerPtr) (t : Timer) : TimerQueue :=
  { q with
    timers_ := q.timers_.erase ⟨t.expiration_, timer⟩
    activeTimers_ := q.activeTimers_.erase ⟨timer, t.sequence_⟩
    heap := Function.update q.heap timer none
    deleted := q.deleted ++ [⟨timer, t.sequence_⟩] }

theorem cancelInLoop_active {q : TimerQueue} {batch : List Entry} {timerId : TimerId} {t : Timer}
    (h : q.Consistent batch) (ht : q.heap timerId.timer_ = some t)
    (hsequence : t.sequence_ = timerId.sequence_)
    (hactive : ⟨timerId.timer_, timerId.sequence_⟩ ∈ q.activeTimers_) :
    q.cancelInLoop timerId = .ok (q.removed timerId.timer_ t) := by
  have hentry : ⟨t.expiration_, timerId.timer_⟩ ∈ q.timers_ := by
    rw [h.entry_iff ht, hsequence]
    exact hactive
  have hdelete : ({ q with timers_ := q.timers_.erase ⟨t.expiration_, timerId.timer_⟩ } :
      TimerQueue).delete timerId.timer_ = .ok _ := delete_eq_ok ht
  simp only [cancelInLoop, if_pos hactive, deref_eq_ok ht, bind, Except.bind, if_pos hentry,
    hdelete]
  rw [removed, hsequence]
  simp only [dropped, hsequence]

/-- The queue after a cancel that found no active timer: a batch in execution notes it. -/
def noted (q : TimerQueue) (timerId : TimerId) : TimerQueue :=
  let timer : ActiveTimer := ⟨timerId.timer_, timerId.sequence_⟩
  if q.callingExpiredTimers_ then
    { q with cancelingTimers_ := q.cancelingTimers_.insert timer }
  else
    q

theorem cancelInLoop_inactive {q : TimerQueue} {timerId : TimerId}
    (hactive : ⟨timerId.timer_, timerId.sequence_⟩ ∉ q.activeTimers_) :
    q.cancelInLoop timerId = .ok (q.noted timerId) := by
  simp only [cancelInLoop, if_neg hactive, noted]
  split <;> rfl

/-- A cancel deletes its own timer and touches no other object. -/
theorem removed_heap_self (q : TimerQueue) (timer : TimerPtr) (t : Timer) :
    (q.removed timer t).heap timer = none :=
  Function.update_self ..

theorem removed_heap_origin {q : TimerQueue} {timer other : TimerPtr} {t u : Timer}
    (hu : (q.removed timer t).heap other = some u) : other ≠ timer ∧ q.heap other = some u := by
  have hother : other ≠ timer := by
    rintro rfl
    rw [removed_heap_self] at hu
    cases hu
  exact ⟨hother, (Function.update_of_ne hother ..).symm.trans hu⟩

theorem noted_eq (q : TimerQueue) (timerId : TimerId) :
    ∃ canceling, q.noted timerId = { q with cancelingTimers_ := canceling } := by
  simp only [noted]
  split
  · exact ⟨_, rfl⟩
  · exact ⟨q.cancelingTimers_, rfl⟩

/-- What noting a cancel leaves alone, and that it forgets no other. -/
theorem noted_heap (q : TimerQueue) (timerId : TimerId) : (q.noted timerId).heap = q.heap := by
  obtain ⟨canceling, hnoted⟩ := q.noted_eq timerId
  rw [hnoted]

theorem noted_deleted (q : TimerQueue) (timerId : TimerId) :
    (q.noted timerId).deleted = q.deleted := by
  obtain ⟨canceling, hnoted⟩ := q.noted_eq timerId
  rw [hnoted]

theorem noted_activeTimers (q : TimerQueue) (timerId : TimerId) :
    (q.noted timerId).activeTimers_ = q.activeTimers_ := by
  obtain ⟨canceling, hnoted⟩ := q.noted_eq timerId
  rw [hnoted]

theorem mem_noted_canceling {q : TimerQueue} {timerId : TimerId} {x : ActiveTimer}
    (hother : x ≠ ⟨timerId.timer_, timerId.sequence_⟩) :
    x ∈ (q.noted timerId).cancelingTimers_ ↔ x ∈ q.cancelingTimers_ := by
  simp only [noted]
  split
  · exact OrdSet.mem_insert.trans (or_iff_right hother)
  · exact Iff.rfl

theorem noted_canceling_of_mem {q : TimerQueue} {timerId : TimerId} {x : ActiveTimer}
    (hx : x ∈ q.cancelingTimers_) : x ∈ (q.noted timerId).cancelingTimers_ := by
  simp only [noted]
  split
  · exact OrdSet.mem_insert.mpr (Or.inr hx)
  · exact hx

theorem removed_consistent {q : TimerQueue} {batch : List Entry} {timer : TimerPtr} {t : Timer}
    (h : q.Consistent batch) (ht : q.heap timer = some t)
    (hactive : ⟨timer, t.sequence_⟩ ∈ q.activeTimers_) : (q.removed timer t).Consistent batch := by
  have hentry := (h.entry_iff ht).mpr hactive
  refine ⟨?_, ?_, ?_, h.distinct⟩
  · intro e he
    obtain ⟨hne, hold⟩ := OrdSet.mem_erase.mp he
    have hother : e.second ≠ timer := fun hsame => hne (h.entry_unique hold hentry hsame)
    rcases h.timers e hold with ⟨u, hu, hfirst, hin⟩
    refine ⟨u, (Function.update_of_ne hother ..).trans hu, hfirst, OrdSet.mem_erase.mpr ⟨?_, hin⟩⟩
    intro heq
    exact hother (congrArg ActiveTimer.timer heq)
  · intro x hx
    obtain ⟨hne, hold⟩ := OrdSet.mem_erase.mp hx
    rcases h.active x hold with ⟨u, hu, hsequence, hin⟩
    have hother : x.timer ≠ timer := by
      intro hsame
      apply hne
      rw [hsame, ht] at hu
      cases hu
      cases x
      simp only at hsame hsequence
      rw [hsame, hsequence]
    refine ⟨u, (Function.update_of_ne hother ..).trans hu, hsequence,
      OrdSet.mem_erase.mpr ⟨?_, hin⟩⟩
    intro heq
    exact hother (congrArg Entry.second heq)
  · intro e he
    rcases h.taken e he with ⟨u, hu, hfirst, hout⟩
    have hother : e.second ≠ timer := by
      intro hsame
      rw [hsame, ht] at hu
      cases hu
      apply hout
      rw [hsame]
      exact hactive
    exact ⟨u, (Function.update_of_ne hother ..).trans hu, hfirst,
      fun hin => hout (OrdSet.mem_erase.mp hin).2⟩

/-! ### Taking out the expired timers -/

/-- The heap holds nothing at the two addresses that are no address. -/
def Addressed (q : TimerQueue) : Prop :=
  ∀ timer t, q.heap timer = some t → 0 < timer ∧ timer < UINTPTR_MAX

/-- The entries `getExpired` takes out. -/
def due (q : TimerQueue) (now : Timestamp) : List Entry := (q.timers_.below (sentry now)).toList

theorem lt_sentry_iff {e : Entry} {now : Timestamp} (h : e.second < UINTPTR_MAX) :
    e < sentry now ↔ e.first ≤ now := by
  rw [Entry.lt_iff]
  constructor
  · rintro (hlt | ⟨heq, _⟩)
    · exact le_of_lt hlt
    · exact le_of_eq heq
  · intro hle
    rcases lt_or_eq_of_le hle with hlt | heq
    · exact Or.inl hlt
    · exact Or.inr ⟨heq, h⟩

theorem Consistent.mem_due {q : TimerQueue} {batch : List Entry} (h : q.Consistent batch)
    (haddressed : q.Addressed) {now : Timestamp} {e : Entry} :
    e ∈ q.due now ↔ e ∈ q.timers_ ∧ e.first ≤ now := by
  rw [due, OrdSet.mem_toList, OrdSet.mem_below]
  constructor
  · rintro ⟨he, hlt⟩
    rcases h.timers e he with ⟨t, ht, _⟩
    exact ⟨he, (lt_sentry_iff (haddressed _ t ht).2).mp hlt⟩
  · rintro ⟨he, hle⟩
    rcases h.timers e he with ⟨t, ht, _⟩
    exact ⟨he, (lt_sentry_iff (haddressed _ t ht).2).mpr hle⟩

theorem Consistent.due_distinct {q : TimerQueue} {batch : List Entry} (h : q.Consistent batch)
    (now : Timestamp) : ((q.due now).map Entry.second).Nodup := by
  refine List.Nodup.map_on ?_ (OrdSet.nodup _)
  intro e he f hf hsame
  exact h.entry_unique (OrdSet.mem_below.mp he).1 (OrdSet.mem_below.mp hf).1 hsame

/-- The loop of `getExpired` erases the active timers of its entries and meets each. -/
theorem deactivate_fold {q : TimerQueue} {entries : List Entry}
    (hactive : ∀ e ∈ entries, ∃ t, q.heap e.second = some t ∧
      ⟨e.second, t.sequence_⟩ ∈ q.activeTimers_)
    (hdistinct : (entries.map Entry.second).Nodup) :
    ∃ active, entries.foldlM deactivate q = .ok { q with activeTimers_ := active } ∧
      ∀ x, x ∈ active ↔ x ∈ q.activeTimers_ ∧
        ∀ e ∈ entries, ∀ t, q.heap e.second = some t → x ≠ ⟨e.second, t.sequence_⟩ := by
  induction entries generalizing q with
  | nil =>
    refine ⟨q.activeTimers_, rfl, ?_⟩
    intro x
    simp
  | cons e entries ih =>
    rcases hactive e (List.mem_cons_self ..) with ⟨t, ht, hin⟩
    obtain ⟨hfresh, hrest⟩ := List.nodup_cons.mp hdistinct
    have hfirst : q.deactivate e
        = .ok { q with activeTimers_ := q.activeTimers_.erase ⟨e.second, t.sequence_⟩ } := by
      simp only [deactivate, deref_eq_ok ht, bind, Except.bind, if_pos hin]
    have hothers : ∀ f ∈ entries, ∃ u, q.heap f.second = some u ∧
        ⟨f.second, u.sequence_⟩ ∈ q.activeTimers_.erase ⟨e.second, t.sequence_⟩ := by
      intro f hf
      rcases hactive f (List.mem_cons_of_mem _ hf) with ⟨u, hu, hin'⟩
      refine ⟨u, hu, OrdSet.mem_erase.mpr ⟨?_, hin'⟩⟩
      intro heq
      apply hfresh
      rw [← show f.second = e.second from congrArg ActiveTimer.timer heq]
      exact List.mem_map_of_mem hf
    obtain ⟨active, hfold, hmem⟩ :=
      ih (q := { q with activeTimers_ := q.activeTimers_.erase ⟨e.second, t.sequence_⟩ })
        hothers hrest
    refine ⟨active, ?_, ?_⟩
    · rw [List.foldlM_cons, hfirst]
      exact hfold
    · intro x
      rw [hmem, OrdSet.mem_erase, List.forall_mem_cons]
      constructor
      · rintro ⟨⟨hne, hx⟩, hrest'⟩
        refine ⟨hx, ?_, hrest'⟩
        intro u hu
        rw [ht] at hu
        cases hu
        exact hne
      · rintro ⟨hx, hne, hrest'⟩
        exact ⟨⟨hne t ht, hx⟩, hrest'⟩

/-- What `handleRead` has done when it comes to the first callback. -/
structure Begun (q : TimerQueue) (now : Timestamp) (q' : TimerQueue) : Prop where
  consistent : q'.Consistent (q.due now)
  timers_iff : ∀ e, e ∈ q'.timers_ ↔ e ∈ q.timers_ ∧ now < e.first
  active_iff : ∀ x, x ∈ q'.activeTimers_ ↔
    x ∈ q.activeTimers_ ∧ ∃ t, q.heap x.timer = some t ∧ now < t.expiration_
  calling : q'.callingExpiredTimers_ = true
  canceling_eq : q'.cancelingTimers_ = OrdSet.empty
  timerfd_eq : q'.timerfd_ = q.readTimerfd.timerfd_
  heap_eq : q'.heap = q.heap
  deleted_eq : q'.deleted = q.deleted

theorem beginBatch_spec {q : TimerQueue} (h : q.Consistent []) (haddressed : q.Addressed)
    (now : Timestamp) : ∃ q', q.beginBatch now = .ok (q.due now, q') ∧ q.Begun now q' := by
  have hdue : ∀ e ∈ q.due now, ∃ t, q.heap e.second = some t ∧
      ⟨e.second, t.sequence_⟩ ∈ q.activeTimers_ := by
    intro e he
    rcases h.timers e (OrdSet.mem_below.mp he).1 with ⟨t, ht, _, hin⟩
    exact ⟨t, ht, hin⟩
  obtain ⟨active, hfold, hmem⟩ := deactivate_fold
    (q := { q.readTimerfd with timers_ := q.timers_.from_ (sentry now) }) hdue (h.due_distinct now)
  have htimers : ∀ e, e ∈ q.timers_.from_ (sentry now) ↔ e ∈ q.timers_ ∧ now < e.first := by
    intro e
    rw [OrdSet.mem_from_]
    constructor
    · rintro ⟨he, hlate⟩
      rcases h.timers e he with ⟨t, ht, _⟩
      rw [lt_sentry_iff (haddressed _ t ht).2] at hlate
      exact ⟨he, lt_of_not_ge hlate⟩
    · rintro ⟨he, hlate⟩
      rcases h.timers e he with ⟨t, ht, _⟩
      rw [lt_sentry_iff (haddressed _ t ht).2]
      exact ⟨he, not_le_of_gt hlate⟩
  have hactive : ∀ x, x ∈ active ↔
      x ∈ q.activeTimers_ ∧ ∃ t, q.heap x.timer = some t ∧ now < t.expiration_ := by
    intro x
    rw [hmem]
    constructor
    · rintro ⟨hx, hout⟩
      rcases h.active x hx with ⟨t, ht, hsequence, hentry⟩
      refine ⟨hx, t, ht, ?_⟩
      by_contra hearly
      have hin := (h.mem_due haddressed).mpr ⟨hentry, not_lt.mp hearly⟩
      apply hout _ hin t ht
      rw [hsequence]
    · rintro ⟨hx, t, ht, hlate⟩
      refine ⟨hx, ?_⟩
      intro e he u hu heq
      rcases (h.mem_due haddressed).mp he with ⟨hin, hearly⟩
      rcases h.timers e hin with ⟨v, hv, hfirst, _⟩
      rw [heq] at ht
      cases hv.symm.trans ht
      rw [hfirst] at hlate
      exact absurd hearly (not_le_of_gt hlate)
  refine ⟨{ q.readTimerfd with
    timers_ := q.timers_.from_ (sentry now)
    activeTimers_ := active
    callingExpiredTimers_ := true
    cancelingTimers_ := OrdSet.empty }, ?_, ⟨⟨?_, ?_, ?_, h.due_distinct now⟩, htimers, hactive,
    rfl, rfl, rfl, rfl, rfl⟩⟩
  · simp only [beginBatch, getExpired]
    exact bind_eq_ok.mpr ⟨_, bind_eq_ok.mpr ⟨_, hfold, rfl⟩, rfl⟩
  · intro e he
    rcases (htimers e).mp he with ⟨hin, hlate⟩
    rcases h.timers e hin with ⟨t, ht, hfirst, hactive'⟩
    refine ⟨t, ht, hfirst, (hactive _).mpr ⟨hactive', t, ht, ?_⟩⟩
    rw [hfirst]
    exact hlate
  · intro x hx
    rcases (hactive x).mp hx with ⟨hin, u, hu, hlate⟩
    rcases h.active x hin with ⟨t, ht, hsequence, hentry⟩
    rw [ht] at hu
    cases hu
    exact ⟨u, ht, hsequence, (htimers _).mpr ⟨hentry, hlate⟩⟩
  · intro e he
    rcases (h.mem_due haddressed).mp he with ⟨hin, hearly⟩
    rcases h.timers e hin with ⟨t, ht, hfirst, _⟩
    refine ⟨t, ht, hfirst, ?_⟩
    intro hactive'
    rcases (hactive _).mp hactive' with ⟨_, u, hu, hlate⟩
    cases hu.symm.trans ht
    rw [hfirst] at hlate
    exact absurd hearly (not_le_of_gt hlate)

/-! ### Putting the batch back -/

/-- A batch entry's object can be replaced or deleted: no set refers to it. -/
theorem Consistent.replace {q : TimerQueue} {e : Entry} {batch : List Entry}
    (h : q.Consistent (e :: batch)) (object : Option Timer) :
    ({ q with heap := Function.update q.heap e.second object } : TimerQueue).Consistent batch := by
  rcases h.taken e (List.mem_cons_self ..) with ⟨t, ht, _, hout⟩
  obtain ⟨hfresh, hdistinct⟩ := List.nodup_cons.mp h.distinct
  refine ⟨?_, ?_, ?_, hdistinct⟩
  · intro f hf
    rcases h.timers f hf with ⟨u, hu, hfirst, hactive⟩
    have hother : f.second ≠ e.second := by
      intro hsame
      rw [hsame, ht] at hu
      cases hu
      apply hout
      rw [← hsame]
      exact hactive
    exact ⟨u, (Function.update_of_ne hother ..).trans hu, hfirst, hactive⟩
  · intro x hx
    rcases h.active x hx with ⟨u, hu, hsequence, hentry⟩
    have hother : x.timer ≠ e.second := by
      intro hsame
      rw [hsame, ht] at hu
      cases hu
      apply hout
      rw [← hsame, hsequence]
      exact hx
    exact ⟨u, (Function.update_of_ne hother ..).trans hu, hsequence, hentry⟩
  · intro f hf
    rcases h.taken f (List.mem_cons_of_mem _ hf) with ⟨u, hu, hfirst, hout'⟩
    have hother : f.second ≠ e.second := by
      intro hsame
      apply hfresh
      rw [← hsame]
      exact List.mem_map_of_mem hf
    exact ⟨u, (Function.update_of_ne hother ..).trans hu, hfirst, hout'⟩

/-- Whether `reset` puts a timer of the batch back. -/
def renews (q : TimerQueue) (timer : TimerPtr) (t : Timer) : Prop :=
  t.repeat_ = true ∧ ⟨timer, t.sequence_⟩ ∉ q.cancelingTimers_

instance (q : TimerQueue) (timer : TimerPtr) (t : Timer) : Decidable (q.renews timer t) :=
  inferInstanceAs (Decidable (_ ∧ _))

/-- The queue after `reset` dealt with a batch entry, apart from the descriptor. -/
def renewed (q : TimerQueue) (now : Timestamp) (timer : TimerPtr) (t : Timer) : TimerQueue :=
  if q.renews timer t then
    (q.store timer (t.restart now)).inserted timer (t.restart now)
  else
    q.dropped timer t

@[simp] theorem restart_sequence (t : Timer) (now : Timestamp) :
    (t.restart now).sequence_ = t.sequence_ := by
  simp only [Timer.restart]
  split <;> rfl

theorem renew_eq {q : TimerQueue} {now : Timestamp} {e : Entry} {batch : List Entry} {t : Timer}
    (h : q.Consistent (e :: batch)) (ht : q.heap e.second = some t) :
    q.renew now e = .ok (q.renewed now e.second t) := by
  by_cases hrenews : q.renews e.second t
  · have hstored : (q.store e.second (t.restart now)).heap e.second = some (t.restart now) :=
      Function.update_self ..
    have hnew : ⟨(t.restart now).expiration_, e.second⟩ ∉
        (q.store e.second (t.restart now)).timers_ := by
      intro hin
      rcases h.timers _ hin with ⟨u, hu, _, hactive⟩
      cases hu.symm.trans ht
      rcases h.taken e (List.mem_cons_self ..) with ⟨v, hv, _, hout⟩
      cases hv.symm.trans ht
      exact hout hactive
    rw [renewed, if_pos hrenews, renew, deref_eq_ok ht]
    refine (if_pos hrenews).trans ?_
    rw [insert_eq hstored hnew]
    rfl
  · rw [renewed, if_neg hrenews, renew, deref_eq_ok ht]
    exact (if_neg hrenews).trans (delete_eq_ok ht)

theorem renewed_consistent {q : TimerQueue} {e : Entry} {batch : List Entry} (now : Timestamp)
    (t : Timer) (h : q.Consistent (e :: batch)) : (q.renewed now e.second t).Consistent batch := by
  simp only [renewed]
  split
  · refine inserted_consistent (h.replace _) (Function.update_self ..) ?_
    exact (List.nodup_cons.mp h.distinct).1
  · exact (h.replace none).of_eq rfl rfl rfl

/-- `nextExpire` after a round, read off the entries. -/
def nextOf (q : TimerQueue) (nextExpire : Timestamp) : Timestamp :=
  match q.timers_.first? with
  | some it => it.first
  | none => nextExpire

/-- The descriptor armed, when the expiration is valid. -/
def rearmed (q : TimerQueue) (nextExpire : Timestamp) : TimerQueue :=
  if valid nextExpire then q.resetTimerfd nextExpire else q

theorem rearmed_consistent {q : TimerQueue} {batch : List Entry} (nextExpire : Timestamp)
    (h : q.Consistent batch) : (q.rearmed nextExpire).Consistent batch := by
  simp only [rearmed]
  split
  · exact h.of_eq rfl rfl rfl
  · exact h

theorem nextExpiration_eq {q : TimerQueue} {batch : List Entry} (h : q.Consistent batch)
    (nextExpire : Timestamp) : q.nextExpiration nextExpire = .ok (q.nextOf nextExpire) := by
  simp only [nextExpiration, nextOf]
  cases hfirst : q.timers_.first? with
  | none => rfl
  | some it =>
    rcases h.timers it (OrdSet.first?_mem hfirst) with ⟨t, ht, hexpiration, _⟩
    simp only [deref_eq_ok ht, bind, Except.bind, hexpiration]

/-- One round of `reset`. -/
theorem resetItem_eq {q : TimerQueue} {now nextExpire : Timestamp} {e : Entry}
    {batch : List Entry} {t : Timer} (h : q.Consistent (e :: batch))
    (ht : q.heap e.second = some t) :
    resetItem now (nextExpire, q) e =
      .ok ((q.renewed now e.second t).nextOf nextExpire,
        (q.renewed now e.second t).rearmed ((q.renewed now e.second t).nextOf nextExpire)) := by
  simp only [resetItem, renew_eq h ht, bind, Except.bind,
    nextExpiration_eq (renewed_consistent now t h)]
  rfl

/-- The timer that is at an address. -/
def idAt (q : TimerQueue) (timer : TimerPtr) : TimerId := ⟨timer, q.sequenceAt timer⟩

theorem idAt_eq {q : TimerQueue} {timer : TimerPtr} {t : Timer} (ht : q.heap timer = some t) :
    q.idAt timer = ⟨timer, t.sequence_⟩ := by
  rw [idAt, sequenceAt_eq ht]

theorem idAt_congr {q q' : TimerQueue} {timer : TimerPtr} (h : q'.heap timer = q.heap timer) :
    q'.idAt timer = q.idAt timer := by
  rw [idAt, idAt, sequenceAt, sequenceAt, h]

/-- A timer of the batch that `reset` does not put back. -/
def spent (q : TimerQueue) (e : Entry) : List TimerId :=
  match q.heap e.second with
  | some t => if q.renews e.second t then [] else [q.idAt e.second]
  | none => []

theorem spent_eq {q : TimerQueue} {e : Entry} {t : Timer} (ht : q.heap e.second = some t) :
    q.spent e = if q.renews e.second t then [] else [⟨e.second, t.sequence_⟩] := by
  rw [spent, ht, ← idAt_eq ht]

theorem spent_congr {q q' : TimerQueue} {e : Entry} (hheap : q'.heap e.second = q.heap e.second)
    (hcanceling : q'.cancelingTimers_ = q.cancelingTimers_) : q'.spent e = q.spent e := by
  rw [spent, spent, hheap, idAt_congr hheap]
  cases q.heap e.second with
  | none => rfl
  | some t => exact if_congr (by rw [renews, renews, hcanceling]) rfl rfl

theorem mem_spent {q : TimerQueue} {e : Entry} {timerId : TimerId} :
    timerId ∈ q.spent e ↔
      ∃ t, q.heap e.second = some t ∧ ¬ q.renews e.second t ∧
        timerId = ⟨e.second, t.sequence_⟩ := by
  cases ht : q.heap e.second with
  | none => simp [spent, ht]
  | some t =>
    rw [spent_eq ht]
    split
    · rename_i hrenews
      simp [hrenews]
    · rename_i hrenews
      simp [hrenews]

theorem renewed_deleted {q : TimerQueue} (now : Timestamp) {e : Entry} {t : Timer}
    (ht : q.heap e.second = some t) :
    (q.renewed now e.second t).deleted = q.deleted ++ q.spent e := by
  rw [spent_eq ht, renewed]
  split
  · exact (List.append_nil _).symm
  · rfl

/-- What `reset` has done with the batch `expired` of a queue, apart from the descriptor. -/
structure PutBack (q : TimerQueue) (expired : List Entry) (now : Timestamp) (q' : TimerQueue) :
    Prop where
  consistent : q'.Consistent []
  calling_eq : q'.callingExpiredTimers_ = q.callingExpiredTimers_
  heap_other : ∀ timer, timer ∉ expired.map Entry.second → q'.heap timer = q.heap timer
  heap_item : ∀ e ∈ expired, ∀ t, q.heap e.second = some t →
    q'.heap e.second = if q.renews e.second t then some (t.restart now) else none
  active_iff : ∀ x, x ∈ q'.activeTimers_ ↔ x ∈ q.activeTimers_ ∨
    ∃ e ∈ expired, ∃ t, q.heap e.second = some t ∧ q.renews e.second t ∧
      x = ⟨e.second, t.sequence_⟩
  deleted_eq : q'.deleted = q.deleted ++ expired.flatMap q.spent

theorem renewed_canceling (q : TimerQueue) (now : Timestamp) (timer : TimerPtr) (t : Timer) :
    (q.renewed now timer t).cancelingTimers_ = q.cancelingTimers_ := by
  simp only [renewed]
  split <;> rfl

theorem renewed_renews {q : TimerQueue} {now : Timestamp} {timer other : TimerPtr} {t u : Timer} :
    (q.renewed now timer t).renews other u ↔ q.renews other u := by
  simp only [renews, renewed_canceling]

theorem renewed_calling (q : TimerQueue) (now : Timestamp) (timer : TimerPtr) (t : Timer) :
    (q.renewed now timer t).callingExpiredTimers_ = q.callingExpiredTimers_ := by
  simp only [renewed]
  split <;> rfl

theorem renewed_heap_self (q : TimerQueue) (now : Timestamp) (timer : TimerPtr) (t : Timer) :
    (q.renewed now timer t).heap timer =
      if q.renews timer t then some (t.restart now) else none := by
  simp only [renewed]
  split
  · exact Function.update_self ..
  · exact Function.update_self ..

theorem renewed_heap_other {q : TimerQueue} {now : Timestamp} {timer other : TimerPtr} (t : Timer)
    (h : other ≠ timer) : (q.renewed now timer t).heap other = q.heap other := by
  simp only [renewed]
  split
  · exact Function.update_of_ne h ..
  · exact Function.update_of_ne h ..

theorem mem_renewed_active {q : TimerQueue} {now : Timestamp} {timer : TimerPtr} {t : Timer}
    {x : ActiveTimer} : x ∈ (q.renewed now timer t).activeTimers_ ↔
      x ∈ q.activeTimers_ ∨ q.renews timer t ∧ x = ⟨timer, t.sequence_⟩ := by
  simp only [renewed]
  split
  · rename_i hrenews
    simp only [inserted, OrdSet.mem_insert, restart_sequence, hrenews, true_and]
    exact or_comm
  · rename_i hrenews
    simp only [hrenews, false_and, or_false]
    rfl

theorem rearmed_eq (q : TimerQueue) (nextExpire : Timestamp) :
    ∃ fd, q.rearmed nextExpire = { q with timerfd_ := fd } := by
  simp only [rearmed]
  split
  · exact ⟨_, rfl⟩
  · exact ⟨q.timerfd_, rfl⟩

/-- The loop of `reset` runs into no fault and puts back what is to be put back. -/
theorem resetItem_fold {q : TimerQueue} {expired : List Entry} (now nextExpire : Timestamp)
    (h : q.Consistent expired) :
    ∃ next q', expired.foldlM (resetItem now) (nextExpire, q) = .ok (next, q') ∧
      q.PutBack expired now q' := by
  induction expired generalizing q nextExpire with
  | nil =>
    refine ⟨nextExpire, q, rfl, h, rfl, fun _ _ => rfl, ?_, ?_, ?_⟩
    · intro e he
      cases he
    · intro x
      simp
    · exact (List.append_nil _).symm
  | cons e expired ih =>
    rcases h.taken e (List.mem_cons_self ..) with ⟨t, ht, _⟩
    obtain ⟨hfresh, _⟩ := List.nodup_cons.mp h.distinct
    obtain ⟨fd, hfd⟩ := rearmed_eq (q.renewed now e.second t)
      ((q.renewed now e.second t).nextOf nextExpire)
    have hround : resetItem now (nextExpire, q) e =
        .ok ((q.renewed now e.second t).nextOf nextExpire,
          { q.renewed now e.second t with timerfd_ := fd }) := by
      rw [resetItem_eq h ht, hfd]
    have hconsistent : ({ q.renewed now e.second t with timerfd_ := fd } : TimerQueue).Consistent
        expired := (renewed_consistent now t h).of_eq rfl rfl rfl
    obtain ⟨next, q', hfold, hput⟩ := ih ((q.renewed now e.second t).nextOf nextExpire) hconsistent
    have hkept : ∀ f ∈ expired, (q.renewed now e.second t).heap f.second = q.heap f.second := by
      intro f hf
      apply renewed_heap_other
      intro hsame
      apply hfresh
      rw [← hsame]
      exact List.mem_map_of_mem hf
    refine ⟨next, q', ?_, hput.consistent, ?_, ?_, ?_, ?_, ?_⟩
    · rw [List.foldlM_cons, hround]
      exact hfold
    · exact hput.calling_eq.trans (renewed_calling q now e.second t)
    · intro timer hout
      rw [List.map_cons, List.mem_cons, not_or] at hout
      rw [hput.heap_other timer hout.2]
      exact renewed_heap_other t hout.1
    · intro f hf u hu
      rcases List.mem_cons.mp hf with rfl | hrest
      · cases hu.symm.trans ht
        rw [hput.heap_other _ hfresh]
        exact renewed_heap_self q now f.second t
      · have hother : f.second ≠ e.second := by
          intro hsame
          apply hfresh
          rw [← hsame]
          exact List.mem_map_of_mem hrest
        rw [hput.heap_item f hrest u ((renewed_heap_other t hother).trans hu)]
        exact if_congr renewed_renews rfl rfl
    · intro x
      rw [hput.active_iff]
      constructor
      · rintro (hx | ⟨f, hf, u, hu, hrenews, rfl⟩)
        · rcases mem_renewed_active.mp hx with hold | ⟨hrenews, rfl⟩
          · exact Or.inl hold
          · exact Or.inr ⟨e, List.mem_cons_self .., t, ht, hrenews, rfl⟩
        · exact Or.inr ⟨f, List.mem_cons_of_mem _ hf, u, (hkept f hf).symm.trans hu,
            renewed_renews.mp hrenews, rfl⟩
      · rintro (hold | ⟨f, hf, u, hu, hrenews, rfl⟩)
        · exact Or.inl (mem_renewed_active.mpr (Or.inl hold))
        · rcases List.mem_cons.mp hf with rfl | hrest
          · cases hu.symm.trans ht
            exact Or.inl (mem_renewed_active.mpr (Or.inr ⟨hrenews, rfl⟩))
          · exact Or.inr ⟨f, hrest, u, (hkept f hrest).trans hu, renewed_renews.mpr hrenews, rfl⟩
    · rw [hput.deleted_eq, List.flatMap_cons, ← List.append_assoc, ← renewed_deleted now ht]
      congr 1
      apply List.flatMap_congr
      intro f hf
      exact spent_congr (hkept f hf) (renewed_canceling q now e.second t)

/-- `handleRead` after its last callback: the batch is put back and no longer called. -/
theorem endBatch_spec {q : TimerQueue} {expired : List Entry} (now : Timestamp)
    (h : q.Consistent expired) : ∃ q', q.endBatch expired now = .ok q' ∧
      ({ q with callingExpiredTimers_ := false } : TimerQueue).PutBack expired now q' := by
  have hcalled : ({ q with callingExpiredTimers_ := false } : TimerQueue).Consistent expired :=
    h.of_eq rfl rfl rfl
  obtain ⟨next, q', hfold, hput⟩ := resetItem_fold now 0 hcalled
  refine ⟨q', ?_, hput⟩
  simp only [endBatch, reset]
  exact bind_eq_ok.mpr ⟨_, hfold, rfl⟩

/-- A timer that exists after `reset` existed before, under the same number. -/
theorem PutBack.heap_origin {q q' : TimerQueue} {expired : List Entry} {now : Timestamp}
    (hput : q.PutBack expired now q') (h : q.Consistent expired) {timer : TimerPtr} {t' : Timer}
    (ht' : q'.heap timer = some t') :
    ∃ t, q.heap timer = some t ∧ t.sequence_ = t'.sequence_ := by
  by_cases hin : timer ∈ expired.map Entry.second
  · obtain ⟨e, he, rfl⟩ := List.mem_map.mp hin
    rcases h.taken e he with ⟨t, ht, _⟩
    rw [hput.heap_item e he t ht] at ht'
    split at ht'
    · cases ht'
      exact ⟨t, ht, (restart_sequence t now).symm⟩
    · cases ht'
  · rw [hput.heap_other timer hin] at ht'
    exact ⟨t', ht', rfl⟩

/-- A new object at a free address is in no set. -/
theorem Consistent.store_free {q : TimerQueue} {batch : List Entry} {timer : TimerPtr}
    (h : q.Consistent batch) (hfree : q.heap timer = none) (t : Timer) :
    (q.store timer t).Consistent batch := by
  have hkept : ∀ other u, q.heap other = some u → (q.store timer t).heap other = some u := by
    intro other u hu
    have hother : other ≠ timer := by
      intro hsame
      rw [hsame, hfree] at hu
      cases hu
    exact (Function.update_of_ne hother ..).trans hu
  refine ⟨?_, ?_, ?_, h.distinct⟩
  · intro e he
    rcases h.timers e he with ⟨u, hu, hrest⟩
    exact ⟨u, hkept _ u hu, hrest⟩
  · intro x hx
    rcases h.active x hx with ⟨u, hu, hrest⟩
    exact ⟨u, hkept _ u hu, hrest⟩
  · intro e he
    rcases h.taken e he with ⟨u, hu, hrest⟩
    exact ⟨u, hkept _ u hu, hrest⟩

end TimerQueue

/-! ### Runs -/

namespace TimerWorld

/-- The entries taken out for the batch in execution. -/
def expired (w : TimerWorld) : List Entry :=
  match w.batch with
  | none => []
  | some b => b.expired

theorem expired_idle {w : TimerWorld} (hbatch : w.batch = none) : w.expired = [] := by
  rw [expired, hbatch]

theorem expired_batch {w : TimerWorld} {b : Batch} (hbatch : w.batch = some b) :
    w.expired = b.expired := by
  rw [expired, hbatch]

/-- A timer waits to be inserted, or is active, or was taken out for the batch. -/
def Placed (w : TimerWorld) (timer : TimerPtr) (t : Timer) : Prop :=
  timer ∈ w.created ∨ ⟨timer, t.sequence_⟩ ∈ w.queue.activeTimers_ ∨
    timer ∈ w.expired.map Entry.second

structure Inv (w : TimerWorld) : Prop where
  consistent : w.queue.Consistent w.expired
  addressed : w.queue.Addressed
  calling : w.queue.callingExpiredTimers_ = w.batch.isSome
  rest : ∀ b, w.batch = some b → b.rest <:+ b.expired
  created : ∀ timer ∈ w.created, ∃ t, w.queue.heap timer = some t ∧
    ⟨timer, t.sequence_⟩ ∉ w.queue.activeTimers_ ∧ timer ∉ w.expired.map Entry.second
  distinct : w.created.Nodup
  numbered : ∀ timer t, w.queue.heap timer = some t →
    0 < t.sequence_ ∧ ⟨timer, t.sequence_⟩ ∈ w.issued
  issued_le : ∀ timerId ∈ w.issued, 0 < timerId.timer_ ∧ timerId.sequence_ ≤ w.s_numCreated_
  issued_unique : ∀ timerId ∈ w.issued, ∀ timerId' ∈ w.issued,
    timerId.sequence_ = timerId'.sequence_ → timerId = timerId'
  placed : ∀ timer t, w.queue.heap timer = some t → w.Placed timer t

/-- **What a step can do**, in the states of the invariant. -/
inductive Stepped (w : TimerWorld) : TimerEvent → TimerWorld → Prop where
  | newTimer {timer : TimerPtr} {when_ : Timestamp} {interval : Interval} (hpos : 0 < timer)
      (hlt : timer < UINTPTR_MAX) (hfree : w.queue.heap timer = none) :
      Stepped w (.newTimer timer when_ interval)
        { w with
          queue := w.queue.store timer (Timer.new when_ interval (w.s_numCreated_ + 1))
          s_numCreated_ := w.s_numCreated_ + 1
          created := timer :: w.created
          issued := ⟨timer, w.s_numCreated_ + 1⟩ :: w.issued }
  | newElsewhere : Stepped w .newElsewhere { w with s_numCreated_ := w.s_numCreated_ + 1 }
  | addTimerInLoop {timer : TimerPtr} {t : Timer} (huser : w.inUserCode = true)
      (hcreated : timer ∈ w.created) (ht : w.queue.heap timer = some t)
      (hnew : ⟨timer, t.sequence_⟩ ∉ w.queue.activeTimers_)
      (hout : timer ∉ w.expired.map Entry.second) :
      Stepped w (.addTimerInLoop timer)
        { w with
          queue := { w.queue.inserted timer t with timerfd_ := w.queue.fdAfterAdd timer t }
          created := w.created.erase timer }
  | cancelActive {timerId : TimerId} {t : Timer} (huser : w.inUserCode = true)
      (ht : w.queue.heap timerId.timer_ = some t) (hsequence : t.sequence_ = timerId.sequence_)
      (hactive : ⟨timerId.timer_, timerId.sequence_⟩ ∈ w.queue.activeTimers_) :
      Stepped w (.cancelInLoop timerId) { w with queue := w.queue.removed timerId.timer_ t }
  | cancelInactive {timerId : TimerId} (huser : w.inUserCode = true)
      (hactive : ⟨timerId.timer_, timerId.sequence_⟩ ∉ w.queue.activeTimers_) :
      Stepped w (.cancelInLoop timerId) { w with queue := w.queue.noted timerId }
  | timerfdExpires {expiration : Timestamp} (hfd : w.queue.timerfd_ = .armed expiration) :
      Stepped w .timerfdExpires { w with queue := { w.queue with timerfd_ := .expired } }
  | handleRead {now : Timestamp} {q : TimerQueue} (hbatch : w.batch = none)
      (hbegun : w.queue.Begun now q) :
      Stepped w (.handleRead now)
        { w with queue := q, batch := some ⟨now, w.queue.due now, w.queue.due now⟩ }
  | run {now : Timestamp} {expired rest : List Entry} {it : Entry}
      (hbatch : w.batch = some ⟨now, expired, it :: rest⟩) :
      Stepped w .run { w with batch := some ⟨now, expired, rest⟩ }
  | reset {now : Timestamp} {expired : List Entry} {q : TimerQueue}
      (hbatch : w.batch = some ⟨now, expired, []⟩) (hreset : w.queue.endBatch expired now = .ok q)
      (hput : ({ w.queue with callingExpiredTimers_ := false } : TimerQueue).PutBack
        expired now q) :
      Stepped w .reset { w with queue := q, batch := none }

/-- **No fault.**  A legal event is performed, and does one of the things a step can do. -/
theorem Inv.performs {w : TimerWorld} {e : TimerEvent} (h : w.Inv) (hlegal : w.legal e = true) :
    ∃ w', w.perform e = .ok w' ∧ Stepped w e w' := by
  cases e with
  | newTimer timer when_ interval =>
    simp only [legal, Bool.and_eq_true, decide_eq_true_eq] at hlegal
    exact ⟨_, rfl, .newTimer hlegal.1.1 hlegal.1.2 hlegal.2⟩
  | newElsewhere => exact ⟨_, rfl, .newElsewhere⟩
  | addTimerInLoop timer =>
    simp only [legal, Bool.and_eq_true, decide_eq_true_eq] at hlegal
    rcases h.created timer hlegal.2 with ⟨t, ht, hnew, hout⟩
    have hentry : ⟨t.expiration_, timer⟩ ∉ w.queue.timers_ := by
      rw [h.consistent.entry_iff ht]
      exact hnew
    refine ⟨_, ?_, .addTimerInLoop hlegal.1 hlegal.2 ht hnew hout⟩
    simp only [perform, TimerQueue.addTimerInLoop_eq ht hentry, bind, Except.bind]
  | cancelInLoop timerId =>
    by_cases hactive : ⟨timerId.timer_, timerId.sequence_⟩ ∈ w.queue.activeTimers_
    · rcases h.consistent.active _ hactive with ⟨t, ht, hsequence, _⟩
      refine ⟨_, ?_, .cancelActive hlegal ht hsequence hactive⟩
      simp only [perform, TimerQueue.cancelInLoop_active h.consistent ht hsequence hactive, bind,
        Except.bind]
    · refine ⟨_, ?_, .cancelInactive hlegal hactive⟩
      simp only [perform, TimerQueue.cancelInLoop_inactive hactive, bind, Except.bind]
  | timerfdExpires =>
    cases hfd : w.queue.timerfd_ with
    | armed expiration => exact ⟨_, rfl, .timerfdExpires hfd⟩
    | _ => simp [legal, hfd] at hlegal
  | handleRead now =>
    have hbatch : w.batch = none := of_decide_eq_true hlegal
    have hconsistent := h.consistent
    rw [expired_idle hbatch] at hconsistent
    obtain ⟨q, hq, hbegun⟩ := TimerQueue.beginBatch_spec hconsistent h.addressed now
    refine ⟨_, ?_, .handleRead hbatch hbegun⟩
    simp only [perform, hq, bind, Except.bind]
  | run =>
    cases hbatch : w.batch with
    | none => simp [legal, hbatch] at hlegal
    | some b =>
      obtain ⟨now, expired, rest⟩ := b
      cases rest with
      | nil => simp [legal, hbatch] at hlegal
      | cons it rest =>
        have hin : it ∈ w.expired := by
          rw [expired_batch hbatch]
          exact (h.rest _ hbatch).subset (List.mem_cons_self ..)
        rcases h.consistent.taken it hin with ⟨t, ht, _⟩
        refine ⟨_, ?_, .run hbatch⟩
        simp only [perform, hbatch, TimerQueue.deref_eq_ok ht, bind, Except.bind]
  | reset =>
    cases hbatch : w.batch with
    | none => simp [legal, hbatch] at hlegal
    | some b =>
      obtain ⟨now, expired, rest⟩ := b
      cases rest with
      | cons it rest => simp [legal, hbatch] at hlegal
      | nil =>
        have hconsistent := h.consistent
        rw [expired_batch hbatch] at hconsistent
        obtain ⟨q, hq, hput⟩ := TimerQueue.endBatch_spec now hconsistent
        refine ⟨_, ?_, .reset hbatch hq hput⟩
        simp only [perform, hbatch, hq, bind, Except.bind]

theorem Inv.step_cases {w w' : TimerWorld} {e : TimerEvent} (h : w.Inv)
    (hstep : w.step e = some w') : w.legal e = true ∧ Stepped w e w' := by
  simp only [step] at hstep
  split at hstep
  · rename_i hlegal
    rcases h.performs hlegal with ⟨u, hu, hstepped⟩
    rw [returned_eq_some, hu] at hstep
    cases hstep
    exact ⟨hlegal, hstepped⟩
  · cases hstep

theorem start_inv : start.Inv := by
  refine ⟨⟨?_, ?_, ?_, List.nodup_nil⟩, ?_, rfl, ?_, ?_, List.nodup_nil, ?_, ?_, ?_, ?_⟩
  · intro e he
    exact absurd he (OrdSet.not_mem_empty e)
  · intro x hx
    exact absurd hx (OrdSet.not_mem_empty x)
  · intro e he
    cases he
  · intro timer t ht
    cases ht
  · intro b hb
    cases hb
  · intro timer ht
    cases ht
  · intro timer t ht
    cases ht
  · intro timerId hid
    cases hid
  · intro timerId hid
    cases hid
  · intro timer t ht
    cases ht

theorem Inv.newTimer {w : TimerWorld} {timer : TimerPtr} (h : w.Inv) (hpos : 0 < timer)
    (hlt : timer < UINTPTR_MAX) (hfree : w.queue.heap timer = none) (when_ : Timestamp)
    (interval : Interval) :
    Inv { w with
      queue := w.queue.store timer (Timer.new when_ interval (w.s_numCreated_ + 1))
      s_numCreated_ := w.s_numCreated_ + 1
      created := timer :: w.created
      issued := ⟨timer, w.s_numCreated_ + 1⟩ :: w.issued } := by
  have hused : ∀ other u, w.queue.heap other = some u → other ≠ timer := by
    intro other u hu hsame
    rw [hsame, hfree] at hu
    cases hu
  refine ⟨h.consistent.store_free hfree _, ?_, h.calling, h.rest, ?_, ?_, ?_, ?_, ?_, ?_⟩
  · intro other u hu
    by_cases hother : other = timer
    · rw [hother]
      exact ⟨hpos, hlt⟩
    · exact h.addressed other u ((Function.update_of_ne hother ..).symm.trans hu)
  · intro other hin
    rcases List.mem_cons.mp hin with rfl | hold
    · refine ⟨_, Function.update_self .., ?_, ?_⟩
      · intro hactive
        rcases h.consistent.active _ hactive with ⟨u, hu, _⟩
        exact hused _ u hu rfl
      · intro hexpired
        obtain ⟨e, he, hsame⟩ := List.mem_map.mp hexpired
        rcases h.consistent.taken e he with ⟨u, hu, _⟩
        exact hused _ u hu hsame
    · rcases h.created other hold with ⟨u, hu, hrest⟩
      exact ⟨u, (Function.update_of_ne (hused other u hu) ..).trans hu, hrest⟩
  · rw [List.nodup_cons]
    refine ⟨?_, h.distinct⟩
    intro hin
    rcases h.created timer hin with ⟨u, hu, _⟩
    exact hused timer u hu rfl
  · intro other u hu
    by_cases hother : other = timer
    · subst hother
      rw [show (w.queue.store other _).heap other = some _ from Function.update_self ..] at hu
      cases hu
      exact ⟨Nat.succ_pos _, List.mem_cons_self ..⟩
    · obtain ⟨hnumber, hissued⟩ :=
        h.numbered other u ((Function.update_of_ne hother ..).symm.trans hu)
      exact ⟨hnumber, List.mem_cons_of_mem _ hissued⟩
  · intro timerId hin
    rcases List.mem_cons.mp hin with rfl | hold
    · exact ⟨hpos, Nat.le_refl _⟩
    · rcases h.issued_le timerId hold with ⟨hnonnull, hle⟩
      exact ⟨hnonnull, Nat.le_succ_of_le hle⟩
  · intro timerId hin timerId' hin' hsequence
    rcases List.mem_cons.mp hin with rfl | hold
    · rcases List.mem_cons.mp hin' with rfl | hold'
      · rfl
      · have hle := (h.issued_le timerId' hold').2
        simp only at hsequence
        omega
    · rcases List.mem_cons.mp hin' with rfl | hold'
      · have hle := (h.issued_le timerId hold).2
        simp only at hsequence
        omega
      · exact h.issued_unique timerId hold timerId' hold' hsequence
  · intro other u hu
    by_cases hother : other = timer
    · exact Or.inl (hother ▸ List.mem_cons_self ..)
    · exact (h.placed other u ((Function.update_of_ne hother ..).symm.trans hu)).imp_left
        (List.mem_cons_of_mem _)

theorem Inv.addTimerInLoop {w : TimerWorld} {timer : TimerPtr} {t : Timer} (h : w.Inv)
    (ht : w.queue.heap timer = some t) (hout : timer ∉ w.expired.map Entry.second)
    (fd : TimerFd) :
    Inv { w with
      queue := { w.queue.inserted timer t with timerfd_ := fd }
      created := w.created.erase timer } := by
  refine ⟨(TimerQueue.inserted_consistent h.consistent ht hout).of_eq rfl rfl rfl, h.addressed,
    h.calling, h.rest, ?_, h.distinct.erase timer, h.numbered, h.issued_le, h.issued_unique, ?_⟩
  · intro other hin
    obtain ⟨hother, hold⟩ := (List.Nodup.mem_erase_iff h.distinct).mp hin
    rcases h.created other hold with ⟨u, hu, hactive, hexpired⟩
    refine ⟨u, hu, ?_, hexpired⟩
    intro hinserted
    rcases OrdSet.mem_insert.mp hinserted with heq | hactive'
    · exact hother (congrArg ActiveTimer.timer heq)
    · exact hactive hactive'
  · intro other u hu
    by_cases hother : other = timer
    · subst hother
      cases ht.symm.trans hu
      exact Or.inr (Or.inl (OrdSet.mem_insert.mpr (Or.inl rfl)))
    · rcases h.placed other u hu with hcreated | hactive | hexpired
      · exact Or.inl ((List.mem_erase_of_ne hother).mpr hcreated)
      · exact Or.inr (Or.inl (OrdSet.mem_insert.mpr (Or.inr hactive)))
      · exact Or.inr (Or.inr hexpired)

theorem Inv.cancelActive {w : TimerWorld} {timer : TimerPtr} {t : Timer} (h : w.Inv)
    (ht : w.queue.heap timer = some t) (hactive : ⟨timer, t.sequence_⟩ ∈ w.queue.activeTimers_) :
    Inv { w with queue := w.queue.removed timer t } := by
  refine ⟨TimerQueue.removed_consistent h.consistent ht hactive, ?_, h.calling, h.rest, ?_,
    h.distinct, ?_, h.issued_le, h.issued_unique, ?_⟩
  · intro other u hu
    exact h.addressed other u (TimerQueue.removed_heap_origin hu).2
  · intro other hin
    rcases h.created other hin with ⟨u, hu, hout, hexpired⟩
    have hother : other ≠ timer := by
      intro hsame
      rw [hsame, ht] at hu
      cases hu
      apply hout
      rw [hsame]
      exact hactive
    exact ⟨u, (Function.update_of_ne hother ..).trans hu,
      fun hin => hout (OrdSet.mem_erase.mp hin).2, hexpired⟩
  · intro other u hu
    exact h.numbered other u (TimerQueue.removed_heap_origin hu).2
  · intro other u hu
    rcases TimerQueue.removed_heap_origin hu with ⟨hother, hu'⟩
    rcases h.placed other u hu' with hcreated | hactive' | hexpired
    · exact Or.inl hcreated
    · refine Or.inr (Or.inl (OrdSet.mem_erase.mpr ⟨?_, hactive'⟩))
      intro heq
      exact hother (congrArg ActiveTimer.timer heq)
    · exact Or.inr (Or.inr hexpired)

theorem Inv.handleRead {w : TimerWorld} {now : Timestamp} {q : TimerQueue} (h : w.Inv)
    (hbatch : w.batch = none) (hbegun : w.queue.Begun now q) :
    Inv { w with queue := q, batch := some ⟨now, w.queue.due now, w.queue.due now⟩ } := by
  refine ⟨hbegun.consistent, ?_, hbegun.calling, ?_, ?_, h.distinct, ?_, h.issued_le,
    h.issued_unique, ?_⟩
  · intro timer t ht
    rw [hbegun.heap_eq] at ht
    exact h.addressed timer t ht
  · intro b hb
    cases hb
    exact List.suffix_refl _
  · intro timer hin
    rcases h.created timer hin with ⟨t, ht, hactive, _⟩
    refine ⟨t, ?_, ?_, ?_⟩
    · rw [hbegun.heap_eq]
      exact ht
    · intro hactive'
      exact hactive ((hbegun.active_iff _).mp hactive').1
    · intro hexpired
      obtain ⟨e, he, rfl⟩ := List.mem_map.mp hexpired
      rcases (h.consistent.mem_due h.addressed).mp he with ⟨hentry, _⟩
      rcases h.consistent.timers e hentry with ⟨u, hu, _, hactive'⟩
      cases hu.symm.trans ht
      exact hactive hactive'
  · intro timer t ht
    rw [hbegun.heap_eq] at ht
    exact h.numbered timer t ht
  · intro timer t ht
    rw [hbegun.heap_eq] at ht
    rcases h.placed timer t ht with hcreated | hactive | hexpired
    · exact Or.inl hcreated
    · rcases lt_or_ge now t.expiration_ with hlate | hearly
      · exact Or.inr (Or.inl ((hbegun.active_iff _).mpr ⟨hactive, t, ht, hlate⟩))
      · have hentry := (h.consistent.entry_iff ht).mpr hactive
        have hdue := (h.consistent.mem_due h.addressed).mpr ⟨hentry, hearly⟩
        exact Or.inr (Or.inr (List.mem_map_of_mem hdue))
    · rw [expired_idle hbatch] at hexpired
      cases hexpired

/-- The queue that `reset` starts from. -/
theorem Inv.batch_consistent {w : TimerWorld} (h : w.Inv) {now : Timestamp}
    {expired rest : List Entry} (hbatch : w.batch = some ⟨now, expired, rest⟩) :
    ({ w.queue with callingExpiredTimers_ := false } : TimerQueue).Consistent expired := by
  have hconsistent := h.consistent
  rw [expired_batch hbatch] at hconsistent
  exact hconsistent.of_eq rfl rfl rfl

theorem Inv.reset {w : TimerWorld} {now : Timestamp} {expired : List Entry} {q : TimerQueue}
    (h : w.Inv) (hbatch : w.batch = some ⟨now, expired, []⟩)
    (hput : ({ w.queue with callingExpiredTimers_ := false } : TimerQueue).PutBack expired now q) :
    Inv { w with queue := q, batch := none } := by
  have hexpired : w.expired = expired := expired_batch hbatch
  have hconsistent := h.batch_consistent hbatch
  refine ⟨hput.consistent, ?_, hput.calling_eq, ?_, ?_, h.distinct, ?_, h.issued_le,
    h.issued_unique, ?_⟩
  · intro timer t' ht'
    rcases hput.heap_origin hconsistent ht' with ⟨t, ht, _⟩
    exact h.addressed timer t ht
  · intro b hb
    cases hb
  · intro timer hin
    rcases h.created timer hin with ⟨t, ht, hactive, hout⟩
    rw [hexpired] at hout
    refine ⟨t, (hput.heap_other timer hout).trans ht, ?_, List.not_mem_nil⟩
    intro hactive'
    rcases (hput.active_iff _).mp hactive' with hold | ⟨e, he, u, _, _, heq⟩
    · exact hactive hold
    · apply hout
      rw [show timer = e.second from congrArg ActiveTimer.timer heq]
      exact List.mem_map_of_mem he
  · intro timer t' ht'
    rcases hput.heap_origin hconsistent ht' with ⟨t, ht, hsequence⟩
    rw [← hsequence]
    exact h.numbered timer t ht
  · intro timer t' ht'
    by_cases hin : timer ∈ expired.map Entry.second
    · obtain ⟨e, he, rfl⟩ := List.mem_map.mp hin
      rcases hconsistent.taken e he with ⟨t, ht, _⟩
      rw [hput.heap_item e he t ht] at ht'
      split at ht'
      · rename_i hrenews
        cases ht'
        refine Or.inr (Or.inl ((hput.active_iff _).mpr (Or.inr ⟨e, he, t, ht, hrenews, ?_⟩)))
        rw [TimerQueue.restart_sequence]
      · cases ht'
    · rw [hput.heap_other timer hin] at ht'
      rcases h.placed timer t' ht' with hcreated | hactive | hexpired'
      · exact Or.inl hcreated
      · exact Or.inr (Or.inl ((hput.active_iff _).mpr (Or.inl hactive)))
      · rw [hexpired] at hexpired'
        exact absurd hexpired' hin

theorem Inv.stepped {w w' : TimerWorld} {e : TimerEvent} (h : w.Inv) (hstepped : Stepped w e w') :
    w'.Inv := by
  cases hstepped with
  | newTimer hpos hlt hfree => exact h.newTimer hpos hlt hfree _ _
  | newElsewhere =>
    refine ⟨h.consistent, h.addressed, h.calling, h.rest, h.created, h.distinct, h.numbered, ?_,
      h.issued_unique, h.placed⟩
    intro timerId hin
    rcases h.issued_le timerId hin with ⟨hnonnull, hle⟩
    exact ⟨hnonnull, Nat.le_succ_of_le hle⟩
  | addTimerInLoop _ _ ht _ hout => exact h.addTimerInLoop ht hout _
  | cancelActive _ ht hsequence hactive =>
    apply h.cancelActive ht
    rw [hsequence]
    exact hactive
  | cancelInactive _ _ =>
    obtain ⟨canceling, hnoted⟩ := w.queue.noted_eq _
    rw [hnoted]
    exact ⟨h.consistent.of_eq rfl rfl rfl, h.addressed, h.calling, h.rest, h.created, h.distinct,
      h.numbered, h.issued_le, h.issued_unique, h.placed⟩
  | timerfdExpires _ =>
    exact ⟨h.consistent.of_eq rfl rfl rfl, h.addressed, h.calling, h.rest, h.created, h.distinct,
      h.numbered, h.issued_le, h.issued_unique, h.placed⟩
  | handleRead hbatch hbegun => exact h.handleRead hbatch hbegun
  | @run now expired rest it hbatch =>
    have hexpired : w.expired = expired := expired_batch hbatch
    obtain ⟨hconsistent, haddressed, hcalling, hrest, hcreated, hdistinct, hnumbered, hle, hunique,
      hplaced⟩ := h
    simp only [Placed] at hplaced
    rw [hexpired] at hconsistent hcreated hplaced
    rw [hbatch] at hcalling
    refine ⟨hconsistent, haddressed, hcalling, ?_, hcreated, hdistinct, hnumbered, hle, hunique,
      hplaced⟩
    intro b hb
    cases hb
    exact (List.suffix_cons _ _).trans (hrest _ hbatch)
  | reset hbatch _ hput => exact h.reset hbatch hput

theorem Inv.step {w w' : TimerWorld} {e : TimerEvent} (h : w.Inv) (hstep : w.step e = some w') :
    w'.Inv :=
  h.stepped (h.step_cases hstep).2

end TimerWorld

end Muduo
