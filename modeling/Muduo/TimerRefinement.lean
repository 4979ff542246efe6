import Muduo.Scheduler
import Muduo.TimerInvariants

/-!
# A timer queue is a scheduler keyed by sequence number

The abstract side knows nothing of addresses, of the two sets or of the cancels noted
during a batch: `Refines` says which scheduler a queue stands for.  Each event is matched
by the scheduler's step for the same request, so every run is a run of the scheduler, and
what a batch of the scheduler does is what `handleRead` does.

An id names an address and a number.  Only the number reaches the scheduler, and only for
an id that was issued: a default id, or one made up, asks for nothing.
-/

namespace Muduo

open Transitions Scheduling

/-- What the scheduler knows of a timer. -/
structure Job where
  expiration : Timestamp
  interval : Interval
  repeats : Bool
deriving DecidableEq

namespace Job

/-- The job after a batch at `now`. -/
def renew (now : Timestamp) (job : Job) : Option Job :=
  if job.repeats then some { job with expiration := addTime now job.interval } else none

end Job

def Timer.job (t : Timer) : Job := ⟨t.expiration_, t.interval_, t.repeat_⟩

theorem Timer.restart_job {t : Timer} (now : Timestamp) (h : t.repeat_ = true) :
    t.job.renew now = some (t.restart now).job := by
  simp only [Job.renew, Timer.job, Timer.restart, h, if_true]

/-- The scheduler of timers. -/
abbrev TimerScheduler := Scheduler Nat Timestamp Job

abbrev TimerScheduler.Step : TimerScheduler → Label Nat Timestamp Job → TimerScheduler → Prop :=
  Scheduling.Step Job.expiration Job.renew

namespace TimerQueue

/-- A timer with this sequence number is active, and this is its job. -/
def Holds (q : TimerQueue) (sequence : Nat) (job : Job) : Prop :=
  ∃ timer t, ⟨timer, sequence⟩ ∈ q.activeTimers_ ∧ q.heap timer = some t ∧
    t.sequence_ = sequence ∧ t.job = job

end TimerQueue

namespace TimerWorld

/-- What an event asks of the scheduler. -/
def request (w : TimerWorld) : TimerEvent → Option (Label Nat Timestamp Job)
  | .addTimerInLoop timer => (w.queue.heap timer).map fun t => .add t.sequence_ t.job
  | .cancelInLoop timerId => if timerId ∈ w.issued then some (.cancel timerId.sequence_) else none
  | .handleRead now => some (.begin_ now)
  | .run => match w.batch with
    | some ⟨_, _, it :: _⟩ => some (.run (w.queue.sequenceAt it.second))
    | _ => none
  | .reset => some .finish
  | _ => none

/-- The batch of the queue stands for that of the scheduler. -/
structure BatchRefines (q : TimerQueue) (b : Batch) (β : Scheduling.Batch Nat Timestamp Job) :
    Prop where
  now_eq : β.now = b.now
  members : ∀ sequence job, β.members sequence = some job ↔
    ∃ e ∈ b.expired, ∃ t, q.heap e.second = some t ∧ t.sequence_ = sequence ∧ t.job = job
  todo : β.todo = b.rest.map fun e => q.sequenceAt e.second
  cancelled : ∀ e ∈ b.expired, ∀ t, q.heap e.second = some t →
    (t.sequence_ ∈ β.cancelled ↔ ⟨e.second, t.sequence_⟩ ∈ q.cancelingTimers_)

/-- The scheduler that a queue stands for. -/
structure Refines (w : TimerWorld) (a : TimerScheduler) : Prop where
  active : ∀ sequence job, a.active sequence = some job ↔ w.queue.Holds sequence job
  idle : w.batch = none → a.batch = none
  batch : ∀ b, w.batch = some b → ∃ β, a.batch = some β ∧ BatchRefines w.queue b β

/-! ### One timer for each number -/

theorem Inv.same_timer {w : TimerWorld} (h : w.Inv) {timer other : TimerPtr} {t u : Timer}
    (ht : w.queue.heap timer = some t) (hu : w.queue.heap other = some u)
    (hsequence : t.sequence_ = u.sequence_) : timer = other :=
  congrArg TimerId.timer_ (h.issued_unique _ (h.numbered timer t ht).2 _ (h.numbered other u hu).2
    hsequence)

/-- The active timer with an issued number is the one the id names. -/
theorem Inv.issued_timer {w : TimerWorld} (h : w.Inv) {timerId : TimerId}
    (hissued : timerId ∈ w.issued) {timer : TimerPtr} {t : Timer}
    (ht : w.queue.heap timer = some t) (hsequence : t.sequence_ = timerId.sequence_) :
    timer = timerId.timer_ :=
  congrArg TimerId.timer_ (h.issued_unique _ (h.numbered timer t ht).2 _ hissued hsequence)

theorem Inv.holds_iff {w : TimerWorld} (h : w.Inv) {timer : TimerPtr} {t : Timer}
    (ht : w.queue.heap timer = some t) {job : Job} :
    w.queue.Holds t.sequence_ job ↔ ⟨timer, t.sequence_⟩ ∈ w.queue.activeTimers_ ∧ t.job = job := by
  constructor
  · rintro ⟨other, u, hactive, hu, hsequence, hjob⟩
    cases h.same_timer hu ht hsequence
    cases hu.symm.trans ht
    exact ⟨hactive, hjob⟩
  · rintro ⟨hactive, hjob⟩
    exact ⟨timer, t, hactive, ht, rfl, hjob⟩

theorem Inv.expired_timer {w : TimerWorld} (h : w.Inv) {b : Batch} (hbatch : w.batch = some b)
    {e : Entry} (he : e ∈ b.expired) : ∃ t, w.queue.heap e.second = some t ∧
      t.expiration_ = e.first ∧ ⟨e.second, t.sequence_⟩ ∉ w.queue.activeTimers_ := by
  apply h.consistent.taken e
  rw [expired_batch hbatch]
  exact he

theorem Refines.inactive {w : TimerWorld} {a : TimerScheduler} (h : w.Refines a) {sequence : Nat}
    (hnone : ∀ job, ¬ w.queue.Holds sequence job) : a.active sequence = none := by
  cases hactive : a.active sequence with
  | none => rfl
  | some job => exact absurd ((h.active sequence job).mp hactive) (hnone job)

/-! ### Steps that the scheduler does not see -/

/-- The batch matters only through its own timers. -/
theorem BatchRefines.frame {q q' : TimerQueue} {b : Batch}
    {β : Scheduling.Batch Nat Timestamp Job} (h : BatchRefines q b β)
    (hsuffix : b.rest <:+ b.expired)
    (hheap : ∀ e ∈ b.expired, q'.heap e.second = q.heap e.second)
    (hcanceling : ∀ e ∈ b.expired, ∀ t, q.heap e.second = some t →
      (⟨e.second, t.sequence_⟩ ∈ q'.cancelingTimers_ ↔
        ⟨e.second, t.sequence_⟩ ∈ q.cancelingTimers_)) : BatchRefines q' b β := by
  refine ⟨h.now_eq, ?_, ?_, ?_⟩
  · intro sequence job
    rw [h.members]
    constructor
    · rintro ⟨e, he, t, ht, hrest⟩
      exact ⟨e, he, t, (hheap e he).trans ht, hrest⟩
    · rintro ⟨e, he, t, ht, hrest⟩
      exact ⟨e, he, t, (hheap e he).symm.trans ht, hrest⟩
  · rw [h.todo]
    apply List.map_congr_left
    intro e he
    simp only [TimerQueue.sequenceAt, hheap e (hsuffix.subset he)]
  · intro e he t ht
    rw [hheap e he] at ht
    rw [h.cancelled e he t ht, hcanceling e he t ht]

/-- A step that changes nothing the scheduler knows. -/
theorem Refines.frame {w w' : TimerWorld} {a : TimerScheduler} (h : w.Refines a) (hinv : w.Inv)
    (hbatch : w'.batch = w.batch) (hactive : w'.queue.activeTimers_ = w.queue.activeTimers_)
    (hheap : ∀ timer t, w.queue.heap timer = some t → w'.queue.heap timer = some t)
    (hcanceling : ∀ timer t, w.queue.heap timer = some t →
      (⟨timer, t.sequence_⟩ ∈ w'.queue.cancelingTimers_ ↔
        ⟨timer, t.sequence_⟩ ∈ w.queue.cancelingTimers_)) : w'.Refines a := by
  refine ⟨?_, ?_, ?_⟩
  · intro sequence job
    rw [h.active]
    constructor
    · rintro ⟨timer, t, hin, ht, hrest⟩
      exact ⟨timer, t, hactive ▸ hin, hheap timer t ht, hrest⟩
    · rintro ⟨timer, t, hin, ht, hrest⟩
      rw [hactive] at hin
      rcases hinv.consistent.active _ hin with ⟨u, hu, _⟩
      cases (hheap timer u hu).symm.trans ht
      exact ⟨timer, t, hin, hu, hrest⟩
  · intro hidle
    rw [hbatch] at hidle
    exact h.idle hidle
  · intro b hb
    rw [hbatch] at hb
    rcases h.batch b hb with ⟨β, hβ, hrefines⟩
    refine ⟨β, hβ, hrefines.frame (hinv.rest b hb) ?_ fun e _ t ht => hcanceling _ t ht⟩
    intro e he
    rcases hinv.expired_timer hb he with ⟨t, ht, _⟩
    rw [ht]
    exact hheap _ t ht

/-! ### Adding and cancelling -/

theorem Refines.add {w : TimerWorld} {a : TimerScheduler} (h : w.Refines a) (hinv : w.Inv)
    {timer : TimerPtr} {t : Timer} (ht : w.queue.heap timer = some t)
    (hnew : ⟨timer, t.sequence_⟩ ∉ w.queue.activeTimers_)
    (hout : timer ∉ w.expired.map Entry.second) (created : List TimerPtr) (fd : TimerFd) :
    ∃ a', TimerScheduler.Step a (.add t.sequence_ t.job) a' ∧
      Refines { w with
        queue := { w.queue.inserted timer t with timerfd_ := fd }
        created := created } a' := by
  have hfree : a.active t.sequence_ = none := by
    apply h.inactive
    intro job hholds
    exact hnew ((hinv.holds_iff ht).mp hholds).1
  refine ⟨_, .add hfree ?_, ?_, h.idle, ?_⟩
  · intro β hβ
    cases hb : w.batch with
    | none =>
      rw [h.idle hb] at hβ
      cases hβ
    | some b =>
      rcases h.batch b hb with ⟨β', hβ', hrefines⟩
      cases hβ.symm.trans hβ'
      cases hmember : β.members t.sequence_ with
      | none => rfl
      | some job =>
        rcases (hrefines.members _ _).mp hmember with ⟨e, he, u, hu, hsequence, _⟩
        exfalso
        apply hout
        rw [← hinv.same_timer hu ht hsequence, expired, hb]
        exact List.mem_map_of_mem he
  · intro sequence job
    show Function.update a.active t.sequence_ (some t.job) sequence = some job ↔ _
    by_cases hsequence : sequence = t.sequence_
    · rw [hsequence, Function.update_self, Option.some.injEq]
      constructor
      · rintro rfl
        exact ⟨timer, t, OrdSet.mem_insert.mpr (Or.inl rfl), ht, rfl, rfl⟩
      · rintro ⟨other, u, _, hu, hsame, hjob⟩
        cases hinv.same_timer hu ht hsame
        cases ht.symm.trans hu
        exact hjob
    · rw [Function.update_of_ne hsequence, h.active]
      constructor
      · rintro ⟨other, u, hin, hrest⟩
        exact ⟨other, u, OrdSet.mem_insert.mpr (Or.inr hin), hrest⟩
      · rintro ⟨other, u, hin, hrest⟩
        rcases OrdSet.mem_insert.mp hin with heq | hold
        · exact absurd (congrArg ActiveTimer.sequence heq) hsequence
        · exact ⟨other, u, hold, hrest⟩
  · intro b hb
    rcases h.batch b hb with ⟨β, hβ, hrefines⟩
    exact ⟨β, hβ, hrefines.frame (hinv.rest b hb) (fun _ _ => rfl) fun _ _ _ _ => Iff.rfl⟩

/-- An active timer is cancelled. -/
theorem Refines.cancelActive {w : TimerWorld} {a : TimerScheduler} (h : w.Refines a) (hinv : w.Inv)
    {timer : TimerPtr} {t : Timer} (ht : w.queue.heap timer = some t)
    (hactive : ⟨timer, t.sequence_⟩ ∈ w.queue.activeTimers_) :
    Refines { w with queue := w.queue.removed timer t } (a.cancel t.sequence_) := by
  have hcancel : a.cancel t.sequence_ =
      { a with active := Function.update a.active t.sequence_ none } := by
    have hsome : a.active t.sequence_ = some t.job := by
      rw [h.active, hinv.holds_iff ht]
      exact ⟨hactive, rfl⟩
    simp only [Scheduler.cancel, hsome]
  rw [hcancel]
  refine ⟨?_, h.idle, ?_⟩
  · intro sequence job
    show Function.update a.active t.sequence_ none sequence = some job ↔ _
    by_cases hsequence : sequence = t.sequence_
    · rw [hsequence, Function.update_self]
      constructor
      · intro hnone
        cases hnone
      · rintro ⟨other, u, hin, hu, hsame, _⟩
        obtain ⟨hne, hold⟩ := OrdSet.mem_erase.mp hin
        rcases hinv.consistent.active _ hold with ⟨v, hv, hsame', _⟩
        cases hinv.same_timer hv ht hsame'
        exact absurd rfl hne
    · rw [Function.update_of_ne hsequence, h.active]
      constructor
      · rintro ⟨other, u, hin, hu, hsame, hjob⟩
        have hother : other ≠ timer := by
          rintro rfl
          cases hu.symm.trans ht
          exact hsequence hsame.symm
        refine ⟨other, u, OrdSet.mem_erase.mpr ⟨?_, hin⟩, ?_, hsame, hjob⟩
        · intro heq
          exact hother (congrArg ActiveTimer.timer heq)
        · exact (Function.update_of_ne hother ..).trans hu
      · rintro ⟨other, u, hin, hu, hsame, hjob⟩
        exact ⟨other, u, (OrdSet.mem_erase.mp hin).2, (TimerQueue.removed_heap_origin hu).2, hsame,
          hjob⟩
  · intro b hb
    rcases h.batch b hb with ⟨β, hβ, hrefines⟩
    refine ⟨β, hβ, hrefines.frame (hinv.rest b hb) ?_ fun _ _ _ _ => Iff.rfl⟩
    intro e he
    rcases hinv.expired_timer hb he with ⟨u, hu, _, hout⟩
    apply Function.update_of_ne
    intro hsame
    rw [hsame] at hu hout
    cases hu.symm.trans ht
    exact hout hactive

/-- A cancel of a timer that is not active: the scheduler notes it as the queue does. -/
theorem Refines.cancelInactive {w : TimerWorld} {a : TimerScheduler} (h : w.Refines a)
    (hinv : w.Inv) {timerId : TimerId} (hissued : timerId ∈ w.issued)
    (hactive : ⟨timerId.timer_, timerId.sequence_⟩ ∉ w.queue.activeTimers_) :
    Refines { w with queue := w.queue.noted timerId } (a.cancel timerId.sequence_) := by
  have hnone : a.active timerId.sequence_ = none := by
    apply h.inactive
    rintro job ⟨timer, t, hin, ht, hsequence, _⟩
    rw [hinv.issued_timer hissued ht hsequence] at hin
    exact hactive hin
  rcases Option.eq_none_or_eq_some w.batch with hb | ⟨b, hb⟩
  · have hcancel : a.cancel timerId.sequence_ = a := by
      simp only [Scheduler.cancel, hnone, h.idle hb]
    have hnoted : w.queue.noted timerId = w.queue := by
      simp only [TimerQueue.noted, hinv.calling, hb, Option.isSome_none, Bool.false_eq_true,
        if_false]
    rw [hcancel, hnoted]
    exact h
  · rcases h.batch b hb with ⟨β, hβ, hrefines⟩
    have hcancel : a.cancel timerId.sequence_ =
        { a with batch := some { β with cancelled := insert timerId.sequence_ β.cancelled } } := by
      simp only [Scheduler.cancel, hnone, hβ]
    have hnoted : w.queue.noted timerId = { w.queue with
        cancelingTimers_ :=
          w.queue.cancelingTimers_.insert ⟨timerId.timer_, timerId.sequence_⟩ } := by
      simp only [TimerQueue.noted, hinv.calling, hb, Option.isSome_some, if_true]
    rw [hcancel, hnoted]
    refine ⟨h.active, ?_, ?_⟩
    · intro hidle
      cases hb.symm.trans hidle
    · intro b' hb'
      cases hb.symm.trans hb'
      refine ⟨_, rfl, hrefines.now_eq, hrefines.members, hrefines.todo, ?_⟩
      intro e he t ht
      rw [OrdSet.mem_insert, ← hrefines.cancelled e he t ht]
      refine or_congr_left ?_
      constructor
      · intro hsequence
        rw [hsequence, hinv.issued_timer hissued ht hsequence]
      · exact congrArg ActiveTimer.sequence

/-! ### The batch -/

/-- The keys of a batch that begins: the sequence numbers of what is due. -/
theorem Refines.runOrder {w : TimerWorld} {a : TimerScheduler} (h : w.Refines a) (hinv : w.Inv)
    (hbatch : w.batch = none) (now : Timestamp) :
    RunOrder Job.expiration a.active now
      ((w.queue.due now).map fun e => w.queue.sequenceAt e.second) := by
  have hconsistent := hinv.consistent
  rw [expired_idle hbatch] at hconsistent
  have hdue : ∀ e ∈ w.queue.due now, ∃ t, w.queue.heap e.second = some t ∧
      t.expiration_ = e.first ∧ ⟨e.second, t.sequence_⟩ ∈ w.queue.activeTimers_ ∧
        e.first ≤ now := by
    intro e he
    rcases (hconsistent.mem_due hinv.addressed).mp he with ⟨hin, hearly⟩
    rcases hconsistent.timers e hin with ⟨t, ht, hfirst, hactive⟩
    exact ⟨t, ht, hfirst, hactive, hearly⟩
  have hjob : ∀ e ∈ w.queue.due now, ∀ job,
      a.active (w.queue.sequenceAt e.second) = some job → job.expiration = e.first := by
    intro e he job hjob
    rcases hdue e he with ⟨t, ht, hfirst, _⟩
    rw [TimerQueue.sequenceAt_eq ht, h.active, hinv.holds_iff ht] at hjob
    rw [← hjob.2, ← hfirst]
    rfl
  refine ⟨?_, ?_, ?_⟩
  · refine List.Nodup.map_on ?_ (OrdSet.nodup _)
    intro e he f hf hsame
    rcases hdue e he with ⟨t, ht, _⟩
    rcases hdue f hf with ⟨u, hu, _⟩
    rw [TimerQueue.sequenceAt_eq ht, TimerQueue.sequenceAt_eq hu] at hsame
    exact hconsistent.entry_unique ((hconsistent.mem_due hinv.addressed).mp he).1
      ((hconsistent.mem_due hinv.addressed).mp hf).1 (hinv.same_timer ht hu hsame)
  · intro sequence
    rw [List.mem_map]
    constructor
    · rintro ⟨e, he, rfl⟩
      rcases hdue e he with ⟨t, ht, hfirst, hactive, hearly⟩
      refine ⟨t.job, ?_, ?_⟩
      · rw [TimerQueue.sequenceAt_eq ht, h.active, hinv.holds_iff ht]
        exact ⟨hactive, rfl⟩
      · rw [← hfirst] at hearly
        exact hearly
    · rintro ⟨job, hactive, hearly⟩
      rcases (h.active _ _).mp hactive with ⟨timer, t, hin, ht, hsequence, rfl⟩
      refine ⟨⟨t.expiration_, timer⟩, ?_, ?_⟩
      · rw [hconsistent.mem_due hinv.addressed, hconsistent.entry_iff ht, hsequence]
        exact ⟨hin, hearly⟩
      · rw [TimerQueue.sequenceAt_eq ht, hsequence]
  · rw [List.pairwise_map]
    refine List.Pairwise.imp_of_mem ?_ (OrdSet.sorted _)
    intro e f he hf hlt job job' hactive hactive'
    rw [hjob e he job hactive, hjob f hf job' hactive']
    exact Entry.first_le_of_le (le_of_lt hlt)

theorem Refines.begin_ {w : TimerWorld} {a : TimerScheduler} (h : w.Refines a) (hinv : w.Inv)
    (hbatch : w.batch = none) {now : Timestamp} {q : TimerQueue} (hbegun : w.queue.Begun now q) :
    ∃ a', TimerScheduler.Step a (.begin_ now) a' ∧
      Refines { w with queue := q, batch := some ⟨now, w.queue.due now, w.queue.due now⟩ } a' := by
  have horder := h.runOrder hinv hbatch now
  have hconsistent := hinv.consistent
  rw [expired_idle hbatch] at hconsistent
  have hlate : ∀ timer t, w.queue.heap timer = some t →
      ⟨timer, t.sequence_⟩ ∈ w.queue.activeTimers_ → (now < t.expiration_ ↔
        t.sequence_ ∉ (w.queue.due now).map fun e => w.queue.sequenceAt e.second) := by
    intro timer t ht hactive
    have hholds : a.active t.sequence_ = some t.job := by
      rw [h.active, hinv.holds_iff ht]
      exact ⟨hactive, rfl⟩
    rw [horder.mem_iff, ← not_le, not_iff_not]
    constructor
    · intro hearly
      exact ⟨t.job, hholds, hearly⟩
    · rintro ⟨job, hjob, hearly⟩
      cases hholds.symm.trans hjob
      exact hearly
  have hexpired : ∀ e ∈ w.queue.due now, ∃ t, w.queue.heap e.second = some t ∧
      ⟨e.second, t.sequence_⟩ ∈ w.queue.activeTimers_ := by
    intro e he
    obtain ⟨t, ht, _, hactive⟩ :=
      hconsistent.timers e ((hconsistent.mem_due hinv.addressed).mp he).1
    exact ⟨t, ht, hactive⟩
  refine ⟨_, .begin_ (h.idle hbatch) horder, ?_, ?_, ?_⟩
  · intro sequence job
    simp only [TimerQueue.Holds, hbegun.active_iff, hbegun.heap_eq]
    split
    · rename_i hdue
      constructor
      · intro hnone
        cases hnone
      · rintro ⟨timer, t, ⟨hactive, u, hu, hlater⟩, ht, rfl, _⟩
        cases hu.symm.trans ht
        exact absurd hdue ((hlate timer t ht hactive).mp hlater)
    · rename_i hdue
      rw [h.active]
      constructor
      · rintro ⟨timer, t, hactive, ht, rfl, hjob⟩
        exact ⟨timer, t, ⟨hactive, t, ht, (hlate timer t ht hactive).mpr hdue⟩, ht, rfl, hjob⟩
      · rintro ⟨timer, t, ⟨hactive, _⟩, ht, hrest⟩
        exact ⟨timer, t, hactive, ht, hrest⟩
  · intro hidle
    cases hidle
  · intro b hb
    cases hb
    refine ⟨_, rfl, rfl, ?_, ?_, ?_⟩
    · intro sequence job
      simp only [hbegun.heap_eq]
      split
      · rename_i hdue
        obtain ⟨e, he, rfl⟩ := List.mem_map.mp hdue
        rcases hexpired e he with ⟨t, ht, hactive⟩
        rw [TimerQueue.sequenceAt_eq ht, h.active, hinv.holds_iff ht]
        constructor
        · rintro ⟨_, hjob⟩
          exact ⟨e, he, t, ht, rfl, hjob⟩
        · rintro ⟨f, _, u, hu, hsequence, hjob⟩
          rw [hinv.same_timer hu ht hsequence] at hu
          cases hu.symm.trans ht
          exact ⟨hactive, hjob⟩
      · rename_i hdue
        constructor
        · intro hnone
          cases hnone
        · rintro ⟨e, he, t, ht, rfl, _⟩
          exfalso
          apply hdue
          rw [← TimerQueue.sequenceAt_eq ht]
          exact List.mem_map.mpr ⟨e, he, rfl⟩
    · simp only [TimerQueue.sequenceAt, hbegun.heap_eq]
    · intro e he t ht
      simp [hbegun.canceling_eq]

theorem Refines.run {w : TimerWorld} {a : TimerScheduler} (h : w.Refines a) {now : Timestamp}
    {expired rest : List Entry} {it : Entry} (hbatch : w.batch = some ⟨now, expired, it :: rest⟩) :
    ∃ a', TimerScheduler.Step a (.run (w.queue.sequenceAt it.second)) a' ∧
      Refines { w with batch := some ⟨now, expired, rest⟩ } a' := by
  rcases h.batch _ hbatch with ⟨β, hβ, hrefines⟩
  refine ⟨_, .run hβ hrefines.todo, h.active, ?_, ?_⟩
  · intro hidle
    cases hidle
  · intro b hb
    cases hb
    exact ⟨_, rfl, hrefines.now_eq, hrefines.members, rfl, hrefines.cancelled⟩

/-- A timer of the batch is active again exactly when `reset` renewed it. -/
theorem Inv.holds_member {w : TimerWorld} (hinv : w.Inv) {now : Timestamp} {expired : List Entry}
    {q : TimerQueue} (hbatch : w.batch = some ⟨now, expired, []⟩)
    (hput : ({ w.queue with callingExpiredTimers_ := false } : TimerQueue).PutBack expired now q)
    {e : Entry} (he : e ∈ expired) {t : Timer} (ht : w.queue.heap e.second = some t) {job : Job} :
    q.Holds t.sequence_ job ↔ w.queue.renews e.second t ∧ (t.restart now).job = job := by
  have hitem : q.heap e.second =
      if w.queue.renews e.second t then some (t.restart now) else none := hput.heap_item e he t ht
  by_cases hrenews : w.queue.renews e.second t
  · rw [if_pos hrenews] at hitem
    have hactive : ⟨e.second, t.sequence_⟩ ∈ q.activeTimers_ :=
      (hput.active_iff _).mpr (Or.inr ⟨e, he, t, ht, hrenews, rfl⟩)
    have hholds : q.Holds (t.restart now).sequence_ job ↔
        ⟨e.second, (t.restart now).sequence_⟩ ∈ q.activeTimers_ ∧ (t.restart now).job = job :=
      (hinv.reset hbatch hput).holds_iff hitem
    rw [TimerQueue.restart_sequence] at hholds
    rw [hholds]
    exact ⟨fun h => ⟨hrenews, h.2⟩, fun h => ⟨hactive, h.2⟩⟩
  · rw [if_neg hrenews] at hitem
    constructor
    · rintro ⟨timer, u, _, hu, hsequence, _⟩
      have hconsistent : ({ w.queue with callingExpiredTimers_ := false } : TimerQueue).Consistent
          expired := hinv.batch_consistent hbatch
      rcases hput.heap_origin hconsistent hu with ⟨v, hv, hsame⟩
      rw [hinv.same_timer hv ht (hsame.trans hsequence), hitem] at hu
      cases hu
    · rintro ⟨h, _⟩
      exact absurd h hrenews

/-- `reset` leaves every other timer as it was. -/
theorem Inv.holds_other {w : TimerWorld} (hinv : w.Inv) {now : Timestamp} {expired : List Entry}
    {q : TimerQueue}
    (hput : ({ w.queue with callingExpiredTimers_ := false } : TimerQueue).PutBack expired now q)
    {sequence : Nat} (hout : ∀ e ∈ expired, ∀ t, w.queue.heap e.second = some t →
      t.sequence_ ≠ sequence) {job : Job} :
    q.Holds sequence job ↔ w.queue.Holds sequence job := by
  have hkept : ∀ timer, ⟨timer, sequence⟩ ∈ w.queue.activeTimers_ →
      q.heap timer = w.queue.heap timer := by
    intro timer hactive
    apply hput.heap_other
    intro hin
    obtain ⟨e, he, rfl⟩ := List.mem_map.mp hin
    rcases hinv.consistent.active _ hactive with ⟨t, ht, hsequence, _⟩
    exact hout e he t ht hsequence
  constructor
  · rintro ⟨timer, t, hactive, ht, hrest⟩
    rcases (hput.active_iff _).mp hactive with hold | ⟨e, he, u, hu, _, heq⟩
    · exact ⟨timer, t, hold, (hkept timer hold).symm.trans ht, hrest⟩
    · exact absurd (congrArg ActiveTimer.sequence heq).symm (hout e he u hu)
  · rintro ⟨timer, t, hactive, ht, hrest⟩
    exact ⟨timer, t, (hput.active_iff _).mpr (Or.inl hactive), (hkept timer hactive).trans ht,
      hrest⟩

theorem Refines.finish {w : TimerWorld} {a : TimerScheduler} (h : w.Refines a) (hinv : w.Inv)
    {now : Timestamp} {expired : List Entry} {q : TimerQueue}
    (hbatch : w.batch = some ⟨now, expired, []⟩)
    (hput : ({ w.queue with callingExpiredTimers_ := false } : TimerQueue).PutBack expired now q) :
    ∃ a', TimerScheduler.Step a .finish a' ∧ Refines { w with queue := q, batch := none } a' := by
  rcases h.batch _ hbatch with ⟨β, hβ, hrefines⟩
  refine ⟨_, .finish hβ hrefines.todo, ?_, fun _ => rfl, ?_⟩
  · intro sequence job'
    cases hmember : β.members sequence with
    | some job =>
      rcases (hrefines.members _ _).mp hmember with ⟨e, he, t, ht, rfl, rfl⟩
      rw [Scheduler.putBack_member hmember, hrefines.now_eq, hrefines.cancelled e he t ht,
        hinv.holds_member hbatch hput he ht, TimerQueue.renews]
      by_cases hrepeat : t.repeat_ = true
      · rw [Timer.restart_job now hrepeat, Option.some.injEq]
        tauto
      · simp [Job.renew, Timer.job, hrepeat]
    | none =>
      rw [Scheduler.putBack_other hmember, h.active, hinv.holds_other hput]
      intro e he t ht hsequence
      have hin := (hrefines.members sequence t.job).mpr ⟨e, he, t, ht, hsequence, rfl⟩
      rw [hmember] at hin
      cases hin
  · intro b hb
    cases hb

/-! ### Every step is matched -/

/-- **One step.**  An event does to the scheduler what it asks of it. -/
theorem Refines.stepped {w w' : TimerWorld} {a : TimerScheduler} {e : TimerEvent}
    (h : w.Refines a) (hinv : w.Inv) (hstepped : Stepped w e w') :
    match w.request e with
    | some label => ∃ a', TimerScheduler.Step a label a' ∧ w'.Refines a'
    | none => w'.Refines a := by
  cases hstepped with
  | @newTimer timer when_ interval hpos hlt hfree =>
    refine h.frame hinv rfl rfl ?_ fun _ _ _ => Iff.rfl
    intro other t ht
    have hother : other ≠ timer := by
      rintro rfl
      rw [hfree] at ht
      cases ht
    exact (Function.update_of_ne hother ..).trans ht
  | newElsewhere => exact h.frame hinv rfl rfl (fun _ _ ht => ht) fun _ _ _ => Iff.rfl
  | addTimerInLoop huser hcreated ht hnew hout =>
    simp only [request, ht, Option.map_some]
    exact h.add hinv ht hnew hout _ _
  | @cancelActive timerId t huser ht hsequence hactive =>
    have hissued : timerId ∈ w.issued := by
      have hin := (hinv.numbered _ t ht).2
      rw [hsequence] at hin
      exact hin
    rw [← hsequence] at hactive
    simp only [request, if_pos hissued]
    refine ⟨_, .cancel, ?_⟩
    rw [← hsequence]
    exact h.cancelActive hinv ht hactive
  | @cancelInactive timerId huser hactive =>
    by_cases hissued : timerId ∈ w.issued
    · simp only [request, if_pos hissued]
      exact ⟨_, .cancel, h.cancelInactive hinv hissued hactive⟩
    · simp only [request, if_neg hissued]
      -- no timer has this id, so that a note of it never matters
      have hother : ∀ timer t, w.queue.heap timer = some t →
          (⟨timer, t.sequence_⟩ : ActiveTimer) ≠ ⟨timerId.timer_, timerId.sequence_⟩ := by
        intro timer t ht heq
        apply hissued
        rw [← show (⟨timer, t.sequence_⟩ : TimerId) = timerId from
          congrArg (fun x : ActiveTimer => (⟨x.timer, x.sequence⟩ : TimerId)) heq]
        exact (hinv.numbered timer t ht).2
      refine h.frame hinv rfl (w.queue.noted_activeTimers timerId) ?_ ?_
      · intro timer t ht
        exact (congrFun (w.queue.noted_heap timerId) timer).trans ht
      · intro timer t ht
        exact TimerQueue.mem_noted_canceling (hother timer t ht)
  | timerfdExpires _ => exact h.frame hinv rfl rfl (fun _ _ ht => ht) fun _ _ _ => Iff.rfl
  | handleRead hbatch hbegun => exact h.begin_ hinv hbatch hbegun
  | run hbatch =>
    simp only [request, hbatch]
    exact h.run hbatch
  | reset hbatch _ hput => exact h.finish hinv hbatch hput

theorem start_refines : start.Refines Scheduler.empty := by
  refine ⟨?_, fun _ => rfl, ?_⟩
  · intro sequence job
    constructor
    · intro hnone
      cases hnone
    · rintro ⟨timer, t, hactive, _⟩
      exact absurd hactive (OrdSet.not_mem_empty _)
  · intro b hb
    cases hb

/-- **Every run is a run of the scheduler.** -/
theorem refines_run {w w' : TimerWorld} {a : TimerScheduler} {es : List TimerEvent}
    (hinv : w.Inv) (h : w.Refines a) (hrun : Run step w es w') :
    ∃ a', SpecRun TimerScheduler.Step a (labels step request w es) a' ∧ w'.Refines a' := by
  have hsim : ∃ a', SpecRun TimerScheduler.Step a (labels step request w es) a' ∧
      w'.Inv ∧ w'.Refines a' := by
    refine simulation TimerScheduler.Step request (fun v c => v.Inv ∧ v.Refines c) ?_ ⟨hinv, h⟩ hrun
    rintro v e v' c ⟨hinv, h⟩ hstep
    have hmatch := h.stepped hinv (hinv.step_cases hstep).2
    cases hrequest : v.request e with
    | none =>
      rw [hrequest] at hmatch
      exact ⟨hinv.step hstep, hmatch⟩
    | some label =>
      rw [hrequest] at hmatch
      rcases hmatch with ⟨c', hspec, hrefines⟩
      exact ⟨c', hspec, hinv.step hstep, hrefines⟩
  rcases hsim with ⟨a', hspec, _, hrefines⟩
  exact ⟨a', hspec, hrefines⟩

/-! ### What a batch of the queue does -/

/-- The sequence numbers of the timers whose callbacks a run calls, in order. -/
def calls (w : TimerWorld) (es : List TimerEvent) : List Nat :=
  Label.ran (labels step request w es)

/-- A `handleRead` from `w` to `w'`: its clock reading is `now` and its callbacks, with
    whatever happens on other threads, are the events `es`. -/
structure BatchLaw (w : TimerWorld) (now : Timestamp) (es : List TimerEvent) (w' : TimerWorld) :
    Prop where
  once : (w.calls (.handleRead now :: es)).Nodup
  due : ∀ sequence, sequence ∈ w.calls (.handleRead now :: es) ↔
    ∃ job, w.queue.Holds sequence job ∧ job.expiration ≤ now
  in_order : (w.calls (.handleRead now :: es)).Pairwise fun sequence later => ∀ job job',
    w.queue.Holds sequence job → w.queue.Holds later job' → job.expiration ≤ job'.expiration
  renewed : ∀ timerId ∈ w.issued, timerId.sequence_ ∈ w.calls (.handleRead now :: es) →
    ∀ job, w.queue.Holds timerId.sequence_ job → ∀ job', w'.queue.Holds timerId.sequence_ job' ↔
      .cancelInLoop timerId ∉ es ∧ job.renew now = some job'
  others : ∀ sequence, sequence ∉ w.calls (.handleRead now :: es) →
    (∀ job, .add sequence job ∉ labels step request w (.handleRead now :: es)) →
    .cancel sequence ∉ labels step request w (.handleRead now :: es) →
    ∀ job, w'.queue.Holds sequence job ↔ w.queue.Holds sequence job

theorem Stepped.issued_subset {w w' : TimerWorld} {e : TimerEvent} (h : Stepped w e w') :
    w.issued ⊆ w'.issued := by
  cases h with
  | newTimer _ _ _ => exact List.subset_cons_self _ _
  | _ => exact List.Subset.refl _

theorem Inv.run_issued {w w' : TimerWorld} {es : List TimerEvent} (h : w.Inv)
    (hrun : Run TimerWorld.step w es w') : w'.Inv ∧ w.issued ⊆ w'.issued := by
  refine hrun.invariant (I := fun v => v.Inv ∧ w.issued ⊆ v.issued) ?_ ⟨h, List.Subset.refl _⟩
  rintro v e v' ⟨hinv, hsubset⟩ hstep
  have hstepped := (hinv.step_cases hstep).2
  exact ⟨hinv.stepped hstepped, List.Subset.trans hsubset hstepped.issued_subset⟩

theorem request_eq_cancel {w : TimerWorld} {e : TimerEvent} {sequence : Nat} :
    w.request e = some (.cancel sequence) ↔
      ∃ timerId ∈ w.issued, timerId.sequence_ = sequence ∧ e = .cancelInLoop timerId := by
  constructor
  · intro h
    cases e with
    | cancelInLoop timerId =>
      simp only [request] at h
      split at h
      · rename_i hissued
        cases h
        exact ⟨timerId, hissued, rfl, rfl⟩
      · cases h
    | addTimerInLoop timer =>
      obtain ⟨t, _, ht⟩ := Option.map_eq_some_iff.mp h
      cases ht
    | run =>
      simp only [request] at h
      split at h
      · cases h
      · cases h
    | _ => cases h
  · rintro ⟨timerId, hissued, rfl, rfl⟩
    simp only [request, if_pos hissued]

/-- The scheduler sees a cancel of an issued number exactly when that id is cancelled. -/
theorem Inv.cancel_mem_labels {w w' : TimerWorld} {es : List TimerEvent} (h : w.Inv)
    (hrun : Run TimerWorld.step w es w') {timerId : TimerId} (hissued : timerId ∈ w.issued) :
    .cancel timerId.sequence_ ∈ labels TimerWorld.step request w es ↔
      .cancelInLoop timerId ∈ es := by
  rw [mem_labels hrun]
  constructor
  · rintro ⟨pre, e, post, v, rfl, hpre, hrequest⟩
    rcases h.run_issued hpre with ⟨hinv, hsubset⟩
    obtain ⟨other, hother, hsequence, rfl⟩ := request_eq_cancel.mp hrequest
    rw [hinv.issued_unique other hother timerId (hsubset hissued) hsequence]
    exact List.mem_append_right _ (List.mem_cons_self ..)
  · intro hin
    obtain ⟨pre, post, rfl⟩ := List.append_of_mem hin
    obtain ⟨v, hpre, _⟩ := hrun.split
    exact ⟨pre, _, post, v, rfl, hpre,
      request_eq_cancel.mpr ⟨timerId, (h.run_issued hpre).2 hissued, rfl, rfl⟩⟩

theorem Inv.batch_of_handleRead {w w' : TimerWorld} {now : Timestamp} (h : w.Inv)
    (hstep : TimerWorld.step w (.handleRead now) = some w') : w'.batch ≠ none := by
  cases (h.step_cases hstep).2
  simp

theorem request_inner {w : TimerWorld} {e : TimerEvent} {label : Label Nat Timestamp Job}
    (h : w.request e = some label) (hread : ∀ now, e ≠ .handleRead now) (hreset : e ≠ .reset) :
    label.Inner := by
  cases e with
  | addTimerInLoop timer =>
    obtain ⟨t, _, rfl⟩ := Option.map_eq_some_iff.mp h
    trivial
  | cancelInLoop timerId =>
    simp only [request] at h
    split at h
    · cases h
      trivial
    · cases h
  | handleRead now => exact absurd rfl (hread now)
  | run =>
    simp only [request] at h
    split at h
    · cases h
      trivial
    · cases h
  | reset => exact absurd rfl hreset
  | _ => cases h

/-- Until its `reset`, a `handleRead` goes on and no other one starts. -/
theorem Inv.inner_of_batch {w w' : TimerWorld} {es : List TimerEvent} (h : w.Inv)
    (hbatch : w.batch ≠ none) (hreset : .reset ∉ es) (hrun : Run TimerWorld.step w es w') :
    ∀ label ∈ labels TimerWorld.step request w es, label.Inner := by
  induction es generalizing w with
  | nil =>
    intro label hin
    cases hin
  | cons e es ih =>
    obtain ⟨v, hv, hrest⟩ := hrun.uncons
    rw [List.mem_cons, not_or] at hreset
    rcases h.step_cases hv with ⟨hlegal, hstepped⟩
    have hbatch' : v.batch ≠ none := by
      cases hstepped with
      | handleRead _ _ => simp
      | run _ => simp
      | reset _ _ _ => exact absurd rfl hreset.1
      | _ => exact hbatch
    rw [labels_cons hv]
    intro label hin
    rcases List.mem_append.mp hin with hlabel | hlater
    · refine request_inner (Option.mem_toList.mp hlabel) ?_ (Ne.symm hreset.1)
      rintro now rfl
      exact hbatch (of_decide_eq_true hlegal)
    · exact ih (h.step hv) hbatch' hreset.2 hrest label hlater

/-- **A whole batch**, read off the scheduler's. -/
theorem Refines.batchLaw {w w' : TimerWorld} {a : TimerScheduler} {now : Timestamp}
    {es : List TimerEvent} (h : w.Refines a) (hinv : w.Inv) (hreset : .reset ∉ es)
    (hrun : Run TimerWorld.step w (.handleRead now :: es ++ [.reset]) w') :
    w.BatchLaw now es w' := by
  obtain ⟨a', hspec, h'⟩ := refines_run hinv h hrun
  obtain ⟨u, hbatch, hlast⟩ := hrun.split
  obtain ⟨v, hv, hcallbacks⟩ := hbatch.uncons
  have hinner := (hinv.step hv).inner_of_batch (hinv.batch_of_handleRead hv) hreset hcallbacks
  have hlabels : labels TimerWorld.step request w (.handleRead now :: es) =
      .begin_ now :: labels TimerWorld.step request v es := labels_cons hv
  have hfinish : labels TimerWorld.step request u [.reset] = [.finish] := by
    rw [labels_cons (hlast.step_of_one)]
    rfl
  rw [labels_append hbatch, hlabels, hfinish] at hspec
  obtain ⟨horder, hmembers, hothers⟩ := batch_law hinner hspec
  have hcalls : w.calls (.handleRead now :: es) =
      Label.ran (labels TimerWorld.step request v es) := by
    rw [calls, hlabels]
    rfl
  refine ⟨?_, ?_, ?_, ?_, ?_⟩
  · rw [hcalls]
    exact horder.nodup
  · intro sequence
    rw [hcalls, horder.mem_iff]
    simp only [h.active]
  · rw [hcalls]
    refine horder.sorted.imp ?_
    intro sequence later hle job job' hjob hjob'
    exact hle job job' ((h.active _ _).mpr hjob) ((h.active _ _).mpr hjob')
  · intro timerId hissued hcalled job hjob job'
    rw [hcalls] at hcalled
    rw [← h'.active, hmembers _ hcalled job ((h.active _ _).mpr hjob),
      (hinv.step hv).cancel_mem_labels hcallbacks ((hinv.step_cases hv).2.issued_subset hissued)]
  · intro sequence hcalled hadd hcancel job
    rw [hcalls] at hcalled
    rw [hlabels] at hadd hcancel
    rw [← h'.active, hothers sequence hcalled
      (fun job hin => hadd job (List.mem_cons_of_mem _ hin))
      (fun hin => hcancel (List.mem_cons_of_mem _ hin)), h.active]

/-! ### What a cancel does -/

/-- A cancel of `timerId` from `w` to `w'` leaves the timers with other numbers alone. -/
structure CancelLaw (w : TimerWorld) (timerId : TimerId) (w' : TimerWorld) : Prop where
  heap : ∀ timer t, w.queue.heap timer = some t → t.sequence_ ≠ timerId.sequence_ →
    w'.queue.heap timer = some t
  active : ∀ x : ActiveTimer, x.sequence ≠ timerId.sequence_ →
    (x ∈ w'.queue.activeTimers_ ↔ x ∈ w.queue.activeTimers_)
  timers : ∀ timer t, w.queue.heap timer = some t → t.sequence_ ≠ timerId.sequence_ →
    ∀ time, (⟨time, timer⟩ ∈ w'.queue.timers_ ↔ ⟨time, timer⟩ ∈ w.queue.timers_)
  canceling : ∀ x : ActiveTimer, x.sequence ≠ timerId.sequence_ →
    (x ∈ w'.queue.cancelingTimers_ ↔ x ∈ w.queue.cancelingTimers_)
  subset : ∀ x ∈ w'.queue.activeTimers_, x ∈ w.queue.activeTimers_

theorem Stepped.cancelLaw {w w' : TimerWorld} {timerId : TimerId}
    (h : Stepped w (.cancelInLoop timerId) w') : w.CancelLaw timerId w' := by
  cases h with
  | @cancelActive _ t _ ht hsequence hactive =>
    have hother : ∀ timer u, w.queue.heap timer = some u → u.sequence_ ≠ timerId.sequence_ →
        timer ≠ timerId.timer_ := by
      rintro timer u hu hne rfl
      cases hu.symm.trans ht
      exact hne hsequence
    refine ⟨?_, ?_, ?_, fun _ _ => Iff.rfl, fun x hx => (OrdSet.mem_erase.mp hx).2⟩
    · intro timer u hu hne
      exact (Function.update_of_ne (hother timer u hu hne) ..).trans hu
    · intro x hne
      refine OrdSet.mem_erase.trans (and_iff_right ?_)
      rintro rfl
      exact hne hsequence
    · intro timer u hu hne time
      refine OrdSet.mem_erase.trans (and_iff_right ?_)
      intro heq
      exact hother timer u hu hne (congrArg Entry.second heq)
  | cancelInactive _ _ =>
    have hcanceling : ∀ x : ActiveTimer, x.sequence ≠ timerId.sequence_ →
        (x ∈ (w.queue.noted timerId).cancelingTimers_ ↔ x ∈ w.queue.cancelingTimers_) := by
      intro x hne
      apply TimerQueue.mem_noted_canceling
      rintro rfl
      exact hne rfl
    obtain ⟨canceling, hnoted⟩ := w.queue.noted_eq timerId
    rw [hnoted] at hcanceling ⊢
    exact ⟨fun _ _ ht _ => ht, fun _ _ => Iff.rfl, fun _ _ _ _ _ => Iff.rfl, hcanceling,
      fun _ hx => hx⟩

end TimerWorld

/-- **A timer queue refines the scheduler keyed by sequence number.**  No run faults; every
    run is one of the scheduler; a whole `handleRead` runs what was due and renews it; and
    a cancel touches no timer but its own. -/
theorem timer_queue_refines_scheduler {es : List TimerEvent} {w : TimerWorld}
    (hrun : Run TimerWorld.step TimerWorld.start es w) :
    (∀ e, w.legal e = true → ∃ w', w.step e = some w') ∧
      (∃ a, SpecRun TimerScheduler.Step Scheduler.empty
        (labels TimerWorld.step TimerWorld.request TimerWorld.start es) a ∧ w.Refines a) ∧
      (∀ now callbacks w', .reset ∉ callbacks →
        Run TimerWorld.step w (.handleRead now :: callbacks ++ [.reset]) w' →
        w.BatchLaw now callbacks w') ∧
      (∀ timerId w', w.step (.cancelInLoop timerId) = some w' → w.CancelLaw timerId w') := by
  have hinv : w.Inv :=
    hrun.invariant (fun _ _ _ hinv hstep => hinv.step hstep) TimerWorld.start_inv
  obtain ⟨a, hspec, hrefines⟩ :=
    TimerWorld.refines_run TimerWorld.start_inv TimerWorld.start_refines hrun
  refine ⟨?_, ⟨a, hspec, hrefines⟩, ?_, ?_⟩
  · intro e hlegal
    rcases hinv.performs hlegal with ⟨w', hperform, _⟩
    refine ⟨w', ?_⟩
    rw [TimerWorld.step, if_pos hlegal, hperform]
    rfl
  · intro now callbacks w' hreset hbatch
    exact hrefines.batchLaw hinv hreset hbatch
  · intro timerId w' hstep
    exact (hinv.step_cases hstep).2.cancelLaw

/-- A timer of fifty microseconds fires at 120 and is active again for 170. -/
theorem timer_queue_refines_scheduler_repeating :
    ∃ w w', Run TimerWorld.step TimerWorld.start
        [.newTimer 4096 100 ⟨true, 50⟩, .addTimerInLoop 4096] w ∧
      Run TimerWorld.step w [.handleRead 120, .run, .reset] w' ∧
      w.BatchLaw 120 [.run] w' ∧ w'.queue.Holds 1 ⟨170, ⟨true, 50⟩, true⟩ := by
  have hrun : Run TimerWorld.step TimerWorld.start
      [.newTimer 4096 100 ⟨true, 50⟩, .addTimerInLoop 4096] _ := rfl
  obtain ⟨_, _, hbatches, _⟩ := timer_queue_refines_scheduler hrun
  have hbatch := hbatches 120 [.run] _ (by decide) rfl
  refine ⟨_, _, hrun, rfl, hbatch, ?_⟩
  refine (hbatch.renewed ⟨4096, 1⟩ (List.mem_singleton.mpr rfl) (by decide) ⟨100, ⟨true, 50⟩, true⟩
    ?_ _).mpr ⟨by decide, rfl⟩
  exact ⟨4096, _, OrdSet.mem_insert.mpr (Or.inl rfl), rfl, rfl, rfl⟩

end Muduo
