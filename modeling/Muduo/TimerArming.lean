import Muduo.TimerInvariants

/-!
# The timer descriptor covers the queue

A descriptor covers an expiration when it has expired or is armed no later.  Adds and
cancels keep every waiting timer covered.  `handleRead` disarms the descriptor when it
reads it, and arms it again only inside the loop of `reset` over the expired timers, and
only for a valid expiration.  So a batch that is empty leaves the descriptor disarmed:
the run lemma needs each `handleRead` to find an expired timer, or an unexpired
descriptor, or no timer at all.
-/

namespace Muduo

open Transitions

/-- The descriptor will wake the loop for a timer that expires at `time`. -/
def TimerFd.Covers (fd : TimerFd) (time : Timestamp) : Prop :=
  fd = .expired ∨ ∃ expiration, fd = .armed expiration ∧ expiration ≤ time

theorem TimerFd.Covers.mono {fd : TimerFd} {time later : Timestamp} (h : fd.Covers time)
    (hle : time ≤ later) : fd.Covers later := by
  rcases h with hexpired | ⟨expiration, harmed, hearly⟩
  · exact Or.inl hexpired
  · exact Or.inr ⟨expiration, harmed, le_trans hearly hle⟩

theorem TimerFd.covers_armed (time : Timestamp) : (TimerFd.armed time).Covers time :=
  Or.inr ⟨time, rfl, le_refl time⟩

namespace TimerQueue

/-- The descriptor covers the waiting timers whose expiration satisfies `P`. -/
def CoversWhere (P : Timestamp → Prop) (q : TimerQueue) : Prop :=
  ∀ it ∈ q.timers_, P it.first → q.timerfd_.Covers it.first

abbrev CoversAll (q : TimerQueue) : Prop := q.CoversWhere fun _ => True

/-- The waiting timers whose expiration `reset` would not arm the descriptor for. -/
abbrev CoversInvalid (q : TimerQueue) : Prop := q.CoversWhere fun time => time ≤ 0

theorem CoversWhere.mono {P Q : Timestamp → Prop} {q : TimerQueue} (h : q.CoversWhere P)
    (himp : ∀ time, Q time → P time) : q.CoversWhere Q := by
  intro it hit hQ
  exact h it hit (himp _ hQ)

theorem CoversAll.where_ {q : TimerQueue} (h : q.CoversAll) (P : Timestamp → Prop) :
    q.CoversWhere P :=
  h.mono fun _ _ => trivial

/-- Covering the earliest timer covers all. -/
theorem coversAll_of_first {q : TimerQueue}
    (h : ∀ it, q.timers_.first? = some it → q.timerfd_.Covers it.first) : q.CoversAll := by
  intro it hit _
  obtain ⟨first, hfirst⟩ := OrdSet.exists_first? hit
  exact (h first hfirst).mono (Entry.first_le_of_le (OrdSet.first?_le hfirst hit))

/-- An added timer is covered: the descriptor is armed for it, or an earlier timer with
    the same property is covered already. -/
theorem CoversWhere.add {P : Timestamp → Prop} {q : TimerQueue} {timer : TimerPtr} {t : Timer}
    (hP : ∀ time later, time ≤ later → P later → P time) (h : q.CoversWhere P) :
    CoversWhere P { q.inserted timer t with timerfd_ := q.fdAfterAdd timer t } := by
  by_cases hearliest : q.isEarliest t.expiration_ = true
  · have hall : CoversAll { q.inserted timer t with timerfd_ := q.fdAfterAdd timer t } := by
      apply coversAll_of_first
      intro it hfirst
      have hfd : q.fdAfterAdd timer t = .armed it.first := by
        have hfirst' : (q.inserted timer t).timers_.first? = some it := hfirst
        simp only [fdAfterAdd, hearliest, hfirst']
      show (q.fdAfterAdd timer t).Covers it.first
      rw [hfd]
      exact TimerFd.covers_armed it.first
    exact hall.where_ P
  · have hkept : q.fdAfterAdd timer t = q.timerfd_ := by
      simp only [fdAfterAdd, Bool.not_eq_true _ ▸ hearliest]
    intro it hit hPit
    show (q.fdAfterAdd timer t).Covers it.first
    rw [hkept]
    rcases OrdSet.mem_insert.mp hit with rfl | hold
    · simp only [isEarliest] at hearliest
      cases hfirst : q.timers_.first? with
      | none => simp [hfirst] at hearliest
      | some first =>
        have hle : first.first ≤ t.expiration_ := by simpa [hfirst] using hearliest
        exact (h first (OrdSet.first?_mem hfirst) (hP _ _ hle hPit)).mono hle
    · exact h it hold hPit

theorem CoversWhere.removed {P : Timestamp → Prop} {q : TimerQueue} (h : q.CoversWhere P)
    (timer : TimerPtr) (t : Timer) : (q.removed timer t).CoversWhere P := by
  intro it hit hP
  exact h it (OrdSet.mem_erase.mp hit).2 hP

/-! ### The loop of `reset` -/

/-- The repeating timers among the entries restart at a valid time. -/
def RestartsValid (q : TimerQueue) (entries : List Entry) (now : Timestamp) : Prop :=
  ∀ e ∈ entries, ∀ t, q.heap e.second = some t → t.repeat_ = true →
    valid (t.restart now).expiration_ = true

/-- A round of `reset` covers every timer: it arms the descriptor for the earliest one,
    unless that one has no valid expiration and was covered before. -/
theorem round_coversAll {q : TimerQueue} {now : Timestamp} {e : Entry} {batch : List Entry}
    {t : Timer} (nextExpire : Timestamp) (ht : q.heap e.second = some t)
    (hinvalid : q.CoversInvalid) (hrestarts : q.RestartsValid (e :: batch) now) :
    ((q.renewed now e.second t).rearmed
      ((q.renewed now e.second t).nextOf nextExpire)).CoversAll := by
  have hrenewed : (q.renewed now e.second t).CoversInvalid := by
    intro it hit hle
    simp only [renewed] at hit ⊢
    split at hit
    · rename_i hrenews
      rw [if_pos hrenews]
      rcases OrdSet.mem_insert.mp hit with rfl | hold
      · have hvalid := of_decide_eq_true (hrestarts e (List.mem_cons_self ..) t ht hrenews.1)
        exact absurd hvalid (not_lt.mpr hle)
      · exact hinvalid it hold hle
    · rename_i hrenews
      rw [if_neg hrenews]
      exact hinvalid it hit hle
  apply coversAll_of_first
  intro it hfirst
  have htimers : ∀ next, ((q.renewed now e.second t).rearmed next).timers_
      = (q.renewed now e.second t).timers_ := by
    intro next
    simp only [rearmed]
    split <;> rfl
  rw [htimers] at hfirst
  have hnext : (q.renewed now e.second t).nextOf nextExpire = it.first := by
    simp only [nextOf, hfirst]
  rw [hnext]
  by_cases hvalid : valid it.first = true
  · rw [rearmed, if_pos hvalid]
    exact TimerFd.covers_armed it.first
  · rw [rearmed, if_neg hvalid]
    apply hrenewed it (OrdSet.first?_mem hfirst)
    exact not_lt.mp (of_decide_eq_false (Bool.not_eq_true _ ▸ hvalid))

theorem resetItem_fold_coversAll {q q' : TimerQueue} {now nextExpire next : Timestamp}
    {entries : List Entry} (h : q.Consistent entries) (hinvalid : q.CoversInvalid)
    (hempty : entries = [] → q.CoversAll) (hrestarts : q.RestartsValid entries now)
    (hfold : entries.foldlM (resetItem now) (nextExpire, q) = .ok (next, q')) : q'.CoversAll := by
  induction entries generalizing q nextExpire with
  | nil =>
    cases hfold
    exact hempty rfl
  | cons e entries ih =>
    rcases h.taken e (List.mem_cons_self ..) with ⟨t, ht, _⟩
    have hround := round_coversAll nextExpire ht hinvalid hrestarts
    rw [List.foldlM_cons, resetItem_eq h ht] at hfold
    have hconsistent := rearmed_consistent
      ((q.renewed now e.second t).nextOf nextExpire) (renewed_consistent now t h)
    refine ih hconsistent (hround.where_ _) (fun _ => hround) ?_ hfold
    intro f hf u hu hrepeat
    apply hrestarts f (List.mem_cons_of_mem _ hf) u ?_ hrepeat
    have hother : f.second ≠ e.second := by
      intro hsame
      apply (List.nodup_cons.mp h.distinct).1
      rw [← hsame]
      exact List.mem_map_of_mem hf
    rw [← renewed_heap_other t hother]
    obtain ⟨fd, hfd⟩ := rearmed_eq (q.renewed now e.second t)
      ((q.renewed now e.second t).nextOf nextExpire)
    rw [hfd] at hu
    exact hu

end TimerQueue

/-! ### Runs -/

namespace TimerWorld

/-- Outside `handleRead`, the descriptor has expired or is armed no later than the
    earliest expiration. -/
def NeverStalled (w : TimerWorld) : Prop :=
  w.batch = none → ∀ it, w.queue.timers_.first? = some it → w.queue.timerfd_.Covers it.first

/-- A `handleRead` after which the descriptor is armed again or needs not be: the
    repeating timers it takes out restart at valid times, and it does not find the
    descriptor expired, or finds no timer, or finds an expired timer and leaves only
    timers with a valid expiration. -/
def Rearms (w : TimerWorld) : TimerEvent → Prop
  | .handleRead now =>
    w.queue.RestartsValid (w.queue.due now) now ∧
      (w.queue.timerfd_ ≠ .expired ∨ (∀ it, it ∉ w.queue.timers_) ∨
        w.queue.due now ≠ [] ∧ ∀ it ∈ w.queue.timers_, now < it.first → valid it.first = true)
  | _ => True

/-- Between batches all timers are covered; during one, those that `reset` will not arm
    the descriptor for, and all when `reset` has nothing to do. -/
structure Armed (w : TimerWorld) : Prop where
  idle : w.batch = none → w.queue.CoversAll
  empty : ∀ b, w.batch = some b → b.expired = [] → w.queue.CoversAll
  invalid : w.queue.CoversInvalid
  restarts : ∀ b, w.batch = some b → w.queue.RestartsValid b.expired b.now

theorem Armed.neverStalled {w : TimerWorld} (h : w.Armed) : w.NeverStalled := by
  intro hbatch it hfirst
  exact h.idle hbatch it (OrdSet.first?_mem hfirst) trivial

theorem start_armed : start.Armed := by
  have hall : start.queue.CoversAll := by
    intro it hit
    exact absurd hit (OrdSet.not_mem_empty it)
  refine ⟨fun _ => hall, fun _ _ _ => hall, hall.where_ _, ?_⟩
  intro b hb
  cases hb

/-- Code that runs during a batch is called from a callback, so the batch has an entry. -/
theorem batch_nonempty_of_user {w : TimerWorld} (huser : w.inUserCode = true) {b : Batch}
    (hbatch : w.batch = some b) : b.expired ≠ [] := by
  intro hnil
  simp [inUserCode, hbatch, hnil] at huser

theorem Armed.handleRead {w : TimerWorld} {now : Timestamp} {q : TimerQueue} (h : w.Armed)
    (hbatch : w.batch = none) (hbegun : w.queue.Begun now q)
    (hrearms : w.Rearms (.handleRead now)) :
    Armed { w with queue := q, batch := some ⟨now, w.queue.due now, w.queue.due now⟩ } := by
  rcases hrearms with ⟨hrestarts, hcase⟩
  have hkept : ∀ P, w.queue.timerfd_ ≠ .expired → q.CoversWhere P := by
    intro P hfd it hit _
    have hcovers := h.idle hbatch it ((hbegun.timers_iff it).mp hit).1 trivial
    rw [hbegun.timerfd_eq]
    simpa only [TimerQueue.readTimerfd, if_neg hfd] using hcovers
  have hnone : ∀ P, (∀ it, it ∉ w.queue.timers_) → q.CoversWhere P := by
    intro P hempty it hit
    exact absurd ((hbegun.timers_iff it).mp hit).1 (hempty it)
  refine ⟨?_, ?_, ?_, ?_⟩
  · intro hidle
    cases hidle
  · intro b hb hnil
    cases hb
    rcases hcase with hfd | hempty | ⟨hdue, _⟩
    · exact hkept _ hfd
    · exact hnone _ hempty
    · exact absurd hnil hdue
  · rcases hcase with hfd | hempty | ⟨_, hstaying⟩
    · exact hkept _ hfd
    · exact hnone _ hempty
    · intro it hit hle
      rcases (hbegun.timers_iff it).mp hit with ⟨hin, hlate⟩
      have hvalid := of_decide_eq_true (hstaying it hin hlate)
      exact absurd hvalid (not_lt.mpr hle)
  · intro b hb
    cases hb
    intro e he t ht
    rw [hbegun.heap_eq] at ht
    exact hrestarts e he t ht

theorem Armed.stepped {w w' : TimerWorld} {e : TimerEvent} (h : w.Armed) (hinv : w.Inv)
    (hrearms : w.Rearms e) (hstepped : Stepped w e w') : w'.Armed := by
  cases hstepped with
  | @newTimer timer when_ interval hpos hlt hfree =>
    refine ⟨h.idle, h.empty, h.invalid, ?_⟩
    intro b hb e he t ht
    apply h.restarts b hb e he t
    have hin : e ∈ w.expired := by
      rw [expired_batch (w := w) hb]
      exact he
    rcases hinv.consistent.taken e hin with ⟨u, hu, _⟩
    have hother : e.second ≠ timer := by
      intro hsame
      rw [hsame, hfree] at hu
      cases hu
    exact (Function.update_of_ne hother ..).symm.trans ht
  | newElsewhere => exact ⟨h.idle, h.empty, h.invalid, h.restarts⟩
  | addTimerInLoop huser _ _ _ _ =>
    refine ⟨?_, ?_, h.invalid.add fun _ _ hle hlater => le_trans hle hlater, h.restarts⟩
    · intro hbatch
      exact (h.idle hbatch).add fun _ _ _ _ => trivial
    · intro b hbatch hnil
      exact absurd hnil (batch_nonempty_of_user huser hbatch)
  | @cancelActive timerId t huser ht hsequence hactive =>
    refine ⟨?_, ?_, h.invalid.removed _ _, ?_⟩
    · intro hbatch
      exact (h.idle hbatch).removed _ _
    · intro b hbatch hnil
      exact absurd hnil (batch_nonempty_of_user huser hbatch)
    · intro b hb e he u hu
      apply h.restarts b hb e he u
      exact (TimerQueue.removed_heap_origin hu).2
  | cancelInactive _ _ =>
    obtain ⟨canceling, hnoted⟩ := w.queue.noted_eq _
    rw [hnoted]
    exact ⟨h.idle, h.empty, h.invalid, h.restarts⟩
  | timerfdExpires _ =>
    have hall : ∀ P, TimerQueue.CoversWhere P { w.queue with timerfd_ := .expired } :=
      fun _ _ _ _ => Or.inl rfl
    exact ⟨fun _ => hall _, fun _ _ _ => hall _, hall _, h.restarts⟩
  | handleRead hbatch hbegun => exact h.handleRead hbatch hbegun hrearms
  | @run now expired rest it hbatch =>
    refine ⟨?_, ?_, h.invalid, ?_⟩
    · intro hidle
      cases hidle
    · intro b hb
      cases hb
      exact h.empty ⟨now, expired, it :: rest⟩ hbatch
    · intro b hb
      cases hb
      exact h.restarts ⟨now, expired, it :: rest⟩ hbatch
  | @reset now expired q hbatch hreset hput =>
    have hconsistent := hinv.batch_consistent hbatch
    obtain ⟨⟨next, q'⟩, hfold, hok⟩ := bind_eq_ok.mp hreset
    cases hok
    have hall : q.CoversAll :=
      TimerQueue.resetItem_fold_coversAll hconsistent h.invalid (h.empty _ hbatch)
        (h.restarts _ hbatch) hfold
    refine ⟨fun _ => hall, fun _ _ _ => hall, hall.where_ _, ?_⟩
    intro b hb
    cases hb

/-- An expired descriptor, a waiting timer and no expired one: `handleRead` stalls. -/
theorem Inv.empty_batch_stalls {w w' w'' : TimerWorld} {now : Timestamp} (h : w.Inv)
    (hfd : w.queue.timerfd_ = .expired) {it : Entry} (hwaiting : it ∈ w.queue.timers_)
    (hdue : w.queue.due now = []) (hread : w.step (.handleRead now) = some w')
    (hreset : w'.step .reset = some w'') : ¬ w''.NeverStalled := by
  have hread' := (h.step_cases hread).2
  have hreset' := ((h.step hread).step_cases hreset).2
  cases hread' with
  | @handleRead _ q hbatch hbegun =>
    cases hreset' with
    | @reset _ expired q' hbatch' hend hput =>
      rw [hdue] at hbatch'
      cases hbatch'
      obtain ⟨⟨next, q''⟩, hfold, hok⟩ := bind_eq_ok.mp hend
      cases hfold
      cases hok
      have hstaying : it ∈ q.timers_ := by
        rw [hbegun.timers_iff]
        refine ⟨hwaiting, ?_⟩
        by_contra hearly
        have hin := (h.consistent.mem_due h.addressed).mpr ⟨hwaiting, not_lt.mp hearly⟩
        rw [hdue] at hin
        cases hin
      have hdisarmed : q.timerfd_ = .disarmed := by
        rw [hbegun.timerfd_eq, TimerQueue.readTimerfd, hfd]
        rfl
      intro hcovered
      obtain ⟨first, hfirst⟩ := OrdSet.exists_first? hstaying
      have hcovers : q.timerfd_.Covers first.first := hcovered rfl first hfirst
      rw [hdisarmed] at hcovers
      rcases hcovers with hexpired | ⟨expiration, harmed, _⟩
      · cases hexpired
      · cases harmed

end TimerWorld

/-- **Timers do not stall while `handleRead` re-arms.**  In every run whose `handleRead`
    steps all satisfy `Rearms`, in every state outside `handleRead` with a waiting timer,
    the descriptor has expired or is armed no later than the earliest expiration. -/
theorem timers_never_stall (es : List TimerEvent)
    (hrearms : Along TimerWorld.step TimerWorld.Rearms TimerWorld.start es) :
    Always TimerWorld.step TimerWorld.NeverStalled TimerWorld.start es := by
  have hinv : Always TimerWorld.step (fun w => w.Inv ∧ w.Armed) TimerWorld.start es := by
    refine always_of_along ?_ ⟨TimerWorld.start_inv, TimerWorld.start_armed⟩ hrearms
    rintro w e w' ⟨hinv, harmed⟩ hrearm hstep
    have hstepped := (hinv.step_cases hstep).2
    exact ⟨hinv.stepped hstepped, harmed.stepped hinv hrearm hstepped⟩
  exact hinv.mono fun _ h => h.2.neverStalled

/-- A timer of ten seconds fires, `handleRead` finds it expired, and `reset` arms the
    descriptor for the repeating timer that is left. -/
theorem timers_never_stall_two_timers :
    ∃ w, Run TimerWorld.step TimerWorld.start
        [.newTimer 4096 10000000 ⟨false, 0⟩, .addTimerInLoop 4096,
          .newTimer 8192 20000000 ⟨true, 5000000⟩, .addTimerInLoop 8192, .timerfdExpires,
          .handleRead 10000100, .run, .reset] w ∧
      w.queue.timers_.first? = some ⟨20000000, 8192⟩ ∧
      Always TimerWorld.step TimerWorld.NeverStalled TimerWorld.start
        [.newTimer 4096 10000000 ⟨false, 0⟩, .addTimerInLoop 4096,
          .newTimer 8192 20000000 ⟨true, 5000000⟩, .addTimerInLoop 8192, .timerfdExpires,
          .handleRead 10000100, .run, .reset] := by
  refine ⟨_, rfl, rfl, ?_⟩
  apply timers_never_stall
  iterate 5
    refine along_cons.mpr ⟨trivial, fun w hw => ?_⟩
    cases hw
  refine along_cons.mpr ⟨⟨?_, Or.inr (Or.inr ⟨List.cons_ne_nil _ _, ?_⟩)⟩, fun w hw => ?_⟩
  · intro e he t ht hrepeat
    rw [List.mem_singleton.mp he] at ht
    cases ht
    cases hrepeat
  · intro it hit hlate
    rcases List.mem_pair.mp hit with rfl | rfl
    · exact absurd hlate (by decide)
    · decide
  cases hw
  iterate 2
    refine along_cons.mpr ⟨trivial, fun w hw => ?_⟩
    cases hw
  exact along_nil

/-- A timer of ten seconds is cancelled, the descriptor that was armed for it expires,
    and the timer of twenty seconds waits with a disarmed descriptor. -/
theorem timers_stall_after_cancel :
    ∃ w, Run TimerWorld.step TimerWorld.start
      [.newTimer 4096 10000000 ⟨false, 0⟩, .addTimerInLoop 4096,
        .newTimer 8192 20000000 ⟨false, 0⟩, .addTimerInLoop 8192,
        .cancelInLoop ⟨4096, 1⟩, .timerfdExpires, .handleRead 10000100, .reset] w ∧
      ¬ w.NeverStalled := by
  refine ⟨_, rfl, ?_⟩
  intro hcovered
  have hcovers := hcovered rfl ⟨20000000, 8192⟩ rfl
  rcases hcovers with hexpired | ⟨expiration, harmed, _⟩
  · cases hexpired
  · cases harmed

end Muduo
