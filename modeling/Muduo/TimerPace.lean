import Muduo.SchedulerPace
import Muduo.TimerDeadline
import Muduo.TimerRefinement

/-!
# When timers run

Every timer is added once, under a number of its own, so the scheduler that a queue stands
for gets each key at most once.  No callback runs before the expiration of its timer; a
one-shot timer runs at most once; and a repeating one waits for its interval after each
run, however late `handleRead` was.
-/

namespace Muduo

open Transitions Scheduling

namespace TimerWorld

/-- The numbers added so far differ, and those of the timers still to be added are not
    among them. -/
structure AddsOnce (ls : List (Label Nat Timestamp Job)) (w : TimerWorld) : Prop where
  nodup : (Label.added ls).Nodup
  le : ∀ sequence ∈ Label.added ls, sequence ≤ w.s_numCreated_
  waiting : ∀ timer ∈ w.created, ∀ t, w.queue.heap timer = some t →
    t.sequence_ ∉ Label.added ls

/-- A step that adds no timer and creates none. -/
theorem AddsOnce.frame {ls : List (Label Nat Timestamp Job)} {l : Option (Label Nat Timestamp Job)}
    {w w' : TimerWorld} (h : w.AddsOnce ls) (hlabel : Label.added l.toList = [])
    (hnumber : w'.s_numCreated_ = w.s_numCreated_) (hcreated : w'.created = w.created)
    (hheap : ∀ timer t', w'.queue.heap timer = some t' →
      ∃ t, w.queue.heap timer = some t ∧ t.sequence_ = t'.sequence_) :
    w'.AddsOnce (ls ++ l.toList) := by
  have hadded : Label.added (ls ++ l.toList) = Label.added ls := by
    rw [Label.added, List.filterMap_append]
    exact (congrArg (Label.added ls ++ ·) hlabel).trans (List.append_nil _)
  refine ⟨hadded ▸ h.nodup, ?_, ?_⟩
  · rw [hadded, hnumber]
    exact h.le
  · rw [hadded, hcreated]
    intro timer hin t' ht'
    obtain ⟨t, ht, hsequence⟩ := hheap timer t' ht'
    rw [← hsequence]
    exact h.waiting timer hin t ht

theorem AddsOnce.step {ls : List (Label Nat Timestamp Job)} {w w' : TimerWorld} {e : TimerEvent}
    (h : w.AddsOnce ls) (hinv : w.Inv) (hstep : w.step e = some w') :
    w'.AddsOnce (ls ++ (w.request e).toList) := by
  have hsame : ∀ timer t', w.queue.heap timer = some t' →
      ∃ t, w.queue.heap timer = some t ∧ t.sequence_ = t'.sequence_ :=
    fun _ t' ht' => ⟨t', ht', rfl⟩
  cases (hinv.step_cases hstep).2 with
  | @newTimer timer when_ interval hpos hlt hfree =>
    simp only [request, Option.toList_none, List.append_nil]
    refine ⟨h.nodup, fun sequence hin => Nat.le_succ_of_le (h.le sequence hin), ?_⟩
    intro other hin t ht
    by_cases hother : other = timer
    · subst hother
      simp only [TimerQueue.store, Function.update_self, Option.some.injEq] at ht
      subst ht
      intro hadded
      exact absurd (h.le _ hadded) (Nat.not_succ_le_self _)
    · simp only [TimerQueue.store, Function.update_of_ne hother] at ht
      exact h.waiting other ((List.mem_cons.mp hin).resolve_left hother) t ht
  | newElsewhere =>
    simp only [request, Option.toList_none, List.append_nil]
    exact ⟨h.nodup, fun sequence hin => Nat.le_succ_of_le (h.le sequence hin), h.waiting⟩
  | @addTimerInLoop timer t huser hcreated ht hnew hout =>
    have hfresh := h.waiting timer hcreated t ht
    have hadded : Label.added (ls ++ (w.request (.addTimerInLoop timer)).toList) =
        Label.added ls ++ [t.sequence_] := by
      simp [Label.added, request, ht]
    refine ⟨?_, ?_, ?_⟩
    · rw [hadded]
      exact List.nodup_append_comm.mp (List.nodup_cons.mpr ⟨hfresh, h.nodup⟩)
    · rw [hadded]
      intro sequence hin
      rcases List.mem_append.mp hin with hold | hlast
      · exact h.le sequence hold
      · rw [List.mem_singleton.mp hlast]
        exact (hinv.issued_le _ (hinv.numbered timer t ht).2).2
    · rw [hadded]
      intro other hin u hu hmem
      obtain ⟨hother, hold⟩ := (List.Nodup.mem_erase_iff hinv.distinct).mp hin
      rcases List.mem_append.mp hmem with hbefore | hlast
      · exact h.waiting other hold u hu hbefore
      · exact hother (hinv.same_timer hu ht (List.mem_singleton.mp hlast))
  | @cancelActive timerId t huser ht hsequence hactive =>
    refine h.frame ?_ rfl rfl ?_
    · simp only [request]
      split <;> rfl
    · intro timer t' ht'
      exact ⟨t', (TimerQueue.removed_heap_origin ht').2, rfl⟩
  | @cancelInactive timerId huser hactive =>
    refine h.frame ?_ rfl rfl ?_
    · simp only [request]
      split <;> rfl
    · simp only [TimerQueue.noted_heap]
      exact hsame
  | timerfdExpires hfd => exact h.frame rfl rfl rfl hsame
  | handleRead hbatch hbegun =>
    refine h.frame rfl rfl rfl ?_
    simp only [hbegun.heap_eq]
    exact hsame
  | run hbatch =>
    refine h.frame ?_ rfl rfl hsame
    simp only [request, hbatch]
    rfl
  | reset hbatch hreset hput =>
    refine h.frame rfl rfl rfl ?_
    intro timer t' ht'
    have hconsistent := hinv.consistent
    rw [expired_batch hbatch] at hconsistent
    exact hput.heap_origin (hconsistent.of_eq rfl rfl rfl) ht'

theorem addsOnce_run {es : List TimerEvent} {w : TimerWorld}
    (hrun : Run TimerWorld.step TimerWorld.start es w) :
    w.AddsOnce (labels TimerWorld.step TimerWorld.request TimerWorld.start es) := by
  refine (hrun.history (I := fun es w => w.Inv ∧
    w.AddsOnce (labels TimerWorld.step TimerWorld.request TimerWorld.start es)) ?_ ?_).2
  · refine ⟨start_inv, List.nodup_nil, ?_, ?_⟩
    · intro sequence hin
      cases hin
    · intro timer hin
      cases hin
  · rintro fs u e v hfs ⟨hinv, hadds⟩ hstep
    refine ⟨hinv.step hstep, ?_⟩
    rw [labels_append hfs]
    have hlast : labels TimerWorld.step TimerWorld.request u [e] = (u.request e).toList := by
      rw [labels_cons hstep]
      exact List.append_nil _
    rw [hlast]
    exact hadds.step hinv hstep

end TimerWorld

/-- The sum is the mathematical one when an `int64_t` holds it. -/
theorem addTime_of_fits {now : Timestamp} {interval : Interval}
    (hfits : IsInt64 (now + interval.micros)) : addTime now interval = now + interval.micros := by
  unfold IsInt64 at hfits
  exact Int.bmod_eq_of_le (by omega) (by omega)

/-- **Timers keep their pace.**  In every run of adds, cancels and batches, with callbacks
    that add and cancel, a timer that was never added does not run.  One that was added does
    not run before its expiration, at most once if it does not repeat, and otherwise, after
    each run, not before its interval has passed: not before `addTime`, a sum of `int64_t`,
    says so, which is the sum itself unless it overflows. -/
theorem timers_keep_their_pace {es : List TimerEvent} {w : TimerWorld}
    (hrun : Run TimerWorld.step TimerWorld.start es w) (sequence : Nat) :
    let ls := labels TimerWorld.step TimerWorld.request TimerWorld.start es
    let times := Label.firings sequence none ls
    (sequence ∉ Label.added ls → times = []) ∧
      ∀ job, .add sequence job ∈ ls →
        (∀ first ∈ times.head?, job.expiration ≤ first) ∧
        (job.repeats = false → times.length ≤ 1) ∧
        (times.IsChain fun now later => addTime now job.interval ≤ later) ∧
        times.IsChain fun now later =>
          IsInt64 (now + job.interval.micros) → now + job.interval.micros ≤ later := by
  obtain ⟨a, hspec, _⟩ :=
    TimerWorld.refines_run TimerWorld.start_inv TimerWorld.start_refines hrun
  obtain ⟨hnever, hpaced⟩ :=
    firings_paced sequence (TimerWorld.addsOnce_run hrun).nodup hspec
  refine ⟨hnever, ?_⟩
  intro job hin
  have hpace := hpaced job hin
  have hnext : ∀ (job₁ : Job) (now : Timestamp) (job₂ : Job), job₁.interval = job.interval →
      Job.renew now job₁ = some job₂ →
        job₂.interval = job.interval ∧ job₂.expiration = addTime now job.interval := by
    intro job₁ now job₂ hinterval hrenew
    simp only [Job.renew, Option.ite_none_right_eq_some, Option.some.injEq] at hrenew
    obtain ⟨_, rfl⟩ := hrenew
    exact ⟨hinterval, by simp only [hinterval]⟩
  obtain ⟨hfirst, hchain⟩ := hpace.chain (fun now => addTime now job.interval)
    (fun job' => job'.interval = job.interval) rfl hnext
  refine ⟨hfirst, ?_, hchain, hchain.imp ?_⟩
  · intro honce
    apply hpace.length_le
    intro now
    simp [Job.renew, honce]
  · intro now later hpassed hfits
    rwa [addTime_of_fits hfits] at hpassed

/-- A timer of fifty microseconds for 100 runs at 120 and, once 170 has come, at 200. -/
theorem timers_keep_their_pace_repeating :
    let ls := labels TimerWorld.step TimerWorld.request TimerWorld.start
      [.newTimer 4096 100 ⟨true, 50⟩, .addTimerInLoop 4096, .handleRead 120, .run, .reset,
        .handleRead 160, .reset, .handleRead 200, .run, .reset]
    Label.firings 1 none ls = [120, 200] ∧
      (Label.firings 1 none ls).IsChain fun now later => addTime now ⟨true, 50⟩ ≤ later := by
  have hrun : Run TimerWorld.step TimerWorld.start
      [.newTimer 4096 100 ⟨true, 50⟩, .addTimerInLoop 4096, .handleRead 120, .run, .reset,
        .handleRead 160, .reset, .handleRead 200, .run, .reset] _ := rfl
  obtain ⟨_, hadded⟩ := timers_keep_their_pace hrun 1
  exact ⟨by decide, (hadded ⟨100, ⟨true, 50⟩, true⟩ (List.mem_cons_self ..)).2.2.1⟩

end Muduo
