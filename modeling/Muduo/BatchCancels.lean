import Muduo.TimerRefinement
import Muduo.TimerThreads

/-!
# A cancel during a batch

When the first callback of a batch runs, `getExpired` has taken all its timers out of
`activeTimers_`.  A cancel of one of them only enters `cancelingTimers_`, and `reset` is
the one place that looks there, after the last callback.  So the cancel takes effect when
the batch is over: the callback is still called in its turn, and the timer is not put
back, whether it repeats or not.
-/

namespace Muduo

open Transitions Scheduling

namespace TimerWorld

/-- The `handleRead` that starts in `w` has come to `u`, and the callback of `timerId` is
    among those its batch still has to call. -/
structure Awaits (w : TimerWorld) (now : Timestamp) (callbacks : List TimerEvent)
    (timerId : TimerId) (u : TimerWorld) : Prop where
  run : Run step w (.handleRead now :: callbacks) u
  unfinished : .reset ∉ callbacks
  waits : ∃ b it, u.batch = some b ∧ it ∈ b.rest ∧ it.second = timerId.timer_ ∧
    u.queue.sequenceAt it.second = timerId.sequence_

/-! ### The rest of a batch -/

/-- The callbacks of a batch are those of different timers. -/
theorem Inv.rest_nodup {w : TimerWorld} (h : w.Inv) {b : Batch} (hbatch : w.batch = some b) :
    (b.rest.map fun it => w.queue.sequenceAt it.second).Nodup := by
  have hdistinct := h.consistent.distinct
  rw [expired_batch hbatch] at hdistinct
  have hrest : (b.rest.map Entry.second).Nodup :=
    hdistinct.sublist ((h.rest b hbatch).sublist.map Entry.second)
  rw [show (fun it : Entry => w.queue.sequenceAt it.second)
    = w.queue.sequenceAt ∘ Entry.second from rfl, ← List.map_map]
  refine hrest.map_on ?_
  intro timer htimer other hother hsame
  obtain ⟨it, hit, rfl⟩ := List.mem_map.mp htimer
  obtain ⟨it', hit', rfl⟩ := List.mem_map.mp hother
  rcases h.expired_timer hbatch ((h.rest b hbatch).subset hit) with ⟨t, ht, _⟩
  rcases h.expired_timer hbatch ((h.rest b hbatch).subset hit') with ⟨t', ht', _⟩
  rw [TimerQueue.sequenceAt_eq ht, TimerQueue.sequenceAt_eq ht'] at hsame
  exact h.same_timer ht ht' hsame

/-- Whatever its callbacks do, a batch goes on to call all that are left, in order. -/
theorem Refines.rest_calls {w w' : TimerWorld} {a : TimerScheduler} {es : List TimerEvent}
    {b : Batch} (h : w.Refines a) (hinv : w.Inv) (hbatch : w.batch = some b)
    (hreset : .reset ∉ es) (hrun : Run step w (es ++ [.reset]) w') :
    w.calls es = b.rest.map fun it => w.queue.sequenceAt it.second := by
  obtain ⟨a', hspec, _⟩ := refines_run hinv h hrun
  obtain ⟨u, hcallbacks, hlast⟩ := hrun.split
  have hopen : w.batch ≠ none := by
    rw [hbatch]
    exact Option.some_ne_none b
  have hinner := hinv.inner_of_batch hopen hreset hcallbacks
  have hfinish : labels step request u [.reset] = [.finish] := by
    rw [labels_cons (hlast.step_of_one)]
    rfl
  rw [labels_append hcallbacks, hfinish] at hspec
  rcases h.batch b hbatch with ⟨β, hβ, hrefines⟩
  have hinactive : ∀ key, β.members key ≠ none → a.active key = none := by
    intro key hkey
    obtain ⟨job, hjob⟩ := Option.ne_none_iff_exists'.mp hkey
    obtain ⟨e, he, t, ht, rfl, _⟩ := (hrefines.members key job).mp hjob
    rcases hinv.expired_timer hbatch he with ⟨u, hu, _, hout⟩
    cases hu.symm.trans ht
    apply h.inactive
    intro job' hholds
    exact hout ((hinv.holds_iff ht).mp hholds).1
  rw [calls, (rest_law hβ hinactive hinner hspec).1, hrefines.todo]

/-! ### Afterwards -/

theorem Inv.run_evolves {w w' : TimerWorld} {es : List TimerEvent} (h : w.Inv)
    (hrun : Run TimerWorld.step w es w') : w'.Inv ∧ w.Evolves w' := by
  refine hrun.invariant (I := fun v => v.Inv ∧ w.Evolves v) ?_ ⟨h, Evolves.refl w⟩
  rintro v e v' ⟨hinv, hevolves⟩ hstep
  have hstepped := (hinv.step_cases hstep).2
  exact ⟨hinv.stepped hstepped, hevolves.trans (hstepped.evolves hinv)⟩

/-- A callback is that of a timer that exists. -/
theorem Inv.alive_of_run {w : TimerWorld} {e : TimerEvent} {timerId : TimerId} (h : w.Inv)
    (hissued : timerId ∈ w.issued) (hrequest : w.request e = some (.run timerId.sequence_)) :
    w.Alive timerId := by
  cases e with
  | run =>
    simp only [request] at hrequest
    split at hrequest
    · rename_i now expired it rest hbatch
      simp only [Option.some.injEq, Label.run.injEq] at hrequest
      have hin : it ∈ expired := (h.rest _ hbatch).subset (List.mem_cons_self ..)
      rcases h.expired_timer hbatch hin with ⟨t, ht, _⟩
      rw [TimerQueue.sequenceAt_eq ht] at hrequest
      refine ⟨t, ?_, hrequest⟩
      rw [← h.issued_timer hissued ht hrequest]
      exact ht
    · cases hrequest
  | addTimerInLoop timer =>
    obtain ⟨t, _, ht⟩ := Option.map_eq_some_iff.mp hrequest
    cases ht
  | cancelInLoop other =>
    simp only [request] at hrequest
    split at hrequest <;> cases hrequest
  | _ => cases hrequest

/-- A timer that no longer exists is not called again. -/
theorem Inv.not_called {w w' : TimerWorld} {es : List TimerEvent} {timerId : TimerId} (h : w.Inv)
    (hissued : timerId ∈ w.issued) (hgone : ¬ w.Alive timerId)
    (hrun : Run TimerWorld.step w es w') :
    timerId.sequence_ ∉ w.calls es := by
  intro hcalled
  obtain ⟨pre, e, post, v, rfl, hpre, hrequest⟩ := (mem_labels hrun).mp (Label.mem_ran.mp hcalled)
  obtain ⟨hinv, hsubset⟩ := h.run_issued hpre
  have halive := hinv.alive_of_run (hsubset hissued) hrequest
  exact hgone ((h.run_evolves hpre).2.alive timerId (h.issued_le timerId hissued).2 halive)

theorem Inv.idle_of_reset {w w' : TimerWorld} (h : w.Inv)
    (hstep : TimerWorld.step w .reset = some w') : w'.batch = none := by
  cases (h.step_cases hstep).2
  rfl

/-- A cancel that finds its timer in the batch dooms it. -/
theorem Inv.cancel_awaited {u v : TimerWorld} {timerId : TimerId} {b : Batch} {it : Entry}
    (h : u.Inv) (hbatch : u.batch = some b) (hit : it ∈ b.rest)
    (htimer : it.second = timerId.timer_)
    (hsequence : u.queue.sequenceAt it.second = timerId.sequence_)
    (hstep : TimerWorld.step u (.cancelInLoop timerId) = some v) :
    v.Doomed timerId ∧ timerId ∈ v.issued := by
  rcases h.expired_timer hbatch ((h.rest b hbatch).subset hit) with ⟨t, ht, _⟩
  rw [TimerQueue.sequenceAt_eq ht] at hsequence
  rw [htimer] at ht
  have hwaiting : ¬ u.Waiting timerId := by
    rintro ⟨_, hcreated⟩
    rcases h.created _ hcreated with ⟨_, _, _, hfree⟩
    apply hfree
    rw [expired_batch hbatch, ← htimer]
    exact List.mem_map_of_mem ((h.rest b hbatch).subset hit)
  have hissued : timerId ∈ u.issued := by
    have hnumbered := (h.numbered _ t ht).2
    rw [hsequence] at hnumbered
    exact hnumbered
  have hstepped := (h.step_cases hstep).2
  exact ⟨h.doomed_of_cancel hwaiting hstepped, hstepped.issued_subset hissued⟩

end TimerWorld

/-- **A cancel takes effect after the batch.**  Let a callback of a batch cancel a timer
    whose own callback the batch has still to call.  The batch goes on to call every
    callback that is left, in order and this one exactly once; when it is over the timer
    is gone, and no later step calls it. -/
theorem batch_cancel_takes_effect_afterwards {es callbacks : List TimerEvent}
    {w u : TimerWorld} {now : Timestamp} {timerId : TimerId}
    (hrun : Run TimerWorld.step TimerWorld.start es w)
    (hawaits : w.Awaits now callbacks timerId u) :
    ∃ b, u.batch = some b ∧ ∀ others v, .reset ∉ others →
      Run TimerWorld.step u (.cancelInLoop timerId :: others ++ [.reset]) v →
        u.calls (.cancelInLoop timerId :: others)
            = (b.rest.map fun it => u.queue.sequenceAt it.second) ∧
          (u.calls (.cancelInLoop timerId :: others)).count timerId.sequence_ = 1 ∧
          ∀ later x, Run TimerWorld.step v later x → timerId.sequence_ ∉ v.calls later := by
  rcases hawaits with ⟨hbatchrun, _, b, it, hbatch, hit, htimer, hsequence⟩
  have hstart : TimerWorld.Inv w :=
    hrun.invariant (fun _ _ _ hinv hstep => hinv.step hstep) TimerWorld.start_inv
  have hinv : u.Inv := (hstart.run_evolves hbatchrun).1
  obtain ⟨_, _, hrefines⟩ := TimerWorld.refines_run TimerWorld.start_inv TimerWorld.start_refines
    (hrun.append hbatchrun)
  refine ⟨b, hbatch, ?_⟩
  intro others v hothers hrest
  have hnoreset : .reset ∉ (.cancelInLoop timerId :: others : List TimerEvent) := by
    simpa using hothers
  have hcalls := hrefines.rest_calls hinv hbatch hnoreset hrest
  refine ⟨hcalls, ?_, ?_⟩
  · rw [hcalls]
    apply List.count_eq_one_of_mem (hinv.rest_nodup hbatch)
    rw [← hsequence]
    exact List.mem_map.mpr ⟨it, hit, rfl⟩
  · intro later x hlater
    obtain ⟨u', hcancel, hafter⟩ := hrest.uncons
    obtain ⟨y, hcallbacks, hreset⟩ := hafter.split
    rcases hinv.cancel_awaited hbatch hit htimer hsequence hcancel with ⟨hdoomed, hissued⟩
    have hinv' : u'.Inv := hinv.step hcancel
    obtain ⟨hinv'', hevolves⟩ := hinv'.run_evolves hafter
    have hidle : v.batch = none := (hinv'.run_evolves hcallbacks).1.idle_of_reset hreset.step_of_one
    have hgone := (hevolves.doomed timerId (hinv'.issued_le timerId hissued).2 hdoomed).gone hidle
    exact hinv''.not_called ((hinv'.run_issued hafter).2 hissued) hgone hlater

/-- Two timers expire together; the callback of the first one cancels the second, which
    repeats. -/
theorem batch_cancel_two_timers : ∃ w u,
    Run TimerWorld.step TimerWorld.start
      [.newTimer 4096 100 ⟨false, 0⟩, .addTimerInLoop 4096, .newTimer 8192 100 ⟨true, 50⟩,
        .addTimerInLoop 8192] w ∧
      w.Awaits 200 [.run] ⟨8192, 2⟩ u ∧
      ∃ v, Run TimerWorld.step u [.cancelInLoop ⟨8192, 2⟩, .run, .reset] v := by
  refine ⟨_, _, rfl, ⟨rfl, by decide, ?_⟩, _, rfl⟩
  exact ⟨_, _, rfl, List.mem_singleton.mpr rfl, rfl, rfl⟩

theorem batch_cancel_takes_effect_afterwards_two_timers : ∃ u v,
    Run TimerWorld.step u [.cancelInLoop ⟨8192, 2⟩, .run, .reset] v ∧
      (u.calls [.cancelInLoop ⟨8192, 2⟩, .run]).count 2 = 1 ∧
      ∀ later x, Run TimerWorld.step v later x → 2 ∉ v.calls later := by
  obtain ⟨w, u, hrun, hawaits, v, hv⟩ := batch_cancel_two_timers
  obtain ⟨_, _, hafter⟩ := batch_cancel_takes_effect_afterwards hrun hawaits
  exact ⟨u, v, hv, (hafter [.run] v (by decide) hv).2⟩

/-- The timer that was cancelled is called all the same, in the batch that had taken it out. -/
theorem cancelled_timer_called_in_batch :
    ¬ ∀ (es callbacks later : List TimerEvent) (w u x : TimerWorld) (now : Timestamp)
        (timerId : TimerId), Run TimerWorld.step TimerWorld.start es w →
      w.Awaits now callbacks timerId u →
      Run TimerWorld.step u (.cancelInLoop timerId :: later) x →
      timerId.sequence_ ∉ u.calls (.cancelInLoop timerId :: later) := by
  intro hhonoured
  refine hhonoured
    [.newTimer 4096 100 ⟨false, 0⟩, .addTimerInLoop 4096, .newTimer 8192 100 ⟨false, 0⟩,
      .addTimerInLoop 8192] [.run] [.run] _ _ _ 200 ⟨8192, 2⟩ rfl ⟨rfl, by decide, ?_⟩ rfl ?_
  · exact ⟨_, _, rfl, List.mem_singleton.mpr rfl, rfl, rfl⟩
  · decide

end Muduo
