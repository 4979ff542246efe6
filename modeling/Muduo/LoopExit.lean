import Muduo.LoopStart

/-!
# Leaving `loop()`

After a `quit()` that comes when `loop()` has reset `quit_`, nothing stores `false` in it
again.  The loop's thread finishes the iteration it is in, with at most one more
`doPendingFunctors`, and returns.  It cannot sleep through the request: whoever stored
`quit_` while the thread was on its way into `poll` also writes `wakeupFd_`.  What is
queued after the last swap is never run.
-/

namespace Muduo

open Transitions

namespace EventLoop

variable {T F : Type} [DecidableEq T]

/-- `loop()` is running, or has returned, and has been told to quit. -/
def Stopping (s : EventLoop T F) : Prop := s.quit_ = true ∧ beforeReset s.pc = false

theorem Stopping.step {s t : EventLoop T F} {e : LoopEvent T F} (h : s.Stopping)
    (hstep : s.step e = some t) : t.Stopping :=
  (step_quit hstep).mpr (Or.inl h)

/-! ### The steps that are left -/

/-- How many steps the loop's thread has left when no channel and no functor come in. -/
def stepsLeft (s : EventLoop T F) : Nat :=
  match s.pc with
  | .constructed | .resetting | .exited => 0
  | .testing => 1
  | .executing => 2
  | .inFunctor | .swapping => 3
  | .calling => 4
  | .dispatching => 2 * s.activeChannels_.length + 5
  | .handling => 2 * s.activeChannels_.length + 6
  | .polling => 6
  | .clearing => 7

/-- Whether `doPendingFunctors` can still swap. -/
def swapsLeft (s : EventLoop T F) : Nat :=
  match s.pc with
  | .constructed | .resetting | .exited | .testing | .executing | .inFunctor => 0
  | _ => 1

/-- The channels that `poll` reports. -/
def reportedBy : LoopEvent T F → Nat
  | .pollReturns active => active.length
  | _ => 0

def reported (es : List (LoopEvent T F)) : Nat := (es.map reportedBy).sum

/-- The steps of the loop's thread itself. -/
def loopSteps (es : List (LoopEvent T F)) : Nat := es.countP fun e => (caller e).isNone

omit [DecidableEq T] in
theorem stepsLeft_le (s : EventLoop T F) : s.stepsLeft ≤ 2 * s.activeChannels_.length + 7 := by
  rw [stepsLeft]
  split <;> omega

/-- The steps so far and those left, with two for each functor that has been run. -/
structure Progress (s t : EventLoop T F) (steps channels : Nat) : Prop where
  steps_le : steps + t.stepsLeft + 2 * s.executed.length ≤
    s.stepsLeft + 2 * channels + 2 * t.executed.length
  swaps_le : t.swaps + t.swapsLeft ≤ s.swaps + s.swapsLeft

omit [DecidableEq T] in
theorem advance_progress {s t : EventLoop T F} (hquit : s.Stopping)
    (hadvance : s.advance = some t) : s.Progress t 1 0 := by
  obtain ⟨hquit, hreset⟩ := hquit
  rw [advance] at hadvance
  cases hpc : s.pc with
  | constructed | resetting =>
    rw [hpc] at hreset
    cases hreset
  | testing =>
    simp only [hpc, hquit, if_true, Option.some.injEq] at hadvance
    subst hadvance
    exact ⟨by simp [stepsLeft, hpc], by simp [swapsLeft, hpc]⟩
  | dispatching =>
    simp only [hpc] at hadvance
    split at hadvance
    all_goals
      rename_i hactive
      cases hadvance
      refine ⟨?_, by simp [swapsLeft, hpc, handleRead]⟩
      simp only [stepsLeft, hpc, hactive, handleRead, List.length_cons, List.length_nil]
      omega
  | executing =>
    simp only [hpc] at hadvance
    split at hadvance
    all_goals
      cases hadvance
      refine ⟨?_, by simp [swapsLeft, hpc]⟩
      simp only [stepsLeft, hpc, List.length_append, List.length_singleton]
      omega
  | polling | exited => simp [hpc] at hadvance
  | _ =>
    simp only [hpc, Option.some.injEq] at hadvance
    subst hadvance
    refine ⟨?_, by simp [swapsLeft, hpc, EventLoop.swap]⟩
    simp only [stepsLeft, hpc, EventLoop.swap]
    omega

theorem step_progress {s t : EventLoop T F} {e : LoopEvent T F} (hquit : s.Stopping)
    (hstep : s.step e = some t) :
    s.Progress t (loopSteps [e]) (reportedBy e) := by
  cases hcaller : caller e with
  | some thread =>
    have hcall := call_step hcaller hstep
    have hactive : t.activeChannels_ = s.activeChannels_ := by
      cases called_of_step hcaller hstep with
      | queueInLoop cb hmay => rfl
      | runInLoop cb hmay => rw [runInLoop]; split <;> rfl
      | queueTest hqueued => rw [queueTest]; split <;> rfl
      | quit hmay => rfl
      | quitTest hquitting => rw [quitTest]; split <;> rfl
      | wakeup hwaking => rfl
    have hsteps : t.stepsLeft = s.stepsLeft := by rw [stepsLeft, stepsLeft, hcall.pc, hactive]
    have hswaps : t.swapsLeft = s.swapsLeft := by rw [swapsLeft, swapsLeft, hcall.pc]
    refine ⟨?_, by rw [hswaps, hcall.swaps]⟩
    simp only [loopSteps, List.countP_singleton, hcaller, hsteps, hcall.executed,
      Option.isNone_some, Bool.false_eq_true, if_false]
    omega
  | none =>
    simp only [loopSteps, List.countP_singleton, hcaller, Option.isNone_none, if_true]
    cases looped_of_step hcaller hstep with
    | pollReturns active hpc hreadable =>
      refine ⟨?_, by simp [swapsLeft, hpc]⟩
      simp only [stepsLeft, hpc, reportedBy]
      omega
    | advance hidle hadvance => exact advance_progress hquit hadvance

theorem run_progress {s t : EventLoop T F} {es : List (LoopEvent T F)} (hquit : s.Stopping)
    (hrun : Run step s es t) : s.Progress t (loopSteps es) (reported es) := by
  induction es generalizing s with
  | nil =>
    cases hrun.eq_of_nil
    exact ⟨by simp [loopSteps, reported], le_refl _⟩
  | cons e es ih =>
    obtain ⟨u, hu, hrest⟩ := hrun.uncons
    obtain ⟨hfirst, hswap⟩ := step_progress hquit hu
    obtain ⟨hlast, hswap'⟩ := ih (hquit.step hu) hrest
    refine ⟨?_, hswap'.trans hswap⟩
    have hsteps : loopSteps (e :: es) = loopSteps [e] + loopSteps es := by
      rw [← List.singleton_append, loopSteps, List.countP_append]
      rfl
    have hreported : reported (e :: es) = reportedBy e + reported es := List.sum_cons
    omega

/-! ### No stop outside `poll` -/

/-- What the loop's thread can do next: go on in `loop()`, or in the call it makes there. -/
def nextSteps (s : EventLoop T F) : List (LoopEvent T F) :=
  [.advance, .queueTest s.threadId_, .quitTest s.threadId_, .wakeup s.threadId_]

omit [DecidableEq T] in
theorem advance_isSome {s : EventLoop T F} (hpolling : s.pc ≠ .polling)
    (hexited : s.pc ≠ .exited) : s.advance.isSome = true := by
  rw [advance]
  cases hpc : s.pc with
  | polling => exact absurd hpc hpolling
  | exited => exact absurd hpc hexited
  | dispatching =>
    simp only
    split <;> rfl
  | executing =>
    simp only
    split <;> rfl
  | _ => rfl

theorem exists_nextStep {s : EventLoop T F} (hpolling : s.pc ≠ .polling)
    (hexited : s.pc ≠ .exited) : ∃ e ∈ s.nextSteps, (s.step e).isSome = true := by
  cases hcall : s.calls s.threadId_ with
  | idle => exact ⟨.advance, by simp [nextSteps], by simp [step, advance_isSome, *]⟩
  | queued => exact ⟨.queueTest s.threadId_, by simp [nextSteps], by simp [step, hcall]⟩
  | quitting => exact ⟨.quitTest s.threadId_, by simp [nextSteps], by simp [step, hcall]⟩
  | waking | wakingQuit => exact ⟨.wakeup s.threadId_, by simp [nextSteps], by simp [step, hcall]⟩

/-! ### No sleep -/

/-- The thread has stored `quit_`, and its `wakeup()` is still to come. -/
def owesQuitWakeup (s : EventLoop T F) (thread : T) : Prop :=
  thread ≠ s.threadId_ ∧ (s.calls thread = .quitting ∨ s.calls thread = .wakingQuit)

/-- On its way into `poll` the loop's thread cannot miss that it has been told to quit. -/
def QuitNoticed (s : EventLoop T F) : Prop :=
  s.quit_ = true → s.pc = .clearing ∨ s.pc = .polling →
    s.wakeupFd_ ≠ 0 ∨ ∃ thread, s.owesQuitWakeup thread

omit [DecidableEq T] in
/-- A call that is not one of `quit` leaves those of other threads alone. -/
theorem QuitNoticed.call {s t : EventLoop T F} {thread : T} (h : s.QuitNoticed)
    (hcall : CallStep thread s t) (hquit : t.quit_ = s.quit_)
    (hcounter : s.wakeupFd_ ≠ 0 → t.wakeupFd_ ≠ 0)
    (hother : s.calls thread ≠ .quitting ∧ s.calls thread ≠ .wakingQuit) : t.QuitNoticed := by
  intro hq hpc
  rw [hcall.pc] at hpc
  rcases h (hquit ▸ hq) hpc with hreadable | ⟨other, hself, howes⟩
  · exact Or.inl (hcounter hreadable)
  · have hne : other ≠ thread := by
      rintro rfl
      exact howes.elim hother.1 hother.2
    refine Or.inr ⟨other, ?_, ?_⟩
    · rw [hcall.threadId_]
      exact hself
    · rw [hcall.others other hne]
      exact howes

theorem QuitNoticed.step {s t : EventLoop T F} {e : LoopEvent T F} (h : s.QuitNoticed)
    (hwf : Wf s) (hstep : s.step e = some t) : t.QuitNoticed := by
  cases hcaller : caller e with
  | some thread =>
    have hcall := call_step hcaller hstep
    cases called_of_step hcaller hstep with
    | queueInLoop cb hmay =>
      have hidle := (mayCall_iff.mp hmay).1
      exact h.call hcall rfl id (by simp [hidle])
    | runInLoop cb hmay =>
      have hidle := (mayCall_iff.mp hmay).1
      refine h.call hcall ?_ ?_ (by simp [hidle])
      · rw [runInLoop]
        split <;> rfl
      · rw [runInLoop]
        split <;> exact id
    | queueTest hqueued =>
      refine h.call hcall ?_ ?_ (by simp [hqueued])
      · rw [queueTest]
        split <;> rfl
      · rw [queueTest]
        split <;> exact id
    | quit hmay =>
      intro _ hpc
      refine Or.inr ⟨thread, ?_, Or.inl (Function.update_self ..)⟩
      -- the loop's own thread calls `quit` out of user code, which is not on the way into `poll`
      intro hself
      have huser := (mayCall_iff.mp hmay).2 hself
      rcases hpc with hpc | hpc
      · rw [show s.pc = .clearing from hpc] at huser
        cases huser
      · rw [show s.pc = .polling from hpc] at huser
        cases huser
    | quitTest hquitting =>
      intro hq hpc
      rw [hcall.pc] at hpc
      by_cases hself : s.threadId_ = thread
      · exfalso
        have huser : inUserCode s.pc = true := by
          apply hwf.busy
          rw [hself, hquitting]
          simp
        rcases hpc with hpc | hpc
        all_goals
          rw [hpc] at huser
          cases huser
      · refine Or.inr ⟨thread, ?_, Or.inr ?_⟩
        · rw [hcall.threadId_]
          exact Ne.symm hself
        · simp [quitTest, isInLoopThread, hself]
    | wakeup hwaking => exact fun _ _ => Or.inl (wakeup_readable s thread)
  | none =>
    cases looped_of_step hcaller hstep with
    | pollReturns active hpc hreadable =>
      intro _ hpc'
      simp at hpc'
    | advance hidle hadvance =>
      cases advanced_of_advance hadvance with
      | clearing hpc => exact fun hq _ => h hq (Or.inl hpc)
      | entering hpc hquit =>
        intro hq
        exact absurd (hquit.symm.trans hq) (by decide)
      | wakeupRead hpc rest =>
        intro _ hpc'
        simp [handleRead, hpc] at hpc'
      | swapping hpc =>
        intro _ hpc'
        simp [EventLoop.swap] at hpc'
      | _ hpc =>
        intro _ hpc'
        simp at hpc'

end EventLoop

/-! ### The end of a loop -/

section Exit

open EventLoop

variable {T F : Type} [DecidableEq T]

/-- **A loop that is told to quit does.**  From a `quit()` of any thread that comes after the
    reset in `loop()`, in every run, `quit_` stays; there is at most one more swap; the
    loop's thread takes at most two steps for each channel and each functor, and seven more;
    it has a next step unless it is in `poll` or has returned; and it waits in `poll` only
    with the counter readable or the wakeup on its way.  When it has returned it has run
    exactly what was queued before the last swap, in order, and the rest stays in the
    queue. -/
theorem quit_ends_loop {thread : T} {s t : EventLoop T F} {es fs : List (LoopEvent T F)}
    (hrun : Run EventLoop.step (EventLoop.new thread) es s)
    (hquit : QuitAfterReset (EventLoop.new thread) es) (hrest : Run EventLoop.step s fs t) :
    t.quit_ = true ∧ t.swaps ≤ s.swaps + 1 ∧
      loopSteps fs + 2 * s.executed.length ≤
        2 * (s.activeChannels_.length + reported fs) + 2 * t.executed.length + 7 ∧
      (t.pc ≠ .polling → t.pc ≠ .exited → ∃ e ∈ t.nextSteps, (t.step e).isSome = true) ∧
      (t.pc = .polling → t.wakeupFd_ ≠ 0 ∨ ∃ other, t.owesQuitWakeup other) ∧
      (t.pc = .exited → t.executed.map Prod.snd = t.pushed.take t.pushedBeforeSwap ∧
        t.pendingFunctor_ = t.pushed.drop t.pushedBeforeSwap) := by
  have hstopping : s.Stopping := (run_quitHistory hrun).mp hquit
  have hstopped : t.Stopping := hrest.invariant (fun _ _ _ h hstep => h.step hstep) hstopping
  obtain ⟨hsteps, hswaps⟩ := run_progress hstopping hrest
  have hinv : Wf t ∧ t.QuitNoticed := by
    refine (hrun.append hrest).invariant (I := fun u => Inv False u ∧ u.QuitNoticed) ?_ ?_
      |>.imp_left Inv.wf
    · rintro u e v ⟨hu, hnoticed⟩ hstep
      exact ⟨hu.step (by simp) hstep, hnoticed.step hu.wf hstep⟩
    · exact ⟨new_inv _ _, fun hq => by cases hq⟩
  obtain ⟨hwf, hnoticed⟩ := hinv
  refine ⟨hstopped.1, ?_, ?_, exists_nextStep, fun hpc => hnoticed hstopped.1 (Or.inr hpc), ?_⟩
  · have hleft : s.swapsLeft ≤ 1 := by
      rw [swapsLeft]
      split <;> omega
    omega
  · have hleft := stepsLeft_le s
    omega
  · intro hpc
    have hfunctors : t.functors = [] := hwf.batch (by rw [hpc]; rfl)
    have haccounted := hwf.accounted
    have hswapped := hwf.swapped
    rw [hfunctors, List.append_nil] at haccounted hswapped
    rw [← haccounted, ← hswapped]
    exact ⟨(List.take_left ..).symm, (List.drop_left ..).symm⟩

/-- The loop runs the functor that it finds, and not the one that comes after its swap. -/
theorem quit_ends_loop_late_functor :
    ∃ s t : EventLoop Nat Nat,
      Run EventLoop.step (EventLoop.new 0)
        [.advance, .advance, .advance, .advance, .queueInLoop 1 7, .queueTest 1, .wakeup 1,
          .quit 1] s ∧
      Run EventLoop.step s
        [.quitTest 1, .wakeup 1, .pollReturns [.wakeupChannel_], .advance, .advance, .advance,
          .advance, .queueInLoop 2 8, .advance, .advance, .advance, .advance] t ∧
      t.pc = .exited ∧ t.executed.map Prod.snd = t.pushed.take 1 ∧
      t.pendingFunctor_ = t.pushed.drop 1 := by
  obtain ⟨s, hrun, _⟩ := exists_run EventLoop.step (EventLoop.new 0)
    [.advance, .advance, .advance, .advance, .queueInLoop 1 7, .queueTest 1, .wakeup 1, .quit 1]
    (fun s : EventLoop Nat Nat => s.pc) .polling rfl
  have hquit : QuitAfterReset (EventLoop.new (F := Nat) 0)
      [.advance, .advance, .advance, .advance, .queueInLoop 1 7, .queueTest 1, .wakeup 1,
        .quit 1] :=
    ⟨[.advance, .advance, .advance, .advance, .queueInLoop 1 7, .queueTest 1, .wakeup 1], 1, [],
      _, rfl, rfl, rfl⟩
  obtain ⟨t, hall, hends⟩ := exists_run EventLoop.step (EventLoop.new 0)
    ([.advance, .advance, .advance, .advance, .queueInLoop 1 7, .queueTest 1, .wakeup 1, .quit 1] ++
      [.quitTest 1, .wakeup 1, .pollReturns [.wakeupChannel_], .advance, .advance, .advance,
        .advance, .queueInLoop 2 8, .advance, .advance, .advance, .advance])
    (fun t : EventLoop Nat Nat => (t.pc, t.pushedBeforeSwap)) (.exited, 1) rfl
  obtain ⟨hpc, hbefore⟩ := Prod.mk.inj hends
  obtain ⟨s', hs', hrest⟩ := hall.split
  cases hrun.symm.trans hs'
  have hlast := (quit_ends_loop hrun hquit hrest).2.2.2.2.2 hpc
  rw [hbefore] at hlast
  exact ⟨s, t, hrun, hrest, hpc, hlast⟩

end Exit

end Muduo
