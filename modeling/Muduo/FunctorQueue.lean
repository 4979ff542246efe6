import Muduo.EventLoop

/-!
# The functor queue

Every pushed functor is in exactly one place: called, swapped out, or pending, and the
three in a row are the pushes in order.  Whenever the loop's thread can still reach
`poll` without a swap, a functor that is pending has its wakeup written or owed.  The
test in front of `wakeup()` leaves the wakeup out on the loop's thread only when the
queue is swapped before the next `poll`.
-/

namespace Muduo

open Transitions

namespace EventLoop

variable {T F : Type} [DecidableEq T]

/-! ### What a step can do -/

/-- The thread that makes the call the event belongs to. -/
def caller : LoopEvent T F → Option T
  | .queueInLoop thread _ | .runInLoop thread _ | .queueTest thread => some thread
  | .quit thread | .quitTest thread | .wakeup thread => some thread
  | .pollReturns _ | .advance => none

@[simp] theorem setCall_pc (s : EventLoop T F) (thread : T) (pc : CallPc) :
    (s.setCall thread pc).pc = s.pc := rfl

@[simp] theorem setCall_calls (s : EventLoop T F) (thread : T) (pc : CallPc) :
    (s.setCall thread pc).calls = Function.update s.calls thread pc := rfl

/-- The steps of a call of `thread`, each with the test that lets it. -/
inductive Called (s : EventLoop T F) (thread : T) : LoopEvent T F → EventLoop T F → Prop where
  | queueInLoop (cb : F) (hmay : s.mayCall thread = true) :
      Called s thread (.queueInLoop thread cb) (s.queueInLoop thread cb)
  | runInLoop (cb : F) (hmay : s.mayCall thread = true) :
      Called s thread (.runInLoop thread cb) (s.runInLoop thread cb)
  | queueTest (hqueued : s.calls thread = .queued) :
      Called s thread (.queueTest thread) (s.queueTest thread)
  | quit (hmay : s.mayCall thread = true) : Called s thread (.quit thread) (s.quit thread)
  | quitTest (hquitting : s.calls thread = .quitting) :
      Called s thread (.quitTest thread) (s.quitTest thread)
  | wakeup (hwaking : s.calls thread = .waking ∨ s.calls thread = .wakingQuit) :
      Called s thread (.wakeup thread) (s.wakeup thread)

/-- The steps of the loop's thread. -/
inductive Looped (s : EventLoop T F) : LoopEvent T F → EventLoop T F → Prop where
  | pollReturns (active : List ActiveChannel) (hpc : s.pc = .polling)
      (hreadable : .wakeupChannel_ ∈ active → s.wakeupFd_ ≠ 0) :
      Looped s (.pollReturns active) { s with pc := .dispatching, activeChannels_ := active }
  | advance {t : EventLoop T F} (hidle : s.calls s.threadId_ = .idle)
      (hadvance : s.advance = some t) : Looped s .advance t

/-- The steps of `loop()` and `doPendingFunctors`, each at its place. -/
inductive Advanced (s : EventLoop T F) : EventLoop T F → Prop where
  | constructed (hpc : s.pc = .constructed) : Advanced s { s with pc := .resetting }
  | resetting (hpc : s.pc = .resetting) : Advanced s { s with pc := .testing, quit_ := false }
  | exiting (hpc : s.pc = .testing) (hquit : s.quit_ = true) : Advanced s { s with pc := .exited }
  | entering (hpc : s.pc = .testing) (hquit : s.quit_ = false) :
      Advanced s { s with pc := .clearing }
  | clearing (hpc : s.pc = .clearing) : Advanced s { s with pc := .polling, activeChannels_ := [] }
  | dispatched (hpc : s.pc = .dispatching) : Advanced s { s with pc := .calling }
  | wakeupRead (hpc : s.pc = .dispatching) (rest : List ActiveChannel) :
      Advanced s { s.handleRead with activeChannels_ := rest }
  | dispatching (hpc : s.pc = .dispatching) (rest : List ActiveChannel) :
      Advanced s { s with pc := .handling, activeChannels_ := rest }
  | handling (hpc : s.pc = .handling) : Advanced s { s with pc := .dispatching }
  | calling (hpc : s.pc = .calling) :
      Advanced s { s with pc := .swapping, functors := [], callingPendingFunctor_ := true }
  | swapping (hpc : s.pc = .swapping) : Advanced s s.swap
  | finished (hpc : s.pc = .executing) (hfunctors : s.functors = []) :
      Advanced s { s with pc := .testing, callingPendingFunctor_ := false }
  | executing {functor : F} {rest : List F} (hpc : s.pc = .executing)
      (hfunctors : s.functors = functor :: rest) :
      Advanced s { s with
        pc := .inFunctor
        functors := rest
        executed := s.executed ++ [(s.threadId_, functor)] }
  | inFunctor (hpc : s.pc = .inFunctor) : Advanced s { s with pc := .executing }

omit [DecidableEq T] in
theorem advanced_of_advance {s t : EventLoop T F} (hstep : s.advance = some t) :
    Advanced s t := by
  simp only [advance] at hstep
  cases hpc : s.pc with
  | testing =>
    simp only [hpc, Option.some.injEq] at hstep
    subst hstep
    by_cases hquit : s.quit_ = true
    · rw [if_pos hquit]
      exact .exiting hpc hquit
    · rw [if_neg hquit]
      exact .entering hpc (Bool.eq_false_iff.mpr hquit)
  | dispatching =>
    simp only [hpc] at hstep
    split at hstep
    · cases hstep
      exact .dispatched hpc
    · cases hstep
      exact .wakeupRead hpc _
    · cases hstep
      exact .dispatching hpc _
  | executing =>
    simp only [hpc] at hstep
    split at hstep
    · rename_i hfunctors
      cases hstep
      exact .finished hpc hfunctors
    · rename_i functor rest hfunctors
      cases hstep
      exact .executing hpc hfunctors
  | polling => simp [hpc] at hstep
  | exited => simp [hpc] at hstep
  | _ =>
    simp only [hpc, Option.some.injEq] at hstep
    subst hstep
    constructor
    exact hpc

theorem called_of_step {s t : EventLoop T F} {e : LoopEvent T F} {thread : T}
    (hcaller : caller e = some thread) (hstep : s.step e = some t) : Called s thread e t := by
  cases e with
  | pollReturns active => cases hcaller
  | advance => cases hcaller
  | _ =>
    cases hcaller
    simp only [step, Option.ite_none_right_eq_some, Option.some.injEq] at hstep
    obtain ⟨hallowed, rfl⟩ := hstep
    constructor
    exact hallowed

theorem looped_of_step {s t : EventLoop T F} {e : LoopEvent T F} (hcaller : caller e = none)
    (hstep : s.step e = some t) : Looped s e t := by
  cases e with
  | pollReturns active =>
    simp only [step, Option.ite_none_right_eq_some, Option.some.injEq] at hstep
    obtain ⟨⟨hpc, hreadable⟩, rfl⟩ := hstep
    exact .pollReturns active hpc hreadable
  | advance =>
    simp only [step, Option.ite_none_right_eq_some] at hstep
    exact .advance hstep.1 hstep.2
  | _ => cases hcaller

/-- A step of a call leaves the loop's thread where it is. -/
structure CallStep (thread : T) (s t : EventLoop T F) : Prop where
  threadId_ : t.threadId_ = s.threadId_
  pc : t.pc = s.pc
  flag : t.callingPendingFunctor_ = s.callingPendingFunctor_
  functors : t.functors = s.functors
  executed : t.executed = s.executed
  pushedBeforeSwap : t.pushedBeforeSwap = s.pushedBeforeSwap
  swaps : t.swaps = s.swaps
  queue : ∃ cbs, t.pendingFunctor_ = s.pendingFunctor_ ++ cbs ∧ t.pushed = s.pushed ++ cbs
  others : ∀ u, u ≠ thread → t.calls u = s.calls u
  allowed : thread = s.threadId_ → s.calls thread ≠ .idle ∨ inUserCode s.pc = true

theorem mayCall_iff {s : EventLoop T F} {thread : T} : s.mayCall thread = true ↔
    s.calls thread = .idle ∧ (thread = s.threadId_ → inUserCode s.pc = true) := by
  simp only [mayCall, isInLoopThread, Bool.and_eq_true, Bool.or_eq_true, beq_iff_eq,
    Bool.not_eq_true', decide_eq_false_iff_not]
  constructor
  · intro h
    exact ⟨h.1, fun ht => h.2.resolve_left fun hne => hne ht.symm⟩
  · intro h
    by_cases ht : s.threadId_ = thread
    · exact ⟨h.1, Or.inr (h.2 ht.symm)⟩
    · exact ⟨h.1, Or.inl ht⟩

/-- A step that changes one thread's program counter, and maybe pushes a functor. -/
theorem CallStep.of_setCall {s t : EventLoop T F} {thread : T} (pc : CallPc) (cbs : List F)
    (hallowed : thread = s.threadId_ → s.calls thread ≠ .idle ∨ inUserCode s.pc = true)
    (ht : t = { s.setCall thread pc with
      quit_ := t.quit_
      wakeupFd_ := t.wakeupFd_
      pendingFunctor_ := s.pendingFunctor_ ++ cbs
      pushed := s.pushed ++ cbs
      quitReturned := t.quitReturned }) : CallStep thread s t := by
  rw [ht]
  refine ⟨rfl, rfl, rfl, rfl, rfl, rfl, rfl, ⟨cbs, rfl, rfl⟩, ?_, hallowed⟩
  intro u hu
  exact Function.update_of_ne hu _ _

theorem queueInLoop_callStep {s : EventLoop T F} {thread : T} {cb : F}
    (hmay : s.mayCall thread = true) : CallStep thread s (s.queueInLoop thread cb) :=
  .of_setCall .queued [cb] (fun ht => Or.inr ((mayCall_iff.mp hmay).2 ht)) rfl

theorem runInLoop_callStep {s : EventLoop T F} {thread : T} {cb : F}
    (hmay : s.mayCall thread = true) : CallStep thread s (s.runInLoop thread cb) := by
  rw [runInLoop]
  split
  · refine ⟨rfl, rfl, rfl, rfl, rfl, rfl, rfl, ⟨[], by simp⟩, fun _ _ => rfl, ?_⟩
    intro ht
    exact Or.inr ((mayCall_iff.mp hmay).2 ht)
  · exact queueInLoop_callStep hmay

theorem call_step {s t : EventLoop T F} {e : LoopEvent T F} {thread : T}
    (hcaller : caller e = some thread) (hstep : s.step e = some t) : CallStep thread s t := by
  cases called_of_step hcaller hstep with
  | queueInLoop cb hmay => exact queueInLoop_callStep hmay
  | runInLoop cb hmay => exact runInLoop_callStep hmay
  | queueTest hqueued =>
    have hcall : s.calls thread ≠ .idle := by simp [hqueued]
    rw [queueTest]
    split
    · exact .of_setCall .waking [] (fun _ => Or.inl hcall) (by simp [setCall])
    · exact .of_setCall .idle [] (fun _ => Or.inl hcall) (by simp [setCall])
  | quit hmay =>
    exact .of_setCall .quitting [] (fun ht => Or.inr ((mayCall_iff.mp hmay).2 ht))
      (by simp [quit, setCall])
  | quitTest hquitting =>
    have hcall : s.calls thread ≠ .idle := by simp [hquitting]
    rw [quitTest]
    split
    · exact .of_setCall .wakingQuit [] (fun _ => Or.inl hcall) (by simp [setCall])
    · exact .of_setCall .idle [] (fun _ => Or.inl hcall) (by simp [setCall])
  | wakeup hwaking =>
    have hcall : s.calls thread ≠ .idle := by
      rcases hwaking with h | h <;> simp [h]
    exact .of_setCall .idle [] (fun _ => Or.inl hcall) (by simp [wakeup, setCall])

omit [DecidableEq T] in
theorem advance_threadId {s t : EventLoop T F} (hstep : s.advance = some t) :
    t.threadId_ = s.threadId_ := by
  cases advanced_of_advance hstep <;> rfl

theorem step_threadId {s t : EventLoop T F} {e : LoopEvent T F} (hstep : s.step e = some t) :
    t.threadId_ = s.threadId_ := by
  cases hcaller : caller e with
  | some thread => exact (call_step hcaller hstep).threadId_
  | none =>
    cases looped_of_step hcaller hstep with
    | pollReturns active hpc hreadable => rfl
    | advance hidle hadvance => exact advance_threadId hadvance

theorem run_threadId {s t : EventLoop T F} {es : List (LoopEvent T F)} (hrun : Run step s es t) :
    t.threadId_ = s.threadId_ :=
  hrun.invariant (I := fun u => u.threadId_ = s.threadId_)
    (fun _ _ _ hu hstep => (step_threadId hstep).trans hu) rfl

/-! ### Every functor is in one place -/

/-- Where the loop's thread has set `callingPendingFunctor_`. -/
def inDoPendingFunctors : LoopPc → Bool
  | .swapping | .executing | .inFunctor => true
  | _ => false

/-- Where the loop's thread is in the loop over `functors`. -/
def inBatch : LoopPc → Bool
  | .executing | .inFunctor => true
  | _ => false

/-- Between the return of `poll` and the swap, where a pending functor needs no wakeup. -/
def beforeSwap : LoopPc → Bool
  | .dispatching | .handling | .calling | .swapping => true
  | _ => false

/-- Before `loop()` has stored `quit_`. -/
def beforeReset : LoopPc → Bool
  | .constructed | .resetting => true
  | _ => false

/-- Whether the loop's thread can go from `a` to `b` without touching flag and batch. -/
def samePhase (a b : LoopPc) : Bool :=
  inDoPendingFunctors a == inDoPendingFunctors b && inBatch a == inBatch b &&
    (!beforeReset b || beforeReset a)

/-- What holds of a loop that any threads call, in every state. -/
structure Wf (s : EventLoop T F) : Prop where
  /-- The loop's thread calls the loop only out of user code. -/
  busy : s.calls s.threadId_ ≠ .idle → inUserCode s.pc = true
  flag : s.callingPendingFunctor_ = inDoPendingFunctors s.pc
  batch : inBatch s.pc = false → s.functors = []
  accounted : s.executed.map Prod.snd ++ s.functors ++ s.pendingFunctor_ = s.pushed
  swapped : (s.executed.map Prod.snd ++ s.functors).length = s.pushedBeforeSwap
  thread : ∀ x ∈ s.executed, x.1 = s.threadId_
  /-- `doPendingFunctors` has swapped before it runs functors, and not before `loop()`. -/
  first : s.swaps = 0 → inBatch s.pc = false
  fresh : beforeReset s.pc = true → s.swaps = 0

omit [DecidableEq T] in
theorem new_wf (thread : T) : Wf (new thread : EventLoop T F) where
  busy h := absurd rfl h
  flag := rfl
  batch _ := rfl
  accounted := rfl
  swapped := rfl
  thread x hx := by simp [new] at hx
  first _ := rfl
  fresh _ := rfl

theorem CallStep.wf {s t : EventLoop T F} {thread : T} (h : CallStep thread s t) (hs : Wf s) :
    Wf t where
  busy hcall := by
    rw [h.pc]
    rw [h.threadId_] at hcall
    by_cases ht : s.threadId_ = thread
    · rcases h.allowed ht.symm with hbusy | huser
      · exact hs.busy (ht ▸ hbusy)
      · exact huser
    · rw [h.others _ ht] at hcall
      exact hs.busy hcall
  flag := by rw [h.flag, h.pc, hs.flag]
  batch hpc := by
    rw [h.functors]
    exact hs.batch (h.pc ▸ hpc)
  accounted := by
    obtain ⟨cbs, hpending, hpushed⟩ := h.queue
    rw [h.executed, h.functors, hpending, hpushed, ← hs.accounted, List.append_assoc _ _ cbs]
  swapped := by rw [h.executed, h.functors, h.pushedBeforeSwap, hs.swapped]
  thread x hx := by
    rw [h.threadId_]
    exact hs.thread x (h.executed ▸ hx)
  first hswaps := by
    rw [h.pc]
    exact hs.first (h.swaps ▸ hswaps)
  fresh hpc := by
    rw [h.swaps]
    exact hs.fresh (h.pc ▸ hpc)

omit [DecidableEq T] in
/-- A move of the loop's thread between two points with the same flag and batch. -/
theorem Wf.move {s : EventLoop T F} (hs : Wf s) (hidle : s.calls s.threadId_ = .idle)
    (pc : LoopPc) (quit : Bool) (counter : Nat) (active : List ActiveChannel)
    (hphase : samePhase s.pc pc = true) :
    Wf { s with
      pc := pc, quit_ := quit, wakeupFd_ := counter, activeChannels_ := active } := by
  simp only [samePhase, Bool.and_eq_true, beq_iff_eq, Bool.or_eq_true, Bool.not_eq_true'] at hphase
  rcases hphase with ⟨⟨hflag, hbatch⟩, hreset⟩
  exact {
    busy := fun h => absurd hidle h
    flag := by rw [hs.flag, hflag]
    batch := fun h => hs.batch (hbatch ▸ h)
    accounted := hs.accounted
    swapped := hs.swapped
    thread := hs.thread
    first := fun h => hbatch ▸ hs.first h
    fresh := fun h => hs.fresh (hreset.resolve_left fun hlate => by simp [hlate] at h) }

omit [DecidableEq T] in
theorem Wf.begin_ {s : EventLoop T F} (hs : Wf s) (hidle : s.calls s.threadId_ = .idle)
    (hpc : s.pc = .calling) :
    Wf { s with pc := .swapping, functors := [], callingPendingFunctor_ := true } := by
  have hfunctors : s.functors = [] := hs.batch (by rw [hpc]; rfl)
  have haccounted := hs.accounted
  have hswapped := hs.swapped
  rw [hfunctors] at haccounted hswapped
  exact {
    busy := fun h => absurd hidle h
    flag := rfl
    batch := fun _ => rfl
    accounted := haccounted
    swapped := hswapped
    thread := hs.thread
    first := fun _ => rfl
    fresh := fun h => by simp [beforeReset] at h }

omit [DecidableEq T] in
theorem Wf.swap {s : EventLoop T F} (hs : Wf s) (hidle : s.calls s.threadId_ = .idle)
    (hpc : s.pc = .swapping) : Wf s.swap := by
  have hfunctors : s.functors = [] := hs.batch (by rw [hpc]; rfl)
  have haccounted := hs.accounted
  rw [hfunctors, List.append_nil] at haccounted
  exact {
    busy := fun h => absurd hidle h
    flag := by rw [EventLoop.swap, hs.flag, hpc]; rfl
    batch := fun h => by simp [EventLoop.swap, inBatch] at h
    accounted := by simp [EventLoop.swap, hfunctors, haccounted]
    swapped := by simp only [EventLoop.swap, haccounted]
    thread := hs.thread
    first := fun h => by simp [EventLoop.swap] at h
    fresh := fun h => by simp [EventLoop.swap, beforeReset] at h }

omit [DecidableEq T] in
theorem Wf.finish {s : EventLoop T F} (hs : Wf s) (hidle : s.calls s.threadId_ = .idle)
    (hfunctors : s.functors = []) :
    Wf { s with pc := .testing, callingPendingFunctor_ := false } where
  busy h := absurd hidle h
  flag := rfl
  batch _ := hfunctors
  accounted := hs.accounted
  swapped := hs.swapped
  thread := hs.thread
  first _ := rfl
  fresh h := by simp [beforeReset] at h

omit [DecidableEq T] in
theorem Wf.execute {s : EventLoop T F} (hs : Wf s) (hidle : s.calls s.threadId_ = .idle)
    (hpc : s.pc = .executing) {functor : F} {rest : List F}
    (hfunctors : s.functors = functor :: rest) :
    Wf { s with
      pc := .inFunctor
      functors := rest
      executed := s.executed ++ [(s.threadId_, functor)] } where
  busy h := absurd hidle h
  flag := by rw [hs.flag, hpc]; rfl
  batch h := by simp [inBatch] at h
  accounted := by simp [← hs.accounted, hfunctors]
  swapped := by simp [← hs.swapped, hfunctors]
  thread x hx := by
    rcases List.mem_append.mp hx with hold | hnew
    · exact hs.thread x hold
    · rw [List.mem_singleton.mp hnew]
  first h := by
    have hbatch := hs.first h
    simp [hpc, inBatch] at hbatch
  fresh h := by simp [beforeReset] at h

/-! ### Wakeups -/

/-- If a functor is pending, `wakeupFd_` is readable or will be: some thread is between
    its push and its `wakeup()`. -/
def WakeupDue (s : EventLoop T F) : Prop :=
  s.pendingFunctor_ ≠ [] → s.wakeupFd_ ≠ 0 ∨
    ∃ thread, s.owesWakeup thread ∧ (thread = s.threadId_ → s.callingPendingFunctor_ = true)

omit [DecidableEq T] in
theorem owesWakeup.not_idle {s : EventLoop T F} {thread : T} (h : s.owesWakeup thread) :
    s.calls thread ≠ .idle := by
  rcases h with h | h <;> simp [h]

omit [DecidableEq T] in
/-- The loop's thread moves on: it owed no wakeup itself. -/
theorem WakeupDue.move {s t : EventLoop T F} (hs : WakeupDue s)
    (hidle : s.calls s.threadId_ = .idle) (hpending : t.pendingFunctor_ = s.pendingFunctor_)
    (hcounter : t.wakeupFd_ = s.wakeupFd_) (hcalls : t.calls = s.calls)
    (hthread : t.threadId_ = s.threadId_) : WakeupDue t := by
  intro hne
  rw [hpending] at hne
  rcases hs hne with hreadable | ⟨thread, howes, _⟩
  · exact Or.inl (hcounter ▸ hreadable)
  · refine Or.inr ⟨thread, ?_, ?_⟩
    · simpa only [owesWakeup, hcalls] using howes
    · intro hself
      rw [hthread] at hself
      exact absurd hidle (hself ▸ howes.not_idle)

/-- `wakeup()` leaves the descriptor readable. -/
theorem wakeup_readable (s : EventLoop T F) (thread : T) : (s.wakeup thread).wakeupFd_ ≠ 0 := by
  have hmax : 0 < eventfdMax := by decide
  simp only [wakeup]
  split <;> omega

/-- A push outside the loop's thread, or one with the flag set, owes its wakeup. -/
theorem queueInLoop_wakeupDue {s : EventLoop T F} {thread : T} {cb : F}
    (hown : thread = s.threadId_ → s.callingPendingFunctor_ = true) :
    WakeupDue (s.queueInLoop thread cb) :=
  fun _ => Or.inr ⟨thread, Or.inl (Function.update_self ..), hown⟩

/-- A thread that owes a wakeup keeps owing it while another one steps. -/
theorem WakeupDue.setCall {s : EventLoop T F} (hs : WakeupDue s) {thread : T} {pc : CallPc}
    (hkeep : s.owesWakeup thread → (thread = s.threadId_ → s.callingPendingFunctor_ = true) →
      pc = .queued ∨ pc = .waking) : WakeupDue (s.setCall thread pc) := by
  intro hne
  rcases hs hne with hreadable | ⟨u, howes, hself⟩
  · exact Or.inl hreadable
  · refine Or.inr ⟨u, ?_, hself⟩
    by_cases hu : u = thread
    · subst hu
      simpa [owesWakeup] using hkeep howes hself
    · simpa [owesWakeup, hu] using howes

theorem call_wakeupDue {s t : EventLoop T F} {e : LoopEvent T F} {thread : T} (hs : WakeupDue s)
    (hcaller : caller e = some thread) (hstep : s.step e = some t)
    (hown : ∀ cb, e = .queueInLoop s.threadId_ cb → s.callingPendingFunctor_ = true) :
    WakeupDue t := by
  cases called_of_step hcaller hstep with
  | queueInLoop cb hmay => exact queueInLoop_wakeupDue fun hu => hown cb (by rw [hu])
  | runInLoop cb hmay =>
    rw [runInLoop]
    split
    · exact hs
    · rename_i hother
      simp only [isInLoopThread, decide_eq_true_eq] at hother
      exact queueInLoop_wakeupDue fun hu => absurd hu.symm hother
  | queueTest hqueued =>
    rw [queueTest]
    split
    · exact hs.setCall fun _ _ => Or.inr rfl
    · rename_i hskip
      apply hs.setCall
      intro _ hself
      -- the wakeup is left out only on the loop's thread with the flag clear
      simp only [isInLoopThread, Bool.or_eq_true, Bool.not_eq_true', decide_eq_false_iff_not,
        not_or, not_not] at hskip
      exact absurd (hself hskip.1.symm) hskip.2
  | quit hmay =>
    have hset : WakeupDue (s.setCall thread .quitting) :=
      hs.setCall fun howes _ => absurd (mayCall_iff.mp hmay).1 howes.not_idle
    exact hset
  | quitTest hquitting =>
    have hnot : ¬ s.owesWakeup thread := by simp [owesWakeup, hquitting]
    rw [quitTest]
    split
    · exact hs.setCall fun howes _ => absurd howes hnot
    · have hset : WakeupDue (s.setCall thread .idle) :=
        hs.setCall fun howes _ => absurd howes hnot
      exact hset
  | wakeup hwaking => exact fun _ => Or.inl (wakeup_readable s thread)

/-! ### Steps -/

/-- The loop's thread has queued nothing before `loop()`. -/
def NotEarly (s : EventLoop T F) (e : LoopEvent T F) : Prop :=
  s.pc = .constructed → ∀ cb, e ≠ .queueInLoop s.threadId_ cb

/-- The invariant of the queue.  Where the loop's thread queues nothing before `loop()`
    (`p`), wakeups are due from the start; otherwise they are from the first swap on. -/
structure Inv (p : Prop) (s : EventLoop T F) : Prop where
  wf : Wf s
  due : p ∨ s.swaps ≠ 0 → beforeSwap s.pc = false → WakeupDue s

omit [DecidableEq T] in
theorem Inv.move {p : Prop} {s : EventLoop T F} (hs : Inv p s)
    (hidle : s.calls s.threadId_ = .idle) (pc : LoopPc) (quit : Bool)
    (active : List ActiveChannel)
    (hphase : samePhase s.pc pc = true) (hswap : beforeSwap pc = beforeSwap s.pc) :
    Inv p { s with pc := pc, quit_ := quit, activeChannels_ := active } where
  wf := hs.wf.move hidle pc quit s.wakeupFd_ active hphase
  due hp hpc := (hs.due hp (hswap ▸ hpc)).move hidle rfl rfl rfl rfl

theorem Inv.call {p : Prop} {s t : EventLoop T F} {e : LoopEvent T F} {thread : T}
    (hs : Inv p s) (hcaller : caller e = some thread) (hstep : s.step e = some t)
    (hown : p → NotEarly s e) : Inv p t := by
  have hcall := call_step hcaller hstep
  refine ⟨hcall.wf hs.wf, ?_⟩
  intro hp hpc
  rw [hcall.swaps] at hp
  rw [hcall.pc] at hpc
  apply call_wakeupDue (hs.due hp hpc) hcaller hstep
  intro cb he
  subst he
  simp only [step, Option.ite_none_right_eq_some] at hstep
  have huser := (mayCall_iff.mp hstep.1).2 rfl
  rw [hs.wf.flag]
  -- user code runs before `loop()`, in a handler or in a functor
  cases hat : s.pc with
  | constructed =>
    rcases hp with hp | hswaps
    · exact absurd rfl (hown hp hat cb)
    · exact absurd (hs.wf.fresh (by rw [hat]; rfl)) hswaps
  | handling => simp [hat, beforeSwap] at hpc
  | inFunctor => rfl
  | _ => simp [hat, inUserCode] at huser

omit [DecidableEq T] in
theorem Inv.advance {p : Prop} {s t : EventLoop T F} (hs : Inv p s)
    (hidle : s.calls s.threadId_ = .idle) (hstep : s.advance = some t) : Inv p t := by
  have hwf := hs.wf
  cases advanced_of_advance hstep with
  | wakeupRead hpc rest =>
    refine ⟨hwf.move hidle s.pc s.quit_ 0 _ (by rw [hpc]; rfl), ?_⟩
    intro _ hdue
    simp [hpc, handleRead, beforeSwap] at hdue
  | calling hpc => exact ⟨hwf.begin_ hidle hpc, fun _ hdue => by simp [beforeSwap] at hdue⟩
  | swapping hpc =>
    have hfunctors : s.functors = [] := hwf.batch (by rw [hpc]; rfl)
    exact ⟨hwf.swap hidle hpc, fun _ _ hne => absurd hfunctors hne⟩
  | finished hpc hfunctors =>
    refine ⟨hwf.finish hidle hfunctors, ?_⟩
    intro hp _
    exact (hs.due hp (by rw [hpc]; rfl)).move hidle rfl rfl rfl rfl
  | executing hpc hfunctors =>
    refine ⟨hwf.execute hidle hpc hfunctors, ?_⟩
    intro hp _
    exact (hs.due hp (by rw [hpc]; rfl)).move hidle rfl rfl rfl rfl
  | _ hpc => exact hs.move hidle _ _ _ (by rw [hpc]; rfl) (by rw [hpc]; rfl)

theorem Inv.step {p : Prop} {s t : EventLoop T F} {e : LoopEvent T F} (hs : Inv p s)
    (hown : p → NotEarly s e) (hstep : s.step e = some t) : Inv p t := by
  cases hcaller : caller e with
  | some thread => exact hs.call hcaller hstep hown
  | none =>
    cases looped_of_step hcaller hstep with
    | pollReturns active hpc hreadable =>
      have hidle : s.calls s.threadId_ = .idle := by
        by_contra hbusy
        have huser := hs.wf.busy hbusy
        simp [hpc, inUserCode] at huser
      exact ⟨hs.wf.move hidle _ _ _ _ (by rw [hpc]; rfl),
        fun _ hdue => by simp [beforeSwap] at hdue⟩
    | advance hidle hadvance => exact hs.advance hidle hadvance

omit [DecidableEq T] in
theorem new_inv (p : Prop) (thread : T) : Inv p (new thread : EventLoop T F) :=
  ⟨new_wf thread, fun _ _ hne => absurd rfl hne⟩

end EventLoop

/-! ### The queue of a running loop -/

section RunningLoop

open EventLoop

variable {T F : Type} [DecidableEq T]

/-- **A running loop runs each pushed functor once, in order, and never sleeps on one.**
    In every run, the functors called, the rest of the batch and the pending ones are the
    pushes in order, all called on the loop's thread; those called or in the batch are the
    ones pushed before the last swap.  In `poll` with a functor pending, the counter is
    not zero or another thread has yet to write it; for the first `poll` this needs that
    the loop's own thread queued nothing before `loop()`. -/
theorem running_loop_queue {thread : T} {s : EventLoop T F} {es : List (LoopEvent T F)}
    (hrun : Run step (new thread) es s) :
    s.executed.map Prod.snd ++ s.functors ++ s.pendingFunctor_ = s.pushed ∧
    (∀ x ∈ s.executed, x.1 = s.threadId_) ∧
    s.executed.map Prod.snd ++ s.functors = s.pushed.take s.pushedBeforeSwap ∧
    (Along step NotEarly (new thread) es ∨ s.swaps ≠ 0 → s.pc = .polling →
      s.pendingFunctor_ ≠ [] →
      s.wakeupFd_ ≠ 0 ∨ ∃ other, other ≠ s.threadId_ ∧ s.owesWakeup other) := by
  have hinv : Inv False s := hrun.invariant (fun _ _ _ hs => hs.step (by simp)) (new_inv _ _)
  have hwf := hinv.wf
  refine ⟨hwf.accounted, hwf.thread, ?_, ?_⟩
  · rw [← hwf.accounted, ← hwf.swapped, List.take_left']
    rfl
  · intro hwhen hpc hne
    have hdue : WakeupDue s := by
      have hsleep : beforeSwap s.pc = false := by rw [hpc]; rfl
      rcases hwhen with halong | hswaps
      · have halways := always_of_along (I := Inv True)
          (fun _ _ _ hs hearly hstep => hs.step (fun _ => hearly) hstep)
          (new_inv True thread) halong
        exact (halways es [] s (by simp) hrun).due (Or.inl trivial) hsleep
      · exact hinv.due (Or.inr hswaps) hsleep
    rcases hdue hne with hreadable | ⟨other, howes, hself⟩
    · exact Or.inl hreadable
    · refine Or.inr ⟨other, ?_, howes⟩
      intro hother
      rw [hwf.flag, hpc] at hself
      exact absurd (hself hother) (by simp [inDoPendingFunctors])

theorem running_loop_queue_remote_push :
    ∃ s : EventLoop Nat Nat,
      Run EventLoop.step (EventLoop.new 0)
        [.advance, .advance, .advance, .advance, .queueInLoop 1 7] s ∧
      s.pendingFunctor_ = [7] ∧
      (s.wakeupFd_ ≠ 0 ∨ ∃ other, other ≠ s.threadId_ ∧ s.owesWakeup other) := by
  obtain ⟨s, hrun, hends⟩ := exists_run EventLoop.step (EventLoop.new 0)
    [.advance, .advance, .advance, .advance, .queueInLoop 1 7]
    (fun s : EventLoop Nat Nat => (s.pc, s.pendingFunctor_)) (.polling, [7]) rfl
  simp only [Prod.mk.injEq] at hends
  rcases hends with ⟨hpc, hpending⟩
  refine ⟨s, hrun, hpending, (running_loop_queue hrun).2.2.2 (Or.inl ?_) hpc ?_⟩
  · intro pre e post t hes hpre _ cb he
    rw [run_threadId hpre] at he
    have hmem : e ∈ pre ++ e :: post := List.mem_append_right pre (List.mem_cons_self ..)
    rw [← hes, he] at hmem
    simp [EventLoop.new] at hmem
  · simp [hpending]

end RunningLoop

end Muduo
