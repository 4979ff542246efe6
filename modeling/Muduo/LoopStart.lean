import Muduo.FunctorQueue

/-!
# Requests made before the first `poll`

`EventLoopThread::threadFunc` runs the init callback and publishes the loop before it
calls `loop()`, so the loop is called before it runs.  Two of these calls are lost.
`loop()` stores `quit_ = false` and takes back a `quit()` that came before.  A functor
the loop's own thread queues before `loop()` wakes nobody up, since the thread is the
loop's and no functor is running, and the first `poll` does not see it.

What the first `poll` finds is determined by the calls alone: `quit_` holds the `quit()`
calls after the reset, and `wakeupFd_` the calls of `wakeup()`.
-/

namespace Muduo

open Transitions

namespace EventLoop

variable {T F : Type} [DecidableEq T]

/-! ### What the events so far tell -/

/-- The loop's thread has queued a functor itself. -/
def OwnPush (loopThread : T) (es : List (LoopEvent T F)) : Prop :=
  ∃ cb, .queueInLoop loopThread cb ∈ es

/-- Another thread has queued a functor. -/
def RemotePush (loopThread : T) (es : List (LoopEvent T F)) : Prop :=
  ∃ thread, thread ≠ loopThread ∧
    ∃ cb, .queueInLoop thread cb ∈ es ∨ .runInLoop thread cb ∈ es

/-- Some thread has done the `write` of `wakeup()`. -/
def Woken (es : List (LoopEvent T F)) : Prop := ∃ thread, .wakeup thread ∈ es

/-- Some thread has stored `quit_` after `loop()` has reset it. -/
def QuitAfterReset (s : EventLoop T F) (es : List (LoopEvent T F)) : Prop :=
  ∃ pre thread post t, es = pre ++ .quit thread :: post ∧ Run step s pre t ∧
    beforeReset t.pc = false

/-- No `quit()` that has returned is undone by a sleep in `poll`, and no functor sleeps
    there unnoticed. -/
def KeepsRequests (s : EventLoop T F) : Prop :=
  (s.quitReturned = true → s.quit_ = true) ∧
  (s.pendingFunctor_ ≠ [] → s.wakeupFd_ ≠ 0 ∨ ∃ thread, s.owesWakeup thread)

theorem quitAfterReset_snoc {s u : EventLoop T F} {es : List (LoopEvent T F)} {e : LoopEvent T F}
    (hrun : Run step s es u) : QuitAfterReset s (es ++ [e]) ↔
      QuitAfterReset s es ∨ (∃ thread, e = .quit thread) ∧ beforeReset u.pc = false := by
  constructor
  · rintro ⟨pre, thread, post, t, hes, hpre, hpc⟩
    rcases List.eq_nil_or_concat post with hnil | ⟨post', f, hpost⟩
    · subst hnil
      obtain ⟨hes, he⟩ := List.append_inj' hes rfl
      subst hes
      simp only [List.cons.injEq, and_true] at he
      have htu : t = u := Option.some.inj (hpre.symm.trans hrun)
      exact Or.inr ⟨⟨thread, he⟩, htu ▸ hpc⟩
    · subst hpost
      rw [List.concat_eq_append, ← List.cons_append, ← List.append_assoc] at hes
      exact Or.inl ⟨pre, thread, post', t, (List.append_inj' hes rfl).1, hpre, hpc⟩
  · rintro (⟨pre, thread, post, t, hes, hpre, hpc⟩ | ⟨⟨thread, he⟩, hpc⟩)
    · exact ⟨pre, thread, post ++ [e], t, by simp [hes], hpre, hpc⟩
    · exact ⟨es, thread, [], u, by rw [he], hrun, hpc⟩

/-! ### `quit_` -/

/-- After the reset `quit_` says whether a `quit()` has come since. -/
def QuitHistory (start : EventLoop T F) (es : List (LoopEvent T F)) (s : EventLoop T F) : Prop :=
  QuitAfterReset start es ↔ s.quit_ = true ∧ beforeReset s.pc = false

omit [DecidableEq T] in
theorem advance_quit {s t : EventLoop T F} (hstep : s.advance = some t) :
    (t.quit_ = true ∧ beforeReset t.pc = false) ↔ s.quit_ = true ∧ beforeReset s.pc = false := by
  cases advanced_of_advance hstep with
  | wakeupRead hpc rest => simp [hpc, handleRead, beforeReset]
  | swapping hpc => simp [hpc, EventLoop.swap, beforeReset]
  | _ hpc => simp [hpc, beforeReset]

/-- Only `quit()` and the reset touch `quit_`, and the reset comes before any other use. -/
theorem step_quit {s t : EventLoop T F} {e : LoopEvent T F} (hstep : s.step e = some t) :
    (t.quit_ = true ∧ beforeReset t.pc = false) ↔
      (s.quit_ = true ∧ beforeReset s.pc = false) ∨
        (∃ thread, e = .quit thread) ∧ beforeReset s.pc = false := by
  cases hcaller : caller e with
  | some thread =>
    cases called_of_step hcaller hstep with
    | quit hmay =>
      simp only [quit, setCall_pc, true_and, LoopEvent.quit.injEq, exists_eq']
      tauto
    | queueInLoop cb hmay => simp [queueInLoop, setCall]
    | runInLoop cb hmay =>
      rw [runInLoop]
      split <;> simp [queueInLoop, setCall]
    | queueTest hqueued =>
      rw [queueTest]
      split <;> simp [setCall]
    | quitTest hquitting =>
      rw [quitTest]
      split <;> simp [setCall]
    | wakeup hwaking => simp [wakeup, setCall]
  | none =>
    cases looped_of_step hcaller hstep with
    | pollReturns active hpc hreadable => simp [hpc, beforeReset]
    | advance hidle hadvance =>
      rw [advance_quit hadvance]
      simp

theorem run_quitHistory {thread : T} {s : EventLoop T F} {es : List (LoopEvent T F)}
    (hrun : Run step (new thread) es s) : QuitHistory (new thread) es s := by
  refine hrun.history (I := QuitHistory (new thread)) ?_ ?_
  · constructor
    · rintro ⟨pre, u, post, t, hes, _⟩
      simp at hes
    · intro h
      simp [new] at h
  · intro fs u e v hpre hold hstep
    rw [QuitHistory, quitAfterReset_snoc hpre, step_quit hstep]
    exact or_congr hold Iff.rfl

/-! ### The queue and the descriptor before the first `poll` -/

/-- In the first iteration, and not in `poll` yet. -/
def early (s : EventLoop T F) : Prop :=
  s.swaps = 0 ∧ (beforeReset s.pc = true ∨ s.pc = .testing ∨ s.pc = .clearing)

/-- What the queue and `wakeupFd_` hold while nobody has read them. -/
structure Before (es : List (LoopEvent T F)) (s : EventLoop T F) : Prop where
  pending : s.pendingFunctor_ ≠ [] ↔ OwnPush s.threadId_ es ∨ RemotePush s.threadId_ es
  counter : s.wakeupFd_ ≠ 0 ↔ Woken es
  owed : RemotePush s.threadId_ es →
    Woken es ∨ ∃ thread, thread ≠ s.threadId_ ∧ s.owesWakeup thread
  pushed : ∀ thread, thread ≠ s.threadId_ → s.owesWakeup thread → RemotePush s.threadId_ es

omit [DecidableEq T] in
theorem new_before (thread : T) : Before [] (new thread : EventLoop T F) where
  pending := by simp [new, OwnPush, RemotePush]
  counter := by simp [new, Woken]
  owed h := by simp [RemotePush] at h
  pushed u _ howes := by simp [new, owesWakeup] at howes

omit [DecidableEq T] in
theorem ownPush_snoc {loopThread : T} {es : List (LoopEvent T F)} {e : LoopEvent T F} :
    OwnPush loopThread (es ++ [e]) ↔
      OwnPush loopThread es ∨ ∃ cb, e = .queueInLoop loopThread cb := by
  simp [OwnPush, exists_or, eq_comm]

omit [DecidableEq T] in
theorem remotePush_snoc {loopThread : T} {es : List (LoopEvent T F)} {e : LoopEvent T F} :
    RemotePush loopThread (es ++ [e]) ↔ RemotePush loopThread es ∨
      ∃ thread, thread ≠ loopThread ∧
        ∃ cb, e = .queueInLoop thread cb ∨ e = .runInLoop thread cb := by
  simp only [RemotePush, List.mem_append, List.mem_singleton]
  constructor
  · rintro ⟨thread, hother, cb, (hold | hnew) | (hold | hnew)⟩
    · exact Or.inl ⟨thread, hother, cb, Or.inl hold⟩
    · exact Or.inr ⟨thread, hother, cb, Or.inl hnew.symm⟩
    · exact Or.inl ⟨thread, hother, cb, Or.inr hold⟩
    · exact Or.inr ⟨thread, hother, cb, Or.inr hnew.symm⟩
  · rintro (⟨thread, hother, cb, h⟩ | ⟨thread, hother, cb, h⟩)
    · exact ⟨thread, hother, cb, h.imp Or.inl Or.inl⟩
    · exact ⟨thread, hother, cb, h.imp (fun h => Or.inr h.symm) (fun h => Or.inr h.symm)⟩

omit [DecidableEq T] in
theorem woken_snoc {es : List (LoopEvent T F)} {e : LoopEvent T F} :
    Woken (es ++ [e]) ↔ Woken es ∨ ∃ thread, e = .wakeup thread := by
  simp [Woken, exists_or, eq_comm]

/-- A step that neither pushes nor writes `wakeupFd_`. -/
def quietEvent (loopThread : T) : LoopEvent T F → Bool
  | .queueInLoop _ _ | .wakeup _ => false
  | .runInLoop thread _ => thread == loopThread
  | _ => true

theorem Before.quiet {s t : EventLoop T F} {es : List (LoopEvent T F)} {e : LoopEvent T F}
    (h : Before es s) (hquiet : quietEvent s.threadId_ e = true)
    (hthread : t.threadId_ = s.threadId_) (hpending : t.pendingFunctor_ = s.pendingFunctor_)
    (hcounter : t.wakeupFd_ = s.wakeupFd_)
    (howes : ∀ u, u ≠ s.threadId_ → (t.owesWakeup u ↔ s.owesWakeup u)) :
    Before (es ++ [e]) t := by
  have hown : OwnPush s.threadId_ (es ++ [e]) ↔ OwnPush s.threadId_ es := by
    rw [ownPush_snoc, or_iff_left]
    rintro ⟨cb, he⟩
    simp [he, quietEvent] at hquiet
  have hremote : RemotePush s.threadId_ (es ++ [e]) ↔ RemotePush s.threadId_ es := by
    rw [remotePush_snoc, or_iff_left]
    rintro ⟨u, hu, cb, he | he⟩
    · simp [he, quietEvent] at hquiet
    · simp [he, quietEvent, hu] at hquiet
  have hwoken : Woken (es ++ [e]) ↔ Woken es := by
    rw [woken_snoc, or_iff_left]
    rintro ⟨u, he⟩
    simp [he, quietEvent] at hquiet
  constructor
  · rw [hpending, hthread, hown, hremote, h.pending]
  · rw [hcounter, hwoken, h.counter]
  · rw [hthread, hremote, hwoken]
    intro hpush
    rcases h.owed hpush with hold | ⟨u, hu, howed⟩
    · exact Or.inl hold
    · exact Or.inr ⟨u, hu, (howes u hu).mpr howed⟩
  · rw [hthread, hremote]
    intro u hu howed
    exact h.pushed u hu ((howes u hu).mp howed)

theorem Before.push {s : EventLoop T F} {es : List (LoopEvent T F)} {e : LoopEvent T F}
    (h : Before es s) {thread : T} {cb : F}
    (he : e = .queueInLoop thread cb ∨ e = .runInLoop thread cb ∧ thread ≠ s.threadId_) :
    Before (es ++ [e]) (s.queueInLoop thread cb) := by
  have hwoken : Woken (es ++ [e]) ↔ Woken es := by
    rw [woken_snoc, or_iff_left]
    rintro ⟨u, hu⟩
    rcases he with he | ⟨he, _⟩ <;> simp [he] at hu
  have hothers : ∀ u, u ≠ thread → ((s.queueInLoop thread cb).owesWakeup u ↔ s.owesWakeup u) := by
    intro u hu
    simp [queueInLoop, owesWakeup, hu]
  constructor
  · refine ⟨fun _ => ?_, fun _ => by simp [queueInLoop]⟩
    change OwnPush s.threadId_ _ ∨ RemotePush s.threadId_ _
    by_cases hself : thread = s.threadId_
    · exact Or.inl (ownPush_snoc.mpr (Or.inr ⟨cb, hself ▸ he.resolve_right fun h => h.2 hself⟩))
    · exact Or.inr (remotePush_snoc.mpr
        (Or.inr ⟨thread, hself, cb, he.imp id And.left⟩))
  · rw [hwoken]
    exact h.counter
  · intro hpush
    rw [hwoken]
    change RemotePush s.threadId_ _ at hpush
    by_cases hself : thread = s.threadId_
    · have hold : RemotePush s.threadId_ es := by
        refine (remotePush_snoc.mp hpush).resolve_right ?_
        rintro ⟨u, hu, cb', hnew | hnew⟩
        · rcases he with he | ⟨_, hne⟩
          · rw [he] at hnew
            cases hnew
            exact hu hself
          · exact hne hself
        · rcases he with he | ⟨_, hne⟩
          · simp [he] at hnew
          · exact hne hself
      rcases h.owed hold with hw | ⟨u, hu, howed⟩
      · exact Or.inl hw
      · exact Or.inr ⟨u, hu, (hothers u (hself ▸ hu)).mpr howed⟩
    · exact Or.inr ⟨thread, hself, Or.inl (Function.update_self ..)⟩
  · intro u hu howed
    change RemotePush s.threadId_ _
    by_cases hut : u = thread
    · subst hut
      exact remotePush_snoc.mpr (Or.inr ⟨u, hu, cb, he.imp id And.left⟩)
    · exact remotePush_snoc.mpr (Or.inl (h.pushed u hu ((hothers u hut).mp howed)))

theorem Before.wakeup {s : EventLoop T F} {es : List (LoopEvent T F)} {thread : T}
    (h : Before es s) : Before (es ++ [.wakeup thread]) (s.wakeup thread) := by
  have hwoken : Woken (es ++ [(.wakeup thread : LoopEvent T F)]) :=
    woken_snoc.mpr (Or.inr ⟨thread, rfl⟩)
  constructor
  · change s.pendingFunctor_ ≠ [] ↔ OwnPush s.threadId_ _ ∨ RemotePush s.threadId_ _
    rw [h.pending, ownPush_snoc, remotePush_snoc]
    simp
  · exact iff_of_true (wakeup_readable s thread) hwoken
  · exact fun _ => Or.inl hwoken
  · intro u hu howed
    have hold : s.owesWakeup u := by
      by_cases hut : u = thread
      · simp [EventLoop.wakeup, owesWakeup, hut] at howed
      · simpa [EventLoop.wakeup, owesWakeup, hut] using howed
    exact remotePush_snoc.mpr (Or.inl (h.pushed u hu hold))

theorem Before.call {s t : EventLoop T F} {es : List (LoopEvent T F)} {e : LoopEvent T F}
    {thread : T} (h : Before es s) (hcaller : caller e = some thread)
    (hstep : s.step e = some t) : Before (es ++ [e]) t := by
  cases called_of_step hcaller hstep with
  | queueInLoop cb hmay => exact h.push (Or.inl rfl)
  | runInLoop cb hmay =>
    rw [runInLoop]
    by_cases hself : s.threadId_ = thread
    · simp only [isInLoopThread, hself, decide_true, if_true]
      exact h.quiet (by simp [quietEvent, hself]) rfl rfl rfl fun _ _ => Iff.rfl
    · simp only [isInLoopThread, hself, decide_false, Bool.false_eq_true, if_false]
      exact h.push (Or.inr ⟨rfl, fun hu => hself hu.symm⟩)
  | queueTest hqueued =>
    have howes : s.owesWakeup thread := Or.inl hqueued
    rw [queueTest]
    split
    · refine h.quiet rfl rfl rfl rfl fun v _ => ?_
      by_cases hv : v = thread
      · subst hv
        exact iff_of_true (Or.inr (Function.update_self ..)) howes
      · simp [owesWakeup, hv]
    · rename_i hskip
      simp only [isInLoopThread, Bool.or_eq_true, Bool.not_eq_true', decide_eq_false_iff_not,
        not_or, not_not] at hskip
      refine h.quiet rfl rfl rfl rfl fun v hv => ?_
      have hvu : v ≠ thread := fun hvu => hv (hvu.trans hskip.1.symm)
      simp [owesWakeup, hvu]
  | quit hmay =>
    have hidle := (mayCall_iff.mp hmay).1
    refine h.quiet rfl rfl rfl rfl fun v _ => ?_
    by_cases hv : v = thread
    · simp [quit, owesWakeup, hv, hidle]
    · simp [quit, owesWakeup, hv]
  | quitTest hquitting =>
    rw [quitTest]
    split
    · refine h.quiet rfl rfl rfl rfl fun v _ => ?_
      by_cases hv : v = thread
      · simp [owesWakeup, hv, hquitting]
      · simp [owesWakeup, hv]
    · refine h.quiet rfl rfl rfl rfl fun v _ => ?_
      by_cases hv : v = thread
      · simp [owesWakeup, hv, hquitting]
      · simp [owesWakeup, hv]
  | wakeup hwaking => exact h.wakeup

theorem Before.advance {s t : EventLoop T F} {es : List (LoopEvent T F)} (hwf : Wf s)
    (h : early s → Before es s) (hstep : s.advance = some t) (ht : early t) :
    Before (es ++ [.advance]) t := by
  rcases ht with ⟨hswaps, hpc⟩
  have hquiet (u : EventLoop T F) (hs : early s) (hthread : u.threadId_ = s.threadId_)
      (hpending : u.pendingFunctor_ = s.pendingFunctor_) (hcounter : u.wakeupFd_ = s.wakeupFd_)
      (hcalls : u.calls = s.calls) : Before (es ++ [.advance]) u :=
    (h hs).quiet rfl hthread hpending hcounter fun v _ => by simp only [owesWakeup, hcalls]
  -- the loop over the functors comes after a swap
  have hlate (hat : s.pc = .executing) : s.swaps ≠ 0 := by
    intro hzero
    have hbatch := hwf.first hzero
    simp [hat, inBatch] at hbatch
  cases advanced_of_advance hstep with
  | constructed hat => exact hquiet _ ⟨hswaps, Or.inl (by rw [hat]; rfl)⟩ rfl rfl rfl rfl
  | resetting hat => exact hquiet _ ⟨hswaps, Or.inl (by rw [hat]; rfl)⟩ rfl rfl rfl rfl
  | entering hat hquit => exact hquiet _ ⟨hswaps, Or.inr (Or.inl hat)⟩ rfl rfl rfl rfl
  | finished hat hfunctors => exact absurd hswaps (hlate hat)
  | executing hat hfunctors => exact absurd hswaps (hlate hat)
  | wakeupRead hat rest => simp [hat, handleRead, beforeReset] at hpc
  | swapping hat => simp [EventLoop.swap] at hswaps
  | _ hat => simp [beforeReset] at hpc

omit [DecidableEq T] in
theorem advance_polling {s t : EventLoop T F} (hstep : s.advance = some t)
    (hpoll : t.pc = .polling) : s.pc = .clearing := by
  cases advanced_of_advance hstep with
  | clearing hat => exact hat
  | wakeupRead hat rest => simp [hat, handleRead] at hpoll
  | swapping hat => simp [EventLoop.swap] at hpoll
  | _ hat => simp at hpoll

theorem run_before {thread : T} {s : EventLoop T F} {es : List (LoopEvent T F)}
    (hrun : Run step (new thread) es s) : early s → Before es s := by
  refine hrun.history (I := fun es s => early s → Before es s) (fun _ => new_before thread) ?_
  intro fs u e v hpre hold hstep hearly
  cases hcaller : caller e with
  | some w =>
    have hcall := call_step hcaller hstep
    have hu : early u := by simpa only [early, hcall.swaps, hcall.pc] using hearly
    exact (hold hu).call hcaller hstep
  | none =>
    cases looped_of_step hcaller hstep with
    | pollReturns active hpc hreadable => simp [early, beforeReset] at hearly
    | advance hidle hadvance =>
      have hinv : Inv False u := hpre.invariant (fun _ _ _ hs => hs.step (by simp)) (new_inv _ _)
      exact Before.advance hinv.wf hold hadvance hearly

end EventLoop

/-! ### The first `poll` -/

section FirstPoll

open EventLoop

variable {T F : Type} [DecidableEq T]

/-- **What the first `poll` keeps.**  When the loop's thread enters its first `poll`, no
    returned `quit()` has been taken back and no functor goes unnoticed, exactly when

    * no `quit()` has returned, or some `quit()` came after the reset in `loop()`, and
    * the loop's thread has queued nothing itself, or another thread has queued a functor
      or written `wakeupFd_`. -/
theorem first_poll_keeps_requests_iff {thread : T} {s t : EventLoop T F}
    {es : List (LoopEvent T F)} (hrun : Run EventLoop.step (EventLoop.new thread) es s)
    (hfirst : s.swaps = 0) (henter : s.step .advance = some t) (hpoll : t.pc = .polling) :
    KeepsRequests t ↔
      (t.quitReturned = true → QuitAfterReset (EventLoop.new thread) es) ∧
      (OwnPush thread es → RemotePush thread es ∨ Woken es) := by
  simp only [EventLoop.step, Option.ite_none_right_eq_some] at henter
  rcases henter with ⟨hidle, hadvance⟩
  have hpc : s.pc = .clearing := advance_polling hadvance hpoll
  simp only [EventLoop.advance, hpc, Option.some.injEq] at hadvance
  subst hadvance
  have hthread : s.threadId_ = thread := run_threadId hrun
  have hquit : QuitAfterReset (EventLoop.new thread) es ↔ s.quit_ = true := by
    have hhistory := run_quitHistory hrun
    rw [QuitHistory, hpc] at hhistory
    simpa [beforeReset] using hhistory
  have hbefore : Before es s := run_before hrun ⟨hfirst, Or.inr (Or.inr hpc)⟩
  rw [hquit]
  refine and_congr Iff.rfl ?_
  change (s.pendingFunctor_ ≠ [] → s.wakeupFd_ ≠ 0 ∨ ∃ u, s.owesWakeup u) ↔ _
  rw [hbefore.counter, hbefore.pending, hthread]
  constructor
  · intro h hown
    rcases h (Or.inl hown) with hwoken | ⟨u, howes⟩
    · exact Or.inr hwoken
    · have hu : u ≠ s.threadId_ := fun hu => howes.not_idle (hu ▸ hidle)
      exact Or.inl (hthread ▸ hbefore.pushed u hu howes)
  · intro h hpush
    have hremote : RemotePush thread es ∨ Woken es := hpush.elim h Or.inl
    rcases hremote with hremote | hwoken
    · rcases hbefore.owed (hthread ▸ hremote) with hwoken | ⟨u, _, howes⟩
      · exact Or.inl hwoken
      · exact Or.inr ⟨u, howes⟩
    · exact Or.inl hwoken

/-- A functor that another thread queues before `loop()` is noticed. -/
theorem first_poll_keeps_requests_iff_remote_push :
    ∃ s t : EventLoop Nat Nat,
      Run EventLoop.step (EventLoop.new 0) [.queueInLoop 1 7, .advance, .advance, .advance] s ∧
      s.step .advance = some t ∧ KeepsRequests t := by
  obtain ⟨s, hrun, hends⟩ := exists_run EventLoop.step (EventLoop.new 0)
    [.queueInLoop 1 7, .advance, .advance, .advance]
    (fun s : EventLoop Nat Nat =>
      (s.swaps, (s.step .advance).map fun t => (t.pc, t.quitReturned)))
    (0, some (.polling, false)) rfl
  simp only [Prod.mk.injEq, Option.map_eq_some_iff] at hends
  rcases hends with ⟨hfirst, t, henter, hpoll, hreturned⟩
  refine ⟨s, t, hrun, henter, (first_poll_keeps_requests_iff hrun hfirst henter hpoll).mpr ?_⟩
  exact ⟨by simp [hreturned], by simp [OwnPush]⟩

/-- A `quit()` between the publication of the loop and `loop()` is taken back, and the
    functor of an init callback is slept on. -/
theorem first_poll_loses_requests :
    (∃ t : EventLoop Nat Nat,
      Run EventLoop.step (EventLoop.new 0)
        [.quit 1, .quitTest 1, .wakeup 1, .advance, .advance, .advance, .advance] t ∧
      t.pc = .polling ∧ t.quitReturned = true ∧ t.quit_ = false) ∧
    ∃ t : EventLoop Nat Nat,
      Run EventLoop.step (EventLoop.new 0)
        [.queueInLoop 0 7, .queueTest 0, .advance, .advance, .advance, .advance] t ∧
      t.pc = .polling ∧ t.pendingFunctor_ = [7] ∧ t.wakeupFd_ = 0 ∧
      ∀ thread, ¬ t.owesWakeup thread := by
  constructor
  · obtain ⟨t, hrun, hends⟩ := exists_run EventLoop.step (EventLoop.new 0)
      [.quit 1, .quitTest 1, .wakeup 1, .advance, .advance, .advance, .advance]
      (fun t : EventLoop Nat Nat => (t.pc, t.quitReturned, t.quit_)) (.polling, true, false) rfl
    simp only [Prod.mk.injEq] at hends
    exact ⟨t, hrun, hends⟩
  · obtain ⟨t, hrun, hends⟩ := exists_run EventLoop.step (EventLoop.new 0)
      [.queueInLoop 0 7, .queueTest 0, .advance, .advance, .advance, .advance]
      (fun t : EventLoop Nat Nat => (t.pc, t.pendingFunctor_, t.wakeupFd_, t.calls))
      (.polling, [7], 0, Function.update (Function.update (fun _ => .idle) 0 .queued) 0 .idle) rfl
    simp only [Prod.mk.injEq] at hends
    rcases hends with ⟨hpc, hpending, hcounter, hcalls⟩
    refine ⟨t, hrun, hpc, hpending, hcounter, ?_⟩
    intro thread
    by_cases hown : thread = 0
    · simp [owesWakeup, hcalls, hown]
    · simp [owesWakeup, hcalls, hown]

end FirstPoll

end Muduo
