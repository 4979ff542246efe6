import Muduo.EventLoopThread

/-!
# How `startLoop` comes to an end

Before the destructor is called, the owner in `startLoop` and the thread in `threadFunc` have
each of them the mutex only in its own sections, and a published loop finds the owner awake or
is about to notify it.  So one of the two can go on until `startLoop` returns, and every step
but a wait that returns by itself brings both nearer to their ends.
-/

namespace Muduo

open Transitions

namespace EventLoopThread

/-- The destructor has not been called. -/
def undestroyed : OwnerPc → Bool
  | .destroying | .quitting | .joining | .freeing | .destroyed => false
  | _ => true

/-- The thread has the mutex. -/
def inSection : LoopThreadPc → Bool
  | .publishing | .notifying | .unlocking | .clearing | .returning => true
  | _ => false

/-- The init callback has run. -/
def initialized : LoopThreadPc → Bool
  | .unstarted | .posting | .initializing => false
  | _ => true

/-- What holds before the destructor, whatever the loop does. -/
structure Handshaking (s : EventLoopThread) : Prop extends Inv s where
  alive : undestroyed s.owner = true
  started : s.thread = .unstarted → s.owner = .constructed
  ownerMutex : s.mutex_ = some .owner ↔ s.owner = .testing
  threadMutex : s.mutex_ = some .thread ↔ inSection s.thread = true
  /-- The notification of a published loop is still to come. -/
  waits : s.owner = .waiting → hasLoop s.thread = true → s.thread = .notifying

theorem new_handshaking : Handshaking new where
  toInv := new_inv
  alive := rfl
  started _ := rfl
  ownerMutex := by decide
  threadMutex := by decide
  waits h := by cases h

theorem Handshaking.stepOwner {s t : EventLoopThread} (h : Handshaking s)
    (hstep : s.stepOwner = some t) : Handshaking t := by
  have hinv := h.toInv.stepOwner hstep
  have halive := h.alive
  have hstarted := h.started
  have howner := h.ownerMutex
  have hthread := h.threadMutex
  have hloop := h.loop_eq
  unfold EventLoopThread.stepOwner at hstep
  cases hpc : s.owner <;> simp only [hpc] at hstep halive hstarted howner
  case constructed =>
    cases hstep
    rw [h.fresh hpc] at hthread
    refine ⟨hinv, rfl, fun hu => (by cases hu), by simpa using howner, ?_, fun hw => (by cases hw)⟩
    simpa [inSection] using hthread
  case starting =>
    split at hstep
    · cases hstep
    · cases hstep
      exact ⟨hinv, rfl, fun hu => (by cases hstarted hu), by simpa using howner, hthread,
        fun hw => (by cases hw)⟩
  case locking | notified =>
    split at hstep
    · rename_i hfree
      cases hstep
      rw [hfree] at hthread
      refine ⟨hinv, rfl, fun hu => (by cases hstarted hu), by simp, ?_, fun hw => (by cases hw)⟩
      simpa using hthread
    · cases hstep
  case testing =>
    cases hstep
    have hmutex : s.mutex_ = some .owner := h.ownerMutex.mpr hpc
    rw [hmutex] at hthread
    have hout : ¬ inSection s.thread = true := fun hin => by simpa using hthread.mpr hin
    refine ⟨hinv, ?_, fun hu => (by cases hstarted hu), ?_, by simpa using hout, ?_⟩
    · cases s.loop_ <;> rfl
    · cases s.loop_ <;> simp
    · intro hw hhas
      rw [← hloop] at hhas
      rw [if_pos hhas] at hw
      cases hw
  case waiting | started => cases hstep
  all_goals cases halive

theorem Handshaking.stepThread {s t : EventLoopThread} (h : Handshaking s)
    (hstep : s.stepThread = some t) : Handshaking t := by
  have hinv := h.toInv.stepThread hstep
  have hstarted := h.started
  have howner := h.ownerMutex
  have hthread := h.threadMutex
  have hwaits := h.waits
  unfold EventLoopThread.stepThread at hstep
  cases hpc : s.thread <;> simp only [hpc] at hstep hthread hwaits
  case posting | initializing =>
    cases hstep
    exact ⟨hinv, h.alive, fun hu => (by cases hu), howner, by simpa [inSection] using hthread,
      fun _ hhas => (by cases hhas)⟩
  case locking | relocking =>
    split at hstep
    · rename_i hfree
      cases hstep
      rw [hfree] at howner
      refine ⟨hinv, h.alive, fun hu => (by cases hu), by simpa using howner, by simp [inSection],
        ?_⟩
      intro hw hhas
      first | cases hwaits hw rfl | cases hhas
    · cases hstep
  case publishing =>
    cases hstep
    exact ⟨hinv, h.alive, fun hu => (by cases hu), howner, by simpa [inSection] using hthread,
      fun _ _ => rfl⟩
  case notifying =>
    cases hstep
    have hmutex : s.mutex_ = some .thread := hthread.mpr rfl
    have htesting : s.owner ≠ .testing := fun ht => by simpa [hmutex] using howner.mpr ht
    refine ⟨hinv, ?_, fun hu => (by cases hu), ?_, by simpa [inSection] using hthread, ?_⟩
    · split
      · rfl
      · exact h.alive
    · split
      · simp [hmutex]
      · exact howner
    · intro hw
      split at hw
      · cases hw
      · contradiction
  case unlocking | returning =>
    cases hstep
    have hmutex : s.mutex_ = some .thread := hthread.mpr rfl
    rw [hmutex] at howner
    refine ⟨hinv, h.alive, fun hu => (by cases hu), by simpa using howner, by simp [inSection], ?_⟩
    intro hw hhas
    first | cases hwaits hw rfl | cases hhas
  case entering =>
    cases hstep
    exact ⟨hinv, h.alive, fun hu => (by cases hu), howner, by simpa [inSection] using hthread,
      fun hw _ => (by cases hwaits hw rfl)⟩
  case looping =>
    split at hstep
    · cases hstep
      exact ⟨hinv, h.alive, fun hu => (by cases hu), howner, by simpa [inSection] using hthread,
        fun hw _ => (by cases hwaits hw rfl)⟩
    · cases hstep
  case clearing =>
    cases hstep
    exact ⟨hinv, h.alive, fun hu => (by cases hu), howner, by simpa [inSection] using hthread,
      fun _ hhas => (by cases hhas)⟩
  case unstarted | finished => cases hstep

theorem Handshaking.step {s t : EventLoopThread} {e : HandshakeEvent} (h : Handshaking s)
    (he : e ≠ .destroy) (hstep : EventLoopThread.step s e = some t) : Handshaking t := by
  have hinv := h.toInv.step hstep
  cases e with
  | owner => exact h.stepOwner hstep
  | thread => exact h.stepThread hstep
  | destroy => exact absurd rfl he
  | wake =>
    simp only [EventLoopThread.step, Option.ite_none_right_eq_some, Option.some.injEq] at hstep
    obtain ⟨hpc, rfl⟩ := hstep
    have howner := h.ownerMutex
    rw [hpc] at howner
    refine ⟨hinv, rfl, fun hu => ?_, by simpa using howner, h.threadMutex, fun hw => (by cases hw)⟩
    cases hpc.symm.trans (h.started hu)
  | quitItself =>
    simp only [EventLoopThread.step, Option.ite_none_right_eq_some, Option.some.injEq] at hstep
    obtain ⟨_, rfl⟩ := hstep
    exact ⟨hinv, h.alive, h.started, h.ownerMutex, h.threadMutex, h.waits⟩

/-- When `startLoop` has returned, the loop has been published. -/
theorem Handshaking.published {s : EventLoopThread} (h : Handshaking s)
    (hstarted : s.owner = .started) : hasLoop s.thread = true ∨ cleared s.thread = true := by
  refine (h.seen (by rw [hstarted]; rfl)).resolve_left fun hu => ?_
  cases hstarted.symm.trans (h.started hu)

theorem Handshaking.free {s : EventLoopThread} (h : Handshaking s) (howner : s.owner ≠ .testing)
    (hthread : inSection s.thread = false) : s.mutex_ = none := by
  cases hmutex : s.mutex_ with
  | none => rfl
  | some side =>
    cases side with
    | owner => exact absurd (h.ownerMutex.mp hmutex) howner
    | thread =>
      rw [h.threadMutex.mp hmutex] at hthread
      cases hthread

/-- While `startLoop` has not returned one of the two threads can go on, unless the loop has
    ended early. -/
theorem Handshaking.progress {s : EventLoopThread} (h : Handshaking s)
    (hlate : cleared s.thread = false) (hpc : s.owner ≠ .started) :
    (∃ t, s.stepOwner = some t) ∨ ∃ t, s.stepThread = some t := by
  have halive := h.alive
  have hinside : inSection s.thread = true → ∃ t, s.stepThread = some t := by
    intro hin
    unfold EventLoopThread.stepThread
    cases hthread : s.thread <;> simp [hthread, inSection] at hin ⊢
  cases howner : s.owner <;> simp only [howner] at halive hpc
  case constructed => exact Or.inl ⟨_, by rw [EventLoopThread.stepOwner, howner]⟩
  case testing => exact Or.inl ⟨_, by rw [EventLoopThread.stepOwner, howner]⟩
  case starting =>
    by_cases hposting : s.thread = .posting
    · exact Or.inr ⟨_, by rw [EventLoopThread.stepThread, hposting]⟩
    · have hrun : s.thread ≠ .unstarted := fun hu => by cases howner.symm.trans (h.started hu)
      left
      simp [EventLoopThread.stepOwner, howner, hposting, hrun]
  case locking | notified =>
    cases hin : inSection s.thread with
    | true => exact Or.inr (hinside hin)
    | false =>
      have hfree := h.free (by rw [howner]; decide) hin
      left
      simp [EventLoopThread.stepOwner, howner, hfree]
  case waiting =>
    cases hin : inSection s.thread with
    | true => exact Or.inr (hinside hin)
    | false =>
      have hmutex := h.free (by rw [howner]; decide) hin
      have hwaits := h.waits howner
      have hstarted := h.started
      right
      unfold EventLoopThread.stepThread
      cases hthread : s.thread <;>
        simp_all [hasLoop, cleared, inSection]
  case started => exact absurd rfl hpc
  all_goals cases halive

/-- The owner that has returned from `startLoop` stays there. -/
theorem started_of_step {s t : EventLoopThread} {e : HandshakeEvent} (he : e ≠ .destroy)
    (hstarted : s.owner = .started) (hstep : EventLoopThread.step s e = some t) :
    t.owner = .started := by
  cases e with
  | owner => simp [EventLoopThread.step, EventLoopThread.stepOwner, hstarted] at hstep
  | thread =>
    cases threadStepped_of_stepThread hstep with
    | notify _ hwaiting => cases hstarted.symm.trans hwaiting
    | _ => exact hstarted
  | destroy => exact absurd rfl he
  | wake => simp [EventLoopThread.step, hstarted] at hstep
  | quitItself =>
    simp only [EventLoopThread.step, Option.ite_none_right_eq_some, Option.some.injEq] at hstep
    obtain ⟨_, rfl⟩ := hstep
    exact hstarted

/-- The init callback runs in the thread's step from it, and in no other. -/
theorem Handshaking.initialized_of_step {s t : EventLoopThread} {e : HandshakeEvent}
    (h : Handshaking s) (hstep : EventLoopThread.step s e = some t) :
    initialized t.thread =
      (initialized s.thread || decide (e = .thread ∧ s.thread = .initializing)) := by
  cases e with
  | owner =>
    have hsame : initialized t.thread = initialized s.thread := by
      cases ownerStepped_of_stepOwner hstep with
      | start hpc =>
        rw [h.fresh hpc]
        rfl
      | _ => rfl
    rw [hsame]
    simp
  | thread =>
    simp only [EventLoopThread.step, EventLoopThread.stepThread] at hstep
    cases hpc : s.thread <;> simp only [hpc] at hstep
    case locking | looping | relocking =>
      split at hstep
      · cases hstep
        rfl
      · cases hstep
    case unstarted | finished => cases hstep
    all_goals
      cases hstep
      rfl
  | destroy | wake | quitItself =>
    simp only [EventLoopThread.step, Option.ite_none_right_eq_some, Option.some.injEq] at hstep
    obtain ⟨_, rfl⟩ := hstep
    simp

/-- The steps that `threadFunc` and, after a notification, the owner have left. -/
def threadLeft : LoopThreadPc → Nat
  | .posting => 13
  | .initializing => 12
  | .locking => 11
  | .publishing => 10
  | .notifying => 9
  | .unlocking => 6
  | .entering => 5
  | .looping => 4
  | .relocking => 3
  | .clearing => 2
  | .returning => 1
  | .unstarted | .finished => 0

/-- The steps that `startLoop` has left, with those of the thread that it starts. -/
def ownerLeft : OwnerPc → Nat
  | .constructed => 17
  | .starting => 3
  | .locking | .notified => 2
  | .testing => 1
  | _ => 0

def left (s : EventLoopThread) : Nat := ownerLeft s.owner + threadLeft s.thread

theorem left_new : left new = 17 := rfl

/-- The steps that take the two threads on. -/
def cost : HandshakeEvent → Nat
  | .owner | .thread => 1
  | _ => 0

/-- A wait that returns by itself is gone through again. -/
def income : HandshakeEvent → Nat
  | .wake => 2
  | _ => 0

theorem Handshaking.left_step {s t : EventLoopThread} {e : HandshakeEvent} (h : Handshaking s)
    (he : e ≠ .destroy) (hstep : EventLoopThread.step s e = some t) :
    t.left + cost e ≤ s.left + income e := by
  cases e with
  | owner =>
    have halive := h.alive
    simp only [EventLoopThread.step, EventLoopThread.stepOwner] at hstep
    cases hpc : s.owner <;> simp only [hpc] at hstep halive
    case constructed =>
      cases hstep
      simp only [left, hpc, ownerLeft, threadLeft, cost, income]
      omega
    case starting =>
      split at hstep
      · cases hstep
      · cases hstep
        simp only [left, hpc, ownerLeft, cost, income]
        omega
    case locking | notified =>
      split at hstep
      · cases hstep
        simp only [left, hpc, ownerLeft, cost, income]
        omega
      · cases hstep
    case testing =>
      cases hstep
      cases s.loop_ <;> simp [left, hpc, ownerLeft, cost, income, Nat.add_comm]
    case waiting | started => cases hstep
    all_goals cases halive
  | thread =>
    simp only [EventLoopThread.step, EventLoopThread.stepThread] at hstep
    cases hpc : s.thread <;> simp only [hpc] at hstep
    case locking | looping | relocking =>
      split at hstep
      · cases hstep
        simp only [left, hpc, threadLeft, cost, income]
        omega
      · cases hstep
    case notifying =>
      cases hstep
      simp only [left, hpc, threadLeft, cost, income]
      split
      · simp only [ownerLeft]
        omega
      · omega
    case unstarted | finished => cases hstep
    all_goals
      cases hstep
      simp only [left, hpc, threadLeft, cost, income]
      omega
  | destroy => exact absurd rfl he
  | wake =>
    simp only [EventLoopThread.step, Option.ite_none_right_eq_some, Option.some.injEq] at hstep
    obtain ⟨hpc, rfl⟩ := hstep
    simp only [left, hpc, ownerLeft, cost, income]
    omega
  | quitItself =>
    simp only [EventLoopThread.step, Option.ite_none_right_eq_some, Option.some.injEq] at hstep
    obtain ⟨_, rfl⟩ := hstep
    exact Nat.le_refl _

end EventLoopThread

end Muduo
