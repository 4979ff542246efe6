import Muduo.TimerInvariants

/-!
# Who deletes a `Timer`

`addTimerInLoop` gives a timer to the queue, and three places delete one: `cancelInLoop` when
the timer is active, `reset` when a timer of the batch is not restarted, and the destructor
for what is left in `timers_`.  Beside the queue, which logs every `delete`, a ledger records
the timers inserted and those that the batch in execution has taken out.

A timer goes by the id that `addTimer` returns for it, since its address can be given to
another one.  Inside an event nothing is allocated: a pointer to a timer that the event has
deleted points at nothing, and to follow it or to delete it again is a fault.  Between events
the pointers in the two sets and in the batch belong to the timers they were stored for.
-/

namespace Muduo

open Transitions

namespace TimerQueue

/-! ### The deletes -/

/-- `reset` deletes timers of the batch, each at most once. -/
theorem spent_sublist (q : TimerQueue) (expired : List Entry) :
    (expired.flatMap q.spent).Sublist (expired.map fun e => q.idAt e.second) := by
  induction expired with
  | nil => exact List.Sublist.refl []
  | cons e expired ih =>
    have hround : (q.spent e).Sublist [q.idAt e.second] := by
      rw [spent]
      split
      · split
        · exact List.nil_sublist _
        · exact List.Sublist.refl _
      · exact List.nil_sublist _
    exact hround.append ih

theorem nodup_idAt {q : TimerQueue} {entries : List Entry}
    (h : (entries.map Entry.second).Nodup) : (entries.map fun e => q.idAt e.second).Nodup := by
  apply List.Nodup.of_map TimerId.timer_
  rw [List.map_map]
  exact h

/-- Timers at different addresses are deleted one by one. -/
theorem delete_fold {q : TimerQueue} {entries : List Entry}
    (hlive : ∀ e ∈ entries, ∃ t, q.heap e.second = some t)
    (hdistinct : (entries.map Entry.second).Nodup) :
    ∃ q', entries.foldlM (fun q timer => q.delete timer.second) q = .ok q' ∧
      q'.deleted = q.deleted ++ entries.map fun e => q.idAt e.second := by
  induction entries generalizing q with
  | nil => exact ⟨q, rfl, (List.append_nil _).symm⟩
  | cons e entries ih =>
    obtain ⟨t, ht⟩ := hlive e (List.mem_cons_self ..)
    obtain ⟨hfresh, hrest⟩ := List.nodup_cons.mp hdistinct
    have hkept : ∀ f ∈ entries, (q.dropped e.second t).heap f.second = q.heap f.second := by
      intro f hf
      apply Function.update_of_ne
      intro hsame
      apply hfresh
      rw [← hsame]
      exact List.mem_map_of_mem hf
    obtain ⟨q', hfold, hdeleted⟩ := ih (q := q.dropped e.second t)
      (fun f hf => (hlive f (List.mem_cons_of_mem _ hf)).imp fun _ hu => (hkept f hf).trans hu)
      hrest
    refine ⟨q', ?_, ?_⟩
    · rw [List.foldlM_cons, delete_eq_ok ht]
      exact hfold
    · have hsame : ∀ f ∈ entries, (q.dropped e.second t).idAt f.second = q.idAt f.second :=
        fun f hf => idAt_congr (hkept f hf)
      rw [hdeleted, List.map_congr_left hsame, List.map_cons, idAt_eq ht, dropped,
        List.append_assoc, List.singleton_append]

end TimerQueue

/-! ### The ledger -/

structure TimerLedger where
  world : TimerWorld
  /-- The timers that `addTimerInLoop` has inserted. -/
  inserted : List TimerId
  /-- The timers that the batch in execution took out, when it did. -/
  taken : List TimerId

namespace TimerWorld

def inserts (w : TimerWorld) : TimerEvent → List TimerId
  | .addTimerInLoop timer => [w.queue.idAt timer]
  | _ => []

end TimerWorld

namespace TimerLedger

def start : TimerLedger := ⟨TimerWorld.start, [], []⟩

/-- The deletes so far. -/
def freed (l : TimerLedger) : List TimerId := l.world.queue.deleted

/-- The timers in the batch after an event. -/
def takenAfter (l : TimerLedger) : TimerEvent → List TimerId
  | .handleRead now => (l.world.queue.due now).map fun it => l.world.queue.idAt it.second
  | .reset => []
  | _ => l.taken

def step (l : TimerLedger) (e : TimerEvent) : Option TimerLedger :=
  (l.world.step e).map fun world =>
    ⟨world, l.inserted ++ l.world.inserts e, l.takenAfter e⟩

end TimerLedger

/-! ### What the ledger keeps -/

/-- The books of a queue: what was inserted is active, or in the batch, or deleted. -/
structure TimerWorld.Owned (w : TimerWorld) (inserted taken : List TimerId) : Prop where
  taken_eq : taken = w.expired.map fun e => w.queue.idAt e.second
  active : ∀ x ∈ w.queue.activeTimers_, (⟨x.timer, x.sequence⟩ : TimerId) ∈ inserted
  taken_inserted : ∀ timerId ∈ taken, timerId ∈ inserted
  freed_inserted : ∀ timerId ∈ w.queue.deleted, timerId ∈ inserted
  issued : ∀ timerId ∈ inserted, timerId ∈ w.issued
  placed : ∀ timerId ∈ inserted, ⟨timerId.timer_, timerId.sequence_⟩ ∈ w.queue.activeTimers_ ∨
    timerId ∈ taken ∨ timerId ∈ w.queue.deleted
  /-- The address of a deleted timer is free, or another timer has it. -/
  dead : ∀ timerId ∈ w.queue.deleted, ∀ t, w.queue.heap timerId.timer_ = some t →
    t.sequence_ ≠ timerId.sequence_
  once : w.queue.deleted.Nodup

namespace TimerWorld

theorem start_owned : start.Owned [] [] where
  taken_eq := rfl
  active x hx := absurd hx (OrdSet.not_mem_empty x)
  taken_inserted _ h := h
  freed_inserted _ h := h
  issued _ h := by cases h
  placed _ h := by cases h
  dead _ h := by cases h
  once := List.nodup_nil

variable {w w' : TimerWorld} {inserted taken : List TimerId}

/-- An event that leaves the heap, the active timers and the batch alone. -/
theorem Owned.frame (h : w.Owned inserted taken)
    (hactive : w'.queue.activeTimers_ = w.queue.activeTimers_) (hexpired : w'.expired = w.expired)
    (hheap : w'.queue.heap = w.queue.heap) (hdeleted : w'.queue.deleted = w.queue.deleted)
    (hissued : w'.issued = w.issued) :
    w'.Owned inserted taken where
  taken_eq := by
    rw [h.taken_eq, hexpired]
    apply List.map_congr_left
    intro e _
    exact (TimerQueue.idAt_congr (congrFun hheap e.second)).symm
  active := by
    rw [hactive]
    exact h.active
  taken_inserted := h.taken_inserted
  freed_inserted := by
    rw [hdeleted]
    exact h.freed_inserted
  issued := by
    rw [hissued]
    exact h.issued
  placed := by
    rw [hactive, hdeleted]
    exact h.placed
  dead := by
    rw [hheap, hdeleted]
    exact h.dead
  once := by
    rw [hdeleted]
    exact h.once

theorem Owned.newTimer {timer : TimerPtr} (hw : w.Inv) (h : w.Owned inserted taken)
    (hfree : w.queue.heap timer = none) (when_ : Timestamp) (interval : Interval) :
    Owned { w with
      queue := w.queue.store timer (Timer.new when_ interval (w.s_numCreated_ + 1))
      s_numCreated_ := w.s_numCreated_ + 1
      created := timer :: w.created
      issued := ⟨timer, w.s_numCreated_ + 1⟩ :: w.issued } inserted taken where
  taken_eq := by
    rw [h.taken_eq]
    apply List.map_congr_left
    intro e he
    have hother : e.second ≠ timer := by
      intro hsame
      rcases hw.consistent.taken e he with ⟨t, ht, _⟩
      rw [hsame, hfree] at ht
      cases ht
    exact (TimerQueue.idAt_congr (Function.update_of_ne hother ..)).symm
  active := h.active
  taken_inserted := h.taken_inserted
  freed_inserted := h.freed_inserted
  issued timerId hin := List.mem_cons_of_mem _ (h.issued timerId hin)
  placed := h.placed
  dead timerId hfreed t ht := by
    by_cases hsame : timerId.timer_ = timer
    · -- the number of the new timer is greater than any that was given
      have hle := (hw.issued_le timerId (h.issued timerId (h.freed_inserted timerId hfreed))).2
      rw [hsame] at ht
      simp only [TimerQueue.store, Function.update_self, Option.some.injEq] at ht
      rw [← ht, Timer.new]
      simp only
      omega
    · exact h.dead timerId hfreed t ((Function.update_of_ne hsame ..).symm.trans ht)
  once := h.once

theorem Owned.addTimerInLoop {timer : TimerPtr} {t : Timer} (hw : w.Inv)
    (h : w.Owned inserted taken) (ht : w.queue.heap timer = some t) (fd : TimerFd) :
    Owned { w with
      queue := { w.queue.inserted timer t with timerfd_ := fd }
      created := w.created.erase timer } (inserted ++ [w.queue.idAt timer]) taken where
  taken_eq := h.taken_eq
  active x hx := by
    rcases OrdSet.mem_insert.mp hx with rfl | hold
    · rw [TimerQueue.idAt_eq ht]
      exact List.mem_append_right _ (List.mem_singleton_self _)
    · exact List.mem_append_left _ (h.active x hold)
  taken_inserted timerId hin := List.mem_append_left _ (h.taken_inserted timerId hin)
  freed_inserted timerId hin := List.mem_append_left _ (h.freed_inserted timerId hin)
  issued timerId hin := by
    rcases List.mem_append.mp hin with hold | hnew
    · exact h.issued timerId hold
    · rw [List.mem_singleton.mp hnew, TimerQueue.idAt_eq ht]
      exact (hw.numbered timer t ht).2
  placed timerId hin := by
    rcases List.mem_append.mp hin with hold | hnew
    · rcases h.placed timerId hold with hactive | helse
      · exact Or.inl (OrdSet.mem_insert.mpr (Or.inr hactive))
      · exact Or.inr helse
    · rw [List.mem_singleton.mp hnew, TimerQueue.idAt_eq ht]
      exact Or.inl (OrdSet.mem_insert.mpr (Or.inl rfl))
  dead := h.dead
  once := h.once

/-- A timer that an active timer's id belongs to has not been deleted. -/
theorem Owned.not_freed (h : w.Owned inserted taken) {timer : TimerPtr} {t : Timer}
    (ht : w.queue.heap timer = some t) : (⟨timer, t.sequence_⟩ : TimerId) ∉ w.queue.deleted := by
  intro hfreed
  exact h.dead _ hfreed t ht rfl

theorem Owned.cancelActive {timer : TimerPtr} {t : Timer} (hw : w.Inv)
    (h : w.Owned inserted taken) (ht : w.queue.heap timer = some t)
    (hactive : ⟨timer, t.sequence_⟩ ∈ w.queue.activeTimers_) :
    Owned { w with queue := w.queue.removed timer t } inserted taken where
  taken_eq := by
    rw [h.taken_eq]
    apply List.map_congr_left
    intro e he
    have hother : e.second ≠ timer := by
      intro hsame
      rcases hw.consistent.taken e he with ⟨u, hu, _, hout⟩
      rw [hsame, ht] at hu
      cases hu
      apply hout
      rw [hsame]
      exact hactive
    exact (TimerQueue.idAt_congr (Function.update_of_ne hother ..)).symm
  active x hx := h.active x (OrdSet.mem_erase.mp hx).2
  taken_inserted := h.taken_inserted
  freed_inserted timerId hin := by
    rcases List.mem_append.mp hin with hold | hnew
    · exact h.freed_inserted timerId hold
    · rw [List.mem_singleton.mp hnew]
      exact h.active _ hactive
  issued := h.issued
  placed timerId hin := by
    by_cases hsame : timerId = ⟨timer, t.sequence_⟩
    · rw [hsame]
      exact Or.inr (Or.inr (List.mem_append_right _ (List.mem_singleton_self _)))
    · rcases h.placed timerId hin with hactive' | htaken | hfreed
      · refine Or.inl (OrdSet.mem_erase.mpr ⟨?_, hactive'⟩)
        intro heq
        simp only [ActiveTimer.mk.injEq] at heq
        apply hsame
        rw [← heq.1, ← heq.2]
      · exact Or.inr (Or.inl htaken)
      · exact Or.inr (Or.inr (List.mem_append_left _ hfreed))
  dead timerId hin u hu := by
    rcases TimerQueue.removed_heap_origin hu with ⟨hother, hu'⟩
    rcases List.mem_append.mp hin with hold | hnew
    · exact h.dead timerId hold u hu'
    · rw [List.mem_singleton.mp hnew] at hother
      exact absurd rfl hother
  once := by
    apply h.once.append (List.nodup_singleton _)
    intro timerId hold hnew
    rw [List.mem_singleton.mp hnew] at hold
    exact h.not_freed ht hold

theorem Owned.handleRead {now : Timestamp} {q : TimerQueue} (hw : w.Inv)
    (h : w.Owned inserted taken) (hbatch : w.batch = none) (hbegun : w.queue.Begun now q) :
    Owned { w with queue := q, batch := some ⟨now, w.queue.due now, w.queue.due now⟩ } inserted
      ((w.queue.due now).map fun it => w.queue.idAt it.second) where
  taken_eq := by
    apply List.map_congr_left
    intro e _
    exact (TimerQueue.idAt_congr (congrFun hbegun.heap_eq e.second)).symm
  active x hx := h.active x ((hbegun.active_iff x).mp hx).1
  taken_inserted timerId hin := by
    obtain ⟨e, he, rfl⟩ := List.mem_map.mp hin
    rcases (hw.consistent.mem_due hw.addressed).mp he with ⟨hentry, _⟩
    rcases hw.consistent.timers e hentry with ⟨t, ht, _, hactive⟩
    rw [TimerQueue.idAt_eq ht]
    exact h.active _ hactive
  freed_inserted := by
    rw [hbegun.deleted_eq]
    exact h.freed_inserted
  issued := h.issued
  placed timerId hin := by
    have hnone : taken = [] := by
      rw [h.taken_eq, expired_idle hbatch]
      rfl
    rcases h.placed timerId hin with hactive | htaken | hfreed
    · rcases hw.consistent.active _ hactive with ⟨t, ht, hsequence, hentry⟩
      rcases lt_or_ge now t.expiration_ with hlate | hearly
      · exact Or.inl ((hbegun.active_iff _).mpr ⟨hactive, t, ht, hlate⟩)
      · have hdue := (hw.consistent.mem_due hw.addressed).mpr ⟨hentry, hearly⟩
        refine Or.inr (Or.inl (List.mem_map.mpr ⟨_, hdue, ?_⟩))
        rw [TimerQueue.idAt_eq ht, hsequence]
    · rw [hnone] at htaken
      cases htaken
    · refine Or.inr (Or.inr ?_)
      rw [hbegun.deleted_eq]
      exact hfreed
  dead := by
    rw [hbegun.heap_eq, hbegun.deleted_eq]
    exact h.dead
  once := by
    rw [hbegun.deleted_eq]
    exact h.once

/-- Every timer of the batch is back in the queue, or deleted. -/
theorem Owned.reset {now : Timestamp} {expired : List Entry} {q : TimerQueue} (hw : w.Inv)
    (h : w.Owned inserted taken) (hbatch : w.batch = some ⟨now, expired, []⟩)
    (hput : ({ w.queue with callingExpiredTimers_ := false } : TimerQueue).PutBack expired now q) :
    Owned { w with queue := q, batch := none } inserted [] := by
  have hconsistent := hw.batch_consistent hbatch
  have htaken : taken = expired.map fun e => w.queue.idAt e.second := by
    rw [h.taken_eq, expired_batch hbatch]
  have hsublist := TimerQueue.spent_sublist
    ({ w.queue with callingExpiredTimers_ := false } : TimerQueue) expired
  have hnow : q.deleted = w.queue.deleted ++ expired.flatMap
      ({ w.queue with callingExpiredTimers_ := false } : TimerQueue).spent := hput.deleted_eq
  refine ⟨rfl, ?_, ?_, ?_, h.issued, ?_, ?_, ?_⟩
  · intro x hx
    rcases (hput.active_iff x).mp hx with hold | ⟨e, he, t, ht, _, rfl⟩
    · exact h.active x hold
    · apply h.taken_inserted
      rw [htaken]
      exact List.mem_map.mpr ⟨e, he, TimerQueue.idAt_eq ht⟩
  · intro timerId hin
    cases hin
  · intro timerId hin
    rw [hnow] at hin
    rcases List.mem_append.mp hin with hold | hnew
    · exact h.freed_inserted timerId hold
    · apply h.taken_inserted
      rw [htaken]
      exact hsublist.subset hnew
  · intro timerId hin
    rcases h.placed timerId hin with hactive | hbatched | hfreed
    · exact Or.inl ((hput.active_iff _).mpr (Or.inl hactive))
    · rw [htaken] at hbatched
      obtain ⟨e, he, rfl⟩ := List.mem_map.mp hbatched
      rcases hconsistent.taken e he with ⟨t, ht, _⟩
      have hid : w.queue.idAt e.second = ⟨e.second, t.sequence_⟩ := TimerQueue.idAt_eq ht
      rw [hid]
      by_cases hrenews :
          ({ w.queue with callingExpiredTimers_ := false } : TimerQueue).renews e.second t
      · exact Or.inl ((hput.active_iff _).mpr (Or.inr ⟨e, he, t, ht, hrenews, rfl⟩))
      · refine Or.inr (Or.inr ?_)
        rw [hnow, List.mem_append, List.mem_flatMap]
        exact Or.inr ⟨e, he, TimerQueue.mem_spent.mpr ⟨t, ht, hrenews, rfl⟩⟩
    · refine Or.inr (Or.inr ?_)
      rw [hnow]
      exact List.mem_append_left _ hfreed
  · intro timerId hin u hu
    rw [hnow] at hin
    rcases List.mem_append.mp hin with hold | hnew
    · rcases hput.heap_origin hconsistent hu with ⟨t, ht, hsequence⟩
      rw [← hsequence]
      exact h.dead timerId hold t ht
    · obtain ⟨e, he, hround⟩ := List.mem_flatMap.mp hnew
      obtain ⟨t, ht, hrenews, rfl⟩ := TimerQueue.mem_spent.mp hround
      rw [hput.heap_item e he t ht, if_neg hrenews] at hu
      cases hu
  · rw [hnow]
    apply h.once.append (hsublist.nodup (TimerQueue.nodup_idAt hconsistent.distinct))
    intro timerId hold hnew
    have hbatched : timerId ∈ taken := by
      rw [htaken]
      exact hsublist.subset hnew
    rw [htaken] at hbatched
    obtain ⟨e, he, rfl⟩ := List.mem_map.mp hbatched
    rcases hconsistent.taken e he with ⟨t, ht, _⟩
    have hid : w.queue.idAt e.second = ⟨e.second, t.sequence_⟩ := TimerQueue.idAt_eq ht
    rw [hid] at hold
    exact h.not_freed ht hold

end TimerWorld

namespace TimerLedger

structure Inv (l : TimerLedger) : Prop where
  world : l.world.Inv
  owned : l.world.Owned l.inserted l.taken

theorem start_inv : start.Inv := ⟨TimerWorld.start_inv, TimerWorld.start_owned⟩

/-- The books after a step. -/
theorem Inv.stepped {l : TimerLedger} {w : TimerWorld} {e : TimerEvent} (h : l.Inv)
    (hstepped : TimerWorld.Stepped l.world e w) :
    w.Owned (l.inserted ++ l.world.inserts e) (l.takenAfter e) := by
  have hsame {w' : TimerWorld} (howned : w'.Owned l.inserted l.taken) :
      w'.Owned (l.inserted ++ []) l.taken := by
    rwa [List.append_nil]
  cases hstepped with
  | newTimer hpos hlt hfree => exact hsame (h.owned.newTimer h.world hfree _ _)
  | newElsewhere => exact hsame (h.owned.frame rfl rfl rfl rfl rfl)
  | @addTimerInLoop timer t huser hcreated ht hnew hout =>
    exact h.owned.addTimerInLoop h.world ht (l.world.queue.fdAfterAdd timer t)
  | @cancelActive timerId t huser ht hsequence hactive =>
    rw [← hsequence] at hactive
    exact hsame (h.owned.cancelActive h.world ht hactive)
  | @cancelInactive timerId huser hactive =>
    exact hsame (h.owned.frame (TimerQueue.noted_activeTimers _ _) rfl
      (TimerQueue.noted_heap _ _) (TimerQueue.noted_deleted _ _) rfl)
  | timerfdExpires => exact hsame (h.owned.frame rfl rfl rfl rfl rfl)
  | handleRead hbatch hbegun =>
    have howned := h.owned.handleRead h.world hbatch hbegun
    rw [← List.append_nil l.inserted] at howned
    exact howned
  | run hbatch =>
    refine hsame (h.owned.frame rfl ?_ rfl rfl rfl)
    rw [TimerWorld.expired_batch hbatch]
    rfl
  | reset hbatch hreset hput =>
    have howned := h.owned.reset h.world hbatch hput
    rw [← List.append_nil l.inserted] at howned
    exact howned

theorem Inv.step {l l' : TimerLedger} {e : TimerEvent} (h : l.Inv)
    (hstep : TimerLedger.step l e = some l') : l'.Inv := by
  rw [TimerLedger.step, Option.map_eq_some_iff] at hstep
  obtain ⟨w, hw, rfl⟩ := hstep
  exact ⟨h.world.step hw, h.stepped (h.world.step_cases hw).2⟩

theorem run_inv {l : TimerLedger} {es : List TimerEvent} (hrun : Run step start es l) : l.Inv :=
  hrun.invariant (fun _ _ _ h hstep => h.step hstep) start_inv

/-! ### The representation -/

/-- One of three, and no other. -/
def ExactlyOne (a b c : Prop) : Prop := a ∧ ¬ b ∧ ¬ c ∨ ¬ a ∧ b ∧ ¬ c ∨ ¬ a ∧ ¬ b ∧ c

def IsActive (l : TimerLedger) (timerId : TimerId) : Prop :=
  ⟨timerId.timer_, timerId.sequence_⟩ ∈ l.world.queue.activeTimers_

structure Represents (l : TimerLedger) : Prop where
  /-- The two sets are over the same timers, and none of these is in the batch. -/
  sets : ∃ live : Set TimerPtr,
    (∀ timer ∈ live, ∃ t, l.world.queue.heap timer = some t) ∧
    (∀ e, e ∈ l.world.queue.timers_ ↔
      e.second ∈ live ∧ ∃ t, l.world.queue.heap e.second = some t ∧ t.expiration_ = e.first) ∧
    (∀ x, x ∈ l.world.queue.activeTimers_ ↔
      x.timer ∈ live ∧ ∃ t, l.world.queue.heap x.timer = some t ∧ t.sequence_ = x.sequence) ∧
    ∀ e ∈ l.world.expired, e.second ∉ live
  owner : ∀ timerId ∈ l.inserted,
    ExactlyOne (l.IsActive timerId) (timerId ∈ l.taken) (timerId ∈ l.freed)
  once : l.freed.Nodup
  only : ∀ timerId ∈ l.freed, timerId ∈ l.inserted
  /-- What has been deleted is what is gone. -/
  gone : ∀ timerId ∈ l.inserted, timerId ∈ l.freed ↔
    ¬ ∃ t, l.world.queue.heap timerId.timer_ = some t ∧ t.sequence_ = timerId.sequence_
  /-- The pointers of the batch belong to the timers that were taken out. -/
  batch : l.taken = l.world.expired.map fun e => l.world.queue.idAt e.second
  /-- The pointers that are kept point at timers that have been inserted and not deleted. -/
  held : ∀ e, e ∈ l.world.queue.timers_ ∨ e ∈ l.world.expired → ∃ t,
    l.world.queue.heap e.second = some t ∧ ⟨e.second, t.sequence_⟩ ∈ l.inserted ∧
      ⟨e.second, t.sequence_⟩ ∉ l.freed
  /-- No assert fails, and no pointer to a deleted timer is followed. -/
  performs : ∀ e, l.world.legal e = true → ∃ w, l.world.perform e = .ok w
  /-- Outside a batch the destructor runs without a fault, and deletes what has been inserted
      and not deleted. -/
  destructor : l.world.batch = none → ∃ q ids, l.world.queue.destroy = .ok q ∧
    q.deleted = l.freed ++ ids ∧ ids.Nodup ∧
    ∀ timerId, timerId ∈ ids ↔ timerId ∈ l.inserted ∧ timerId ∉ l.freed

/-- The timers that are in both sets. -/
def live (l : TimerLedger) : Set TimerPtr :=
  { timer | ∃ t, l.world.queue.heap timer = some t ∧
      ⟨timer, t.sequence_⟩ ∈ l.world.queue.activeTimers_ }

theorem Inv.mem_timers_iff {l : TimerLedger} (h : l.Inv) (e : Entry) :
    e ∈ l.world.queue.timers_ ↔
      e.second ∈ l.live ∧ ∃ t, l.world.queue.heap e.second = some t ∧ t.expiration_ = e.first := by
  constructor
  · intro he
    rcases h.world.consistent.timers e he with ⟨t, ht, hfirst, hactive⟩
    exact ⟨⟨t, ht, hactive⟩, t, ht, hfirst⟩
  · rintro ⟨⟨t, ht, hactive⟩, u, hu, hfirst⟩
    cases ht.symm.trans hu
    have hentry := (h.world.consistent.entry_iff ht).mpr hactive
    rw [hfirst] at hentry
    exact hentry

theorem Inv.mem_active_iff {l : TimerLedger} (h : l.Inv) (x : ActiveTimer) :
    x ∈ l.world.queue.activeTimers_ ↔
      x.timer ∈ l.live ∧ ∃ t, l.world.queue.heap x.timer = some t ∧ t.sequence_ = x.sequence := by
  constructor
  · intro hx
    rcases h.world.consistent.active x hx with ⟨t, ht, hsequence, _⟩
    refine ⟨⟨t, ht, ?_⟩, t, ht, hsequence⟩
    rw [hsequence]
    exact hx
  · rintro ⟨⟨t, ht, hactive⟩, u, hu, hsequence⟩
    cases ht.symm.trans hu
    rw [hsequence] at hactive
    exact hactive

theorem Inv.expired_not_live {l : TimerLedger} (h : l.Inv) {e : Entry} (he : e ∈ l.world.expired) :
    e.second ∉ l.live := by
  rintro ⟨t, ht, hactive⟩
  rcases h.world.consistent.taken e he with ⟨u, hu, _, hout⟩
  cases ht.symm.trans hu
  exact hout hactive

/-- A timer of the batch: its object, which is not active. -/
theorem Inv.of_taken {l : TimerLedger} (h : l.Inv) {timerId : TimerId} (hin : timerId ∈ l.taken) :
    ¬ l.IsActive timerId ∧ timerId ∉ l.freed := by
  rw [h.owned.taken_eq] at hin
  obtain ⟨e, he, rfl⟩ := List.mem_map.mp hin
  rcases h.world.consistent.taken e he with ⟨t, ht, _, hout⟩
  rw [TimerQueue.idAt_eq ht]
  exact ⟨hout, h.owned.not_freed ht⟩

theorem Inv.not_freed_of_active {l : TimerLedger} (h : l.Inv) {timerId : TimerId}
    (hactive : l.IsActive timerId) : timerId ∉ l.freed := by
  rcases h.world.consistent.active _ hactive with ⟨t, ht, hsequence, _⟩
  have hfree := h.owned.not_freed ht
  rw [hsequence] at hfree
  exact hfree

theorem Inv.exactlyOne {l : TimerLedger} (h : l.Inv) {timerId : TimerId}
    (hin : timerId ∈ l.inserted) :
    ExactlyOne (l.IsActive timerId) (timerId ∈ l.taken) (timerId ∈ l.freed) := by
  rcases h.owned.placed timerId hin with hactive | htaken | hfreed
  · refine Or.inl ⟨hactive, fun htaken => ?_, h.not_freed_of_active hactive⟩
    exact (h.of_taken htaken).1 hactive
  · exact Or.inr (Or.inl ⟨(h.of_taken htaken).1, htaken, (h.of_taken htaken).2⟩)
  · refine Or.inr (Or.inr ⟨fun hactive => ?_, fun htaken => ?_, hfreed⟩)
    · exact h.not_freed_of_active hactive hfreed
    · exact (h.of_taken htaken).2 hfreed

theorem Inv.freed_iff {l : TimerLedger} (h : l.Inv) {timerId : TimerId}
    (hin : timerId ∈ l.inserted) : timerId ∈ l.freed ↔
      ¬ ∃ t, l.world.queue.heap timerId.timer_ = some t ∧ t.sequence_ = timerId.sequence_ := by
  constructor
  · rintro hfreed ⟨t, ht, hsequence⟩
    exact h.owned.dead timerId hfreed t ht hsequence
  · intro hgone
    rcases h.owned.placed timerId hin with hactive | htaken | hfreed
    · rcases h.world.consistent.active _ hactive with ⟨t, ht, hsequence, _⟩
      exact absurd ⟨t, ht, hsequence⟩ hgone
    · rw [h.owned.taken_eq] at htaken
      obtain ⟨e, he, rfl⟩ := List.mem_map.mp htaken
      rcases h.world.consistent.taken e he with ⟨t, ht, _⟩
      rw [TimerQueue.idAt_eq ht] at hgone
      exact absurd ⟨t, ht, rfl⟩ hgone
    · exact hfreed

theorem Inv.held {l : TimerLedger} (h : l.Inv) {e : Entry}
    (he : e ∈ l.world.queue.timers_ ∨ e ∈ l.world.expired) : ∃ t,
      l.world.queue.heap e.second = some t ∧ ⟨e.second, t.sequence_⟩ ∈ l.inserted ∧
        ⟨e.second, t.sequence_⟩ ∉ l.freed := by
  rcases he with hentry | hexpired
  · rcases h.world.consistent.timers e hentry with ⟨t, ht, _, hactive⟩
    exact ⟨t, ht, h.owned.active _ hactive, h.owned.not_freed ht⟩
  · rcases h.world.consistent.taken e hexpired with ⟨t, ht, _⟩
    refine ⟨t, ht, h.owned.taken_inserted _ ?_, h.owned.not_freed ht⟩
    rw [h.owned.taken_eq]
    exact List.mem_map.mpr ⟨e, hexpired, TimerQueue.idAt_eq ht⟩

theorem Inv.destructor {l : TimerLedger} (h : l.Inv) (hbatch : l.world.batch = none) :
    ∃ q ids, l.world.queue.destroy = .ok q ∧ q.deleted = l.freed ++ ids ∧ ids.Nodup ∧
      ∀ timerId, timerId ∈ ids ↔ timerId ∈ l.inserted ∧ timerId ∉ l.freed := by
  have hnone : l.taken = [] := by
    rw [h.owned.taken_eq, TimerWorld.expired_idle hbatch]
    rfl
  have hdistinct : (l.world.queue.timers_.toList.map Entry.second).Nodup := by
    apply List.Nodup.map_on _ l.world.queue.timers_.nodup
    intro e he f hf hsame
    exact h.world.consistent.entry_unique he hf hsame
  obtain ⟨q, hfold, hdeleted⟩ := TimerQueue.delete_fold
    (fun e he => (h.world.consistent.timers e he).imp fun _ ht => ht.1) hdistinct
  refine ⟨q, _, hfold, hdeleted, TimerQueue.nodup_idAt hdistinct, ?_⟩
  intro timerId
  constructor
  · intro hin
    obtain ⟨e, he, rfl⟩ := List.mem_map.mp hin
    rcases h.held (Or.inl he) with ⟨t, ht, hinserted, hfree⟩
    rw [TimerQueue.idAt_eq ht]
    exact ⟨hinserted, hfree⟩
  · rintro ⟨hin, hfree⟩
    rcases h.owned.placed timerId hin with hactive | htaken | hfreed
    · rcases h.world.consistent.active _ hactive with ⟨t, ht, hsequence, hentry⟩
      refine List.mem_map.mpr ⟨_, hentry, ?_⟩
      rw [TimerQueue.idAt_eq ht, hsequence]
    · rw [hnone] at htaken
      cases htaken
    · exact absurd hfreed hfree

/-- **Representation and ownership**, in every state of every run. -/
theorem timer_ownership {l : TimerLedger} {es : List TimerEvent} (hrun : Run step start es l) :
    l.Represents := by
  have h := run_inv hrun
  exact {
    sets := ⟨l.live, fun _ ⟨t, ht, _⟩ => ⟨t, ht⟩, h.mem_timers_iff, h.mem_active_iff,
      fun _ he => h.expired_not_live he⟩
    owner := fun _ hin => h.exactlyOne hin
    once := h.owned.once
    only := h.owned.freed_inserted
    gone := fun _ hin => h.freed_iff hin
    batch := h.owned.taken_eq
    held := fun _ he => h.held he
    performs := fun _ hlegal => (h.world.performs hlegal).imp fun _ hw => hw.1
    destructor := h.destructor }

/-- Two timers at one address: the first is deleted by `reset`, the second is cancelled. -/
theorem timer_ownership_one_address : ∃ l,
    Run step start
      [.newTimer 4096 100 ⟨false, 0⟩, .addTimerInLoop 4096, .timerfdExpires, .handleRead 200, .run,
        .reset, .newTimer 4096 300 ⟨true, 50⟩, .addTimerInLoop 4096, .cancelInLoop ⟨4096, 2⟩] l ∧
      l.freed = [⟨4096, 1⟩, ⟨4096, 2⟩] ∧ l.Represents := by
  obtain ⟨l, hrun, hfreed⟩ := exists_run step start
    [.newTimer 4096 100 ⟨false, 0⟩, .addTimerInLoop 4096, .timerfdExpires, .handleRead 200, .run,
      .reset, .newTimer 4096 300 ⟨true, 50⟩, .addTimerInLoop 4096, .cancelInLoop ⟨4096, 2⟩]
    TimerLedger.freed [⟨4096, 1⟩, ⟨4096, 2⟩] rfl
  exact ⟨l, hrun, hfreed, timer_ownership hrun⟩

end TimerLedger

end Muduo
