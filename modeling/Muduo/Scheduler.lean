import Muduo.Transitions
import Mathlib.Data.Set.Insert
import Mathlib.Logic.Function.Basic
import Mathlib.Order.Basic

/-!
# Schedulers that run what is due in batches

A scheduler keeps jobs by key.  A batch takes the jobs out whose deadline has come, runs
each of them once in the order of the deadlines, and puts back those that renew, unless
their key was cancelled while the batch ran.  Jobs can be added and cancelled at any
time; a cancel takes away the job with its key and no other.

Keys, times and jobs are arbitrary: a job has a `deadline`, and `renew now` is the job it
becomes after a batch at `now`, if any.  `batch_law` reads off a run what a whole batch
does.
-/

namespace Scheduling

open Transitions

variable {κ τ J : Type*} [DecidableEq κ] [LinearOrder τ]

/-- A batch in execution: the jobs taken out, the keys that have not run, and the keys
    cancelled so far. -/
structure Batch (κ τ J : Type*) where
  now : τ
  members : κ → Option J
  todo : List κ
  cancelled : Set κ

structure Scheduler (κ τ J : Type*) where
  active : κ → Option J
  batch : Option (Batch κ τ J)

inductive Label (κ τ J : Type*) where
  | add (key : κ) (job : J)
  | cancel (key : κ)
  | begin_ (now : τ)
  | run (key : κ)
  | finish

namespace Scheduler

def empty : Scheduler κ τ J := ⟨fun _ => none, none⟩

/-- Remove the active job, or else note the key for the batch in execution. -/
def cancel (a : Scheduler κ τ J) (key : κ) : Scheduler κ τ J :=
  match a.active key, a.batch with
  | some _, _ => { a with active := Function.update a.active key none }
  | none, some b => { a with batch := some { b with cancelled := insert key b.cancelled } }
  | none, none => a

open Classical in
/-- Put a batch back: its jobs are renewed, unless their keys were cancelled. -/
noncomputable def putBack (renew : τ → J → Option J) (a : Scheduler κ τ J) (b : Batch κ τ J) :
    Scheduler κ τ J where
  active key := match b.members key with
    | some job => if key ∈ b.cancelled then none else renew b.now job
    | none => a.active key
  batch := none

omit [DecidableEq κ] [LinearOrder τ] in
theorem putBack_member {renew : τ → J → Option J} {a : Scheduler κ τ J} {b : Batch κ τ J} {key : κ}
    {job : J} (h : b.members key = some job) {job' : J} :
    (a.putBack renew b).active key = some job' ↔
      key ∉ b.cancelled ∧ renew b.now job = some job' := by
  simp only [putBack, h]
  split
  · rename_i hcancelled
    simp [hcancelled]
  · rename_i hcancelled
    simp [hcancelled]

omit [DecidableEq κ] [LinearOrder τ] in
theorem putBack_other {renew : τ → J → Option J} {a : Scheduler κ τ J} {b : Batch κ τ J} {key : κ}
    (h : b.members key = none) : (a.putBack renew b).active key = a.active key := by
  simp only [putBack, h]

end Scheduler

/-- The keys of the jobs that are due, each once, in the order of the deadlines. -/
structure RunOrder (deadline : J → τ) (active : κ → Option J) (now : τ) (order : List κ) :
    Prop where
  nodup : order.Nodup
  mem_iff : ∀ key, key ∈ order ↔ ∃ job, active key = some job ∧ deadline job ≤ now
  sorted : order.Pairwise fun key later => ∀ job job', active key = some job →
    active later = some job' → deadline job ≤ deadline job'

/-- One step of a scheduler. -/
inductive Step (deadline : J → τ) (renew : τ → J → Option J) :
    Scheduler κ τ J → Label κ τ J → Scheduler κ τ J → Prop where
  | add {a : Scheduler κ τ J} {key : κ} {job : J} (hinactive : a.active key = none)
      (hout : ∀ b, a.batch = some b → b.members key = none) :
      Step deadline renew a (.add key job)
        { a with active := Function.update a.active key (some job) }
  | cancel {a : Scheduler κ τ J} {key : κ} : Step deadline renew a (.cancel key) (a.cancel key)
  | begin_ {a : Scheduler κ τ J} {now : τ} {order : List κ} (hidle : a.batch = none)
      (horder : RunOrder deadline a.active now order) :
      Step deadline renew a (.begin_ now)
        { active := fun key => if key ∈ order then none else a.active key
          batch := some
            { now := now
              members := fun key => if key ∈ order then a.active key else none
              todo := order
              cancelled := ∅ } }
  | run {a : Scheduler κ τ J} {b : Batch κ τ J} {key : κ} {rest : List κ}
      (hbatch : a.batch = some b) (htodo : b.todo = key :: rest) :
      Step deadline renew a (.run key) { a with batch := some { b with todo := rest } }
  | finish {a : Scheduler κ τ J} {b : Batch κ τ J} (hbatch : a.batch = some b)
      (htodo : b.todo = []) : Step deadline renew a .finish (a.putBack renew b)

/-! ### What a whole batch does -/

namespace Label

/-- The keys run, in order. -/
def ran (labels : List (Label κ τ J)) : List κ :=
  labels.filterMap fun
    | run key => some key
    | _ => none

omit [DecidableEq κ] [LinearOrder τ] in
theorem mem_ran {labels : List (Label κ τ J)} {key : κ} :
    key ∈ ran labels ↔ .run key ∈ labels := by
  rw [ran, List.mem_filterMap]
  constructor
  · rintro ⟨label, hin, hlabel⟩
    cases label with
    | run other =>
      cases hlabel
      exact hin
    | _ => cases hlabel
  · intro hin
    exact ⟨_, hin, rfl⟩

/-- Neither the begin nor the end of a batch. -/
def Inner : Label κ τ J → Prop
  | begin_ _ => False
  | finish => False
  | _ => True

end Label

variable {deadline : J → τ} {renew : τ → J → Option J}

/-- What a step inside a batch does to the batch and to the jobs outside it. -/
structure InnerStep (a : Scheduler κ τ J) (b : Batch κ τ J) (label : Label κ τ J)
    (a' : Scheduler κ τ J) (b' : Batch κ τ J) : Prop where
  batch : a'.batch = some b'
  now_eq : b'.now = b.now
  members_eq : b'.members = b.members
  inactive : ∀ key, b.members key ≠ none → a'.active key = none
  todo_eq : b.todo = Label.ran [label] ++ b'.todo
  cancelled_iff : ∀ key, b.members key ≠ none →
    (key ∈ b'.cancelled ↔ key ∈ b.cancelled ∨ label = .cancel key)
  others : ∀ key, b.members key = none → (∀ job, label ≠ .add key job) → label ≠ .cancel key →
    a'.active key = a.active key

theorem inner_step {a a' : Scheduler κ τ J} {b : Batch κ τ J} {label : Label κ τ J}
    (hbatch : a.batch = some b) (hinactive : ∀ key, b.members key ≠ none → a.active key = none)
    (hinner : label.Inner) (hstep : Step deadline renew a label a') :
    ∃ b', InnerStep a b label a' b' := by
  cases hstep with
  | @add key job hfree hout =>
    refine ⟨b, hbatch, rfl, rfl, ?_, rfl, ?_, ?_⟩
    · intro k hk
      have hne : k ≠ key := by
        rintro rfl
        exact hk (hout b hbatch)
      exact (Function.update_of_ne hne ..).trans (hinactive k hk)
    · intro k _
      simp
    · intro k _ hadd _
      have hne : k ≠ key := by
        rintro rfl
        exact hadd job rfl
      exact Function.update_of_ne hne ..
  | @cancel key =>
    cases hactive : a.active key with
    | some job =>
      have hcancel : a.cancel key = { a with active := Function.update a.active key none } := by
        simp only [Scheduler.cancel, hactive]
      rw [hcancel]
      refine ⟨b, hbatch, rfl, rfl, ?_, rfl, ?_, ?_⟩
      · intro k hk
        by_cases hkey : k = key
        · rw [hkey]
          exact Function.update_self ..
        · exact (Function.update_of_ne hkey ..).trans (hinactive k hk)
      · intro k hk
        have hne : key ≠ k := by
          rintro rfl
          rw [hinactive key hk] at hactive
          cases hactive
        simp [hne]
      · intro k _ _ hcancel'
        have hne : k ≠ key := by
          rintro rfl
          exact hcancel' rfl
        exact Function.update_of_ne hne ..
    | none =>
      have hcancel : a.cancel key =
          { a with batch := some { b with cancelled := insert key b.cancelled } } := by
        simp only [Scheduler.cancel, hactive, hbatch]
      rw [hcancel]
      refine ⟨_, rfl, rfl, rfl, hinactive, rfl, ?_, fun _ _ _ _ => rfl⟩
      intro k _
      simp only [Set.mem_insert_iff, Label.cancel.injEq]
      rw [or_comm, eq_comm]
  | begin_ _ _ => exact absurd hinner id
  | @run b' key rest hbatch' htodo =>
    cases hbatch.symm.trans hbatch'
    refine ⟨_, rfl, rfl, rfl, hinactive, htodo, ?_, fun _ _ _ _ => rfl⟩
    intro k _
    simp
  | finish _ _ => exact absurd hinner id

/-- The rest of a batch, from any state of it on. -/
theorem rest_law {a a' : Scheduler κ τ J} {b : Batch κ τ J} {labels : List (Label κ τ J)}
    (hbatch : a.batch = some b) (hinactive : ∀ key, b.members key ≠ none → a.active key = none)
    (hinner : ∀ label ∈ labels, label.Inner)
    (hrun : SpecRun (Step deadline renew) a (labels ++ [.finish]) a') :
    Label.ran labels = b.todo ∧
      (∀ key job, b.members key = some job → ∀ job', a'.active key = some job' ↔
        (key ∉ b.cancelled ∧ .cancel key ∉ labels) ∧ renew b.now job = some job') ∧
      (∀ key, b.members key = none → (∀ job, .add key job ∉ labels) → .cancel key ∉ labels →
        a'.active key = a.active key) := by
  induction labels generalizing a b with
  | nil =>
    cases hrun with
    | cons hstep hrest =>
      cases hrest
      cases hstep with
      | finish hbatch' htodo =>
        cases hbatch.symm.trans hbatch'
        refine ⟨htodo.symm, ?_, fun key hkey _ _ => Scheduler.putBack_other hkey⟩
        intro key job hjob job'
        rw [Scheduler.putBack_member hjob]
        simp
  | cons label labels ih =>
    rw [List.forall_mem_cons] at hinner
    cases hrun with
    | @cons _ c _ _ _ hstep hrest =>
      obtain ⟨b', hin⟩ := inner_step hbatch hinactive hinner.1 hstep
      have hinactive' : ∀ key, b'.members key ≠ none → c.active key = none := by
        rw [hin.members_eq]
        exact hin.inactive
      obtain ⟨hran, hmember, hother⟩ := ih hin.batch hinactive' hinner.2 hrest
      refine ⟨?_, ?_, ?_⟩
      · rw [hin.todo_eq, ← hran, ← List.singleton_append]
        exact List.filterMap_append
      · intro key job hjob job'
        have hmem : b.members key ≠ none := by
          rw [hjob]
          exact Option.some_ne_none job
        rw [hmember key job (by rw [hin.members_eq, hjob]), hin.cancelled_iff key hmem, hin.now_eq,
          List.mem_cons, eq_comm (a := Label.cancel key)]
        tauto
      · intro key hkey hadd hcancel
        rw [hother key (by rw [hin.members_eq, hkey])
          (fun job hjob => hadd job (List.mem_cons_of_mem _ hjob))
          (fun hc => hcancel (List.mem_cons_of_mem _ hc))]
        apply hin.others key hkey
        · rintro job rfl
          exact hadd job (List.mem_cons_self ..)
        · rintro rfl
          exact hcancel (List.mem_cons_self ..)

/-- **What a batch does.**  It runs what was due when it began, each job once and in the
    order of the deadlines; afterwards the jobs that renew are active again unless their
    key was cancelled, and no other job has changed that was not added or cancelled. -/
theorem batch_law {a a' : Scheduler κ τ J} {now : τ} {labels : List (Label κ τ J)}
    (hinner : ∀ label ∈ labels, label.Inner)
    (hrun : SpecRun (Step deadline renew) a (.begin_ now :: labels ++ [.finish]) a') :
    RunOrder deadline a.active now (Label.ran labels) ∧
      (∀ key ∈ Label.ran labels, ∀ job, a.active key = some job → ∀ job',
        a'.active key = some job' ↔ .cancel key ∉ labels ∧ renew now job = some job') ∧
      (∀ key, key ∉ Label.ran labels → (∀ job, .add key job ∉ labels) → .cancel key ∉ labels →
        a'.active key = a.active key) := by
  cases hrun with
  | cons hstep hrest =>
    cases hstep with
    | @begin_ _ order hidle horder =>
      have hinactive : ∀ key, (if key ∈ order then a.active key else none) ≠ none →
          (if key ∈ order then none else a.active key) = none := by
        intro key hkey
        by_cases hin : key ∈ order
        · rw [if_pos hin]
        · rw [if_neg hin] at hkey
          exact absurd rfl hkey
      obtain ⟨hran, hmember, hother⟩ := rest_law rfl hinactive hinner hrest
      simp only at hran hmember hother
      rw [hran]
      refine ⟨horder, ?_, ?_⟩
      · intro key hkey job hjob job'
        rw [hmember key job (by rw [if_pos hkey, hjob])]
        simp
      · intro key hkey hadd hcancel
        rw [hother key (if_neg hkey) hadd hcancel, if_neg hkey]

end Scheduling
