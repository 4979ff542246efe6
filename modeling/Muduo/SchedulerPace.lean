import Muduo.Scheduler
import Mathlib.Data.List.Chain

/-!
# When the jobs of a scheduler run

The runs of one key in the life of a scheduler that gets each key at most once: no run
comes before the deadline of the job, a job that does not renew runs at most once, and
after each run the next one waits for the deadline of the renewed job.
-/

namespace Scheduling

open Transitions

variable {κ τ J : Type*} [DecidableEq κ] [LinearOrder τ]

namespace Label

/-- The keys added, in order. -/
def added (labels : List (Label κ τ J)) : List κ :=
  labels.filterMap fun
    | add key _ => some key
    | _ => none

/-- The times at which the key runs, each that of its batch; `now` is that of the batch in
    execution. -/
def firings (key : κ) : Option τ → List (Label κ τ J) → List τ
  | _, [] => []
  | _, begin_ now :: labels => firings key (some now) labels
  | _, finish :: labels => firings key none labels
  | now, run other :: labels =>
    (if other = key then now.toList else []) ++ firings key now labels
  | now, _ :: labels => firings key now labels

/-- The run of the key that the step is, if any. -/
def fired (key : κ) (now : Option τ) : Label κ τ J → List τ
  | run other => if other = key then now.toList else []
  | _ => []

omit [DecidableEq κ] [LinearOrder τ] in
theorem mem_added {labels : List (Label κ τ J)} {key : κ} :
    key ∈ added labels ↔ ∃ job, .add key job ∈ labels := by
  rw [added, List.mem_filterMap]
  constructor
  · rintro ⟨label, hin, hlabel⟩
    cases label with
    | add other job =>
      cases hlabel
      exact ⟨job, hin⟩
    | _ => cases hlabel
  · rintro ⟨job, hin⟩
    exact ⟨_, hin, rfl⟩

end Label

variable {deadline : J → τ} {renew : τ → J → Option J}

/-- The times are those of a job that runs when its deadline has come, and then of the job
    it renews to. -/
def Paced (deadline : J → τ) (renew : τ → J → Option J) : J → List τ → Prop
  | _, [] => True
  | job, now :: times => deadline job ≤ now ∧
      (times = [] ∨ ∃ job', renew now job = some job' ∧ Paced deadline renew job' times)

/-- The times after the job has run at `now`. -/
def PacedAfter (deadline : J → τ) (renew : τ → J → Option J) (now : τ) (job : J)
    (times : List τ) : Prop :=
  times = [] ∨ ∃ job', renew now job = some job' ∧ Paced deadline renew job' times

/-- What the batch in execution consists of. -/
structure Sane (deadline : J → τ) (a : Scheduler κ τ J) : Prop where
  nodup : ∀ b, a.batch = some b → b.todo.Nodup
  due : ∀ b, a.batch = some b → ∀ key job, b.members key = some job → deadline job ≤ b.now
  inactive : ∀ b, a.batch = some b → ∀ key, b.members key ≠ none → a.active key = none
  todo : ∀ b, a.batch = some b → ∀ key ∈ b.todo, b.members key ≠ none

/-- Where a key is: with an active job, in the batch before or after its run, or nowhere. -/
inductive Stands (deadline : J → τ) (renew : τ → J → Option J) (a : Scheduler κ τ J) (key : κ) :
    (List τ → Prop) → Prop where
  | active {job : J} (hactive : a.active key = some job) :
      Stands deadline renew a key (Paced deadline renew job)
  | waiting {b : Batch κ τ J} {job : J} (hbatch : a.batch = some b)
      (hmember : b.members key = some job) (htodo : key ∈ b.todo) :
      Stands deadline renew a key fun times =>
        times = [] ∨ ∃ rest, times = b.now :: rest ∧ PacedAfter deadline renew b.now job rest
  | ran {b : Batch κ τ J} {job : J} (hbatch : a.batch = some b)
      (hmember : b.members key = some job) (htodo : key ∉ b.todo) :
      Stands deadline renew a key (PacedAfter deadline renew b.now job)
  | gone (hactive : a.active key = none) (hout : ∀ b, a.batch = some b → b.members key = none) :
      Stands deadline renew a key (· = [])

/-- The time of the batch in execution. -/
def Scheduler.now? (a : Scheduler κ τ J) : Option τ := a.batch.map Batch.now

omit [LinearOrder τ] in
theorem cancel_batch (a : Scheduler κ τ J) (key : κ) {b : Batch κ τ J}
    (hbatch : a.batch = some b) : ∃ b', (a.cancel key).batch = some b' ∧ b'.now = b.now ∧
      b'.members = b.members ∧ b'.todo = b.todo := by
  simp only [Scheduler.cancel, hbatch]
  cases a.active key with
  | some job => exact ⟨b, rfl, rfl, rfl, rfl⟩
  | none => exact ⟨_, rfl, rfl, rfl, rfl⟩

omit [LinearOrder τ] in
theorem cancel_idle (a : Scheduler κ τ J) (key : κ) (hbatch : a.batch = none) :
    (a.cancel key).batch = none := by
  simp only [Scheduler.cancel, hbatch]
  cases a.active key with
  | some job => rfl
  | none => exact hbatch

omit [LinearOrder τ] in
theorem cancel_batch_back {a : Scheduler κ τ J} {key : κ} {b' : Batch κ τ J}
    (hbatch : (a.cancel key).batch = some b') : ∃ b, a.batch = some b ∧ b'.now = b.now ∧
      b'.members = b.members ∧ b'.todo = b.todo := by
  cases hb : a.batch with
  | none =>
    rw [cancel_idle a key hb] at hbatch
    cases hbatch
  | some b =>
    obtain ⟨b'', hb'', heq⟩ := cancel_batch a key hb
    cases hb''.symm.trans hbatch
    exact ⟨b, rfl, heq⟩

omit [LinearOrder τ] in
theorem cancel_active (a : Scheduler κ τ J) (key : κ) :
    (a.cancel key).active = if (a.active key).isSome then Function.update a.active key none
      else a.active := by
  simp only [Scheduler.cancel]
  cases a.active key with
  | some job => rfl
  | none => cases a.batch <;> rfl

theorem Sane.step {a a' : Scheduler κ τ J} {label : Label κ τ J} (h : Sane deadline a)
    (hstep : Step deadline renew a label a') : Sane deadline a' := by
  cases hstep with
  | @add key job hfree hout =>
    refine ⟨h.nodup, h.due, ?_, h.todo⟩
    intro b hbatch k hk
    have hne : k ≠ key := by
      rintro rfl
      exact hk (hout b hbatch)
    exact (Function.update_of_ne hne ..).trans (h.inactive b hbatch k hk)
  | @cancel key =>
    refine ⟨?_, ?_, ?_, ?_⟩
    · intro b' hbatch'
      obtain ⟨b, hbatch, _, _, htodo⟩ := cancel_batch_back hbatch'
      rw [htodo]
      exact h.nodup b hbatch
    · intro b' hbatch'
      obtain ⟨b, hbatch, hnow, hmembers, _⟩ := cancel_batch_back hbatch'
      rw [hnow, hmembers]
      exact h.due b hbatch
    · intro b' hbatch' k hk
      obtain ⟨b, hbatch, _, hmembers, _⟩ := cancel_batch_back hbatch'
      rw [hmembers] at hk
      have hinactive := h.inactive b hbatch k hk
      rw [cancel_active]
      split
      · by_cases hkey : k = key
        · rw [hkey, Function.update_self]
        · rw [Function.update_of_ne hkey, hinactive]
      · exact hinactive
    · intro b' hbatch'
      obtain ⟨b, hbatch, _, hmembers, htodo⟩ := cancel_batch_back hbatch'
      rw [hmembers, htodo]
      exact h.todo b hbatch
  | @begin_ now order hidle horder =>
    refine ⟨?_, ?_, ?_, ?_⟩
    all_goals
      intro b hbatch
      cases hbatch
    · exact horder.nodup
    · intro key job hmember
      simp only [Option.ite_none_right_eq_some] at hmember
      obtain ⟨job', hactive, hdue⟩ := (horder.mem_iff key).mp hmember.1
      cases hmember.2.symm.trans hactive
      exact hdue
    · intro key hmember
      by_cases hkey : key ∈ order
      · exact if_pos hkey
      · exact absurd (if_neg hkey) hmember
    · intro key hkey
      obtain ⟨job, hactive, _⟩ := (horder.mem_iff key).mp hkey
      simp only [if_pos hkey, hactive]
      exact Option.some_ne_none job
  | @run b key rest hbatch htodo =>
    have hnodup := h.nodup b hbatch
    have htodo' := h.todo b hbatch
    rw [htodo] at hnodup htodo'
    refine ⟨?_, ?_, ?_, ?_⟩
    all_goals
      intro b' hbatch'
      cases hbatch'
    · exact (List.nodup_cons.mp hnodup).2
    · exact h.due b hbatch
    · exact h.inactive b hbatch
    · exact fun k hk => htodo' k (List.mem_cons_of_mem _ hk)
  | finish hbatch htodo =>
    refine ⟨?_, ?_, ?_, ?_⟩
    all_goals
      intro b' hbatch'
      cases hbatch'

omit [DecidableEq κ] in
theorem empty_sane : Sane deadline (Scheduler.empty : Scheduler κ τ J) := by
  refine ⟨?_, ?_, ?_, ?_⟩
  all_goals
    intro b hbatch
    cases hbatch

/-- **One step of a key.**  What follows the step is the future of the key after it. -/
theorem Stands.step {a a' : Scheduler κ τ J} {label : Label κ τ J} {key : κ}
    {F : List τ → Prop} (h : Stands deadline renew a key F) (hsane : Sane deadline a)
    (hadd : ∀ job, label ≠ .add key job) (hstep : Step deadline renew a label a') :
    ∃ F', Stands deadline renew a' key F' ∧
      ∀ times, F' times → F (label.fired key a.now? ++ times) := by
  have hapart : ∀ {job}, a.active key = some job → ∀ b, a.batch = some b →
      b.members key = none := by
    intro job hactive b hbatch
    by_contra hmember
    rw [hsane.inactive b hbatch key hmember] at hactive
    cases hactive
  cases hstep with
  | @add other job hfree hout =>
    have hne : key ≠ other := by
      rintro rfl
      exact hadd job rfl
    have hsame : Function.update a.active other (some job) key = a.active key :=
      Function.update_of_ne hne ..
    cases h with
    | active hactive => exact ⟨_, .active (hsame.trans hactive), fun _ h => h⟩
    | waiting hbatch hmember htodo => exact ⟨_, .waiting hbatch hmember htodo, fun _ h => h⟩
    | ran hbatch hmember htodo => exact ⟨_, .ran hbatch hmember htodo, fun _ h => h⟩
    | gone hactive hout => exact ⟨_, .gone (hsame.trans hactive) hout, fun _ h => h⟩
  | @cancel other =>
    cases h with
    | @active job hactive =>
      by_cases hkey : key = other
      · subst hkey
        refine ⟨_, .gone ?_ ?_, fun times h => ?_⟩
        · rw [cancel_active, hactive, if_pos Option.isSome_some, Function.update_self]
        · intro b' hbatch'
          obtain ⟨b, hbatch, _, hmembers, _⟩ := cancel_batch_back hbatch'
          rw [hmembers]
          exact hapart hactive b hbatch
        · cases h
          trivial
      · refine ⟨_, .active ?_, fun _ h => h⟩
        rw [cancel_active]
        split
        · rw [Function.update_of_ne hkey, hactive]
        · exact hactive
    | waiting hbatch hmember htodo =>
      obtain ⟨b', hbatch', hnow, hmembers, htodo'⟩ := cancel_batch a other hbatch
      refine ⟨_, .waiting hbatch' (hmembers ▸ hmember) (htodo' ▸ htodo), fun times h => ?_⟩
      rw [hnow] at h
      exact h
    | ran hbatch hmember htodo =>
      obtain ⟨b', hbatch', hnow, hmembers, htodo'⟩ := cancel_batch a other hbatch
      refine ⟨_, .ran hbatch' (hmembers ▸ hmember) (htodo' ▸ htodo), fun times h => ?_⟩
      rw [hnow] at h
      exact h
    | gone hactive hout =>
      refine ⟨_, .gone ?_ ?_, fun _ h => h⟩
      · rw [cancel_active]
        split
        · by_cases hkey : key = other
          · rw [hkey, Function.update_self]
          · rw [Function.update_of_ne hkey, hactive]
        · exact hactive
      · intro b' hbatch'
        obtain ⟨b, hbatch, _, hmembers, _⟩ := cancel_batch_back hbatch'
        rw [hmembers]
        exact hout b hbatch
  | @begin_ now order hidle horder =>
    cases h with
    | @active job hactive =>
      by_cases hkey : key ∈ order
      · obtain ⟨job', hactive', hdue⟩ := (horder.mem_iff key).mp hkey
        cases hactive.symm.trans hactive'
        refine ⟨_, .waiting rfl ((if_pos hkey).trans hactive) hkey, fun times h => ?_⟩
        rcases h with rfl | ⟨rest, rfl, hrest⟩
        · trivial
        · exact ⟨hdue, hrest⟩
      · exact ⟨_, .active ((if_neg hkey).trans hactive), fun _ h => h⟩
    | waiting hbatch _ _ =>
      rw [hidle] at hbatch
      cases hbatch
    | ran hbatch _ _ =>
      rw [hidle] at hbatch
      cases hbatch
    | gone hactive hout =>
      have hkey : key ∉ order := by
        intro hkey
        obtain ⟨job, hactive', _⟩ := (horder.mem_iff key).mp hkey
        rw [hactive] at hactive'
        cases hactive'
      refine ⟨_, .gone ((if_neg hkey).trans hactive) ?_, fun _ h => h⟩
      intro b hbatch
      cases hbatch
      exact if_neg hkey
  | @run b other rest hbatch htodo =>
    have hnodup := hsane.nodup b hbatch
    have hmembers := hsane.todo b hbatch
    rw [htodo] at hnodup hmembers
    have hnow : a.now? = some b.now := by rw [Scheduler.now?, hbatch, Option.map_some]
    -- only a key that waits can be the one that runs
    have hquiet : b.members key = none ∨ key ∉ b.todo → ∀ times : List τ,
        (Label.run other : Label κ τ J).fired key a.now? ++ times = times := by
      intro hidle times
      have hne : other ≠ key := by
        rintro rfl
        rcases hidle with hnone | hout
        · exact hmembers other (List.mem_cons_self ..) hnone
        · rw [htodo] at hout
          exact hout (List.mem_cons_self ..)
      rw [Label.fired, if_neg hne, List.nil_append]
    cases h with
    | @active job hactive =>
      refine ⟨_, .active hactive, fun times h => ?_⟩
      rw [hquiet (Or.inl (hapart hactive b hbatch))]
      exact h
    | @waiting b₀ job hbatch₀ hmember hwaits =>
      cases hbatch.symm.trans hbatch₀
      by_cases hkey : other = key
      · subst hkey
        refine ⟨_, .ran rfl hmember (List.nodup_cons.mp hnodup).1, fun times h => ?_⟩
        rw [Label.fired, if_pos rfl, hnow]
        exact Or.inr ⟨times, rfl, h⟩
      · rw [htodo, List.mem_cons] at hwaits
        refine ⟨_, .waiting rfl hmember (hwaits.resolve_left (Ne.symm hkey)), fun times h => ?_⟩
        rw [Label.fired, if_neg hkey, List.nil_append]
        exact h
    | @ran b₀ job hbatch₀ hmember hran =>
      cases hbatch.symm.trans hbatch₀
      refine ⟨_, .ran rfl hmember ?_, fun times h => ?_⟩
      · intro hin
        apply hran
        rw [htodo]
        exact List.mem_cons_of_mem _ hin
      · rw [hquiet (Or.inr hran)]
        exact h
    | gone hactive hout =>
      refine ⟨_, .gone hactive ?_, fun times h => ?_⟩
      · intro b' hbatch'
        cases hbatch'
        exact hout b hbatch
      · rw [hquiet (Or.inl (hout b hbatch))]
        exact h
  | @finish b hbatch htodo =>
    have hidle : ∀ b', (a.putBack renew b).batch = some b' → b'.members key = none := by
      intro b' hbatch'
      cases hbatch'
    cases h with
    | @active job hactive =>
      refine ⟨_, .active ?_, fun _ h => h⟩
      rw [Scheduler.putBack_other (hapart hactive b hbatch), hactive]
    | waiting hbatch₀ _ hwaits =>
      cases hbatch.symm.trans hbatch₀
      rw [htodo] at hwaits
      cases hwaits
    | @ran b₀ job hbatch₀ hmember _ =>
      cases hbatch.symm.trans hbatch₀
      cases hput : (a.putBack renew b).active key with
      | none =>
        refine ⟨_, .gone hput hidle, fun times h => Or.inl h⟩
      | some job' =>
        refine ⟨_, .active hput, fun times h => Or.inr ⟨job', ?_, h⟩⟩
        exact ((Scheduler.putBack_member hmember).mp hput).2
    | gone hactive hout =>
      refine ⟨_, .gone ?_ hidle, fun _ h => h⟩
      rw [Scheduler.putBack_other (hout b hbatch), hactive]

theorem firings_cons {a a' : Scheduler κ τ J} {label : Label κ τ J}
    {labels : List (Label κ τ J)} (key : κ) (hstep : Step deadline renew a label a') :
    Label.firings key a.now? (label :: labels) =
      label.fired key a.now? ++ Label.firings key a'.now? labels := by
  cases hstep with
  | add _ _ => rfl
  | @cancel other =>
    have hnow : (a.cancel other).now? = a.now? := by
      rw [Scheduler.now?, Scheduler.now?]
      cases hbatch : a.batch with
      | none => rw [cancel_idle a other hbatch]
      | some b =>
        obtain ⟨b', hbatch', hnow, _⟩ := cancel_batch a other hbatch
        rw [hbatch', Option.map_some, Option.map_some, hnow]
    rw [hnow]
    rfl
  | begin_ _ _ => rfl
  | run hbatch _ =>
    simp only [Label.firings, Label.fired, Scheduler.now?, hbatch, Option.map_some]
  | finish _ _ => rfl

/-- The firings of a key that is not added again are the future of where it stands. -/
theorem Stands.firings {a a' : Scheduler κ τ J} {labels : List (Label κ τ J)} {key : κ}
    {F : List τ → Prop} (h : Stands deadline renew a key F) (hsane : Sane deadline a)
    (hadd : key ∉ Label.added labels) (hrun : SpecRun (Step deadline renew) a labels a') :
    F (Label.firings key a.now? labels) := by
  induction hrun generalizing F with
  | nil a =>
    cases h with
    | active _ => trivial
    | waiting _ _ _ => exact Or.inl rfl
    | ran _ _ _ => exact Or.inl rfl
    | gone _ _ => rfl
  | @cons a b c label labels hstep hrest ih =>
    rw [Label.mem_added] at hadd
    have hnot : ∀ job, label ≠ .add key job := by
      rintro job rfl
      exact hadd ⟨job, List.mem_cons_self ..⟩
    obtain ⟨F', hstands, himp⟩ := h.step hsane hnot hstep
    rw [firings_cons key hstep]
    apply himp
    apply ih hstands (hsane.step hstep)
    rw [Label.mem_added]
    rintro ⟨job, hin⟩
    exact hadd ⟨job, List.mem_cons_of_mem _ hin⟩

theorem firings_append {a b : Scheduler κ τ J} {labels more : List (Label κ τ J)} (key : κ)
    (hrun : SpecRun (Step deadline renew) a labels b) :
    Label.firings key a.now? (labels ++ more) =
      Label.firings key a.now? labels ++ Label.firings key b.now? more := by
  induction hrun with
  | nil a => rfl
  | cons hstep _ ih =>
    rw [List.cons_append, firings_cons key hstep, firings_cons key hstep, ih, List.append_assoc]

theorem Sane.run {a b : Scheduler κ τ J} {labels : List (Label κ τ J)} (h : Sane deadline a)
    (hrun : SpecRun (Step deadline renew) a labels b) : Sane deadline b := by
  induction hrun with
  | nil a => exact h
  | cons hstep _ ih => exact ih (h.step hstep)

/-- **Jobs keep their pace.**  In a run that adds each key at most once, a key that is never
    added does not run, and the others run when the deadlines of their jobs have come. -/
theorem firings_paced {labels : List (Label κ τ J)} {a : Scheduler κ τ J} (key : κ)
    (hnodup : (Label.added labels).Nodup)
    (hrun : SpecRun (Step deadline renew) Scheduler.empty labels a) :
    (key ∉ Label.added labels → Label.firings key none labels = []) ∧
      ∀ job, .add key job ∈ labels → Paced deadline renew job (Label.firings key none labels) := by
  have hgone : Stands deadline renew (Scheduler.empty : Scheduler κ τ J) key (· = []) :=
    .gone rfl fun b hbatch => by cases hbatch
  refine ⟨fun hadd => hgone.firings empty_sane hadd hrun, ?_⟩
  intro job hin
  obtain ⟨before, after, rfl⟩ := List.append_of_mem hin
  rw [Label.added, List.filterMap_append, List.filterMap_cons] at hnodup
  have hbefore : key ∉ Label.added before := fun hmem =>
    (List.nodup_append.mp hnodup).2.2 key hmem key (List.mem_cons_self ..) rfl
  have hafter : key ∉ Label.added after :=
    (List.nodup_cons.mp (List.nodup_append.mp hnodup).2.1).1
  obtain ⟨b, hfirst, hrest⟩ := hrun.split
  have hsilent : Label.firings key none before = [] := hgone.firings empty_sane hbefore hfirst
  have hsane : Sane deadline b := empty_sane.run hfirst
  have happend : Label.firings key none (before ++ .add key job :: after) =
      Label.firings key none before ++ Label.firings key b.now? (.add key job :: after) :=
    firings_append key hfirst
  rw [happend, hsilent, List.nil_append]
  cases hrest with
  | cons hstep hlast =>
    rw [firings_cons key hstep]
    have hnext := hsane.step hstep
    cases hstep with
    | add _ _ =>
      exact (Stands.active (Function.update_self ..)).firings hnext hafter hlast

/-- A job that does not renew runs at most once. -/
theorem Paced.length_le {job : J} {times : List τ} (h : Paced deadline renew job times)
    (honce : ∀ now, renew now job = none) : times.length ≤ 1 := by
  cases times with
  | nil => exact Nat.zero_le 1
  | cons now times =>
    rcases h.2 with rfl | ⟨job', hrenew, _⟩
    · exact le_refl 1
    · rw [honce now] at hrenew
      cases hrenew

/-- No run comes before the deadline of the job, nor, after a run, before that of the job it
    renews to. -/
theorem Paced.chain {job : J} {times : List τ} (h : Paced deadline renew job times)
    (next : τ → τ) (Kind : J → Prop) (hkind : Kind job)
    (hnext : ∀ job now job', Kind job → renew now job = some job' →
      Kind job' ∧ deadline job' = next now) :
    (∀ first ∈ times.head?, deadline job ≤ first) ∧
      times.IsChain fun now later => next now ≤ later := by
  induction times generalizing job with
  | nil => exact ⟨fun _ hfirst => absurd hfirst (by simp), List.isChain_nil⟩
  | cons now times ih =>
    obtain ⟨hdue, hrest⟩ := h
    refine ⟨fun first hfirst => ?_, ?_⟩
    · cases hfirst
      exact hdue
    · rcases hrest with rfl | ⟨job', hrenew, hpaced⟩
      · exact List.isChain_singleton now
      · obtain ⟨hkind', hdeadline⟩ := hnext job now job' hkind hrenew
        obtain ⟨hhead, hchain⟩ := ih hpaced hkind'
        rw [hdeadline] at hhead
        exact List.isChain_cons.mpr ⟨hhead, hchain⟩

end Scheduling
