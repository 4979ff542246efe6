import Mathlib.Algebra.Ring.Nat
import Mathlib.Data.List.Basic
import Mathlib.Data.List.Induction

/-!
# Runs of partial deterministic transition systems

A system is a function `step : σ → ε → Option σ`: an event names everything the
environment decides (an input, a scheduling choice, a result of a call into code
that is not modelled), and `none` says that the event cannot happen in the state.
`exec` folds a list of events, so a concrete run is evaluated, and a statement
about every list of events is a statement about every run.

`CanReach P` says that some run leads to a state with `P`; `Always P` says that `P`
holds in every state a run passes through, `Along G` that `G` holds before each of
its steps.  The invariant rule derives `Always` from `Along`; the exactness rule
`always_iff_along` adds the converse, when a step taken outside `G` leaves `P`
broken.  The last section is the forward simulation rule.
-/

namespace Transitions

variable {σ ε : Type*} {step : σ → ε → Option σ}

/-! ### Executing a list of events -/

/-- Run a list of events from a state. -/
def exec (step : σ → ε → Option σ) : σ → List ε → Option σ
  | s, [] => some s
  | s, e :: es => (step s e).bind fun t => exec step t es

/-- `es` is a run from `s` to `t`. -/
def Run (step : σ → ε → Option σ) (s : σ) (es : List ε) (t : σ) : Prop :=
  exec step s es = some t

@[simp] theorem run_nil {s t : σ} : Run step s [] t ↔ s = t := by
  simp [Run, exec]

theorem run_cons {s u : σ} {e : ε} {es : List ε} :
    Run step s (e :: es) u ↔ ∃ t, step s e = some t ∧ Run step t es u := by
  simp [Run, exec, Option.bind_eq_some_iff]

theorem Run.refl (s : σ) : Run step s [] s := by
  rw [run_nil]

theorem Run.cons {s t u : σ} {e : ε} {es : List ε} (ht : step s e = some t)
    (hrun : Run step t es u) : Run step s (e :: es) u := by
  rw [run_cons]
  exact ⟨t, ht, hrun⟩

theorem Run.one {s t : σ} {e : ε} (ht : step s e = some t) : Run step s [e] t :=
  Run.cons ht (Run.refl t)

theorem Run.eq_of_nil {s t : σ} (hrun : Run step s [] t) : s = t := by
  rwa [run_nil] at hrun

/-- The first step of a run. -/
theorem Run.uncons {s u : σ} {e : ε} {es : List ε} (hrun : Run step s (e :: es) u) :
    ∃ t, step s e = some t ∧ Run step t es u := by
  rwa [run_cons] at hrun

theorem Run.step_of_one {s t : σ} {e : ε} (hrun : Run step s [e] t) : step s e = some t := by
  obtain ⟨u, hu, hrest⟩ := hrun.uncons
  rw [hu, hrest.eq_of_nil]

theorem Run.append {s t u : σ} {es fs : List ε} (hes : Run step s es t) (hfs : Run step t fs u) :
    Run step s (es ++ fs) u := by
  induction es generalizing s with
  | nil => rwa [hes.eq_of_nil]
  | cons e es ih =>
    obtain ⟨v, hv, hrest⟩ := hes.uncons
    exact Run.cons hv (ih hrest)

/-- A run of two lists of events passes through a state between them. -/
theorem Run.split {s u : σ} {es fs : List ε} (hrun : Run step s (es ++ fs) u) :
    ∃ t, Run step s es t ∧ Run step t fs u := by
  induction es generalizing s with
  | nil => exact ⟨s, Run.refl s, hrun⟩
  | cons e es ih =>
    obtain ⟨v, hv, hrest⟩ := hrun.uncons
    obtain ⟨t, ht, hfs⟩ := ih hrest
    exact ⟨t, Run.cons hv ht, hfs⟩

/-- A concrete run, by evaluating what it leads to. -/
theorem exists_run {α : Type*} (step : σ → ε → Option σ) (s : σ) (es : List ε) (f : σ → α) (a : α)
    (h : (exec step s es).map f = some a) : ∃ t, Run step s es t ∧ f t = a :=
  Option.map_eq_some_iff.mp h

/-! ### What can be reached -/

/-- Some run from `s` leads to a state with `P`. -/
def CanReach (step : σ → ε → Option σ) (P : σ → Prop) (s : σ) : Prop :=
  ∃ es t, Run step s es t ∧ P t

theorem CanReach.here {P : σ → Prop} {s : σ} (h : P s) : CanReach step P s :=
  ⟨[], s, Run.refl s, h⟩

theorem CanReach.of_step {P : σ → Prop} {s t : σ} {e : ε} (h : CanReach step P t)
    (hstep : step s e = some t) : CanReach step P s := by
  obtain ⟨es, u, hrun, hu⟩ := h
  exact ⟨e :: es, u, Run.cons hstep hrun, hu⟩

/-! ### Invariants -/

/-- An assertion kept by every step holds at the end of every run. -/
theorem Run.invariant {I : σ → Prop} (hstep : ∀ s e t, I s → step s e = some t → I t)
    {s t : σ} {es : List ε} (hrun : Run step s es t) (hs : I s) : I t := by
  induction es generalizing s with
  | nil => exact hrun.eq_of_nil ▸ hs
  | cons e es ih =>
    obtain ⟨u, hu, hrest⟩ := hrun.uncons
    exact ih hrest (hstep s e u hs hu)

/-- A round over a list keeps an assertion that each of its rounds keeps. -/
theorem foldlM_invariant {I : σ → Prop} {es : List ε}
    (hstep : ∀ s e t, e ∈ es → I s → step s e = some t → I t) {s t : σ} (hs : I s)
    (hfold : es.foldlM step s = some t) : I t := by
  induction es generalizing s with
  | nil =>
    cases hfold
    exact hs
  | cons e es ih =>
    rw [List.foldlM_cons] at hfold
    obtain ⟨u, hu, hrest⟩ := Option.bind_eq_some_iff.mp hfold
    apply ih _ (hstep s e u (List.mem_cons_self ..) hs hu) hrest
    intro v f w hf
    exact hstep v f w (List.mem_cons_of_mem _ hf)

/-- An assertion about the events so far and the state they lead to. -/
theorem Run.history {I : List ε → σ → Prop} {s t : σ} {es : List ε} (hs : I [] s)
    (hstep : ∀ fs u e v, Run step s fs u → I fs u → step u e = some v → I (fs ++ [e]) v)
    (hrun : Run step s es t) : I es t := by
  induction es using List.reverseRecOn generalizing t with
  | nil => exact hrun.eq_of_nil ▸ hs
  | append_singleton fs e ih =>
    obtain ⟨u, hu, hlast⟩ := hrun.split
    exact hstep fs u e t hu (ih hu) (hlast.step_of_one)

/-- What the steps cost is paid out of the measure and of what the steps bring in. -/
theorem Run.budget {I : σ → Prop} {left : σ → Nat} {cost income : ε → Nat}
    (hstep : ∀ s e t, I s → step s e = some t → I t ∧ left t + cost e ≤ left s + income e)
    {s t : σ} {es : List ε} (hrun : Run step s es t) (hs : I s) :
    left t + (es.map cost).sum ≤ left s + (es.map income).sum := by
  induction es generalizing s with
  | nil =>
    cases hrun.eq_of_nil
    exact Nat.le_refl _
  | cons e es ih =>
    obtain ⟨u, hu, hrest⟩ := hrun.uncons
    obtain ⟨hinv, hfirst⟩ := hstep s e u hs hu
    have hlast := ih hrest hinv
    rw [List.map_cons, List.sum_cons, List.map_cons, List.sum_cons]
    omega

/-- `P` holds in every state that the run `es` from `s` passes through. -/
def Always (step : σ → ε → Option σ) (P : σ → Prop) (s : σ) (es : List ε) : Prop :=
  ∀ pre post t, es = pre ++ post → Run step s pre t → P t

/-- `G` holds of the state and the event before each step of the run `es` from `s`. -/
def Along (step : σ → ε → Option σ) (G : σ → ε → Prop) (s : σ) (es : List ε) : Prop :=
  ∀ pre e post t, es = pre ++ e :: post → Run step s pre t → G t e

theorem Always.head {P : σ → Prop} {s : σ} {es : List ε} (h : Always step P s es) : P s :=
  h [] es s rfl (Run.refl _)

theorem Along.head {G : σ → ε → Prop} {s : σ} {e : ε} {es : List ε}
    (h : Along step G s (e :: es)) : G s e :=
  h [] e es s rfl (Run.refl _)

theorem Along.tail {G : σ → ε → Prop} {s t : σ} {e : ε} {es : List ε}
    (h : Along step G s (e :: es)) (ht : step s e = some t) : Along step G t es := by
  intro pre f post u hes hrun
  exact h (e :: pre) f post u (by rw [hes]; rfl) (Run.cons ht hrun)

theorem Always.tail {P : σ → Prop} {s t : σ} {e : ε} {es : List ε}
    (h : Always step P s (e :: es)) (ht : step s e = some t) : Always step P t es := by
  intro pre post u hes hrun
  exact h (e :: pre) post u (by rw [hes]; rfl) (Run.cons ht hrun)

theorem Along.suffix {G : σ → ε → Prop} {s t : σ} {es fs : List ε}
    (h : Along step G s (es ++ fs)) (ht : Run step s es t) : Along step G t fs := by
  intro pre f post u hfs hrun
  exact h (es ++ pre) f post u (by rw [hfs, List.append_assoc]) (Run.append ht hrun)

theorem along_nil {G : σ → ε → Prop} {s : σ} : Along step G s [] := by
  intro pre e post t hes
  simp at hes

theorem along_cons {G : σ → ε → Prop} {s : σ} {e : ε} {es : List ε} :
    Along step G s (e :: es) ↔ G s e ∧ ∀ t, step s e = some t → Along step G t es := by
  constructor
  · intro h
    exact ⟨h.head, fun t ht => h.tail ht⟩
  · rintro ⟨hhead, htail⟩ pre f post t hes hrun
    cases pre with
    | nil =>
      simp only [List.nil_append, List.cons.injEq] at hes
      rw [← hrun.eq_of_nil, ← hes.1]
      exact hhead
    | cons g pre =>
      simp only [List.cons_append, List.cons.injEq] at hes
      rcases hes with ⟨hge, hes⟩
      subst hge
      obtain ⟨u, hu, hrest⟩ := hrun.uncons
      exact htail u hu pre f post t hes hrest

instance decidableAlong {G : σ → ε → Prop} [∀ s e, Decidable (G s e)] :
    (s : σ) → (es : List ε) → Decidable (Along step G s es)
  | _, [] => .isTrue along_nil
  | s, e :: es =>
    match h : step s e with
    | none => decidable_of_iff (G s e) (by simp [along_cons, h])
    | some t =>
      have := decidableAlong (G := G) t es
      decidable_of_iff (G s e ∧ Along step G t es) (by simp [along_cons, h])

/-- A condition along a run and then along the rest of it. -/
theorem along_append {G : σ → ε → Prop} {s : σ} {es fs : List ε} :
    Along step G s (es ++ fs) ↔
      Along step G s es ∧ ∀ t, Run step s es t → Along step G t fs := by
  induction es generalizing s with
  | nil => simp [along_nil]
  | cons e es ih =>
    rw [List.cons_append, along_cons, along_cons, and_assoc]
    apply and_congr_right
    intro _
    constructor
    · intro h
      refine ⟨fun t ht => (ih.mp (h t ht)).1, ?_⟩
      intro u hrun
      obtain ⟨t, ht, hrest⟩ := hrun.uncons
      exact (ih.mp (h t ht)).2 u hrest
    · rintro ⟨hhead, htail⟩ t ht
      exact ih.mpr ⟨hhead t ht, fun u hrest => htail u (hrest.cons ht)⟩

/-- Two conditions that agree at every step from a state of an invariant, which the steps
    that meet the second one keep. -/
theorem along_congr_of_guard {I : σ → Prop} {G H : σ → ε → Prop}
    (hstep : ∀ s e t, I s → H s e → step s e = some t → I t)
    (hiff : ∀ s e t, I s → step s e = some t → (G s e ↔ H s e))
    {s u : σ} {es : List ε} (hs : I s) (hrun : Run step s es u) :
    Along step G s es ↔ Along step H s es := by
  induction es generalizing s with
  | nil => exact iff_of_true along_nil along_nil
  | cons e es ih =>
    obtain ⟨t, ht, hrest⟩ := hrun.uncons
    rw [along_cons, along_cons, hiff s e t hs ht]
    apply and_congr_right
    intro hH
    have htail := ih (hstep s e t hs hH ht) hrest
    constructor
    · intro h v hv
      cases ht.symm.trans hv
      exact htail.mp (h t ht)
    · intro h v hv
      cases ht.symm.trans hv
      exact htail.mpr (h t ht)

/-- Two conditions that agree at every step from a state of an invariant. -/
theorem along_congr {I : σ → Prop} {G H : σ → ε → Prop}
    (hstep : ∀ s e t, I s → step s e = some t → I t)
    (hiff : ∀ s e t, I s → step s e = some t → (G s e ↔ H s e))
    {s u : σ} {es : List ε} (hs : I s) (hrun : Run step s es u) :
    Along step G s es ↔ Along step H s es :=
  along_congr_of_guard (fun s e t h _ => hstep s e t h) hiff hs hrun

theorem Always.mono {P Q : σ → Prop} (himp : ∀ s, P s → Q s) {s : σ} {es : List ε}
    (h : Always step P s es) : Always step Q s es := by
  intro pre post t hes hrun
  exact himp t (h pre post t hes hrun)

/-- A condition that, in the states of an invariant, follows from another one. -/
theorem Along.of_always {I : σ → Prop} {G H : σ → ε → Prop}
    (himp : ∀ s e, I s → G s e → H s e) {s : σ} {es : List ε}
    (hI : Always step I s es) (h : Along step G s es) : Along step H s es := by
  intro pre e post t hes hrun
  exact himp t e (hI pre (e :: post) t hes hrun) (h pre e post t hes hrun)

/-- A condition on events alone holds along a run when it holds of its events. -/
theorem along_event {p : ε → Prop} {s u : σ} {es : List ε} (hrun : Run step s es u) :
    Along step (fun _ e => p e) s es ↔ ∀ e ∈ es, p e := by
  constructor
  · intro h e he
    obtain ⟨pre, post, hes⟩ := List.append_of_mem he
    subst hes
    obtain ⟨t, ht, _⟩ := hrun.split
    exact h pre e post t rfl ht
  · intro h pre e post t hes _
    exact h e (by rw [hes]; exact List.mem_append_right _ (List.mem_cons_self ..))

/-- A condition that holds of the events in any state. -/
theorem along_of_forall {G : σ → ε → Prop} {s : σ} {es : List ε} (h : ∀ e ∈ es, ∀ t, G t e) :
    Along step G s es := by
  intro pre e post t hes _
  exact h e (by rw [hes]; exact List.mem_append_right _ (List.mem_cons_self ..)) t

/-- **Invariant rule.**  An assertion kept by every step that `G` allows holds in
    every state of a run whose steps `G` allows. -/
theorem always_of_along {I : σ → Prop} {G : σ → ε → Prop}
    (hstep : ∀ s e t, I s → G s e → step s e = some t → I t)
    {s : σ} {es : List ε} (hs : I s) (halong : Along step G s es) : Always step I s es := by
  intro pre
  induction pre generalizing s es with
  | nil =>
    intro post t _ hrun
    exact hrun.eq_of_nil ▸ hs
  | cons e pre ih =>
    intro post t hes hrun
    subst hes
    obtain ⟨u, hu, hrest⟩ := hrun.uncons
    exact ih (hstep s e u hs halong.head hu) (halong.tail hu) post t rfl hrest

/-- **Exactness rule.**  If, from a state satisfying the invariant, a step outside
    `G` leads to a state without `P`, then `P` holds throughout a run exactly when
    `G` holds before each of its steps. -/
theorem always_iff_along {I P : σ → Prop} {G : σ → ε → Prop}
    (himp : ∀ s, I s → P s)
    (hgood : ∀ s e t, I s → G s e → step s e = some t → I t)
    (hbad : ∀ s e t, I s → ¬ G s e → step s e = some t → ¬ P t)
    {s u : σ} {es : List ε} (hs : I s) (hrun : Run step s es u) :
    Always step P s es ↔ Along step G s es := by
  constructor
  · intro halways
    induction es generalizing s with
    | nil => exact along_nil
    | cons e es ih =>
      obtain ⟨v, hv, hrest⟩ := hrun.uncons
      have hG : G s e := by
        by_contra hG
        exact hbad s e v hs hG hv (halways.tail hv).head
      refine along_cons.mpr ⟨hG, ?_⟩
      intro w hw
      cases hv.symm.trans hw
      exact ih (hgood s e v hs hG hv) hrest (halways.tail hv)
  · intro halong
    exact (always_of_along hgood hs halong).mono himp

/-! ### Forward simulation -/

/-- Runs of a labelled relation, with the labels in order. -/
inductive SpecRun {α ℓ : Type*} (A : α → ℓ → α → Prop) : α → List ℓ → α → Prop where
  | nil (a : α) : SpecRun A a [] a
  | cons {a b c : α} {l : ℓ} {ls : List ℓ} : A a l b → SpecRun A b ls c → SpecRun A a (l :: ls) c

theorem SpecRun.split {α ℓ : Type*} {A : α → ℓ → α → Prop} {a c : α} {ls ms : List ℓ}
    (h : SpecRun A a (ls ++ ms) c) : ∃ b, SpecRun A a ls b ∧ SpecRun A b ms c := by
  induction ls generalizing a with
  | nil => exact ⟨a, .nil a, h⟩
  | cons l ls ih =>
    cases h with
    | cons hstep hrest =>
      obtain ⟨b, hb, hc⟩ := ih hrest
      exact ⟨b, .cons hstep hb, hc⟩

/-- The labels a run shows; a step labelled `none` shows nothing. -/
def labels {ℓ : Type*} (step : σ → ε → Option σ) (obs : σ → ε → Option ℓ) : σ → List ε → List ℓ
  | _, [] => []
  | s, e :: es =>
    (obs s e).toList ++ match step s e with
      | some t => labels step obs t es
      | none => []

theorem labels_cons {ℓ : Type*} {obs : σ → ε → Option ℓ} {s t : σ} {e : ε} {es : List ε}
    (ht : step s e = some t) :
    labels step obs s (e :: es) = (obs s e).toList ++ labels step obs t es := by
  simp only [labels, ht]

theorem labels_append {ℓ : Type*} {obs : σ → ε → Option ℓ} {s t : σ} {es fs : List ε}
    (hrun : Run step s es t) :
    labels step obs s (es ++ fs) = labels step obs s es ++ labels step obs t fs := by
  induction es generalizing s with
  | nil =>
    rw [hrun.eq_of_nil]
    rfl
  | cons e es ih =>
    obtain ⟨u, hu, hrest⟩ := hrun.uncons
    rw [List.cons_append, labels_cons hu, labels_cons hu, ih hrest, List.append_assoc]

/-- A label is shown by one of the steps. -/
theorem mem_labels {ℓ : Type*} {obs : σ → ε → Option ℓ} {s u : σ} {es : List ε} {l : ℓ}
    (hrun : Run step s es u) : l ∈ labels step obs s es ↔
      ∃ pre e post t, es = pre ++ e :: post ∧ Run step s pre t ∧ obs t e = some l := by
  induction es generalizing s with
  | nil => simp [labels]
  | cons e es ih =>
    obtain ⟨v, hv, hrest⟩ := hrun.uncons
    rw [labels_cons hv, List.mem_append, Option.mem_toList, ih hrest]
    constructor
    · rintro (hl | ⟨pre, f, post, t, rfl, hpre, hl⟩)
      · exact ⟨[], e, es, s, rfl, Run.refl _, hl⟩
      · exact ⟨e :: pre, f, post, t, rfl, Run.cons hv hpre, hl⟩
    · rintro ⟨pre, f, post, t, hes, hpre, hl⟩
      cases pre with
      | nil =>
        simp only [List.nil_append, List.cons.injEq] at hes
        rw [← hpre.eq_of_nil, ← hes.1] at hl
        exact Or.inl hl
      | cons g pre =>
        simp only [List.cons_append, List.cons.injEq] at hes
        rcases hes with ⟨rfl, rfl⟩
        obtain ⟨x, hx, hrest'⟩ := hpre.uncons
        cases hv.symm.trans hx
        exact Or.inr ⟨pre, f, post, t, rfl, hrest', hl⟩

/-- **Forward simulation.**  If every step of the system is matched by the
    specification (a labelled step by a step with that label, an unlabelled one by
    none), then every run is matched by a run of the specification with its labels. -/
theorem simulation {α ℓ : Type*} (A : α → ℓ → α → Prop) (obs : σ → ε → Option ℓ)
    (R : σ → α → Prop)
    (hstep : ∀ s e t a, R s a → step s e = some t →
      match obs s e with
      | some l => ∃ b, A a l b ∧ R t b
      | none => R t a)
    {s t : σ} {es : List ε} {a : α} (hR : R s a) (hrun : Run step s es t) :
    ∃ b, SpecRun A a (labels step obs s es) b ∧ R t b := by
  induction es generalizing s a with
  | nil =>
    cases hrun.eq_of_nil
    exact ⟨a, SpecRun.nil a, hR⟩
  | cons e es ih =>
    obtain ⟨u, hu, hrest⟩ := hrun.uncons
    have hmatch := hstep s e u a hR hu
    cases hobs : obs s e with
    | none =>
      rw [hobs] at hmatch
      obtain ⟨b, hb, hRb⟩ := ih hmatch hrest
      exact ⟨b, by simpa [labels, hobs, hu] using hb, hRb⟩
    | some l =>
      rw [hobs] at hmatch
      rcases hmatch with ⟨c, hc, hRc⟩
      obtain ⟨b, hb, hRb⟩ := ih hRc hrest
      exact ⟨b, by simpa [labels, hobs, hu] using SpecRun.cons hc hb, hRb⟩

end Transitions
