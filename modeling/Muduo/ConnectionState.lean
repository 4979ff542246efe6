import Muduo.TcpConnection
import Muduo.Transitions

/-!
# The atomic `state_` of a connection

`TcpConnection::state_` is loaded and stored by several threads.  `shutdown()` and
`connectDestroyed()` check it and store in two steps; `connectEstablished()` and
`handleClose()` only store; `send()`, `sendInLoop()`, `handleWrite()` and `connected()`
only load.  Any thread can be the loop's: the threads are an arbitrary type, and each is
in at most one of the two-step calls.

`connectEstablished()` comes first and once: the server runs it in `newConnection`, the
channel is enabled in it, and `handleClose()` and `connectDestroyed()` follow from events
of the channel or from the server's destructor.
-/

namespace Muduo

open Transitions

/-- Where a thread is between a check of `state_` and its store. -/
inductive StatePc where
  | idle
  | shutdown           -- saw `kConnected`, will store `kDisconnecting`
  | connectDestroyed   -- saw `kConnected`, will store `kDisconnected`
deriving DecidableEq, Repr

structure AtomicState (T : Type) where
  state_ : StateE
  established : Bool
  threads : T → StatePc

inductive StateEvent (T : Type) where
  | connectEstablished
  /-- A load whose result is stored nowhere: `send`, `sendInLoop`, `handleWrite`. -/
  | load (thread : T)
  | shutdownLoad (thread : T)
  | shutdownStore (thread : T)
  | handleClose (thread : T)
  | destroyedLoad (thread : T)
  | destroyedStore (thread : T)
deriving DecidableEq

namespace AtomicState

variable {T : Type} [DecidableEq T]

/-- The connection as `newConnection` creates it. -/
def new : AtomicState T := ⟨.kConnecting, false, fun _ => .idle⟩

/-- A check of `state_ == kConnected` in front of a store. -/
def check (s : AtomicState T) (thread : T) (pc : StatePc) : AtomicState T :=
  if s.state_ = .kConnected then
    { s with threads := Function.update s.threads thread pc }
  else
    s

/-- A store of `state_` that ends the thread's call. -/
def store (s : AtomicState T) (thread : T) (state : StateE) : AtomicState T :=
  { s with state_ := state, threads := Function.update s.threads thread .idle }

def step (s : AtomicState T) : StateEvent T → Option (AtomicState T)
  | .connectEstablished =>
    if s.established then none else some { s with state_ := .kConnected, established := true }
  | .load _ => some s
  | .shutdownLoad thread =>
    if s.threads thread = .idle then some (s.check thread .shutdown) else none
  | .shutdownStore thread =>
    if s.threads thread = .shutdown then some (s.store thread .kDisconnecting) else none
  | .handleClose thread =>
    if s.established ∧ s.threads thread = .idle then some (s.store thread .kDisconnected) else none
  | .destroyedLoad thread =>
    if s.established ∧ s.threads thread = .idle then
      some (s.check thread .connectDestroyed)
    else
      none
  | .destroyedStore thread =>
    if s.threads thread = .connectDestroyed then some (s.store thread .kDisconnected) else none

end AtomicState

/-- The place of a state in `kConnecting → kConnected → kDisconnecting → kDisconnected`. -/
def StateE.rank : StateE → Nat
  | .kConnecting => 0
  | .kConnected => 1
  | .kDisconnecting => 2
  | .kDisconnected => 3

/-- A store of `kDisconnected`. -/
def StateEvent.closes {T : Type} : StateEvent T → Bool
  | .handleClose _ | .destroyedStore _ => true
  | _ => false

def StateEvent.isShutdownStore {T : Type} : StateEvent T → Bool
  | .shutdownStore _ => true
  | _ => false

namespace AtomicState

variable {T : Type} [DecidableEq T]

/-- The step moves `state_` forward or not at all, and does not leave `kDisconnected`. -/
def MovesForward (s : AtomicState T) (e : StateEvent T) : Prop :=
  ∀ t, s.step e = some t →
    s.state_.rank ≤ t.state_.rank ∧ (s.state_ = .kDisconnected → t.state_ = .kDisconnected)

/-- No `shutdown()` stores when `state_` is `kDisconnected` already. -/
def StoresInTime (s : AtomicState T) (e : StateEvent T) : Prop :=
  e.isShutdownStore = true → s.state_ ≠ .kDisconnected

/-! ### Steps -/

/-- Before `connectEstablished` nothing has happened. -/
def Inv (s : AtomicState T) : Prop :=
  if s.established then s.state_ ≠ .kConnecting
  else s.state_ = .kConnecting ∧ ∀ thread, s.threads thread = .idle

theorem check_state (s : AtomicState T) (thread : T) (pc : StatePc) :
    (s.check thread pc).state_ = s.state_ ∧ (s.check thread pc).established = s.established := by
  simp only [check]
  split <;> exact ⟨rfl, rfl⟩

/-- What a step does to `state_`. -/
theorem step_state {s t : AtomicState T} {e : StateEvent T} (hstep : s.step e = some t) :
    (e = .connectEstablished ∧ s.established = false ∧ t.state_ = .kConnected ∧
        t.established = true) ∨
      (e.closes = true ∧ t.state_ = .kDisconnected ∧ t.established = s.established) ∨
      (∃ thread, e = .shutdownStore thread ∧ s.threads thread = .shutdown ∧
        t.state_ = .kDisconnecting ∧ t.established = s.established) ∨
      (e.closes = false ∧ e.isShutdownStore = false ∧ t.state_ = s.state_ ∧
        t.established = s.established) := by
  cases e with
  | connectEstablished =>
    simp only [step, Option.ite_none_left_eq_some, Bool.not_eq_true, Option.some.injEq] at hstep
    rw [← hstep.2]
    exact Or.inl ⟨rfl, hstep.1, rfl, rfl⟩
  | load thread =>
    simp only [step, Option.some.injEq] at hstep
    rw [← hstep]
    exact Or.inr (Or.inr (Or.inr ⟨rfl, rfl, rfl, rfl⟩))
  | shutdownLoad thread =>
    simp only [step, Option.ite_none_right_eq_some, Option.some.injEq] at hstep
    rw [← hstep.2]
    exact Or.inr (Or.inr (Or.inr ⟨rfl, rfl, check_state s thread _⟩))
  | shutdownStore thread =>
    simp only [step, Option.ite_none_right_eq_some, Option.some.injEq] at hstep
    rw [← hstep.2]
    exact Or.inr (Or.inr (Or.inl ⟨thread, rfl, hstep.1, rfl, rfl⟩))
  | handleClose thread =>
    simp only [step, Option.ite_none_right_eq_some, Option.some.injEq] at hstep
    rw [← hstep.2]
    exact Or.inr (Or.inl ⟨rfl, rfl, rfl⟩)
  | destroyedLoad thread =>
    simp only [step, Option.ite_none_right_eq_some, Option.some.injEq] at hstep
    rw [← hstep.2]
    exact Or.inr (Or.inr (Or.inr ⟨rfl, rfl, check_state s thread _⟩))
  | destroyedStore thread =>
    simp only [step, Option.ite_none_right_eq_some, Option.some.injEq] at hstep
    rw [← hstep.2]
    exact Or.inr (Or.inl ⟨rfl, rfl, rfl⟩)

omit [DecidableEq T] in
theorem new_inv : (new : AtomicState T).Inv := ⟨rfl, fun _ => rfl⟩

omit [DecidableEq T] in
theorem inv_established {s : AtomicState T} (h : s.Inv) (hest : s.established = true) :
    s.state_ ≠ .kConnecting := by
  simpa only [Inv, hest, if_true] using h

omit [DecidableEq T] in
theorem inv_fresh {s : AtomicState T} (h : s.Inv) (hest : s.established = false) :
    s.state_ = .kConnecting ∧ ∀ thread, s.threads thread = .idle := by
  simpa only [Inv, hest, Bool.false_eq_true, if_false] using h

/-- Before `connectEstablished` only loads can happen, and they change nothing. -/
theorem step_fresh {s t : AtomicState T} {e : StateEvent T} (h : s.Inv)
    (hest : s.established = false) (hstep : s.step e = some t) :
    e = .connectEstablished ∨ t = s := by
  obtain ⟨hstate, hidle⟩ := inv_fresh h hest
  cases e <;> simp_all [step, check]

theorem Inv.step {s t : AtomicState T} {e : StateEvent T} (h : s.Inv)
    (hstep : s.step e = some t) : t.Inv := by
  cases hest : s.established with
  | false =>
    rcases step_fresh h hest hstep with rfl | rfl
    · simp only [AtomicState.step, hest, Bool.false_eq_true, if_false, Option.some.injEq] at hstep
      simp [Inv, ← hstep]
    · exact h
  | true =>
    have hstate := inv_established h hest
    rcases step_state hstep with ⟨_, hfresh, _⟩ | ⟨_, ht, htest⟩ | ⟨_, _, _, ht, htest⟩ |
      ⟨_, _, ht, htest⟩
    · simp [hest] at hfresh
    · simp [Inv, htest, hest, ht]
    · simp [Inv, htest, hest, ht]
    · simpa [Inv, htest, hest, ht] using hstate

/-- Out of order is only the store of a `shutdown()` whose check has gone stale. -/
theorem movesForward_iff {s t : AtomicState T} {e : StateEvent T} (h : s.Inv)
    (hstep : s.step e = some t) : s.MovesForward e ↔ s.StoresInTime e := by
  constructor
  · intro hforward hstore hclosed
    have ht := (hforward t hstep).2 hclosed
    rcases step_state hstep with ⟨rfl, _⟩ | ⟨hcloses, _⟩ | ⟨_, _, _, ht', _⟩ | ⟨_, hother, _⟩
    · simp [StateEvent.isShutdownStore] at hstore
    · cases e <;> simp [StateEvent.closes, StateEvent.isShutdownStore] at hcloses hstore
    · simp [ht'] at ht
    · simp [hother] at hstore
  · intro hintime u hu
    cases hstep.symm.trans hu
    rcases step_state hstep with ⟨_, hfresh, ht, _⟩ | ⟨_, ht, _⟩ | ⟨thread, rfl, hpc, ht, _⟩ |
      ⟨_, _, ht, _⟩
    · simp [(inv_fresh h hfresh).1, ht, StateE.rank]
    · rw [ht]
      exact ⟨by cases s.state_ <;> decide, fun _ => rfl⟩
    · have hopen : s.state_ ≠ .kDisconnected := hintime rfl
      rw [ht]
      revert hopen
      cases s.state_ <;> decide
    · rw [ht]
      exact ⟨Nat.le_refl _, id⟩

/-! ### The order of the stores -/

/-- No store of a `shutdown()` comes after a store of `kDisconnected`. -/
def ShutdownFirst (es : List (StateEvent T)) : Prop :=
  ∀ pre e post, es = pre ++ e :: post → e.closes = true →
    ∀ f ∈ post, f.isShutdownStore = false

/-- While every store is in time, `kDisconnected` stays and no `shutdown()` stores. -/
theorem closed_of_along {s t : AtomicState T} {es : List (StateEvent T)} (h : s.Inv)
    (hclosed : s.state_ = .kDisconnected) (halong : Along step StoresInTime s es)
    (hrun : Run step s es t) : ∀ f ∈ es, f.isShutdownStore = false := by
  induction es generalizing s with
  | nil => simp
  | cons e es ih =>
    obtain ⟨u, hu, hrest⟩ := hrun.uncons
    have hforward := (movesForward_iff h hu).mpr halong.head
    intro f hf
    rcases List.mem_cons.mp hf with rfl | hf
    · cases hstore : f.isShutdownStore with
      | false => rfl
      | true => exact absurd hclosed (halong.head hstore)
    · exact ih (h.step hu) ((hforward u hu).2 hclosed) (halong.tail hu) hrest f hf

/-- `kDisconnected` comes from a store of it. -/
theorem state_open {s : AtomicState T} {es : List (StateEvent T)} (hrun : Run step new es s) :
    (∀ f ∈ es, f.closes = false) → s.state_ ≠ .kDisconnected := by
  apply Run.history (I := fun es s => (∀ f ∈ es, f.closes = false) →
    s.state_ ≠ .kDisconnected) _ _ hrun
  · intro _
    simp [new]
  · intro fs u e v _ hI hstep hes
    have hu := hI fun f hf => hes f (List.mem_append_left _ hf)
    have he := hes e (List.mem_append_right _ (List.mem_singleton_self e))
    rcases step_state hstep with ⟨_, _, hv, _⟩ | ⟨hcloses, _⟩ | ⟨_, _, _, hv, _⟩ | ⟨_, _, hv, _⟩
    · simp [hv]
    · simp [he] at hcloses
    · simp [hv]
    · rwa [hv]

theorem along_storesInTime_iff {s : AtomicState T} {es : List (StateEvent T)}
    (hrun : Run step new es s) : Along step StoresInTime new es ↔ ShutdownFirst es := by
  constructor
  · intro halong pre e post hes hcloses
    subst hes
    obtain ⟨u, hu, hrest⟩ := hrun.split
    obtain ⟨v, hv, hpost⟩ := hrest.uncons
    have hu_inv : u.Inv := hu.invariant (fun _ _ _ h => h.step) new_inv
    have hclosed : v.state_ = .kDisconnected := by
      rcases step_state hv with ⟨rfl, _⟩ | ⟨_, hv, _⟩ | ⟨_, rfl, _⟩ | ⟨hopen, _⟩
      · simp [StateEvent.closes] at hcloses
      · exact hv
      · simp [StateEvent.closes] at hcloses
      · simp [hopen] at hcloses
    exact closed_of_along (hu_inv.step hv) hclosed ((halong.suffix hu).tail hv) hpost
  · intro hfirst pre e post t hes hpre hstore hclosed
    obtain ⟨f, hf, hcloses⟩ : ∃ f ∈ pre, f.closes = true := by
      by_contra hnone
      push Not at hnone
      exact state_open hpre (fun f hf => Bool.eq_false_iff.mpr (hnone f hf)) hclosed
    obtain ⟨before, after, rfl⟩ := List.append_of_mem hf
    have hlate := hfirst before f (after ++ e :: post) (by simp [hes]) hcloses e (by simp)
    simp [hstore] at hlate

end AtomicState

/-! ### The methods of the connection -/

/-- The methods that store `state_`. -/
inductive StateCall where
  | connectEstablished
  | shutdown
  | handleClose
  | connectDestroyed
deriving DecidableEq

namespace StateCall

def run (c : ConnCtx) : StateCall → ConnCtx
  | .connectEstablished => c.connectEstablished
  | .shutdown => c.shutdown
  | .handleClose => c.handleClose
  | .connectDestroyed => c.connectDestroyed

/-- The loads and stores of the method on one thread; `connected` is what a load sees. -/
def events {T : Type} (thread : T) (connected : Bool) : StateCall → List (StateEvent T)
  | .connectEstablished => [.connectEstablished]
  | .shutdown =>
    if connected then [.shutdownLoad thread, .shutdownStore thread] else [.shutdownLoad thread]
  | .handleClose => [.handleClose thread]
  | .connectDestroyed =>
    if connected then [.destroyedLoad thread, .destroyedStore thread] else [.destroyedLoad thread]

end StateCall

theorem ConnCtx.connectDestroyed_state (c : ConnCtx) : c.connectDestroyed.conn.state_ =
    if c.conn.state_ = .kConnected then .kDisconnected else c.conn.state_ := by
  by_cases h : c.conn.state_ = .kConnected
  · simp only [connectDestroyed, h, beq_self_eq_true, if_true]
    rfl
  · simp only [connectDestroyed, h, beq_eq_false_iff_ne.mpr h, Bool.false_eq_true, if_false]
    rfl

theorem ConnCtx.handleClose_state (c : ConnCtx) :
    c.handleClose.conn.state_ = .kDisconnected := by
  simp only [handleClose, closeCallback]
  split
  · rw [connectDestroyed_state]
    rfl
  · rfl

/-- A method that no other thread interrupts is a run of its loads and stores. -/
theorem AtomicState.call_state {T : Type} [DecidableEq T] {s : AtomicState T} {c : ConnCtx}
    {thread : T} (call : StateCall) (hs : s.state_ = c.conn.state_)
    (hest : s.established = decide (call ≠ .connectEstablished))
    (hidle : s.threads thread = .idle) :
    ∃ t, Run step s (call.events thread (s.state_ == .kConnected)) t ∧
      t.state_ = (call.run c).conn.state_ := by
  cases call with
  | connectEstablished =>
    refine ⟨{ s with state_ := .kConnected, established := true }, Run.one ?_, rfl⟩
    simp [step, hest]
  | handleClose =>
    refine ⟨s.store thread .kDisconnected, Run.one ?_, ?_⟩
    · simp [step, hest, hidle]
    · exact (ConnCtx.handleClose_state c).symm
  | shutdown =>
    by_cases hconn : s.state_ = .kConnected
    · refine ⟨(s.check thread .shutdown).store thread .kDisconnecting, ?_, ?_⟩
      · simp [StateCall.events, Run, exec, step, hidle, check, hconn]
      · simp [StateCall.run, ConnCtx.shutdown, ConnCtx.shutdownStore, ← hs, hconn, store,
          ConnCtx.setState, ConnCtx.emit]
    · refine ⟨s.check thread .shutdown, ?_, ?_⟩
      · simp [StateCall.events, Run, exec, step, hidle, hconn]
      · simp [StateCall.run, ConnCtx.shutdown, ← hs, hconn, check]
  | connectDestroyed =>
    have hstate := ConnCtx.connectDestroyed_state c
    by_cases hconn : s.state_ = .kConnected
    · refine ⟨(s.check thread .connectDestroyed).store thread .kDisconnected, ?_, ?_⟩
      · simp [StateCall.events, Run, exec, step, hidle, hest, check, hconn]
      · rw [StateCall.run, hstate, ← hs, if_pos hconn]
        rfl
    · refine ⟨s.check thread .connectDestroyed, ?_, ?_⟩
      · simp [StateCall.events, Run, exec, step, hidle, hest, hconn]
      · rw [StateCall.run, hstate, ← hs, if_neg hconn, check, if_neg hconn]

/-- **When `state_` only moves forward.**  In every interleaving of the loads and stores
    of `state_`, it moves along `kConnecting → kConnected → kDisconnecting →
    kDisconnected` and stays in the last exactly when no store of a `shutdown()` comes
    after a store of `kDisconnected`. -/
theorem state_moves_forward_iff {T : Type} [DecidableEq T] (s : AtomicState T)
    (es : List (StateEvent T)) (hrun : Run AtomicState.step AtomicState.new es s) :
    Along AtomicState.step AtomicState.MovesForward AtomicState.new es ↔
      AtomicState.ShutdownFirst es :=
  (along_congr (I := AtomicState.Inv) (fun _ _ _ h => h.step)
    (fun _ _ _ => AtomicState.movesForward_iff) AtomicState.new_inv hrun).trans
    (AtomicState.along_storesInTime_iff hrun)

theorem state_moves_forward_iff_one_shutdown :
    Along AtomicState.step AtomicState.MovesForward AtomicState.new
        [StateEvent.connectEstablished, .shutdownLoad 1, .shutdownStore 1, .handleClose 0] ↔
      AtomicState.ShutdownFirst
        [StateEvent.connectEstablished, .shutdownLoad 1, .shutdownStore 1, .handleClose 0] := by
  obtain ⟨s, hrun, _⟩ := exists_run AtomicState.step AtomicState.new
    [StateEvent.connectEstablished, .shutdownLoad 1, .shutdownStore 1, .handleClose 0]
    AtomicState.state_ .kDisconnected rfl
  exact state_moves_forward_iff s _ hrun

/-- A `shutdown()` on thread 1 that checked before the close and stores after it. -/
theorem shutdown_reopens_state :
    ∃ s t : AtomicState Nat,
      Run AtomicState.step AtomicState.new
        [.connectEstablished, .shutdownLoad 1, .handleClose 0] s ∧
      s.step (.shutdownStore 1) = some t ∧
      s.state_ = .kDisconnected ∧ t.state_ = .kDisconnecting ∧
      ¬ Along AtomicState.step AtomicState.MovesForward AtomicState.new
        [StateEvent.connectEstablished, .shutdownLoad 1, .handleClose 0, .shutdownStore 1] := by
  obtain ⟨s, hrun, hends⟩ := exists_run AtomicState.step AtomicState.new
    [StateEvent.connectEstablished, .shutdownLoad 1, .handleClose 0]
    (fun s : AtomicState Nat => (s.state_, s.threads 1)) (.kDisconnected, .shutdown) rfl
  simp only [Prod.mk.injEq] at hends
  rcases hends with ⟨hclosed, hpc⟩
  have hstore : s.step (.shutdownStore 1) = some (s.store 1 .kDisconnecting) := by
    simp [AtomicState.step, hpc]
  refine ⟨s, _, hrun, hstore, hclosed, rfl, ?_⟩
  intro halong
  have hlast : s.MovesForward (.shutdownStore 1) :=
    (Along.suffix halong hrun).head
  have hstays := (hlast _ hstore).2 hclosed
  simp [AtomicState.store] at hstays

end Muduo
