import Muduo.HandshakeProgress
import Muduo.TcpServer

/-!
# Starting a server

`TcpServer::start` lets the first caller start the pool and then have the acceptor listen.
`EventLoopThreadPool::start` makes one `EventLoopThread` after another and waits in its
`startLoop` until the loop of the thread is published.  The threads already started run on
meanwhile, other threads call `start` again, and a loop may quit by itself.

A call of `start` that finds `started_` zero is a pass through the pool's start.  As
`started_` is an `int`, that is every `2 ^ 32`-th call.
-/

namespace Muduo

open Transitions

/-! ### The server -/

/-- Where a caller of `start` that found `started_` zero is. -/
inductive StartPc where
  | creating (i : Nat)         -- in the loop of the pool's `start`, at its test
  | starting (i k : Nat)       -- in the `startLoop` of `threads_[k]`
  | calling                    -- at `numThreads_ == 0 && cb`
  | listening                  -- `loop_->runInLoop` is next
  | returned
deriving DecidableEq, Repr

/-- What `TcpServer::start` reads and writes.  A loop and its thread are one number, the
    worker of `threads_[k]` is `loop_ + 1 + k`. -/
structure ServerStartup where
  loop_ : Nat
  numThreads_ : Int
  /-- Whether `threadInitCallback_` is set. -/
  threadInitCallback_ : Bool
  started_ : Int
  /-- The callers that found `started_` zero. -/
  passes : List (Nat × StartPc)
  threads_ : List EventLoopThread
  loops_ : List Nat
  /-- The loops whose init callback has run, in order. -/
  callbacks : List Nat
  /-- How often `Acceptor::listen` is in the pending functors of `loop_`. -/
  pendingListens : Nat
  listenning_ : Bool

inductive StartupEvent where
  /-- A thread calls `start`. -/
  | start (thread : Nat)
  /-- The next step of the `j`-th caller that found `started_` zero. -/
  | advance (j : Nat)
  /-- The next step of `threadFunc` of `threads_[k]`. -/
  | worker (k : Nat)
  /-- The wait for `threads_[k]` returns without a notification. -/
  | wake (k : Nat)
  /-- The loop of `threads_[k]` quits by itself. -/
  | quitItself (k : Nat)
  /-- `loop_` runs its pending `listen`. -/
  | runListen
deriving DecidableEq, Repr

namespace ServerStartup

def new (loop : Nat) (numThreads : Int) (threadInitCallback : Bool) : ServerStartup where
  loop_ := loop
  numThreads_ := numThreads
  threadInitCallback_ := threadInitCallback
  started_ := 0
  passes := []
  threads_ := []
  loops_ := []
  callbacks := []
  pendingListens := 0
  listenning_ := false

/-- A step of `threads_[k]`. -/
def handshake (s : ServerStartup) (k : Nat) (e : HandshakeEvent) : Option ServerStartup :=
  s.threads_[k]?.bind fun t => (t.step e).map fun t' =>
    { s with
      threads_ := s.threads_.set k t'
      callbacks :=
        if s.threadInitCallback_ ∧ e = .thread ∧ t.thread = .initializing then
          s.callbacks ++ [s.loop_ + 1 + k]
        else s.callbacks }

/-- `loop_->runInLoop(std::bind(&Acceptor::listen, acceptor_.get()))` on a thread. -/
def runListenInLoop (s : ServerStartup) (thread : Nat) : ServerStartup :=
  if thread = s.loop_ then { s with listenning_ := true }
  else { s with pendingListens := s.pendingListens + 1 }

/-- The next step of a caller: what it does, and where it is then. -/
def stepPass (s : ServerStartup) (thread : Nat) : StartPc → Option (ServerStartup × StartPc)
  | .creating i =>
    if i < s.numThreads_ then
      some ({ s with threads_ := s.threads_ ++ [.new] }, .starting i s.threads_.length)
    else
      some (s, .calling)
  | .starting i k =>
    if (s.threads_[k]?.any fun t => t.owner = .started) = true then
      some ({ s with loops_ := s.loops_ ++ [s.loop_ + 1 + k] }, .creating (i + 1))
    else
      (s.handshake k .owner).map fun s' => (s', .starting i k)
  | .calling =>
    if s.numThreads_ = 0 ∧ s.threadInitCallback_ then
      some ({ s with callbacks := s.callbacks ++ [s.loop_] }, .listening)
    else
      some (s, .listening)
  | .listening => some (s.runListenInLoop thread, .returned)
  | .returned => none

def step (s : ServerStartup) : StartupEvent → Option ServerStartup
  | .start thread =>
    let s' := { s with started_ := Int.bmod (s.started_ + 1) (2 ^ 32) }
    if s.started_ = 0 then some { s' with passes := s.passes ++ [(thread, .creating 0)] }
    else some s'
  | .advance j =>
    s.passes[j]?.bind fun p => (s.stepPass p.1 p.2).map fun q =>
      { q.1 with passes := s.passes.set j (p.1, q.2) }
  | .worker k => s.handshake k .thread
  | .wake k => s.handshake k .wake
  | .quitItself k => s.handshake k .quitItself
  | .runListen =>
    if 0 < s.pendingListens ∧ ∀ p ∈ s.passes, p.1 = s.loop_ → p.2 = .returned then
      some { s with pendingListens := s.pendingListens - 1, listenning_ := true }
    else
      none

/-! ### What a step can do -/

theorem handshake_eq_some {s s' : ServerStartup} {k : Nat} {e : HandshakeEvent}
    (h : s.handshake k e = some s') :
    ∃ t t', s.threads_[k]? = some t ∧ t.step e = some t' ∧ s' = { s with
      threads_ := s.threads_.set k t'
      callbacks :=
        if s.threadInitCallback_ ∧ e = .thread ∧ t.thread = .initializing then
          s.callbacks ++ [s.loop_ + 1 + k]
        else s.callbacks } := by
  obtain ⟨t, ht, hmap⟩ := Option.bind_eq_some_iff.mp h
  obtain ⟨t', ht', rfl⟩ := Option.map_eq_some_iff.mp hmap
  exact ⟨t, t', ht, ht', rfl⟩

/-- The workers after a step: the same, one more, or one that has taken a step. -/
inductive ThreadsStepped (s : ServerStartup) (e : StartupEvent) : List EventLoopThread → Prop where
  | same : ThreadsStepped s e s.threads_
  | create : ThreadsStepped s e (s.threads_ ++ [.new])
  | step {k : Nat} {he : HandshakeEvent} {t t' : EventLoopThread} (ht : s.threads_[k]? = some t)
      (hstep : t.step he = some t') (halive : he ≠ .destroy)
      (hthread : he = .thread → e = .worker k) :
      ThreadsStepped s e (s.threads_.set k t')

theorem handshake_threadsStepped {s s' : ServerStartup} {e : StartupEvent} {k : Nat}
    {he : HandshakeEvent} (h : s.handshake k he = some s') (halive : he ≠ .destroy)
    (hthread : he = .thread → e = .worker k) : ThreadsStepped s e s'.threads_ := by
  obtain ⟨t, t', ht, hstep, rfl⟩ := handshake_eq_some h
  exact .step ht hstep halive hthread

theorem stepPass_threadsStepped {s : ServerStartup} {e : StartupEvent} {thread : Nat}
    {pc : StartPc} {q : ServerStartup × StartPc} (h : s.stepPass thread pc = some q) :
    ThreadsStepped s e q.1.threads_ := by
  cases pc with
  | creating i =>
    simp only [stepPass] at h
    split at h
    · cases h
      exact .create
    · cases h
      exact .same
  | starting i k =>
    simp only [stepPass] at h
    split at h
    · cases h
      exact .same
    · obtain ⟨s', hs', rfl⟩ := Option.map_eq_some_iff.mp h
      exact handshake_threadsStepped hs' (by decide) (fun heq => by cases heq)
  | calling =>
    simp only [stepPass] at h
    split at h <;> (cases h; exact .same)
  | listening =>
    cases h
    simp only [runListenInLoop]
    split <;> exact .same
  | returned => cases h

theorem threadsStepped_of_step {s s' : ServerStartup} {e : StartupEvent} (h : s.step e = some s') :
    ThreadsStepped s e s'.threads_ := by
  cases e with
  | start thread =>
    simp only [step] at h
    split at h <;> (cases h; exact .same)
  | advance j =>
    obtain ⟨p, _, hmap⟩ := Option.bind_eq_some_iff.mp h
    obtain ⟨q, hq, rfl⟩ := Option.map_eq_some_iff.mp hmap
    exact stepPass_threadsStepped hq
  | worker k => exact handshake_threadsStepped h (by decide) fun _ => rfl
  | wake k => exact handshake_threadsStepped h (by decide) (fun heq => by cases heq)
  | quitItself k => exact handshake_threadsStepped h (by decide) (fun heq => by cases heq)
  | runListen =>
    simp only [step] at h
    split at h
    · cases h
      exact .same
    · cases h

/-- What every worker keeps, all workers keep. -/
theorem ThreadsStepped.all {P : EventLoopThread → Prop} {s : ServerStartup} {e : StartupEvent}
    {threads : List EventLoopThread} (h : ThreadsStepped s e threads) (hnew : P .new)
    (hstep : ∀ k t he t', s.threads_[k]? = some t → P t → t.step he = some t' → he ≠ .destroy →
      (he = .thread → e = .worker k) → P t')
    (hall : ∀ t ∈ s.threads_, P t) : ∀ t ∈ threads, P t := by
  cases h with
  | same => exact hall
  | create =>
    intro t ht
    rcases List.mem_append.mp ht with hold | hlast
    · exact hall t hold
    · rw [List.mem_singleton.mp hlast]
      exact hnew
  | @step k he t t' ht hmove halive hthread =>
    intro u hu
    rcases List.mem_or_eq_of_mem_set hu with hold | rfl
    · exact hall u hold
    · exact hstep k t he u ht (hall t (List.mem_of_getElem? ht)) hmove halive hthread

/-- Every worker is before its destructor. -/
def Handshaking (s : ServerStartup) : Prop := ∀ t ∈ s.threads_, t.Handshaking

theorem Handshaking.step {s s' : ServerStartup} {e : StartupEvent} (h : s.Handshaking)
    (hstep : s.step e = some s') : s'.Handshaking := by
  refine (threadsStepped_of_step hstep).all EventLoopThread.new_handshaking ?_ h
  intro k t he t' _ ht hmove halive _
  exact ht.step halive hmove

/-! ### The phases of the only pass -/

/-- The workers. -/
def workers (s : ServerStartup) (n : Nat) : List Nat :=
  (List.range n).map fun k => s.loop_ + 1 + k

theorem workers_succ (s : ServerStartup) (n : Nat) :
    s.workers (n + 1) = s.workers n ++ [s.loop_ + 1 + n] := by
  rw [workers, List.range_succ, List.map_append]
  rfl

/-- The loops of `n` workers whose init callbacks have run. -/
def called (s : ServerStartup) (n : Nat) : List Nat :=
  if s.threadInitCallback_ then s.workers n else []

theorem called_succ (s : ServerStartup) (n : Nat) :
    s.called (n + 1) =
      if s.threadInitCallback_ then s.called n ++ [s.loop_ + 1 + n] else s.called n := by
  simp only [called, workers_succ]
  split <;> rfl

/-- The loops on which the init callback runs. -/
def allCalled (s : ServerStartup) : List Nat :=
  if s.numThreads_ = 0 ∧ s.threadInitCallback_ then [s.loop_] else s.called s.numThreads_.toNat

/-- So many workers have been made, and so many of them put into `loops_`. -/
structure At (s : ServerStartup) (created ready : Nat) (callbacks : List Nat) (pending : Nat)
    (listenning : Bool) : Prop where
  length_eq : s.threads_.length = created
  loops_eq : s.loops_ = s.workers ready
  started : ∀ k t, k < ready → s.threads_[k]? = some t → t.owner = .started
  callbacks_eq : s.callbacks = callbacks
  pending_eq : s.pendingListens = pending
  listenning_eq : s.listenning_ = listenning

def Phase (s : ServerStartup) : StartPc → Prop
  | .creating i => i ≤ s.numThreads_.toNat ∧ s.At i i (s.called i) 0 false
  | .starting i k => k = i ∧ i < s.numThreads_.toNat ∧ ∃ t, s.threads_[i]? = some t ∧
      s.At (i + 1) i (s.called (if EventLoopThread.initialized t.thread then i + 1 else i)) 0 false
  | .calling => s.At s.numThreads_.toNat s.numThreads_.toNat (s.called s.numThreads_.toNat) 0 false
  | .listening => s.At s.numThreads_.toNat s.numThreads_.toNat s.allCalled 0 false
  | .returned =>
    s.At s.numThreads_.toNat s.numThreads_.toNat s.allCalled 1 false ∨
      s.At s.numThreads_.toNat s.numThreads_.toNat s.allCalled 0 true

/-- The phase does not depend on the callers. -/
theorem Phase.callers {s : ServerStartup} {pc : StartPc} (h : s.Phase pc) (started : Int)
    (passes : List (Nat × StartPc)) :
    Phase { s with started_ := started, passes := passes } pc := by
  have hkept : ∀ {created ready pending : Nat} {callbacks : List Nat} {listenning : Bool},
      s.At created ready callbacks pending listenning →
      At { s with started_ := started, passes := passes } created ready callbacks pending
        listenning := by
    intro created ready pending callbacks listenning hat
    exact ⟨hat.length_eq, hat.loops_eq, hat.started, hat.callbacks_eq, hat.pending_eq,
      hat.listenning_eq⟩
  cases pc with
  | creating i => exact ⟨h.1, hkept h.2⟩
  | starting i k =>
    obtain ⟨hk, hi, t, ht, hat⟩ := h
    exact ⟨hk, hi, t, ht, hkept hat⟩
  | calling | listening => exact hkept h
  | returned => exact h.imp hkept hkept

/-- A worker that is in `loops_` takes a step. -/
theorem At.handshake_ready {s s' : ServerStartup} {created ready pending k : Nat}
    {callbacks : List Nat} {listenning : Bool} {e : HandshakeEvent}
    (h : s.At created ready callbacks pending listenning) (hall : s.Handshaking)
    (hk : k < ready) (he : e ≠ .destroy) (hstep : s.handshake k e = some s') :
    s'.At created ready callbacks pending listenning := by
  obtain ⟨t, t', ht, hmove, rfl⟩ := handshake_eq_some hstep
  have hstarted := h.started k t hk ht
  have hthread : t.thread ≠ .initializing := by
    intro hpc
    have hpublished := (hall t (List.mem_of_getElem? ht)).published hstarted
    rw [hpc] at hpublished
    rcases hpublished with hhas | hcleared
    · cases hhas
    · cases hcleared
  refine ⟨?_, h.loops_eq, ?_, ?_, h.pending_eq, h.listenning_eq⟩
  · rw [List.length_set]
    exact h.length_eq
  · intro m u hm hu
    by_cases hmk : m = k
    · subst hmk
      have hlength := (List.getElem?_eq_some_iff.mp ht).1
      rw [List.getElem?_set_self hlength] at hu
      cases hu
      exact EventLoopThread.started_of_step he hstarted hmove
    · rw [List.getElem?_set_ne (Ne.symm hmk)] at hu
      exact h.started m u hm hu
  · rw [if_neg (fun hrun => hthread hrun.2.2)]
    exact h.callbacks_eq

/-- The last worker, which `startLoop` waits for, takes a step. -/
theorem At.handshake_last {s s' : ServerStartup} {i : Nat} {e : HandshakeEvent}
    {t : EventLoopThread} (ht : s.threads_[i]? = some t)
    (h : s.At (i + 1) i
      (s.called (if EventLoopThread.initialized t.thread then i + 1 else i)) 0 false)
    (hall : s.Handshaking) (hstep : s.handshake i e = some s') :
    ∃ t', s'.threads_[i]? = some t' ∧ s'.At (i + 1) i
      (s'.called (if EventLoopThread.initialized t'.thread then i + 1 else i)) 0 false := by
  obtain ⟨u, t', hu, hmove, rfl⟩ := handshake_eq_some hstep
  cases ht.symm.trans hu
  have hlength := (List.getElem?_eq_some_iff.mp ht).1
  have hinit := (hall t (List.mem_of_getElem? ht)).initialized_of_step hmove
  refine ⟨t', List.getElem?_set_self hlength, ?_, h.loops_eq, ?_, ?_, h.pending_eq,
    h.listenning_eq⟩
  · rw [List.length_set]
    exact h.length_eq
  · intro m u hm hu
    rw [List.getElem?_set_ne (by omega)] at hu
    exact h.started m u hm hu
  · have hcallbacks := h.callbacks_eq
    by_cases hrun : e = .thread ∧ t.thread = .initializing
    · have hbefore : EventLoopThread.initialized t.thread = false := by
        rw [hrun.2]
        rfl
      rw [hbefore] at hcallbacks
      rw [hinit, decide_eq_true hrun, Bool.or_true, if_pos rfl]
      change _ = s.called (i + 1)
      rw [called_succ]
      simp only [hrun, and_true, hcallbacks, Bool.false_eq_true, if_false]
    · rw [hinit, decide_eq_false hrun, Bool.or_false]
      simp only [hrun, and_false, if_false]
      exact hcallbacks

/-- A step of a worker, taken by itself. -/
theorem Phase.handshake {s s' : ServerStartup} {k : Nat} {pc : StartPc} {e : HandshakeEvent}
    (h : s.Phase pc) (hall : s.Handshaking) (he : e ≠ .destroy)
    (hstep : s.handshake k e = some s') : s'.Phase pc := by
  obtain ⟨t, t', ht, hmove, hs'⟩ := handshake_eq_some hstep
  have hlength := (List.getElem?_eq_some_iff.mp ht).1
  have hready : ∀ {callbacks : List Nat} {n pending : Nat} {listenning : Bool},
      s.At n n callbacks pending listenning → s'.At n n callbacks pending listenning := by
    intro callbacks n pending listenning hat
    exact hat.handshake_ready hall (by rw [← hat.length_eq]; exact hlength) he hstep
  cases pc with
  | creating i =>
    have hat := hready h.2
    subst hs'
    exact ⟨h.1, hat⟩
  | starting i m =>
    obtain ⟨hm, hi, u, hu, hat⟩ := h
    by_cases hki : k = i
    · subst hki
      have hlast := At.handshake_last hu hat hall hstep
      subst hs'
      exact ⟨hm, hi, hlast⟩
    · have hlt : k < i := by
        have hcount := hat.length_eq
        omega
      have hkept := hat.handshake_ready hall hlt he hstep
      subst hs'
      exact ⟨hm, hi, u, (List.getElem?_set_ne hki).trans hu, hkept⟩
  | calling | listening =>
    have hat := hready h
    subst hs'
    exact hat
  | returned =>
    have hat := h.imp hready hready
    subst hs'
    exact hat

/-- A step of the caller. -/
theorem Phase.stepPass {s : ServerStartup} {thread : Nat} {pc : StartPc}
    {q : ServerStartup × StartPc} (h : s.Phase pc) (hall : s.Handshaking)
    (hstep : s.stepPass thread pc = some q) : q.1.Phase q.2 := by
  cases pc with
  | creating i =>
    obtain ⟨hi, hat⟩ := h
    simp only [ServerStartup.stepPass] at hstep
    split at hstep
    · cases hstep
      have hlast : (s.threads_ ++ [EventLoopThread.new])[i]? = some .new := by
        rw [← hat.length_eq, List.getElem?_concat_length]
      have hcreated : i < s.numThreads_.toNat := by omega
      refine ⟨hat.length_eq, hcreated, .new, hlast, ?_⟩
      refine ⟨?_, hat.loops_eq, ?_, hat.callbacks_eq, hat.pending_eq, hat.listenning_eq⟩
      · rw [List.length_append, hat.length_eq]
        rfl
      · intro k t hk ht
        rw [List.getElem?_append_left (by rw [hat.length_eq]; exact hk)] at ht
        exact hat.started k t hk ht
    · cases hstep
      have hlast : i = s.numThreads_.toNat := by omega
      subst hlast
      exact hat
  | starting i k =>
    obtain ⟨rfl, hi, t, ht, hat⟩ := h
    simp only [ServerStartup.stepPass] at hstep
    split at hstep
    · rename_i hstarted
      cases hstep
      rw [ht, Option.any_some, decide_eq_true_eq] at hstarted
      have hpublished := (hall t (List.mem_of_getElem? ht)).published hstarted
      have hinit : EventLoopThread.initialized t.thread = true := by
        cases hpc : t.thread <;> simp [hpc, EventLoopThread.hasLoop, EventLoopThread.cleared,
          EventLoopThread.initialized] at hpublished ⊢
      have hcallbacks := hat.callbacks_eq
      rw [if_pos hinit] at hcallbacks
      refine ⟨hi, hat.length_eq, ?_, ?_, hcallbacks, hat.pending_eq, hat.listenning_eq⟩
      · change s.loops_ ++ _ = s.workers (k + 1)
        rw [workers_succ, hat.loops_eq]
      · intro m u hm hu
        rcases Nat.lt_succ_iff_lt_or_eq.mp hm with hlt | rfl
        · exact hat.started m u hlt hu
        · cases ht.symm.trans hu
          exact hstarted
    · obtain ⟨s', hs', rfl⟩ := Option.map_eq_some_iff.mp hstep
      have hphase : s.Phase (.starting k k) := ⟨rfl, hi, t, ht, hat⟩
      exact hphase.handshake hall (by decide) hs'
  | calling =>
    simp only [ServerStartup.stepPass] at hstep
    split at hstep
    · rename_i hcall
      cases hstep
      refine ⟨h.length_eq, h.loops_eq, h.started, ?_, h.pending_eq, h.listenning_eq⟩
      change s.callbacks ++ _ = s.allCalled
      rw [allCalled, if_pos hcall, h.callbacks_eq, hcall.1]
      simp [called, workers]
    · rename_i hcall
      cases hstep
      refine ⟨h.length_eq, h.loops_eq, h.started, ?_, h.pending_eq, h.listenning_eq⟩
      rw [allCalled, if_neg hcall]
      exact h.callbacks_eq
  | listening =>
    cases hstep
    simp only [runListenInLoop]
    split
    · exact Or.inr ⟨h.length_eq, h.loops_eq, h.started, h.callbacks_eq, h.pending_eq, rfl⟩
    · refine Or.inl ⟨h.length_eq, h.loops_eq, h.started, h.callbacks_eq, ?_, h.listenning_eq⟩
      change s.pendingListens + 1 = 1
      rw [h.pending_eq]
  | returned => cases hstep

/-! ### Every run -/

def isCall : StartupEvent → Bool
  | .start _ => true
  | _ => false

/-- How often `start` has been called. -/
def calls (es : List StartupEvent) : Nat := es.countP isCall

theorem calls_call {es : List StartupEvent} {e : StartupEvent} (he : isCall e = true) :
    calls (es ++ [e]) = calls es + 1 := by
  simp [calls, List.countP_append, he]

theorem calls_other {es : List StartupEvent} {e : StartupEvent} (he : isCall e = false) :
    calls (es ++ [e]) = calls es := by
  simp [calls, List.countP_append, he]

/-- While `started_` has not come round to zero again, there is one pass. -/
structure Once (loop : Nat) (numThreads : Int) (threadInitCallback : Bool)
    (es : List StartupEvent) (s : ServerStartup) : Prop where
  loop_eq : s.loop_ = loop
  numThreads_eq : s.numThreads_ = numThreads
  started_eq : s.started_ = Int.bmod (calls es) (2 ^ 32)
  shaking : s.Handshaking
  fresh : calls es = 0 → s = new loop numThreads threadInitCallback
  pass : 0 < calls es → calls es ≤ 2 ^ 32 → ∃ thread pc, s.passes = [(thread, pc)] ∧ s.Phase pc

theorem new_once (loop : Nat) (numThreads : Int) (threadInitCallback : Bool) :
    Once loop numThreads threadInitCallback [] (new loop numThreads threadInitCallback) :=
  ⟨rfl, rfl, rfl, fun _ ht => (by cases ht), fun _ => rfl, fun hpos => (by cases hpos)⟩

/-- What the steps other than a call leave alone. -/
structure Same (s t : ServerStartup) : Prop where
  loop_eq : t.loop_ = s.loop_
  numThreads_eq : t.numThreads_ = s.numThreads_
  started_eq : t.started_ = s.started_

theorem handshake_same {s s' : ServerStartup} {k : Nat} {e : HandshakeEvent}
    (h : s.handshake k e = some s') : Same s s' ∧ s'.passes = s.passes := by
  obtain ⟨_, _, _, _, rfl⟩ := handshake_eq_some h
  exact ⟨⟨rfl, rfl, rfl⟩, rfl⟩

theorem stepPass_same {s : ServerStartup} {thread : Nat} {pc : StartPc}
    {q : ServerStartup × StartPc} (h : s.stepPass thread pc = some q) :
    Same s q.1 ∧ q.1.passes = s.passes := by
  cases pc with
  | creating i =>
    simp only [stepPass] at h
    split at h <;> (cases h; exact ⟨⟨rfl, rfl, rfl⟩, rfl⟩)
  | starting i k =>
    simp only [stepPass] at h
    split at h
    · cases h
      exact ⟨⟨rfl, rfl, rfl⟩, rfl⟩
    · obtain ⟨s', hs', rfl⟩ := Option.map_eq_some_iff.mp h
      exact handshake_same hs'
  | calling =>
    simp only [stepPass] at h
    split at h <;> (cases h; exact ⟨⟨rfl, rfl, rfl⟩, rfl⟩)
  | listening =>
    cases h
    simp only [runListenInLoop]
    split <;> exact ⟨⟨rfl, rfl, rfl⟩, rfl⟩
  | returned => cases h

theorem step_same {s s' : ServerStartup} {e : StartupEvent} (h : s.step e = some s')
    (he : isCall e = false) : Same s s' := by
  cases e with
  | start thread => cases he
  | advance j =>
    obtain ⟨p, _, hmap⟩ := Option.bind_eq_some_iff.mp h
    obtain ⟨q, hq, rfl⟩ := Option.map_eq_some_iff.mp hmap
    have hsame := (stepPass_same hq).1
    exact ⟨hsame.loop_eq, hsame.numThreads_eq, hsame.started_eq⟩
  | worker k | wake k | quitItself k => exact (handshake_same h).1
  | runListen =>
    simp only [step] at h
    split at h
    · cases h
      exact ⟨rfl, rfl, rfl⟩
    · cases h

/-- Before the first call nothing happens. -/
theorem step_new {loop : Nat} {numThreads : Int} {threadInitCallback : Bool} {e : StartupEvent}
    (he : isCall e = false) : (new loop numThreads threadInitCallback).step e = none := by
  cases e with
  | start thread => cases he
  | _ => rfl

theorem Phase.step {s s' : ServerStartup} {e : StartupEvent} {thread : Nat} {pc : StartPc}
    (hpass : s.passes = [(thread, pc)]) (h : s.Phase pc) (hall : s.Handshaking)
    (hstep : s.step e = some s') (he : isCall e = false) :
    ∃ pc', s'.passes = [(thread, pc')] ∧ s'.Phase pc' := by
  cases e with
  | start thread => cases he
  | advance j =>
    obtain ⟨p, hp, hmap⟩ := Option.bind_eq_some_iff.mp hstep
    obtain ⟨q, hq, rfl⟩ := Option.map_eq_some_iff.mp hmap
    rw [hpass] at hp
    obtain ⟨rfl, rfl⟩ : j = 0 ∧ (thread, pc) = p := by simpa [List.getElem?_singleton] using hp
    refine ⟨q.2, ?_, ?_⟩
    · simp only [hpass, List.set_cons_zero]
    · exact (h.stepPass hall hq).callers q.1.started_ _
  | worker k | wake k | quitItself k =>
    refine ⟨pc, ?_, h.handshake hall (by decide) hstep⟩
    rw [(handshake_same hstep).2, hpass]
  | runListen =>
    simp only [ServerStartup.step] at hstep
    split at hstep
    · rename_i hpending
      cases hstep
      cases pc with
      | returned =>
        refine ⟨.returned, hpass, ?_⟩
        rcases h with hat | hat
        · refine Or.inr ⟨hat.length_eq, hat.loops_eq, hat.started, hat.callbacks_eq, ?_, rfl⟩
          change s.pendingListens - 1 = 0
          rw [hat.pending_eq]
        · rw [hat.pending_eq] at hpending
          exact absurd hpending.1 (Nat.lt_irrefl 0)
      | creating i =>
        rw [h.2.pending_eq] at hpending
        exact absurd hpending.1 (Nat.lt_irrefl 0)
      | starting i k =>
        obtain ⟨_, _, _, _, hat⟩ := h
        rw [hat.pending_eq] at hpending
        exact absurd hpending.1 (Nat.lt_irrefl 0)
      | calling | listening =>
        rw [At.pending_eq h] at hpending
        exact absurd hpending.1 (Nat.lt_irrefl 0)
    · cases hstep

/-- Before `started_` comes round again only the first call finds it zero. -/
theorem Once.first_iff {loop : Nat} {numThreads : Int} {threadInitCallback : Bool}
    {es : List StartupEvent} {s : ServerStartup}
    (h : Once loop numThreads threadInitCallback es s) (hcalls : calls es < 2 ^ 32) :
    s.started_ = 0 ↔ calls es = 0 := by
  rw [h.started_eq, ← Int.dvd_iff_bmod_eq_zero]
  omega

theorem Once.step {loop : Nat} {numThreads : Int} {threadInitCallback : Bool}
    {es : List StartupEvent} {e : StartupEvent} {s s' : ServerStartup}
    (h : Once loop numThreads threadInitCallback es s) (hstep : s.step e = some s') :
    Once loop numThreads threadInitCallback (es ++ [e]) s' := by
  have hshaking := h.shaking.step hstep
  cases hcall : isCall e with
  | false =>
    have hcount : calls (es ++ [e]) = calls es := calls_other hcall
    have hsame := step_same hstep hcall
    refine ⟨hsame.loop_eq.trans h.loop_eq, hsame.numThreads_eq.trans h.numThreads_eq,
      hcount ▸ hsame.started_eq.trans h.started_eq, hshaking, ?_, ?_⟩
    · rw [hcount]
      intro hzero
      rw [h.fresh hzero, step_new hcall] at hstep
      cases hstep
    · rw [hcount]
      intro hpos hle
      obtain ⟨thread, pc, hpass, hphase⟩ := h.pass hpos hle
      obtain ⟨pc', hpass', hphase'⟩ := Phase.step hpass hphase h.shaking hstep hcall
      exact ⟨thread, pc', hpass', hphase'⟩
  | true =>
    have hcount : calls (es ++ [e]) = calls es + 1 := calls_call hcall
    cases e with
    | start thread =>
      have hround : Int.bmod (s.started_ + 1) (2 ^ 32) =
          Int.bmod (calls (es ++ [.start thread])) (2 ^ 32) := by
        rw [h.started_eq, Int.bmod_add_bmod, hcount]
        rfl
      simp only [ServerStartup.step] at hstep
      split at hstep
      · rename_i hstarted
        cases hstep
        refine ⟨h.loop_eq, h.numThreads_eq, hround, hshaking, by omega, ?_⟩
        intro _ hle
        rw [h.fresh ((h.first_iff (by omega)).mp hstarted)]
        refine ⟨thread, .creating 0, rfl, Nat.zero_le _, rfl, rfl, ?_, ?_, rfl, rfl⟩
        · intro k t hk
          omega
        · simp [called, workers, new]
      · rename_i hstarted
        cases hstep
        refine ⟨h.loop_eq, h.numThreads_eq, hround, hshaking, by omega, ?_⟩
        intro _ hle
        have hpos : 0 < calls es :=
          Nat.pos_of_ne_zero fun hzero => hstarted ((h.first_iff (by omega)).mpr hzero)
        obtain ⟨u, pc, hpass, hphase⟩ := h.pass hpos (by omega)
        exact ⟨u, pc, hpass, hphase.callers _ s.passes⟩
    | _ => cases hcall

theorem run_once {loop : Nat} {numThreads : Int} {threadInitCallback : Bool}
    {es : List StartupEvent} {s : ServerStartup}
    (hrun : Run step (new loop numThreads threadInitCallback) es s) :
    Once loop numThreads threadInitCallback es s :=
  hrun.history (new_once loop numThreads threadInitCallback) fun _ _ _ _ _ h hstep => h.step hstep

/-! ### How long it takes -/

/-- A step of a caller, of a worker or of `loop_`. -/
def cost : StartupEvent → Nat
  | .advance _ | .worker _ | .runListen => 1
  | _ => 0

def income : StartupEvent → Nat
  | .wake _ => 2
  | _ => 0

/-- What a pass has left to do, the workers it is to make included. -/
def passLeft (n : Nat) : StartPc → Nat
  | .creating i => 19 * (n - i) + 4
  | .starting i _ => 19 * (n - (i + 1)) + 5
  | .calling => 3
  | .listening => 2
  | .returned => 0

/-- A bound of the steps that are left without another call. -/
def left (s : ServerStartup) : Nat :=
  (s.threads_.map EventLoopThread.left).sum +
    (s.passes.map fun p => passLeft s.numThreads_.toNat p.2).sum + s.pendingListens

theorem sum_map_set {α : Type} {f : α → Nat} {l : List α} {k : Nat} {a b : α}
    (h : l[k]? = some a) : ((l.set k b).map f).sum + f a = (l.map f).sum + f b := by
  induction l generalizing k with
  | nil => cases h
  | cons c l ih =>
    cases k with
    | zero =>
      cases h
      simp only [List.set_cons_zero, List.map_cons, List.sum_cons]
      omega
    | succ k =>
      have htail := ih (k := k) h
      simp only [List.set_cons_succ, List.map_cons, List.sum_cons]
      omega

theorem handshake_left {s s' : ServerStartup} {k : Nat} {e : HandshakeEvent}
    (hall : s.Handshaking) (he : e ≠ .destroy) (h : s.handshake k e = some s') :
    s'.left + EventLoopThread.cost e ≤ s.left + EventLoopThread.income e := by
  obtain ⟨t, t', ht, hmove, rfl⟩ := handshake_eq_some h
  have hsum := sum_map_set (f := EventLoopThread.left) (b := t') ht
  have hpaid := (hall t (List.mem_of_getElem? ht)).left_step he hmove
  simp only [left]
  omega

theorem stepPass_left {s : ServerStartup} {thread : Nat} {pc : StartPc}
    {q : ServerStartup × StartPc} (hall : s.Handshaking) (h : s.stepPass thread pc = some q) :
    q.1.left + passLeft s.numThreads_.toNat q.2 + 1 ≤
      s.left + passLeft s.numThreads_.toNat pc := by
  cases pc with
  | creating i =>
    simp only [stepPass] at h
    split at h
    · cases h
      simp only [left, passLeft, List.map_append, List.sum_append, List.map_singleton,
        List.sum_singleton, EventLoopThread.left_new]
      omega
    · cases h
      simp only [passLeft]
      omega
  | starting i k =>
    simp only [stepPass] at h
    split at h
    · cases h
      simp only [left, passLeft]
      omega
    · obtain ⟨s', hs', rfl⟩ := Option.map_eq_some_iff.mp h
      have hpaid := handshake_left hall (by decide) hs'
      simp only [passLeft]
      simp only [EventLoopThread.cost, EventLoopThread.income] at hpaid
      omega
  | calling =>
    simp only [stepPass] at h
    split at h <;> (cases h; simp only [left, passLeft]; omega)
  | listening =>
    cases h
    simp only [runListenInLoop]
    split <;> (simp only [left, passLeft]; omega)
  | returned => cases h

theorem step_left {s s' : ServerStartup} {e : StartupEvent} (hall : s.Handshaking)
    (hstep : s.step e = some s') (he : isCall e = false) :
    s'.left + cost e ≤ s.left + income e := by
  cases e with
  | start thread => cases he
  | advance j =>
    obtain ⟨p, hp, hmap⟩ := Option.bind_eq_some_iff.mp hstep
    obtain ⟨q, hq, rfl⟩ := Option.map_eq_some_iff.mp hmap
    have hpaid := stepPass_left hall hq
    obtain ⟨hsame, hpasses⟩ := stepPass_same hq
    have hsum := sum_map_set (f := fun p => passLeft s.numThreads_.toNat p.2) (b := (p.1, q.2)) hp
    simp only [left, hsame.numThreads_eq, hpasses, cost, income] at hpaid hsum ⊢
    omega
  | worker k => exact handshake_left hall (by decide) hstep
  | wake k => exact handshake_left hall (by decide) hstep
  | quitItself k => exact handshake_left hall (by decide) hstep
  | runListen =>
    simp only [step] at hstep
    split at hstep
    · rename_i hpending
      cases hstep
      simp only [left, cost, income]
      omega
    · cases hstep

/-- The steps of a run are paid for by the pass and by the waits that returned by themselves. -/
def Paid (numThreads : Int) (es : List StartupEvent) (s : ServerStartup) : Prop :=
  calls es ≤ 2 ^ 32 → s.left + (es.map cost).sum ≤
    (if calls es = 0 then 0 else 19 * numThreads.toNat + 4) + (es.map income).sum

theorem Paid.step {loop : Nat} {numThreads : Int} {threadInitCallback : Bool}
    {es : List StartupEvent} {e : StartupEvent} {s s' : ServerStartup}
    (honce : Once loop numThreads threadInitCallback es s) (h : Paid numThreads es s)
    (hstep : s.step e = some s') : Paid numThreads (es ++ [e]) s' := by
  intro hle
  rw [List.map_append, List.sum_append, List.map_append, List.sum_append, List.map_singleton,
    List.sum_singleton, List.map_singleton, List.sum_singleton]
  cases hcall : isCall e with
  | false =>
    have hcount : calls (es ++ [e]) = calls es := calls_other hcall
    rw [hcount] at hle ⊢
    have hbefore := h hle
    have hpaid := step_left honce.shaking hstep hcall
    omega
  | true =>
    have hcount : calls (es ++ [e]) = calls es + 1 := calls_call hcall
    rw [hcount] at hle ⊢
    rw [if_neg (Nat.succ_ne_zero _)]
    have hbefore := h (by omega)
    cases e with
    | start thread =>
      simp only [ServerStartup.step] at hstep
      split at hstep
      · rename_i hstarted
        cases hstep
        have hzero := (honce.first_iff (by omega)).mp hstarted
        rw [if_pos hzero] at hbefore
        simp only [left, cost, income, honce.fresh hzero, new, passLeft, List.map_nil,
          List.sum_nil, List.nil_append, List.map_singleton, List.sum_singleton] at hbefore ⊢
        omega
      · rename_i hstarted
        cases hstep
        rw [if_neg fun hzero => hstarted ((honce.first_iff (by omega)).mpr hzero)] at hbefore
        simp only [left, cost, income] at hbefore ⊢
        omega
    | _ => cases hcall

theorem run_paid {loop : Nat} {numThreads : Int} {threadInitCallback : Bool}
    {es : List StartupEvent} {s : ServerStartup}
    (hrun : Run step (new loop numThreads threadInitCallback) es s) : Paid numThreads es s := by
  have hboth := hrun.history
    (I := fun es s => Once loop numThreads threadInitCallback es s ∧ Paid numThreads es s)
    ⟨new_once loop numThreads threadInitCallback, fun _ => Nat.le_refl 0⟩
    (fun _ _ _ _ _ h hstep => ⟨h.1.step hstep, Paid.step h.1 h.2 hstep⟩)
  exact hboth.2

/-! ### Where it ends -/

/-- A loop has not ended before its `startLoop` has returned. -/
def LoopsLast (s : ServerStartup) : StartupEvent → Prop
  | .worker k => ∀ t, s.threads_[k]? = some t → t.Timely .thread
  | _ => True

/-- Nothing is left to do but to call `start`, to wake a waiting thread or to quit a loop. -/
def Quiet (s : ServerStartup) : Prop := ∀ e, cost e = 1 → s.step e = none

theorem timely_of_loopsLast {loop : Nat} {numThreads : Int} {threadInitCallback : Bool}
    {es : List StartupEvent} {s : ServerStartup}
    (hrun : Run step (new loop numThreads threadInitCallback) es s)
    (halong : Along step LoopsLast (new loop numThreads threadInitCallback) es) :
    ∀ t ∈ s.threads_, t.TimelyInv := by
  have halways := always_of_along
    (I := fun s => s.Handshaking ∧ ∀ t ∈ s.threads_, t.TimelyInv) ?_ ?_ halong
  · exact (halways es [] s (List.append_nil es).symm hrun).2
  · rintro u e v ⟨hshaking, htimely⟩ hlast hstep
    refine ⟨hshaking.step hstep, (threadsStepped_of_step hstep).all
      EventLoopThread.new_timelyInv ?_ htimely⟩
    intro k t he t' ht hold hmove _ hthread
    apply hold.step _ hmove
    cases he with
    | thread =>
      cases hthread rfl
      exact hlast t ht
    | owner =>
      intro hdestroying
      have halive := (hshaking t (List.mem_of_getElem? ht)).alive
      rw [hdestroying] at halive
      cases halive
    | destroy | wake | quitItself => trivial
  · exact ⟨fun _ ht => (by cases ht), fun _ ht => (by cases ht)⟩

theorem handshake_some {s : ServerStartup} {k : Nat} {e : HandshakeEvent}
    {t t' : EventLoopThread} (ht : s.threads_[k]? = some t) (hmove : t.step e = some t') :
    s.handshake k e ≠ none := by
  simp [ServerStartup.handshake, ht, hmove]

/-- In a quiet state the only pass has returned. -/
theorem Quiet.returned {s : ServerStartup} {thread : Nat} {pc : StartPc} (h : s.Quiet)
    (hpass : s.passes = [(thread, pc)]) (hphase : s.Phase pc) (hall : s.Handshaking)
    (htimely : ∀ t ∈ s.threads_, t.TimelyInv) : pc = .returned := by
  have hadvance := h (.advance 0) rfl
  simp only [ServerStartup.step, hpass, List.getElem?_cons_zero, Option.bind_some,
    Option.map_eq_none_iff] at hadvance
  cases pc with
  | creating i | calling =>
    simp only [ServerStartup.stepPass] at hadvance
    split at hadvance <;> cases hadvance
  | listening => cases hadvance
  | returned => rfl
  | starting i k =>
    obtain ⟨rfl, _, t, ht, _⟩ := hphase
    have hmem := List.mem_of_getElem? ht
    by_cases hstarted : t.owner = .started
    · simp [ServerStartup.stepPass, ht, hstarted] at hadvance
    · have hrunning : EventLoopThread.cleared t.thread = false := by
        by_contra hcleared
        have hpast := (htimely t hmem).late (Bool.eq_true_of_not_eq_false hcleared)
        have halive := (hall t hmem).alive
        cases howner : t.owner <;>
          simp [howner, EventLoopThread.pastWait, EventLoopThread.undestroyed] at hpast halive
        exact hstarted howner
      rcases (hall t hmem).progress hrunning hstarted with ⟨t', hmove⟩ | ⟨t', hmove⟩
      · have hsome : s.handshake k .owner ≠ none := handshake_some ht hmove
        simp only [ServerStartup.stepPass, ht, Option.any_some, hstarted, decide_false,
          Bool.false_eq_true, if_false, Option.map_eq_none_iff] at hadvance
        exact absurd hadvance hsome
      · have hsome : s.handshake k .thread ≠ none := handshake_some ht hmove
        exact absurd (h (.worker k) rfl) hsome

/-- A worker of a quiet state is in its loop or has ended. -/
theorem Quiet.looping {s : ServerStartup} (h : s.Quiet) (hall : s.Handshaking)
    {t : EventLoopThread} (ht : t ∈ s.threads_) (hstarted : t.owner = .started) :
    t.thread = .looping ∨ t.thread = .finished := by
  obtain ⟨k, hk⟩ := List.getElem?_of_mem ht
  have hblocked : t.stepThread = none := by
    cases hmove : t.stepThread with
    | none => rfl
    | some t' =>
      have hsome : s.handshake k .thread ≠ none := handshake_some hk hmove
      exact absurd (h (.worker k) rfl) hsome
  have hshaking := hall t ht
  have hpublished := hshaking.published hstarted
  have hfree := hshaking.free (by rw [hstarted]; decide)
  unfold EventLoopThread.stepThread at hblocked
  cases hpc : t.thread <;> simp only [hpc] at hblocked hpublished hfree
  case looping => exact Or.inl rfl
  case finished => exact Or.inr rfl
  case relocking => simp [hfree rfl] at hblocked
  case unstarted | posting | initializing | locking | publishing =>
    simp [EventLoopThread.hasLoop, EventLoopThread.cleared] at hpublished
  all_goals cases hblocked

/-- What the server relies on when the acceptor listens. -/
structure Ready (s : ServerStartup) : Prop where
  loops_eq : s.loops_ = (EventLoopThreadPool.start s.loop_ s.numThreads_).loops_
  length_eq : s.threads_.length = s.numThreads_.toNat
  published : ∀ t ∈ s.threads_, t.owner = .started ∧
    (EventLoopThread.hasLoop t.thread = true ∨ EventLoopThread.cleared t.thread = true)
  callbacks_eq : s.callbacks = s.allCalled

theorem At.ready {s : ServerStartup} {pending : Nat} {listenning : Bool} (hall : s.Handshaking)
    (h : s.At s.numThreads_.toNat s.numThreads_.toNat s.allCalled pending listenning) :
    s.Ready := by
  refine ⟨h.loops_eq, h.length_eq, ?_, h.callbacks_eq⟩
  intro t ht
  obtain ⟨k, hk⟩ := List.getElem?_of_mem ht
  have hlength := (List.getElem?_eq_some_iff.mp hk).1
  have hstarted := h.started k t (by rw [← h.length_eq]; exact hlength) hk
  exact ⟨hstarted, (hall t ht).published hstarted⟩

theorem Phase.ready {s : ServerStartup} {pc : StartPc} (h : s.Phase pc) (hall : s.Handshaking)
    (hlistenning : s.listenning_ = true) : s.Ready := by
  have hnot : ∀ {created ready pending : Nat} {callbacks : List Nat},
      ¬ s.At created ready callbacks pending false := by
    intro created ready pending callbacks hat
    cases hlistenning.symm.trans hat.listenning_eq
  cases pc with
  | creating i => exact absurd h.2 hnot
  | starting i k =>
    obtain ⟨_, _, _, _, hat⟩ := h
    exact absurd hat hnot
  | calling | listening => exact absurd h hnot
  | returned => exact At.ready hall (h.resolve_left hnot)

end ServerStartup

open ServerStartup in
/-- **The server listens when its workers are there.**  However the calls of `start`, the
    workers, their spurious wake-ups and the quits of their loops interleave:

    * the acceptor listens only when every worker has published its loop and is in `loops_` in
      its turn, and when the init callback has run once on every loop it is meant for, and on
      no other;
    * all that takes at most 19 steps for each worker and 4 more, and 2 for each spurious
      wake-up; and
    * if no loop ends before its `startLoop` has returned, the acceptor does listen when
      nothing is left to do, and the workers are in their loops or have ended. -/
theorem server_starts {loop : Nat} {numThreads : Int} {threadInitCallback : Bool}
    {es : List StartupEvent} {s : ServerStartup}
    (hrun : Run step (new loop numThreads threadInitCallback) es s) (hcalls : calls es ≤ 2 ^ 32) :
    (s.listenning_ = true → s.Ready) ∧
    (es.map cost).sum ≤ 19 * numThreads.toNat + 4 + (es.map income).sum ∧
    (0 < calls es → Along step LoopsLast (new loop numThreads threadInitCallback) es →
      s.Quiet → s.listenning_ = true ∧
        ∀ t ∈ s.threads_, t.thread = .looping ∨ t.thread = .finished) := by
  have honce := run_once hrun
  refine ⟨fun hlistenning => ?_, ?_, fun hpos halong hquiet => ?_⟩
  · rcases Nat.eq_zero_or_pos (calls es) with hzero | hpos
    · rw [honce.fresh hzero] at hlistenning
      cases hlistenning
    · obtain ⟨_, _, _, hphase⟩ := honce.pass hpos hcalls
      exact hphase.ready honce.shaking hlistenning
  · have hpaid := run_paid hrun hcalls
    split at hpaid <;> omega
  · obtain ⟨thread, pc, hpass, hphase⟩ := honce.pass hpos hcalls
    have htimely := timely_of_loopsLast hrun halong
    have hreturned := hquiet.returned hpass hphase honce.shaking htimely
    subst hreturned
    have hlistenning : s.listenning_ = true := by
      rcases hphase with hpending | hdone
      · have hrest := hquiet .runListen rfl
        simp [ServerStartup.step, hpending.pending_eq, hpass] at hrest
      · exact hdone.listenning_eq
    refine ⟨hlistenning, fun t ht => ?_⟩
    have hready := Phase.ready hphase honce.shaking hlistenning
    exact hquiet.looping honce.shaking ht (hready.published t ht).1

open ServerStartup in
/-- One worker; a second call comes while the first one waits for it. -/
theorem server_starts_one_worker :
    ∃ s, Run step (new 0 1 true)
        ([.start 9, .advance 0, .advance 0, .start 0] ++ List.replicate 7 (.worker 0) ++
          List.replicate 7 (.advance 0) ++ [.runListen]) s ∧
      s.Ready ∧ s.callbacks = [1] := by
  obtain ⟨s, hrun, hends⟩ := exists_run step (new 0 1 true)
    ([.start 9, .advance 0, .advance 0, .start 0] ++ List.replicate 7 (.worker 0) ++
      List.replicate 7 (.advance 0) ++ [.runListen])
    (fun s => (s.listenning_, s.callbacks)) (true, [1]) rfl
  obtain ⟨hlistenning, hcallbacks⟩ := Prod.mk.inj hends
  exact ⟨s, hrun, (server_starts hrun (by decide)).1 hlistenning, hcallbacks⟩

end Muduo
