import Muduo.LoopConfinement

/-!
# Who keeps a connection alive

`ServerSystem` with the `shared_ptr`s to its connections: the entries of `connections_`,
the functors that bind one, the guard of a running `Channel::handleEvent`, and the handles
in user code.  `doPendingFunctors` swaps the queue into a local vector, so a functor that
has run keeps what it binds until the whole batch is done.

The functors of `send` and `shutdown` bind the raw `this`.  A connection with such a
functor in a queue can lose its last owner before the functor runs; every other functor
keeps its connection itself.
-/

namespace Muduo

open Transitions

/-- The connection a functor is about. -/
def LoopFunctor.target : LoopFunctor → ChannelPtr
  | .conn id _ => id
  | .removeConnectionInLoop id => id

/-- The functor binds the connection's raw `this`. -/
def LoopFunctor.bindsThis : LoopFunctor → Bool
  | .conn _ f => f.bindsThis
  | .removeConnectionInLoop _ => false

/-- The functor binds a `shared_ptr` to the connection. -/
def LoopFunctor.owns (f : LoopFunctor) (id : ChannelPtr) : Bool :=
  f.target == id && !f.bindsThis

/-- The local vector of `doPendingFunctors`: what has run, how many functors at the head of
    `pendingFunctor_` are still to run, and whether the first of them is running. -/
structure FunctorBatch where
  done : List LoopFunctor
  todo : Nat
  running : Bool
deriving DecidableEq

structure OwnedSystem where
  sys : ServerSystem
  /-- `shared_ptr`s in user code. -/
  handles : ChannelPtr → Nat
  /-- The guard of the `handleEvent` a loop is in. -/
  guards : Nat → Option ChannelPtr
  batch : Nat → Option FunctorBatch

/-- Where a `shared_ptr` to a connection is. -/
inductive Owner where
  | entry (name : String)
  | pending (loop : Nat) (f : LoopFunctor)
  | done (loop : Nat) (f : LoopFunctor)
  | guard (loop : Nat)
  | handle
deriving DecidableEq

/-- An `Owner` in an event is one through which the connection is reached. -/
inductive OwnershipEvent where
  | accept (sockfd : Nat) (id : ChannelPtr)
  | poll (loop : Nat) (ready : List (Nat × EventMask))
  /-- `handleEvent` of the next active channel up to the end of its callbacks; no owner is a
      `tie_.lock()` that fails. -/
  | handleEvent (loop : Nat) (owner : Option Owner) (r : ReadResult) (w : WriteResult)
  /-- The guard goes out of scope. -/
  | endEvent (loop : Nat)
  /-- `functors.swap(pendingFunctor_)`. -/
  | swap (loop : Nat)
  | callFunctor (loop : Nat)
  | functorReturned (loop : Nat) (w : WriteResult)
  /-- `functors` goes out of scope. -/
  | endFunctors (loop : Nat)
  /-- The owner through which a call was made is there until the call is over. -/
  | load (thread : Nat) (id : ChannelPtr) (owner : Owner) (call : UserCall)
  | proceed (thread : Nat) (owner : Owner) (w : WriteResult)
  /-- User code copies a `TcpConnectionPtr`, or destroys one. -/
  | acquire (id : ChannelPtr) (owner : Owner)
  | release (id : ChannelPtr)
  | destroy (thread : Nat) (order : List (String × ChannelPtr))
deriving DecidableEq

namespace OwnedSystem

def start (loop : Nat) (name ipPort : String) (writeComplete : Bool) (numThreads : Int) :
    OwnedSystem where
  sys := ServerSystem.start loop name ipPort writeComplete numThreads
  handles := fun _ => 0
  guards := fun _ => none
  batch := fun _ => none

/-- The connection has this owner. -/
def holds (s : OwnedSystem) (id : ChannelPtr) : Owner → Bool
  | .entry name => s.sys.serverAlive && decide ((name, id) ∈ s.sys.server.connections_)
  | .pending loop f => decide (f ∈ s.sys.pendingFunctor_ loop) && f.owns id
  | .done loop f => (s.batch loop).any fun b => decide (f ∈ b.done) && f.owns id
  | .guard loop => s.guards loop == some id
  | .handle => decide (0 < s.handles id)

def Live (s : OwnedSystem) (id : ChannelPtr) : Prop := ∃ owner, s.holds id owner = true

/-- A connection that nothing has a `shared_ptr` to. -/
theorem not_live {s : OwnedSystem} {id : ChannelPtr}
    (hentries : s.sys.server.connections_ = [])
    (hpending : ∀ loop f, f ∈ s.sys.pendingFunctor_ loop → f.owns id = false)
    (hhandles : s.handles id = 0) (hguards : ∀ loop, s.guards loop ≠ some id)
    (hdone : ∀ loop b, s.batch loop = some b → b.done = []) : ¬ s.Live id := by
  rintro ⟨owner, howner⟩
  cases owner with
  | entry name => simp [holds, hentries] at howner
  | pending loop f =>
    simp only [holds, Bool.and_eq_true, decide_eq_true_eq] at howner
    rw [hpending loop f howner.1] at howner
    cases howner.2
  | done loop f =>
    simp only [holds, Option.any_eq_true, Bool.and_eq_true, decide_eq_true_eq] at howner
    obtain ⟨b, hb, hf, _⟩ := howner
    rw [hdone loop b hb] at hf
    cases hf
  | guard loop => exact hguards loop (beq_iff_eq.mp howner)
  | handle => simp [holds, hhandles] at howner

/-- The loop's thread is not between the test and the rest of a call. -/
def isFree (s : OwnedSystem) (loop : Nat) : Bool := (s.sys.calls loop).isNone

/-- The loop's thread is in neither `handleEvent` nor `doPendingFunctors`. -/
def isIdle (s : OwnedSystem) (loop : Nat) : Bool :=
  (s.guards loop).isNone && (s.batch loop).isNone

def setGuard (s : OwnedSystem) (loop : Nat) (guard : Option ChannelPtr) : OwnedSystem :=
  { s with guards := Function.update s.guards loop guard }

def setBatch (s : OwnedSystem) (loop : Nat) (b : Option FunctorBatch) : OwnedSystem :=
  { s with batch := Function.update s.batch loop b }

def setHandles (s : OwnedSystem) (id : ChannelPtr) (n : Nat) : OwnedSystem :=
  { s with handles := Function.update s.handles id n }

/-- A step of the server that changes no owner outside it. -/
def lift (s : OwnedSystem) (e : ServerEvent) : Option OwnedSystem :=
  (s.sys.step e).map fun sys => { s with sys := sys }

/-- The guard that `handleEvent` of the connection takes. -/
def guardOf (s : OwnedSystem) (id : ChannelPtr) (owner : Option Owner) : Option ChannelPtr :=
  if owner.isSome && (s.sys.conns id).any fun conn => conn.channel_.tied_ then some id else none

def step (s : OwnedSystem) : OwnershipEvent → Option OwnedSystem
  | .accept sockfd id => if s.isIdle s.sys.server.loop_ then s.lift (.accept sockfd id) else none
  | .poll loop ready => if s.isIdle loop then s.lift (.poll loop ready) else none
  | .handleEvent loop owner r w =>
    match s.sys.activeChannels_ loop with
    | (id, _) :: _ =>
      if s.isIdle loop && owner.all fun o => s.holds id o then
        (s.lift (.handleEvent loop owner.isSome r w)).map fun t =>
          t.setGuard loop (s.guardOf id owner)
      else
        none
    | [] => none
  | .endEvent loop => if s.isFree loop then some (s.setGuard loop none) else none
  | .swap loop =>
    if s.isFree loop ∧ s.isIdle loop ∧ s.sys.activeChannels_ loop = [] then
      some (s.setBatch loop (some ⟨[], (s.sys.pendingFunctor_ loop).length, false⟩))
    else
      none
  | .callFunctor loop =>
    match s.batch loop with
    | some b =>
      if s.isFree loop ∧ 0 < b.todo ∧ b.running = false then
        some (s.setBatch loop (some { b with running := true }))
      else
        none
    | none => none
  | .functorReturned loop w =>
    match s.batch loop, s.sys.pendingFunctor_ loop with
    | some b, f :: _ =>
      if b.running then
        (s.lift (.runFunctor loop w)).map fun t =>
          t.setBatch loop (some ⟨b.done ++ [f], b.todo - 1, false⟩)
      else
        none
    | _, _ => none
  | .endFunctors loop =>
    match s.batch loop with
    | some b =>
      if s.isFree loop ∧ b.todo = 0 ∧ b.running = false then
        some (s.setBatch loop none)
      else
        none
    | none => none
  | .load thread id owner call =>
    if s.holds id owner then s.lift (.load thread id call) else none
  | .proceed thread owner w =>
    match s.sys.calls thread with
    | some (id, _) => if s.holds id owner then s.lift (.proceed thread w) else none
    | none => none
  | .acquire id owner =>
    if s.holds id owner then some (s.setHandles id (s.handles id + 1)) else none
  | .release id =>
    if 0 < s.handles id then some (s.setHandles id (s.handles id - 1)) else none
  | .destroy thread order => s.lift (.destroy thread order)

/-- The functor that a loop is running. -/
def Running (s : OwnedSystem) (loop : Nat) (f : LoopFunctor) : Prop :=
  ∃ b rest, s.batch loop = some b ∧ b.running = true ∧ s.sys.pendingFunctor_ loop = f :: rest

/-- Every running functor's connection is alive. -/
def RunsLive (s : OwnedSystem) : Prop := ∀ loop f, s.Running loop f → s.Live f.target

end OwnedSystem

/-! ### What a step of the server does to queues and entries -/

namespace ServerSystem

/-- Functors are only added, all in `Q`, and of the entries only those under names in `D`
    go. -/
structure Effect (Q : LoopFunctor → Prop) (D : String → Prop) (s t : ServerSystem) : Prop where
  alive_eq : t.serverAlive = s.serverAlive
  loop_eq : t.server.loop_ = s.server.loop_
  kept : ∀ loop f, f ∈ s.pendingFunctor_ loop → f ∈ t.pendingFunctor_ loop
  added : ∀ loop f, f ∈ t.pendingFunctor_ loop → f ∈ s.pendingFunctor_ loop ∨ Q f
  entries : ∀ item ∈ s.server.connections_, ¬ D item.1 → item ∈ t.server.connections_

variable {Q : LoopFunctor → Prop} {D : String → Prop}

theorem Effect.of_eq {s t : ServerSystem} (halive : t.serverAlive = s.serverAlive)
    (hloop : t.server.loop_ = s.server.loop_) (hpending : t.pendingFunctor_ = s.pendingFunctor_)
    (hentries : t.server.connections_ = s.server.connections_) : Effect Q D s t := by
  refine ⟨halive, hloop, ?_, ?_, ?_⟩
  · intro loop f hf
    rwa [hpending]
  · intro loop f hf
    rw [hpending] at hf
    exact Or.inl hf
  · intro item hitem _
    rwa [hentries]

theorem Effect.refl (s : ServerSystem) : Effect Q D s s := Effect.of_eq rfl rfl rfl rfl

theorem Effect.trans {s t u : ServerSystem} (hst : Effect Q D s t) (htu : Effect Q D t u) :
    Effect Q D s u := by
  refine ⟨htu.alive_eq.trans hst.alive_eq, htu.loop_eq.trans hst.loop_eq, ?_, ?_, ?_⟩
  · intro loop f hf
    exact htu.kept loop f (hst.kept loop f hf)
  · intro loop f hf
    rcases htu.added loop f hf with hmid | hnew
    · exact hst.added loop f hmid
    · exact Or.inr hnew
  · intro item hitem hname
    exact htu.entries item (hst.entries item hitem hname) hname

theorem Effect.mono {Q' : LoopFunctor → Prop} {D' : String → Prop} {s t : ServerSystem}
    (h : Effect Q D s t) (hQ : ∀ f, Q f → Q' f) (hD : ∀ name, D name → D' name) :
    Effect Q' D' s t := by
  refine ⟨h.alive_eq, h.loop_eq, h.kept, ?_, ?_⟩
  · intro loop f hf
    exact (h.added loop f hf).imp_right (hQ f)
  · intro item hitem hname
    exact h.entries item hitem fun hD' => hname (hD _ hD')

theorem queueInLoop_effect (s : ServerSystem) (loop : Nat) {f : LoopFunctor} (hf : Q f) :
    Effect Q D s (s.queueInLoop loop f) := by
  refine ⟨rfl, rfl, ?_, ?_, fun item hitem _ => hitem⟩
  · intro l g hg
    by_cases hl : l = loop
    · subst hl
      simp [queueInLoop, hg]
    · simpa [queueInLoop, Function.update_of_ne hl] using hg
  · intro l g hg
    by_cases hl : l = loop
    · subst hl
      simp only [queueInLoop, Function.update_self, List.mem_append, List.mem_singleton] at hg
      rcases hg with hold | rfl
      · exact Or.inl hold
      · exact Or.inr hf
    · simp only [queueInLoop, Function.update_of_ne hl] at hg
      exact Or.inl hg

theorem eraseConnection_effect (s : ServerSystem) {conn : TcpConnection} (hD : D conn.name_) :
    Effect Q D s (s.eraseConnection conn) := by
  refine ⟨rfl, rfl, fun _ _ hf => hf, fun _ _ hf => Or.inl hf, ?_⟩
  intro item hitem hname
  simp only [eraseConnection, List.mem_filter, decide_eq_true_eq]
  exact ⟨hitem, fun heq => hname (heq ▸ hD)⟩

/-- The functors and names that the outputs in `P` of a connection may add and erase, when
    its methods run on `thread`. -/
structure Reacts (P : Output → Prop) (Q : LoopFunctor → Prop) (D : String → Prop)
    (thread loop : Nat) (id : ChannelPtr) (name : String) : Prop where
  queue : ∀ f, P (.queueInLoop f) → Q (.conn id f)
  close : P .closeCallback → (thread = loop → D name) ∧ Q (.conn id .connectDestroyed) ∧
    Q (.removeConnectionInLoop id)

theorem react_effect {P : Output → Prop} {s t : ServerSystem} {thread : Nat} {id : ChannelPtr}
    {conn : TcpConnection} {o : Output}
    (hP : Reacts P Q D thread s.server.loop_ id conn.name_) (ho : P o)
    (hreact : react thread id conn s o = some t) : Effect Q D s t := by
  simp only [react] at hreact
  split at hreact
  · next f =>
    cases hreact
    exact queueInLoop_effect s _ (hP.queue f ho)
  · obtain ⟨hname, hdestroy, hremove⟩ := hP.close ho
    split at hreact
    · split at hreact
      · next hthread =>
        cases hreact
        have herase : Effect Q D s (s.eraseConnection conn) :=
          eraseConnection_effect s (hname hthread)
        split
        · exact herase
        · exact herase.trans (queueInLoop_effect _ _ hdestroy)
      · cases hreact
        exact queueInLoop_effect s _ hremove
    · cases hreact
  · cases hreact
    exact Effect.refl s

theorem call_effect {P : Output → Prop} {s t : ServerSystem} {thread : Nat} {id : ChannelPtr}
    {what : List LoopStep} {method : ConnCtx → Except Fault ConnCtx}
    (hmethod : ∀ conn c, s.conns id = some conn →
      method ⟨conn, s.pollers conn.loop_, []⟩ = .ok c →
      ConnCtx.Reaches P ⟨conn, s.pollers conn.loop_, []⟩ c)
    (hP : ∀ conn, s.conns id = some conn → Reacts P Q D thread s.server.loop_ id conn.name_)
    (hcall : s.call thread id what method = some t) : Effect Q D s t := by
  obtain ⟨conn, c, hconn, hc, hfold⟩ := call_eq_some hcall
  have hreaches := hmethod conn c hconn hc
  obtain ⟨os, hos, houtputs⟩ := hreaches.outputs
  have hreacts : Reacts P Q D thread s.server.loop_ id c.conn.name_ := by
    rw [hreaches.name_eq]
    exact hP conn hconn
  have hcommit : Effect Q D s (s.commit thread id what c) := Effect.of_eq rfl rfl rfl rfl
  refine foldlM_invariant (I := Effect Q D s) ?_ hcommit hfold
  intro u o v ho hu hreact
  rw [hos, List.nil_append] at ho
  exact hu.trans (react_effect (hu.loop_eq.symm ▸ hreacts) (houtputs o ho) hreact)

/-- The functors that own their connection. -/
abbrev Shared (f : LoopFunctor) : Prop := f.bindsThis = false

theorem quiet_reacts (D : String → Prop) (thread loop : Nat) (id : ChannelPtr) (name : String) :
    Reacts (fun o => o.quiet = true) Shared D thread loop id name := by
  constructor
  · intro f hf
    have hshared : f.bindsThis = false := by simpa [Output.quiet] using hf
    exact hshared
  · intro hf
    cases hf

theorem runConnFunctor_effect {s t : ServerSystem} {thread : Nat} {id : ChannelPtr}
    {w : WriteResult} {f : ConnFunctor} (hrun : s.runConnFunctor thread id w f = some t) :
    Effect Shared D s t := by
  rcases runConnFunctor_call hrun with rfl | ⟨what, method, hcall, hmethod⟩
  · exact Effect.refl t
  · exact call_effect (fun _ c _ => hmethod _ c)
      (fun conn _ => quiet_reacts D thread s.server.loop_ id conn.name_) hcall

theorem runInLoop_effect {s t : ServerSystem} {thread loop : Nat} {id : ChannelPtr}
    {w : WriteResult} {f : ConnFunctor} (hrun : s.runInLoop thread loop id w f = some t) :
    Effect (fun g => Shared g ∨ g = .conn id f) D s t := by
  simp only [runInLoop] at hrun
  split at hrun
  · exact (runConnFunctor_effect hrun).mono (fun _ => Or.inl) fun _ h => h
  · cases hrun
    exact queueInLoop_effect s _ (Or.inr rfl)

theorem runInLoop_shared_effect {s t : ServerSystem} {thread loop : Nat} {id : ChannelPtr}
    {w : WriteResult} {f : ConnFunctor} (hf : f.bindsThis = false)
    (hrun : s.runInLoop thread loop id w f = some t) : Effect Shared D s t := by
  refine (runInLoop_effect hrun).mono ?_ fun _ h => h
  rintro g (hg | rfl)
  · exact hg
  · exact hf

/-! ### The steps -/

/-- The name that the next connection gets. -/
def nextName (s : ServerSystem) : String :=
  s.server.name_ ++ "--" ++ s.server.ipPort_ ++ "##" ++ toString s.server.nextConnId_

/-- The name of the connection. -/
def NameOf (s : ServerSystem) (id : ChannelPtr) (name : String) : Prop :=
  ∃ conn, s.conns id = some conn ∧ name = conn.name_

theorem accept_effect {s t : ServerSystem} {sockfd : Nat} {id : ChannelPtr}
    (hstep : s.step (.accept sockfd id) = some t) : Effect Shared (· = s.nextName) s t := by
  replace hstep := (step_eq_some hstep).2
  simp only [perform] at hstep
  split at hstep
  · have hcreate : Effect Shared (· = s.nextName) s (s.createConnection sockfd id) := by
      refine ⟨rfl, rfl, fun _ _ hf => hf, fun _ _ hf => Or.inl hf, ?_⟩
      intro item hitem hname
      apply List.mem_cons_of_mem
      simp only [List.mem_filter, decide_eq_true_eq]
      exact ⟨hitem, hname⟩
    exact hcreate.trans (runInLoop_shared_effect rfl hstep)
  · cases hstep

theorem poll_effect {s t : ServerSystem} {loop : Nat} {ready : List (Nat × EventMask)}
    (hstep : s.step (.poll loop ready) = some t) : Effect Q D s t := by
  replace hstep := (step_eq_some hstep).2
  simp only [perform] at hstep
  split at hstep
  · cases hstep
    exact Effect.of_eq rfl rfl rfl rfl
  · cases hstep

/-- The event of the connection erases its name: it is handled on the server's loop, and
    closes. -/
def ClosesName (s : ServerSystem) (loop : Nat) (ownerAlive : Bool) (mask : EventMask)
    (r : ReadResult) (id : ChannelPtr) (name : String) : Prop :=
  loop = s.server.loop_ ∧ closesOn mask r = true ∧ ∃ conn, s.conns id = some conn ∧
    name = conn.name_ ∧ (conn.channel_.tied_ = true → ownerAlive = true)

theorem handleEvent_effect {s t : ServerSystem} {loop : Nat} {ownerAlive : Bool}
    {id : ChannelPtr} {mask : EventMask} {rest : List (ChannelPtr × EventMask)} {r : ReadResult}
    {w : WriteResult} (hactive : s.activeChannels_ loop = (id, mask) :: rest)
    (hstep : s.step (.handleEvent loop ownerAlive r w) = some t) :
    Effect Shared (s.ClosesName loop ownerAlive mask r id) s t := by
  replace hstep := (step_eq_some hstep).2
  simp only [perform, hactive] at hstep
  have hnext : Effect Shared (s.ClosesName loop ownerAlive mask r id) s
      { s with activeChannels_ := Function.update s.activeChannels_ loop rest } :=
    Effect.of_eq rfl rfl rfl rfl
  refine hnext.trans (call_effect
    (P := fun o => o.quiet = true ∨ o = .closeCallback ∧ closesOn mask r = true ∧
      ∃ conn, s.conns id = some conn ∧ (conn.channel_.tied_ = true → ownerAlive = true))
    ?_ ?_ hstep)
  · intro conn c hconn hok
    apply ConnCtx.handleEvent_reaches (fun _ h => Or.inl (Output.quiet_of_routine h)) _ hok
    intro hhandled hcloses
    exact Or.inr ⟨rfl, hcloses, conn, hconn, hhandled⟩
  · intro conn hconn
    constructor
    · rintro f (hf | ⟨hf, _⟩)
      · exact (quiet_reacts (fun _ => False) loop loop id "").queue f hf
      · cases hf
    · rintro (hf | ⟨_, hcloses, conn', hconn', hhandled⟩)
      · cases hf
      · cases hconn.symm.trans hconn'
        exact ⟨fun hloop => ⟨hloop, hcloses, conn, hconn, rfl, hhandled⟩, rfl, rfl⟩

/-- The server with the first functor of a loop taken from the queue. -/
def popFunctor (s : ServerSystem) (loop : Nat) (rest : List LoopFunctor) : ServerSystem :=
  { s with pendingFunctor_ := Function.update s.pendingFunctor_ loop rest }

/-- The functor erases the name: it is a `removeConnectionInLoop`. -/
def RemovesName (s : ServerSystem) (f : LoopFunctor) (name : String) : Prop :=
  f = .removeConnectionInLoop f.target ∧ s.NameOf f.target name

theorem runFunctor_effect {s t : ServerSystem} {loop : Nat} {f : LoopFunctor}
    {rest : List LoopFunctor} {w : WriteResult} (hpending : s.pendingFunctor_ loop = f :: rest)
    (hstep : s.step (.runFunctor loop w) = some t) :
    Effect Shared (s.RemovesName f) (s.popFunctor loop rest) t := by
  replace hstep := (step_eq_some hstep).2
  simp only [perform, hpending] at hstep
  split at hstep
  · next g rest' _ heq =>
    cases heq
    cases f with
    | conn id g => exact runConnFunctor_effect hstep
    | removeConnectionInLoop id =>
      simp only [runFunctor] at hstep
      split at hstep
      · obtain ⟨conn, hconn, hrun⟩ := Option.bind_eq_some_iff.mp hstep
        have herase : Effect Shared (s.RemovesName (.removeConnectionInLoop id))
            (s.popFunctor loop rest) ((s.popFunctor loop rest).eraseConnection conn) :=
          eraseConnection_effect _ ⟨rfl, conn, hconn, rfl⟩
        exact herase.trans (runInLoop_shared_effect rfl hrun)
      · cases hstep
  · cases hstep

theorem load_effect {s t : ServerSystem} {thread : Nat} {id : ChannelPtr} {call : UserCall}
    (hstep : s.step (.load thread id call) = some t) : Effect Q D s t := by
  obtain ⟨conn, _, hload⟩ := Option.bind_eq_some_iff.mp (step_eq_some hstep).2
  split at hload
  · cases hload
    exact Effect.of_eq rfl rfl rfl rfl
  · cases hload
    exact Effect.refl _

/-- The rest of a call, on the thread that has made it. -/
theorem proceed_eq_some {s t : ServerSystem} {thread : Nat} {id : ChannelPtr} {call : UserCall}
    {w : WriteResult} (hcall : s.calls thread = some (id, call))
    (hstep : s.step (.proceed thread w) = some t) :
    (s.endCall thread).proceed thread id w call = some t := by
  obtain ⟨_, hcall', hrest⟩ := Option.bind_eq_some_iff.mp (step_eq_some hstep).2
  cases hcall.symm.trans hcall'
  exact hrest

/-- A call queues what binds the raw `this` for its own connection only. -/
theorem proceed_effect {s t : ServerSystem} {thread : Nat} {id : ChannelPtr} {call : UserCall}
    {w : WriteResult} (hcall : s.calls thread = some (id, call))
    (hstep : s.step (.proceed thread w) = some t) :
    Effect (fun f => Shared f ∨ f.target = id) D s t := by
  have hrest := proceed_eq_some hcall hstep
  have hnext : Effect (fun f => Shared f ∨ f.target = id) D s (s.endCall thread) :=
    Effect.of_eq rfl rfl rfl rfl
  refine hnext.trans ?_
  cases call with
  | send message =>
    obtain ⟨conn, _, hsend⟩ := Option.bind_eq_some_iff.mp hrest
    refine (runInLoop_effect hsend).mono ?_ fun _ h => h
    rintro f (hf | rfl)
    · exact Or.inl hf
    · exact Or.inr rfl
  | shutdown =>
    have hstore : (s.endCall thread).call thread id [] (fun c => .ok c.shutdownStore) = some t :=
      hrest
    refine call_effect (P := (.queueInLoop .shutdownInLoop = ·)) ?_ ?_ hstore
    · intro conn c _ hok
      exact ConnCtx.reaches_of_total (ConnCtx.shutdownStore_reaches rfl) _ c hok
    · intro conn _
      refine ⟨fun f _ => Or.inr rfl, ?_⟩
      intro hclose
      cases hclose

theorem destroyItems_effect {s t : ServerSystem} {thread : Nat}
    {items : List (String × ChannelPtr)} (hfold : items.foldlM (destroyItem thread) s = some t) :
    Effect Shared D s t := by
  refine foldlM_invariant (I := Effect Shared D s) ?_ (Effect.refl s) hfold
  intro u item v _ hu hitem
  obtain ⟨conn, _, hrun⟩ := Option.bind_eq_some_iff.mp hitem
  exact hu.trans (runInLoop_shared_effect rfl hrun)

/-- `~TcpServer` drops every entry. -/
theorem destroy_effect {s t : ServerSystem} {thread : Nat} {order : List (String × ChannelPtr)}
    (hstep : s.step (.destroy thread order) = some t) :
    ∃ u, Effect Shared D s u ∧ t = { u with serverAlive := false } := by
  replace hstep := (step_eq_some hstep).2
  simp only [perform] at hstep
  split at hstep
  · obtain ⟨u, hfold, rfl⟩ := Option.map_eq_some_iff.mp hstep
    exact ⟨u, destroyItems_effect hfold, rfl⟩
  · cases hstep

/-- `~TcpServer` posts `connectDestroyed` to the loops of other threads. -/
theorem destroy_posts {s t : ServerSystem} {thread loop : Nat}
    {order : List (String × ChannelPtr)} {name : String} {id : ChannelPtr} (h : s.Placed)
    (howned : s.OwnedBy id loop) (hloop : loop ≠ thread)
    (hentry : (name, id) ∈ s.server.connections_)
    (hstep : s.step (.destroy thread order) = some t) :
    .conn id .connectDestroyed ∈ t.pendingFunctor_ loop := by
  replace hstep := (step_eq_some hstep).2
  simp only [perform] at hstep
  split at hstep
  · next hready =>
    obtain ⟨u, hfold, rfl⟩ := Option.map_eq_some_iff.mp hstep
    obtain ⟨before, after, rfl⟩ := List.append_of_mem (hready.2.mem_iff.mpr hentry)
    rw [List.foldlM_append] at hfold
    obtain ⟨v, hbefore, hrest⟩ := Option.bind_eq_some_iff.mp hfold
    rw [List.foldlM_cons] at hrest
    obtain ⟨v', hitem, hafter⟩ := Option.bind_eq_some_iff.mp hrest
    obtain ⟨conn, hconn, hrun⟩ := Option.bind_eq_some_iff.mp hitem
    obtain ⟨conn', hconn', rfl⟩ := (destroyItems_grows h hbefore).owned id loop howned
    cases hconn.symm.trans hconn'
    rw [runInLoop, if_neg hloop.symm] at hrun
    cases hrun
    apply (destroyItems_effect (D := fun _ => False) hafter).kept
    simp [queueInLoop]
  · cases hstep

end ServerSystem

/-! ### Losing the last owner -/

namespace OwnedSystem

/-- A functor that binds the connection's raw `this` is queued or running. -/
def RawWaits (s : OwnedSystem) (id : ChannelPtr) : Prop :=
  ∃ loop f, f ∈ s.sys.pendingFunctor_ loop ∧ f.bindsThis = true ∧ f.target = id

/-- A connection that a raw functor waits for is alive. -/
def WaitingLive (s : OwnedSystem) : Prop := ∀ id, s.RawWaits id → s.Live id

/-- The step takes this owner from the connection and gives it no other in return: the end
    of the last handle, of a guard or of a batch of functors, an entry that is replaced or
    erased under its name, or the end of the server on the connection's own loop. -/
def Takes (s : OwnedSystem) (id : ChannelPtr) : OwnershipEvent → Owner → Prop
  | .release other, .handle => other = id ∧ s.handles id = 1
  | .endEvent loop, .guard other => other = loop
  | .endFunctors loop, .done other _ => other = loop
  | .accept _ _, .entry name => name = s.sys.nextName
  | .handleEvent loop owner r _, .entry name => ∃ target mask rest,
      s.sys.activeChannels_ loop = (target, mask) :: rest ∧
      s.sys.ClosesName loop owner.isSome mask r target name ∧ s.guardOf target owner ≠ some id
  | .functorReturned loop _, .entry name => ∃ f rest,
      s.sys.pendingFunctor_ loop = f :: rest ∧ s.sys.RemovesName f name
  | .destroy thread _, .entry _ => ∀ loop, s.sys.OwnedBy id loop → loop = thread
  | _, _ => False

/-- The connection has owners, and the step takes them all. -/
def TakesLastOwner (s : OwnedSystem) (id : ChannelPtr) (e : OwnershipEvent) : Prop :=
  s.Live id ∧ ∀ owner, s.holds id owner = true → s.Takes id e owner

/-- The step takes the last owner of no connection that a raw functor waits for. -/
def LastOwnerStays (s : OwnedSystem) (e : OwnershipEvent) : Prop :=
  ∀ id, s.RawWaits id → ¬ s.TakesLastOwner id e

/-! ### What a step does -/

/-- The steps, each with what its test gives. -/
inductive Stepped (s : OwnedSystem) : OwnershipEvent → OwnedSystem → Prop where
  | accept {sockfd : Nat} {id : ChannelPtr} {sys : ServerSystem}
      (hsys : s.sys.step (.accept sockfd id) = some sys) :
      Stepped s (.accept sockfd id) { s with sys := sys }
  | poll {loop : Nat} {ready : List (Nat × EventMask)} {sys : ServerSystem}
      (hsys : s.sys.step (.poll loop ready) = some sys) :
      Stepped s (.poll loop ready) { s with sys := sys }
  | handleEvent {loop : Nat} {owner : Option Owner} {r : ReadResult} {w : WriteResult}
      {id : ChannelPtr} {mask : EventMask} {rest : List (ChannelPtr × EventMask)}
      {sys : ServerSystem} (hactive : s.sys.activeChannels_ loop = (id, mask) :: rest)
      (hidle : s.guards loop = none)
      (hsys : s.sys.step (.handleEvent loop owner.isSome r w) = some sys) :
      Stepped s (.handleEvent loop owner r w)
        (setGuard { s with sys := sys } loop (s.guardOf id owner))
  | endEvent {loop : Nat} : Stepped s (.endEvent loop) (s.setGuard loop none)
  | swap {loop : Nat} (hidle : s.batch loop = none) (todo : Nat) :
      Stepped s (.swap loop) (s.setBatch loop (some ⟨[], todo, false⟩))
  | callFunctor {loop : Nat} {b : FunctorBatch} (hbatch : s.batch loop = some b) :
      Stepped s (.callFunctor loop) (s.setBatch loop (some { b with running := true }))
  | functorReturned {loop : Nat} {w : WriteResult} {b : FunctorBatch} {f : LoopFunctor}
      {rest : List LoopFunctor} {sys : ServerSystem} (hbatch : s.batch loop = some b)
      (hpending : s.sys.pendingFunctor_ loop = f :: rest)
      (hsys : s.sys.step (.runFunctor loop w) = some sys) :
      Stepped s (.functorReturned loop w)
        (setBatch { s with sys := sys } loop (some ⟨b.done ++ [f], b.todo - 1, false⟩))
  | endFunctors {loop : Nat} : Stepped s (.endFunctors loop) (s.setBatch loop none)
  | load {thread : Nat} {id : ChannelPtr} {owner : Owner} {call : UserCall} {sys : ServerSystem}
      (hsys : s.sys.step (.load thread id call) = some sys) :
      Stepped s (.load thread id owner call) { s with sys := sys }
  | proceed {thread : Nat} {owner : Owner} {w : WriteResult} {id : ChannelPtr} {call : UserCall}
      {sys : ServerSystem} (hcall : s.sys.calls thread = some (id, call))
      (howner : s.holds id owner = true) (hsys : s.sys.step (.proceed thread w) = some sys) :
      Stepped s (.proceed thread owner w) { s with sys := sys }
  | acquire {id : ChannelPtr} {owner : Owner} :
      Stepped s (.acquire id owner) (s.setHandles id (s.handles id + 1))
  | release {id : ChannelPtr} : Stepped s (.release id) (s.setHandles id (s.handles id - 1))
  | destroy {thread : Nat} {order : List (String × ChannelPtr)} {sys : ServerSystem}
      (hsys : s.sys.step (.destroy thread order) = some sys) :
      Stepped s (.destroy thread order) { s with sys := sys }

theorem lift_eq_some {s t : OwnedSystem} {e : ServerEvent} (h : s.lift e = some t) :
    ∃ sys, s.sys.step e = some sys ∧ t = { s with sys := sys } := by
  obtain ⟨sys, hsys, rfl⟩ := Option.map_eq_some_iff.mp h
  exact ⟨sys, hsys, rfl⟩

theorem isIdle_iff {s : OwnedSystem} {loop : Nat} :
    s.isIdle loop = true ↔ s.guards loop = none ∧ s.batch loop = none := by
  simp [isIdle]

theorem stepped {s t : OwnedSystem} {e : OwnershipEvent} (hstep : s.step e = some t) :
    Stepped s e t := by
  cases e with
  | accept sockfd id =>
    simp only [step, Option.ite_none_right_eq_some] at hstep
    obtain ⟨sys, hsys, rfl⟩ := lift_eq_some hstep.2
    exact .accept hsys
  | poll loop ready =>
    simp only [step, Option.ite_none_right_eq_some] at hstep
    obtain ⟨sys, hsys, rfl⟩ := lift_eq_some hstep.2
    exact .poll hsys
  | handleEvent loop owner r w =>
    simp only [step] at hstep
    split at hstep
    · next id mask rest hactive =>
      split at hstep
      · next hready =>
        obtain ⟨u, hu, rfl⟩ := Option.map_eq_some_iff.mp hstep
        obtain ⟨sys, hsys, rfl⟩ := lift_eq_some hu
        rw [Bool.and_eq_true, isIdle_iff] at hready
        exact .handleEvent hactive hready.1.1 hsys
      · cases hstep
    · cases hstep
  | endEvent loop =>
    simp only [step, Option.ite_none_right_eq_some, Option.some.injEq] at hstep
    obtain ⟨_, rfl⟩ := hstep
    exact .endEvent
  | swap loop =>
    simp only [step, Option.ite_none_right_eq_some, Option.some.injEq, isIdle_iff] at hstep
    obtain ⟨⟨_, ⟨_, hidle⟩, _⟩, rfl⟩ := hstep
    exact .swap hidle _
  | callFunctor loop =>
    simp only [step] at hstep
    split at hstep
    · next b hbatch =>
      split at hstep
      · cases hstep
        exact .callFunctor hbatch
      · cases hstep
    · cases hstep
  | functorReturned loop w =>
    simp only [step] at hstep
    split at hstep
    · next b f rest hbatch hpending =>
      split at hstep
      · obtain ⟨u, hu, rfl⟩ := Option.map_eq_some_iff.mp hstep
        obtain ⟨sys, hsys, rfl⟩ := lift_eq_some hu
        exact .functorReturned hbatch hpending hsys
      · cases hstep
    · cases hstep
  | endFunctors loop =>
    simp only [step] at hstep
    split at hstep
    · split at hstep
      · cases hstep
        exact .endFunctors
      · cases hstep
    · cases hstep
  | load thread id owner call =>
    simp only [step, Option.ite_none_right_eq_some] at hstep
    obtain ⟨sys, hsys, rfl⟩ := lift_eq_some hstep.2
    exact .load hsys
  | proceed thread owner w =>
    simp only [step] at hstep
    split at hstep
    · next id call hcall =>
      rw [Option.ite_none_right_eq_some] at hstep
      obtain ⟨sys, hsys, rfl⟩ := lift_eq_some hstep.2
      exact .proceed hcall hstep.1 hsys
    · cases hstep
  | acquire id owner =>
    simp only [step, Option.ite_none_right_eq_some, Option.some.injEq] at hstep
    obtain ⟨_, rfl⟩ := hstep
    exact .acquire
  | release id =>
    simp only [step, Option.ite_none_right_eq_some, Option.some.injEq] at hstep
    obtain ⟨_, rfl⟩ := hstep
    exact .release
  | destroy thread order =>
    obtain ⟨sys, hsys, rfl⟩ := lift_eq_some hstep
    exact .destroy hsys

theorem placed_step {s t : OwnedSystem} {e : OwnershipEvent} (h : s.sys.Placed)
    (hstep : s.step e = some t) : t.sys.Placed := by
  cases stepped hstep with
  | accept hsys => exact h.step hsys
  | poll hsys => exact h.step hsys
  | handleEvent hactive hidle hsys => exact h.step hsys
  | functorReturned hbatch hpending hsys => exact h.step hsys
  | load hsys => exact h.step hsys
  | proceed hcall howner hsys => exact h.step hsys
  | destroy hsys => exact h.step hsys
  | _ => exact h

/-! ### Owners that stay -/

theorem holds_of_effect {Q : LoopFunctor → Prop} {D : String → Prop} {s : OwnedSystem}
    {sys : ServerSystem} {id : ChannelPtr} {owner : Owner}
    (heffect : ServerSystem.Effect Q D s.sys sys) (howner : s.holds id owner = true)
    (hname : ∀ name, owner = .entry name → ¬ D name) :
    holds { s with sys := sys } id owner = true := by
  cases owner with
  | entry name =>
    simp only [holds, Bool.and_eq_true, decide_eq_true_eq] at howner ⊢
    exact ⟨heffect.alive_eq.trans howner.1, heffect.entries _ howner.2 (hname name rfl)⟩
  | pending loop f =>
    simp only [holds, Bool.and_eq_true, decide_eq_true_eq] at howner ⊢
    exact ⟨heffect.kept loop f howner.1, howner.2⟩
  | done loop f => exact howner
  | guard loop => exact howner
  | handle => exact howner

theorem holds_setGuard {s : OwnedSystem} {loop : Nat} {guard : Option ChannelPtr}
    {id : ChannelPtr} {owner : Owner} (howner : s.holds id owner = true)
    (hguard : owner ≠ .guard loop) : (s.setGuard loop guard).holds id owner = true := by
  cases owner with
  | guard other =>
    have hother : other ≠ loop := by
      rintro rfl
      exact hguard rfl
    simpa [holds, setGuard, Function.update_of_ne hother] using howner
  | _ => exact howner

theorem holds_setBatch {s : OwnedSystem} {loop : Nat} {batch : Option FunctorBatch}
    {id : ChannelPtr} {owner : Owner} (howner : s.holds id owner = true)
    (hdone : ∀ b f, owner = .done loop f → s.batch loop = some b → f ∈ b.done →
      ∃ b', batch = some b' ∧ f ∈ b'.done) :
    (s.setBatch loop batch).holds id owner = true := by
  cases owner with
  | done other f =>
    simp only [holds, Option.any_eq_true, Bool.and_eq_true, decide_eq_true_eq, setBatch]
      at howner ⊢
    obtain ⟨b, hb, hf, howns⟩ := howner
    by_cases hother : other = loop
    · subst hother
      obtain ⟨b', hb', hf'⟩ := hdone b f rfl hb hf
      exact ⟨b', by rw [Function.update_self, hb'], hf', howns⟩
    · exact ⟨b, by rw [Function.update_of_ne hother, hb], hf, howns⟩
  | _ => exact howner

theorem holds_setHandles {s : OwnedSystem} {id other : ChannelPtr} {n : Nat} {owner : Owner}
    (howner : s.holds id owner = true) (hn : owner = .handle → other = id → 0 < n) :
    (s.setHandles other n).holds id owner = true := by
  cases owner with
  | handle =>
    have hcount : 0 < Function.update s.handles other n id := by
      by_cases hother : other = id
      · subst hother
        rw [Function.update_self]
        exact hn rfl rfl
      · rw [Function.update_of_ne (Ne.symm hother)]
        exact of_decide_eq_true howner
    exact decide_eq_true hcount
  | _ => exact howner

/-- A functor that returns keeps what it binds in the batch. -/
theorem live_functorReturned {s : OwnedSystem} {sys : ServerSystem} {loop : Nat}
    {w : WriteResult} {b : FunctorBatch} {f : LoopFunctor} {rest : List LoopFunctor}
    {id : ChannelPtr} {owner : Owner} (hbatch : s.batch loop = some b)
    (hpending : s.sys.pendingFunctor_ loop = f :: rest)
    (hsys : s.sys.step (.runFunctor loop w) = some sys) (howner : s.holds id owner = true)
    (hkept : ¬ s.Takes id (.functorReturned loop w) owner) :
    (setBatch { s with sys := sys } loop (some ⟨b.done ++ [f], b.todo - 1, false⟩)).Live id := by
  have heffect := ServerSystem.runFunctor_effect hpending hsys
  by_cases howns : f.owns id = true
  · refine ⟨.done loop f, ?_⟩
    simp [holds, setBatch, howns]
  · have hpopped : holds { s with sys := s.sys.popFunctor loop rest } id owner = true := by
      cases owner with
      | pending other g =>
        simp only [holds, Bool.and_eq_true, decide_eq_true_eq] at howner ⊢
        refine ⟨?_, howner.2⟩
        by_cases hother : other = loop
        · subst hother
          rw [hpending] at howner
          rcases List.mem_cons.mp howner.1 with rfl | hrest
          · exact absurd howner.2 howns
          · simpa [ServerSystem.popFunctor] using hrest
        · simpa [ServerSystem.popFunctor, Function.update_of_ne hother] using howner.1
      | _ => exact howner
    have hran : holds { s with sys := sys } id owner = true := by
      refine holds_of_effect (s := { s with sys := s.sys.popFunctor loop rest }) heffect hpopped ?_
      rintro name rfl hremoves
      exact hkept ⟨f, rest, hpending, hremoves⟩
    refine ⟨owner, holds_setBatch hran ?_⟩
    intro b' g _ hb' hg
    cases hbatch.symm.trans hb'
    exact ⟨_, rfl, List.mem_append_left _ hg⟩

theorem live_destroy {s : OwnedSystem} {sys : ServerSystem} {thread : Nat}
    {order : List (String × ChannelPtr)} {id : ChannelPtr} {owner : Owner} (hplaced : s.sys.Placed)
    (hsys : s.sys.step (.destroy thread order) = some sys) (howner : s.holds id owner = true)
    (hkept : ¬ s.Takes id (.destroy thread order) owner) : Live { s with sys := sys } id := by
  cases owner with
  | entry name =>
    simp only [Takes, not_forall] at hkept
    obtain ⟨loop, howned, hloop⟩ := hkept
    simp only [holds, Bool.and_eq_true, decide_eq_true_eq] at howner
    refine ⟨.pending loop (.conn id .connectDestroyed), ?_⟩
    simp only [holds, Bool.and_eq_true, decide_eq_true_eq]
    exact ⟨ServerSystem.destroy_posts hplaced howned hloop howner.2 hsys, by
      simp [LoopFunctor.owns, LoopFunctor.target, LoopFunctor.bindsThis, ConnFunctor.bindsThis]⟩
  | pending loop f =>
    obtain ⟨u, hu, rfl⟩ := ServerSystem.destroy_effect (D := fun _ => False) hsys
    refine ⟨.pending loop f, ?_⟩
    simp only [holds, Bool.and_eq_true, decide_eq_true_eq] at howner ⊢
    exact ⟨hu.kept loop f howner.1, howner.2⟩
  | done loop f => exact ⟨.done loop f, howner⟩
  | guard loop => exact ⟨.guard loop, howner⟩
  | handle => exact ⟨.handle, howner⟩

/-- A connection keeps an owner, or gets one in return, unless the step takes it. -/
theorem live_step {s t : OwnedSystem} {e : OwnershipEvent} {id : ChannelPtr} {owner : Owner}
    (hplaced : s.sys.Placed) (hstep : s.step e = some t) (howner : s.holds id owner = true)
    (hkept : ¬ s.Takes id e owner) : t.Live id := by
  cases stepped hstep with
  | accept hsys =>
    refine ⟨owner, holds_of_effect (ServerSystem.accept_effect hsys) howner ?_⟩
    rintro name rfl hname
    exact hkept hname
  | poll hsys =>
    exact ⟨owner, holds_of_effect (Q := fun _ => False) (D := fun _ => False)
      (ServerSystem.poll_effect hsys) howner fun _ _ h => h⟩
  | @handleEvent loop lock r w target mask rest sys hactive hidle hsys =>
    by_cases hguard : s.guardOf target lock = some id
    · refine ⟨.guard loop, ?_⟩
      simp [holds, setGuard, hguard]
    · have hran : holds { s with sys := sys } id owner = true := by
        apply holds_of_effect (ServerSystem.handleEvent_effect hactive hsys) howner
        rintro name rfl hcloses
        exact hkept ⟨target, mask, rest, hactive, hcloses, hguard⟩
      refine ⟨owner, holds_setGuard hran ?_⟩
      rintro rfl
      simp [holds, hidle] at howner
  | endEvent =>
    refine ⟨owner, holds_setGuard howner ?_⟩
    rintro rfl
    exact hkept rfl
  | swap hidle todo =>
    refine ⟨owner, holds_setBatch howner ?_⟩
    intro b f _ hb
    simp [hidle] at hb
  | callFunctor hbatch =>
    refine ⟨owner, holds_setBatch howner ?_⟩
    intro b' f _ hb' hf
    cases hbatch.symm.trans hb'
    exact ⟨_, rfl, hf⟩
  | functorReturned hbatch hpending hsys =>
    exact live_functorReturned hbatch hpending hsys howner hkept
  | endFunctors =>
    refine ⟨owner, holds_setBatch howner ?_⟩
    rintro b f rfl _ _
    exact absurd rfl hkept
  | load hsys =>
    exact ⟨owner, holds_of_effect (Q := fun _ => False) (D := fun _ => False)
      (ServerSystem.load_effect hsys) howner fun _ _ h => h⟩
  | proceed hcall _ hsys =>
    exact ⟨owner, holds_of_effect (D := fun _ => False) (ServerSystem.proceed_effect hcall hsys)
      howner fun _ _ h => h⟩
  | acquire => exact ⟨owner, holds_setHandles howner fun _ _ => Nat.succ_pos _⟩
  | @release other =>
    refine ⟨owner, holds_setHandles howner ?_⟩
    rintro rfl hother
    subst hother
    have hpos : 0 < s.handles other := of_decide_eq_true howner
    have hmore : s.handles other ≠ 1 := fun hone => hkept ⟨rfl, hone⟩
    omega
  | destroy hsys => exact live_destroy hplaced hsys howner hkept

/-- What a step adds to the queues: a functor that binds the raw `this` is for a live
    connection, and from a step that takes no owner of it. -/
def Queues (s : OwnedSystem) (e : OwnershipEvent) (t : OwnedSystem) : Prop :=
  ∀ loop f, f ∈ t.sys.pendingFunctor_ loop → f.bindsThis = true →
    f ∈ s.sys.pendingFunctor_ loop ∨
      (s.Live f.target ∧ ∀ owner, ¬ s.Takes f.target e owner)

theorem queues_of_effect {D : String → Prop} {s t : OwnedSystem} {e : OwnershipEvent}
    (heffect : ServerSystem.Effect ServerSystem.Shared D s.sys t.sys) : Queues s e t := by
  intro loop f hf hraw
  rcases heffect.added loop f hf with hold | hshared
  · exact Or.inl hold
  · rw [ServerSystem.Shared, hraw] at hshared
    cases hshared

theorem queues_of_call {D : String → Prop} {s t : OwnedSystem} {e : OwnershipEvent}
    {id : ChannelPtr} {owner : Owner} (howner : s.holds id owner = true)
    (hstays : ∀ owner, ¬ s.Takes id e owner)
    (heffect : ServerSystem.Effect (fun f => ServerSystem.Shared f ∨ f.target = id) D s.sys t.sys) :
    Queues s e t := by
  intro loop f hf hraw
  rcases heffect.added loop f hf with hold | hshared | rfl
  · exact Or.inl hold
  · rw [ServerSystem.Shared, hraw] at hshared
    cases hshared
  · exact Or.inr ⟨⟨owner, howner⟩, hstays⟩

theorem queues_functorReturned {s : OwnedSystem} {sys : ServerSystem} {loop : Nat}
    {w : WriteResult} {f : LoopFunctor} {rest : List LoopFunctor} {batch : Option FunctorBatch}
    (hpending : s.sys.pendingFunctor_ loop = f :: rest)
    (hsys : s.sys.step (.runFunctor loop w) = some sys) :
    Queues s (.functorReturned loop w) (setBatch { s with sys := sys } loop batch) := by
  have heffect := ServerSystem.runFunctor_effect hpending hsys
  intro other g hg hraw
  rcases heffect.added other g hg with hold | hshared
  · left
    by_cases hother : other = loop
    · subst hother
      rw [hpending]
      exact List.mem_cons_of_mem _ (by simpa [ServerSystem.popFunctor] using hold)
    · simpa [ServerSystem.popFunctor, Function.update_of_ne hother] using hold
  · rw [ServerSystem.Shared, hraw] at hshared
    cases hshared

theorem queues_step {s t : OwnedSystem} {e : OwnershipEvent} (hstep : s.step e = some t) :
    Queues s e t := by
  have hnone : ∀ s' : OwnedSystem, s'.sys = s.sys → Queues s e s' := by
    intro s' hsys loop f hf _
    rw [hsys] at hf
    exact Or.inl hf
  cases stepped hstep with
  | accept hsys => exact queues_of_effect (ServerSystem.accept_effect hsys)
  | poll hsys => exact queues_of_effect (D := fun _ => False) (ServerSystem.poll_effect hsys)
  | handleEvent hactive hidle hsys =>
    exact queues_of_effect (ServerSystem.handleEvent_effect hactive hsys)
  | functorReturned hbatch hpending hsys => exact queues_functorReturned hpending hsys
  | load hsys => exact queues_of_effect (D := fun _ => False) (ServerSystem.load_effect hsys)
  | proceed hcall howner hsys =>
    apply queues_of_call (D := fun _ => False) howner _ (ServerSystem.proceed_effect hcall hsys)
    intro owner htakes
    cases owner <;> exact htakes
  | @destroy thread order sys hsys =>
    obtain ⟨u, hu, rfl⟩ := ServerSystem.destroy_effect (D := fun _ => False) hsys
    have hqueues : Queues s (.destroy thread order) { s with sys := u } := queues_of_effect hu
    exact hqueues
  | _ => exact hnone _ rfl

/-! ### Runs -/

/-- Functors that wait keep a live connection, and are in the queue of its loop. -/
structure Inv (s : OwnedSystem) : Prop where
  waiting : s.WaitingLive
  placed : s.sys.Placed

theorem Inv.step {s t : OwnedSystem} {e : OwnershipEvent} (h : s.Inv)
    (hstays : s.LastOwnerStays e) (hstep : s.step e = some t) : t.Inv := by
  refine ⟨?_, placed_step h.placed hstep⟩
  rintro id ⟨loop, f, hf, hraw, rfl⟩
  rcases queues_step hstep loop f hf hraw with hold | ⟨⟨owner, howner⟩, hkept⟩
  · have hwaits : s.RawWaits f.target := ⟨loop, f, hold, hraw, rfl⟩
    obtain ⟨owner, howner, hkept⟩ : ∃ owner, s.holds f.target owner = true ∧
        ¬ s.Takes f.target e owner := by
      by_contra hnone
      apply hstays f.target hwaits
      refine ⟨h.waiting f.target hwaits, ?_⟩
      intro owner howner
      by_contra hkept
      exact hnone ⟨owner, howner, hkept⟩
    exact live_step h.placed hstep howner hkept
  · exact live_step h.placed hstep howner (hkept owner)

theorem start_inv (loop : Nat) (name ipPort : String) (writeComplete : Bool)
    (numThreads : Int) : (start loop name ipPort writeComplete numThreads).Inv := by
  refine ⟨?_, (ServerSystem.start_inv loop name ipPort writeComplete numThreads).placed⟩
  rintro id ⟨l, f, hf, _⟩
  cases hf

/-- A running functor that binds a `shared_ptr` keeps its connection itself. -/
theorem Inv.runsLive {s : OwnedSystem} (h : s.Inv) : s.RunsLive := by
  rintro loop f ⟨b, rest, _, _, hpending⟩
  have hf : f ∈ s.sys.pendingFunctor_ loop := by
    rw [hpending]
    exact List.mem_cons_self ..
  rcases hraw : f.bindsThis with _ | _
  · refine ⟨.pending loop f, ?_⟩
    simp [holds, hf, LoopFunctor.owns, hraw]
  · exact h.waiting f.target ⟨loop, f, hf, hraw, rfl⟩

end OwnedSystem

/-- **Functors run on live connections.**  In every run of accepts, sends, shutdowns,
    channel events and functors in which no step takes the last owner of a connection that a
    functor with the raw `this` waits for, every functor runs while its connection is
    alive. -/
theorem functors_run_on_live_connections (loop : Nat) (name ipPort : String)
    (writeComplete : Bool) (numThreads : Int) (es : List OwnershipEvent)
    (hstays : Along OwnedSystem.step OwnedSystem.LastOwnerStays
      (OwnedSystem.start loop name ipPort writeComplete numThreads) es) :
    Always OwnedSystem.step OwnedSystem.RunsLive
      (OwnedSystem.start loop name ipPort writeComplete numThreads) es :=
  (always_of_along (fun _ _ _ h => h.step)
    (OwnedSystem.start_inv loop name ipPort writeComplete numThreads) hstays).mono
    fun _ h => h.runsLive

/-- A `shutdownInLoop` that runs while the entry and the user's handle are there. -/
theorem functors_run_on_live_connections_one_shutdown :
    Always OwnedSystem.step OwnedSystem.RunsLive
      (OwnedSystem.start 0 "server" "0.0.0.0:80" false 0)
      [.accept 5 1, .acquire 1 (.entry "server--0.0.0.0:80##1"), .load 9 1 .handle .shutdown,
        .proceed 9 .handle (.wrote 0), .swap 0, .callFunctor 0] := by
  apply functors_run_on_live_connections
  have hquiet : ∀ (s : OwnedSystem) (e : OwnershipEvent) (es : List OwnershipEvent),
      (∀ id owner, ¬ s.Takes id e owner) →
      (∀ t, Along OwnedSystem.step OwnedSystem.LastOwnerStays t es) →
      Along OwnedSystem.step OwnedSystem.LastOwnerStays s (e :: es) := by
    intro s e es hnone hrest
    refine along_cons.mpr ⟨?_, fun t _ => hrest t⟩
    rintro id _ ⟨⟨owner, howner⟩, htakes⟩
    exact hnone id owner (htakes owner howner)
  refine along_cons.mpr ⟨?_, fun s _ => ?_⟩
  · rintro id ⟨loop, f, hf, _⟩
    cases hf
  · iterate 5
      apply hquiet
      · intro id owner htakes
        cases owner <;> exact htakes
      intro t
    exact along_nil

set_option maxRecDepth 20000 in
/-- A user's thread calls `shutdown()` and drops its handle.  The server, on the same loop,
    reads the end of the stream and closes the connection before the functor: the entry and
    the guard were the last owners, and `shutdownInLoop` runs on a destroyed connection. -/
theorem shutdownInLoop_runs_on_dead_connection :
    ∃ t, Run OwnedSystem.step (OwnedSystem.start 0 "server" "0.0.0.0:80" false 0)
        [.accept 5 1, .acquire 1 (.entry "server--0.0.0.0:80##1"), .load 9 1 .handle .shutdown,
          .proceed 9 .handle (.wrote 0), .release 1, .poll 0 [(5, EPOLLIN)],
          .handleEvent 0 (some (.entry "server--0.0.0.0:80##1")) (.received []) (.wrote 0),
          .endEvent 0, .swap 0, .callFunctor 0] t ∧
      t.Running 0 (.conn 1 .shutdownInLoop) ∧ ¬ t.Live 1 ∧
      ¬ Always OwnedSystem.step OwnedSystem.RunsLive
        (OwnedSystem.start 0 "server" "0.0.0.0:80" false 0)
        [.accept 5 1, .acquire 1 (.entry "server--0.0.0.0:80##1"), .load 9 1 .handle .shutdown,
          .proceed 9 .handle (.wrote 0), .release 1, .poll 0 [(5, EPOLLIN)],
          .handleEvent 0 (some (.entry "server--0.0.0.0:80##1")) (.received []) (.wrote 0),
          .endEvent 0, .swap 0, .callFunctor 0] := by
  obtain ⟨t, hrun, hends⟩ := exists_run OwnedSystem.step
    (OwnedSystem.start 0 "server" "0.0.0.0:80" false 0)
    [.accept 5 1, .acquire 1 (.entry "server--0.0.0.0:80##1"), .load 9 1 .handle .shutdown,
      .proceed 9 .handle (.wrote 0), .release 1, .poll 0 [(5, EPOLLIN)],
      .handleEvent 0 (some (.entry "server--0.0.0.0:80##1")) (.received []) (.wrote 0),
      .endEvent 0, .swap 0, .callFunctor 0]
    (fun t => (t.sys.server.connections_, t.sys.pendingFunctor_, t.handles 1, t.guards, t.batch))
    ([], Function.update (fun _ => []) 0 [.conn 1 .shutdownInLoop], 0,
      Function.update (Function.update (fun _ => none) 0 (some 1)) 0 none,
      Function.update (Function.update (fun _ => none) 0 (some ⟨[], 1, false⟩)) 0
        (some ⟨[], 1, true⟩)) rfl
  simp only [Prod.mk.injEq, Function.update_idem, Function.update_eq_self] at hends
  rcases hends with ⟨hentries, hpending, hhandles, hguards, hbatch⟩
  have hrunning : t.Running 0 (.conn 1 .shutdownInLoop) :=
    ⟨⟨[], 1, true⟩, [], by simp [hbatch], rfl, by simp [hpending]⟩
  have hdead : ¬ t.Live 1 := by
    apply OwnedSystem.not_live hentries ?_ hhandles
    · simp [hguards]
    · intro loop b
      by_cases hloop : loop = 0
      · simp only [hbatch, hloop, Function.update_self, Option.some.injEq]
        rintro rfl
        rfl
      · simp [hbatch, hloop]
    · intro loop f
      by_cases hloop : loop = 0
      · simp only [hpending, hloop, Function.update_self, List.mem_singleton]
        rintro rfl
        rfl
      · simp [hpending, hloop]
  refine ⟨t, hrun, hrunning, hdead, ?_⟩
  intro halways
  exact hdead (halways _ [] t (List.append_nil _).symm hrun 0 _ hrunning)

end Muduo
