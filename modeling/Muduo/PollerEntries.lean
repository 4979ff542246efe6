import Muduo.ConnectionOutcome

/-!
# Connections and pollers between steps

The state of the server between two steps, as far as registrations go: an open connection
is in the map and watched by the poller of its loop, a closed one is on its way out, and
one that is gone is unknown to every poller.  A step of one connection keeps this for all
the others.
-/

namespace Muduo

open Transitions

/-! ### Connections on their way out -/

/-- The functor ends in the `connectDestroyed` of its connection. -/
def LoopFunctor.ends : LoopFunctor → Bool
  | .conn _ .connectDestroyed | .removeConnectionInLoop _ => true
  | _ => false

namespace ServerSystem

/-- The removal of the connection is queued. -/
def Leaving (s : ServerSystem) (id : ChannelPtr) : Prop :=
  ∃ loop f, f ∈ s.pendingFunctor_ loop ∧ f.ends = true ∧ f.target = id

/-- The connection is in the server's map, or on its way out of it. -/
def Kept (s : ServerSystem) (id : ChannelPtr) : Prop :=
  (∃ name, (name, id) ∈ s.server.connections_) ∨ s.Leaving id

/-- The poller of the loop has the channel under the descriptor. -/
def Files (s : ServerSystem) (loop fd : Nat) (id : ChannelPtr) : Prop :=
  (s.pollers loop).m_channels fd = some id ∨
    ∃ event, (s.pollers loop).interest fd = some event ∧ event.data = id

/-- A connection with the poller of its loop. -/
def ctx (s : ServerSystem) (conn : TcpConnection) : ConnCtx := ⟨conn, s.pollers conn.loop_, []⟩

/-- What holds of one connection: it is open in the map and registered, closed on its way
    out, and then unknown to the pollers. -/
structure Sound (s : ServerSystem) (id : ChannelPtr) (conn : TcpConnection) : Prop where
  serverLoop : conn.serverLoop_ = s.server.loop_
  entry : conn.state_ ≠ .kDisconnected → (conn.name_, id) ∈ s.server.connections_
  leaving : s.Leaving id → conn.state_ = .kDisconnected
  opened : conn.state_ ≠ .kDisconnected → (s.ctx conn).Watching
  shut : conn.state_ = .kDisconnected → (s.ctx conn).Shut
  known : s.Kept id → (s.ctx conn).Known
  located : ∀ loop fd, s.Files loop fd id → loop = conn.loop_ ∧ fd = conn.channel_.fd_
  gone : ¬ s.Kept id → conn.channel_.index_ = kNew ∧ ∀ loop fd, ¬ s.Files loop fd id

/-- Two connections with descriptors and names of their own. -/
def Differ (conn conn' : TcpConnection) : Prop :=
  conn.channel_.fd_ ≠ conn'.channel_.fd_ ∧ conn.name_ ≠ conn'.name_

theorem Differ.symm {conn conn' : TcpConnection} (h : Differ conn conn') : Differ conn' conn :=
  ⟨h.1.symm, h.2.symm⟩

/-- The connection differs from the others that are kept. -/
def Apart (s : ServerSystem) (id : ChannelPtr) (conn : TcpConnection) : Prop :=
  ∀ other conn', other ≠ id → s.conns other = some conn' → s.Kept other → Differ conn' conn

/-- The state between steps, or inside a step of connection `busy`. -/
structure Tidy (busy : Option ChannelPtr) (s : ServerSystem) : Prop where
  placed : s.Placed
  sound : ∀ id conn, some id ≠ busy → s.conns id = some conn → s.Sound id conn
  apart : ∀ id conn, some id ≠ busy → s.conns id = some conn → s.Kept id →
    ∀ other conn', some other ≠ busy → other ≠ id → s.conns other = some conn' → s.Kept other →
      Differ conn' conn
  filed : ∀ loop fd id, s.Files loop fd id → ∃ conn, s.conns id = some conn
  named : ∀ name id, (name, id) ∈ s.server.connections_ →
    ∃ conn, s.conns id = some conn ∧ conn.name_ = name
  leaves : ∀ id, s.Leaving id → ∃ conn, s.conns id = some conn
  active : ∀ loop id mask, (id, mask) ∈ s.activeChannels_ loop → some id ≠ busy → s.Kept id
  distinct : ∀ loop, ((s.activeChannels_ loop).map Prod.fst).Nodup
  established : ∀ loop id, .conn id .connectEstablished ∉ s.pendingFunctor_ loop

/-- What a poller has belongs to a kept connection with that descriptor. -/
theorem Tidy.kept_of_files {s : ServerSystem} {loop fd : Nat} {id : ChannelPtr} (h : s.Tidy none)
    (hfiles : s.Files loop fd id) :
    ∃ conn, s.conns id = some conn ∧ s.Kept id ∧ conn.loop_ = loop ∧ conn.channel_.fd_ = fd := by
  obtain ⟨conn, hconn⟩ := h.filed loop fd id hfiles
  have hsound := h.sound id conn (by simp) hconn
  have hkept : s.Kept id := by
    by_contra hgone
    exact (hsound.gone hgone).2 loop fd hfiles
  obtain ⟨hloop, hfd⟩ := hsound.located loop fd hfiles
  exact ⟨conn, hconn, hkept, hloop.symm, hfd.symm⟩

theorem Tidy.apart_of_kept {s : ServerSystem} {id : ChannelPtr} {conn : TcpConnection}
    (h : s.Tidy none) (hconn : s.conns id = some conn) (hkept : s.Kept id) : s.Apart id conn :=
  fun other conn' hother hconn' hkept' =>
    h.apart id conn (by simp) hconn hkept other conn' (by simp) hother hconn' hkept'

/-- An open connection is in the map. -/
theorem Sound.kept_of_open {s : ServerSystem} {id : ChannelPtr} {conn : TcpConnection}
    (h : s.Sound id conn) (hopen : conn.state_ ≠ .kDisconnected) : s.Kept id :=
  Or.inl ⟨_, h.entry hopen⟩

/-- A registration that is as new leaves no entry under the descriptor. -/
theorem not_files_of_new {s : ServerSystem} {conn : TcpConnection} {id : ChannelPtr}
    (h : (s.ctx conn).Known) (hnew : conn.channel_.index_ = kNew) :
    ¬ s.Files conn.loop_ conn.channel_.fd_ id := by
  cases h with
  | new hindex hmap hkernel =>
    rintro (hfile | ⟨event, hevent, _⟩)
    · rw [show (s.pollers conn.loop_).m_channels conn.channel_.fd_ = none from hmap] at hfile
      cases hfile
    · rw [show (s.pollers conn.loop_).interest conn.channel_.fd_ = none from hkernel] at hevent
      cases hevent
  | added hindex => exact absurd (hindex.symm.trans hnew) (by decide)
  | deleted hindex => exact absurd (hindex.symm.trans hnew) (by decide)

/-! ### A method in the server -/

/-- What the methods of a connection put out. -/
def Emitted (o : Output) : Prop :=
  o.routine = true ∨ o = .closeCallback ∨ o = .queueInLoop .shutdownInLoop

/-- What a method of connection `id`, which leaves it as `c`, does to the server.  Removals
    are queued and entries erased only if it calls `closeCallback_`. -/
structure Called (s t : ServerSystem) (id : ChannelPtr) (conn : TcpConnection) (c : ConnCtx) :
    Prop where
  conns_eq : t.conns = Function.update s.conns id (some c.conn)
  pollers_eq : t.pollers = Function.update s.pollers c.conn.loop_ c.poller_
  active_eq : t.activeChannels_ = s.activeChannels_
  entries : ∀ item ∈ t.server.connections_, item ∈ s.server.connections_
  effect : Effect (fun f => f.target = id ∧ (f.ends = true → .closeCallback ∈ c.outputs) ∧
      f ≠ .conn id .connectEstablished)
    (fun name => .closeCallback ∈ c.outputs ∧ name = conn.name_) s t

theorem emitted_reacts {thread loop : Nat} {id : ChannelPtr} {conn : TcpConnection}
    {outputs : List Output} :
    Reacts (fun o => Emitted o ∧ o ∈ outputs)
      (fun f => f.target = id ∧ (f.ends = true → .closeCallback ∈ outputs) ∧
        f ≠ .conn id .connectEstablished)
      (fun name => .closeCallback ∈ outputs ∧ name = conn.name_) thread loop id conn.name_ := by
  have hposts : ∀ f : ConnFunctor, f.isCallback = true ∨ f = .shutdownInLoop →
      (LoopFunctor.conn id f).ends = false ∧ f ≠ .connectEstablished := by
    rintro f (hf | rfl)
    · cases f with
      | writeCompleteCallback | highWaterMarkCallback => exact ⟨rfl, by simp⟩
      | _ => cases hf
    · exact ⟨rfl, by simp⟩
  constructor
  · rintro f ⟨hemitted, _⟩
    have hf : f.isCallback = true ∨ f = .shutdownInLoop := by
      rcases hemitted with hroutine | hclose | hshutdown
      · exact Or.inl hroutine
      · cases hclose
      · cases hshutdown
        exact Or.inr rfl
    obtain ⟨hends, hest⟩ := hposts f hf
    exact ⟨rfl, by simp [hends], by simp [hest]⟩
  · rintro ⟨_, hclose⟩
    exact ⟨fun _ => ⟨hclose, rfl⟩, ⟨rfl, fun _ => hclose, by simp⟩, rfl, fun _ => hclose, by simp⟩

theorem foldlM_react_effect {s t : ServerSystem} {thread : Nat} {id : ChannelPtr}
    {conn : TcpConnection} {outputs os : List Output}
    (hos : ∀ o ∈ os, Emitted o ∧ o ∈ outputs)
    (hfold : os.foldlM (react thread id conn) s = some t) :
    Effect (fun f => f.target = id ∧ (f.ends = true → .closeCallback ∈ outputs) ∧
        f ≠ .conn id .connectEstablished)
      (fun name => .closeCallback ∈ outputs ∧ name = conn.name_) s t := by
  refine foldlM_invariant (I := Effect _ _ s) ?_ (Effect.refl s) hfold
  intro u o v ho hu hreact
  exact hu.trans (react_effect emitted_reacts (hos o ho) hreact)

theorem react_keeps {s t : ServerSystem} {thread : Nat} {id : ChannelPtr} {conn : TcpConnection}
    {o : Output} (hreact : react thread id conn s o = some t) :
    t.conns = s.conns ∧ t.pollers = s.pollers ∧ t.activeChannels_ = s.activeChannels_ ∧
      ∀ item ∈ t.server.connections_, item ∈ s.server.connections_ := by
  simp only [react] at hreact
  split at hreact
  · cases hreact
    exact ⟨rfl, rfl, rfl, fun _ hitem => hitem⟩
  · split at hreact
    · split at hreact
      · cases hreact
        split
        · exact ⟨rfl, rfl, rfl, fun item => List.mem_of_mem_filter⟩
        · exact ⟨rfl, rfl, rfl, fun item => List.mem_of_mem_filter⟩
      · cases hreact
        exact ⟨rfl, rfl, rfl, fun _ hitem => hitem⟩
    · cases hreact
  · cases hreact
    exact ⟨rfl, rfl, rfl, fun _ hitem => hitem⟩

/-- A call of a method, as what it leaves. -/
theorem call_called {s t : ServerSystem} {thread : Nat} {id : ChannelPtr} {what : List LoopStep}
    {method : ConnCtx → Except Fault ConnCtx}
    (hmethod : ∀ c c', method c = .ok c' → c.Reaches Emitted c')
    (hcall : s.call thread id what method = some t) :
    ∃ conn c, s.conns id = some conn ∧ method (s.ctx conn) = .ok c ∧ s.Called t id conn c := by
  obtain ⟨conn, c, hconn, hc, hfold⟩ := call_eq_some hcall
  have hreaches := hmethod _ c hc
  obtain ⟨os, hos, houtputs⟩ := hreaches.outputs
  rw [List.nil_append] at hos
  have hfinal : t.conns = (s.commit thread id what c).conns ∧
      t.pollers = (s.commit thread id what c).pollers ∧
      t.activeChannels_ = s.activeChannels_ ∧
      ∀ item ∈ t.server.connections_, item ∈ s.server.connections_ := by
    refine foldlM_invariant (I := fun u : ServerSystem =>
      u.conns = (s.commit thread id what c).conns ∧
        u.pollers = (s.commit thread id what c).pollers ∧
        u.activeChannels_ = s.activeChannels_ ∧
        ∀ item ∈ u.server.connections_, item ∈ s.server.connections_) ?_ ?_ hfold
    · rintro u o v _ ⟨hconns, hpollers, hactive, hentries⟩ hreact
      obtain ⟨hconns', hpollers', hactive', hentries'⟩ := react_keeps hreact
      exact ⟨hconns'.trans hconns, hpollers'.trans hpollers, hactive'.trans hactive,
        fun item hitem => hentries item (hentries' item hitem)⟩
    · exact ⟨rfl, rfl, rfl, fun _ hitem => hitem⟩
  refine ⟨conn, c, hconn, hc, hfinal.1, hfinal.2.1, hfinal.2.2.1, hfinal.2.2.2, ?_⟩
  have hname : c.conn.name_ = conn.name_ := hreaches.name_eq
  rw [← hname]
  have hcommit : Effect (fun f => f.target = id ∧ (f.ends = true → .closeCallback ∈ c.outputs) ∧
      f ≠ .conn id .connectEstablished)
    (fun name => .closeCallback ∈ c.outputs ∧ name = c.conn.name_) s (s.commit thread id what c) :=
    Effect.of_eq rfl rfl rfl rfl
  refine hcommit.trans (foldlM_react_effect ?_ hfold)
  intro o ho
  refine ⟨?_, ho⟩
  rw [hos] at ho
  exact houtputs o ho

/-- The poller after the method, as far as the others are concerned. -/
structure PollerFrame (s : ServerSystem) (id : ChannelPtr) (conn : TcpConnection) (c : ConnCtx) :
    Prop where
  loop_eq : c.conn.loop_ = conn.loop_
  files : ∀ fd other, other ≠ id →
    (c.poller_.m_channels fd = some other ∨
      ∃ event, c.poller_.interest fd = some event ∧ event.data = other) →
    s.Files conn.loop_ fd other
  same : ∀ other conn', other ≠ id → s.conns other = some conn' → s.Kept other →
    c.poller_.m_channels conn'.channel_.fd_ = (s.pollers conn.loop_).m_channels conn'.channel_.fd_ ∧
      c.poller_.interest conn'.channel_.fd_ = (s.pollers conn.loop_).interest conn'.channel_.fd_

/-- A method that leaves the poller alone. -/
theorem PollerFrame.of_same {s : ServerSystem} {id : ChannelPtr} {conn : TcpConnection}
    {c : ConnCtx} (hloop : c.conn.loop_ = conn.loop_)
    (hpoller : c.poller_ = s.pollers conn.loop_) : s.PollerFrame id conn c := by
  refine ⟨hloop, ?_, ?_⟩
  · intro fd other _ hfiles
    rw [hpoller] at hfiles
    exact hfiles
  · intro other conn' _ _ _
    rw [hpoller]
    exact ⟨rfl, rfl⟩

/-- A method of a connection that has its descriptor for itself. -/
theorem PollerFrame.of_apart {P : Output → Prop} {s : ServerSystem} {id : ChannelPtr}
    {conn : TcpConnection} {c : ConnCtx} (hreaches : (s.ctx conn).Reaches P c)
    (hptr : conn.channelPtr = id) (hknown : (s.ctx conn).Known) (hapart : s.Apart id conn) :
    s.PollerFrame id conn c := by
  have hbeside := hreaches.beside
  have hptr' : c.conn.channelPtr = id := hreaches.framed.ptr_eq.trans hptr
  refine ⟨hreaches.framed.loop_eq, ?_, ?_⟩
  · intro fd other hother hfiles
    by_cases hfd : fd = c.conn.channel_.fd_
    · subst hfd
      exfalso
      have hown : ∀ other', c.poller_.m_channels c.conn.channel_.fd_ = some other' ∨
          (∃ event, c.poller_.interest c.conn.channel_.fd_ = some event ∧ event.data = other') →
          other' = id := by
        intro other' hentry
        cases hreaches.known hknown with
        | new _ hmap hkernel =>
          rw [hmap, hkernel] at hentry
          simp at hentry
        | added _ hmap hkernel =>
          rw [hmap, hkernel, hptr'] at hentry
          simp only [Option.some.injEq, exists_eq_left'] at hentry
          exact (or_self_iff.mp hentry).symm
        | deleted _ hmap hkernel =>
          rw [hmap, hkernel, hptr'] at hentry
          simpa [eq_comm] using hentry
      exact hother (hown other hfiles)
    · rw [hbeside.fd_eq] at hfd
      have hsame := hbeside.elsewhere fd hfd
      rw [hsame.1, hsame.2] at hfiles
      exact hfiles
  · intro other conn' hother hconn' hkept'
    exact hbeside.elsewhere _ (hapart other conn' hother hconn' hkept').1

section Others

variable {s t : ServerSystem} {id other : ChannelPtr} {conn : TcpConnection} {c : ConnCtx}

theorem Called.conns_self (h : s.Called t id conn c) : t.conns id = some c.conn := by
  rw [h.conns_eq, Function.update_self]

theorem Called.conns_other (h : s.Called t id conn c) (hother : other ≠ id) :
    t.conns other = s.conns other := by
  rw [h.conns_eq, Function.update_of_ne hother]

theorem Called.leaving_other (h : s.Called t id conn c) (hother : other ≠ id) :
    t.Leaving other ↔ s.Leaving other := by
  constructor
  · rintro ⟨loop, f, hf, hends, htarget⟩
    rcases h.effect.added loop f hf with hold | ⟨htarget', _⟩
    · exact ⟨loop, f, hold, hends, htarget⟩
    · exact absurd (htarget.symm.trans htarget') hother
  · rintro ⟨loop, f, hf, hends, htarget⟩
    exact ⟨loop, f, h.effect.kept loop f hf, hends, htarget⟩

theorem Called.entry_other (h : s.Called t id conn c) (hs : s.Tidy (some id))
    (hapart : .closeCallback ∈ c.outputs → s.Apart id conn) (hother : other ≠ id) {name : String} :
    (name, other) ∈ t.server.connections_ ↔ (name, other) ∈ s.server.connections_ := by
  constructor
  · exact h.entries _
  · intro hentry
    apply h.effect.entries _ hentry
    rintro ⟨hcloses, hname⟩
    obtain ⟨conn', hconn', hname'⟩ := hs.named name other hentry
    exact (hapart hcloses other conn' hother hconn' (Or.inl ⟨name, hentry⟩)).2 (hname'.trans hname)

theorem Called.kept_other (h : s.Called t id conn c) (hs : s.Tidy (some id))
    (hapart : .closeCallback ∈ c.outputs → s.Apart id conn) (hother : other ≠ id) :
    t.Kept other ↔ s.Kept other := by
  simp only [Kept, h.entry_other hs hapart hother, h.leaving_other hother]

theorem Called.pollers_self (h : s.Called t id conn c) (hloop : c.conn.loop_ = conn.loop_) :
    t.pollers conn.loop_ = c.poller_ := by
  rw [h.pollers_eq, hloop, Function.update_self]

theorem Called.pollers_other (h : s.Called t id conn c) (hloop : c.conn.loop_ = conn.loop_)
    {loop : Nat} (hne : loop ≠ conn.loop_) : t.pollers loop = s.pollers loop := by
  rw [h.pollers_eq, hloop, Function.update_of_ne hne]

theorem Called.files_other (h : s.Called t id conn c) (hframe : s.PollerFrame id conn c)
    (hother : other ≠ id) {loop fd : Nat} (hfiles : t.Files loop fd other) :
    s.Files loop fd other := by
  by_cases hloop : loop = conn.loop_
  · subst hloop
    rw [Files, h.pollers_self hframe.loop_eq] at hfiles
    exact hframe.files fd other hother hfiles
  · rw [Files, h.pollers_other hframe.loop_eq hloop] at hfiles
    exact hfiles

theorem Called.sound_other (h : s.Called t id conn c) (hs : s.Tidy (some id))
    (hframe : s.PollerFrame id conn c)
    (hapart : .closeCallback ∈ c.outputs → s.Apart id conn) (hother : other ≠ id)
    {conn' : TcpConnection} (hconn' : s.conns other = some conn') : t.Sound other conn' := by
  have hsound := hs.sound other conn' (by simpa using hother) hconn'
  have hkept : t.Kept other ↔ s.Kept other := h.kept_other hs hapart hother
  refine ⟨hsound.serverLoop.trans h.effect.loop_eq.symm, ?_, ?_, ?_, ?_, ?_, ?_, ?_⟩
  · intro hopen
    exact (h.entry_other hs hapart hother).mpr (hsound.entry hopen)
  · intro hleaving
    exact hsound.leaving ((h.leaving_other hother).mp hleaving)
  · intro hopen
    obtain ⟨hadded, hreads⟩ := hsound.opened hopen
    exact ⟨hadded, hreads⟩
  · exact hsound.shut
  · intro hkept'
    have hknown := hsound.known (hkept.mp hkept')
    by_cases hloop : conn'.loop_ = conn.loop_
    · refine EpollPoller.Registered.of_same hknown ?_
      have hsame := hframe.same other conn' hother hconn' (hkept.mp hkept')
      simp only [ctx, hloop, h.pollers_self hframe.loop_eq]
      exact hsame
    · rw [ConnCtx.Known, ctx, h.pollers_other hframe.loop_eq hloop]
      exact hknown
  · intro loop fd hfiles
    exact hsound.located loop fd (h.files_other hframe hother hfiles)
  · intro hgone
    obtain ⟨hindex, hnone⟩ := hsound.gone fun hkept' => hgone (hkept.mpr hkept')
    exact ⟨hindex, fun loop fd hfiles => hnone loop fd (h.files_other hframe hother hfiles)⟩

/-- Everything but the connection itself is as tidy as before. -/
theorem Called.tidy (h : s.Called t id conn c) (hs : s.Tidy (some id))
    (hconn : s.conns id = some conn) (hname : c.conn.name_ = conn.name_) (hplaced : t.Placed)
    (hframe : s.PollerFrame id conn c)
    (hapart : .closeCallback ∈ c.outputs → s.Apart id conn) : t.Tidy (some id) := by
  have hexists : ∀ {other conn'}, s.conns other = some conn' →
      ∃ conn'', t.conns other = some conn'' ∧ conn''.name_ = conn'.name_ := by
    intro other conn' hconn'
    by_cases hother : other = id
    · subst hother
      cases hconn.symm.trans hconn'
      exact ⟨c.conn, h.conns_self, hname⟩
    · exact ⟨conn', by rw [h.conns_other hother, hconn'], rfl⟩
  refine ⟨hplaced, ?_, ?_, ?_, ?_, ?_, ?_, ?_, ?_⟩
  · intro other conn' hbusy hconn'
    have hother : other ≠ id := by simpa using hbusy
    rw [h.conns_other hother] at hconn'
    exact h.sound_other hs hframe hapart hother hconn'
  · intro a conn' ha hconn' hkept b conn'' hb hab hconn'' hkept'
    have ha' : a ≠ id := by simpa using ha
    have hb' : b ≠ id := by simpa using hb
    rw [h.conns_other ha'] at hconn'
    rw [h.conns_other hb'] at hconn''
    exact hs.apart a conn' ha hconn' ((h.kept_other hs hapart ha').mp hkept) b conn'' hb hab hconn''
      ((h.kept_other hs hapart hb').mp hkept')
  · intro loop fd other hfiles
    by_cases hother : other = id
    · subst hother
      exact ⟨c.conn, h.conns_self⟩
    · obtain ⟨conn', hconn'⟩ := hs.filed loop fd other (h.files_other hframe hother hfiles)
      exact ⟨conn', by rw [h.conns_other hother, hconn']⟩
  · intro name other hentry
    obtain ⟨conn', hconn', hname'⟩ := hs.named name other (h.entries _ hentry)
    obtain ⟨conn'', hconn'', hname''⟩ := hexists hconn'
    exact ⟨conn'', hconn'', hname''.trans hname'⟩
  · intro other hleaving
    by_cases hother : other = id
    · subst hother
      exact ⟨c.conn, h.conns_self⟩
    · obtain ⟨conn', hconn'⟩ := hs.leaves other ((h.leaving_other hother).mp hleaving)
      exact ⟨conn', by rw [h.conns_other hother, hconn']⟩
  · intro loop other mask hmem hbusy
    rw [h.active_eq] at hmem
    have hother : other ≠ id := by simpa using hbusy
    exact (h.kept_other hs hapart hother).mpr (hs.active loop other mask hmem hbusy)
  · intro loop
    rw [h.active_eq]
    exact hs.distinct loop
  · intro loop other hest
    rcases h.effect.added loop _ hest with hold | ⟨htarget, _, hne⟩
    · exact hs.established loop other hold
    · have hid : other = id := htarget
      rw [hid] at hne
      exact hne rfl

end Others

/-- The step of the connection is over. -/
theorem Tidy.finish {s : ServerSystem} {id : ChannelPtr} (h : s.Tidy (some id))
    (hsound : ∀ conn, s.conns id = some conn → s.Sound id conn ∧ (s.Kept id → s.Apart id conn))
    (hactive : ∀ loop mask, (id, mask) ∈ s.activeChannels_ loop → s.Kept id) : s.Tidy none := by
  refine ⟨h.placed, ?_, ?_, h.filed, h.named, h.leaves, ?_, h.distinct, h.established⟩
  · intro other conn' _ hconn'
    by_cases hother : other = id
    · subst hother
      exact (hsound conn' hconn').1
    · exact h.sound other conn' (by simpa using hother) hconn'
  · intro a conn ha hconn hkept b conn' hb hab hconn' hkept'
    by_cases ha' : a = id
    · subst ha'
      exact (hsound conn hconn).2 hkept b conn' hab hconn' hkept'
    · by_cases hb' : b = id
      · subst hb'
        exact ((hsound conn' hconn').2 hkept' a conn (Ne.symm hab) hconn hkept).symm
      · exact h.apart a conn (by simpa using ha') hconn hkept b conn' (by simpa using hb') hab
          hconn' hkept'
  · intro loop other mask hmem _
    by_cases hother : other = id
    · subst hother
      exact hactive loop mask hmem
    · exact h.active loop other mask hmem (by simpa using hother)

/-- A step of the connection begins. -/
theorem Tidy.begin_ {s : ServerSystem} (h : s.Tidy none) (id : ChannelPtr) : s.Tidy (some id) :=
  ⟨h.placed, fun other conn _ => h.sound other conn (by simp),
    fun a conn _ hconn hkept b conn' _ => h.apart a conn (by simp) hconn hkept b conn' (by simp),
    h.filed, h.named, h.leaves,
    fun loop other mask hmem _ => h.active loop other mask hmem (by simp), h.distinct,
    h.established⟩

/-- Steps that change queues and entries, and at most add the connection they are about. -/
theorem Tidy.transfer {busy : Option ChannelPtr} {s t : ServerSystem} (h : s.Tidy busy)
    (hplaced : t.Placed) (hgrow : ∀ id conn, s.conns id = some conn → t.conns id = some conn)
    (hback : ∀ id, some id ≠ busy → t.conns id = s.conns id) (hpollers : t.pollers = s.pollers)
    (hloop : t.server.loop_ = s.server.loop_)
    (hentry : ∀ name id, some id ≠ busy →
      ((name, id) ∈ t.server.connections_ ↔ (name, id) ∈ s.server.connections_))
    (hnamed : ∀ name id, (name, id) ∈ t.server.connections_ →
      ∃ conn, t.conns id = some conn ∧ conn.name_ = name)
    (hleaving : ∀ id, some id ≠ busy → (t.Leaving id ↔ s.Leaving id))
    (hleaves : ∀ id, t.Leaving id → ∃ conn, t.conns id = some conn)
    (hactive : ∀ loop id mask, (id, mask) ∈ t.activeChannels_ loop → some id ≠ busy → s.Kept id)
    (hdistinct : ∀ loop, ((t.activeChannels_ loop).map Prod.fst).Nodup)
    (hestablished : ∀ loop id, .conn id .connectEstablished ∉ t.pendingFunctor_ loop) :
    t.Tidy busy := by
  have hkept : ∀ {id}, some id ≠ busy → (t.Kept id ↔ s.Kept id) := by
    intro id hid
    simp only [Kept, hentry _ id hid, hleaving id hid]
  have hfiles : ∀ {loop fd id}, t.Files loop fd id ↔ s.Files loop fd id := by
    intro loop fd id
    rw [Files, Files, hpollers]
  have hctx : ∀ conn, t.ctx conn = s.ctx conn := by
    intro conn
    rw [ctx, ctx, hpollers]
  refine ⟨hplaced, ?_, ?_, ?_, hnamed, hleaves, ?_, hdistinct, hestablished⟩
  · intro id conn hid hconn
    rw [hback id hid] at hconn
    have hsound := h.sound id conn hid hconn
    refine ⟨hsound.serverLoop.trans hloop.symm,
      fun hopen => (hentry _ id hid).mpr (hsound.entry hopen),
      fun hl => hsound.leaving ((hleaving id hid).mp hl), ?_, ?_, ?_, ?_, ?_⟩
    · rw [hctx]
      exact hsound.opened
    · rw [hctx]
      exact hsound.shut
    · rw [hctx, hkept hid]
      exact hsound.known
    · intro loop fd hf
      exact hsound.located loop fd (hfiles.mp hf)
    · rw [hkept hid]
      intro hgone
      exact (hsound.gone hgone).imp_right fun hnone loop fd hf => hnone loop fd (hfiles.mp hf)
  · intro a conn ha hconn hka b conn' hb hab hconn' hkb
    rw [hback a ha] at hconn
    rw [hback b hb] at hconn'
    exact h.apart a conn ha hconn ((hkept ha).mp hka) b conn' hb hab hconn' ((hkept hb).mp hkb)
  · intro loop fd id hf
    obtain ⟨conn, hconn⟩ := h.filed loop fd id (hfiles.mp hf)
    exact ⟨conn, hgrow id conn hconn⟩
  · intro loop id mask hmem hid
    exact (hkept hid).mpr (hactive loop id mask hmem hid)

/-! ### Methods that leave the connection open or closed -/

section Self

variable {P : Output → Prop} {s t : ServerSystem} {id : ChannelPtr} {conn : TcpConnection}
  {c : ConnCtx}

theorem Called.located (h : s.Called t id conn c) (hreaches : (s.ctx conn).Reaches P c)
    (hlocated : ∀ loop fd, s.Files loop fd id → loop = conn.loop_ ∧ fd = conn.channel_.fd_) :
    ∀ loop fd, t.Files loop fd id → loop = c.conn.loop_ ∧ fd = c.conn.channel_.fd_ := by
  have hloop : c.conn.loop_ = conn.loop_ := hreaches.framed.loop_eq
  have hfd : c.conn.channel_.fd_ = conn.channel_.fd_ := hreaches.beside.fd_eq
  intro loop fd hfiles
  rw [hloop, hfd]
  by_cases hl : loop = conn.loop_
  · subst hl
    refine ⟨rfl, ?_⟩
    by_contra hne
    have hsame : (s.ctx conn).poller_ = s.pollers conn.loop_ := rfl
    have helsewhere := hreaches.beside.elsewhere fd hne
    rw [Files, h.pollers_self hloop, helsewhere.1, helsewhere.2, hsame] at hfiles
    exact hne (hlocated _ _ hfiles).2
  · rw [Files, h.pollers_other hloop hl] at hfiles
    exact absurd (hlocated loop fd hfiles).1 hl

theorem Called.known (h : s.Called t id conn c) (hreaches : (s.ctx conn).Reaches P c)
    (hknown : (s.ctx conn).Known) : (t.ctx c.conn).Known := by
  have hloop : c.conn.loop_ = conn.loop_ := hreaches.framed.loop_eq
  have hpoller : t.pollers c.conn.loop_ = c.poller_ := by rw [hloop, h.pollers_self hloop]
  rw [ConnCtx.Known, ctx, hpoller]
  exact hreaches.known hknown

theorem Called.kept_of_kept (h : s.Called t id conn c) (hquiet : .closeCallback ∉ c.outputs) :
    t.Kept id ↔ s.Kept id := by
  constructor
  · rintro (⟨name, hentry⟩ | ⟨loop, f, hf, hends, htarget⟩)
    · exact Or.inl ⟨name, h.entries _ hentry⟩
    · rcases h.effect.added loop f hf with hold | ⟨_, hcloses, _⟩
      · exact Or.inr ⟨loop, f, hold, hends, htarget⟩
      · exact absurd (hcloses hends) hquiet
  · rintro (⟨name, hentry⟩ | ⟨loop, f, hf, hends, htarget⟩)
    · exact Or.inl ⟨name, h.effect.entries _ hentry fun hd => hquiet hd.1⟩
    · exact Or.inr ⟨loop, f, h.effect.kept loop f hf, hends, htarget⟩

/-- A connection that is open or closed as before is as sound as before. -/
theorem Called.sound_steady (h : s.Called t id conn c) (hsound : s.Sound id conn)
    (hreaches : (s.ctx conn).Reaches P c) (hsteady : (s.ctx conn).Steady c) :
    t.Sound id c.conn := by
  have hquiet : .closeCallback ∉ c.outputs := by
    rw [← hsteady.outputs]
    simp [ctx]
  have hopen : c.conn.state_ = .kDisconnected ↔ conn.state_ = .kDisconnected := hsteady.open_iff
  have hloop : c.conn.loop_ = conn.loop_ := hreaches.framed.loop_eq
  refine ⟨?_, ?_, ?_, ?_, ?_, ?_, h.located hreaches hsound.located, ?_⟩
  · exact (hsteady.loops_eq.1.trans hsound.serverLoop).trans h.effect.loop_eq.symm
  · intro hstate
    have hname : c.conn.name_ = conn.name_ := hreaches.name_eq
    rw [hname]
    exact h.effect.entries _ (hsound.entry (by rwa [Ne, ← hopen])) fun hd => hquiet hd.1
  · rintro ⟨loop, f, hf, hends, htarget⟩
    rcases h.effect.added loop f hf with hold | ⟨_, hcloses, _⟩
    · exact hopen.mpr (hsound.leaving ⟨loop, f, hold, hends, htarget⟩)
    · exact absurd (hcloses hends) hquiet
  · intro hstate
    obtain ⟨hadded, hreads⟩ := hsteady.watching (hsound.opened (by rwa [Ne, ← hopen]))
    exact ⟨hadded, hreads⟩
  · intro hstate
    exact hsteady.keeps_shut (hsound.shut (hopen.mp hstate))
  · intro hkept
    exact h.known hreaches (hsound.known ((h.kept_of_kept hquiet).mp hkept))
  · intro hgone
    have hgone' : ¬ s.Kept id := fun hkept => hgone ((h.kept_of_kept hquiet).mpr hkept)
    have hshut : (s.ctx conn).Shut := by
      apply hsound.shut
      by_contra hopen'
      exact hgone' (hsound.kept_of_open hopen')
    obtain ⟨hchannel, hpoller⟩ := hsteady.shut hshut
    obtain ⟨hindex, hnone⟩ := hsound.gone hgone'
    refine ⟨by rw [hchannel]; exact hindex, ?_⟩
    intro loop fd hfiles
    apply hnone loop fd
    by_cases hl : loop = conn.loop_
    · subst hl
      rw [Files, h.pollers_self hloop, hpoller] at hfiles
      exact hfiles
    · rw [Files, h.pollers_other hloop hl] at hfiles
      exact hfiles

end Self

/-- Where the connection is known to itself, its methods stay clear of the others. -/
theorem Tidy.frame_steady {P : Output → Prop} {s : ServerSystem} {id : ChannelPtr}
    {conn : TcpConnection} {c : ConnCtx} (h : s.Tidy none) (hconn : s.conns id = some conn)
    (hreaches : (s.ctx conn).Reaches P c) (hsteady : (s.ctx conn).Steady c) :
    s.PollerFrame id conn c := by
  have hsound := h.sound id conn (by simp) hconn
  by_cases hkept : s.Kept id
  · exact .of_apart hreaches (h.placed.ptr id conn hconn) (hsound.known hkept)
      (h.apart_of_kept hconn hkept)
  · have hshut : (s.ctx conn).Shut := by
      apply hsound.shut
      by_contra hopen
      exact hkept (hsound.kept_of_open hopen)
    exact .of_same hreaches.framed.loop_eq (hsteady.shut hshut).2

end ServerSystem

end Muduo
