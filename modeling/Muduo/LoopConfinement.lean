import Muduo.ConnectionFrames
import Muduo.PollerRegistration
import Muduo.TcpServer
import Muduo.Transitions

/-!
# Loop-thread confinement

Every poller entry, every active channel and every queued functor belongs to a
connection of the loop it is found at (`Placed`).  So a loop's thread runs methods of its
own connections only, and what a user's thread asks for is queued.  The one exception is
`newConnection`: it posts `connectEstablished` to the server's loop, whose thread is the
one that runs `newConnection`, so a connection of a worker is established by the wrong
thread.  Confinement therefore holds exactly while `getNextLoop` picks the server's own
loop, that is, with no worker loops or no connection at all.
-/

namespace Muduo

open Transitions

/-! ### What a method leaves alone -/

/-- The connection stays on its loop at its address, and a new entry of the interest
    list is its own. -/
structure ConnCtx.Framed (c c' : ConnCtx) : Prop where
  loop_eq : c'.conn.loop_ = c.conn.loop_
  ptr_eq : c'.conn.channelPtr = c.conn.channelPtr
  entries : ∀ fd event, c'.poller_.interest fd = some event →
    c.poller_.interest fd = some event ∨ event.data = c.conn.channelPtr

theorem EpollPoller.updateChannel_interest {p : EpollPoller} {ptr : ChannelPtr} {ch : Channel}
    {fd : Nat} {event : EpollEvent} (h : (p.updateChannel ptr ch).2.interest fd = some event) :
    p.interest fd = some event ∨ event.data = ptr := by
  simp only [updateChannel] at h
  split at h
  · have hentry := update_interest h
    split at hentry <;> exact hentry
  · split at h <;> exact update_interest h

theorem EpollPoller.removeChannel_interest {p : EpollPoller} {ptr : ChannelPtr} {ch : Channel}
    {fd : Nat} {event : EpollEvent} (h : (p.removeChannel ptr ch).2.interest fd = some event) :
    p.interest fd = some event ∨ event.data = ptr := by
  simp only [removeChannel] at h
  split at h
  · have hentry := update_interest h
    exact hentry
  · exact Or.inl h

namespace ConnCtx

theorem Framed.of_eq {c c' : ConnCtx} (hloop : c'.conn.loop_ = c.conn.loop_)
    (hptr : c'.conn.channelPtr = c.conn.channelPtr) (hpoller : c'.poller_ = c.poller_) :
    c.Framed c' := by
  refine ⟨hloop, hptr, ?_⟩
  intro fd event hentry
  rw [hpoller] at hentry
  exact Or.inl hentry

theorem Framed.refl (c : ConnCtx) : c.Framed c := Framed.of_eq rfl rfl rfl

theorem Framed.trans {a b c : ConnCtx} (hab : a.Framed b) (hbc : b.Framed c) : a.Framed c := by
  refine ⟨hbc.loop_eq.trans hab.loop_eq, hbc.ptr_eq.trans hab.ptr_eq, ?_⟩
  intro fd event hentry
  rcases hbc.entries fd event hentry with hold | hown
  · exact hab.entries fd event hold
  · exact Or.inr (hown.trans hab.ptr_eq)

theorem Move.framed {P : Output → Prop} {c c' : ConnCtx} (h : Move P c c') : c.Framed c' := by
  cases h with
  | setEvents _ events => exact ⟨rfl, rfl, fun _ _ => EpollPoller.updateChannel_interest⟩
  | remove => exact ⟨rfl, rfl, fun _ _ => EpollPoller.removeChannel_interest⟩
  | _ => exact Framed.of_eq rfl rfl rfl

theorem Reaches.framed {P : Output → Prop} {c c' : ConnCtx} (h : c.Reaches P c') : c.Framed c' :=
  h.frame Framed.refl (fun _ _ _ => Framed.trans) fun _ _ => Move.framed

end ConnCtx

/-! ### Whose things a loop holds -/

/-- The step ran on the thread of the connection's loop. -/
def LogEntry.Own (entry : LogEntry) : Prop := entry.thread = entry.loop

def LogEntry.RanOn (thread loop : Nat) (entry : LogEntry) : Prop :=
  entry.thread = thread ∧ entry.loop = loop

theorem LogEntry.RanOn.own {thread loop : Nat} {entry : LogEntry} (h : entry.RanOn thread loop)
    (hsame : thread = loop) : entry.Own := by
  rcases h with ⟨hthread, hloop⟩
  rw [LogEntry.Own, hthread, hloop, hsame]

namespace ServerSystem

/-- Connection `id` exists and belongs to `loop`. -/
def OwnedBy (s : ServerSystem) (id : ChannelPtr) (loop : Nat) : Prop :=
  ∃ conn, s.conns id = some conn ∧ conn.loop_ = loop

/-- Every loop holds entries, active channels and functors of its own connections. -/
structure Placed (s : ServerSystem) : Prop where
  ptr : ∀ id conn, s.conns id = some conn → conn.channelPtr = id
  registered : ∀ loop fd event, (s.pollers loop).interest fd = some event →
    s.OwnedBy event.data loop
  active : ∀ loop id mask, (id, mask) ∈ s.activeChannels_ loop → s.OwnedBy id loop
  pending : ∀ loop id f, .conn id f ∈ s.pendingFunctor_ loop → s.OwnedBy id loop

def Confined (s : ServerSystem) : Prop := ∀ entry ∈ s.log, entry.Own

/-- What a step keeps: owners, the server's loops, and the placement; the log grows by
    entries with `P`. -/
structure Grows (P : LogEntry → Prop) (s t : ServerSystem) : Prop where
  placed : t.Placed
  owned : ∀ id loop, s.OwnedBy id loop → t.OwnedBy id loop
  loop_eq : t.server.loop_ = s.server.loop_
  loops_eq : t.server.threadPool_.loops_ = s.server.threadPool_.loops_
  base_eq : t.server.threadPool_.baseLoop_ = s.server.threadPool_.baseLoop_
  log_eq : ∃ entries, t.log = s.log ++ entries ∧ ∀ entry ∈ entries, P entry

/-- A step that does nothing on a loop, so that the log stays as it is. -/
theorem Grows.of_log_eq {P : LogEntry → Prop} {s t : ServerSystem} (hplaced : t.Placed)
    (howned : ∀ id loop, s.OwnedBy id loop → t.OwnedBy id loop)
    (hloop : t.server.loop_ = s.server.loop_)
    (hloops : t.server.threadPool_.loops_ = s.server.threadPool_.loops_)
    (hbase : t.server.threadPool_.baseLoop_ = s.server.threadPool_.baseLoop_)
    (hlog : t.log = s.log) : Grows P s t := by
  refine ⟨hplaced, howned, hloop, hloops, hbase, [], ?_, ?_⟩
  · rw [hlog, List.append_nil]
  · intro entry hentry
    exact absurd hentry List.not_mem_nil

theorem Grows.refl {P : LogEntry → Prop} {s : ServerSystem} (h : s.Placed) : Grows P s s :=
  Grows.of_log_eq h (fun _ _ howned => howned) rfl rfl rfl rfl

theorem Grows.trans {P : LogEntry → Prop} {s t u : ServerSystem} (hst : Grows P s t)
    (htu : Grows P t u) : Grows P s u := by
  rcases hst.log_eq with ⟨first, hfirst, hfirstP⟩
  rcases htu.log_eq with ⟨second, hsecond, hsecondP⟩
  refine ⟨htu.placed, ?_, htu.loop_eq.trans hst.loop_eq, htu.loops_eq.trans hst.loops_eq,
    htu.base_eq.trans hst.base_eq, first ++ second, ?_, ?_⟩
  · intro id loop howned
    exact htu.owned id loop (hst.owned id loop howned)
  · rw [hsecond, hfirst, List.append_assoc]
  · intro entry hentry
    rcases List.mem_append.mp hentry with hin | hin
    · exact hfirstP entry hin
    · exact hsecondP entry hin

theorem Grows.mono {P Q : LogEntry → Prop} {s t : ServerSystem} (h : Grows P s t)
    (himp : ∀ entry, P entry → Q entry) : Grows Q s t := by
  rcases h.log_eq with ⟨entries, hlog, hentries⟩
  exact ⟨h.placed, h.owned, h.loop_eq, h.loops_eq, h.base_eq, entries, hlog,
    fun entry hentry => himp entry (hentries entry hentry)⟩

theorem Grows.confined {s t : ServerSystem} (h : Grows LogEntry.Own s t)
    (hs : s.Confined) : t.Confined := by
  rcases h.log_eq with ⟨entries, hlog, hentries⟩
  intro entry hentry
  rw [hlog] at hentry
  rcases List.mem_append.mp hentry with hold | hnew
  · exact hs entry hold
  · exact hentries entry hnew

/-- Other active channels and functors, all of them of their loop's connections. -/
theorem Placed.requeue {P : LogEntry → Prop} {s : ServerSystem} (h : s.Placed)
    {activeChannels : Nat → List (ChannelPtr × EventMask)}
    {pendingFunctor : Nat → List LoopFunctor}
    (hactive : ∀ loop id mask, (id, mask) ∈ activeChannels loop → s.OwnedBy id loop)
    (hpending : ∀ loop id f, .conn id f ∈ pendingFunctor loop → s.OwnedBy id loop) :
    Grows P s { s with activeChannels_ := activeChannels, pendingFunctor_ := pendingFunctor } :=
  Grows.of_log_eq ⟨h.ptr, h.registered, hactive, hpending⟩ (fun _ _ howned => howned) rfl rfl rfl
    rfl

/-- The calls that threads are in play no part in the placement. -/
theorem setCalls_grows {P : LogEntry → Prop} {s : ServerSystem} (h : s.Placed)
    (calls : Nat → Option (ChannelPtr × UserCall)) : Grows P s { s with calls := calls } :=
  Grows.of_log_eq ⟨h.ptr, h.registered, h.active, h.pending⟩ (fun _ _ howned => howned) rfl rfl rfl
    rfl

/-- What is left when a loop takes the first of its items was there before. -/
theorem mem_of_mem_update_tail {α : Type} {items : Nat → List α} {loop other : Nat} {a b : α}
    {rest : List α} (hitems : items loop = a :: rest)
    (hmem : b ∈ Function.update items loop rest other) : b ∈ items other := by
  by_cases hother : other = loop
  · subst hother
    rw [Function.update_self] at hmem
    rw [hitems]
    exact List.mem_cons_of_mem _ hmem
  · rwa [Function.update_of_ne hother] at hmem

theorem queueInLoop_grows {P : LogEntry → Prop} {s : ServerSystem} {loop : Nat} {f : LoopFunctor}
    (h : s.Placed) (howned : ∀ id g, f = .conn id g → s.OwnedBy id loop) :
    Grows P s (s.queueInLoop loop f) := by
  refine h.requeue h.active ?_
  intro l id g hmem
  by_cases hl : l = loop
  · subst hl
    rw [Function.update_self] at hmem
    rcases List.mem_append.mp hmem with hold | hnew
    · exact h.pending l id g hold
    · exact howned id g (List.mem_singleton.mp hnew).symm
  · rw [Function.update_of_ne hl] at hmem
    exact h.pending l id g hmem

/-- The server's map of connections plays no part in the placement. -/
theorem eraseConnection_grows {P : LogEntry → Prop} {s : ServerSystem} (conn : TcpConnection)
    (h : s.Placed) : Grows P s (s.eraseConnection conn) :=
  Grows.of_log_eq ⟨h.ptr, h.registered, h.active, h.pending⟩ (fun _ _ howned => howned) rfl rfl rfl
    rfl

theorem react_grows {P : LogEntry → Prop} {s t : ServerSystem} {thread : Nat} {id : ChannelPtr}
    {conn : TcpConnection} {o : Output} (h : s.Placed) (howned : s.OwnedBy id conn.loop_)
    (hreact : react thread id conn s o = some t) : Grows P s t := by
  have hpost : ∀ u : ServerSystem, u.Placed → u.OwnedBy id conn.loop_ → ∀ f : ConnFunctor,
      Grows P u (u.queueInLoop conn.loop_ (.conn id f)) := by
    intro u hu huowned f
    apply queueInLoop_grows hu
    intro id' g heq
    cases heq
    exact huowned
  cases o with
  | queueInLoop f =>
    cases hreact
    exact hpost s h howned f
  | closeCallback =>
    simp only [react] at hreact
    split at hreact
    · split at hreact
      · cases hreact
        have herase := eraseConnection_grows (P := P) conn h
        split
        · exact herase
        · exact herase.trans (hpost _ herase.placed (herase.owned id _ howned) _)
      · cases hreact
        apply queueInLoop_grows h
        intro id' g heq
        cases heq
    · cases hreact
  | _ =>
    cases hreact
    exact Grows.refl h

theorem commit_grows {P : LogEntry → Prop} {s : ServerSystem} {thread : Nat} {id : ChannelPtr}
    {what : List LoopStep} {conn : TcpConnection} {c : ConnCtx} (h : s.Placed)
    (hconn : s.conns id = some conn)
    (hframed : ConnCtx.Framed ⟨conn, s.pollers conn.loop_, []⟩ c)
    (hlog : ∀ step ∈ what ++ pollerSteps c.outputs, P ⟨thread, conn.loop_, step⟩) :
    Grows P s (s.commit thread id what c) := by
  have hloop : c.conn.loop_ = conn.loop_ := hframed.loop_eq
  have howned : ∀ id' loop, s.OwnedBy id' loop → (s.commit thread id what c).OwnedBy id' loop := by
    rintro id' loop ⟨conn', hconn', hloop'⟩
    by_cases hid : id' = id
    · subst hid
      rw [hconn] at hconn'
      cases hconn'
      exact ⟨c.conn, Function.update_self .., hloop.trans hloop'⟩
    · exact ⟨conn', (Function.update_of_ne hid ..).trans hconn', hloop'⟩
  refine ⟨⟨?_, ?_, ?_, ?_⟩, howned, rfl, rfl, rfl, _, rfl, ?_⟩
  · intro id' conn' hconn'
    by_cases hid : id' = id
    · subst hid
      rw [show (s.commit thread id' what c).conns id' = some c.conn from Function.update_self ..]
        at hconn'
      cases hconn'
      exact hframed.ptr_eq.trans (h.ptr id' conn hconn)
    · rw [show (s.commit thread id what c).conns id' = s.conns id' from
        Function.update_of_ne hid ..] at hconn'
      exact h.ptr id' conn' hconn'
  · intro loop fd event hentry
    apply howned
    by_cases hl : loop = conn.loop_
    · subst hl
      simp only [commit, hloop, Function.update_self] at hentry
      rcases hframed.entries fd event hentry with hold | hown
      · exact h.registered conn.loop_ fd event hold
      · rw [hown, h.ptr id conn hconn]
        exact ⟨conn, hconn, rfl⟩
    · simp only [commit, hloop, Function.update_of_ne hl] at hentry
      exact h.registered loop fd event hentry
  · intro loop id' mask hmem
    exact howned id' loop (h.active loop id' mask hmem)
  · intro loop id' f hmem
    exact howned id' loop (h.pending loop id' f hmem)
  · intro entry hentry
    obtain ⟨step, hstep, rfl⟩ := List.mem_map.mp hentry
    rw [hloop]
    exact hlog step hstep

theorem call_eq_some {s t : ServerSystem} {thread : Nat} {id : ChannelPtr} {what : List LoopStep}
    {method : ConnCtx → Except Fault ConnCtx} (hcall : s.call thread id what method = some t) :
    ∃ conn c, s.conns id = some conn ∧ method ⟨conn, s.pollers conn.loop_, []⟩ = .ok c ∧
      c.outputs.foldlM (react thread id c.conn) (s.commit thread id what c) = some t := by
  obtain ⟨conn, hconn, hrest⟩ := Option.bind_eq_some_iff.mp hcall
  obtain ⟨c, hc, hfold⟩ := Option.bind_eq_some_iff.mp hrest
  exact ⟨conn, c, hconn, returned_eq_some.mp hc, hfold⟩

theorem foldlM_react_grows {P : LogEntry → Prop} {s t : ServerSystem} {thread : Nat}
    {id : ChannelPtr} {conn : TcpConnection} {outputs : List Output} (h : s.Placed)
    (howned : s.OwnedBy id conn.loop_) (hfold : outputs.foldlM (react thread id conn) s = some t) :
    Grows P s t := by
  refine foldlM_invariant (I := Grows P s) ?_ (Grows.refl h) hfold
  intro u o v _ hu hreact
  exact hu.trans (react_grows hu.placed (hu.owned id _ howned) hreact)

/-- A method that runs on `thread` logs that thread with the connection's loop. -/
theorem call_grows {P : LogEntry → Prop} {Q : Output → Prop} {s t : ServerSystem}
    {thread loop : Nat} {id : ChannelPtr} {what : List LoopStep}
    {method : ConnCtx → Except Fault ConnCtx} (h : s.Placed) (howned : s.OwnedBy id loop)
    (hmethod : ∀ c c', method c = .ok c' → c.Reaches Q c')
    (hlog : ∀ conn p c step, method ⟨conn, p, []⟩ = .ok c → step ∈ what ++ pollerSteps c.outputs →
      P ⟨thread, loop, step⟩)
    (hcall : s.call thread id what method = some t) :
    Grows P s t ∧ ∀ step ∈ what, ⟨thread, loop, step⟩ ∈ t.log := by
  rcases howned with ⟨conn₀, hconn₀, rfl⟩
  obtain ⟨conn, c, hconn, hc, hfold⟩ := call_eq_some hcall
  rw [hconn₀] at hconn
  cases hconn
  have hframed := (hmethod _ c hc).framed
  have hloop : c.conn.loop_ = conn₀.loop_ := hframed.loop_eq
  have hcommit : Grows P s (s.commit thread id what c) :=
    commit_grows h hconn₀ hframed fun step => hlog conn₀ _ c step hc
  have hkept : (s.commit thread id what c).OwnedBy id c.conn.loop_ :=
    hcommit.owned id _ ⟨conn₀, hconn₀, hloop.symm⟩
  have hreact : Grows P (s.commit thread id what c) t :=
    foldlM_react_grows hcommit.placed hkept hfold
  refine ⟨hcommit.trans hreact, ?_⟩
  intro step hstep
  rcases hreact.log_eq with ⟨entries, hentries, _⟩
  rw [hentries]
  apply List.mem_append_left
  apply List.mem_append_right
  rw [List.mem_map]
  exact ⟨step, List.mem_append_left _ hstep, by rw [hloop]⟩

/-- Running a functor is nothing, or a call of a method that neither queues the raw `this`
    nor closes. -/
theorem runConnFunctor_call {s t : ServerSystem} {thread : Nat} {id : ChannelPtr} {w : WriteResult}
    {f : ConnFunctor} (hrun : s.runConnFunctor thread id w f = some t) :
    t = s ∨ ∃ what method, s.call thread id what method = some t ∧
      ∀ c c', method c = .ok c' → c.Reaches (fun o => o.quiet = true) c' := by
  cases f
  all_goals simp only [runConnFunctor] at hrun
  case connectEstablished =>
    exact Or.inr ⟨_, _, hrun, ConnCtx.reaches_of_total
      (ConnCtx.connectEstablished_reaches fun _ => Output.quiet_of_routine)⟩
  case connectDestroyed =>
    exact Or.inr ⟨_, _, hrun, ConnCtx.reaches_of_total
      (ConnCtx.connectDestroyed_reaches fun _ => Output.quiet_of_routine)⟩
  case sendInLoop message =>
    exact Or.inr ⟨_, _, hrun, fun _ _ => ConnCtx.sendInLoop_reaches
      fun _ => Output.quiet_of_routine⟩
  case shutdownInLoop =>
    exact Or.inr ⟨_, _, hrun, ConnCtx.reaches_of_total
      (ConnCtx.shutdownInLoop_reaches fun _ => Output.quiet_of_routine)⟩
  case writeCompleteCallback => exact Or.inl (Option.some.inj hrun).symm
  case highWaterMarkCallback size => exact Or.inl (Option.some.inj hrun).symm

theorem runConnFunctor_grows {s t : ServerSystem} {thread loop : Nat} {id : ChannelPtr}
    {w : WriteResult} {f : ConnFunctor} (h : s.Placed) (howned : s.OwnedBy id loop)
    (hrun : s.runConnFunctor thread id w f = some t) :
    Grows (LogEntry.RanOn thread loop) s t := by
  rcases runConnFunctor_call hrun with rfl | ⟨what, method, hcall, hmethod⟩
  · exact Grows.refl h
  · exact (call_grows h howned hmethod (fun _ _ _ _ _ _ => ⟨rfl, rfl⟩) hcall).1

/-- Posted to the connection's own loop, a functor runs on its thread or waits there. -/
theorem runInLoop_grows {s t : ServerSystem} {thread loop : Nat} {id : ChannelPtr}
    {w : WriteResult} {f : ConnFunctor} (h : s.Placed) (howned : s.OwnedBy id loop)
    (hrun : s.runInLoop thread loop id w f = some t) :
    Grows LogEntry.Own s t := by
  simp only [runInLoop] at hrun
  split at hrun
  · rename_i hthread
    exact (runConnFunctor_grows h howned hrun).mono fun _ hentry => hentry.own hthread
  · cases hrun
    apply queueInLoop_grows h
    intro id' g heq
    cases heq
    exact howned

theorem removeConnectionInLoop_grows {s t : ServerSystem} {thread : Nat} {id : ChannelPtr}
    (h : s.Placed) (hremove : s.removeConnectionInLoop thread id = some t) :
    Grows LogEntry.Own s t := by
  obtain ⟨conn, hconn, hrun⟩ := Option.bind_eq_some_iff.mp hremove
  have herase := eraseConnection_grows (P := LogEntry.Own) conn h
  exact herase.trans (runInLoop_grows herase.placed ⟨conn, hconn, rfl⟩ hrun)

/-! ### The steps -/

theorem load_grows {P : LogEntry → Prop} {s t : ServerSystem} {thread : Nat} {id : ChannelPtr}
    {call : UserCall} (h : s.Placed) (hstep : s.perform (.load thread id call) = some t) :
    Grows P s t := by
  obtain ⟨conn, _, hload⟩ := Option.bind_eq_some_iff.mp hstep
  split at hload
  · cases hload
    exact setCalls_grows h _
  · cases hload
    exact Grows.refl h

/-- `send()` runs or queues a functor, and `shutdown()` queues one. -/
theorem userCall_grows {s t : ServerSystem} {thread : Nat} {id : ChannelPtr} {w : WriteResult}
    {call : UserCall} (h : s.Placed) (hcall : s.proceed thread id w call = some t) :
    Grows LogEntry.Own s t := by
  cases call with
  | send message =>
    obtain ⟨conn, hconn, hsend⟩ := Option.bind_eq_some_iff.mp hcall
    exact runInLoop_grows h ⟨conn, hconn, rfl⟩ hsend
  | shutdown =>
    have hstore : s.call thread id [] (fun c => .ok c.shutdownStore) = some t := hcall
    obtain ⟨conn, _, hconn, _⟩ := call_eq_some hstore
    refine (call_grows (Q := fun _ => True) h ⟨conn, hconn, rfl⟩
      (ConnCtx.reaches_of_total (ConnCtx.shutdownStore_reaches trivial)) ?_ hstore).1
    intro conn' p c step hok hmem
    cases hok
    cases hmem

theorem proceed_grows {s t : ServerSystem} {thread : Nat} {w : WriteResult} (h : s.Placed)
    (hstep : s.perform (.proceed thread w) = some t) : Grows LogEntry.Own s t := by
  obtain ⟨⟨id, call⟩, _, hcall⟩ := Option.bind_eq_some_iff.mp hstep
  have hnext := setCalls_grows (P := LogEntry.Own) h (Function.update s.calls thread none)
  exact hnext.trans (userCall_grows hnext.placed hcall)

theorem poll_grows {P : LogEntry → Prop} {s t : ServerSystem} {loop : Nat}
    {ready : List (Nat × EventMask)} (h : s.Placed)
    (hstep : s.perform (.poll loop ready) = some t) : Grows P s t := by
  simp only [perform] at hstep
  split at hstep
  · cases hstep
    refine h.requeue ?_ h.pending
    intro l id mask hmem
    by_cases hl : l = loop
    · subst hl
      simp only [Function.update_self, reported, List.mem_filterMap, Option.map_eq_some_iff,
        Prod.mk.injEq] at hmem
      rcases hmem with ⟨⟨fd, m⟩, _, event, hevent, hid, _⟩
      rw [← hid]
      exact h.registered l fd event hevent
    · rw [Function.update_of_ne hl] at hmem
      exact h.active l id mask hmem
  · cases hstep

theorem handleEvent_grows {s t : ServerSystem} {loop : Nat} {ownerAlive : Bool} {r : ReadResult}
    {w : WriteResult} (h : s.Placed)
    (hstep : s.perform (.handleEvent loop ownerAlive r w) = some t) :
    Grows LogEntry.Own s t := by
  simp only [perform] at hstep
  split at hstep
  · cases hstep
  · rename_i id mask rest hactive
    have howned : s.OwnedBy id loop := by
      apply h.active loop id mask
      rw [hactive]
      exact List.mem_cons_self ..
    have hnext : Grows LogEntry.Own s
        { s with activeChannels_ := Function.update s.activeChannels_ loop rest } := by
      refine h.requeue ?_ h.pending
      intro l id' mask' hmem
      exact h.active l id' mask' (mem_of_mem_update_tail hactive hmem)
    exact hnext.trans (call_grows (Q := fun _ => True) hnext.placed (hnext.owned id loop howned)
      (fun _ _ => ConnCtx.handleEvent_reaches (fun _ _ => trivial) fun _ _ => trivial)
      (fun _ _ _ _ _ _ => rfl) hstep).1

theorem runFunctor_grows {s t : ServerSystem} {loop : Nat} {w : WriteResult} (h : s.Placed)
    (hstep : s.perform (.runFunctor loop w) = some t) :
    Grows LogEntry.Own s t := by
  simp only [perform] at hstep
  split at hstep
  · rename_i f rest _ hpending
    have hnext : Grows LogEntry.Own s
        { s with pendingFunctor_ := Function.update s.pendingFunctor_ loop rest } := by
      refine h.requeue h.active ?_
      intro l id g hmem
      exact h.pending l id g (mem_of_mem_update_tail hpending hmem)
    refine hnext.trans ?_
    cases f with
    | conn id g =>
      have howned : s.OwnedBy id loop := by
        apply h.pending loop id g
        rw [hpending]
        exact List.mem_cons_self ..
      exact (runConnFunctor_grows hnext.placed (hnext.owned id loop howned) hstep).mono
        fun _ hentry => hentry.own rfl
    | removeConnectionInLoop id =>
      simp only [runFunctor] at hstep
      split at hstep
      · exact removeConnectionInLoop_grows hnext.placed hstep
      · cases hstep
  · cases hstep

theorem destroyItems_grows {s t : ServerSystem} {thread : Nat}
    {items : List (String × ChannelPtr)} (h : s.Placed)
    (hfold : items.foldlM (destroyItem thread) s = some t) : Grows LogEntry.Own s t := by
  refine foldlM_invariant (I := Grows LogEntry.Own s) ?_ (Grows.refl h) hfold
  intro u item v _ hu hitem
  obtain ⟨conn, hconn, hrun⟩ := Option.bind_eq_some_iff.mp hitem
  exact hu.trans (runInLoop_grows hu.placed ⟨conn, hconn, rfl⟩ hrun)

theorem destroy_grows {s t : ServerSystem} {thread : Nat} {order : List (String × ChannelPtr)}
    (h : s.Placed) (hstep : s.perform (.destroy thread order) = some t) :
    Grows LogEntry.Own s t := by
  simp only [perform] at hstep
  split at hstep
  · obtain ⟨u, hfold, rfl⟩ := Option.map_eq_some_iff.mp hstep
    rcases destroyItems_grows h hfold with ⟨hplaced, howned, hloop, hloops, hbase, hlog⟩
    exact ⟨⟨hplaced.ptr, hplaced.registered, hplaced.active, hplaced.pending⟩, howned, hloop,
      hloops, hbase, hlog⟩
  · cases hstep

end ServerSystem

theorem EventLoopThreadPool.getNextLoop_loops (p : EventLoopThreadPool) :
    p.getNextLoop.2.loops_ = p.loops_ := by
  simp only [getNextLoop]
  split <;> rfl

theorem EventLoopThreadPool.getNextLoop_base (p : EventLoopThreadPool) :
    p.getNextLoop.2.baseLoop_ = p.baseLoop_ := by
  simp only [getNextLoop]
  split <;> rfl

/-- The base loop is picked when the pool has no other. -/
theorem EventLoopThreadPool.getNextLoop_eq_base_iff {p : EventLoopThreadPool}
    (hworkers : p.baseLoop_ ∉ p.loops_) : p.getNextLoop.1 = p.baseLoop_ ↔ p.loops_ = [] := by
  simp only [getNextLoop]
  split
  · rename_i hnone
    exact ⟨fun _ => hnone, fun _ => rfl⟩
  · rename_i hsome
    constructor
    · intro hpicked
      apply absurd _ hworkers
      rw [← hpicked]
      exact List.getElem_mem _
    · intro hnone
      exact absurd hnone hsome

namespace ServerSystem

theorem createConnection_grows {P : LogEntry → Prop} {s : ServerSystem} {id : ChannelPtr}
    (sockfd : Nat) (h : s.Placed) (hfresh : s.conns id = none) :
    Grows P s (s.createConnection sockfd id) ∧
      (s.createConnection sockfd id).OwnedBy id s.server.threadPool_.getNextLoop.1 := by
  have howned : ∀ id' loop, s.OwnedBy id' loop →
      (s.createConnection sockfd id).OwnedBy id' loop := by
    rintro id' loop ⟨conn', hconn', hloop'⟩
    have hid : id' ≠ id := by
      intro heq
      rw [heq, hfresh] at hconn'
      cases hconn'
    exact ⟨conn', (Function.update_of_ne hid ..).trans hconn', hloop'⟩
  constructor
  · refine Grows.of_log_eq ⟨?_, ?_, ?_, ?_⟩ howned rfl (EventLoopThreadPool.getNextLoop_loops _)
      (EventLoopThreadPool.getNextLoop_base _) rfl
    · intro id' conn' hconn'
      by_cases hid : id' = id
      · subst hid
        simp only [createConnection, Function.update_self] at hconn'
        cases hconn'
        rfl
      · simp only [createConnection, Function.update_of_ne hid] at hconn'
        exact h.ptr id' conn' hconn'
    · intro loop fd event hentry
      exact howned _ loop (h.registered loop fd event hentry)
    · intro loop id' mask hmem
      exact howned id' loop (h.active loop id' mask hmem)
    · intro loop id' f hmem
      exact howned id' loop (h.pending loop id' f hmem)
  · exact ⟨_, Function.update_self .., rfl⟩

/-- **What `newConnection` does wrong.**  It establishes the connection on the server's
    thread, whatever loop the connection is given. -/
theorem accept_grows {s t : ServerSystem} {sockfd : Nat} {id : ChannelPtr} (h : s.Placed)
    (hstep : s.perform (.accept sockfd id) = some t) :
    Grows (LogEntry.RanOn s.server.loop_ s.server.threadPool_.getNextLoop.1) s t ∧
      ⟨s.server.loop_, s.server.threadPool_.getNextLoop.1, .connectEstablished⟩ ∈ t.log := by
  simp only [perform] at hstep
  split at hstep
  · rename_i hready
    simp only [newConnection, runInLoop, if_true, runConnFunctor] at hstep
    obtain ⟨hcreated, howned⟩ := createConnection_grows
      (P := LogEntry.RanOn s.server.loop_ s.server.threadPool_.getNextLoop.1) sockfd h hready.2
    obtain ⟨hcall, hlogged⟩ := call_grows
      (P := LogEntry.RanOn s.server.loop_ s.server.threadPool_.getNextLoop.1)
      (Q := fun _ => True) hcreated.placed howned
      (ConnCtx.reaches_of_total (ConnCtx.connectEstablished_reaches fun _ _ => trivial))
      (fun _ _ _ _ _ _ => ⟨rfl, rfl⟩) hstep
    exact ⟨hcreated.trans hcall, hlogged _ (List.mem_singleton_self _)⟩
  · cases hstep

/-- Every step but an accept logs the thread of the loop it works for. -/
theorem step_grows {s t : ServerSystem} {e : ServerEvent} (h : s.Placed)
    (hstep : s.step e = some t) :
    (∃ sockfd id, e = .accept sockfd id) ∨ Grows LogEntry.Own s t := by
  replace hstep := (step_eq_some hstep).2
  cases e with
  | accept sockfd id => exact Or.inl ⟨sockfd, id, rfl⟩
  | poll loop ready => exact Or.inr (poll_grows h hstep)
  | handleEvent loop ownerAlive r w => exact Or.inr (handleEvent_grows h hstep)
  | runFunctor loop w => exact Or.inr (runFunctor_grows h hstep)
  | load thread id call => exact Or.inr (load_grows h hstep)
  | proceed thread w => exact Or.inr (proceed_grows h hstep)
  | destroy thread order => exact Or.inr (destroy_grows h hstep)

theorem Placed.step {s t : ServerSystem} {e : ServerEvent} (h : s.Placed)
    (hstep : s.step e = some t) : t.Placed := by
  rcases step_grows h hstep with ⟨sockfd, id, rfl⟩ | hgrows
  · exact (accept_grows h (step_eq_some hstep).2).1.placed
  · exact hgrows.placed

/-! ### Runs -/

/-- An accept is safe when the pool has no worker. -/
def AcceptsOnOwnLoop (workers : List Nat) : ServerEvent → Prop
  | .accept _ _ => workers = []
  | _ => True

structure Inv (base : Nat) (workers : List Nat) (s : ServerSystem) : Prop where
  placed : s.Placed
  confined : s.Confined
  loop_eq : s.server.loop_ = base
  base_eq : s.server.threadPool_.baseLoop_ = base
  loops_eq : s.server.threadPool_.loops_ = workers

theorem Inv.of_grows {base : Nat} {workers : List Nat} {s t : ServerSystem}
    (h : s.Inv base workers) (hgrows : Grows LogEntry.Own s t) :
    t.Inv base workers :=
  ⟨hgrows.placed, hgrows.confined h.confined, hgrows.loop_eq.trans h.loop_eq,
    hgrows.base_eq.trans h.base_eq, hgrows.loops_eq.trans h.loops_eq⟩

theorem Inv.step {base : Nat} {workers : List Nat} {s t : ServerSystem} {e : ServerEvent}
    (hworkers : base ∉ workers) (h : s.Inv base workers) (hown : AcceptsOnOwnLoop workers e)
    (hstep : s.step e = some t) : t.Inv base workers := by
  apply h.of_grows
  rcases step_grows h.placed hstep with ⟨sockfd, id, rfl⟩ | hgrows
  · have hpicked : s.server.threadPool_.getNextLoop.1 = s.server.loop_ := by
      rw [h.loop_eq, ← h.base_eq, EventLoopThreadPool.getNextLoop_eq_base_iff, h.loops_eq]
      · exact hown
      · rw [h.base_eq, h.loops_eq]
        exact hworkers
    have haccept := (accept_grows h.placed (step_eq_some hstep).2).1
    exact haccept.mono fun _ hentry => hentry.own hpicked.symm
  · exact hgrows

theorem Inv.accept_breaks {base : Nat} {workers : List Nat} {s t : ServerSystem} {e : ServerEvent}
    (hworkers : base ∉ workers) (h : s.Inv base workers) (hforeign : ¬ AcceptsOnOwnLoop workers e)
    (hstep : s.step e = some t) : ¬ t.Confined := by
  cases e with
  | accept sockfd id =>
    intro hconfined
    have hsame := hconfined _ (accept_grows h.placed (step_eq_some hstep).2).2
    apply hforeign
    rw [AcceptsOnOwnLoop, ← h.loops_eq, ← EventLoopThreadPool.getNextLoop_eq_base_iff, h.base_eq]
    · exact hsame.symm.trans h.loop_eq
    · rw [h.base_eq, h.loops_eq]
      exact hworkers
  | _ => exact absurd trivial hforeign

theorem base_not_mem_start (base : Nat) (numThreads : Int) :
    base ∉ (EventLoopThreadPool.start base numThreads).loops_ := by
  intro hmem
  obtain ⟨i, _, hi⟩ := List.mem_map.mp hmem
  omega

theorem start_loops_eq_nil {base : Nat} {numThreads : Int} :
    (EventLoopThreadPool.start base numThreads).loops_ = [] ↔ numThreads ≤ 0 := by
  simp only [EventLoopThreadPool.start, List.map_eq_nil_iff, List.range_eq_nil, Int.toNat_eq_zero]

theorem start_inv (loop : Nat) (name ipPort : String) (writeComplete : Bool) (numThreads : Int) :
    (start loop name ipPort writeComplete numThreads).Inv loop
      (EventLoopThreadPool.start loop numThreads).loops_ := by
  refine ⟨⟨?_, ?_, ?_, ?_⟩, ?_, rfl, rfl, rfl⟩
  · intro id conn hconn
    cases hconn
  · intro l fd event hentry
    cases hentry
  · intro l id mask hmem
    cases hmem
  · intro l id f hmem
    cases hmem
  · intro entry hentry
    cases hentry

end ServerSystem

/-- **When every step is confined to its loop's thread.**  Exactly in the runs of a server
    without workers, and in those that accept no connection. -/
theorem loop_confinement_iff (loop : Nat) (name ipPort : String) (writeComplete : Bool)
    (numThreads : Int) (es : List ServerEvent) (t : ServerSystem)
    (hrun : Run ServerSystem.step
      (ServerSystem.start loop name ipPort writeComplete numThreads) es t) :
    Always ServerSystem.step ServerSystem.Confined
        (ServerSystem.start loop name ipPort writeComplete numThreads) es ↔
      numThreads ≤ 0 ∨ ∀ sockfd id, .accept sockfd id ∉ es := by
  have hworkers := ServerSystem.base_not_mem_start loop numThreads
  have hiff := always_iff_along (fun _ => ServerSystem.Inv.confined)
    (fun _ _ _ h hown hstep => h.step hworkers hown hstep)
    (fun _ _ _ h hforeign hstep => h.accept_breaks hworkers hforeign hstep)
    (ServerSystem.start_inv loop name ipPort writeComplete numThreads) hrun
  rw [hiff, along_event hrun]
  constructor
  · intro h
    by_cases hnone : numThreads ≤ 0
    · exact Or.inl hnone
    · right
      intro sockfd id hmem
      exact hnone (ServerSystem.start_loops_eq_nil.mp (h _ hmem))
  · rintro (hnone | hquiet) e he
    · cases e with
      | accept sockfd id => exact ServerSystem.start_loops_eq_nil.mpr hnone
      | _ => trivial
    · cases e with
      | accept sockfd id => exact absurd he (hquiet sockfd id)
      | _ => trivial

theorem run_accept_start (numThreads : Int) :
    ∃ t, Run ServerSystem.step (ServerSystem.start 0 "server" "0.0.0.0:80" false numThreads)
      [.accept 5 0] t := by
  exact ⟨_, Run.one rfl⟩

theorem loop_confinement_iff_one_accept :
    Always ServerSystem.step ServerSystem.Confined
        (ServerSystem.start 0 "server" "0.0.0.0:80" false 0) [.accept 5 0] ↔
      (0 : Int) ≤ 0 ∨ ∀ sockfd id, .accept sockfd id ∉ [ServerEvent.accept 5 0] := by
  obtain ⟨t, hrun⟩ := run_accept_start 0
  exact loop_confinement_iff 0 "server" "0.0.0.0:80" false 0 _ t hrun

/-- With one worker, the first connection is established by the server's thread. -/
theorem worker_connection_established_by_base :
    ∃ t, Run ServerSystem.step (ServerSystem.start 0 "server" "0.0.0.0:80" false 1)
      [.accept 5 0] t ∧ ¬ t.Confined := by
  obtain ⟨t, hrun⟩ := run_accept_start 1
  refine ⟨t, hrun, (ServerSystem.start_inv 0 _ _ false 1).accept_breaks
    (ServerSystem.base_not_mem_start 0 1) ?_ (hrun.step_of_one)⟩
  intro hown
  exact absurd (ServerSystem.start_loops_eq_nil.mp hown) (by decide)

end Muduo
