import Muduo.PollerLifetimes

/-!
# What stays when a server is idle

A connection that closes leaves the map in the same step, when the step runs on the
server's loop, or leaves a `removeConnectionInLoop` there.  So a server whose queues are
empty keeps exactly its open connections: none is left in the map, none in a poller, and
nothing else keeps a descriptor open.
-/

namespace Muduo

open Transitions

namespace ServerSystem

/-- A closed connection that is still in the map has its removal queued. -/
def Departs (s : ServerSystem) : Prop :=
  ∀ id conn name, s.conns id = some conn → conn.state_ = .kDisconnected →
    (name, id) ∈ s.server.connections_ →
      ∃ loop, .removeConnectionInLoop id ∈ s.pendingFunctor_ loop

/-! ### One method -/

theorem Called.departs {s t : ServerSystem} {id : ChannelPtr} {conn : TcpConnection}
    {c : ConnCtx} (h : s.Called t id conn c) (hs : s.Departs)
    (hself : c.conn.state_ = .kDisconnected → ∀ name, (name, id) ∈ t.server.connections_ →
      ∃ loop, .removeConnectionInLoop id ∈ t.pendingFunctor_ loop) : t.Departs := by
  intro other conn' name hconn' hstate hentry
  by_cases hother : other = id
  · subst hother
    rw [h.conns_self] at hconn'
    cases hconn'
    exact hself hstate name hentry
  · rw [h.conns_other hother] at hconn'
    obtain ⟨loop, hf⟩ := hs other conn' name hconn' hstate (h.entries _ hentry)
    exact ⟨loop, h.effect.kept loop _ hf⟩

/-- A method that leaves its connection open or closed as it was. -/
theorem Departs.steady {s t : ServerSystem} {thread : Nat} {id : ChannelPtr}
    {what : List LoopStep} {method : ConnCtx → Except Fault ConnCtx} (h : s.Departs)
    (hreaches : ∀ c c', method c = .ok c' → c.Reaches Emitted c')
    (hsteady : ∀ conn c, s.conns id = some conn → method (s.ctx conn) = .ok c →
      (s.ctx conn).Steady c)
    (hcall : s.call thread id what method = some t) : t.Departs := by
  obtain ⟨conn, c, hconn, hc, hcalled⟩ := call_called hreaches hcall
  apply hcalled.departs h
  intro hstate name hentry
  have hshut : conn.state_ = .kDisconnected := (hsteady conn c hconn hc).open_iff.mp hstate
  obtain ⟨loop, hf⟩ := h id conn name hconn hshut (hcalled.entries _ hentry)
  exact ⟨loop, hcalled.effect.kept loop _ hf⟩

/-- Closing on the server's thread erases the name. -/
theorem closeCallback_erases {s t : ServerSystem} {id : ChannelPtr} {conn : TcpConnection}
    {outputs : List Output} (houtputs : ∀ o ∈ outputs, Emitted o)
    (hcloses : .closeCallback ∈ outputs)
    (hfold : outputs.foldlM (react s.server.loop_ id conn) s = some t) :
    ∀ item ∈ t.server.connections_, item.1 ≠ conn.name_ := by
  obtain ⟨before, after, hsplit⟩ := List.append_of_mem hcloses
  have hemitted : ∀ o ∈ outputs, Emitted o ∧ o ∈ outputs := fun o ho => ⟨houtputs o ho, ho⟩
  rw [hsplit, List.foldlM_append] at hfold
  obtain ⟨u, hbefore, hrest⟩ := Option.bind_eq_some_iff.mp hfold
  rw [List.foldlM_cons] at hrest
  obtain ⟨v, hreact, hafter⟩ := Option.bind_eq_some_iff.mp hrest
  have hloop : u.server.loop_ = s.server.loop_ := by
    have hos : ∀ o ∈ before, Emitted o ∧ o ∈ outputs := by
      intro o ho
      apply hemitted o
      rw [hsplit]
      exact List.mem_append_left _ ho
    exact (foldlM_react_effect hos hbefore).loop_eq
  have herased : ∀ item ∈ v.server.connections_, item.1 ≠ conn.name_ := by
    simp only [react, hloop, if_true] at hreact
    split at hreact
    · cases hreact
      intro item hitem
      have hkept : item ∈ (u.eraseConnection conn).server.connections_ := by
        split at hitem
        · exact hitem
        · exact hitem
      simpa using List.of_mem_filter hkept
    · cases hreact
  refine foldlM_invariant (I := fun w : ServerSystem =>
    ∀ item ∈ w.server.connections_, item.1 ≠ conn.name_) ?_ herased hafter
  intro w o w' _ hw hreact' item hitem
  exact hw item ((react_keeps hreact').2.2.2 item hitem)

/-- A handled event. -/
theorem Departs.event {s t : ServerSystem} {loop : Nat} {id : ChannelPtr} {what : List LoopStep}
    {method : ConnCtx → Except Fault ConnCtx} (h : s.Departs)
    (hnamed : ∀ name id, (name, id) ∈ s.server.connections_ →
      ∃ conn, s.conns id = some conn ∧ conn.name_ = name)
    (hreaches : ∀ c c', method c = .ok c' → c.Reaches Emitted c')
    (houtcome : ∀ c c', method c = .ok c' → c.Outcome c')
    (hcall : s.call loop id what method = some t) : t.Departs := by
  obtain ⟨conn, c, hconn, hc, hcalled⟩ := call_called hreaches hcall
  rcases houtcome _ c hc with hsteady | hclosed
  · apply hcalled.departs h
    intro hstate name hentry
    obtain ⟨l, hf⟩ := h id conn name hconn (hsteady.open_iff.mp hstate) (hcalled.entries _ hentry)
    exact ⟨l, hcalled.effect.kept l _ hf⟩
  · apply hcalled.departs h
    intro _ name hentry
    obtain ⟨conn', c', hconn', hc', hfold⟩ := call_eq_some hcall
    cases hconn.symm.trans hconn'
    cases (hc.symm.trans hc' : Except.ok c = Except.ok c')
    have hreach := hreaches _ c hc
    obtain ⟨os, hos, hemitted⟩ := hreach.outputs
    have houtputs : ∀ o ∈ c.outputs, Emitted o := by
      rw [show c.outputs = os from hos]
      exact hemitted
    by_cases hloop : loop = s.server.loop_
    · subst hloop
      have herased := closeCallback_erases
        (s := s.commit s.server.loop_ id what c) houtputs hclosed.called hfold
      obtain ⟨conn'', hconn'', hname⟩ := hnamed name id (hcalled.entries _ hentry)
      cases hconn.symm.trans hconn''
      exact absurd (hname.symm.trans hreach.name_eq.symm) (herased _ hentry)
    · exact ⟨s.server.loop_, closeCallback_posts (s := s.commit loop id what c) houtputs
        hclosed.called hloop hfold⟩

/-! ### Queues and entries -/

/-- Steps that keep the connections, and shrink the map. -/
theorem Departs.mono {s t : ServerSystem} (h : s.Departs) (hconns : t.conns = s.conns)
    (hentries : ∀ item ∈ t.server.connections_, item ∈ s.server.connections_)
    (hkept : ∀ loop id name, (name, id) ∈ t.server.connections_ →
      .removeConnectionInLoop id ∈ s.pendingFunctor_ loop →
        .removeConnectionInLoop id ∈ t.pendingFunctor_ loop) : t.Departs := by
  intro id conn name hconn hstate hentry
  rw [hconns] at hconn
  obtain ⟨loop, hf⟩ := h id conn name hconn hstate (hentries _ hentry)
  exact ⟨loop, hkept loop id name hentry hf⟩

theorem mem_popFunctor_of_ne {s : ServerSystem} {loop l : Nat} {f g : LoopFunctor}
    {rest : List LoopFunctor} (hpending : s.pendingFunctor_ loop = f :: rest) (hne : g ≠ f)
    (hg : g ∈ s.pendingFunctor_ l) : g ∈ (s.popFunctor loop rest).pendingFunctor_ l := by
  by_cases hl : l = loop
  · subst hl
    rw [hpending, List.mem_cons] at hg
    simpa [popFunctor] using hg.resolve_left hne
  · simpa [popFunctor, Function.update_of_ne hl] using hg

/-- A functor that is not a removal is taken from its queue. -/
theorem Departs.pop {s : ServerSystem} {loop : Nat} {f : LoopFunctor} {rest : List LoopFunctor}
    (h : s.Departs) (hpending : s.pendingFunctor_ loop = f :: rest)
    (hf : ∀ id, f ≠ .removeConnectionInLoop id) : (s.popFunctor loop rest).Departs := by
  refine h.mono rfl (fun _ hitem => hitem) ?_
  intro l id _ _ hremoval
  exact mem_popFunctor_of_ne hpending (hf id).symm hremoval

/-- A removal is taken from its queue, and the connection from the map. -/
theorem Departs.popRemoval {s : ServerSystem} {loop : Nat} {id : ChannelPtr}
    {conn : TcpConnection} {rest : List LoopFunctor} (h : s.Departs) (htidy : s.Tidy none)
    (hconn : s.conns id = some conn)
    (hpending : s.pendingFunctor_ loop = .removeConnectionInLoop id :: rest) :
    ((s.popFunctor loop rest).eraseConnection conn).Departs := by
  have herased : ∀ name,
      (name, id) ∉ ((s.popFunctor loop rest).eraseConnection conn).server.connections_ := by
    intro name hentry
    simp only [eraseConnection, popFunctor, List.mem_filter, decide_eq_true_eq] at hentry
    obtain ⟨conn', hconn', hname⟩ := htidy.named name id hentry.1
    cases hconn.symm.trans hconn'
    exact hentry.2 hname.symm
  refine h.mono rfl (fun _ => List.mem_of_mem_filter) ?_
  intro l other name hentry hremoval
  apply mem_popFunctor_of_ne hpending ?_ hremoval
  intro heq
  cases heq
  exact herased name hentry

theorem queueInLoop_departs {s : ServerSystem} {loop : Nat} {f : LoopFunctor} (h : s.Departs) :
    (s.queueInLoop loop f).Departs := by
  have heffect : Effect (fun _ => True) (fun _ => False) s (s.queueInLoop loop f) :=
    queueInLoop_effect s loop trivial
  exact h.mono rfl (fun _ hitem => hitem) fun l _ _ _ => heffect.kept l _

/-! ### The steps -/

theorem accept_departs {s t : ServerSystem} {sockfd : Nat} {id : ChannelPtr} (h : s.Departs)
    (hstep : s.step (.accept sockfd id) = some t) : t.Departs := by
  replace hstep := (step_eq_some hstep).2
  simp only [perform, Option.ite_none_right_eq_some] at hstep
  obtain ⟨⟨_, hnew⟩, hstep⟩ := hstep
  simp only [newConnection, runInLoop, if_true, runConnFunctor] at hstep
  have hcreated : (s.createConnection sockfd id).Departs := by
    intro other conn name hconn hstate hentry
    by_cases hother : other = id
    · subst hother
      rw [createConnection_conns, Function.update_self] at hconn
      cases hconn
      cases hstate
    · rw [createConnection_conns, Function.update_of_ne hother] at hconn
      rw [createConnection_entries, List.mem_cons] at hentry
      rcases hentry with heq | hold
      · exact absurd (Prod.mk.inj heq).2 hother
      · exact h other conn name hconn hstate (List.mem_of_mem_filter hold)
  obtain ⟨conn, c, _, hc, hcalled⟩ := call_called (fun _ _ => connectEstablished_emitted) hstep
  apply hcalled.departs hcreated
  intro hstate
  cases hc
  cases hstate

theorem runConnFunctor_departs {s t : ServerSystem} {thread : Nat} {id : ChannelPtr}
    {w : WriteResult} {f : ConnFunctor} (h : s.Departs)
    (hends : (LoopFunctor.conn id f).ends = false) (hest : f ≠ .connectEstablished)
    (hrun : s.runConnFunctor thread id w f = some t) : t.Departs := by
  cases f with
  | connectEstablished => exact absurd rfl hest
  | connectDestroyed => cases hends
  | sendInLoop message =>
    exact h.steady (fun _ _ => ConnCtx.sendInLoop_reaches fun _ => Or.inl)
      (fun _ _ _ => ConnCtx.sendInLoop_steady) hrun
  | shutdownInLoop =>
    refine h.steady (ConnCtx.reaches_of_total (ConnCtx.shutdownInLoop_reaches fun _ => Or.inl)) ?_
      hrun
    intro conn c _ hok
    cases hok
    exact ConnCtx.shutdownInLoop_steady _
  | writeCompleteCallback | highWaterMarkCallback =>
    cases hrun
    exact h

/-- `connectDestroyed` of a closed connection. -/
theorem connectDestroyed_departs {s t : ServerSystem} {thread : Nat} {id : ChannelPtr}
    {conn : TcpConnection} {what : List LoopStep} (h : s.Departs)
    (hconn : s.conns id = some conn) (hstate : conn.state_ = .kDisconnected)
    (hcall : s.call thread id what (fun c => .ok c.connectDestroyed) = some t) : t.Departs := by
  obtain ⟨_, c, _, _, hcalled⟩ := call_called
    (ConnCtx.reaches_of_total (ConnCtx.connectDestroyed_reaches fun _ => Or.inl)) hcall
  apply hcalled.departs h
  intro _ name hentry
  obtain ⟨loop, hf⟩ := h id conn name hconn hstate (hcalled.entries _ hentry)
  exact ⟨loop, hcalled.effect.kept loop _ hf⟩

theorem runFunctor_departs {s t : ServerSystem} {loop : Nat} {w : WriteResult} (h : s.Departs)
    (htidy : s.Tidy none) (hstep : s.step (.runFunctor loop w) = some t) : t.Departs := by
  replace hstep := (step_eq_some hstep).2
  simp only [perform] at hstep
  split at hstep
  · next f rest hempty hpending =>
    have hmem : f ∈ s.pendingFunctor_ loop := by
      rw [hpending]
      exact List.mem_cons_self ..
    cases f with
    | conn id g =>
      have hnext : (s.popFunctor loop rest).Departs := h.pop hpending (by simp)
      cases hends : (LoopFunctor.conn id g).ends with
      | true =>
        cases g with
        | connectDestroyed =>
          have hleaving : s.Leaving id := ⟨loop, _, hmem, hends, rfl⟩
          obtain ⟨conn, hconn⟩ := htidy.leaves id hleaving
          exact connectDestroyed_departs hnext hconn
            ((htidy.sound id conn (by simp) hconn).leaving hleaving) hstep
        | _ => cases hends
      | false =>
        refine runConnFunctor_departs hnext hends ?_ hstep
        rintro rfl
        exact htidy.established loop id hmem
    | removeConnectionInLoop id =>
      simp only [runFunctor] at hstep
      split at hstep
      · obtain ⟨conn, hconn, hremove⟩ := Option.bind_eq_some_iff.mp hstep
        have hnext := h.popRemoval htidy hconn hpending
        have hstate : conn.state_ = .kDisconnected :=
          (htidy.sound id conn (by simp) hconn).leaving ⟨loop, _, hmem, rfl, rfl⟩
        simp only [runInLoop] at hremove
        split at hremove
        · exact connectDestroyed_departs hnext hconn hstate hremove
        · cases hremove
          exact queueInLoop_departs hnext
      · cases hstep
  · cases hstep

theorem handleEvent_departs {s t : ServerSystem} {loop : Nat} {ownerAlive : Bool}
    {r : ReadResult} {w : WriteResult} (h : s.Departs) (htidy : s.Tidy none)
    (hstep : s.step (.handleEvent loop ownerAlive r w) = some t) : t.Departs := by
  replace hstep := (step_eq_some hstep).2
  simp only [perform] at hstep
  split at hstep
  · cases hstep
  · next id mask rest hactive =>
    exact Departs.event (s := { s with
        activeChannels_ := Function.update s.activeChannels_ loop rest }) h htidy.named
      (fun _ _ => ConnCtx.handleEvent_reaches (fun _ => Or.inl) fun _ _ => Or.inr (Or.inl rfl))
      (fun _ _ => ConnCtx.handleEvent_outcome) hstep

theorem load_departs {s t : ServerSystem} {thread : Nat} {id : ChannelPtr} {call : UserCall}
    (h : s.Departs) (hstep : s.step (.load thread id call) = some t) : t.Departs := by
  obtain ⟨conn, _, hload⟩ := Option.bind_eq_some_iff.mp (step_eq_some hstep).2
  split at hload
  · cases hload
    exact h
  · cases hload
    exact h

theorem proceed_departs {s t : ServerSystem} {thread : Nat} {id : ChannelPtr} {call : UserCall}
    {w : WriteResult} (h : s.Departs) (hcall : s.calls thread = some (id, call))
    (hintime : s.InTime thread) (hstep : s.step (.proceed thread w) = some t) : t.Departs := by
  have hrest := proceed_eq_some hcall hstep
  have hnext : (s.endCall thread).Departs := h
  cases call with
  | send message =>
    obtain ⟨conn, _, hsend⟩ := Option.bind_eq_some_iff.mp hrest
    simp only [runInLoop] at hsend
    split at hsend
    · exact runConnFunctor_departs hnext rfl (by simp) hsend
    · cases hsend
      exact queueInLoop_departs hnext
  | shutdown =>
    exact hnext.steady (fun _ _ => shutdownStore_emitted)
      (fun _ _ hconn => hintime.steady hcall hconn) hrest

theorem poll_departs {s t : ServerSystem} {loop : Nat} {ready : List (Nat × EventMask)}
    (h : s.Departs) (hstep : s.step (.poll loop ready) = some t) : t.Departs := by
  replace hstep := (step_eq_some hstep).2
  simp only [perform, Option.ite_none_right_eq_some, Option.some.injEq] at hstep
  obtain ⟨_, rfl⟩ := hstep
  exact h

end ServerSystem

namespace OwnedSystem

/-- The state between steps, as long as the server is there. -/
structure Kempt (s : OwnedSystem) : Prop where
  tidy : s.sys.Tidy none
  departs : s.sys.Departs

theorem kempt_step {s t : OwnedSystem} {e : OwnershipEvent}
    (h : s.sys.serverAlive = true → s.Kempt) (hregular : s.Regular e)
    (hstep : s.step e = some t) : t.sys.serverAlive = true → t.Kempt := by
  intro halive
  obtain ⟨htidy, hdeparts⟩ := h (alive_before hstep halive)
  refine ⟨tidy_step (fun _ => htidy) hregular hstep halive, ?_⟩
  cases stepped hstep with
  | accept hsys => exact ServerSystem.accept_departs hdeparts hsys
  | poll hsys => exact ServerSystem.poll_departs hdeparts hsys
  | handleEvent hactive hidle hsys => exact ServerSystem.handleEvent_departs hdeparts htidy hsys
  | functorReturned hbatch hpending hsys =>
    exact ServerSystem.runFunctor_departs hdeparts htidy hsys
  | load hsys => exact ServerSystem.load_departs hdeparts hsys
  | proceed hcall howner hsys => exact ServerSystem.proceed_departs hdeparts hcall hregular hsys
  | destroy hsys =>
    obtain ⟨_, _, rfl⟩ := ServerSystem.destroy_effect (D := fun _ => True) hsys
    cases halive
  | _ => exact hdeparts

/-- No loop has a functor, is in one or in an event, and user code holds no connection. -/
structure Idle (s : OwnedSystem) : Prop where
  pending : ∀ loop, s.sys.pendingFunctor_ loop = []
  batch : ∀ loop, s.batch loop = none
  guards : ∀ loop, s.guards loop = none
  handles : ∀ id, s.handles id = 0

/-- The connection is there and has not been closed. -/
def Open (s : OwnedSystem) (id : ChannelPtr) (conn : TcpConnection) : Prop :=
  s.sys.conns id = some conn ∧ conn.state_ ≠ .kDisconnected

/-- The open connections are what lives, what the map has and what the pollers have. -/
structure KeepsOpenOnly (s : OwnedSystem) : Prop where
  live : ∀ id, s.Live id ↔ ∃ conn, s.Open id conn
  entries : ∀ name id, (name, id) ∈ s.sys.server.connections_ ↔
    ∃ conn, s.Open id conn ∧ conn.name_ = name
  files : ∀ loop fd id, s.sys.Files loop fd id ↔
    ∃ conn, s.Open id conn ∧ conn.loop_ = loop ∧ conn.channel_.fd_ = fd

/-- In an idle state only entries own connections. -/
theorem Idle.entry_of_live {s : OwnedSystem} {id : ChannelPtr} (h : s.Idle) (hlive : s.Live id) :
    ∃ name, (name, id) ∈ s.sys.server.connections_ := by
  obtain ⟨owner, howner⟩ := hlive
  cases owner with
  | entry name =>
    simp only [holds, Bool.and_eq_true, decide_eq_true_eq] at howner
    exact ⟨name, howner.2⟩
  | pending loop f => simp [holds, h.pending] at howner
  | done loop f => simp [holds, h.batch] at howner
  | guard loop => simp [holds, h.guards] at howner
  | handle => simp [holds, h.handles] at howner

theorem Kempt.keepsOpenOnly {s : OwnedSystem} (h : s.Kempt)
    (halive : s.sys.serverAlive = true) (hidle : s.Idle) : s.KeepsOpenOnly := by
  have hopen : ∀ name id, (name, id) ∈ s.sys.server.connections_ →
      ∃ conn, s.Open id conn ∧ conn.name_ = name := by
    intro name id hentry
    obtain ⟨conn, hconn, hname⟩ := h.tidy.named name id hentry
    refine ⟨conn, ⟨hconn, fun hstate => ?_⟩, hname⟩
    obtain ⟨loop, hf⟩ := h.departs id conn name hconn hstate hentry
    rw [hidle.pending] at hf
    cases hf
  have hkept : ∀ id, s.sys.Kept id → ∃ conn, s.Open id conn := by
    rintro id (⟨name, hentry⟩ | ⟨loop, f, hf, _⟩)
    · obtain ⟨conn, hconn, _⟩ := hopen name id hentry
      exact ⟨conn, hconn⟩
    · rw [hidle.pending] at hf
      cases hf
  have hwatched := watched_of_tidy halive h.tidy
  refine ⟨?_, ?_, ?_⟩
  · intro id
    constructor
    · intro hlive
      exact hkept id (Or.inl (hidle.entry_of_live hlive))
    · rintro ⟨conn, hconn, hstate⟩
      exact live_of_kept halive ((h.tidy.sound id conn (by simp) hconn).kept_of_open hstate)
  · intro name id
    constructor
    · exact hopen name id
    · rintro ⟨conn, ⟨hconn, hstate⟩, rfl⟩
      exact (h.tidy.sound id conn (by simp) hconn).entry hstate
  · intro loop fd id
    constructor
    · intro hfiles
      obtain ⟨conn, hconn, hk, hloop, hfd⟩ := h.tidy.kept_of_files hfiles
      obtain ⟨conn', hconn', hstate⟩ := hkept id hk
      cases hconn.symm.trans hconn'
      exact ⟨conn, ⟨hconn, hstate⟩, hloop, hfd⟩
    · rintro ⟨conn, ⟨hconn, hstate⟩, rfl, rfl⟩
      exact Or.inl (hwatched.opened id conn hconn hstate).1

end OwnedSystem

/-- **No connection leaks.**  In every regular run of accepts, sends, shutdowns, channel
    events and functors, whenever the loops have worked off their functors and user code holds no
    connection, the connections alive are the open ones, and the server's map and the
    pollers have these and no others. -/
theorem idle_server_keeps_open_connections_only (loop : Nat) (name ipPort : String)
    (writeComplete : Bool) (numThreads : Int) (es : List OwnershipEvent)
    (hregular : Along OwnedSystem.step OwnedSystem.Regular
      (OwnedSystem.start loop name ipPort writeComplete numThreads) es) :
    Always OwnedSystem.step
      (fun s => s.sys.serverAlive = true → s.Idle → s.KeepsOpenOnly)
      (OwnedSystem.start loop name ipPort writeComplete numThreads) es := by
  have hstart : (OwnedSystem.start loop name ipPort writeComplete numThreads).Kempt :=
    ⟨OwnedSystem.start_tidy loop name ipPort writeComplete numThreads,
      fun id conn _ hconn => by cases hconn⟩
  have hkempt := always_of_along (I := fun s : OwnedSystem => s.sys.serverAlive = true → s.Kempt)
    (fun _ _ _ h => OwnedSystem.kempt_step h) (fun _ => hstart) hregular
  refine hkempt.mono ?_
  intro s h halive hidle
  exact (h halive).keepsOpenOnly halive hidle

/-- After the first connection has been closed only the second is there. -/
theorem idle_server_keeps_open_connections_only_second :
    Always OwnedSystem.step
      (fun s => s.sys.serverAlive = true → s.Idle → s.KeepsOpenOnly)
      (OwnedSystem.start 0 "server" "0.0.0.0:80" false 0) OwnershipEvent.sameDescriptor :=
  idle_server_keeps_open_connections_only 0 "server" "0.0.0.0:80" false 0 _
    OwnedSystem.regular_same_descriptor

end Muduo
