import Muduo.PollerEntries

/-!
# What the pollers know

A poller knows a channel by its descriptor and its address, from the `enableReading` of
`connectEstablished` to the `remove` of `connectDestroyed`.  In between the connection is
in the server's map or on its way out of it, and both keep it alive.  So as long as the
server is there, no poller holds and no loop handles the channel of a connection that is
gone, also when the kernel gives its descriptor to a new one.
-/

namespace Muduo

open Transitions

namespace ServerSystem

/-! ### What the steps do -/

theorem Called.apart {P : Output → Prop} {s t : ServerSystem} {id : ChannelPtr}
    {conn : TcpConnection} {c : ConnCtx} (h : s.Called t id conn c) (hs : s.Tidy (some id))
    (hreaches : (s.ctx conn).Reaches P c) (hapart : s.Apart id conn) : t.Apart id c.conn := by
  intro other conn' hother hconn' hkept
  rw [h.conns_other hother] at hconn'
  have hfd : c.conn.channel_.fd_ = conn.channel_.fd_ := hreaches.beside.fd_eq
  have hname : c.conn.name_ = conn.name_ := hreaches.name_eq
  rw [Differ, hfd, hname]
  exact hapart other conn' hother hconn' ((h.kept_other hs (fun _ => hapart) hother).mp hkept)

theorem Placed.call {P : Output → Prop} {s t : ServerSystem} {thread : Nat} {id : ChannelPtr}
    {what : List LoopStep} {method : ConnCtx → Except Fault ConnCtx} (h : s.Placed)
    (hmethod : ∀ c c', method c = .ok c' → c.Reaches P c')
    (hcall : s.call thread id what method = some t) : t.Placed := by
  obtain ⟨conn, _, hconn, _⟩ := call_eq_some hcall
  exact (call_grows (P := fun _ => True) h ⟨conn, hconn, rfl⟩ hmethod (fun _ _ _ _ _ _ => trivial)
    hcall).1.placed

/-- A method that leaves its connection open or closed as it was. -/
theorem Tidy.steady {s t : ServerSystem} {thread : Nat} {id : ChannelPtr} {what : List LoopStep}
    {method : ConnCtx → Except Fault ConnCtx} (h : s.Tidy none)
    (hreaches : ∀ c c', method c = .ok c' → c.Reaches Emitted c')
    (hsteady : ∀ conn c, s.conns id = some conn → method (s.ctx conn) = .ok c →
      (s.ctx conn).Steady c)
    (hcall : s.call thread id what method = some t) : t.Tidy none := by
  obtain ⟨conn, c, hconn, hc, hcalled⟩ := call_called hreaches hcall
  have hreach := hreaches _ c hc
  have hsame := hsteady conn c hconn hc
  have hquiet : .closeCallback ∉ c.outputs := by
    rw [← hsame.outputs]
    simp [ctx]
  have htidy := hcalled.tidy (h.begin_ id) hconn hreach.name_eq (h.placed.call hreaches hcall)
    (h.frame_steady hconn hreach hsame) fun hcloses => absurd hcloses hquiet
  apply htidy.finish
  · intro conn' hconn'
    rw [hcalled.conns_self] at hconn'
    cases hconn'
    refine ⟨hcalled.sound_steady (h.sound id conn (by simp) hconn) hreach hsame, fun hkept => ?_⟩
    exact hcalled.apart (h.begin_ id) hreach
      (h.apart_of_kept hconn ((hcalled.kept_of_kept hquiet).mp hkept))
  · intro loop mask hmem
    rw [hcalled.active_eq] at hmem
    exact (hcalled.kept_of_kept hquiet).mpr (h.active loop id mask hmem (by simp))

/-- Closing on another thread than the server's queues the removal. -/
theorem closeCallback_posts {s t : ServerSystem} {thread : Nat} {id : ChannelPtr}
    {conn : TcpConnection} {outputs : List Output} (houtputs : ∀ o ∈ outputs, Emitted o)
    (hcloses : .closeCallback ∈ outputs) (hthread : thread ≠ s.server.loop_)
    (hfold : outputs.foldlM (react thread id conn) s = some t) :
    .removeConnectionInLoop id ∈ t.pendingFunctor_ s.server.loop_ := by
  obtain ⟨before, after, hsplit⟩ := List.append_of_mem hcloses
  have hemitted : ∀ o ∈ outputs, Emitted o ∧ o ∈ outputs := fun o ho => ⟨houtputs o ho, ho⟩
  rw [hsplit, List.foldlM_append] at hfold
  obtain ⟨u, hbefore, hrest⟩ := Option.bind_eq_some_iff.mp hfold
  rw [List.foldlM_cons] at hrest
  obtain ⟨v, hreact, hafter⟩ := Option.bind_eq_some_iff.mp hrest
  have hfirst : ∀ o ∈ before, Emitted o ∧ o ∈ outputs := by
    intro o ho
    apply hemitted o
    rw [hsplit]
    exact List.mem_append_left _ ho
  have hlast : ∀ o ∈ after, Emitted o ∧ o ∈ outputs := by
    intro o ho
    apply hemitted o
    rw [hsplit]
    exact List.mem_append_right _ (List.mem_cons_of_mem _ ho)
  have hloop : u.server.loop_ = s.server.loop_ := (foldlM_react_effect hfirst hbefore).loop_eq
  apply (foldlM_react_effect hlast hafter).kept
  simp only [react, hloop, if_neg hthread] at hreact
  split at hreact
  · cases hreact
    simp [queueInLoop]
  · cases hreact

/-- A handled event, with the channel taken from the active ones. -/
theorem Tidy.event {s t : ServerSystem} {loop : Nat} {id : ChannelPtr} {what : List LoopStep}
    {method : ConnCtx → Except Fault ConnCtx} (h : s.Tidy none) (howned : s.OwnedBy id loop)
    (hkept : s.Kept id) (hinactive : ∀ loop mask, (id, mask) ∉ s.activeChannels_ loop)
    (hreaches : ∀ c c', method c = .ok c' → c.Reaches Emitted c')
    (houtcome : ∀ c c', method c = .ok c' → c.Outcome c')
    (hcall : s.call loop id what method = some t) : t.Tidy none := by
  obtain ⟨conn, c, hconn, hc, hcalled⟩ := call_called hreaches hcall
  have hreach := hreaches _ c hc
  have hsound := h.sound id conn (by simp) hconn
  have hapart := h.apart_of_kept hconn hkept
  have htidy := hcalled.tidy (h.begin_ id) hconn hreach.name_eq (h.placed.call hreaches hcall)
    (.of_apart hreach (h.placed.ptr id conn hconn) (hsound.known hkept) hapart) fun _ => hapart
  apply htidy.finish
  · intro conn' hconn'
    rw [hcalled.conns_self] at hconn'
    cases hconn'
    refine ⟨?_, fun _ => hcalled.apart (h.begin_ id) hreach hapart⟩
    rcases houtcome _ c hc with hsteady | hclosed
    · exact hcalled.sound_steady hsound hreach hsteady
    · have hknown := hcalled.known hreach (hsound.known hkept)
      have hlocated := hcalled.located hreach hsound.located
      have hserver : c.conn.serverLoop_ = s.server.loop_ :=
        hreach.beside.serverLoop_eq.trans hsound.serverLoop
      refine ⟨hserver.trans hcalled.effect.loop_eq.symm, fun hopen => absurd hclosed.shut.1 hopen,
        fun _ => hclosed.shut.1, fun hopen => absurd hclosed.shut.1 hopen, fun _ => hclosed.shut,
        fun _ => hknown, hlocated, ?_⟩
      intro hgone
      have hnew : c.conn.channel_.index_ = kNew := by
        apply hclosed.removed
        obtain ⟨conn', hconn', rfl⟩ := howned
        cases hconn.symm.trans hconn'
        have hloop : c.conn.loop_ = conn.loop_ := hreach.framed.loop_eq
        rw [hserver, hloop]
        by_contra hne
        obtain ⟨conn', c', hconn', hc', hfold⟩ := call_eq_some hcall
        cases hconn.symm.trans hconn'
        cases (hc.symm.trans hc' : Except.ok c = Except.ok c')
        obtain ⟨os, hos, houtputs⟩ := hreach.outputs
        rw [show c.outputs = os from hos] at hfold
        refine hgone (Or.inr ⟨s.server.loop_, .removeConnectionInLoop id,
          closeCallback_posts (s := s.commit conn.loop_ id what c) houtputs ?_ (Ne.symm hne) hfold,
          rfl, rfl⟩)
        rw [← show c.outputs = os from hos]
        exact hclosed.called
      refine ⟨hnew, ?_⟩
      intro l fd hfiles
      obtain ⟨rfl, rfl⟩ := hlocated l fd hfiles
      exact not_files_of_new hknown hnew hfiles
  · intro l mask hmem
    rw [hcalled.active_eq] at hmem
    exact absurd hmem (hinactive l mask)

/-- `connectDestroyed` on a closed connection, whatever is still queued for it. -/
theorem Tidy.destroyed {s t : ServerSystem} {thread : Nat} {id : ChannelPtr}
    {conn : TcpConnection} {what : List LoopStep} (h : s.Tidy (some id))
    (hconn : s.conns id = some conn) (hserver : conn.serverLoop_ = s.server.loop_)
    (hshut : (s.ctx conn).Shut) (hknown : (s.ctx conn).Known)
    (hlocated : ∀ loop fd, s.Files loop fd id → loop = conn.loop_ ∧ fd = conn.channel_.fd_)
    (hapart : s.Apart id conn) (hinactive : ∀ loop mask, (id, mask) ∉ s.activeChannels_ loop)
    (hcall : s.call thread id what (fun c => .ok c.connectDestroyed) = some t) : t.Tidy none := by
  have hreaches : ∀ c c' : ConnCtx, (Except.ok c.connectDestroyed : Except Fault ConnCtx) = .ok c' →
      c.Reaches Emitted c' :=
    ConnCtx.reaches_of_total (ConnCtx.connectDestroyed_reaches fun _ => Or.inl)
  obtain ⟨conn', c, hconn', hc, hcalled⟩ := call_called hreaches hcall
  cases hconn.symm.trans hconn'
  have hreach := hreaches _ c hc
  have hremoved : c = (s.ctx conn).remove := by
    rw [← ConnCtx.connectDestroyed_of_shut hshut]
    exact (Except.ok.inj hc).symm
  have htidy := hcalled.tidy h hconn hreach.name_eq (h.placed.call hreaches hcall)
    (.of_apart hreach (h.placed.ptr id conn hconn) hknown hapart) fun _ => hapart
  have hclosed : c.Shut := by
    rw [hremoved]
    exact hshut
  have hknown' := hcalled.known hreach hknown
  have hlocated' := hcalled.located hreach hlocated
  have hnew : c.conn.channel_.index_ = kNew := by
    rw [hremoved]
    rfl
  apply htidy.finish
  · intro conn' hconn'
    rw [hcalled.conns_self] at hconn'
    cases hconn'
    refine ⟨⟨?_, fun hopen => absurd hclosed.1 hopen, fun _ => hclosed.1,
      fun hopen => absurd hclosed.1 hopen, fun _ => hclosed, fun _ => hknown', hlocated', ?_⟩,
      fun _ => hcalled.apart h hreach hapart⟩
    · exact (hreach.beside.serverLoop_eq.trans hserver).trans hcalled.effect.loop_eq.symm
    · intro _
      refine ⟨hnew, ?_⟩
      intro loop fd hfiles
      obtain ⟨rfl, rfl⟩ := hlocated' loop fd hfiles
      exact not_files_of_new hknown' hnew hfiles
  · intro loop mask hmem
    rw [hcalled.active_eq] at hmem
    exact absurd hmem (hinactive loop mask)

theorem queueInLoop_leaving {s : ServerSystem} {loop : Nat} {f : LoopFunctor} {id : ChannelPtr}
    (hf : f.ends = true → f.target ≠ id) :
    (s.queueInLoop loop f).Leaving id ↔ s.Leaving id := by
  have heffect : Effect (· = f) (fun _ => False) s (s.queueInLoop loop f) :=
    queueInLoop_effect s loop rfl
  constructor
  · rintro ⟨l, g, hg, hends, htarget⟩
    rcases heffect.added l g hg with hold | rfl
    · exact ⟨l, g, hold, hends, htarget⟩
    · exact absurd htarget (hf hends)
  · rintro ⟨l, g, hg, hends, htarget⟩
    exact ⟨l, g, heffect.kept l g hg, hends, htarget⟩

/-- Queueing a functor; a removal only of the connection whose step it is. -/
theorem Tidy.queue {busy : Option ChannelPtr} {s : ServerSystem} {loop : Nat} {f : LoopFunctor}
    (h : s.Tidy busy) (howned : ∀ id g, f = .conn id g → s.OwnedBy id loop)
    (hends : f.ends = true → some f.target = busy ∧ ∃ conn, s.conns f.target = some conn)
    (hestablish : ∀ id, f ≠ .conn id .connectEstablished) : (s.queueInLoop loop f).Tidy busy := by
  have heffect : Effect (· = f) (fun _ => False) s (s.queueInLoop loop f) :=
    queueInLoop_effect s loop rfl
  refine h.transfer (queueInLoop_grows (P := fun _ => True) h.placed howned).placed
    (fun _ _ hconn => hconn) (fun _ _ => rfl) rfl rfl (fun _ _ _ => Iff.rfl) h.named ?_ ?_ h.active
    h.distinct ?_
  · intro id hid
    apply queueInLoop_leaving
    intro hf htarget
    rw [htarget] at hends
    exact hid (hends hf).1
  · rintro id ⟨l, g, hg, hgends, rfl⟩
    rcases heffect.added l g hg with hold | rfl
    · exact h.leaves _ ⟨l, g, hold, hgends, rfl⟩
    · exact (hends hgends).2
  · intro l id hmem
    rcases heffect.added l _ hmem with hold | hnew
    · exact h.established l id hold
    · exact hestablish id hnew.symm

theorem mem_popFunctor {s : ServerSystem} {loop l : Nat} {f g : LoopFunctor}
    {rest : List LoopFunctor} (hpending : s.pendingFunctor_ loop = f :: rest)
    (hg : g ∈ (s.popFunctor loop rest).pendingFunctor_ l) : g ∈ s.pendingFunctor_ l :=
  mem_of_mem_update_tail hpending hg

theorem popFunctor_leaving {s : ServerSystem} {loop : Nat} {f : LoopFunctor}
    {rest : List LoopFunctor} {id : ChannelPtr} (hpending : s.pendingFunctor_ loop = f :: rest)
    (hf : f.ends = true → f.target ≠ id) : (s.popFunctor loop rest).Leaving id ↔ s.Leaving id := by
  constructor
  · rintro ⟨l, g, hg, hends, htarget⟩
    exact ⟨l, g, mem_popFunctor hpending hg, hends, htarget⟩
  · rintro ⟨l, g, hg, hends, htarget⟩
    refine ⟨l, g, ?_, hends, htarget⟩
    by_cases hl : l = loop
    · subst hl
      rw [hpending] at hg
      rcases List.mem_cons.mp hg with rfl | hrest
      · exact absurd htarget (hf hends)
      · simpa [popFunctor] using hrest
    · simpa [popFunctor, Function.update_of_ne hl] using hg

/-- Taking a functor from a queue; a removal only of the connection whose step it is. -/
theorem Tidy.pop {busy : Option ChannelPtr} {s : ServerSystem} {loop : Nat} {f : LoopFunctor}
    {rest : List LoopFunctor} (h : s.Tidy busy) (hpending : s.pendingFunctor_ loop = f :: rest)
    (hends : f.ends = true → some f.target = busy) : (s.popFunctor loop rest).Tidy busy := by
  have hplaced : (s.popFunctor loop rest).Placed :=
    (h.placed.requeue (P := fun _ => True) h.placed.active fun l id g hmem =>
      h.placed.pending l id g (mem_of_mem_update_tail hpending hmem)).placed
  refine h.transfer hplaced (fun _ _ hconn => hconn) (fun _ _ => rfl) rfl rfl
    (fun _ _ _ => Iff.rfl) h.named ?_ ?_ h.active h.distinct ?_
  · intro id hid
    apply popFunctor_leaving hpending
    intro hf htarget
    rw [← htarget] at hid
    exact hid (hends hf)
  · rintro id ⟨l, g, hg, hgends, htarget⟩
    exact h.leaves id ⟨l, g, mem_popFunctor hpending hg, hgends, htarget⟩
  · intro l id hmem
    exact h.established l id (mem_popFunctor hpending hmem)

/-- Erasing the name of the connection whose step it is. -/
theorem Tidy.erase {s : ServerSystem} {id : ChannelPtr} {conn : TcpConnection}
    (h : s.Tidy (some id)) (hapart : s.Apart id conn) :
    (s.eraseConnection conn).Tidy (some id) := by
  refine h.transfer (eraseConnection_grows (P := fun _ => True) conn h.placed).placed
    (fun _ _ hconn => hconn) (fun _ _ => rfl) rfl rfl ?_
    (fun name other hentry => h.named name other (List.mem_of_mem_filter hentry))
    (fun _ _ => Iff.rfl) h.leaves h.active h.distinct h.established
  intro name other hother
  refine ⟨List.mem_of_mem_filter, fun hentry => ?_⟩
  simp only [eraseConnection, List.mem_filter, decide_eq_true_eq]
  refine ⟨hentry, ?_⟩
  rintro rfl
  obtain ⟨conn', hconn', hname⟩ := h.named _ other hentry
  have hne : other ≠ id := by simpa using hother
  exact (hapart other conn' hne hconn' (Or.inl ⟨_, hentry⟩)).2 hname

theorem Kept.mono {s t : ServerSystem} {id : ChannelPtr} (h : t.Kept id)
    (hentries : ∀ item ∈ t.server.connections_, item ∈ s.server.connections_)
    (hleaving : t.Leaving id → s.Leaving id) : s.Kept id :=
  h.imp (fun ⟨name, hentry⟩ => ⟨name, hentries _ hentry⟩) hleaving

theorem Apart.mono {s t : ServerSystem} {id : ChannelPtr} {conn : TcpConnection}
    (h : s.Apart id conn) (hconns : t.conns = s.conns)
    (hkept : ∀ other, other ≠ id → t.Kept other → s.Kept other) : t.Apart id conn := by
  intro other conn' hother hconn' hkept'
  rw [hconns] at hconn'
  exact h other conn' hother hconn' (hkept other hother hkept')

/-- A connection of a loop with nothing to handle is not active. -/
theorem Placed.inactive {s : ServerSystem} {id : ChannelPtr} {loop : Nat} (h : s.Placed)
    (howned : s.OwnedBy id loop) (hempty : s.activeChannels_ loop = []) :
    ∀ l mask, (id, mask) ∉ s.activeChannels_ l := by
  intro l mask hmem
  obtain ⟨conn, hconn, rfl⟩ := howned
  obtain ⟨conn', hconn', rfl⟩ := h.active l id mask hmem
  cases hconn.symm.trans hconn'
  rw [hempty] at hmem
  cases hmem

theorem sendInLoop_tidy {s t : ServerSystem} {thread : Nat} {id : ChannelPtr} {what : List LoopStep}
    {message : List UInt8} {w : WriteResult} (h : s.Tidy none)
    (hcall : s.call thread id what (fun c => c.sendInLoop message w) = some t) : t.Tidy none :=
  h.steady (fun _ _ => ConnCtx.sendInLoop_reaches fun _ => Or.inl)
    (fun _ _ _ => ConnCtx.sendInLoop_steady) hcall

/-- The functors that are not a removal. -/
theorem runConnFunctor_tidy {s t : ServerSystem} {thread : Nat} {id : ChannelPtr} {w : WriteResult}
    {f : ConnFunctor} (h : s.Tidy none) (hends : (LoopFunctor.conn id f).ends = false)
    (hest : f ≠ .connectEstablished) (hrun : s.runConnFunctor thread id w f = some t) :
    t.Tidy none := by
  cases f with
  | connectEstablished => exact absurd rfl hest
  | connectDestroyed => cases hends
  | sendInLoop message => exact sendInLoop_tidy h hrun
  | shutdownInLoop =>
    refine h.steady (ConnCtx.reaches_of_total (ConnCtx.shutdownInLoop_reaches fun _ => Or.inl)) ?_
      hrun
    intro conn c _ hok
    cases hok
    exact ConnCtx.shutdownInLoop_steady _
  | writeCompleteCallback | highWaterMarkCallback =>
    cases hrun
    exact h

/-- A removal that is taken from the queue of `loop`. -/
theorem Tidy.remove {s t : ServerSystem} {loop : Nat} {f : LoopFunctor} {rest : List LoopFunctor}
    {w : WriteResult} (h : s.Tidy none) (hempty : s.activeChannels_ loop = [])
    (hpending : s.pendingFunctor_ loop = f :: rest) (hends : f.ends = true)
    (hrun : (s.popFunctor loop rest).runFunctor loop w f = some t) : t.Tidy none := by
  have hmem : f ∈ s.pendingFunctor_ loop := by
    rw [hpending]
    exact List.mem_cons_self ..
  have hleaving : s.Leaving f.target := ⟨loop, f, hmem, hends, rfl⟩
  obtain ⟨conn, hconn⟩ := h.leaves _ hleaving
  have hsound := h.sound _ conn (by simp) hconn
  have hstate := hsound.leaving hleaving
  have hapart : (s.popFunctor loop rest).Apart f.target conn := by
    refine (h.apart_of_kept hconn (Or.inr hleaving)).mono rfl ?_
    intro other hother hkept
    exact hkept.mono (fun _ hitem => hitem)
      (popFunctor_leaving hpending fun _ htarget => hother htarget.symm).mp
  have htidy : (s.popFunctor loop rest).Tidy (some f.target) :=
    (h.begin_ _).pop hpending fun _ => rfl
  cases f with
  | conn id g =>
    cases g with
    | connectDestroyed =>
      exact htidy.destroyed hconn hsound.serverLoop (hsound.shut hstate)
        (hsound.known (Or.inr hleaving)) hsound.located hapart
        (h.placed.inactive (h.placed.pending loop id _ hmem) hempty) hrun
    | _ => cases hends
  | removeConnectionInLoop id =>
    simp only [runFunctor] at hrun
    split at hrun
    · obtain ⟨conn', hconn', hremove⟩ := Option.bind_eq_some_iff.mp hrun
      cases hconn.symm.trans hconn'
      have herased := htidy.erase hapart
      have hapart' : ((s.popFunctor loop rest).eraseConnection conn).Apart id conn := by
        refine hapart.mono rfl ?_
        intro other _ hkept
        exact hkept.mono (fun _ => List.mem_of_mem_filter) fun hleaving' => hleaving'
      simp only [runInLoop] at hremove
      split at hremove
      · next hloop =>
        exact herased.destroyed hconn hsound.serverLoop (hsound.shut hstate)
          (hsound.known (Or.inr hleaving)) hsound.located hapart'
          (h.placed.inactive ⟨conn, hconn, hloop.symm⟩ hempty) hremove
      · cases hremove
        have hposted : (((s.popFunctor loop rest).eraseConnection conn).queueInLoop conn.loop_
            (.conn id .connectDestroyed)).Leaving id :=
          ⟨conn.loop_, .conn id .connectDestroyed, by simp [queueInLoop], rfl, rfl⟩
        refine (herased.queue ?_ ?_ (by simp)).finish ?_ fun _ _ _ => Or.inr hposted
        · intro id' g heq
          cases heq
          exact ⟨conn, hconn, rfl⟩
        · intro _
          exact ⟨rfl, conn, hconn⟩
        · intro conn'' hconn''
          cases hconn.symm.trans hconn''
          refine ⟨⟨hsound.serverLoop, fun hopen => absurd hstate hopen, fun _ => hstate,
            fun hopen => absurd hstate hopen, hsound.shut,
            fun _ => hsound.known (Or.inr hleaving), hsound.located,
            fun hgone => absurd (Or.inr hposted) hgone⟩, fun _ => hapart'.mono rfl ?_⟩
          intro other hother hkept
          exact hkept.mono (fun _ hitem => hitem)
            (queueInLoop_leaving fun _ htarget => hother htarget.symm).mp
    · cases hrun

theorem poll_tidy {s t : ServerSystem} {loop : Nat} {ready : List (Nat × EventMask)}
    (h : s.Tidy none) (hready : (ready.map Prod.fst).Nodup)
    (hstep : s.step (.poll loop ready) = some t) : t.Tidy none := by
  have hplaced : t.Placed := h.placed.step hstep
  replace hstep := (step_eq_some hstep).2
  simp only [perform, Option.ite_none_right_eq_some, Option.some.injEq] at hstep
  obtain ⟨_, rfl⟩ := hstep
  refine h.transfer hplaced (fun _ _ hconn => hconn) (fun _ _ => rfl) rfl rfl (fun _ _ _ => Iff.rfl)
    h.named (fun _ _ => Iff.rfl) h.leaves ?_ ?_ h.established
  · intro l id mask hmem _
    by_cases hl : l = loop
    · subst hl
      simp only [Function.update_self, reported, List.mem_filterMap, Option.map_eq_some_iff,
        Prod.mk.injEq] at hmem
      obtain ⟨⟨fd, m⟩, _, event, hevent, hid, _⟩ := hmem
      obtain ⟨_, _, hkept, _⟩ := h.kept_of_files (Or.inr ⟨event, hevent, hid⟩ : s.Files l fd id)
      exact hkept
    · simp only [Function.update_of_ne hl] at hmem
      exact h.active l id mask hmem (by simp)
  · intro l
    by_cases hl : l = loop
    · subst hl
      simp only [Function.update_self, reported, List.Nodup, List.pairwise_map] at hready ⊢
      refine hready.filterMap _ ?_
      rintro ⟨fd, m⟩ ⟨fd', m'⟩ hne ⟨id, _⟩ hid ⟨id', _⟩ hid' heq
      simp only [Option.map_eq_some_iff, Prod.mk.injEq] at hid hid'
      obtain ⟨event, hevent, hdata, _⟩ := hid
      obtain ⟨event', hevent', hdata', _⟩ := hid'
      have hsame : id = id' := heq
      rw [← hsame] at hdata'
      obtain ⟨conn, hconn, _, _, hfd⟩ :=
        h.kept_of_files (Or.inr ⟨event, hevent, hdata⟩ : s.Files l fd id)
      obtain ⟨conn', hconn', _, _, hfd'⟩ :=
        h.kept_of_files (Or.inr ⟨event', hevent', hdata'⟩ : s.Files l fd' id)
      cases hconn.symm.trans hconn'
      exact hne (hfd.symm.trans hfd')
    · simpa only [Function.update_of_ne hl] using h.distinct l

theorem handleEvent_tidy {s t : ServerSystem} {loop : Nat} {ownerAlive : Bool} {r : ReadResult}
    {w : WriteResult} (h : s.Tidy none)
    (hstep : s.step (.handleEvent loop ownerAlive r w) = some t) : t.Tidy none := by
  replace hstep := (step_eq_some hstep).2
  simp only [perform] at hstep
  split at hstep
  · cases hstep
  · next id mask rest hactive =>
    have hmem : (id, mask) ∈ s.activeChannels_ loop := by
      rw [hactive]
      exact List.mem_cons_self ..
    have hplaced : ({ s with activeChannels_ := Function.update s.activeChannels_ loop rest } :
        ServerSystem).Placed :=
      (h.placed.requeue (P := fun _ => True)
        (fun l id' mask' hm => h.placed.active l id' mask' (mem_of_mem_update_tail hactive hm))
        h.placed.pending).placed
    have hnext : ({ s with activeChannels_ := Function.update s.activeChannels_ loop rest } :
        ServerSystem).Tidy none := by
      refine h.transfer hplaced (fun _ _ hconn => hconn) (fun _ _ => rfl) rfl rfl
        (fun _ _ _ => Iff.rfl) h.named (fun _ _ => Iff.rfl) h.leaves ?_ ?_ h.established
      · intro l id' mask' hm _
        exact h.active l id' mask' (mem_of_mem_update_tail hactive hm) (by simp)
      · intro l
        by_cases hl : l = loop
        · subst hl
          have hdistinct := h.distinct l
          rw [hactive, List.map_cons, List.nodup_cons] at hdistinct
          simpa using hdistinct.2
        · simpa [Function.update_of_ne hl] using h.distinct l
    have howned := h.placed.active loop id mask hmem
    refine hnext.event howned (h.active loop id mask hmem (by simp)) ?_
      (fun _ _ => ConnCtx.handleEvent_reaches (fun _ => Or.inl) fun _ _ => Or.inr (Or.inl rfl))
      (fun _ _ => ConnCtx.handleEvent_outcome) hstep
    intro l mask' hm
    by_cases hl : l = loop
    · subst hl
      have hdistinct := h.distinct l
      rw [hactive, List.map_cons, List.nodup_cons] at hdistinct
      apply hdistinct.1
      simp only [Function.update_self] at hm
      exact List.mem_map.mpr ⟨_, hm, rfl⟩
    · simp only [Function.update_of_ne hl] at hm
      obtain ⟨conn, hconn, rfl⟩ := howned
      obtain ⟨conn', hconn', rfl⟩ := h.placed.active l id mask' hm
      cases hconn.symm.trans hconn'
      exact hl rfl

theorem runFunctor_tidy {s t : ServerSystem} {loop : Nat} {w : WriteResult} (h : s.Tidy none)
    (hstep : s.step (.runFunctor loop w) = some t) : t.Tidy none := by
  replace hstep := (step_eq_some hstep).2
  simp only [perform] at hstep
  split at hstep
  · next f rest hempty hpending =>
    cases hends : f.ends with
    | true => exact h.remove hempty hpending hends hstep
    | false =>
      have hnext : (s.popFunctor loop rest).Tidy none :=
        h.pop hpending fun hf => by simp [hends] at hf
      cases f with
      | removeConnectionInLoop id => cases hends
      | conn id g =>
        refine runConnFunctor_tidy hnext hends ?_ hstep
        rintro rfl
        apply h.established loop id
        rw [hpending]
        exact List.mem_cons_self ..
  · cases hstep

/-- The calls that threads are in play no part in the registrations. -/
theorem Tidy.setCalls {s : ServerSystem} (h : s.Tidy none)
    (calls : Nat → Option (ChannelPtr × UserCall)) : Tidy none { s with calls := calls } :=
  h.transfer (setCalls_grows (P := fun _ => True) h.placed calls).placed (fun _ _ hconn => hconn)
    (fun _ _ => rfl) rfl rfl (fun _ _ _ => Iff.rfl) h.named (fun _ _ => Iff.rfl) h.leaves h.active
    h.distinct h.established

theorem load_tidy {s t : ServerSystem} {thread : Nat} {id : ChannelPtr} {call : UserCall}
    (h : s.Tidy none) (hstep : s.step (.load thread id call) = some t) : t.Tidy none := by
  obtain ⟨conn, _, hload⟩ := Option.bind_eq_some_iff.mp (step_eq_some hstep).2
  split at hload
  · cases hload
    exact h.setCalls _
  · cases hload
    exact h

/-- No `shutdown()` stores `kDisconnecting` in a connection that has been closed. -/
def InTime (s : ServerSystem) (thread : Nat) : Prop :=
  ∀ id conn, s.calls thread = some (id, .shutdown) → s.conns id = some conn →
    conn.state_ ≠ .kDisconnected

theorem InTime.steady {s : ServerSystem} {thread : Nat} {id : ChannelPtr} {conn : TcpConnection}
    {c : ConnCtx} (h : s.InTime thread) (hcall : s.calls thread = some (id, .shutdown))
    (hconn : s.conns id = some conn)
    (hok : (Except.ok (s.ctx conn).shutdownStore : Except Fault ConnCtx) = .ok c) :
    (s.ctx conn).Steady c := by
  cases hok
  exact ConnCtx.shutdownStore_steady (h id conn hcall hconn)

theorem shutdownStore_emitted {c c' : ConnCtx}
    (h : (Except.ok c.shutdownStore : Except Fault ConnCtx) = .ok c') : c.Reaches Emitted c' :=
  ConnCtx.reaches_of_total (ConnCtx.shutdownStore_reaches (Or.inr (Or.inr rfl))) c c' h

theorem proceed_tidy {s t : ServerSystem} {thread : Nat} {id : ChannelPtr} {call : UserCall}
    {w : WriteResult} (h : s.Tidy none) (hcall : s.calls thread = some (id, call))
    (hintime : s.InTime thread) (hstep : s.step (.proceed thread w) = some t) : t.Tidy none := by
  have hrest := proceed_eq_some hcall hstep
  have hnext : (s.endCall thread).Tidy none := h.setCalls _
  cases call with
  | send message =>
    obtain ⟨conn, hconn, hsend⟩ := Option.bind_eq_some_iff.mp hrest
    simp only [runInLoop] at hsend
    split at hsend
    · exact sendInLoop_tidy hnext hsend
    · cases hsend
      refine hnext.queue ?_ (fun hf => by cases hf) (by simp)
      intro id' g heq
      cases heq
      exact ⟨conn, hconn, rfl⟩
  | shutdown =>
    exact hnext.steady (fun _ _ => shutdownStore_emitted)
      (fun _ _ hconn => hintime.steady hcall hconn) hrest

/-- The kernel gives the connection a descriptor, and the server a name, that no kept
    connection has. -/
def Fresh (s : ServerSystem) (sockfd : Nat) : Prop :=
  ∀ id conn, s.conns id = some conn → s.Kept id →
    conn.channel_.fd_ ≠ sockfd ∧ conn.name_ ≠ s.nextName

/-- The connection that `newConnection` makes. -/
def nextConnection (s : ServerSystem) (sockfd : Nat) (id : ChannelPtr) : TcpConnection :=
  TcpConnection.new s.server.threadPool_.getNextLoop.1 s.server.loop_ s.nextName sockfd id
    s.server.writeCompleteCallback_

theorem createConnection_conns (s : ServerSystem) (sockfd : Nat) (id : ChannelPtr) :
    (s.createConnection sockfd id).conns =
      Function.update s.conns id (some (s.nextConnection sockfd id)) := rfl

theorem createConnection_entries (s : ServerSystem) (sockfd : Nat) (id : ChannelPtr) :
    (s.createConnection sockfd id).server.connections_ =
      (s.nextName, id) :: s.server.connections_.filter fun item => item.1 ≠ s.nextName := rfl

theorem Tidy.create {s : ServerSystem} {sockfd : Nat} {id : ChannelPtr} (h : s.Tidy none)
    (hnew : s.conns id = none) (hfresh : s.Fresh sockfd) :
    (s.createConnection sockfd id).Tidy (some id) := by
  have hsome : ∀ other conn, s.conns other = some conn → other ≠ id := by
    rintro other conn hconn rfl
    rw [hnew] at hconn
    cases hconn
  have hkeep : ∀ other conn, s.conns other = some conn →
      (s.createConnection sockfd id).conns other = some conn := by
    intro other conn hconn
    rw [createConnection_conns, Function.update_of_ne (hsome other conn hconn), hconn]
  have hentries : ∀ name other, other ≠ id →
      ((name, other) ∈ (s.createConnection sockfd id).server.connections_ ↔
        (name, other) ∈ s.server.connections_) := by
    intro name other hother
    rw [createConnection_entries, List.mem_cons]
    constructor
    · rintro (heq | hentry)
      · exact absurd (Prod.mk.inj heq).2 hother
      · exact List.mem_of_mem_filter hentry
    · intro hentry
      refine Or.inr (List.mem_filter.mpr ⟨hentry, ?_⟩)
      obtain ⟨conn, hconn, rfl⟩ := h.named name other hentry
      simpa using (hfresh other conn hconn (Or.inl ⟨_, hentry⟩)).2
  refine (h.begin_ id).transfer
    (createConnection_grows (P := fun _ => True) sockfd h.placed hnew).1.placed
    hkeep ?_ rfl rfl ?_ ?_ (fun _ _ => Iff.rfl) ?_ (h.begin_ id).active h.distinct h.established
  · intro other hother
    rw [createConnection_conns, Function.update_of_ne (by simpa using hother)]
  · intro name other hother
    exact hentries name other (by simpa using hother)
  · intro name other hentry
    by_cases hother : other = id
    · subst hother
      rw [createConnection_entries, List.mem_cons] at hentry
      refine ⟨s.nextConnection sockfd other, ?_, ?_⟩
      · rw [createConnection_conns, Function.update_self]
      · rcases hentry with heq | hold
        · exact (Prod.mk.inj heq).1.symm
        · obtain ⟨conn, hconn, _⟩ := h.named name other (List.mem_of_mem_filter hold)
          exact absurd rfl (hsome other conn hconn)
    · obtain ⟨conn, hconn, hname⟩ := h.named name other ((hentries name other hother).mp hentry)
      exact ⟨conn, hkeep other conn hconn, hname⟩
  · intro other hleaving
    obtain ⟨conn, hconn⟩ := h.leaves other hleaving
    exact ⟨conn, hkeep other conn hconn⟩

/-- A descriptor that no kept connection has is free in every poller. -/
theorem Tidy.free {s : ServerSystem} {sockfd : Nat} (h : s.Tidy none) (hfresh : s.Fresh sockfd)
    (loop : Nat) : (s.pollers loop).m_channels sockfd = none ∧
      (s.pollers loop).interest sockfd = none := by
  have hnone : ∀ id, ¬ s.Files loop sockfd id := by
    intro id hfiles
    obtain ⟨conn, hconn, hkept, _, hfd⟩ := h.kept_of_files hfiles
    exact (hfresh id conn hconn hkept).1 hfd
  constructor
  · by_contra hsome
    obtain ⟨id, hid⟩ := Option.ne_none_iff_exists'.mp hsome
    exact hnone id (Or.inl hid)
  · by_contra hsome
    obtain ⟨event, hevent⟩ := Option.ne_none_iff_exists'.mp hsome
    exact hnone event.data (Or.inr ⟨event, hevent, rfl⟩)

theorem connectEstablished_emitted {c c' : ConnCtx}
    (h : (Except.ok c.connectEstablished : Except Fault ConnCtx) = .ok c') :
    c.Reaches Emitted c' :=
  ConnCtx.reaches_of_total (ConnCtx.connectEstablished_reaches fun _ => Or.inl) c c' h

/-- A new connection is registered under a descriptor of its own. -/
theorem accept_tidy {s t : ServerSystem} {sockfd : Nat} {id : ChannelPtr} (h : s.Tidy none)
    (hfresh : s.Fresh sockfd) (hstep : s.step (.accept sockfd id) = some t) : t.Tidy none := by
  replace hstep := (step_eq_some hstep).2
  simp only [perform, Option.ite_none_right_eq_some] at hstep
  obtain ⟨⟨_, hnew⟩, hstep⟩ := hstep
  simp only [newConnection, runInLoop, if_true, runConnFunctor] at hstep
  have hcreated := h.create hnew hfresh
  have hunused : ∀ conn, s.conns id ≠ some conn := by
    intro conn hconn
    rw [hnew] at hconn
    cases hconn
  obtain ⟨conn, c, hconn, hc, hcalled⟩ := call_called (fun _ _ => connectEstablished_emitted) hstep
  rw [createConnection_conns, Function.update_self] at hconn
  cases hconn
  have hreach := connectEstablished_emitted hc
  cases hc
  have hknown : ((s.createConnection sockfd id).ctx (s.nextConnection sockfd id)).Known :=
    .new rfl (h.free hfresh _).1 (h.free hfresh _).2
  have hapart : (s.createConnection sockfd id).Apart id (s.nextConnection sockfd id) := by
    intro other conn' hother hconn' hkept
    rw [createConnection_conns, Function.update_of_ne hother] at hconn'
    have hkept' : s.Kept other := by
      rcases hkept with ⟨name, hentry⟩ | hleaving
      · rw [createConnection_entries, List.mem_cons] at hentry
        rcases hentry with heq | hold
        · exact absurd (Prod.mk.inj heq).2 hother
        · exact Or.inl ⟨name, List.mem_of_mem_filter hold⟩
      · exact Or.inr hleaving
    exact hfresh other conn' hconn' hkept'
  have hquiet : .closeCallback ∉ ((s.createConnection sockfd id).ctx
      (s.nextConnection sockfd id)).connectEstablished.outputs := by
    simp [ConnCtx.connectEstablished, ConnCtx.connectionCallback, ConnCtx.enableReading,
      ConnCtx.setEvents, ConnCtx.emit, ConnCtx.tie, ConnCtx.setState, ctx]
  have hentry : (s.nextName, id) ∈ t.server.connections_ := by
    apply hcalled.effect.entries
    · rw [createConnection_entries]
      exact List.mem_cons_self ..
    · exact fun hcloses => hquiet hcloses.1
  have htidy := hcalled.tidy hcreated (by rw [createConnection_conns, Function.update_self])
    hreach.name_eq (hcreated.placed.call (fun _ _ => connectEstablished_emitted) hstep)
    (.of_apart hreach rfl hknown hapart) fun _ => hapart
  apply htidy.finish
  · intro conn' hconn'
    rw [hcalled.conns_self] at hconn'
    cases hconn'
    refine ⟨?_, fun _ => hcalled.apart hcreated hreach hapart⟩
    have hstate : ((s.createConnection sockfd id).ctx
        (s.nextConnection sockfd id)).connectEstablished.conn.state_ = .kConnected := rfl
    refine ⟨?_, ?_, ?_, ?_, ?_, ?_, ?_, fun hgone => absurd (Or.inl ⟨_, hentry⟩) hgone⟩
    · exact hreach.beside.serverLoop_eq.trans hcalled.effect.loop_eq.symm
    · intro _
      rw [hreach.name_eq]
      exact hentry
    · rintro ⟨loop, f, hf, hends, rfl⟩
      rcases hcalled.effect.added loop f hf with hold | ⟨_, hcloses, _⟩
      · obtain ⟨conn', hconn'⟩ := h.leaves _ ⟨loop, f, hold, hends, rfl⟩
        exact absurd hconn' (hunused conn')
      · exact absurd (hcloses hends) hquiet
    · intro _
      obtain ⟨hadded, hreads⟩ := ConnCtx.connectEstablished_watching
        (c := (s.createConnection sockfd id).ctx (s.nextConnection sockfd id)) rfl
      exact ⟨hadded, hreads⟩
    · intro hshut
      exact absurd (hstate.symm.trans hshut) (by decide)
    · intro _
      exact hcalled.known hreach hknown
    · apply hcalled.located hreach
      intro loop fd hfiles
      obtain ⟨conn', hconn'⟩ := h.filed loop fd id hfiles
      exact absurd hconn' (hunused conn')
  · intro loop mask hmem
    exact Or.inl ⟨_, hentry⟩

end ServerSystem

namespace OwnedSystem

/-- The kernel gives an accepted connection a descriptor that no live connection has open,
    and the counter, which wraps, a name that no live connection has; `epoll_wait` reports a
    descriptor once; a `shutdown()` that has found its connection `kConnected` stores before
    the connection is closed. -/
def Regular (s : OwnedSystem) : OwnershipEvent → Prop
  | .accept sockfd _ => ∀ id conn, s.sys.conns id = some conn → s.Live id →
      conn.channel_.fd_ ≠ sockfd ∧ conn.name_ ≠ s.sys.nextName
  | .poll _ ready => (ready.map Prod.fst).Nodup
  | .proceed thread _ _ => s.sys.InTime thread
  | _ => True

/-- What the pollers and the loops know is alive, and what is open is known. -/
structure Watched (s : OwnedSystem) : Prop where
  registered : ∀ loop fd id, s.sys.Files loop fd id →
    s.Live id ∧ ∃ conn, s.sys.conns id = some conn ∧ conn.loop_ = loop ∧ conn.channel_.fd_ = fd
  active : ∀ loop id mask, (id, mask) ∈ s.sys.activeChannels_ loop → s.Live id
  opened : ∀ id conn, s.sys.conns id = some conn → conn.state_ ≠ .kDisconnected →
    (s.sys.pollers conn.loop_).m_channels conn.channel_.fd_ = some id ∧
    (s.sys.pollers conn.loop_).interest conn.channel_.fd_ = some ⟨conn.channel_.events_, id⟩ ∧
    conn.channel_.events_ &&& kReadEvent = kReadEvent

/-- The map and the queues own the connections that they keep. -/
theorem live_of_kept {s : OwnedSystem} {id : ChannelPtr} (halive : s.sys.serverAlive = true)
    (hkept : s.sys.Kept id) : s.Live id := by
  rcases hkept with ⟨name, hentry⟩ | ⟨loop, f, hf, hends, rfl⟩
  · exact ⟨.entry name, by simp [holds, halive, hentry]⟩
  · refine ⟨.pending loop f, ?_⟩
    have hraw : f.bindsThis = false := by
      cases f with
      | conn id g => cases g <;> first | rfl | cases hends
      | removeConnectionInLoop id => rfl
    simp [holds, hf, LoopFunctor.owns, hraw]

theorem watched_of_tidy {s : OwnedSystem} (halive : s.sys.serverAlive = true)
    (h : s.sys.Tidy none) : s.Watched := by
  refine ⟨?_, ?_, ?_⟩
  · intro loop fd id hfiles
    obtain ⟨conn, hconn, hkept, hloop, hfd⟩ := h.kept_of_files hfiles
    exact ⟨live_of_kept halive hkept, conn, hconn, hloop, hfd⟩
  · intro loop id mask hmem
    exact live_of_kept halive (h.active loop id mask hmem (by simp))
  · intro id conn hconn hopen
    have hsound := h.sound id conn (by simp) hconn
    have hwatching := hsound.opened hopen
    have hptr := h.placed.ptr id conn hconn
    cases hsound.known (hsound.kept_of_open hopen) with
    | new hindex => exact absurd (hwatching.added.symm.trans hindex) (by decide)
    | added _ hmap hkernel =>
      refine ⟨?_, ?_, hwatching.reads⟩
      · rw [← hptr]
        exact hmap
      · rw [← hptr]
        exact hkernel
    | deleted hindex => exact absurd (hwatching.added.symm.trans hindex) (by decide)

theorem fresh_of_regular {s : OwnedSystem} {sockfd : Nat} {id : ChannelPtr}
    (halive : s.sys.serverAlive = true) (hregular : s.Regular (.accept sockfd id)) :
    s.sys.Fresh sockfd :=
  fun other conn hconn hkept => hregular other conn hconn (live_of_kept halive hkept)

/-- A server that is there after the step was there before it. -/
theorem alive_before {s t : OwnedSystem} {e : OwnershipEvent} (hstep : s.step e = some t)
    (halive : t.sys.serverAlive = true) : s.sys.serverAlive = true := by
  cases stepped hstep with
  | accept hsys => exact (ServerSystem.accept_effect hsys).alive_eq.symm.trans halive
  | poll hsys =>
    have heffect := ServerSystem.poll_effect (Q := fun _ => True) (D := fun _ => True) hsys
    exact heffect.alive_eq.symm.trans halive
  | handleEvent hactive hidle hsys =>
    exact (ServerSystem.handleEvent_effect hactive hsys).alive_eq.symm.trans halive
  | functorReturned hbatch hpending hsys =>
    exact (ServerSystem.runFunctor_effect hpending hsys).alive_eq.symm.trans halive
  | load hsys =>
    have heffect := ServerSystem.load_effect (Q := fun _ => True) (D := fun _ => True) hsys
    exact heffect.alive_eq.symm.trans halive
  | proceed hcall howner hsys =>
    have heffect := ServerSystem.proceed_effect (D := fun _ => True) hcall hsys
    exact heffect.alive_eq.symm.trans halive
  | destroy hsys =>
    obtain ⟨_, _, rfl⟩ := ServerSystem.destroy_effect (D := fun _ => True) hsys
    cases halive
  | _ => exact halive

theorem tidy_step {s t : OwnedSystem} {e : OwnershipEvent}
    (h : s.sys.serverAlive = true → s.sys.Tidy none) (hregular : s.Regular e)
    (hstep : s.step e = some t) : t.sys.serverAlive = true → t.sys.Tidy none := by
  intro halive
  have hbefore := alive_before hstep halive
  have htidy := h hbefore
  cases stepped hstep with
  | accept hsys => exact ServerSystem.accept_tidy htidy (fresh_of_regular hbefore hregular) hsys
  | poll hsys => exact ServerSystem.poll_tidy htidy hregular hsys
  | handleEvent hactive hidle hsys => exact ServerSystem.handleEvent_tidy htidy hsys
  | functorReturned hbatch hpending hsys => exact ServerSystem.runFunctor_tidy htidy hsys
  | load hsys => exact ServerSystem.load_tidy htidy hsys
  | proceed hcall howner hsys => exact ServerSystem.proceed_tidy htidy hcall hregular hsys
  | destroy hsys =>
    obtain ⟨_, _, rfl⟩ := ServerSystem.destroy_effect (D := fun _ => True) hsys
    cases halive
  | _ => exact htidy

theorem start_tidy (loop : Nat) (name ipPort : String) (writeComplete : Bool)
    (numThreads : Int) :
    (start loop name ipPort writeComplete numThreads).sys.Tidy none := by
  have hqueue : ∀ l f,
      f ∉ (start loop name ipPort writeComplete numThreads).sys.pendingFunctor_ l := by
    intro l f hf
    cases hf
  refine ⟨(ServerSystem.start_inv loop name ipPort writeComplete numThreads).placed, ?_, ?_, ?_, ?_,
    ?_, ?_, fun _ => List.nodup_nil, fun l id => hqueue l _⟩
  · rintro id conn _ hconn
    cases hconn
  · rintro id conn _ hconn
    cases hconn
  · rintro l fd id (hmap | ⟨event, hkernel, _⟩)
    · cases hmap
    · cases hkernel
  · intro name id hentry
    cases hentry
  · rintro id ⟨l, f, hf, _⟩
    exact absurd hf (hqueue l f)
  · intro l id mask hmem
    cases hmem

end OwnedSystem

/-- A user's thread shuts the first connection down, its peer closes it, and the next one
    gets its descriptor. -/
def OwnershipEvent.sameDescriptor : List OwnershipEvent :=
  [.accept 5 1, .acquire 1 (.entry "server--0.0.0.0:80##1"), .load 9 1 .handle .shutdown,
    .proceed 9 .handle (.wrote 0), .swap 0, .callFunctor 0, .functorReturned 0 (.wrote 0),
    .endFunctors 0, .release 1, .poll 0 [(5, EPOLLIN)],
    .handleEvent 0 (some (.entry "server--0.0.0.0:80##1")) (.received []) (.wrote 0),
    .endEvent 0, .accept 5 2]

set_option maxRecDepth 20000 in
/-- `shutdown()` stores before the close, and nothing of the first connection is left when
    the second one is accepted. -/
theorem OwnedSystem.regular_same_descriptor :
    Along OwnedSystem.step OwnedSystem.Regular
      (OwnedSystem.start 0 "server" "0.0.0.0:80" false 0) OwnershipEvent.sameDescriptor := by
  obtain ⟨u, hu, hcalling⟩ := exists_run OwnedSystem.step
    (OwnedSystem.start 0 "server" "0.0.0.0:80" false 0) (OwnershipEvent.sameDescriptor.take 3)
    (fun t => (t.sys.calls 9, (t.sys.conns 1).map TcpConnection.state_))
    (some (1, .shutdown), some .kConnected) rfl
  obtain ⟨t, ht, hends⟩ := exists_run OwnedSystem.step
    (OwnedSystem.start 0 "server" "0.0.0.0:80" false 0) (OwnershipEvent.sameDescriptor.take 12)
    (fun t => (t.sys.server.connections_, t.sys.pendingFunctor_, t.handles, t.guards, t.batch))
    ([], Function.update (Function.update (fun _ => []) 0 [.conn 1 .shutdownInLoop]) 0 [],
      Function.update (Function.update (fun _ => 0) 1 1) 1 0,
      Function.update (Function.update (fun _ => none) 0 (some 1)) 0 none,
      Function.update (Function.update (Function.update (Function.update (fun _ => none)
        0 (some ⟨[], 1, false⟩)) 0 (some ⟨[], 1, true⟩))
        0 (some ⟨[.conn 1 .shutdownInLoop], 0, false⟩)) 0 none) rfl
  simp only [Prod.mk.injEq, Function.update_idem, Function.update_eq_self] at hcalling hends
  rcases hends with ⟨hentries, hpending, hhandles, hguards, hbatch⟩
  have hdead : ∀ id, ¬ t.Live id := by
    intro id
    apply OwnedSystem.not_live hentries
    · simp [hpending]
    · simp [hhandles]
    · simp [hguards]
    · simp [hbatch]
  rw [← List.take_append_drop 12 OwnershipEvent.sameDescriptor]
  refine along_append.mpr ⟨?_, fun t' ht' => ?_⟩
  · rw [← List.take_append_drop 3 (OwnershipEvent.sameDescriptor.take 12)]
    refine along_append.mpr ⟨?_, fun u' hu' => ?_⟩
    · refine along_cons.mpr ⟨?_, fun _ _ => along_of_forall ?_⟩
      · intro id conn hconn
        cases hconn
      · simp [OwnedSystem.Regular]
    · cases hu.symm.trans hu'
      refine along_cons.mpr ⟨?_, fun _ _ => along_of_forall ?_⟩
      · intro id conn hcall hconn hclosed
        cases hcalling.1.symm.trans hcall
        rw [hconn, Option.map_some, hclosed] at hcalling
        cases hcalling.2
      · simp [OwnedSystem.Regular]
  · cases ht.symm.trans ht'
    refine along_cons.mpr ⟨?_, fun _ _ => along_nil⟩
    intro id conn _ hlive
    exact absurd hlive (hdead id)

/-- **No poller holds a channel that is gone.**  As long as the server is there, in every
    regular run of accepts, sends, shutdowns, channel events and functors, what the pollers
    and the loops' active channels refer to are live connections under their own descriptor
    and on their own loop, and every open connection is registered for reading.  So a
    descriptor that the kernel uses again never meets an old registration. -/
theorem pollers_hold_live_channels (loop : Nat) (name ipPort : String) (writeComplete : Bool)
    (numThreads : Int) (es : List OwnershipEvent)
    (hregular : Along OwnedSystem.step OwnedSystem.Regular
      (OwnedSystem.start loop name ipPort writeComplete numThreads) es) :
    Always OwnedSystem.step (fun s => s.sys.serverAlive = true → s.Watched)
      (OwnedSystem.start loop name ipPort writeComplete numThreads) es :=
  (always_of_along (I := fun s => s.sys.serverAlive = true → s.sys.Tidy none)
    (fun _ _ _ h => OwnedSystem.tidy_step h)
    (fun _ => OwnedSystem.start_tidy loop name ipPort writeComplete numThreads) hregular).mono
    fun s h halive => OwnedSystem.watched_of_tidy (s := s) halive (h halive)

/-- A descriptor that is closed and used again. -/
theorem pollers_hold_live_channels_same_descriptor :
    Always OwnedSystem.step (fun s => s.sys.serverAlive = true → s.Watched)
      (OwnedSystem.start 0 "server" "0.0.0.0:80" false 0) OwnershipEvent.sameDescriptor :=
  pollers_hold_live_channels 0 "server" "0.0.0.0:80" false 0 _ OwnedSystem.regular_same_descriptor

/-- Two user threads find the connection `kConnected`, its peer closes it, and only then
    the threads go on. -/
def OwnershipEvent.lateShutdown : List OwnershipEvent :=
  [.accept 5 1, .acquire 1 (.entry "server--0.0.0.0:80##1"), .load 8 1 .handle (.send [97]),
    .load 9 1 .handle .shutdown, .poll 0 [(5, EPOLLIN)],
    .handleEvent 0 (some (.entry "server--0.0.0.0:80##1")) (.received []) (.wrote 0),
    .endEvent 0, .proceed 9 .handle (.wrote 0), .proceed 8 .handle (.wrote 0), .swap 0,
    .callFunctor 0, .functorReturned 0 (.wrote 0), .callFunctor 0,
    .functorReturned 0 (.wrote 0), .endFunctors 0, .release 1]

set_option maxRecDepth 20000 in
/-- **Why `shutdown()` has to store in time.**  The late store makes the closed connection
    `kDisconnecting`, so that `sendInLoop` does not return at once and registers the removed
    channel again.  `m_channels` still has it when the connection is gone. -/
theorem late_shutdown_registers_dead_channel :
    ∃ t, Run OwnedSystem.step (OwnedSystem.start 0 "server" "0.0.0.0:80" false 0)
        OwnershipEvent.lateShutdown t ∧
      t.sys.serverAlive = true ∧ (t.sys.pollers 0).m_channels 5 = some 1 ∧ ¬ t.Live 1 := by
  obtain ⟨t, ht, hends⟩ := exists_run OwnedSystem.step
    (OwnedSystem.start 0 "server" "0.0.0.0:80" false 0) OwnershipEvent.lateShutdown
    (fun t => (t.sys.serverAlive, (t.sys.pollers 0).m_channels 5, t.sys.server.connections_,
      t.sys.pendingFunctor_, t.handles 1, t.guards, t.batch))
    (true, some 1, [],
      Function.update (Function.update (Function.update (Function.update (fun _ => [])
        0 [.conn 1 .shutdownInLoop]) 0 [.conn 1 .shutdownInLoop, .conn 1 (.sendInLoop [97])])
        0 [.conn 1 (.sendInLoop [97])]) 0 [], 0,
      Function.update (Function.update (fun _ => none) 0 (some 1)) 0 none,
      Function.update (Function.update (Function.update (Function.update (Function.update
        (Function.update (fun _ => none) 0 (some ⟨[], 2, false⟩)) 0 (some ⟨[], 2, true⟩))
        0 (some ⟨[.conn 1 .shutdownInLoop], 1, false⟩))
        0 (some ⟨[.conn 1 .shutdownInLoop], 1, true⟩))
        0 (some ⟨[.conn 1 .shutdownInLoop, .conn 1 (.sendInLoop [97])], 0, false⟩)) 0 none) rfl
  simp only [Prod.mk.injEq, Function.update_idem, Function.update_eq_self] at hends
  rcases hends with ⟨halive, hfiled, hentries, hpending, hhandles, hguards, hbatch⟩
  refine ⟨t, ht, halive, hfiled, OwnedSystem.not_live hentries ?_ hhandles ?_ ?_⟩
  · simp [hpending]
  · simp [hguards]
  · simp [hbatch]

end Muduo
