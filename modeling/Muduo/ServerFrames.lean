import Muduo.LoopConfinement

/-!
# What the server's steps leave alone

A relation that queueing, erasing and the commit of a method's connection keep is kept by
every step but an accept.
-/

namespace Muduo

open Transitions

namespace ServerSystem

/-- A relation that the parts of a step are in. -/
structure Frame (R : ServerSystem → ServerSystem → Prop) : Prop where
  refl : ∀ s, R s s
  trans : ∀ s t u, R s t → R t u → R s u
  queue : ∀ s loop f, R s (s.queueInLoop loop f)
  erase : ∀ s conn, R s (s.eraseConnection conn)
  commit : ∀ (P : Output → Prop) s thread id what conn c, s.conns id = some conn →
    ConnCtx.Reaches P ⟨conn, s.pollers conn.loop_, []⟩ c → R s (s.commit thread id what c)
  queues : ∀ s active pending calls,
    R s { s with activeChannels_ := active, pendingFunctor_ := pending, calls := calls }
  gone : ∀ s, R s { s with serverAlive := false }

variable {R : ServerSystem → ServerSystem → Prop}

theorem Frame.react (hR : Frame R) {s t : ServerSystem} {thread : Nat} {id : ChannelPtr}
    {conn : TcpConnection} {o : Output}
    (hreact : ServerSystem.react thread id conn s o = some t) : R s t := by
  simp only [ServerSystem.react] at hreact
  split at hreact
  · cases hreact
    exact hR.queue s _ _
  · split at hreact
    · split at hreact
      · cases hreact
        split
        · exact hR.erase s conn
        · exact hR.trans _ _ _ (hR.erase s conn) (hR.queue _ _ _)
      · cases hreact
        exact hR.queue s _ _
    · cases hreact
  · cases hreact
    exact hR.refl s

theorem Frame.call (hR : Frame R) {P : Output → Prop} {s t : ServerSystem} {thread : Nat}
    {id : ChannelPtr} {what : List LoopStep} {method : ConnCtx → Except Fault ConnCtx}
    (hmethod : ∀ c c', method c = .ok c' → c.Reaches P c')
    (hcall : s.call thread id what method = some t) : R s t := by
  obtain ⟨conn, c, hconn, hc, hfold⟩ := call_eq_some hcall
  have hcommit := hR.commit P s thread id what conn c hconn (hmethod _ c hc)
  refine foldlM_invariant (I := R s) ?_ hcommit hfold
  intro u o v _ hu hreact
  exact hR.trans _ _ _ hu (hR.react hreact)

theorem Frame.runConnFunctor (hR : Frame R) {s t : ServerSystem} {thread : Nat}
    {id : ChannelPtr} {w : WriteResult} {f : ConnFunctor}
    (hrun : s.runConnFunctor thread id w f = some t) : R s t := by
  rcases runConnFunctor_call hrun with rfl | ⟨what, method, hcall, hmethod⟩
  · exact hR.refl t
  · exact hR.call hmethod hcall

theorem Frame.runInLoop (hR : Frame R) {s t : ServerSystem} {thread loop : Nat}
    {id : ChannelPtr} {w : WriteResult} {f : ConnFunctor}
    (hrun : s.runInLoop thread loop id w f = some t) : R s t := by
  simp only [ServerSystem.runInLoop] at hrun
  split at hrun
  · exact hR.runConnFunctor hrun
  · cases hrun
    exact hR.queue s _ _

theorem Frame.proceed (hR : Frame R) {s t : ServerSystem} {thread : Nat} {id : ChannelPtr}
    {w : WriteResult} {call : UserCall} (hcall : s.proceed thread id w call = some t) : R s t := by
  cases call with
  | send message =>
    obtain ⟨conn, _, hsend⟩ := Option.bind_eq_some_iff.mp hcall
    exact hR.runInLoop hsend
  | shutdown =>
    exact hR.call (P := fun _ => True)
      (ConnCtx.reaches_of_total (ConnCtx.shutdownStore_reaches trivial)) hcall

/-- An accept is the new connection, and then what the other steps are. -/
theorem Frame.accept (hR : Frame R) {s t : ServerSystem} {sockfd : Nat} {id : ChannelPtr}
    (hstep : s.step (.accept sockfd id) = some t) :
    s.conns id = none ∧ R (s.createConnection sockfd id) t := by
  replace hstep := (step_eq_some hstep).2
  simp only [perform, Option.ite_none_right_eq_some] at hstep
  exact ⟨hstep.1.2, hR.runInLoop hstep.2⟩

theorem Frame.step (hR : Frame R) {s t : ServerSystem} {e : ServerEvent}
    (hstep : s.step e = some t) (he : ∀ sockfd id, e ≠ .accept sockfd id) : R s t := by
  replace hstep := (step_eq_some hstep).2
  cases e
  all_goals simp only [perform] at hstep
  case accept sockfd id => exact absurd rfl (he sockfd id)
  case poll loop ready =>
    split at hstep
    · cases hstep
      exact hR.queues s _ s.pendingFunctor_ s.calls
    · cases hstep
  case handleEvent loop ownerAlive r w =>
    split at hstep
    · cases hstep
    · next id mask rest _ =>
      refine hR.trans _ _ _ (hR.queues s (Function.update s.activeChannels_ loop rest)
        s.pendingFunctor_ s.calls) ?_
      refine hR.call (P := fun _ => True) ?_ hstep
      exact fun _ _ => ConnCtx.handleEvent_reaches (fun _ _ => trivial) fun _ _ => trivial
  case runFunctor loop w =>
    split at hstep
    · next f rest _ _ =>
      refine hR.trans _ _ _ (hR.queues s s.activeChannels_
        (Function.update s.pendingFunctor_ loop rest) s.calls) ?_
      cases f with
      | conn id g => exact hR.runConnFunctor hstep
      | removeConnectionInLoop id =>
        simp only [runFunctor] at hstep
        split at hstep
        · obtain ⟨conn, _, hrun⟩ := Option.bind_eq_some_iff.mp hstep
          exact hR.trans _ _ _ (hR.erase _ conn) (hR.runInLoop hrun)
        · cases hstep
    · cases hstep
  case load thread id call =>
    obtain ⟨conn, _, hload⟩ := Option.bind_eq_some_iff.mp hstep
    split at hload
    · cases hload
      exact hR.queues s s.activeChannels_ s.pendingFunctor_ _
    · cases hload
      exact hR.refl s
  case proceed thread w =>
    obtain ⟨⟨id, call⟩, _, hcall⟩ := Option.bind_eq_some_iff.mp hstep
    exact hR.trans _ _ _ (hR.queues s s.activeChannels_ s.pendingFunctor_ _) (hR.proceed hcall)
  case destroy thread order =>
    split at hstep
    · obtain ⟨u, hfold, rfl⟩ := Option.map_eq_some_iff.mp hstep
      refine hR.trans _ _ _ ?_ (hR.gone u)
      refine foldlM_invariant (I := R s) ?_ (hR.refl s) hfold
      intro v item v' _ hv hitem
      obtain ⟨conn, _, hrun⟩ := Option.bind_eq_some_iff.mp hitem
      exact hR.trans _ _ _ hv (hR.runInLoop hrun)
    · cases hstep

end ServerSystem

end Muduo
