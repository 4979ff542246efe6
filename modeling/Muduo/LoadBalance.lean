import Muduo.RoundRobin
import Muduo.ServerFrames

/-!
# How connections spread over the loops

`getNextLoop` goes round the workers.  No other step of the server touches the pool or
moves a connection to another loop, so the `k`-th connection ever accepted stays on worker
`k` modulo their number, and no worker is given more than one connection more than another.
-/

namespace Muduo

open Transitions

/-- The address of the connection that the event accepts. -/
def ServerEvent.accepted? : ServerEvent → Option ChannelPtr
  | .accept _ id => some id
  | _ => none

/-- The connections accepted in a run, in order. -/
def accepted (es : List ServerEvent) : List ChannelPtr := es.filterMap ServerEvent.accepted?

theorem accepted_snoc_of_not_accept {es : List ServerEvent} {e : ServerEvent}
    (he : ∀ sockfd id, e ≠ .accept sockfd id) : accepted (es ++ [e]) = accepted es := by
  have hnone : e.accepted? = none := by
    cases e with
    | accept sockfd id => exact absurd rfl (he sockfd id)
    | _ => rfl
  simp [accepted, hnone]

theorem accepted_snoc (es : List ServerEvent) (sockfd : Nat) (id : ChannelPtr) :
    accepted (es ++ [.accept sockfd id]) = accepted es ++ [id] := by
  simp [accepted, ServerEvent.accepted?]

namespace EventLoopThreadPool

/-- The loop of the `k`-th turn. -/
def loopAt (base : Nat) (workers : List Nat) (k : Nat) : Nat :=
  workers.getD (k % workers.length) base

theorem loopAt_eq {base : Nat} {workers : List Nat} {k : Nat}
    (h : k % workers.length < workers.length) :
    loopAt base workers k = workers[k % workers.length] := by
  rw [loopAt, List.getD_eq_getElem?_getD, List.getElem?_eq_getElem h, Option.getD_some]

/-- The pool has given `k` loops. -/
structure Turned (base : Nat) (workers : List Nat) (k : Nat) (p : EventLoopThreadPool) : Prop where
  base_eq : p.baseLoop_ = base
  loops_eq : p.loops_ = workers
  next_eq : workers ≠ [] → p.next_ = k % workers.length

theorem start_turned (base : Nat) (numThreads : Int) :
    Turned base (start base numThreads).loops_ 0 (start base numThreads) :=
  ⟨rfl, rfl, fun _ => (Nat.zero_mod _).symm⟩

/-- The next loop is that of the next turn. -/
theorem Turned.getNextLoop {base : Nat} {workers : List Nat} {k : Nat} {p : EventLoopThreadPool}
    (h : p.Turned base workers k) :
    p.getNextLoop.1 = loopAt base workers k ∧ p.getNextLoop.2.Turned base workers (k + 1) := by
  obtain ⟨rfl, rfl, hnext⟩ := h
  by_cases hloops : p.loops_ = []
  · refine ⟨by simp [EventLoopThreadPool.getNextLoop, hloops, loopAt], ?_⟩
    simp only [EventLoopThreadPool.getNextLoop, hloops, dif_pos]
    exact ⟨rfl, hloops, fun hne => absurd rfl hne⟩
  · have hlength := List.length_pos_of_ne_nil hloops
    simp only [EventLoopThreadPool.getNextLoop, hloops, dif_neg, not_false_iff]
    refine ⟨?_, rfl, rfl, fun _ => ?_⟩
    · rw [loopAt_eq (Nat.mod_lt k hlength)]
      simp only [hnext hloops]
    · rw [← RoundRobin.turn_mod hlength k, ← hnext hloops]
      rfl

end EventLoopThreadPool

namespace ServerSystem

/-- The pool and the loops of the connections stay. -/
def SamePlaces (s t : ServerSystem) : Prop :=
  t.server.threadPool_ = s.server.threadPool_ ∧
    ∀ id loop, s.OwnedBy id loop → t.OwnedBy id loop

theorem samePlaces_frame : Frame SamePlaces where
  refl _ := ⟨rfl, fun _ _ h => h⟩
  trans _ _ _ hst htu := ⟨htu.1.trans hst.1, fun id loop h => htu.2 id loop (hst.2 id loop h)⟩
  queue _ _ _ := ⟨rfl, fun _ _ h => h⟩
  erase _ _ := ⟨rfl, fun _ _ h => h⟩
  queues _ _ _ _ := ⟨rfl, fun _ _ h => h⟩
  gone _ := ⟨rfl, fun _ _ h => h⟩
  commit P s thread id what conn c hconn hreaches := by
    refine ⟨rfl, ?_⟩
    rintro other loop ⟨conn', hconn', rfl⟩
    by_cases hother : other = id
    · subst hother
      cases hconn.symm.trans hconn'
      exact ⟨c.conn, Function.update_self .., hreaches.framed.loop_eq⟩
    · exact ⟨conn', (Function.update_of_ne hother ..).trans hconn', rfl⟩

/-- The connections accepted so far are where their turns put them. -/
structure Spread (base : Nat) (workers : List Nat) (ids : List ChannelPtr) (s : ServerSystem) :
    Prop where
  pool : s.server.threadPool_.Turned base workers ids.length
  placed : ∀ k id, ids[k]? = some id →
    s.OwnedBy id (EventLoopThreadPool.loopAt base workers k)

theorem Spread.same {base : Nat} {workers : List Nat} {ids : List ChannelPtr}
    {s t : ServerSystem} (h : s.Spread base workers ids) (hsame : SamePlaces s t) :
    t.Spread base workers ids :=
  ⟨hsame.1 ▸ h.pool, fun k id hk => hsame.2 id _ (h.placed k id hk)⟩

theorem Spread.create {base : Nat} {workers : List Nat} {ids : List ChannelPtr}
    {s : ServerSystem} {sockfd : Nat} {id : ChannelPtr} (h : s.Spread base workers ids)
    (hnew : s.conns id = none) :
    (s.createConnection sockfd id).Spread base workers (ids ++ [id]) := by
  obtain ⟨hloop, hpool⟩ := h.pool.getNextLoop
  refine ⟨?_, ?_⟩
  · rw [List.length_append]
    exact hpool
  · intro k other hk
    rcases Nat.lt_trichotomy k ids.length with hlt | rfl | hgt
    · rw [List.getElem?_append_left hlt] at hk
      obtain ⟨conn, hconn, hplace⟩ := h.placed k other hk
      refine ⟨conn, ?_, hplace⟩
      refine (Function.update_of_ne ?_ ..).trans hconn
      rintro rfl
      rw [hnew] at hconn
      cases hconn
    · rw [List.getElem?_concat_length] at hk
      cases hk
      exact ⟨_, Function.update_self .., hloop⟩
    · rw [List.getElem?_eq_none (by simp; omega)] at hk
      cases hk

theorem Spread.step {base : Nat} {workers : List Nat} {es : List ServerEvent}
    {s t : ServerSystem} {e : ServerEvent} (h : s.Spread base workers (accepted es))
    (hstep : s.step e = some t) : t.Spread base workers (accepted (es ++ [e])) := by
  by_cases he : ∃ sockfd id, e = .accept sockfd id
  · obtain ⟨sockfd, id, rfl⟩ := he
    obtain ⟨hnew, hsame⟩ := samePlaces_frame.accept hstep
    rw [accepted_snoc]
    exact (h.create hnew).same hsame
  · have hother : ∀ sockfd id, e ≠ .accept sockfd id :=
      fun sockfd id heq => he ⟨sockfd, id, heq⟩
    rw [accepted_snoc_of_not_accept hother]
    exact h.same (samePlaces_frame.step hstep hother)

/-- How many of the connections are on the loop. -/
def countOn (s : ServerSystem) (loop : Nat) (ids : List ChannelPtr) : Nat :=
  ids.countP fun id => (s.conns id).any fun conn => conn.loop_ == loop

theorem Spread.countOn {base : Nat} {workers : List Nat} {ids : List ChannelPtr}
    {s : ServerSystem} (h : s.Spread base workers ids) (hnodup : workers.Nodup) {j : Nat}
    (hj : j < workers.length) :
    s.countOn workers[j] ids =
      ids.length / workers.length + if j < ids.length % workers.length then 1 else 0 := by
  rw [ServerSystem.countOn, ← RoundRobin.count_turns hj]
  apply RoundRobin.countP_eq_count
  intro k id hk
  obtain ⟨conn, hconn, hloop⟩ := h.placed k id hk
  have hlt : k % workers.length < workers.length := Nat.mod_lt k (Nat.zero_lt_of_lt hj)
  rw [hconn, Option.any_some, beq_iff_eq, hloop, EventLoopThreadPool.loopAt_eq hlt,
    hnodup.getElem_inj_iff]

end ServerSystem

theorem EventLoopThreadPool.start_nodup (base : Nat) (numThreads : Int) :
    (start base numThreads).loops_.Nodup := by
  refine List.Nodup.map_on ?_ List.nodup_range
  intro i _ j _ hij
  omega

/-- **Connections take turns.**  After every run of the server, the `k`-th connection it
    accepted is on worker `k` modulo their number, or on the server's own loop if there are
    none; and of `N` connections each of the `n` workers has been given `N / n`, the first
    `N % n` of them one more. -/
theorem connections_take_turns (loop : Nat) (name ipPort : String) (writeComplete : Bool)
    (numThreads : Int) (es : List ServerEvent) (s : ServerSystem)
    (hrun : Run ServerSystem.step
      (ServerSystem.start loop name ipPort writeComplete numThreads) es s) :
    let workers := (EventLoopThreadPool.start loop numThreads).loops_
    (∀ k id, (accepted es)[k]? = some id → s.OwnedBy id (workers.getD (k % workers.length) loop)) ∧
    ∀ j (_ : j < workers.length), s.countOn workers[j] (accepted es) =
      (accepted es).length / workers.length +
        if j < (accepted es).length % workers.length then 1 else 0 := by
  have hspread :
      s.Spread loop (EventLoopThreadPool.start loop numThreads).loops_ (accepted es) := by
    refine hrun.history (I := fun es s => ServerSystem.Spread loop
      (EventLoopThreadPool.start loop numThreads).loops_ (accepted es) s) ?_ ?_
    · refine ⟨EventLoopThreadPool.start_turned loop numThreads, ?_⟩
      intro k id hk
      simp [accepted] at hk
    · intro fs u e v _ hu hstep
      exact hu.step hstep
  exact ⟨hspread.placed,
    fun j hj => hspread.countOn (EventLoopThreadPool.start_nodup loop numThreads) hj⟩

set_option maxRecDepth 20000 in
/-- Three connections on two workers, the first of them removed before the third gets its
    descriptor. -/
theorem connections_take_turns_two_workers :
    ∃ s, Run ServerSystem.step (ServerSystem.start 0 "server" "0.0.0.0:80" false 2)
        [.accept 5 1, .poll 1 [(5, EPOLLIN)], .handleEvent 1 true (.received []) (.wrote 0),
          .accept 6 2, .runFunctor 0 (.wrote 0), .runFunctor 1 (.wrote 0), .accept 5 3] s ∧
      s.OwnedBy 3 1 ∧ s.countOn 1 [1, 2, 3] = 2 ∧ s.countOn 2 [1, 2, 3] = 1 := by
  obtain ⟨s, hrun, _⟩ := exists_run ServerSystem.step
    (ServerSystem.start 0 "server" "0.0.0.0:80" false 2)
    [.accept 5 1, .poll 1 [(5, EPOLLIN)], .handleEvent 1 true (.received []) (.wrote 0),
      .accept 6 2, .runFunctor 0 (.wrote 0), .runFunctor 1 (.wrote 0), .accept 5 3]
    (fun s => s.serverAlive) true rfl
  obtain ⟨hplace, hcount⟩ := connections_take_turns 0 "server" "0.0.0.0:80" false 2 _ s hrun
  exact ⟨s, hrun, hplace 2 3 rfl, hcount 0 (by decide), hcount 1 (by decide)⟩

end Muduo
