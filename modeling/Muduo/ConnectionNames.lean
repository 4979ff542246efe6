import Muduo.InetAddress
import Muduo.LoadBalance
import Muduo.ConnectionTable

/-!
# What the name of a connection says

`newConnection` puts the server's name, the text of its address and a number together.
The separators occur in no number and in no address, so the three can be told from the name
even if they occur in the server's name as well.
-/

namespace Muduo

open Transitions Numerals

/-! ### The text -/

/-- The text of a number has no `#`. -/
theorem int_text_ne_hash {n : Int} {c : Char} (h : c ∈ (toString n).toList) : c ≠ '#' := by
  rintro rfl
  rw [toList_toString] at h
  rcases mem_signed h with hdigit | hsign
  · cases hdigit
  · cases hsign

/-- The text of an address has no `-`. -/
theorem InetAddress.toIpPort_ne_dash {a : InetAddress} {c : Char} (h : c ∈ a.toIpPort.toList) :
    c ≠ '-' := by
  rintro rfl
  simp only [toIpPort_toList, List.mem_append, List.mem_cons] at h
  rcases h with h | h | h | h | h
  · rcases mem_inetNtop h with hdigit | hdot
    · cases hdigit
    · cases hdot
  · cases h
  · cases h
  · cases h
  · cases decimal_isDigit h

/-- All three parts can be told from the name, from its end. -/
theorem ConnectionTable.connName_injective {t u : ConnectionTable} {a b : InetAddress}
    {m n : Int} (ht : t.ipPort_ = a.toIpPort) (hu : u.ipPort_ = b.toIpPort)
    (h : t.connName m = u.connName n) : t.name_ = u.name_ ∧ a = b ∧ m = n := by
  have htext : ∀ (v : ConnectionTable) (k : Int), (v.connName k).toList =
      (v.name_.toList ++ ['-'] ++ '-' :: v.ipPort_.toList ++ ['#']) ++
        '#' :: (toString k).toList := by
    intro v k
    simp [connName]
  have hlists := congrArg String.toList h
  rw [htext, htext] at hlists
  obtain ⟨hfront, hnumber⟩ := append_cons_injective (p := fun c => c != '#') rfl
    (fun c hc => bne_iff_ne.mpr (int_text_ne_hash hc))
    (fun c hc => bne_iff_ne.mpr (int_text_ne_hash hc)) hlists
  rw [List.append_cancel_right_eq, ht, hu] at hfront
  obtain ⟨hname, haddress⟩ := append_cons_injective (p := fun c => c != '-') rfl
    (fun c hc => bne_iff_ne.mpr (InetAddress.toIpPort_ne_dash hc))
    (fun c hc => bne_iff_ne.mpr (InetAddress.toIpPort_ne_dash hc)) hfront
  refine ⟨?_, ?_, ?_⟩
  · exact String.toList_inj.mp (List.append_cancel_right hname)
  · exact InetAddress.toIpPort_injective (String.toList_inj.mp haddress)
  · exact toString_inj.mp (String.toList_inj.mp hnumber)

theorem ConnectionTable.nameAt_iff {t u : ConnectionTable} {a b : InetAddress} {i j : Nat}
    (ht : t.ipPort_ = a.toIpPort) (hu : u.ipPort_ = b.toIpPort) :
    t.nameAt i = u.nameAt j ↔ t.name_ = u.name_ ∧ a = b ∧ TableRun.SameNumber i j := by
  constructor
  · intro h
    obtain ⟨hname, rfl, hnumber⟩ := connName_injective ht hu h
    exact ⟨hname, rfl, (nameAt_inj (t := t)).mp (congrArg t.connName hnumber)⟩
  · rintro ⟨hname, rfl, hnumber⟩
    rw [(nameAt_inj (t := t)).mpr hnumber, nameAt, nameAt, connName, connName, hname, ht, hu]

/-! ### The names along a run -/

namespace ServerSystem

/-- Only entries of the table are gone. -/
def SameNames (s t : ServerSystem) : Prop :=
  ∃ connections, t.table = { s.table with connections_ := connections }

theorem SameNames.of_eq {s t : ServerSystem} (h : t.table = s.table) : SameNames s t :=
  ⟨s.table.connections_, h⟩

theorem sameNames_frame : Frame SameNames where
  refl _ := .of_eq rfl
  trans s t u hst htu := by
    obtain ⟨_, ht⟩ := hst
    obtain ⟨connections, hu⟩ := htu
    exact ⟨connections, by rw [hu, ht]⟩
  queue _ _ _ := .of_eq rfl
  erase _ _ := ⟨_, rfl⟩
  queues _ _ _ _ := .of_eq rfl
  gone _ := .of_eq rfl
  commit P s thread id what conn c hconn hreaches := by
    refine ⟨s.table.connections_, ?_⟩
    have hnames : (s.commit thread id what c).table.names = s.table.names := by
      funext other
      by_cases hother : other = id
      · subst hother
        change (Function.update s.conns other (some c.conn) other).map _ = (s.conns other).map _
        rw [Function.update_self, hconn, Option.map_some, Option.map_some, hreaches.name_eq]
      · change (Function.update s.conns id (some c.conn) other).map _ = (s.conns other).map _
        rw [Function.update_of_ne hother]
    change ConnectionTable.mk _ _ _ _ (s.commit thread id what c).table.names = _
    rw [hnames]
    rfl

/-- The connections accepted so far have the names of their turns. -/
structure Named (first : ConnectionTable) (ids : List ChannelPtr) (s : ServerSystem) : Prop where
  name_eq : s.table.name_ = first.name_
  ipPort_eq : s.table.ipPort_ = first.ipPort_
  next_eq : s.table.nextConnId_ = Int.bmod (1 + ids.length) (2 ^ 32)
  named : ∀ k id, ids[k]? = some id → s.table.names id = some (first.nameAt k)

theorem start_named (loop : Nat) (name ipPort : String) (writeComplete : Bool)
    (numThreads : Int) :
    Named (.new name ipPort) [] (start loop name ipPort writeComplete numThreads) :=
  ⟨rfl, rfl, rfl, fun _ _ h => (by cases h)⟩

theorem Named.same {first : ConnectionTable} {ids : List ChannelPtr} {s t : ServerSystem}
    (h : s.Named first ids) (hsame : SameNames s t) : t.Named first ids := by
  obtain ⟨connections, htable⟩ := hsame
  constructor
  all_goals rw [htable]
  exacts [h.name_eq, h.ipPort_eq, h.next_eq, h.named]

theorem Named.create {first : ConnectionTable} {ids : List ChannelPtr} {s : ServerSystem}
    {sockfd : Nat} {id : ChannelPtr} (h : s.Named first ids) (hnew : s.conns id = none) :
    (s.createConnection sockfd id).Named first (ids ++ [id]) := by
  have hfresh : s.table.names id = none := congrArg (Option.map TcpConnection.name_) hnew
  constructor
  all_goals rw [createConnection_table]
  · exact h.name_eq
  · exact h.ipPort_eq
  · change Int.bmod (s.table.nextConnId_ + 1) (2 ^ 32) = _
    rw [h.next_eq, Int.bmod_add_bmod, List.length_append, List.length_singleton]
    push_cast
    congr 1
  · intro k other hk
    rcases Nat.lt_trichotomy k ids.length with hlt | rfl | hgt
    · rw [List.getElem?_append_left hlt] at hk
      have hold := h.named k other hk
      refine (Function.update_of_ne ?_ ..).trans hold
      rintro rfl
      rw [hfresh] at hold
      cases hold
    · rw [List.getElem?_concat_length] at hk
      cases hk
      refine (Function.update_self ..).trans ?_
      rw [h.next_eq, ConnectionTable.nameAt, ConnectionTable.connName, ConnectionTable.connName,
        h.name_eq, h.ipPort_eq]
    · rw [List.getElem?_eq_none (by simp; omega)] at hk
      cases hk

theorem Named.step {first : ConnectionTable} {es : List ServerEvent} {s t : ServerSystem}
    {e : ServerEvent} (h : s.Named first (accepted es)) (hstep : s.step e = some t) :
    t.Named first (accepted (es ++ [e])) := by
  by_cases he : ∃ sockfd id, e = .accept sockfd id
  · obtain ⟨sockfd, id, rfl⟩ := he
    obtain ⟨hnew, hsame⟩ := sameNames_frame.accept hstep
    rw [accepted_snoc]
    exact (h.create hnew).same hsame
  · have hother : ∀ sockfd id, e ≠ .accept sockfd id :=
      fun sockfd id heq => he ⟨sockfd, id, heq⟩
    rw [accepted_snoc_of_not_accept hother]
    exact h.same (sameNames_frame.step hstep hother)

/-- In every run the `k`-th connection has the `k`-th name. -/
theorem run_named {s : ServerSystem} {loop : Nat} {name ipPort : String}
    {writeComplete : Bool} {numThreads : Int} {es : List ServerEvent}
    (hrun : Run step (start loop name ipPort writeComplete numThreads) es s) :
    s.Named (.new name ipPort) (accepted es) := by
  refine hrun.history (I := fun es s => Named (.new name ipPort) (accepted es) s)
    (start_named loop name ipPort writeComplete numThreads) ?_
  intro fs u e v _ hu hstep
  exact hu.step hstep

theorem Named.conn_name {first : ConnectionTable} {ids : List ChannelPtr} {s : ServerSystem}
    {k : Nat} {id : ChannelPtr} {conn : TcpConnection} (h : s.Named first ids)
    (hk : ids[k]? = some id) (hconn : s.conns id = some conn) :
    conn.name_ = first.nameAt k := by
  have hname := h.named k id hk
  have hown : s.table.names id = some conn.name_ := congrArg (Option.map TcpConnection.name_) hconn
  exact Option.some.inj (hown.symm.trans hname)

end ServerSystem

/-- **A name tells server, address and number.**  Take any two runs of servers, of one server
    or of two.  Two connections of them, whatever has happened to them since, have one name
    exactly if the servers have one name and listen on one address, and the connections were
    accepted a multiple of `2 ^ 32` accepts apart. -/
theorem connection_name_identifies {loop loop' : Nat} {name name' : String}
    {a b : InetAddress} {writeComplete writeComplete' : Bool} {numThreads numThreads' : Int}
    {es fs : List ServerEvent} {s t : ServerSystem}
    (hs : Run ServerSystem.step
      (ServerSystem.start loop name a.toIpPort writeComplete numThreads) es s)
    (ht : Run ServerSystem.step
      (ServerSystem.start loop' name' b.toIpPort writeComplete' numThreads') fs t)
    {i j : Nat} {id id' : ChannelPtr} (hi : (accepted es)[i]? = some id)
    (hj : (accepted fs)[j]? = some id') {conn conn' : TcpConnection}
    (hconn : s.conns id = some conn) (hconn' : t.conns id' = some conn') :
    conn.name_ = conn'.name_ ↔ name = name' ∧ a = b ∧ TableRun.SameNumber i j := by
  rw [(ServerSystem.run_named hs).conn_name hi hconn,
    (ServerSystem.run_named ht).conn_name hj hconn']
  exact ConnectionTable.nameAt_iff rfl rfl

/-- The first connections of two servers of one name on ports 80 and 443. -/
theorem connection_name_identifies_two_ports :
    ∃ s t conn conn', ServerSystem.step
        (.start 0 "server" (InetAddress.mk 0x5000 0x7f000001).toIpPort false 0)
        (.accept 5 1) = some s ∧
      ServerSystem.step (.start 0 "server" (InetAddress.mk 0xbb01 0x7f000001).toIpPort false 2)
        (.accept 6 1) = some t ∧
      s.conns 1 = some conn ∧ t.conns 1 = some conn' ∧ conn.name_ ≠ conn'.name_ := by
  obtain ⟨s, hs, hconn⟩ := exists_run ServerSystem.step
    (.start 0 "server" (InetAddress.mk 0x5000 0x7f000001).toIpPort false 0) [.accept 5 1]
    (fun s => (s.conns 1).isSome) true rfl
  obtain ⟨t, ht, hconn'⟩ := exists_run ServerSystem.step
    (.start 0 "server" (InetAddress.mk 0xbb01 0x7f000001).toIpPort false 2) [.accept 6 1]
    (fun s => (s.conns 1).isSome) true rfl
  obtain ⟨conn, hconn⟩ := Option.isSome_iff_exists.mp hconn
  obtain ⟨conn', hconn'⟩ := Option.isSome_iff_exists.mp hconn'
  refine ⟨s, t, conn, conn', hs.step_of_one, ht.step_of_one, hconn, hconn', ?_⟩
  rw [Ne, connection_name_identifies hs ht (i := 0) (j := 0) rfl rfl hconn hconn']
  rintro ⟨_, haddress, _⟩
  exact absurd (congrArg InetAddress.sin_port haddress) (by decide)

end Muduo
