import Muduo.LoopConfinement
import Muduo.Numerals
import Muduo.Transitions

/-!
# The connection table of a server

`newConnection` files a connection in `connections_` under a name made from
`nextConnId_++`, and `removeConnectionInLoop` erases by the connection's name.  The
counter is an `int`, so after `2 ^ 32` accepts the names repeat.

A table knows the name of every connection ever made.  Connections arrive and are removed
in any order and a connection can be removed more than once, as its close callback can run
more than once.  The steps of the server act on the table by these two operations.
-/

namespace Muduo

open Transitions

/-! ### The table -/

/-- `connections_` with what its keys are made of, and `name()` of every connection. -/
structure ConnectionTable where
  name_ : String
  ipPort_ : String
  nextConnId_ : Int
  connections_ : List (String × ChannelPtr)
  names : ChannelPtr → Option String

inductive TableEvent where
  | newConnection (id : ChannelPtr)
  | removeConnectionInLoop (id : ChannelPtr)
deriving DecidableEq

namespace ConnectionTable

def new (name ipPort : String) : ConnectionTable := ⟨name, ipPort, 1, [], fun _ => none⟩

def connName (t : ConnectionTable) (n : Int) : String :=
  t.name_ ++ "--" ++ t.ipPort_ ++ "##" ++ toString n

/-- `connections_[connName] = conn`, with the name that `nextConnId_++` gives. -/
def newConnection (t : ConnectionTable) (id : ChannelPtr) : ConnectionTable :=
  let connName := t.connName t.nextConnId_
  { t with
    nextConnId_ := Int.bmod (t.nextConnId_ + 1) (2 ^ 32)
    connections_ := (connName, id) :: t.connections_.filter fun item => item.1 ≠ connName
    names := Function.update t.names id (some connName) }

/-- `connections_.erase(conn->name())`. -/
def erase (t : ConnectionTable) (name : String) : ConnectionTable :=
  { t with connections_ := t.connections_.filter fun item => item.1 ≠ name }

def step (t : ConnectionTable) : TableEvent → Option ConnectionTable
  | .newConnection id => if t.names id = none then some (t.newConnection id) else none
  | .removeConnectionInLoop id => (t.names id).map t.erase

end ConnectionTable

/-- A table with the connections accepted so far, in order, and those whose
    `removeConnectionInLoop` has run. -/
structure TableRun where
  table : ConnectionTable
  accepted : List ChannelPtr
  removed : List ChannelPtr

namespace TableRun

def start (name ipPort : String) : TableRun := ⟨.new name ipPort, [], []⟩

def step (s : TableRun) (e : TableEvent) : Option TableRun :=
  (s.table.step e).map fun table =>
    match e with
    | .newConnection id => { s with table := table, accepted := s.accepted ++ [id] }
    | .removeConnectionInLoop id => { s with table := table, removed := s.removed ++ [id] }

/-- Each entry maps its connection's own name to it, and every connection that was accepted
    and not removed has one. -/
structure Integrity (s : TableRun) : Prop where
  own : ∀ name id, (name, id) ∈ s.table.connections_ → s.table.names id = some name
  present : ∀ id ∈ s.accepted, id ∉ s.removed → ∃ name, (name, id) ∈ s.table.connections_

/-- `newConnection` keeps every entry, and `removeConnectionInLoop(conn)` erases the entry
    of `conn` alone. -/
def ChangesOwnEntry (s : TableRun) (e : TableEvent) : Prop :=
  ∀ t, s.step e = some t →
    match e with
    | .newConnection _ => ∀ item ∈ s.table.connections_, item ∈ t.table.connections_
    | .removeConnectionInLoop id => ∀ item,
        item ∈ t.table.connections_ ↔ item ∈ s.table.connections_ ∧ item.2 ≠ id

/-- Two accepts of the same name lie a multiple of `2 ^ 32` accepts apart. -/
def SameNumber (i j : Nat) : Prop := i % 2 ^ 32 = j % 2 ^ 32

/-- No connection that is accepted or removed shares its number with another one that has
    not been removed. -/
def NumberFree (s : TableRun) : TableEvent → Prop
  | .newConnection _ => ∀ j id, s.accepted[j]? = some id → SameNumber j s.accepted.length →
      id ∈ s.removed
  | .removeConnectionInLoop id => ∀ i j other, s.accepted[i]? = some id →
      s.accepted[j]? = some other → SameNumber j i → other ≠ id → other ∈ s.removed

end TableRun

/-! ### Names -/

namespace ConnectionTable

/-- The name of the connection accepted after `i` others. -/
def nameAt (t : ConnectionTable) (i : Nat) : String := t.connName (Int.bmod (1 + i) (2 ^ 32))

theorem nameAt_inj {t : ConnectionTable} {i j : Nat} :
    t.nameAt i = t.nameAt j ↔ TableRun.SameNumber i j := by
  rw [nameAt, nameAt, connName, connName, String.append_right_inj, Numerals.toString_inj,
    Int.bmod_eq_bmod_iff_bmod_sub_eq_zero, ← Int.dvd_iff_bmod_eq_zero, TableRun.SameNumber]
  push_cast
  omega

theorem newConnection_nameAt (t : ConnectionTable) (id : ChannelPtr) :
    (t.newConnection id).nameAt = t.nameAt := rfl

end ConnectionTable

namespace TableRun

theorem step_newConnection {s t : TableRun} {id : ChannelPtr} :
    s.step (.newConnection id) = some t ↔ s.table.names id = none ∧
      t = { s with table := s.table.newConnection id, accepted := s.accepted ++ [id] } := by
  simp only [step, ConnectionTable.step, Option.map_eq_some_iff, Option.ite_none_right_eq_some,
    Option.some.injEq]
  constructor
  · rintro ⟨_, ⟨hfresh, rfl⟩, rfl⟩
    exact ⟨hfresh, rfl⟩
  · rintro ⟨hfresh, rfl⟩
    exact ⟨_, ⟨hfresh, rfl⟩, rfl⟩

theorem step_remove {s t : TableRun} {id : ChannelPtr} :
    s.step (.removeConnectionInLoop id) = some t ↔ ∃ name, s.table.names id = some name ∧
      t = { s with table := s.table.erase name, removed := s.removed ++ [id] } := by
  simp only [step, ConnectionTable.step, Option.map_eq_some_iff]
  constructor
  · rintro ⟨_, ⟨name, hname, rfl⟩, rfl⟩
    exact ⟨name, hname, rfl⟩
  · rintro ⟨name, hname, rfl⟩
    exact ⟨_, ⟨name, hname, rfl⟩, rfl⟩

/-! ### The invariant -/

/-- The table is what the accepts and the removals so far make it. -/
structure Inv (s : TableRun) : Prop where
  number : s.table.nextConnId_ = Int.bmod (1 + s.accepted.length) (2 ^ 32)
  names : ∀ id name, s.table.names id = some name ↔
    ∃ i : Nat, s.accepted[i]? = some id ∧ name = s.table.nameAt i
  entries : ∀ name id, (name, id) ∈ s.table.connections_ ↔
    s.table.names id = some name ∧ id ∉ s.removed
  removed : ∀ id ∈ s.removed, id ∈ s.accepted

theorem start_inv (name ipPort : String) : (start name ipPort).Inv := by
  have hfirst : (1 : Int) = Int.bmod (1 + (0 : Nat)) (2 ^ 32) := by decide
  refine ⟨hfirst, ?_, ?_, ?_⟩
  · simp [start, ConnectionTable.new]
  · simp [start, ConnectionTable.new]
  · simp [start]

theorem Inv.integrity {s : TableRun} (h : s.Inv) : s.Integrity where
  own := by
    intro name id hitem
    exact ((h.entries name id).mp hitem).1
  present := by
    intro id hid hleft
    obtain ⟨i, hi⟩ := List.getElem?_of_mem hid
    exact ⟨_, (h.entries _ id).mpr ⟨(h.names id _).mpr ⟨i, hi, rfl⟩, hleft⟩⟩

theorem Inv.names_eq_none {s : TableRun} (h : s.Inv) {id : ChannelPtr} (hid : id ∉ s.accepted) :
    s.table.names id = none := by
  rw [Option.eq_none_iff_forall_ne_some]
  intro name hname
  obtain ⟨i, hi, _⟩ := (h.names id name).mp hname
  exact hid (List.mem_of_getElem? hi)

/-- The name that the next connection gets. -/
theorem Inv.connName_next {s : TableRun} (h : s.Inv) :
    s.table.connName s.table.nextConnId_ = s.table.nameAt s.accepted.length := by
  rw [h.number, ConnectionTable.nameAt]

/-- With a free number the new name is not in the table. -/
theorem Inv.fresh_name {s : TableRun} (h : s.Inv) {id : ChannelPtr}
    (hfree : s.NumberFree (.newConnection id)) :
    ∀ item ∈ s.table.connections_, item.1 ≠ s.table.connName s.table.nextConnId_ := by
  rintro ⟨name, other⟩ hitem hname
  obtain ⟨hother, hleft⟩ := (h.entries name other).mp hitem
  obtain ⟨j, hj, rfl⟩ := (h.names other name).mp hother
  rw [h.connName_next, ConnectionTable.nameAt_inj] at hname
  exact hleft (hfree j other hj hname)

/-- With a free number only the connection itself has its name in the table. -/
theorem Inv.own_name {s : TableRun} (h : s.Inv) {id other : ChannelPtr} {name : String}
    (hfree : s.NumberFree (.removeConnectionInLoop id)) (hid : s.table.names id = some name)
    (hitem : (name, other) ∈ s.table.connections_) : other = id := by
  obtain ⟨hother, hleft⟩ := (h.entries name other).mp hitem
  obtain ⟨i, hi, hname⟩ := (h.names id name).mp hid
  obtain ⟨j, hj, hsame⟩ := (h.names other name).mp hother
  by_contra hne
  rw [hname, ConnectionTable.nameAt_inj] at hsame
  exact hleft (hfree i j other hi hj hsame.symm hne)

theorem getElem?_concat {l : List ChannelPtr} {a b : ChannelPtr} {i : Nat} :
    (l ++ [a])[i]? = some b ↔ l[i]? = some b ∨ i = l.length ∧ a = b := by
  rcases Nat.lt_trichotomy i l.length with hlt | rfl | hgt
  · rw [List.getElem?_append_left hlt]
    simp [Nat.ne_of_lt hlt]
  · simp
  · rw [List.getElem?_eq_none (by simp; omega), List.getElem?_eq_none (by omega)]
    simp [Nat.ne_of_gt hgt]

/-- `newConnection` with a free name adds one entry. -/
theorem Inv.newConnection_entries {s : TableRun} (h : s.Inv) {id : ChannelPtr}
    (hfree : s.NumberFree (.newConnection id)) :
    (s.table.newConnection id).connections_ =
      (s.table.nameAt s.accepted.length, id) :: s.table.connections_ := by
  have hkeep : (s.table.connections_.filter fun item =>
      item.1 ≠ s.table.connName s.table.nextConnId_) = s.table.connections_ := by
    rw [List.filter_eq_self]
    intro item hitem
    simpa using h.fresh_name hfree item hitem
  rw [ConnectionTable.newConnection, hkeep, h.connName_next]

theorem Inv.newConnection {s t : TableRun} {id : ChannelPtr} (h : s.Inv)
    (hfree : s.NumberFree (.newConnection id)) (hstep : s.step (.newConnection id) = some t) :
    t.Inv := by
  obtain ⟨hnew, rfl⟩ := step_newConnection.mp hstep
  have hunknown : id ∉ s.accepted := by
    intro hid
    obtain ⟨i, hi⟩ := List.getElem?_of_mem hid
    rw [(h.names id _).mpr ⟨i, hi, rfl⟩] at hnew
    simp at hnew
  have hnames : (s.table.newConnection id).names =
      Function.update s.table.names id (some (s.table.nameAt s.accepted.length)) := by
    rw [ConnectionTable.newConnection, h.connName_next]
  refine ⟨?_, ?_, ?_, ?_⟩
  · simp only [ConnectionTable.newConnection, h.number, List.length_append, List.length_singleton]
    rw [Int.bmod_add_bmod, Nat.cast_add, Int.add_assoc, Nat.cast_one]
  · intro other name
    simp only [hnames, ConnectionTable.newConnection_nameAt, getElem?_concat]
    by_cases hother : other = id
    · subst hother
      rw [Function.update_self, Option.some.injEq]
      constructor
      · intro hname
        exact ⟨s.accepted.length, Or.inr ⟨rfl, rfl⟩, hname.symm⟩
      · rintro ⟨i, hi | ⟨rfl, _⟩, rfl⟩
        · exact absurd (List.mem_of_getElem? hi) hunknown
        · rfl
    · rw [Function.update_of_ne hother, h.names]
      simp [Ne.symm hother]
  · intro name other
    simp only [hnames, h.newConnection_entries hfree, List.mem_cons, Prod.mk.injEq]
    by_cases hother : other = id
    · subst hother
      rw [Function.update_self, h.entries, hnew]
      have hleft : other ∉ s.removed := fun hgone => hunknown (h.removed other hgone)
      simp [hleft, eq_comm]
    · rw [Function.update_of_ne hother, ← h.entries]
      simp [hother]
  · intro other hother
    exact List.mem_append_left _ (h.removed other hother)

theorem Inv.remove {s t : TableRun} {id : ChannelPtr} (h : s.Inv)
    (hfree : s.NumberFree (.removeConnectionInLoop id))
    (hstep : s.step (.removeConnectionInLoop id) = some t) : t.Inv := by
  obtain ⟨name, hname, rfl⟩ := step_remove.mp hstep
  refine ⟨h.number, h.names, ?_, ?_⟩
  · intro name' other
    simp only [ConnectionTable.erase, List.mem_filter, List.mem_append, List.mem_singleton,
      decide_eq_true_eq, not_or]
    constructor
    · rintro ⟨hitem, hne⟩
      obtain ⟨hother, hleft⟩ := (h.entries name' other).mp hitem
      refine ⟨hother, hleft, ?_⟩
      rintro rfl
      exact hne (Option.some.inj (hother.symm.trans hname))
    · rintro ⟨hother, hleft, hne⟩
      have hitem := (h.entries name' other).mpr ⟨hother, hleft⟩
      refine ⟨hitem, ?_⟩
      rintro rfl
      exact hne (h.own_name hfree hname hitem)
  · intro other hother
    rcases List.mem_append.mp hother with hold | hnew
    · exact h.removed other hold
    · rw [List.mem_singleton.mp hnew]
      obtain ⟨i, hi, _⟩ := (h.names id name).mp hname
      exact List.mem_of_getElem? hi

theorem Inv.step {s t : TableRun} {e : TableEvent} (h : s.Inv) (hfree : s.NumberFree e)
    (hstep : s.step e = some t) : t.Inv := by
  cases e with
  | newConnection id => exact h.newConnection hfree hstep
  | removeConnectionInLoop id => exact h.remove hfree hstep

/-! ### A taken number -/

theorem changesOwnEntry_iff {s t : TableRun} {e : TableEvent} (h : s.Inv)
    (hstep : s.step e = some t) : s.ChangesOwnEntry e ↔ s.NumberFree e := by
  cases e with
  | newConnection id =>
    constructor
    · intro hkeeps j other hj hsame
      by_contra hleft
      have hitem : (s.table.nameAt j, other) ∈ s.table.connections_ :=
        (h.entries _ _).mpr ⟨(h.names _ _).mpr ⟨j, hj, rfl⟩, hleft⟩
      have hkept := hkeeps t hstep _ hitem
      obtain ⟨hnew, rfl⟩ := step_newConnection.mp hstep
      simp only [ConnectionTable.newConnection, h.connName_next, List.mem_cons, Prod.mk.injEq,
        List.mem_filter, decide_eq_true_eq, ConnectionTable.nameAt_inj.mpr hsame, ne_eq,
        not_true_eq_false, and_false, or_false, true_and] at hkept
      subst hkept
      rw [(h.names other _).mpr ⟨j, hj, rfl⟩] at hnew
      simp at hnew
    · intro hfree u hu item hitem
      obtain ⟨_, rfl⟩ := step_newConnection.mp hu
      simp only [h.newConnection_entries hfree]
      exact List.mem_cons_of_mem _ hitem
  | removeConnectionInLoop id =>
    constructor
    · intro hown i j other hi hj hsame hne
      by_contra hleft
      have hother := (h.names other _).mpr ⟨j, hj, rfl⟩
      have hkept := (hown t hstep (s.table.nameAt j, other)).mpr
        ⟨(h.entries _ _).mpr ⟨hother, hleft⟩, hne⟩
      obtain ⟨name, hname, rfl⟩ := step_remove.mp hstep
      have hid := (h.names id _).mpr ⟨i, hi, rfl⟩
      rw [hname, Option.some.injEq] at hid
      simp [ConnectionTable.erase, hid, ConnectionTable.nameAt_inj.mpr hsame] at hkept
    · rintro hfree u hu ⟨name', other⟩
      have hafter := (h.remove hfree hu).entries name' other
      obtain ⟨name, hname, rfl⟩ := step_remove.mp hu
      rw [hafter, h.entries]
      simp [ConnectionTable.erase, and_assoc]

end TableRun

/-- **Integrity of the connection table.**  In every run of accepts and removals, each entry
    maps its connection's own name to it, the connections not yet removed are all present,
    `newConnection` replaces nothing and `removeConnectionInLoop` erases its connection
    alone, exactly when no connection is accepted or removed while another one of its
    number is still there. -/
theorem connection_table_integrity_iff (name ipPort : String) (es : List TableEvent)
    (s : TableRun) (hrun : Run TableRun.step (TableRun.start name ipPort) es s) :
    Always TableRun.step TableRun.Integrity (TableRun.start name ipPort) es ∧
        Along TableRun.step TableRun.ChangesOwnEntry (TableRun.start name ipPort) es ↔
      Along TableRun.step TableRun.NumberFree (TableRun.start name ipPort) es := by
  have hstart := TableRun.start_inv name ipPort
  rw [along_congr_of_guard (I := TableRun.Inv) (fun _ _ _ h => h.step)
    (fun _ _ _ => TableRun.changesOwnEntry_iff) hstart hrun]
  constructor
  · intro h
    exact h.2
  · intro hfree
    refine ⟨?_, hfree⟩
    exact (always_of_along (fun _ _ _ h => h.step) hstart hfree).mono fun _ h => h.integrity

theorem connection_table_integrity_iff_two_accepts :
    Always TableRun.step TableRun.Integrity (TableRun.start "server" "0.0.0.0:80")
          [.newConnection 7, .newConnection 8, .removeConnectionInLoop 7] ∧
        Along TableRun.step TableRun.ChangesOwnEntry (TableRun.start "server" "0.0.0.0:80")
          [.newConnection 7, .newConnection 8, .removeConnectionInLoop 7] ↔
      Along TableRun.step TableRun.NumberFree (TableRun.start "server" "0.0.0.0:80")
        [.newConnection 7, .newConnection 8, .removeConnectionInLoop 7] :=
  connection_table_integrity_iff "server" "0.0.0.0:80" _ _ rfl

/-! ### A full round of the counter -/

namespace TableRun

/-- Connections at the addresses `1, …, n`, each removed before the next one is accepted. -/
def turnover (n : Nat) : List TableEvent :=
  (List.range n).flatMap fun i => [.newConnection (i + 1), .removeConnectionInLoop (i + 1)]

/-- As long as the counter has not come round, every number is free. -/
theorem numberFree_of_range {s : TableRun} {n : Nat} (hn : n ≤ 2 ^ 32)
    (haccepted : s.accepted = List.range n) (id : ChannelPtr) :
    (n < 2 ^ 32 → s.NumberFree (.newConnection id)) ∧
      s.NumberFree (.removeConnectionInLoop id) := by
  have hplace : ∀ {i other}, s.accepted[i]? = some other → i < n ∧ other = i := by
    intro i other hi
    rw [haccepted] at hi
    obtain ⟨hlt, hother⟩ := List.getElem?_eq_some_iff.mp hi
    rw [List.length_range] at hlt
    exact ⟨hlt, by rw [← hother, List.getElem_range]⟩
  constructor
  · intro hlt j other hj hsame
    have hj := (hplace hj).1
    rw [haccepted, List.length_range, SameNumber, Nat.mod_eq_of_lt (by omega),
      Nat.mod_eq_of_lt hlt] at hsame
    omega
  · intro i j other hi hj hsame hne
    obtain ⟨hi, rfl⟩ := hplace hi
    obtain ⟨hj, rfl⟩ := hplace hj
    rw [SameNumber, Nat.mod_eq_of_lt (by omega), Nat.mod_eq_of_lt (by omega)] at hsame
    exact absurd hsame hne

/-- The connection at `0` stays, and `n` others come and go. -/
theorem exists_turnover (name ipPort : String) {n : Nat} (hn : n < 2 ^ 32) :
    ∃ s, Run step (start name ipPort) (.newConnection 0 :: turnover n) s ∧ s.Inv ∧
      s.accepted = List.range (n + 1) ∧ s.removed = (List.range n).map (· + 1) := by
  induction n with
  | zero =>
    have hinv := start_inv name ipPort
    have hnew : (start name ipPort).table.names 0 = none := rfl
    have hstep := step_newConnection.mpr ⟨hnew, rfl⟩
    have hfree := (numberFree_of_range (s := start name ipPort) (Nat.zero_le _) rfl 0).1 (by simp)
    exact ⟨_, Run.one hstep, hinv.newConnection hfree hstep, rfl, rfl⟩
  | succ n ih =>
    obtain ⟨s, hrun, hinv, haccepted, hremoved⟩ := ih (by omega)
    have hnew : s.table.names (n + 1) = none := hinv.names_eq_none (by simp [haccepted])
    have haccept := step_newConnection.mpr ⟨hnew, rfl⟩
    have hopen := hinv.newConnection ((numberFree_of_range (by omega) haccepted _).1 hn) haccept
    have hname := (hopen.names (n + 1) _).mpr ⟨n + 1, by simp [haccepted], rfl⟩
    have hremove := step_remove.mpr ⟨_, hname, rfl⟩
    have hlast : s.accepted ++ [n + 1] = List.range (n + 2) := by
      rw [haccepted, ← List.range_succ]
    refine ⟨_, ?_, hopen.remove (numberFree_of_range (n := n + 2) (by omega) hlast _).2 hremove,
      hlast, ?_⟩
    · have hround := hrun.append (Run.cons haccept (Run.one hremove))
      rw [turnover, List.range_succ, List.flatMap_append]
      exact hround
    · simp [hremoved, List.range_succ]

end TableRun

/-- With the first connection still there, the accept after `2 ^ 32 - 1` others replaces its
    entry, though each of the others was removed before the next one came. -/
theorem accept_replaces_entry :
    ∃ t, Run TableRun.step (TableRun.start "server" "0.0.0.0:80")
        (.newConnection 0 :: TableRun.turnover (2 ^ 32 - 1) ++ [.newConnection (2 ^ 32)]) t ∧
      0 ∈ t.accepted ∧ 0 ∉ t.removed ∧ (∀ name, (name, 0) ∉ t.table.connections_) ∧
      ¬ Always TableRun.step TableRun.Integrity (TableRun.start "server" "0.0.0.0:80")
        (.newConnection 0 :: TableRun.turnover (2 ^ 32 - 1) ++ [.newConnection (2 ^ 32)]) := by
  obtain ⟨s, hrun, hinv, haccepted, hremoved⟩ :=
    TableRun.exists_turnover "server" "0.0.0.0:80" (show 2 ^ 32 - 1 < 2 ^ 32 by decide)
  have hpos : 0 < 2 ^ 32 := Nat.two_pow_pos 32
  rw [Nat.sub_add_cancel hpos] at haccepted
  generalize hn : (2 : Nat) ^ 32 = n at *
  have hnew : s.table.names n = none := hinv.names_eq_none (by simp [haccepted])
  have hfirst : s.table.names 0 = some (s.table.nameAt 0) :=
    (hinv.names 0 _).mpr ⟨0, by simp [haccepted, hpos], rfl⟩
  have hname : s.table.connName s.table.nextConnId_ = s.table.nameAt 0 := by
    rw [hinv.connName_next, ConnectionTable.nameAt_inj, TableRun.SameNumber, hn, haccepted]
    simp
  have hstep := TableRun.step_newConnection.mpr ⟨hnew, rfl⟩
  have hrun' := hrun.append (Run.one hstep)
  have hgone : ∀ name, (name, 0) ∉ (s.table.newConnection n).connections_ := by
    intro name hitem
    simp only [ConnectionTable.newConnection, List.mem_cons, Prod.mk.injEq, List.mem_filter,
      decide_eq_true_eq, hname] at hitem
    rcases hitem with ⟨_, hzero⟩ | ⟨hitem, hother⟩
    · exact absurd hzero (Nat.ne_of_lt hpos)
    · have hown := ((hinv.entries name 0).mp hitem).1
      rw [hfirst, Option.some.injEq] at hown
      exact hother hown.symm
  have hzero : 0 ∈ s.accepted := by simp [haccepted, hpos]
  have hstays : 0 ∉ s.removed := by simp [hremoved]
  refine ⟨_, hrun', List.mem_append_left _ hzero, hstays, hgone, ?_⟩
  intro halways
  have hlast := halways _ [] _ (List.append_nil _).symm hrun'
  obtain ⟨name, hitem⟩ := hlast.present 0 (List.mem_append_left _ hzero) hstays
  exact hgone name hitem

/-! ### The server's steps -/

namespace ServerSystem

def table (s : ServerSystem) : ConnectionTable where
  name_ := s.server.name_
  ipPort_ := s.server.ipPort_
  nextConnId_ := s.server.nextConnId_
  connections_ := s.server.connections_
  names id := (s.conns id).map TcpConnection.name_

/-- The table of `t` comes from that of `s` by accepts and removals. -/
def MovesTable (s t : ServerSystem) : Prop := ∃ es, Run ConnectionTable.step s.table es t.table

theorem MovesTable.of_eq {s t : ServerSystem} (h : t.table = s.table) : MovesTable s t :=
  ⟨[], h ▸ Run.refl t.table⟩

theorem MovesTable.trans {s t u : ServerSystem} (hst : MovesTable s t) (htu : MovesTable t u) :
    MovesTable s u := by
  rcases hst with ⟨es, hes⟩
  rcases htu with ⟨fs, hfs⟩
  exact ⟨es ++ fs, hes.append hfs⟩

theorem createConnection_table {s : ServerSystem} {sockfd : Nat} {id : ChannelPtr} :
    (s.createConnection sockfd id).table = s.table.newConnection id := by
  simp only [createConnection, table, ConnectionTable.newConnection, ConnectionTable.connName]
  congr 1
  funext other
  by_cases hother : other = id
  · rw [hother, Function.update_self, Function.update_self]
    rfl
  · rw [Function.update_of_ne hother, Function.update_of_ne hother]

theorem eraseConnection_movesTable {s : ServerSystem} {id : ChannelPtr} {conn : TcpConnection}
    (hname : s.table.names id = some conn.name_) : MovesTable s (s.eraseConnection conn) := by
  refine ⟨[.removeConnectionInLoop id], Run.one ?_⟩
  rw [ConnectionTable.step, hname]
  rfl

theorem react_movesTable {s t : ServerSystem} {thread : Nat} {id : ChannelPtr}
    {conn : TcpConnection} {o : Output} (hname : s.table.names id = some conn.name_)
    (hreact : react thread id conn s o = some t) :
    MovesTable s t ∧ t.table.names id = some conn.name_ := by
  simp only [react] at hreact
  split at hreact
  · cases hreact
    exact ⟨MovesTable.of_eq rfl, hname⟩
  · split at hreact
    · split at hreact
      · have herase := eraseConnection_movesTable hname
        cases hreact
        split
        · exact ⟨herase, hname⟩
        · exact ⟨herase.trans (MovesTable.of_eq rfl), hname⟩
      · cases hreact
        exact ⟨MovesTable.of_eq rfl, hname⟩
    · cases hreact
  · cases hreact
    exact ⟨MovesTable.of_eq rfl, hname⟩

theorem commit_table {s : ServerSystem} (thread : Nat) {id : ChannelPtr} (what : List LoopStep)
    {c : ConnCtx} (hname : s.table.names id = some c.conn.name_) :
    (s.commit thread id what c).table = s.table := by
  simp only [commit, table]
  congr 1
  funext other
  by_cases hother : other = id
  · rw [hother, Function.update_self]
    exact hname.symm
  · rw [Function.update_of_ne hother]

theorem call_movesTable {P : Output → Prop} {s t : ServerSystem} {thread : Nat} {id : ChannelPtr}
    {what : List LoopStep} {method : ConnCtx → Except Fault ConnCtx}
    (hmethod : ∀ c c', method c = .ok c' → c.Reaches P c')
    (hcall : s.call thread id what method = some t) : MovesTable s t := by
  obtain ⟨conn, c, hconn, hc, hfold⟩ := call_eq_some hcall
  have hname : s.table.names id = some c.conn.name_ := by
    rw [(hmethod _ c hc).name_eq]
    exact congrArg (Option.map TcpConnection.name_) hconn
  have hcommit := commit_table thread what hname
  have hstart : MovesTable s (s.commit thread id what c) ∧
      (s.commit thread id what c).table.names id = some c.conn.name_ := by
    rw [hcommit]
    exact ⟨MovesTable.of_eq hcommit, hname⟩
  refine (foldlM_invariant (I := fun u => MovesTable s u ∧ u.table.names id = some c.conn.name_)
    ?_ hstart hfold).1
  intro u o v _ hu hreact
  obtain ⟨hmoves, hname'⟩ := react_movesTable hu.2 hreact
  exact ⟨hu.1.trans hmoves, hname'⟩

theorem runConnFunctor_movesTable {s t : ServerSystem} {thread : Nat} {id : ChannelPtr}
    {w : WriteResult} {f : ConnFunctor} (hrun : s.runConnFunctor thread id w f = some t) :
    MovesTable s t := by
  rcases runConnFunctor_call hrun with rfl | ⟨what, method, hcall, hmethod⟩
  · exact MovesTable.of_eq rfl
  · exact call_movesTable hmethod hcall

theorem runInLoop_movesTable {s t : ServerSystem} {thread loop : Nat} {id : ChannelPtr}
    {w : WriteResult} {f : ConnFunctor} (hrun : s.runInLoop thread loop id w f = some t) :
    MovesTable s t := by
  simp only [runInLoop] at hrun
  split at hrun
  · exact runConnFunctor_movesTable hrun
  · cases hrun
    exact MovesTable.of_eq rfl

theorem removeConnectionInLoop_movesTable {s t : ServerSystem} {thread : Nat} {id : ChannelPtr}
    (hremove : s.removeConnectionInLoop thread id = some t) : MovesTable s t := by
  obtain ⟨conn, hconn, hrun⟩ := Option.bind_eq_some_iff.mp hremove
  have hname : s.table.names id = some conn.name_ :=
    congrArg (Option.map TcpConnection.name_) hconn
  exact (eraseConnection_movesTable hname).trans (runInLoop_movesTable hrun)

theorem proceed_movesTable {s t : ServerSystem} {thread : Nat} {id : ChannelPtr}
    {w : WriteResult} {call : UserCall} (hcall : s.proceed thread id w call = some t) :
    MovesTable s t := by
  cases call with
  | send message =>
    obtain ⟨conn, _, hsend⟩ := Option.bind_eq_some_iff.mp hcall
    exact runInLoop_movesTable hsend
  | shutdown =>
    exact call_movesTable (P := fun _ => True)
      (ConnCtx.reaches_of_total (ConnCtx.shutdownStore_reaches trivial)) hcall

/-- Every step of the server moves the table by accepts and removals. -/
theorem step_movesTable {s t : ServerSystem} {e : ServerEvent} (hstep : s.step e = some t) :
    MovesTable s t := by
  replace hstep := (step_eq_some hstep).2
  cases e
  all_goals simp only [perform] at hstep
  case accept sockfd id =>
    split at hstep
    · next hready =>
      have hcreate : MovesTable s (s.createConnection sockfd id) := by
        refine ⟨[.newConnection id], Run.one ?_⟩
        have hfresh : s.table.names id = none := by simp [table, hready.2]
        rw [createConnection_table, ConnectionTable.step, if_pos hfresh]
      exact hcreate.trans (runInLoop_movesTable hstep)
    · cases hstep
  case poll loop ready =>
    split at hstep
    · cases hstep
      exact MovesTable.of_eq rfl
    · cases hstep
  case handleEvent loop ownerAlive r w =>
    split at hstep
    · cases hstep
    · have hmoves := call_movesTable (P := fun _ => True)
        (fun _ _ => ConnCtx.handleEvent_reaches (fun _ _ => trivial) fun _ _ => trivial) hstep
      exact hmoves
  case runFunctor loop w =>
    split at hstep
    · next f rest _ _ =>
      cases f with
      | conn id g =>
        have hmoves := runConnFunctor_movesTable hstep
        exact hmoves
      | removeConnectionInLoop id =>
        simp only [runFunctor] at hstep
        split at hstep
        · have hmoves := removeConnectionInLoop_movesTable hstep
          exact hmoves
        · cases hstep
    · cases hstep
  case load thread id call =>
    obtain ⟨conn, _, hload⟩ := Option.bind_eq_some_iff.mp hstep
    split at hload
    · cases hload
      exact MovesTable.of_eq rfl
    · cases hload
      exact MovesTable.of_eq rfl
  case proceed thread w =>
    obtain ⟨⟨id, call⟩, _, hcall⟩ := Option.bind_eq_some_iff.mp hstep
    have hmoves := proceed_movesTable hcall
    exact hmoves
  case destroy thread order =>
    split at hstep
    · obtain ⟨u, hfold, rfl⟩ := Option.map_eq_some_iff.mp hstep
      have hitems : MovesTable s u := by
        refine foldlM_invariant (I := MovesTable s) ?_ (MovesTable.of_eq rfl) hfold
        intro v item v' _ hv hitem
        obtain ⟨conn, _, hrun⟩ := Option.bind_eq_some_iff.mp hitem
        exact hv.trans (runInLoop_movesTable hrun)
      exact hitems.trans (MovesTable.of_eq rfl)
    · cases hstep

theorem run_movesTable {s t : ServerSystem} {es : List ServerEvent} (hrun : Run step s es t) :
    MovesTable s t := by
  refine hrun.invariant (I := MovesTable s) ?_ (MovesTable.of_eq rfl)
  intro u e v hu hstep
  exact hu.trans (step_movesTable hstep)

end ServerSystem

theorem TableRun.exists_run {s : TableRun} {t : ConnectionTable} {es : List TableEvent}
    (hrun : Run ConnectionTable.step s.table es t) :
    ∃ s', Run TableRun.step s es s' ∧ s'.table = t := by
  induction es generalizing s with
  | nil => exact ⟨s, Run.refl _, hrun.eq_of_nil⟩
  | cons e es ih =>
    obtain ⟨u, hu, hrest⟩ := hrun.uncons
    obtain ⟨v, hv, hvtable⟩ : ∃ v, s.step e = some v ∧ v.table = u := by
      rw [step, hu]
      cases e <;> exact ⟨_, rfl, rfl⟩
    obtain ⟨s', hs', htable⟩ := ih (hvtable ▸ hrest)
    exact ⟨s', Run.cons hv hs', htable⟩

/-- The table of a server is at every moment the end of a run of accepts and removals. -/
theorem server_table_run {s : ServerSystem} {loop : Nat} {name ipPort : String}
    {writeComplete : Bool} {numThreads : Int} {es : List ServerEvent}
    (hrun : Run ServerSystem.step
      (ServerSystem.start loop name ipPort writeComplete numThreads) es s) :
    ∃ tes r, Run TableRun.step (TableRun.start name ipPort) tes r ∧ r.table = s.table := by
  obtain ⟨tes, htes⟩ := ServerSystem.run_movesTable hrun
  obtain ⟨r, hr, htable⟩ := TableRun.exists_run (s := TableRun.start name ipPort) htes
  exact ⟨tes, r, hr, htable⟩

end Muduo
