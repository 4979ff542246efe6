import Mathlib.Logic.Function.Basic
import Muduo.TcpConnection
import Muduo.Transitions

/-!
# What `send` hands to the loop

`send(const std::string &)` on another thread binds `buf.c_str()` and `buf.size()` into
the functor, so `sendInLoop` reads the caller's storage when the functor runs.
`send(Buffer *)` binds the string that `retrieveAllAsString()` returns, and a send on the
loop's own thread reads at once.

The caller's side is a memory of allocated blocks with one `std::string` in it.  Between
the call and the functor the caller does what it likes with the string and with every
block that is not the string's.  The other modules pass a message by value; this one says
when that is what happens.
-/

namespace Muduo

open Transitions

/-! ### The caller's memory -/

/-- A `std::string`: the address of its storage, and `size()`. -/
structure StringCell where
  data : Nat
  size : Nat
deriving DecidableEq, Repr

/-- The allocated blocks by address, and the caller's string until it is destroyed.  Its
    storage has room for `size()` bytes and the NUL behind them. -/
structure CallerMemory where
  blocks : Nat → Option (List UInt8)
  str : Option StringCell
  stored : ∀ cell, str = some cell → ∃ block, blocks cell.data = some block ∧
    cell.size < block.length

inductive StringAction where
  /-- A change within the string's storage: `operator[]`, `resize`, `clear`, `assign`. -/
  | overwrite (content : List UInt8)
  /-- The string moves to a new block, which has `rest` behind the NUL.  The old block is
      from then on a block like any other. -/
  | reallocate (data : Nat) (content rest : List UInt8)
  | destroy
  /-- A block that is not the string's is allocated, changed or freed. -/
  | other (addr : Nat) (block : Option (List UInt8))
deriving DecidableEq

namespace CallerMemory

/-- The memory whose string has `content` at `data`. -/
def hold (blocks : Nat → Option (List UInt8)) (data : Nat) (content rest : List UInt8) :
    CallerMemory where
  blocks := Function.update blocks data (some (content ++ 0 :: rest))
  str := some ⟨data, content.length⟩
  stored := by
    rintro cell ⟨⟩
    exact ⟨_, Function.update_self .., by simp⟩

/-- Set a block that is not the string's. -/
def setBlock (m : CallerMemory) (addr : Nat) (block : Option (List UInt8))
    (h : m.str.map StringCell.data ≠ some addr) : CallerMemory where
  blocks := Function.update m.blocks addr block
  str := m.str
  stored := by
    intro cell hcell
    have hne : cell.data ≠ addr := by
      rintro rfl
      exact h (by rw [hcell]; rfl)
    rw [Function.update_of_ne hne]
    exact m.stored cell hcell

def step (m : CallerMemory) : StringAction → Option CallerMemory
  | .overwrite content => do
    let cell ← m.str
    let block ← m.blocks cell.data
    if content.length < block.length then
      some (hold m.blocks cell.data content (block.drop (content.length + 1)))
    else
      none
  | .reallocate data content rest =>
    if m.str ≠ none ∧ m.blocks data = none then some (hold m.blocks data content rest) else none
  | .destroy => do
    let cell ← m.str
    some ⟨Function.update m.blocks cell.data none, none, by simp⟩
  | .other addr block =>
    if h : m.str.map StringCell.data ≠ some addr then some (m.setBlock addr block h) else none

/-- Read `len` bytes from an address.  Reading no byte is no access. -/
def read (m : CallerMemory) (addr len : Nat) : Except Fault (List UInt8) :=
  match m.blocks addr with
  | none => if len = 0 then .ok [] else .error .dangling
  | some block => if len ≤ block.length then .ok (block.take len) else .error .outOfBounds

/-- What the string holds. -/
def content (m : CallerMemory) (cell : StringCell) : List UInt8 :=
  ((m.blocks cell.data).getD []).take cell.size

def byte (m : CallerMemory) (addr i : Nat) : Option UInt8 := (m.blocks addr).bind (·[i]?)

end CallerMemory

/-! ### The two `send`s -/

/-- The functors that `send` binds. -/
inductive SendFunctor where
  | pointer (message len : Nat)     -- `sendInLoop(const void *, size_t)`
  | string (message : List UInt8)   -- `sendInLoop(const std::string &)`
deriving DecidableEq

namespace SendFunctor

/-- The bytes that `sendInLoop` gets when the functor runs. -/
def message (m : CallerMemory) : SendFunctor → Except Fault (List UInt8)
  | .pointer message len => m.read message len
  | .string message => .ok message

def run (f : SendFunctor) (m : CallerMemory) (c : ConnCtx) (w : WriteResult) :
    Except Fault ConnCtx := do
  let message ← f.message m
  c.sendInLoop message w

end SendFunctor

namespace ConnCtx

/-- `send(const std::string &buf)`: the connection, and what it queues for the loop. -/
def send (c : ConnCtx) (m : CallerMemory) (buf : StringCell) (inLoopThread : Bool)
    (w : WriteResult) : Except Fault (ConnCtx × List SendFunctor) :=
  if c.conn.state_ == .kConnected then
    if inLoopThread then do
      let c ← (SendFunctor.pointer buf.data buf.size).run m c w
      .ok (c, [])
    else
      .ok (c, [.pointer buf.data buf.size])
  else
    .ok (c, [])

/-- `send(Buffer *buf)`: the connection, the buffer, and what it queues for the loop. -/
def sendBuffer (c : ConnCtx) (buf : Buffer) (inLoopThread : Bool) (w : WriteResult) :
    Except Fault (ConnCtx × Buffer × List SendFunctor) :=
  if c.conn.state_ == .kConnected then
    if inLoopThread then do
      let c ← c.sendInLoop buf.readable w
      .ok (c, buf.retrieveAll, [])
    else do
      let (message, buf) ← buf.retrieveAllAsString
      .ok (c, buf, [.string message])
  else
    .ok (c, buf, [])

end ConnCtx

/-! ### Reading the storage -/

namespace CallerMemory

theorem read_eq_ok {m : CallerMemory} {addr len : Nat} {l : List UInt8} :
    m.read addr len = .ok l ↔ l.length = len ∧ ∀ i < len, m.byte addr i = l[i]? := by
  rcases hblock : m.blocks addr with _ | block
  · by_cases hlen : len = 0
    · simp [read, hblock, hlen, eq_comm]
    · simp only [read, hblock, hlen, if_false, byte, Option.bind_none, reduceCtorEq, false_iff]
      rintro ⟨rfl, hbytes⟩
      have hfirst := hbytes 0 (Nat.pos_of_ne_zero hlen)
      rw [List.getElem?_eq_getElem (Nat.pos_of_ne_zero hlen)] at hfirst
      simp at hfirst
  · simp only [read, hblock, byte, Option.bind_some]
    constructor
    · intro hread
      split at hread
      · next hlen =>
        cases hread
        refine ⟨List.length_take_of_le hlen, ?_⟩
        intro i hi
        rw [List.getElem?_take_of_lt hi]
      · simp at hread
    · rintro ⟨rfl, hbytes⟩
      have hlen : l.length ≤ block.length := by
        by_contra hlong
        have hout := hbytes block.length (by omega)
        rw [List.getElem?_eq_none (Nat.le_refl _), List.getElem?_eq_getElem (by omega)] at hout
        simp at hout
      rw [if_pos hlen, Except.ok.injEq]
      apply List.ext_getElem?
      intro i
      by_cases hi : i < l.length
      · rw [List.getElem?_take_of_lt hi, hbytes i hi]
      · rw [List.getElem?_eq_none (by simp; omega), List.getElem?_eq_none (by omega)]

theorem read_content {m : CallerMemory} {cell : StringCell} (h : m.str = some cell) :
    m.read cell.data cell.size = .ok (m.content cell) := by
  obtain ⟨block, hblock, hsize⟩ := m.stored cell h
  simp [read, content, hblock, Nat.le_of_lt hsize]

theorem length_content {m : CallerMemory} {cell : StringCell} (h : m.str = some cell) :
    (m.content cell).length = cell.size :=
  (read_eq_ok.mp (read_content h)).1

/-- The first `size()` bytes at the string's address are those they were in `m`. -/
def StorageKept (m : CallerMemory) (cell : StringCell) (m' : CallerMemory) : Prop :=
  ∀ i < cell.size, m'.byte cell.data i = m.byte cell.data i

/-- A later read through `c_str()` and `size()` finds the content of the string exactly
    when its bytes are still in place. -/
theorem read_content_iff {m m' : CallerMemory} {cell : StringCell} (h : m.str = some cell) :
    m'.read cell.data cell.size = .ok (m.content cell) ↔ m.StorageKept cell m' := by
  have hnow := (read_eq_ok.mp (read_content h)).2
  rw [read_eq_ok]
  constructor
  · rintro ⟨_, hlater⟩ i hi
    rw [hlater i hi, hnow i hi]
  · intro hkept
    refine ⟨length_content h, ?_⟩
    intro i hi
    rw [hkept i hi, hnow i hi]

/-! ### The caller's actions -/

/-- The actions leave the bytes of the string's storage as they were. -/
def KeepsStorage (m : CallerMemory) (cell : StringCell) (actions : List StringAction) : Prop :=
  ∀ m', Run step m actions m' → m.StorageKept cell m'

/-- The action does not touch the block at the address. -/
def Spares (addr : Nat) (m : CallerMemory) (a : StringAction) : Prop :=
  ∀ m', m.step a = some m' → m'.blocks addr = m.blocks addr

theorem keepsStorage_of_spares {m : CallerMemory} {cell : StringCell}
    {actions : List StringAction} (h : Along step (Spares cell.data) m actions) :
    m.KeepsStorage cell actions := by
  have hblocks : Always step (fun m' => m'.blocks cell.data = m.blocks cell.data) m actions := by
    refine always_of_along (I := fun m' => m'.blocks cell.data = m.blocks cell.data) ?_ rfl h
    intro m₁ a m₂ hm₁ hspares hstep
    exact (hspares m₂ hstep).trans hm₁
  intro m' hrun i _
  rw [byte, byte, hblocks actions [] m' (by simp) hrun]

theorem keepsStorage_singleton {m m' : CallerMemory} {cell : StringCell} {a : StringAction}
    (hstep : m.step a = some m') : m.KeepsStorage cell [a] ↔ m.StorageKept cell m' := by
  constructor
  · intro h
    exact h m' (Run.one hstep)
  · intro h m'' hrun
    cases hstep.symm.trans (hrun.step_of_one)
    exact h

/-- Destroying the string right after the call is harmless when it is empty. -/
theorem destroy_keepsStorage_iff {m : CallerMemory} {cell : StringCell}
    (h : m.str = some cell) : m.KeepsStorage cell [.destroy] ↔ cell.size = 0 := by
  obtain ⟨block, hblock, hsize⟩ := m.stored cell h
  have hstep : m.step .destroy = some ⟨Function.update m.blocks cell.data none, none, by simp⟩ := by
    simp [step, h]
  rw [keepsStorage_singleton hstep]
  constructor
  · intro hkept
    by_contra hpos
    have hfirst := hkept 0 (Nat.pos_of_ne_zero hpos)
    have hinside : 0 < block.length := by omega
    simp [byte, hblock, List.getElem?_eq_getElem hinside] at hfirst
  · intro hzero i hi
    omega

/-- Shrinking it is harmless when the NUL that this writes was there already. -/
theorem shrink_keepsStorage_iff {m : CallerMemory} {cell : StringCell} {n : Nat}
    (h : m.str = some cell) (hn : n < cell.size) :
    m.KeepsStorage cell [.overwrite ((m.content cell).take n)] ↔ m.byte cell.data n = some 0 := by
  obtain ⟨block, hblock, hsize⟩ := m.stored cell h
  have htake : (m.content cell).take n = block.take n := by
    simp [content, hblock, List.take_take, Nat.min_eq_left (Nat.le_of_lt hn)]
  have hlen : (block.take n).length = n := List.length_take_of_le (by omega)
  have hstep : m.step (.overwrite (block.take n)) =
      some (hold m.blocks cell.data (block.take n) (block.drop (n + 1))) := by
    simp only [step, h, hblock, hlen, Option.bind_eq_bind, Option.bind_some]
    exact if_pos (by omega)
  rw [htake, keepsStorage_singleton hstep]
  have hbyte : ∀ i, (hold m.blocks cell.data (block.take n) (block.drop (n + 1))).byte cell.data i =
      if i = n then some 0 else m.byte cell.data i := by
    intro i
    simp only [byte, hold, Function.update_self, Option.bind_some, hblock]
    rcases Nat.lt_trichotomy i n with hlt | rfl | hgt
    · rw [if_neg (by omega), List.getElem?_append_left (by omega), List.getElem?_take_of_lt hlt]
    · rw [if_pos rfl, List.getElem?_append_right (by omega), hlen, Nat.sub_self]
      rfl
    · rw [if_neg (by omega), List.getElem?_append_right (by omega), hlen,
        List.getElem?_cons, if_neg (by omega), List.getElem?_drop]
      congr 1
      omega
  constructor
  · intro hkept
    rw [← hkept n hn, hbyte, if_pos rfl]
  · intro hnul i _
    rw [hbyte]
    split
    · next hi => rw [hi, hnul]
    · rfl

end CallerMemory

/-! ### The three paths -/

namespace ConnCtx

/-- Every functor that `send(buf)` queued on another thread hands over what the string held
    at the call, and ends as the same send on the loop's thread and as `send(Buffer *)` of
    the same bytes, whatever the caller's actions before it runs. -/
def TransmitsAsCalled (c : ConnCtx) (m : CallerMemory) (buf : StringCell)
    (actions : List StringAction) : Prop :=
  ∀ m' c₁ fs f w, Run CallerMemory.step m actions m' → c.send m buf false w = .ok (c₁, fs) →
    f ∈ fs →
    f.message m' = .ok (m.content buf) ∧
    (∀ c', c'.conn.state_ = .kConnected →
      c'.send m buf true w = (f.run m' c' w).map fun c => (c, [])) ∧
    ∀ b c₂ b' gs g, b.WF → b.readable = m.content buf →
      c.sendBuffer b false w = .ok (c₂, b', gs) → g ∈ gs →
      ∀ c', g.run m' c' w = f.run m' c' w

/-- `send(Buffer *)` binds the readable bytes. -/
theorem sendBuffer_queues {c c₂ : ConnCtx} {b b' : Buffer} {w : WriteResult}
    {gs : List SendFunctor} {g : SendFunctor} (hwf : b.WF)
    (hsend : c.sendBuffer b false w = .ok (c₂, b', gs)) (hg : g ∈ gs) :
    g = .string b.readable := by
  have hall : b.retrieveAllAsString = .ok (b.readable, b.retrieve b.readableBytes) := by
    rw [Buffer.retrieveAllAsString, Buffer.retrieveAsString_eq hwf (Nat.le_refl _),
      ← hwf.length_readable, List.take_length]
  simp only [sendBuffer, hall, Bool.false_eq_true, if_false] at hsend
  split at hsend
  · cases hsend
    exact List.mem_singleton.mp hg
  · cases hsend
    simp at hg

theorem send_queues {c c₁ : ConnCtx} {m : CallerMemory} {buf : StringCell} {w : WriteResult}
    {fs : List SendFunctor} {f : SendFunctor} (hsend : c.send m buf false w = .ok (c₁, fs))
    (hf : f ∈ fs) : c.conn.state_ = .kConnected ∧ f = .pointer buf.data buf.size := by
  simp only [send, Bool.false_eq_true, if_false] at hsend
  split at hsend
  · next hconn =>
    cases hsend
    exact ⟨eq_of_beq hconn, List.mem_singleton.mp hf⟩
  · cases hsend
    simp at hf

end ConnCtx

/-- **When a cross-thread `send` transmits the message as it was.**  For every connection,
    every string in the caller's memory and all the caller's actions between the call and
    the functor, `send(const std::string &)` transmits what the string held at the call
    exactly when it sends nothing or the actions leave the string's bytes in place. -/
theorem send_transmits_as_called_iff (c : ConnCtx) (m : CallerMemory) (buf : StringCell)
    (actions : List StringAction) (hstr : m.str = some buf) :
    c.TransmitsAsCalled m buf actions ↔
      (c.conn.state_ = .kConnected → m.KeepsStorage buf actions) := by
  constructor
  · intro htransmits hconn m' hrun'
    have hsend : c.send m buf false (.wrote 0) = .ok (c, [.pointer buf.data buf.size]) := by
      simp [ConnCtx.send, hconn]
    have hmessage := (htransmits m' _ _ _ _ hrun' hsend (List.mem_singleton_self _)).1
    exact (CallerMemory.read_content_iff hstr).mp hmessage
  · intro hkeeps m' c₁ fs f w hrun' hsend hf
    obtain ⟨hconn, rfl⟩ := ConnCtx.send_queues hsend hf
    have hmessage := (CallerMemory.read_content_iff hstr).mpr (hkeeps hconn m' hrun')
    have hcall := CallerMemory.read_content hstr
    refine ⟨hmessage, ?_, ?_⟩
    · intro c' hconn'
      simp only [ConnCtx.send, hconn', SendFunctor.run, SendFunctor.message, hmessage, hcall]
      rfl
    · intro b c₂ b' gs g hwf hreadable hbuffer hg c'
      rw [ConnCtx.sendBuffer_queues hwf hbuffer hg, hreadable]
      simp only [SendFunctor.run, SendFunctor.message, hmessage]

/-- A caller that holds the string `"A"` and nothing else. -/
def CallerMemory.single : CallerMemory := .hold (fun _ => none) 0 [65] []

theorem send_transmits_as_called_iff_other_block :
    ConnConfig.sameLoop.established.TransmitsAsCalled CallerMemory.single ⟨0, 1⟩
        [.other 1 (some [7])] ↔
      (ConnConfig.sameLoop.established.conn.state_ = .kConnected →
        CallerMemory.single.KeepsStorage ⟨0, 1⟩ [.other 1 (some [7])]) :=
  send_transmits_as_called_iff _ CallerMemory.single ⟨0, 1⟩ _ rfl

/-- After `send("A")` on another thread the caller clears or destroys the string: the
    functor sends a NUL, or reads freed storage. -/
theorem send_reads_changed_string :
    (∃ m, CallerMemory.single.step (.overwrite []) = some m ∧
      (SendFunctor.pointer 0 1).message m = .ok [0] ∧
      ¬ ConnConfig.sameLoop.established.TransmitsAsCalled CallerMemory.single ⟨0, 1⟩
        [.overwrite []]) ∧
    ∃ m, CallerMemory.single.step .destroy = some m ∧
      (SendFunctor.pointer 0 1).message m = .error .dangling ∧
      ¬ ConnConfig.sameLoop.established.TransmitsAsCalled CallerMemory.single ⟨0, 1⟩
        [.destroy] := by
  have hsend : ConnConfig.sameLoop.established.send CallerMemory.single ⟨0, 1⟩ false (.wrote 0) =
      .ok (ConnConfig.sameLoop.established, [.pointer 0 1]) := by
    rw [ConnCtx.send, show ConnConfig.sameLoop.established.conn.state_ = .kConnected from rfl]
    rfl
  have hfails : ∀ a m, CallerMemory.single.step a = some m →
      (SendFunctor.pointer 0 1).message m ≠ .ok [65] →
      ¬ ConnConfig.sameLoop.established.TransmitsAsCalled CallerMemory.single ⟨0, 1⟩ [a] := by
    intro a m hstep hmessage htransmits
    have hsent := htransmits m _ _ _ _ (Run.one hstep) hsend (List.mem_singleton_self _)
    exact hmessage hsent.1
  constructor
  · refine ⟨.hold _ 0 [] [0], rfl, rfl, hfails _ _ rfl ?_⟩
    simp [SendFunctor.message, CallerMemory.read, CallerMemory.hold]
  · refine ⟨_, rfl, rfl, hfails _ _ rfl ?_⟩
    simp [SendFunctor.message, CallerMemory.read]

end Muduo
