import Muduo.Buffer
import Muduo.Transitions

/-!
# `Buffer` against a byte queue

The purpose of the class is a first-in first-out queue of bytes: `append` and
`readFd` put bytes at the back, the `retrieve` family takes them from the front.
`QueueCall.spec` is that queue, on lists.  The first half runs the calls of the class
on a default-constructed `Buffer` and on the queue side by side; the second half
follows the bytes the kernel delivers through `readFd` to the bytes a user retrieves.

Since `append` does not move the writer index, a byte that goes through it never
becomes readable.  The queue is refined by exactly the call sequences that append
nothing, and the input stream is intact along exactly the runs in which every
`readv` stays inside the vector's tail.
-/

namespace Muduo

open Transitions

/-! ### The calls of the class and the queue they stand for -/

inductive QueueCall where
  | append (data : List UInt8)
  | appendString (str : List UInt8)
  | retrieve (len : Nat)
  | retrieveAll
  | retrieveAsString (len : Nat)
  | retrieveAllAsString
  | ensureWritableBytes (len : Nat)
deriving DecidableEq

namespace QueueCall

/-- The call on the class: the string it returns, if any, and the buffer. -/
def run (b : Buffer) : QueueCall → Except Fault (List UInt8 × Buffer)
  | append data => (b.append data).map fun b => ([], b)
  | appendString str => (b.appendString str).map fun b => ([], b)
  | retrieve len => .ok ([], b.retrieve len)
  | retrieveAll => .ok ([], b.retrieveAll)
  | retrieveAsString len => b.retrieveAsString len
  | retrieveAllAsString => b.retrieveAllAsString
  | ensureWritableBytes len => (b.ensureWritableBytes len).map fun b => ([], b)

/-- The call on the queue. -/
def spec (q : List UInt8) : QueueCall → List UInt8 × List UInt8
  | append data => ([], q ++ data)
  | appendString str => ([], q ++ str)
  | retrieve len => ([], q.drop len)
  | retrieveAll => ([], [])
  | retrieveAsString len => (q.take len, q.drop len)
  | retrieveAllAsString => (q, [])
  | ensureWritableBytes _ => ([], q)

/-- The arguments a caller may pass: `len` is a `size_t`, and a string is taken from
    inside the readable bytes. -/
def legal (b : Buffer) : QueueCall → Bool
  | retrieve len => decide (len < sizeModulus)
  | retrieveAsString len => decide (len ≤ b.readableBytes)
  | ensureWritableBytes len => decide (len < sizeModulus)
  | _ => true

/-- The bytes a call appends. -/
def appended : QueueCall → List UInt8
  | append data => data
  | appendString str => str
  | _ => []

/-- A drained buffer takes the call, and asks no vector for more than it can hold. -/
def fits : QueueCall → Bool
  | append data | appendString data =>
    decide (Buffer.kCheapPrepend + data.length ≤ vectorMaxSize)
  | ensureWritableBytes len => decide (Buffer.kCheapPrepend + len ≤ vectorMaxSize)
  | retrieve len => decide (len < sizeModulus)
  | retrieveAsString len => decide (len = 0)
  | retrieveAll | retrieveAllAsString => true

end QueueCall

/-- A `Buffer` and a queue that take the same calls, with what each has returned. -/
structure QueuePair where
  impl : Buffer
  queue : List UInt8
  returned : List (List UInt8)
  expected : List (List UInt8)
deriving DecidableEq

namespace QueuePair

def start : QueuePair := ⟨Buffer.new, [], [], []⟩

def step (s : QueuePair) (call : QueueCall) : Option QueuePair :=
  if call.legal s.impl then
    (Muduo.returned (call.run s.impl)).map fun (str, b) =>
      ⟨b, (call.spec s.queue).2, s.returned ++ [str], s.expected ++ [(call.spec s.queue).1]⟩
  else
    none

/-- The readable region is the queue, and every string returned is the queue's. -/
def Agrees (s : QueuePair) : Prop := s.impl.readable = s.queue ∧ s.returned = s.expected

end QueuePair

/-! ### Buffers that only `append` has touched -/

/-- Both indices at the prepend mark: where `append` leaves a new buffer. -/
structure Buffer.Drained (b : Buffer) : Prop where
  wf : b.WF
  reader_eq : b.readerIndex_ = kCheapPrepend
  writer_eq : b.writerIndex_ = kCheapPrepend

namespace Buffer

theorem Drained.readable_eq {b : Buffer} (h : b.Drained) : b.readable = [] := by
  rw [readable, h.reader_eq, h.writer_eq, Windows.window_self]

theorem Drained.readableBytes_eq {b : Buffer} (h : b.Drained) : b.readableBytes = 0 :=
  (readable_eq_nil h.wf).mp h.readable_eq

theorem new_drained : new.Drained := ⟨new_wf, rfl, rfl⟩

theorem Drained.retrieveAll {b : Buffer} (h : b.Drained) : b.retrieveAll.Drained :=
  ⟨retrieveAll_wf h.wf, rfl, rfl⟩

theorem Drained.retrieve {b : Buffer} (h : b.Drained) (len : Nat) : (b.retrieve len).Drained := by
  have hnone : ¬ len < b.readableBytes := by
    rw [h.readableBytes_eq]
    exact Nat.not_lt_zero len
  rw [Buffer.retrieve, if_neg hnone]
  exact h.retrieveAll

/-- The wrapped sums of `makeSpace` are equal here, because both indices are at the
    prepend mark: a sum that wraps takes the compaction branch, which moves nothing. -/
theorem Drained.makeSpace {b b' : Buffer} {len : Nat} (h : b.Drained)
    (hspace : b.makeSpace len = .ok b') : b'.Drained := by
  have hwriter := h.wf.writer_le
  have hsize := h.wf.size_le
  rw [makeSpace_eq_ok, h.readableBytes_eq] at hspace
  split at hspace
  · rename_i hroom
    obtain ⟨hmax, rfl⟩ := hspace
    refine ⟨⟨h.wf.prepend_le, h.wf.reader_le, ?_, ?_⟩, h.reader_eq, h.writer_eq⟩
    · have hreader := h.reader_eq
      have hwrite := h.writer_eq
      unfold writableBytes prependableBytes vectorMaxSize sizeModulus kCheapPrepend at *
      simp only [Windows.length_resized]
      omega
    · simpa only [Windows.length_resized] using hmax
  · obtain ⟨hfits, rfl⟩ := hspace
    have hvlen := Windows.length_splice hfits
    refine ⟨⟨Nat.le_refl _, Nat.le_refl _, ?_, ?_⟩, rfl, rfl⟩
    · simp only [hvlen, Nat.add_zero]
      exact h.writer_eq ▸ hwriter
    · simpa only [hvlen] using hsize

theorem Drained.ensureWritableBytes {b b' : Buffer} {len : Nat} (h : b.Drained)
    (hensure : b.ensureWritableBytes len = .ok b') : b'.Drained := by
  rw [ensureWritableBytes_eq] at hensure
  split at hensure
  · exact h.makeSpace hensure
  · cases hensure
    exact h

theorem Drained.append {b b' : Buffer} {data : List UInt8} (h : b.Drained)
    (happend : b.append data = .ok b') : b'.Drained := by
  have hwf := (append_spec h.wf happend).1
  obtain ⟨c, hc, _, rfl⟩ := append_eq_ok.mp happend
  have hdrained := h.ensureWritableBytes hc
  exact ⟨hwf, hdrained.reader_eq, hdrained.writer_eq⟩

end Buffer

/-! ### The queue is refined by the call sequences that append nothing -/

namespace QueuePair

/-- What `append` leaves invariant: nothing is readable, and nothing was returned but
    empty strings, which is what the empty queue returns. -/
def Idle (s : QueuePair) : Prop :=
  s.impl.Drained ∧ s.queue = [] ∧ s.returned = s.expected

theorem start_idle : start.Idle := ⟨Buffer.new_drained, rfl, rfl⟩

theorem Idle.agrees {s : QueuePair} (h : s.Idle) : s.Agrees :=
  ⟨h.1.readable_eq.trans h.2.1.symm, h.2.2⟩

theorem step_eq_some {s t : QueuePair} {call : QueueCall} (h : s.step call = some t) :
    call.legal s.impl = true ∧ ∃ str b, call.run s.impl = .ok (str, b) ∧
      t = ⟨b, (call.spec s.queue).2, s.returned ++ [str],
        s.expected ++ [(call.spec s.queue).1]⟩ := by
  simp only [step] at h
  split at h
  · rename_i hlegal
    obtain ⟨⟨str, b⟩, hrun, rfl⟩ := Option.map_eq_some_iff.mp h
    exact ⟨hlegal, str, b, returned_eq_some.mp hrun, rfl⟩
  · cases h

theorem map_eq_ok {x : Except Fault Buffer} {r : List UInt8 × Buffer}
    (h : (x.map fun b => (([] : List UInt8), b)) = .ok r) : r.1 = [] ∧ x = .ok r.2 := by
  cases x with
  | error e => cases h
  | ok b =>
    cases h
    exact ⟨rfl, rfl⟩

/-- On a drained buffer every call returns the empty string and leaves it drained. -/
theorem run_drained {b b' : Buffer} {call : QueueCall} {str : List UInt8} (h : b.Drained)
    (hlegal : call.legal b = true) (hrun : call.run b = .ok (str, b')) :
    str = [] ∧ b'.Drained := by
  cases call with
  | append data =>
    obtain ⟨hstr, hok⟩ := map_eq_ok hrun
    exact ⟨hstr, h.append hok⟩
  | appendString data =>
    obtain ⟨hstr, hok⟩ := map_eq_ok hrun
    exact ⟨hstr, h.append hok⟩
  | retrieve len =>
    cases hrun
    exact ⟨rfl, h.retrieve len⟩
  | retrieveAll =>
    cases hrun
    exact ⟨rfl, h.retrieveAll⟩
  | retrieveAsString len =>
    have hlen : len ≤ b.readableBytes := of_decide_eq_true hlegal
    simp only [QueueCall.run, Buffer.retrieveAsString_eq h.wf hlen, h.readable_eq] at hrun
    cases hrun
    exact ⟨List.take_nil, h.retrieve len⟩
  | retrieveAllAsString =>
    simp only [QueueCall.run, Buffer.retrieveAllAsString,
      Buffer.retrieveAsString_eq h.wf (Nat.le_refl _), h.readable_eq] at hrun
    cases hrun
    exact ⟨List.take_nil, h.retrieve _⟩
  | ensureWritableBytes len =>
    obtain ⟨hstr, hok⟩ := map_eq_ok hrun
    exact ⟨hstr, h.ensureWritableBytes hok⟩

theorem spec_nil (call : QueueCall) : call.spec [] = ([], call.appended) := by
  cases call <;> simp [QueueCall.spec, QueueCall.appended]

theorem Idle.step {s t : QueuePair} {call : QueueCall} (h : s.Idle)
    (hempty : call.appended = []) (hstep : s.step call = some t) : t.Idle := by
  rcases h with ⟨hdrained, hqueue, hstrings⟩
  obtain ⟨hlegal, str, b, hrun, rfl⟩ := step_eq_some hstep
  obtain ⟨hstr, hdrained'⟩ := run_drained hdrained hlegal hrun
  refine ⟨hdrained', ?_, ?_⟩
  · rw [hqueue, spec_nil, hempty]
  · rw [hqueue, spec_nil, hstr, hstrings]

theorem Idle.append_breaks {s t : QueuePair} {call : QueueCall} (h : s.Idle)
    (hbytes : call.appended ≠ []) (hstep : s.step call = some t) : ¬ t.Agrees := by
  rcases h with ⟨hdrained, hqueue, _⟩
  obtain ⟨hlegal, str, b, hrun, rfl⟩ := step_eq_some hstep
  rintro ⟨hread, _⟩
  rw [(run_drained hdrained hlegal hrun).2.readable_eq, hqueue, spec_nil] at hread
  exact hbytes hread.symm

theorem step_of_fits {s : QueuePair} {call : QueueCall} (h : s.impl.Drained)
    (hfits : call.fits = true) : ∃ t, s.step call = some t ∧ t.impl.Drained := by
  have hwriter := h.writer_eq
  have hreturns : call.legal s.impl = true ∧ ∃ r, call.run s.impl = .ok r := by
    cases call with
    | append data | appendString data =>
      have hsize : s.impl.writerIndex_ + data.length ≤ vectorMaxSize :=
        hwriter ▸ of_decide_eq_true hfits
      obtain ⟨b, hb⟩ := Buffer.append_returns data h.wf hsize
      exact ⟨rfl, ([], b), congrArg (Except.map _) hb⟩
    | ensureWritableBytes len =>
      have hsize : s.impl.writerIndex_ + len ≤ vectorMaxSize :=
        hwriter ▸ of_decide_eq_true hfits
      obtain ⟨b, hb⟩ := Buffer.ensureWritableBytes_returns h.wf hsize
      refine ⟨decide_eq_true ?_, ([], b), congrArg (Except.map _) hb⟩
      unfold vectorMaxSize at hsize
      unfold sizeModulus
      omega
    | retrieve len => exact ⟨hfits, _, rfl⟩
    | retrieveAll => exact ⟨rfl, _, rfl⟩
    | retrieveAsString len =>
      have hlen : len ≤ s.impl.readableBytes := by
        rw [of_decide_eq_true hfits]
        exact Nat.zero_le _
      exact ⟨decide_eq_true hlen, _, Buffer.retrieveAsString_eq h.wf hlen⟩
    | retrieveAllAsString => exact ⟨rfl, _, Buffer.retrieveAsString_eq h.wf (Nat.le_refl _)⟩
  obtain ⟨hlegal, ⟨str, b⟩, hrun⟩ := hreturns
  have hdrained : b.Drained := (run_drained h hlegal hrun).2
  refine ⟨⟨b, (call.spec s.queue).2, s.returned ++ [str],
    s.expected ++ [(call.spec s.queue).1]⟩, ?_, hdrained⟩
  rw [QueuePair.step, if_pos hlegal, hrun]
  rfl

/-- Every sequence of calls that fit is a run. -/
theorem exists_run_of_fits (calls : List QueueCall) (hfits : ∀ call ∈ calls, call.fits = true) :
    ∃ t, Run QueuePair.step start calls t := by
  suffices h : ∀ s : QueuePair, s.impl.Drained → ∃ t, Run QueuePair.step s calls t from
    h start Buffer.new_drained
  induction calls with
  | nil => exact fun s _ => ⟨s, Run.refl s⟩
  | cons call calls ih =>
    intro s hs
    rw [List.forall_mem_cons] at hfits
    obtain ⟨t, hstep, ht⟩ := step_of_fits hs hfits.1
    obtain ⟨u, hrun⟩ := ih hfits.2 t ht
    exact ⟨u, Run.cons hstep hrun⟩

end QueuePair

/-- **When `Buffer` is the queue.**  A default-constructed `Buffer` agrees with the
    queue after every call of a sequence exactly when no call appends a byte. -/
theorem buffer_refines_queue_iff (calls : List QueueCall) (t : QueuePair)
    (hrun : Run QueuePair.step QueuePair.start calls t) :
    Always QueuePair.step QueuePair.Agrees QueuePair.start calls ↔
      ∀ call ∈ calls, call.appended = [] := by
  rw [← along_event hrun]
  exact always_iff_along (fun _ => QueuePair.Idle.agrees)
    (fun _ _ _ h hempty hstep => h.step hempty hstep)
    (fun _ _ _ h hbytes hstep => h.append_breaks hbytes hstep)
    QueuePair.start_idle hrun

/-- Room for 2000 bytes is made and nothing is appended; or two bytes are appended, and the
    queue returns one that the buffer has not. -/
theorem buffer_refines_queue_iff_two_runs :
    Always QueuePair.step QueuePair.Agrees QueuePair.start
        [.ensureWritableBytes 2000, .appendString [], .retrieve 3, .retrieveAsString 0] ∧
      ¬ Always QueuePair.step QueuePair.Agrees QueuePair.start
        [.ensureWritableBytes 2000, .append [97, 98], .retrieve 1, .retrieveAllAsString] := by
  constructor
  · obtain ⟨t, hrun⟩ := QueuePair.exists_run_of_fits
      [.ensureWritableBytes 2000, .appendString [], .retrieve 3, .retrieveAsString 0] (by decide)
    exact (buffer_refines_queue_iff _ t hrun).mpr (by decide)
  · obtain ⟨t, hrun⟩ := QueuePair.exists_run_of_fits
      [.ensureWritableBytes 2000, .append [97, 98], .retrieve 1, .retrieveAllAsString] (by decide)
    exact mt (buffer_refines_queue_iff _ t hrun).mp (by decide)

/-- One appended byte, and the readable region stays empty. -/
theorem buffer_loses_appended_byte :
    (∃ t, Run QueuePair.step QueuePair.start [.append [97]] t) ∧
      ¬ Always QueuePair.step QueuePair.Agrees QueuePair.start [.append [97]] := by
  obtain ⟨t, hrun⟩ := QueuePair.exists_run_of_fits [.append [97]] (by decide)
  refine ⟨⟨t, hrun⟩, ?_⟩
  intro halways
  have hagrees := halways [.append [97]] [] t rfl hrun
  exact QueuePair.start_idle.append_breaks (by decide) hrun.step_of_one hagrees

/-! ### The input stream -/

inductive InputEvent where
  | readFd (data : List UInt8)
  | retrieve (len : Nat)
  | retrieveAll
deriving DecidableEq

/-- The input buffer of a connection, with the bytes the kernel has delivered and the
    bytes that were retrieved, both from the start. -/
structure InputStream where
  inputBuffer_ : Buffer
  delivered : List UInt8
  retrieved : List UInt8
deriving DecidableEq

namespace InputStream

def start : InputStream := ⟨Buffer.new, [], []⟩

def step (s : InputStream) : InputEvent → Option InputStream
  | .readFd data =>
    if data.length ≤ s.inputBuffer_.offered then
      (returned (s.inputBuffer_.readFd (.received data))).map fun (_, b) =>
        ⟨b, s.delivered ++ data, s.retrieved⟩
    else
      none
  | .retrieve len =>
    some ⟨s.inputBuffer_.retrieve len, s.delivered,
      s.retrieved ++ s.inputBuffer_.readable.take len⟩
  | .retrieveAll =>
    some ⟨s.inputBuffer_.retrieveAll, s.delivered, s.retrieved ++ s.inputBuffer_.readable⟩

/-- The bytes retrieved, then the readable ones, are the bytes delivered. -/
def Intact (s : InputStream) : Prop := s.retrieved ++ s.inputBuffer_.readable = s.delivered

/-- The event, when it is a read of `n` bytes, makes `readableBytes()` grow by `n`. -/
def GrowsExactly (s : InputStream) : InputEvent → Prop
  | .readFd data => ∀ t, s.step (.readFd data) = some t →
      t.inputBuffer_.readableBytes = s.inputBuffer_.readableBytes + data.length
  | _ => True

/-- The event, when it is a read, stays inside the vector's tail. -/
def FitsTail (s : InputStream) : InputEvent → Prop
  | .readFd data => data.length ≤ s.inputBuffer_.writableBytes
  | _ => True

/-- The index invariant and the intact stream. -/
structure Inv (s : InputStream) : Prop where
  wf : s.inputBuffer_.WF
  intact : s.Intact

theorem start_inv : start.Inv := ⟨Buffer.new_wf, Buffer.readable_new⟩

theorem readFd_eq_some {s t : InputStream} {data : List UInt8} (hwf : s.inputBuffer_.WF)
    (h : s.step (.readFd data) = some t) :
    t.inputBuffer_.WF ∧ t.retrieved = s.retrieved ∧ t.delivered = s.delivered ++ data ∧
      t.inputBuffer_.readable =
        s.inputBuffer_.readable ++ data.take s.inputBuffer_.writableBytes := by
  simp only [step] at h
  split at h
  · obtain ⟨⟨n, b⟩, hread, rfl⟩ := Option.map_eq_some_iff.mp h
    obtain ⟨_, hb, hreadable⟩ := Buffer.readFd_spec hwf (returned_eq_some.mp hread)
    exact ⟨hb, rfl, rfl, hreadable⟩
  · cases h

theorem Inv.step {s t : InputStream} {e : InputEvent} (h : s.Inv) (hfits : s.FitsTail e)
    (hstep : s.step e = some t) : t.Inv := by
  rcases h with ⟨hwf, hintact⟩
  cases e with
  | readFd data =>
    obtain ⟨hb, hretrieved, hdelivered, hread⟩ := readFd_eq_some hwf hstep
    refine ⟨hb, ?_⟩
    rw [Intact, hretrieved, hdelivered, hread, List.take_of_length_le hfits, ← List.append_assoc,
      show s.retrieved ++ s.inputBuffer_.readable = s.delivered from hintact]
  | retrieve len =>
    cases hstep
    refine ⟨Buffer.retrieve_wf hwf len, ?_⟩
    rw [Intact, Buffer.readable_retrieve hwf, List.append_assoc, List.take_append_drop]
    exact hintact
  | retrieveAll =>
    cases hstep
    refine ⟨Buffer.retrieveAll_wf hwf, ?_⟩
    rw [Intact, Buffer.readable_retrieveAll, List.append_nil]
    exact hintact

/-- A read past the vector's tail loses the bytes that went into `extrabuf`. -/
theorem Inv.overflow_breaks {s t : InputStream} {e : InputEvent} (h : s.Inv)
    (hover : ¬ s.FitsTail e) (hstep : s.step e = some t) : ¬ t.Intact := by
  rcases h with ⟨hwf, hintact⟩
  cases e with
  | readFd data =>
    obtain ⟨_, hretrieved, hdelivered, hread⟩ := readFd_eq_some hwf hstep
    intro hbroken
    rw [Intact, hretrieved, hdelivered, hread, ← List.append_assoc,
      show s.retrieved ++ s.inputBuffer_.readable = s.delivered from hintact] at hbroken
    have hlength := congrArg List.length (List.append_cancel_left hbroken)
    simp only [FitsTail] at hover
    rw [List.length_take] at hlength
    omega
  | retrieve len => exact absurd trivial hover
  | retrieveAll => exact absurd trivial hover

theorem Inv.growsExactly {s : InputStream} {e : InputEvent} (h : s.Inv) (hfits : s.FitsTail e) :
    s.GrowsExactly e := by
  cases e with
  | readFd data =>
    intro t hstep
    obtain ⟨hb, _, _, hread⟩ := readFd_eq_some h.wf hstep
    rw [← hb.length_readable, ← h.wf.length_readable, hread, List.take_of_length_le hfits,
      List.length_append]
  | retrieve len => exact trivial
  | retrieveAll => exact trivial

end InputStream

/-- **When the input stream is intact.**  Every byte the kernel delivered is readable
    until it is retrieved, and every `readFd` returning `n` makes `readableBytes()` grow
    by `n`, exactly along the runs in which no `readv` delivers more bytes than the
    writable space before the call. -/
theorem input_stream_intact_iff (es : List InputEvent) (t : InputStream)
    (hrun : Run InputStream.step InputStream.start es t) :
    (Always InputStream.step InputStream.Intact InputStream.start es ∧
      Along InputStream.step InputStream.GrowsExactly InputStream.start es) ↔
      Along InputStream.step InputStream.FitsTail InputStream.start es := by
  have hiff : Always InputStream.step InputStream.Intact InputStream.start es ↔
      Along InputStream.step InputStream.FitsTail InputStream.start es :=
    always_iff_along (fun _ => InputStream.Inv.intact)
      (fun _ _ _ h hfits hstep => h.step hfits hstep)
      (fun _ _ _ h hover hstep => h.overflow_breaks hover hstep)
      InputStream.start_inv hrun
  constructor
  · rintro ⟨halways, _⟩
    exact hiff.mp halways
  · intro halong
    have hinv := always_of_along (fun _ _ _ h hfits hstep => InputStream.Inv.step h hfits hstep)
      InputStream.start_inv halong
    exact ⟨hiff.mpr halong, halong.of_always (fun _ _ h hfits => h.growsExactly hfits) hinv⟩

/-- A read of `data` as the first event, when memory allows it. -/
theorem run_readFd_start (data : List UInt8)
    (hoffered : data.length ≤ Buffer.kInitialSize + Buffer.extrabufSize) :
    ∃ t, Run InputStream.step InputStream.start [.readFd data] t := by
  have hsize : Buffer.new.buffer_.length + (data.length - Buffer.new.writableBytes)
      ≤ vectorMaxSize := by
    rw [Buffer.length_buffer_new]
    unfold Buffer.kInitialSize Buffer.extrabufSize at hoffered
    unfold Buffer.kInitialSize Buffer.kCheapPrepend vectorMaxSize
    omega
  have hwritable : Buffer.new.writableBytes = Buffer.kInitialSize := by
    rw [Buffer.writableBytes, Buffer.length_buffer_new]
    rfl
  have hlegal : data.length ≤ Buffer.new.offered := by
    rw [Buffer.offered, hwritable, if_pos (by decide)]
    exact hoffered
  obtain ⟨b, hb⟩ := Buffer.readFd_returns Buffer.new_wf hsize
  refine ⟨⟨b, [] ++ data, []⟩, Run.one ?_⟩
  simp only [InputStream.step, InputStream.start, if_pos hlegal, hb, returned, Option.map_some]

theorem input_stream_intact_iff_one_read :
    (Always InputStream.step InputStream.Intact InputStream.start [.readFd [97]] ∧
      Along InputStream.step InputStream.GrowsExactly InputStream.start [.readFd [97]]) ↔
      Along InputStream.step InputStream.FitsTail InputStream.start [.readFd [97]] := by
  obtain ⟨t, hrun⟩ := run_readFd_start [97] (by decide)
  exact input_stream_intact_iff _ t hrun

/-- 1025 bytes arrive in a new buffer, which has 1024 writable: the last one is lost. -/
theorem input_stream_loses_overflow :
    (∃ t, Run InputStream.step InputStream.start [.readFd (List.replicate 1025 97)] t) ∧
      ¬ Always InputStream.step InputStream.Intact InputStream.start
        [.readFd (List.replicate 1025 97)] := by
  obtain ⟨t, hrun⟩ := run_readFd_start (List.replicate 1025 97) (by
    rw [List.length_replicate]
    decide)
  refine ⟨⟨t, hrun⟩, ?_⟩
  intro halways
  have hover : ¬ InputStream.start.FitsTail (.readFd (List.replicate 1025 97)) := by
    simp only [InputStream.FitsTail, InputStream.start, Buffer.writableBytes,
      Buffer.length_buffer_new, List.length_replicate]
    decide
  exact InputStream.start_inv.overflow_breaks hover (hrun.step_of_one)
    (halways [.readFd (List.replicate 1025 97)] [] t rfl hrun)

end Muduo
