import Muduo.Basics
import Muduo.Windows

/-!
# `Buffer`

The model of `Buffer.h` and `Buffer.cpp`: a `std::vector<char>` with a reader and a
writer index.  Bytes before the writer index that were read, and bytes after it, are
stale and stay in the vector.  `append` copies at the writer index and does not move
it, as the source has it.

The code is written in `Copying`, which keeps the copies that a call makes beside what it
returns.  `Buffer.append` and the others are what their code returns.

`Buffer.WF` is the index invariant of the class comment
(`0 <= readerIndex <= writerIndex <= size`, with the 8 prepend bytes), and each
operation has one lemma saying that it keeps `WF` and what it does to the readable
bytes.
-/

namespace Muduo

open Windows

/-- `std::vector<char>::max_size()`. -/
def vectorMaxSize : Nat := 2 ^ 63 - 1

structure Buffer where
  buffer_ : List UInt8
  readerIndex_ : Nat
  writerIndex_ : Nat
deriving DecidableEq

/-! ### Code that copies -/

/-- A copy of `len` bytes, out of a vector of `size` bytes from `source` on and into it from
    `target` on.  Memory beside the vector is `none`. -/
structure BufferCopy where
  source : Option Nat
  target : Option Nat
  len : Nat
  size : Nat
deriving DecidableEq

/-- The copies a call makes, also when it then throws, and what it returns. -/
structure Copying (α : Type) where
  copies : List BufferCopy
  result : Except Fault α

namespace Copying

instance : Monad Copying where
  pure a := ⟨[], .ok a⟩
  bind x f :=
    match x.result with
    | .ok a => ⟨x.copies ++ (f a).copies, (f a).result⟩
    | .error fault => ⟨x.copies, .error fault⟩

instance : MonadLift (Except Fault) Copying := ⟨fun x => ⟨[], x⟩⟩

@[simp] theorem result_pure {α : Type} (a : α) : (pure a : Copying α).result = .ok a := rfl

@[simp] theorem result_lift {α : Type} (x : Except Fault α) :
    (liftM x : Copying α).result = x := rfl

@[simp] theorem result_bind {α β : Type} (x : Copying α) (f : α → Copying β) :
    (x >>= f).result = x.result >>= fun a => (f a).result := by
  obtain ⟨copies, result⟩ := x
  cases result <;> rfl

@[simp] theorem copies_pure {α : Type} (a : α) : (pure a : Copying α).copies = [] := rfl

@[simp] theorem copies_lift {α : Type} (x : Except Fault α) :
    (liftM x : Copying α).copies = [] := rfl

@[simp] theorem copies_bind_pure {α β : Type} (x : Copying α) (f : α → β) :
    (x >>= fun a => pure (f a)).copies = x.copies := by
  obtain ⟨copies, result⟩ := x
  cases result with
  | ok a => exact List.append_nil copies
  | error fault => rfl

/-- What comes after a call that returned copies as well. -/
theorem mem_copies_bind {α β : Type} {x : Copying α} {f : α → Copying β} {copy : BufferCopy} :
    copy ∈ (x >>= f).copies ↔
      copy ∈ x.copies ∨ ∃ a, x.result = .ok a ∧ copy ∈ (f a).copies := by
  obtain ⟨copies, result⟩ := x
  cases result with
  | ok a => simp [bind]
  | error fault => simp [bind]

end Copying

namespace Buffer

def kCheapPrepend : Nat := 8
def kInitialSize : Nat := 1024

/-- Size of the stack buffer of `readFd`. -/
def extrabufSize : Nat := 65536

/-- `Buffer()`, with the default `initialSize`. -/
def new : Buffer :=
  ⟨List.replicate (kInitialSize + kCheapPrepend) 0, kCheapPrepend, kCheapPrepend⟩

def readableBytes (b : Buffer) : Nat := b.writerIndex_ - b.readerIndex_
def writableBytes (b : Buffer) : Nat := b.buffer_.length - b.writerIndex_
def prependableBytes (b : Buffer) : Nat := b.readerIndex_

/-- The bytes of `[peek(), peek() + readableBytes())`. -/
def readable (b : Buffer) : List UInt8 := window b.buffer_ b.readerIndex_ b.writerIndex_

/-- Total length of the iovecs `readFd` offers: the vector's tail, and `extrabuf` when
    the tail is shorter than it. -/
def offered (b : Buffer) : Nat :=
  if b.writableBytes < extrabufSize then b.writableBytes + extrabufSize else b.writableBytes

/-! ### Vector primitives -/

/-- `std::vector<char>::resize(n)`. -/
def resize (v : List UInt8) (n : Nat) : Except Fault (List UInt8) :=
  if n ≤ vectorMaxSize then .ok (resized 0 v n) else .error .lengthError

/-- `std::copy` of `data` to `begin() + pos`. -/
def copyTo (v : List UInt8) (pos : Nat) (data : List UInt8) : Except Fault (List UInt8) :=
  if pos + data.length ≤ v.length then .ok (splice v pos data) else .error .outOfBounds

/-- `std::string(begin() + pos, len)`. -/
def copyOut (v : List UInt8) (pos len : Nat) : Except Fault (List UInt8) :=
  if pos + len ≤ v.length then .ok (window v pos (pos + len)) else .error .outOfBounds

theorem resize_eq_ok {v v' : List UInt8} {n : Nat} :
    resize v n = .ok v' ↔ n ≤ vectorMaxSize ∧ resized 0 v n = v' := by
  unfold resize
  split <;> simp [*]

theorem copyTo_eq_ok {v v' data : List UInt8} {pos : Nat} :
    copyTo v pos data = .ok v' ↔ pos + data.length ≤ v.length ∧ splice v pos data = v' := by
  unfold copyTo
  split <;> simp [*]

/-! ### Retrieving -/

def retrieveAll (b : Buffer) : Buffer :=
  { b with readerIndex_ := kCheapPrepend, writerIndex_ := kCheapPrepend }

def retrieve (b : Buffer) (len : Nat) : Buffer :=
  if len < b.readableBytes then
    { b with readerIndex_ := b.readerIndex_ + len }
  else
    b.retrieveAll

/-- `retrieveUntil(peek() + offset)`: the argument is a pointer, and `end - peek()` is
    converted to `size_t`. -/
def retrieveUntil (b : Buffer) (offset : Int) : Buffer := b.retrieve (toSizeT offset)

end Buffer

/-! ### The code that copies -/

namespace Copying

open Buffer

/-- `data` goes to the vector at `pos`; it comes from the vector itself at `source`, if that
    is given. -/
def copyTo (v : List UInt8) (source : Option Nat) (pos : Nat) (data : List UInt8) :
    Copying (List UInt8) :=
  ⟨[⟨source, some pos, data.length, v.length⟩], Buffer.copyTo v pos data⟩

def copyOut (v : List UInt8) (pos len : Nat) : Copying (List UInt8) :=
  ⟨[⟨some pos, none, len, v.length⟩], Buffer.copyOut v pos len⟩

/-- `std::string(peek(), len)` and `retrieve(len)`. -/
def retrieveAsString (b : Buffer) (len : Nat) : Copying (List UInt8 × Buffer) := do
  let str ← copyOut b.buffer_ b.readerIndex_ len
  pure (str, b.retrieve len)

def makeSpace (b : Buffer) (len : Nat) : Copying Buffer :=
  if (b.writableBytes + b.prependableBytes) % sizeModulus
      < (len + kCheapPrepend) % sizeModulus then do
    let v ← resize b.buffer_ ((b.writerIndex_ + len) % sizeModulus)
    pure { b with buffer_ := v }
  else do
    let readable := b.readableBytes
    let v ← copyTo b.buffer_ b.readerIndex_ kCheapPrepend
      (window b.buffer_ b.readerIndex_ b.writerIndex_)
    pure ⟨v, kCheapPrepend, kCheapPrepend + readable⟩

def ensureWritableBytes (b : Buffer) (len : Nat) : Copying Buffer :=
  if b.writableBytes < len then makeSpace b len else pure b

/-- `append(const char *data, size_t len)`: the bytes are copied to `beginWrite()` and
    the writer index stays where it was. -/
def append (b : Buffer) (data : List UInt8) : Copying Buffer := do
  let b ← ensureWritableBytes b data.length
  let v ← copyTo b.buffer_ none b.writerIndex_ data
  pure { b with buffer_ := v }

/-- `readFd`: the value returned (a `ssize_t`) and the buffer.  `readv` fills the
    vector's tail before `extrabuf`. -/
def readFd (b : Buffer) : ReadResult → Copying (Int × Buffer)
  | .failed _ => pure (-1, b)
  | .received data => do
    let writable := b.writableBytes
    let v ← copyTo b.buffer_ none b.writerIndex_ (data.take writable)
    let b := { b with buffer_ := v }
    if data.length < writable then
      pure (data.length, { b with writerIndex_ := b.writerIndex_ + data.length })
    else do
      let b ← append { b with writerIndex_ := b.buffer_.length } (data.drop writable)
      pure (data.length, b)

end Copying

namespace Buffer

/-! ### What the calls return -/

def retrieveAsString (b : Buffer) (len : Nat) : Except Fault (List UInt8 × Buffer) :=
  (Copying.retrieveAsString b len).result

def retrieveAllAsString (b : Buffer) : Except Fault (List UInt8 × Buffer) :=
  b.retrieveAsString b.readableBytes

def makeSpace (b : Buffer) (len : Nat) : Except Fault Buffer := (Copying.makeSpace b len).result

def ensureWritableBytes (b : Buffer) (len : Nat) : Except Fault Buffer :=
  (Copying.ensureWritableBytes b len).result

def append (b : Buffer) (data : List UInt8) : Except Fault Buffer := (Copying.append b data).result

/-- `append(const std::string &str)`. -/
def appendString (b : Buffer) (str : List UInt8) : Except Fault Buffer := b.append str

def readFd (b : Buffer) (r : ReadResult) : Except Fault (Int × Buffer) :=
  (Copying.readFd b r).result

theorem retrieveAsString_def (b : Buffer) (len : Nat) :
    b.retrieveAsString len =
      if b.readerIndex_ + len ≤ b.buffer_.length then
        .ok (window b.buffer_ b.readerIndex_ (b.readerIndex_ + len), b.retrieve len)
      else
        .error .outOfBounds := by
  simp only [retrieveAsString, Copying.retrieveAsString, Copying.copyOut, copyOut,
    Copying.result_bind]
  split <;> rfl

theorem makeSpace_eq (b : Buffer) (len : Nat) :
    b.makeSpace len =
      if (b.writableBytes + b.prependableBytes) % sizeModulus
          < (len + kCheapPrepend) % sizeModulus then
        resize b.buffer_ ((b.writerIndex_ + len) % sizeModulus) >>= fun v =>
          .ok { b with buffer_ := v }
      else
        copyTo b.buffer_ kCheapPrepend (window b.buffer_ b.readerIndex_ b.writerIndex_) >>=
          fun v => .ok ⟨v, kCheapPrepend, kCheapPrepend + b.readableBytes⟩ := by
  unfold makeSpace Copying.makeSpace
  split <;> simp [Copying.copyTo]

/-- The two branches of `makeSpace`, when it returns. -/
theorem makeSpace_eq_ok {b b' : Buffer} {len : Nat} :
    b.makeSpace len = .ok b' ↔
      if (b.writableBytes + b.prependableBytes) % sizeModulus
          < (len + kCheapPrepend) % sizeModulus then
        (b.writerIndex_ + len) % sizeModulus ≤ vectorMaxSize ∧
          { b with buffer_ := resized 0 b.buffer_ ((b.writerIndex_ + len) % sizeModulus) } = b'
      else
        kCheapPrepend + (window b.buffer_ b.readerIndex_ b.writerIndex_).length
            ≤ b.buffer_.length ∧
          ⟨splice b.buffer_ kCheapPrepend (window b.buffer_ b.readerIndex_ b.writerIndex_),
            kCheapPrepend, kCheapPrepend + b.readableBytes⟩ = b' := by
  rw [makeSpace_eq]
  split
  · simp [bind_eq_ok, resize_eq_ok]
  · simp [bind_eq_ok, copyTo_eq_ok]

theorem ensureWritableBytes_eq (b : Buffer) (len : Nat) :
    b.ensureWritableBytes len = if b.writableBytes < len then b.makeSpace len else .ok b := by
  unfold ensureWritableBytes Copying.ensureWritableBytes
  split <;> rfl

theorem append_eq (b : Buffer) (data : List UInt8) :
    b.append data = b.ensureWritableBytes data.length >>= fun c =>
      copyTo c.buffer_ c.writerIndex_ data >>= fun v => .ok { c with buffer_ := v } := by
  simp [append, Copying.append, Copying.copyTo, ensureWritableBytes]

theorem append_eq_ok {b b' : Buffer} {data : List UInt8} :
    b.append data = .ok b' ↔ ∃ c, b.ensureWritableBytes data.length = .ok c ∧
      c.writerIndex_ + data.length ≤ c.buffer_.length ∧
      { c with buffer_ := splice c.buffer_ c.writerIndex_ data } = b' := by
  simp [append_eq, bind_eq_ok, copyTo_eq_ok]

theorem readFd_received_eq (b : Buffer) (data : List UInt8) :
    b.readFd (.received data) =
      copyTo b.buffer_ b.writerIndex_ (data.take b.writableBytes) >>= fun v =>
        if data.length < b.writableBytes then
          .ok ((data.length : Int), { b with
            buffer_ := v, writerIndex_ := b.writerIndex_ + data.length })
        else
          { b with buffer_ := v, writerIndex_ := v.length }.append (data.drop b.writableBytes)
            >>= fun c => .ok ((data.length : Int), c) := by
  simp only [readFd, Copying.readFd, Copying.copyTo, Copying.result_bind]
  congr 1
  funext v
  split <;> simp [append]

/-- `readFd` when it returns: the tail has room for all the bytes, or it is full and the
    rest is appended. -/
theorem readFd_eq_ok {b b' : Buffer} {data : List UInt8} {n : Int}
    (hread : b.readFd (.received data) = .ok (n, b')) :
    n = data.length ∧ b.writerIndex_ + (data.take b.writableBytes).length ≤ b.buffer_.length ∧
      ∃ v, splice b.buffer_ b.writerIndex_ (data.take b.writableBytes) = v ∧
        if data.length < b.writableBytes then
          b' = { b with buffer_ := v, writerIndex_ := b.writerIndex_ + data.length }
        else
          { b with buffer_ := v, writerIndex_ := v.length }.append (data.drop b.writableBytes)
            = .ok b' := by
  rw [readFd_received_eq] at hread
  obtain ⟨v, hv, hrest⟩ := bind_eq_ok.mp hread
  obtain ⟨hfits, hsplice⟩ := copyTo_eq_ok.mp hv
  split at hrest
  · rename_i hshort
    cases hrest
    exact ⟨rfl, hfits, v, hsplice, by rw [if_pos hshort]⟩
  · rename_i hshort
    obtain ⟨c, hc, hok⟩ := bind_eq_ok.mp hrest
    cases hok
    exact ⟨rfl, hfits, v, hsplice, by rwa [if_neg hshort]⟩

/-! ### The index invariant -/

structure WF (b : Buffer) : Prop where
  prepend_le : kCheapPrepend ≤ b.readerIndex_
  reader_le : b.readerIndex_ ≤ b.writerIndex_
  writer_le : b.writerIndex_ ≤ b.buffer_.length
  size_le : b.buffer_.length ≤ vectorMaxSize

/-- For data that fits in a vector no sum of indices wraps. -/
theorem WF.sums_lt {b : Buffer} {len : Nat} (h : b.WF) (hlen : len ≤ vectorMaxSize) :
    len + kCheapPrepend < sizeModulus ∧ b.writerIndex_ + len < sizeModulus := by
  have hwriter := h.writer_le
  have hsize := h.size_le
  unfold kCheapPrepend vectorMaxSize sizeModulus at *
  omega

theorem length_buffer_new : new.buffer_.length = kInitialSize + kCheapPrepend :=
  List.length_replicate

theorem new_wf : new.WF where
  prepend_le := le_rfl
  reader_le := le_rfl
  writer_le := length_buffer_new ▸ Nat.le_add_left _ _
  size_le := length_buffer_new ▸ by decide

@[simp] theorem readable_new : new.readable = [] := window_self _ _

theorem WF.length_readable {b : Buffer} (h : b.WF) : b.readable.length = b.readableBytes :=
  length_window h.writer_le

theorem readable_eq_nil {b : Buffer} (h : b.WF) : b.readable = [] ↔ b.readableBytes = 0 := by
  rw [← h.length_readable, List.length_eq_zero_iff]

/-- Writing into the vector does not touch the indices. -/
theorem WF.spliced {b : Buffer} {pos : Nat} {data : List UInt8} (h : b.WF)
    (hfits : pos + data.length ≤ b.buffer_.length) :
    WF { b with buffer_ := splice b.buffer_ pos data } where
  prepend_le := h.prepend_le
  reader_le := h.reader_le
  writer_le := by simpa only [length_splice hfits] using h.writer_le
  size_le := by simpa only [length_splice hfits] using h.size_le

/-- `readFd` moves the writer index to the end of the vector before it appends. -/
theorem WF.full {b : Buffer} (h : b.WF) : WF { b with writerIndex_ := b.buffer_.length } where
  prepend_le := h.prepend_le
  reader_le := h.reader_le.trans h.writer_le
  writer_le := Nat.le_refl _
  size_le := h.size_le

/-- What `readv` puts behind the writer index fits in the vector's tail. -/
theorem WF.tail_fits {b : Buffer} (h : b.WF) (data : List UInt8) :
    b.writerIndex_ + (data.take b.writableBytes).length ≤ b.buffer_.length := by
  have hwriter := h.writer_le
  rw [List.length_take]
  unfold writableBytes
  omega

theorem retrieveAll_wf {b : Buffer} (h : b.WF) : b.retrieveAll.WF where
  prepend_le := le_rfl
  reader_le := le_rfl
  writer_le := h.prepend_le.trans (h.reader_le.trans h.writer_le)
  size_le := h.size_le

@[simp] theorem readable_retrieveAll (b : Buffer) : b.retrieveAll.readable = [] := by
  simp [readable, retrieveAll]

theorem retrieve_wf {b : Buffer} (h : b.WF) (len : Nat) : (b.retrieve len).WF := by
  unfold retrieve
  split
  · rename_i hlen
    unfold readableBytes at hlen
    exact ⟨h.prepend_le.trans (Nat.le_add_right _ _), by simp only; omega, h.writer_le, h.size_le⟩
  · exact retrieveAll_wf h

/-- `retrieve(len)` drops the first `len` readable bytes, or all of them. -/
theorem readable_retrieve {b : Buffer} (h : b.WF) (len : Nat) :
    (b.retrieve len).readable = b.readable.drop len := by
  unfold retrieve
  split
  · rw [readable, readable, window, window, List.drop_take, List.drop_drop, Nat.sub_sub]
  · rename_i hlen
    rw [readable_retrieveAll, List.drop_eq_nil_of_le]
    rw [h.length_readable]
    omega

/-- `retrieveAsString(len)` inside the readable bytes returns the bytes it drops. -/
theorem retrieveAsString_eq {b : Buffer} (h : b.WF) {len : Nat} (hlen : len ≤ b.readableBytes) :
    b.retrieveAsString len = .ok (b.readable.take len, b.retrieve len) := by
  have hreader := h.reader_le
  have hwriter := h.writer_le
  unfold readableBytes at hlen
  have hinside : b.readerIndex_ + len ≤ b.buffer_.length := by omega
  rw [retrieveAsString_def, if_pos hinside, readable, take_window (by omega)]

/-! ### Specification of `makeSpace` and `append` -/

/-- What `ensureWritableBytes(len)` does when its two sums do not wrap: it keeps the
    invariant and the readable bytes, and `len` bytes can be written. -/
structure Ensured (b : Buffer) (len : Nat) (b' : Buffer) : Prop where
  wf : b'.WF
  readable_eq : b'.readable = b.readable
  writable_ge : len ≤ b'.writableBytes

theorem makeSpace_spec {b b' : Buffer} {len : Nat} (h : b.WF) (hlen : b.writableBytes < len)
    (hprepend : len + kCheapPrepend < sizeModulus) (hwriter : b.writerIndex_ + len < sizeModulus)
    (hspace : b.makeSpace len = .ok b') : Ensured b len b' := by
  rcases h with ⟨hp, hr, hw, hs⟩
  have hsum : b.writableBytes + b.prependableBytes < sizeModulus := by
    unfold writableBytes prependableBytes vectorMaxSize sizeModulus at *
    omega
  rw [makeSpace_eq_ok, Nat.mod_eq_of_lt hsum, Nat.mod_eq_of_lt hprepend,
    Nat.mod_eq_of_lt hwriter] at hspace
  by_cases hroom : b.writableBytes + b.prependableBytes < len + kCheapPrepend
  · -- growth: the vector gets exactly `writerIndex_ + len` elements
    rw [if_pos hroom] at hspace
    obtain ⟨hmax, rfl⟩ := hspace
    refine ⟨⟨hp, hr, ?_, ?_⟩, ?_, ?_⟩
    · simp only [length_resized]
      omega
    · simpa only [length_resized] using hmax
    · exact window_resized hw (Nat.le_add_right _ _)
    · simp only [writableBytes, length_resized]
      omega
  · -- compaction: the readable bytes move down to the prepend area
    rw [if_neg hroom] at hspace
    obtain ⟨hfits, rfl⟩ := hspace
    have hlength : (window b.buffer_ b.readerIndex_ b.writerIndex_).length = b.readableBytes :=
      length_window hw
    have hvlen := length_splice hfits
    rw [hlength] at hfits
    refine ⟨⟨Nat.le_refl _, Nat.le_add_right _ _, ?_, ?_⟩, ?_, ?_⟩
    · simpa only [hvlen] using hfits
    · simpa only [hvlen] using hs
    · rw [readable, ← hlength]
      exact window_splice_self (by omega)
    · unfold writableBytes readableBytes prependableBytes kCheapPrepend at *
      simp only [hvlen]
      omega

theorem ensureWritableBytes_spec {b b' : Buffer} {len : Nat} (h : b.WF)
    (hprepend : len + kCheapPrepend < sizeModulus) (hwriter : b.writerIndex_ + len < sizeModulus)
    (hensure : b.ensureWritableBytes len = .ok b') : Ensured b len b' := by
  rw [ensureWritableBytes_eq] at hensure
  by_cases hlen : b.writableBytes < len
  · rw [if_pos hlen] at hensure
    exact makeSpace_spec h hlen hprepend hwriter hensure
  · rw [if_neg hlen] at hensure
    cases hensure
    exact ⟨h, rfl, by omega⟩

theorem makeSpace_length_le {b b' : Buffer} {len : Nat} (h : b.WF)
    (hspace : b.makeSpace len = .ok b') : b'.buffer_.length ≤ vectorMaxSize := by
  rw [makeSpace_eq_ok] at hspace
  split at hspace
  · obtain ⟨hmax, rfl⟩ := hspace
    simpa only [length_resized] using hmax
  · obtain ⟨hfits, rfl⟩ := hspace
    simpa only [length_splice hfits] using h.size_le

theorem ensureWritableBytes_length_le {b b' : Buffer} {len : Nat} (h : b.WF)
    (hensure : b.ensureWritableBytes len = .ok b') : b'.buffer_.length ≤ vectorMaxSize := by
  rw [ensureWritableBytes_eq] at hensure
  split at hensure
  · exact makeSpace_length_le h hensure
  · cases hensure
    exact h.size_le

/-- `append` keeps the invariant and, since the writer index stays, the readable bytes.
    A call that returned copied inside the vector, so its sums did not wrap. -/
theorem append_spec {b b' : Buffer} {data : List UInt8} (h : b.WF)
    (happend : b.append data = .ok b') : b'.WF ∧ b'.readable = b.readable := by
  obtain ⟨c, hc, hfits, rfl⟩ := append_eq_ok.mp happend
  have hmax := ensureWritableBytes_length_le h hc
  have hdata : data.length ≤ vectorMaxSize := by omega
  obtain ⟨hprepend, hsum⟩ := h.sums_lt hdata
  obtain ⟨hwf, hread, _⟩ := ensureWritableBytes_spec h hprepend hsum hc
  refine ⟨hwf.spliced hfits, ?_⟩
  rw [← hread]
  exact window_splice_before (Nat.le_refl _) hwf.writer_le

/-! ### The calls return -/

theorem makeSpace_returns {b : Buffer} {len : Nat} (h : b.WF)
    (hsize : b.writerIndex_ + len ≤ vectorMaxSize) : ∃ b', b.makeSpace len = .ok b' := by
  have hlen : len ≤ vectorMaxSize := by omega
  simp only [makeSpace_eq_ok, Nat.mod_eq_of_lt (h.sums_lt hlen).2]
  split
  · exact ⟨_, hsize, rfl⟩
  · have hfits : kCheapPrepend + (window b.buffer_ b.readerIndex_ b.writerIndex_).length
        ≤ b.buffer_.length := by
      rw [length_window h.writer_le]
      have hprepend := h.prepend_le
      have hreader := h.reader_le
      have hwriter := h.writer_le
      omega
    exact ⟨_, hfits, rfl⟩

theorem ensureWritableBytes_returns {b : Buffer} {len : Nat} (h : b.WF)
    (hsize : b.writerIndex_ + len ≤ vectorMaxSize) : ∃ b', b.ensureWritableBytes len = .ok b' := by
  rw [ensureWritableBytes_eq]
  split
  · exact makeSpace_returns h hsize
  · exact ⟨b, rfl⟩

theorem append_returns {b : Buffer} (data : List UInt8) (h : b.WF)
    (hsize : b.writerIndex_ + data.length ≤ vectorMaxSize) : ∃ b', b.append data = .ok b' := by
  obtain ⟨c, hc⟩ := ensureWritableBytes_returns h hsize
  have hdata : data.length ≤ vectorMaxSize := by omega
  obtain ⟨hprepend, hsum⟩ := h.sums_lt hdata
  obtain ⟨hwf, _, hroom⟩ := ensureWritableBytes_spec h hprepend hsum hc
  have hfits : c.writerIndex_ + data.length ≤ c.buffer_.length := by
    have hwriter := hwf.writer_le
    unfold writableBytes at hroom
    omega
  exact ⟨_, append_eq_ok.mpr ⟨c, hc, hfits, rfl⟩⟩

/-- A `readFd` that returned `n` made readable what the kernel put into the vector's
    tail; what it put into `extrabuf` went through `append`. -/
theorem readFd_spec {b b' : Buffer} {data : List UInt8} {n : Int} (h : b.WF)
    (hread : b.readFd (.received data) = .ok (n, b')) :
    n = data.length ∧ b'.WF ∧ b'.readable = b.readable ++ data.take b.writableBytes := by
  obtain ⟨rfl, hfits, v, rfl, hrest⟩ := readFd_eq_ok hread
  have hreader := h.reader_le
  have hwriter := h.writer_le
  have hvlen := length_splice hfits
  have hextend : window (splice b.buffer_ b.writerIndex_ (data.take b.writableBytes))
      b.readerIndex_ (b.writerIndex_ + (data.take b.writableBytes).length)
      = b.readable ++ data.take b.writableBytes :=
    window_splice_extend hreader hwriter
  by_cases hshort : data.length < b.writableBytes
  · -- everything fits in the vector's tail
    rw [if_pos hshort] at hrest
    subst hrest
    have hall : data.take b.writableBytes = data := List.take_of_length_le (Nat.le_of_lt hshort)
    rw [hall] at hextend hvlen
    refine ⟨rfl, ⟨h.prepend_le, ?_, ?_, ?_⟩, ?_⟩
    · exact Nat.le_trans hreader (Nat.le_add_right _ _)
    · simp only [hall, hvlen]
      unfold writableBytes at hshort
      omega
    · simpa only [hall, hvlen] using h.size_le
    · rw [hall, ← hextend]
      rfl
  · -- the tail is full: the writer index moves to its end and the rest is appended
    rw [if_neg hshort] at hrest
    have htail : b.writerIndex_ + (data.take b.writableBytes).length = b.buffer_.length := by
      rw [List.length_take]
      unfold writableBytes at *
      omega
    obtain ⟨hcwf, hcread⟩ := append_spec (h.spliced hfits).full hrest
    refine ⟨rfl, hcwf, ?_⟩
    rw [hcread, ← hextend, htail, ← hvlen]
    rfl

theorem readFd_returns {b : Buffer} {data : List UInt8} (h : b.WF)
    (hsize : b.buffer_.length + (data.length - b.writableBytes) ≤ vectorMaxSize) :
    ∃ b', b.readFd (.received data) = .ok (data.length, b') := by
  have hfits := h.tail_fits data
  have hvlen := length_splice hfits
  have hcopy := copyTo_eq_ok.mpr ⟨hfits, rfl⟩
  simp only [readFd_received_eq]
  by_cases hshort : data.length < b.writableBytes
  · exact ⟨_, bind_eq_ok.mpr ⟨_, hcopy, if_pos hshort⟩⟩
  · obtain ⟨c, hc⟩ := append_returns (data.drop b.writableBytes) (h.spliced hfits).full
      (by simpa only [hvlen, List.length_drop] using hsize)
    exact ⟨c, bind_eq_ok.mpr ⟨_, hcopy, (if_neg hshort).trans (bind_eq_ok.mpr ⟨c, hc, rfl⟩)⟩⟩

end Buffer

end Muduo
