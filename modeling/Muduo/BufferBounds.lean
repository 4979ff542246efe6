import Muduo.Buffer
import Muduo.Transitions

/-!
# The space of a `Buffer`

What a `Buffer` copies, and where: the readable bytes when `makeSpace` compacts, the data of
`append`, and what `readv` puts behind the writer index.  `makeSpace` compacts when the
bytes before and behind the readable ones are enough for `len` bytes and the prepend area.
The bytes behind are not enough for `len`, so those before are more than the prepend area,
and the readable bytes move towards the front.
-/

namespace Muduo

open Transitions

/-- The copy stays in the vector, and bytes of the vector move towards its front. -/
structure BufferCopy.Inside (copy : BufferCopy) : Prop where
  source_le : ∀ source, copy.source = some source → source + copy.len ≤ copy.size
  target_le : ∀ target, copy.target = some target → target + copy.len ≤ copy.size
  forward : ∀ source target, copy.source = some source → copy.target = some target →
    target < source

/-- Bytes from beside the vector that fit in it. -/
theorem BufferCopy.inside_of_fits {target len size : Nat} (h : target + len ≤ size) :
    BufferCopy.Inside ⟨none, some target, len, size⟩ where
  source_le source hsource := by cases hsource
  target_le t ht := by
    cases ht
    exact h
  forward source t hsource := by cases hsource

namespace Buffer

/-! ### The space that there is -/

/-- The sums of `makeSpace(len)` do not wrap. -/
def Sized (b : Buffer) (len : Nat) : Prop :=
  len + kCheapPrepend < sizeModulus ∧ b.writerIndex_ + len < sizeModulus

instance (b : Buffer) (len : Nat) : Decidable (b.Sized len) :=
  inferInstanceAs (Decidable (_ ∧ _))

/-- The branch of `makeSpace` that compacts is only taken behind the prepend area. -/
theorem WF.compacts {b : Buffer} {len : Nat} (h : b.WF) (hsized : b.Sized len)
    (hlen : b.writableBytes < len)
    (hroom : ¬ (b.writableBytes + b.prependableBytes) % sizeModulus
      < (len + kCheapPrepend) % sizeModulus) : kCheapPrepend < b.readerIndex_ := by
  have hsum : b.writableBytes + b.prependableBytes < sizeModulus := by
    have hreader := h.reader_le
    have hwriter := h.writer_le
    have hsize := h.size_le
    unfold writableBytes prependableBytes vectorMaxSize sizeModulus at *
    omega
  rw [Nat.mod_eq_of_lt hsum, Nat.mod_eq_of_lt hsized.1] at hroom
  unfold prependableBytes at hroom
  omega

/-- What `makeSpace` copies: the readable bytes, when it compacts. -/
theorem makeSpace_copies (b : Buffer) (len : Nat) :
    (Copying.makeSpace b len).copies =
      if (b.writableBytes + b.prependableBytes) % sizeModulus
          < (len + kCheapPrepend) % sizeModulus then
        []
      else
        [⟨some b.readerIndex_, some kCheapPrepend,
          (Windows.window b.buffer_ b.readerIndex_ b.writerIndex_).length, b.buffer_.length⟩] := by
  unfold Copying.makeSpace
  split <;> simp [Copying.copyTo]

theorem WF.ensure_copies_inside {b : Buffer} {len : Nat} (h : b.WF) (hsized : b.Sized len) :
    ∀ copy ∈ (Copying.ensureWritableBytes b len).copies, copy.Inside := by
  intro copy hcopy
  rw [Copying.ensureWritableBytes] at hcopy
  split at hcopy
  · rename_i hlen
    rw [makeSpace_copies] at hcopy
    split at hcopy
    · cases hcopy
    · rename_i hroom
      rw [List.mem_singleton] at hcopy
      subst hcopy
      have hprepend := h.compacts hsized hlen hroom
      have hreader := h.reader_le
      have hwriter := h.writer_le
      have hlength : (Windows.window b.buffer_ b.readerIndex_ b.writerIndex_).length =
          b.writerIndex_ - b.readerIndex_ := Windows.length_window hwriter
      constructor
      · intro source hsource
        cases hsource
        simp only [hlength]
        omega
      · intro target htarget
        cases htarget
        simp only [hlength]
        omega
      · intro source target hsource htarget
        cases hsource
        cases htarget
        exact hprepend
  · cases hcopy

theorem WF.append_copies_inside {b : Buffer} {data : List UInt8} (h : b.WF)
    (hsized : b.Sized data.length) :
    ∀ copy ∈ (Copying.append b data).copies, copy.Inside := by
  intro copy hcopy
  rcases Copying.mem_copies_bind.mp hcopy with hensure | ⟨c, hc, hrest⟩
  · exact h.ensure_copies_inside hsized copy hensure
  · rw [Copying.copies_bind_pure, Copying.copyTo, List.mem_singleton] at hrest
    subst hrest
    obtain ⟨hwf, _, hroom⟩ := ensureWritableBytes_spec h hsized.1 hsized.2 hc
    have hwriter := hwf.writer_le
    apply BufferCopy.inside_of_fits
    unfold writableBytes at hroom
    omega

/-- What is left in `extrabuf` is no more than `extrabuf` holds. -/
theorem WF.sized_spilled {b : Buffer} {data : List UInt8} {v : List UInt8} (h : b.WF)
    (hoffered : data.length ≤ b.offered) (hlength : v.length = b.buffer_.length) :
    Sized ⟨v, b.readerIndex_, v.length⟩ (data.drop b.writableBytes).length := by
  have hsize := h.size_le
  rw [Sized, List.length_drop]
  simp only [hlength]
  unfold offered at hoffered
  unfold kCheapPrepend vectorMaxSize sizeModulus at *
  split at hoffered
  · unfold extrabufSize at hoffered
    omega
  · omega

theorem WF.readFd_copies_inside {b : Buffer} {data : List UInt8} (h : b.WF)
    (hoffered : data.length ≤ b.offered) :
    ∀ copy ∈ (Copying.readFd b (.received data)).copies, copy.Inside := by
  intro copy hcopy
  have hfits := h.tail_fits data
  rcases Copying.mem_copies_bind.mp hcopy with htail | ⟨v, hv, hrest⟩
  · rw [Copying.copyTo, List.mem_singleton] at htail
    subst htail
    exact BufferCopy.inside_of_fits hfits
  · obtain ⟨_, rfl⟩ := copyTo_eq_ok.mp hv
    split at hrest
    · cases hrest
    · rw [Copying.copies_bind_pure] at hrest
      exact (h.spliced hfits).full.append_copies_inside
        (h.sized_spilled hoffered (Windows.length_splice hfits)) copy hrest

/-! ### Calls that do not return -/

theorem resize_fault {v : List UInt8} {k : Nat} {fault : Fault} (h : resize v k = .error fault) :
    fault = .lengthError := by
  unfold resize at h
  split at h
  · cases h
  · cases h
    rfl

theorem copyTo_returns {v data : List UInt8} {pos : Nat} (h : pos + data.length ≤ v.length)
    (fault : Fault) : copyTo v pos data ≠ .error fault := by
  rw [copyTo, if_pos h]
  intro hfault
  cases hfault

theorem WF.makeSpace_fault {b : Buffer} {len : Nat} {fault : Fault} (h : b.WF)
    (hfault : b.makeSpace len = .error fault) : fault = .lengthError := by
  rw [makeSpace_eq] at hfault
  split at hfault
  · rcases bind_eq_error.mp hfault with hresize | ⟨v, _, hok⟩
    · exact resize_fault hresize
    · cases hok
  · have hfits : kCheapPrepend + (Windows.window b.buffer_ b.readerIndex_ b.writerIndex_).length
        ≤ b.buffer_.length := by
      rw [Windows.length_window h.writer_le]
      have hprepend := h.prepend_le
      have hreader := h.reader_le
      have hwriter := h.writer_le
      omega
    rcases bind_eq_error.mp hfault with hcopy | ⟨v, _, hok⟩
    · exact absurd hcopy (copyTo_returns hfits fault)
    · cases hok

theorem WF.ensureWritableBytes_fault {b : Buffer} {len : Nat} {fault : Fault} (h : b.WF)
    (hfault : b.ensureWritableBytes len = .error fault) : fault = .lengthError := by
  rw [ensureWritableBytes_eq] at hfault
  split at hfault
  · exact h.makeSpace_fault hfault
  · cases hfault

theorem WF.append_fault {b : Buffer} {data : List UInt8} {fault : Fault} (h : b.WF)
    (hsized : b.Sized data.length) (hfault : b.append data = .error fault) :
    fault = .lengthError := by
  rw [append_eq] at hfault
  rcases bind_eq_error.mp hfault with hensure | ⟨c, hc, hrest⟩
  · exact h.ensureWritableBytes_fault hensure
  · obtain ⟨hwf, _, hroom⟩ := ensureWritableBytes_spec h hsized.1 hsized.2 hc
    have hfits : c.writerIndex_ + data.length ≤ c.buffer_.length := by
      have hwriter := hwf.writer_le
      unfold writableBytes at hroom
      omega
    rcases bind_eq_error.mp hrest with hcopy | ⟨v, _, hok⟩
    · exact absurd hcopy (copyTo_returns hfits fault)
    · cases hok

theorem WF.readFd_fault {b : Buffer} {data : List UInt8} {fault : Fault} (h : b.WF)
    (hoffered : data.length ≤ b.offered) (hfault : b.readFd (.received data) = .error fault) :
    fault = .lengthError := by
  have hfits := h.tail_fits data
  rw [readFd_received_eq] at hfault
  rcases bind_eq_error.mp hfault with hcopy | ⟨v, hv, hrest⟩
  · exact absurd hcopy (copyTo_returns hfits fault)
  · obtain ⟨_, rfl⟩ := copyTo_eq_ok.mp hv
    split at hrest
    · cases hrest
    · rcases bind_eq_error.mp hrest with happend | ⟨c, _, hok⟩
      · exact (h.spliced hfits).full.append_fault
          (h.sized_spilled hoffered (Windows.length_splice hfits)) happend
      · cases hok

end Buffer

/-! ### Runs -/

inductive BufferCall where
  | append (data : List UInt8)
  | ensureWritableBytes (len : Nat)
  | readFd (result : ReadResult)
  | retrieve (len : Nat)
  | retrieveAll
deriving DecidableEq

namespace BufferCall

def perform (b : Buffer) : BufferCall → Copying Buffer
  | append data => Copying.append b data
  | ensureWritableBytes len => Copying.ensureWritableBytes b len
  | readFd result => do
    let (_, b) ← Copying.readFd b result
    pure b
  | retrieve len => pure (b.retrieve len)
  | retrieveAll => pure b.retrieveAll

def copies (b : Buffer) (call : BufferCall) : List BufferCopy := (call.perform b).copies

def run (b : Buffer) (call : BufferCall) : Except Fault Buffer := (call.perform b).result

/-- The bytes of `append` are a range of memory beside the vector, and the kernel delivers
    no more than it was offered. -/
def Legal (b : Buffer) : BufferCall → Prop
  | append data => b.Sized data.length
  | ensureWritableBytes len => b.Sized len
  | readFd (.received data) => data.length ≤ b.offered
  | readFd (.failed _) => True
  | retrieve len => len < sizeModulus
  | retrieveAll => True

/-- What the call can ask `resize` for is no more than a vector holds. -/
def Fits (b : Buffer) : BufferCall → Prop
  | append data => b.writerIndex_ + data.length ≤ vectorMaxSize
  | ensureWritableBytes len => b.writerIndex_ + len ≤ vectorMaxSize
  | readFd (.received data) =>
    b.buffer_.length + (data.length - b.writableBytes) ≤ vectorMaxSize
  | readFd (.failed _) | retrieve _ | retrieveAll => True

instance (b : Buffer) : DecidablePred (Legal b)
  | append data => inferInstanceAs (Decidable (b.Sized data.length))
  | ensureWritableBytes len => inferInstanceAs (Decidable (b.Sized len))
  | readFd (.received data) => inferInstanceAs (Decidable (data.length ≤ b.offered))
  | retrieve len => inferInstanceAs (Decidable (len < sizeModulus))
  | readFd (.failed _) | retrieveAll => inferInstanceAs (Decidable True)

theorem run_append (b : Buffer) (data : List UInt8) : (append data).run b = b.append data := rfl

theorem run_readFd_eq_ok {b b' : Buffer} {result : ReadResult} :
    (readFd result).run b = .ok b' ↔ ∃ n, b.readFd result = .ok (n, b') := by
  simp [run, perform, bind_eq_ok, Buffer.readFd]

theorem run_readFd_eq_error {b : Buffer} {result : ReadResult} {fault : Fault} :
    (readFd result).run b = .error fault ↔ b.readFd result = .error fault := by
  simp [run, perform, bind_eq_error, Buffer.readFd]

theorem wf_of_run {b b' : Buffer} {call : BufferCall} (h : b.WF) (hlegal : call.Legal b)
    (hrun : call.run b = .ok b') : b'.WF := by
  cases call with
  | append data => exact (Buffer.append_spec h hrun).1
  | ensureWritableBytes len =>
    exact (Buffer.ensureWritableBytes_spec h hlegal.1 hlegal.2 hrun).wf
  | readFd result =>
    obtain ⟨n, hread⟩ := run_readFd_eq_ok.mp hrun
    cases result with
    | received data => exact (Buffer.readFd_spec h hread).2.1
    | failed errno =>
      cases hread
      exact h
  | retrieve len =>
    cases hrun
    exact Buffer.retrieve_wf h len
  | retrieveAll =>
    cases hrun
    exact Buffer.retrieveAll_wf h

theorem copies_inside {b : Buffer} {call : BufferCall} (h : b.WF) (hlegal : call.Legal b) :
    ∀ copy ∈ call.copies b, copy.Inside := by
  cases call with
  | append data => exact h.append_copies_inside hlegal
  | ensureWritableBytes len => exact h.ensure_copies_inside hlegal
  | readFd result =>
    intro copy hcopy
    rcases Copying.mem_copies_bind.mp hcopy with hread | ⟨r, _, hpure⟩
    · cases result with
      | received data => exact h.readFd_copies_inside hlegal copy hread
      | failed errno => cases hread
    · cases hpure
  | retrieve | retrieveAll =>
    intro copy hcopy
    cases hcopy

theorem fault_of_run {b : Buffer} {call : BufferCall} {fault : Fault} (h : b.WF)
    (hlegal : call.Legal b) (hfault : call.run b = .error fault) : fault = .lengthError := by
  cases call with
  | append data => exact h.append_fault hlegal hfault
  | ensureWritableBytes len => exact h.ensureWritableBytes_fault hfault
  | readFd result =>
    have hread := run_readFd_eq_error.mp hfault
    cases result with
    | received data => exact h.readFd_fault hlegal hread
    | failed errno => cases hread
  | retrieve | retrieveAll => cases hfault

theorem run_returns {b : Buffer} {call : BufferCall} (h : b.WF) (hfits : call.Fits b) :
    ∃ b', call.run b = .ok b' := by
  cases call with
  | append data => exact Buffer.append_returns data h hfits
  | ensureWritableBytes len => exact Buffer.ensureWritableBytes_returns h hfits
  | readFd result =>
    cases result with
    | received data =>
      obtain ⟨b', hread⟩ := Buffer.readFd_returns h hfits
      exact ⟨b', run_readFd_eq_ok.mpr ⟨_, hread⟩⟩
    | failed errno => exact ⟨b, rfl⟩
  | retrieve len => exact ⟨_, rfl⟩
  | retrieveAll => exact ⟨_, rfl⟩

end BufferCall

namespace Buffer

/-- A call that throws ends the run. -/
def step (b : Buffer) (call : BufferCall) : Option Buffer :=
  if call.Legal b then returned (call.run b) else none

theorem step_wf {b b' : Buffer} {call : BufferCall} (h : b.WF) (hstep : step b call = some b') :
    b'.WF := by
  rw [step, Option.ite_none_right_eq_some] at hstep
  exact BufferCall.wf_of_run h hstep.1 (returned_eq_some.mp hstep.2)

theorem run_wf {b : Buffer} {calls : List BufferCall} (hrun : Run step new calls b) : b.WF :=
  hrun.invariant (fun _ _ _ h hstep => step_wf h hstep) new_wf

/-- A `readFd` that does not fill the vector's tail moves the writer index only. -/
theorem readFd_short {b b' : Buffer} {data : List UInt8} {n : Int}
    (hread : b.readFd (.received data) = .ok (n, b')) (hshort : data.length < b.writableBytes) :
    b'.readerIndex_ = b.readerIndex_ ∧ b'.writerIndex_ = b.writerIndex_ + data.length ∧
      b'.buffer_.length = b.buffer_.length := by
  obtain ⟨_, hfits, v, hv, hrest⟩ := readFd_eq_ok hread
  rw [if_pos hshort] at hrest
  have hlength := Windows.length_splice hfits
  rw [hv] at hlength
  rw [hrest]
  exact ⟨rfl, rfl, hlength⟩

theorem run_readFd_new (data : List UInt8) (hlen : data.length < kInitialSize) :
    ∃ b, Run step new [.readFd (.received data)] b ∧ b.readable = data ∧
      b.readerIndex_ = kCheapPrepend ∧ b.writerIndex_ = kCheapPrepend + data.length ∧
      b.buffer_.length = kInitialSize + kCheapPrepend := by
  have hwritable : new.writableBytes = kInitialSize := by
    rw [writableBytes, length_buffer_new]
    rfl
  have hoffered : data.length ≤ new.offered := by
    rw [offered, hwritable, if_pos (by decide)]
    omega
  have hsize : new.buffer_.length + (data.length - new.writableBytes) ≤ vectorMaxSize := by
    rw [length_buffer_new, hwritable, Nat.sub_eq_zero_of_le (Nat.le_of_lt hlen)]
    decide
  obtain ⟨b, hb⟩ := readFd_returns new_wf hsize
  have hstep : step new (.readFd (.received data)) = some b := by
    have hlegal : (BufferCall.readFd (.received data)).Legal new := hoffered
    rw [step, if_pos hlegal, BufferCall.run_readFd_eq_ok.mpr ⟨_, hb⟩]
    rfl
  have hreadable := (readFd_spec new_wf hb).2.2
  rw [readable_new, hwritable, List.take_of_length_le (Nat.le_of_lt hlen), List.nil_append]
    at hreadable
  have hindices := readFd_short hb (hwritable ▸ hlen)
  exact ⟨b, Run.one hstep, hreadable, hindices.1, hindices.2.1,
    hindices.2.2.trans length_buffer_new⟩

/-- **Indices and space.**  After any calls on a default-constructed `Buffer` the indices are
    in order and inside the vector; `ensureWritableBytes(len)` that returns leaves `len` bytes
    to write and the readable bytes as they were; and whatever call comes next copies inside
    the vector, does not return only when `resize` throws, and returns when it asks for no
    more than a vector holds. -/
theorem buffer_space_invariant {b : Buffer} {calls : List BufferCall}
    (hrun : Run step new calls b) :
    (kCheapPrepend ≤ b.readerIndex_ ∧ b.readerIndex_ ≤ b.writerIndex_ ∧
      b.writerIndex_ ≤ b.buffer_.length) ∧
    (∀ len b', b.Sized len → b.ensureWritableBytes len = .ok b' →
      len ≤ b'.writableBytes ∧ b'.readable = b.readable) ∧
    ∀ call : BufferCall, call.Legal b →
      (∀ copy ∈ call.copies b, copy.Inside) ∧
      (∀ fault, call.run b = .error fault → fault = .lengthError) ∧
      (call.Fits b → ∃ b', call.run b = .ok b') := by
  have hwf := run_wf hrun
  refine ⟨⟨hwf.prepend_le, hwf.reader_le, hwf.writer_le⟩, ?_, ?_⟩
  · intro len b' hsized hensure
    obtain ⟨_, hreadable, hroom⟩ := ensureWritableBytes_spec hwf hsized.1 hsized.2 hensure
    exact ⟨hroom, hreadable⟩
  · intro call hlegal
    exact ⟨BufferCall.copies_inside hwf hlegal, fun fault => BufferCall.fault_of_run hwf hlegal,
      BufferCall.run_returns hwf⟩

/-- Two bytes are read and one is retrieved; room for 1023 bytes is then made by moving the
    other one, from 9 to 8. -/
theorem buffer_space_invariant_compaction :
    ∃ b, Run step new [.readFd (.received [97, 98]), .retrieve 1] b ∧ b.readable = [98] ∧
      (kCheapPrepend ≤ b.readerIndex_ ∧ b.readerIndex_ ≤ b.writerIndex_ ∧
        b.writerIndex_ ≤ b.buffer_.length) ∧
      (BufferCall.ensureWritableBytes 1023).copies b = [⟨some 9, some 8, 1, 1032⟩] ∧
      (∀ copy ∈ (BufferCall.ensureWritableBytes 1023).copies b, copy.Inside) ∧
      ∃ b', b.ensureWritableBytes 1023 = .ok b' ∧ 1023 ≤ b'.writableBytes ∧
        b'.readable = [98] := by
  obtain ⟨b, hrun, hreadable, hreader, hwriter, hlength⟩ := run_readFd_new [97, 98] (by decide)
  have hwf := run_wf hrun
  have hsome : 1 < b.readableBytes := by
    rw [← hwf.length_readable, hreadable]
    decide
  have hretrieve : b.retrieve 1 = ⟨b.buffer_, 9, 10⟩ := by
    rw [retrieve, if_pos hsome, hreader, hwriter]
    rfl
  have hstep : step b (.retrieve 1) = some (b.retrieve 1) :=
    if_pos (by decide : 1 < sizeModulus)
  have hboth := hrun.append (Run.one hstep)
  have hleft : (b.retrieve 1).readable = [98] := by
    rw [readable_retrieve hwf, hreadable]
    rfl
  obtain ⟨hindices, hspace, hcalls⟩ := buffer_space_invariant hboth
  have hsized : (b.retrieve 1).Sized 1023 := by
    rw [hretrieve]
    exact (by decide : 1023 + kCheapPrepend < sizeModulus ∧ 10 + 1023 < sizeModulus)
  obtain ⟨hinside, _, hreturns⟩ := hcalls (.ensureWritableBytes 1023) hsized
  have hfits : (BufferCall.ensureWritableBytes 1023).Fits (b.retrieve 1) := by
    rw [hretrieve]
    exact (by decide : 10 + 1023 ≤ vectorMaxSize)
  obtain ⟨b', hb'⟩ := hreturns hfits
  obtain ⟨hroom, hkept⟩ := hspace 1023 b' hsized hb'
  refine ⟨_, hboth, hleft, hindices, ?_, hinside, b', hb', hroom, hkept.trans hleft⟩
  -- 1022 bytes are free behind the other byte, and 9 before it
  have hshort : (b.retrieve 1).writableBytes < 1023 := by
    rw [hretrieve, writableBytes, hlength]
    exact (by decide : kInitialSize + kCheapPrepend - 10 < 1023)
  have hcompacts : ¬ ((b.retrieve 1).writableBytes + (b.retrieve 1).prependableBytes)
      % sizeModulus < (1023 + kCheapPrepend) % sizeModulus := by
    rw [hretrieve, writableBytes, prependableBytes, hlength]
    exact (by decide : ¬ (kInitialSize + kCheapPrepend - 10 + 9) % sizeModulus
      < (1023 + kCheapPrepend) % sizeModulus)
  rw [BufferCall.copies, BufferCall.perform, Copying.ensureWritableBytes, if_pos hshort,
    makeSpace_copies, if_neg hcompacts]
  have hone : (Windows.window (b.retrieve 1).buffer_ (b.retrieve 1).readerIndex_
      (b.retrieve 1).writerIndex_).length = 1 := congrArg List.length hleft
  rw [hone, hretrieve, hlength]
  rfl

end Buffer

end Muduo
