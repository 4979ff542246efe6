import Muduo.BufferBounds

/-!
# How large a buffer gets

The vector of a `Buffer` only grows, and `retrieve` gives nothing back.  `makeSpace` takes
new space when the free space on both sides of the readable bytes is short of what is asked
for, so what it allocates is paid by the readable bytes and by the call itself: the size is
bounded by the most that was ever readable, whatever the number of calls.
-/

namespace Muduo

open Transitions

namespace Buffer

/-- The vector keeps its size, or is made to end with `len` bytes behind the writer index,
    when there was no room for them on both sides. -/
def GrownBy (b : Buffer) (len : Nat) (b' : Buffer) : Prop :=
  b'.buffer_.length = b.buffer_.length ∨
    (b'.buffer_.length = b.writerIndex_ + len ∧ b.readerIndex_ < len + kCheapPrepend)

theorem GrownBy.length_le {b b' : Buffer} {len : Nat} (h : b.GrownBy len b') :
    b'.buffer_.length ≤ max b.buffer_.length (b.writerIndex_ + len) := by
  rcases h with hsame | ⟨hgrown, _⟩
  · omega
  · omega

theorem GrownBy.footprint {b b' : Buffer} {len : Nat} (hwf : b.WF) (h : b.GrownBy len b') :
    b'.buffer_.length ≤
      max b.buffer_.length (b.readableBytes + 2 * len + kCheapPrepend) := by
  have hreader := hwf.reader_le
  rcases h with hsame | ⟨hgrown, hroom⟩
  · omega
  · unfold readableBytes
    omega

theorem ensureWritableBytes_grown {b b' : Buffer} {len : Nat} (h : b.WF) (hsized : b.Sized len)
    (hensure : b.ensureWritableBytes len = .ok b') : b.GrownBy len b' := by
  have hsize := h.size_le
  have hwriter := h.writer_le
  have hsum : b.writableBytes + b.prependableBytes < sizeModulus := by
    have hreader := h.reader_le
    unfold writableBytes prependableBytes vectorMaxSize sizeModulus at *
    omega
  rw [ensureWritableBytes_eq] at hensure
  split at hensure
  · rw [makeSpace_eq_ok, Nat.mod_eq_of_lt hsum, Nat.mod_eq_of_lt hsized.1,
      Nat.mod_eq_of_lt hsized.2] at hensure
    split at hensure
    · rename_i hroom
      obtain ⟨_, rfl⟩ := hensure
      refine Or.inr ⟨Windows.length_resized .., ?_⟩
      unfold prependableBytes at hroom
      omega
    · obtain ⟨hfits, rfl⟩ := hensure
      exact Or.inl (Windows.length_splice hfits)
  · cases hensure
    exact Or.inl rfl

/-- An `append` that returned copied inside the vector, so its sums did not wrap. -/
theorem append_grown {b b' : Buffer} {data : List UInt8} (h : b.WF)
    (happend : b.append data = .ok b') : b.GrownBy data.length b' := by
  obtain ⟨c, hc, hfits, rfl⟩ := append_eq_ok.mp happend
  have hdata : data.length ≤ vectorMaxSize := by
    have hmax := ensureWritableBytes_length_le h hc
    omega
  have hgrown := ensureWritableBytes_grown h (h.sums_lt hdata) hc
  have hsame := Windows.length_splice hfits
  unfold GrownBy
  rw [hsame]
  exact hgrown

/-- What `readFd` appends is what the kernel put into `extrabuf`. -/
theorem readFd_grown {b b' : Buffer} {data : List UInt8} {n : Int} (h : b.WF)
    (hread : b.readFd (.received data) = .ok (n, b')) :
    b'.buffer_.length = b.buffer_.length ∨
      ∃ c : Buffer, c.WF ∧ c.buffer_.length = b.buffer_.length ∧
        c.writerIndex_ = b.buffer_.length ∧ c.readable = b'.readable ∧
        c.GrownBy (data.length - b.writableBytes) b' := by
  obtain ⟨_, hfits, v, rfl, hrest⟩ := readFd_eq_ok hread
  have hsame := Windows.length_splice hfits
  by_cases hshort : data.length < b.writableBytes
  · rw [if_pos hshort] at hrest
    subst hrest
    exact Or.inl hsame
  · rw [if_neg hshort] at hrest
    have hfull := (h.spliced hfits).full
    have hgrown := append_grown hfull hrest
    rw [List.length_drop] at hgrown
    exact Or.inr ⟨_, hfull, hsame, hsame, (append_spec hfull hrest).2.symm, hgrown⟩

end Buffer

namespace BufferCall

/-- The most bytes that a call asks `ensureWritableBytes` for. -/
def demand : BufferCall → Nat
  | append data => data.length
  | ensureWritableBytes len => len
  | readFd _ => Buffer.extrabufSize
  | retrieve _ | retrieveAll => 0

/-- What a call leaves as the vector's size is paid by the size before, the readable bytes
    before or after it, and its demand. -/
theorem footprint {b b' : Buffer} {call : BufferCall} {most : Nat} (h : b.WF)
    (hlegal : call.Legal b) (hrun : call.run b = .ok b') (hbefore : b.readableBytes ≤ most)
    (hafter : b'.readableBytes ≤ most) :
    b'.buffer_.length ≤
      max b.buffer_.length (most + 2 * call.demand + Buffer.kCheapPrepend) := by
  cases call with
  | append data =>
    have hgrown := (Buffer.append_grown h hrun).footprint h
    simp only [demand]
    omega
  | ensureWritableBytes len =>
    have hgrown := (Buffer.ensureWritableBytes_grown h hlegal hrun).footprint h
    simp only [demand]
    omega
  | readFd result =>
    obtain ⟨n, hread⟩ := run_readFd_eq_ok.mp hrun
    cases result with
    | failed errno =>
      cases hread
      exact Nat.le_max_left ..
    | received data =>
      rcases Buffer.readFd_grown h hread with hsame | ⟨c, hc, hsame, _, hreadable, hgrown⟩
      · rw [hsame]
        exact Nat.le_max_left ..
      · have hwf := (Buffer.readFd_spec h hread).2.1
        have hbytes : c.readableBytes = b'.readableBytes := by
          rw [← hc.length_readable, ← hwf.length_readable, hreadable]
        have hspill : data.length - b.writableBytes ≤ Buffer.extrabufSize := by
          have hoffered : data.length ≤ b.offered := hlegal
          unfold Buffer.offered at hoffered
          split at hoffered <;> omega
        have hfootprint := hgrown.footprint hc
        simp only [demand]
        omega
  | retrieve len =>
    cases hrun
    have hsame : (b.retrieve len).buffer_ = b.buffer_ := by
      unfold Buffer.retrieve
      split <;> rfl
    rw [hsame]
    exact Nat.le_max_left ..
  | retrieveAll =>
    cases hrun
    exact Nat.le_max_left ..

end BufferCall

namespace Buffer

/-- **A buffer is as large as what was left unread.**  In every run in which at most `most`
    bytes are ever readable and no call asks for more than `demand` at a time, the vector
    never exceeds its initial size, or `most` and twice `demand` with the prepend area. -/
theorem buffer_footprint (most demand : Nat) (calls : List BufferCall)
    (hreadable : Always step (fun b => b.readableBytes ≤ most) new calls)
    (hdemand : ∀ call ∈ calls, call.demand ≤ demand) :
    Always step (fun b => b.buffer_.length ≤
      max (kInitialSize + kCheapPrepend) (most + 2 * demand + kCheapPrepend)) new calls := by
  have halong : Along step (fun b call => b.readableBytes ≤ most ∧ call.demand ≤ demand ∧
      ∀ b', step b call = some b' → b'.readableBytes ≤ most) new calls := by
    intro pre call post b hcalls hrun
    refine ⟨hreadable pre (call :: post) b hcalls hrun, ?_, ?_⟩
    · exact hdemand call (hcalls ▸ List.mem_append_right _ (List.mem_cons_self ..))
    · intro b' hstep
      apply hreadable (pre ++ [call]) post b' (by simp [hcalls])
      exact hrun.append (Run.one hstep)
  have hinv := always_of_along (I := fun b => b.WF ∧ b.buffer_.length ≤
      max (kInitialSize + kCheapPrepend) (most + 2 * demand + kCheapPrepend)) ?_
    ⟨new_wf, by rw [length_buffer_new]; exact Nat.le_max_left ..⟩ halong
  · exact hinv.mono fun b h => h.2
  · rintro b call b' ⟨hwf, hbound⟩ ⟨hbefore, hcall, hafter⟩ hstep
    refine ⟨step_wf hwf hstep, ?_⟩
    have hnext := hafter b' hstep
    rw [step, Option.ite_none_right_eq_some] at hstep
    have hsize := BufferCall.footprint hwf hstep.1 (returned_eq_some.mp hstep.2) hbefore hnext
    omega

/-- Nothing becomes readable by an `append`, however long. -/
theorem buffer_footprint_long_append :
    Always step (fun b => b.buffer_.length ≤ 4008) new [.append (List.replicate 2000 97)] := by
  apply buffer_footprint 0 2000
  · intro pre post b hcalls hrun
    have hwf := run_wf hrun
    rw [← hwf.length_readable]
    cases pre with
    | nil =>
      cases hrun.eq_of_nil
      exact Nat.le_of_eq (congrArg List.length readable_new)
    | cons call pre =>
      obtain ⟨rfl, hpre⟩ := List.cons.inj hcalls
      obtain ⟨rfl, _⟩ := List.append_eq_nil_iff.mp hpre.symm
      have hstep := hrun.step_of_one
      rw [step, Option.ite_none_right_eq_some, BufferCall.run_append] at hstep
      rw [(append_spec new_wf (returned_eq_some.mp hstep.2)).2, readable_new]
      exact Nat.le_refl 0
  · intro call hcall
    rw [List.mem_singleton.mp hcall]
    exact Nat.le_of_eq List.length_replicate

end Buffer

end Muduo
