import Muduo.BufferBounds

/-!
# Retrieving more than there is

`retrieve(len)` takes all readable bytes when `len` is not less than their number, and so does
`retrieveUntil`.  `retrieveAsString(len)` makes its string of `len` bytes from `peek()` on,
whatever `len` is, and leaves the rest to `retrieve`.
-/

namespace Muduo

open Transitions

namespace Buffer

/-- The three ways of retrieving `len` bytes take the same ones, and the string holds exactly
    these. -/
structure Conserves (b : Buffer) (len : Nat) : Prop where
  string : b.retrieveAsString len =
    .ok (b.readable.take (min len b.readableBytes), b.retrieve len)
  /-- What is read from the vector lies between the indices. -/
  inside : ∀ copy ∈ (Copying.retrieveAsString b len).copies, ∀ source,
    copy.source = some source → b.readerIndex_ ≤ source ∧ source + copy.len ≤ b.writerIndex_
  rest : (b.retrieve len).readable = b.readable.drop (min len b.readableBytes)
  /-- The difference of two pointers is signed. -/
  pointer : b.retrieveUntil ((len : Int).bmod sizeModulus) = b.retrieve len

theorem retrieveUntil_eq (b : Buffer) {len : Nat} (hlen : len < sizeModulus) :
    b.retrieveUntil ((len : Int).bmod sizeModulus) = b.retrieve len := by
  have hsize : toSizeT ((len : Int).bmod sizeModulus) = len := by
    have hmod : (len : Int).bmod sizeModulus % sizeModulus = len % sizeModulus := Int.bmod_emod
    unfold toSizeT
    unfold sizeModulus at *
    omega
  rw [retrieveUntil, hsize]

/-- `retrieve` stops at the readable bytes. -/
theorem WF.readable_retrieve_min {b : Buffer} (h : b.WF) (len : Nat) :
    (b.retrieve len).readable = b.readable.drop (min len b.readableBytes) := by
  rw [readable_retrieve h]
  rcases Nat.le_total len b.readableBytes with hle | hge
  · rw [Nat.min_eq_left hle]
  · rw [Nat.min_eq_right hge, ← h.length_readable, List.drop_length,
      List.drop_eq_nil_of_le (h.length_readable.symm ▸ hge)]

/-- A string that is returned has `len` bytes. -/
theorem length_retrieveAsString {b b' : Buffer} {len : Nat} {str : List UInt8}
    (h : b.retrieveAsString len = .ok (str, b')) : str.length = len := by
  rw [retrieveAsString_def] at h
  split at h
  · rename_i hinside
    cases h
    rw [Windows.length_window hinside, Nat.add_sub_cancel_left]
  · cases h

/-- The string is made of one range of the vector. -/
theorem retrieveAsString_copies (b : Buffer) (len : Nat) :
    (Copying.retrieveAsString b len).copies =
      [⟨some b.readerIndex_, none, len, b.buffer_.length⟩] := by
  simp [Copying.retrieveAsString, Copying.copyOut]

theorem WF.conserves {b : Buffer} {len : Nat} (h : b.WF) (hlen : len < sizeModulus)
    (hreadable : len ≤ b.readableBytes) : b.Conserves len where
  string := by
    rw [retrieveAsString_eq h hreadable, Nat.min_eq_left hreadable]
  inside copy hcopy source hsource := by
    rw [retrieveAsString_copies, List.mem_singleton] at hcopy
    subst hcopy
    cases hsource
    have hreader := h.reader_le
    unfold readableBytes at hreadable
    exact ⟨le_rfl, by simp only; omega⟩
  rest := h.readable_retrieve_min len
  pointer := b.retrieveUntil_eq hlen

/-- **When retrieval conserves bytes.**  In every state that calls on a default-constructed
    `Buffer` lead to, exactly for the `len` that are no more than `readableBytes()`. -/
theorem retrieval_conserves_iff {b : Buffer} {calls : List BufferCall}
    (hrun : Run step new calls b) (len : Nat) (hlen : len < sizeModulus) :
    b.Conserves len ↔ len ≤ b.readableBytes := by
  have hwf := run_wf hrun
  constructor
  · intro h
    have hlength := length_retrieveAsString h.string
    rw [List.length_take, hwf.length_readable] at hlength
    omega
  · exact hwf.conserves hlen

theorem retrieval_conserves_iff_one_byte :
    ∃ b, Run step new [.readFd (.received [97])] b ∧ b.readable = [97] ∧ b.Conserves 1 := by
  obtain ⟨b, hrun, hreadable, _⟩ := run_readFd_new [97] (by decide)
  refine ⟨b, hrun, hreadable, ?_⟩
  rw [retrieval_conserves_iff hrun 1 (by decide), ← (run_wf hrun).length_readable, hreadable]
  decide

theorem retrieve_new (len : Nat) : new.retrieve len = new := by
  have hnone : ¬ len < new.readableBytes := Nat.not_lt_zero len
  rw [retrieve, if_neg hnone]
  rfl

/-- Nothing has been read, and a string of one byte is returned; a longer one is read from
    behind the vector. -/
theorem string_from_empty_buffer :
    Run step new [] new ∧ new.readable = [] ∧
      (∃ str, new.retrieveAsString 1 = .ok (str, new) ∧ str.length = 1) ∧
      new.retrieveAsString 2000 = .error .outOfBounds ∧ ¬ new.Conserves 1 := by
  refine ⟨Run.refl new, readable_new, ?_, ?_, ?_⟩
  · have hinside : new.readerIndex_ + 1 ≤ new.buffer_.length := by
      rw [length_buffer_new]
      decide
    have hstring : new.retrieveAsString 1 =
        .ok (Windows.window new.buffer_ new.readerIndex_ (new.readerIndex_ + 1), new) := by
      rw [retrieveAsString_def, if_pos hinside, retrieve_new]
    exact ⟨_, hstring, length_retrieveAsString hstring⟩
  · rw [retrieveAsString_def, if_neg]
    rw [length_buffer_new]
    decide
  · intro h
    have hcopy := List.mem_singleton_self
      (⟨some new.readerIndex_, none, 1, new.buffer_.length⟩ : BufferCopy)
    rw [← retrieveAsString_copies] at hcopy
    have hinside := (h.inside _ hcopy _ rfl).2
    revert hinside
    decide

end Buffer

end Muduo
