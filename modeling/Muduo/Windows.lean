import Mathlib.Data.List.Basic

/-!
# Windows of a vector

`window v i j` is the contiguous part of `v` between two indices.  `splice` writes
a block into a vector and `resized` grows or truncates it.  The lemmas say which
windows a write or a resize leaves alone and which one it fills; a client that
keeps a pair of indices into a vector reasons with them and never about single
positions.
-/

namespace Windows

variable {α : Type*}

/-- The elements of `v` at the indices `i ≤ k < j`. -/
def window (v : List α) (i j : Nat) : List α := (v.drop i).take (j - i)

/-- `v` with the block `data` written from index `pos` on. -/
def splice (v : List α) (pos : Nat) (data : List α) : List α :=
  v.take pos ++ data ++ v.drop (pos + data.length)

/-- `v` with length `n`: truncated, or padded with `fill`. -/
def resized (fill : α) (v : List α) (n : Nat) : List α :=
  v.take n ++ List.replicate (n - v.length) fill

theorem length_window {v : List α} {i j : Nat} (hj : j ≤ v.length) :
    (window v i j).length = j - i := by
  simp only [window, List.length_take, List.length_drop]
  omega

@[simp] theorem window_self (v : List α) (i : Nat) : window v i i = [] := by
  simp [window]

theorem window_append {v : List α} {i j k : Nat} (hij : i ≤ j) (hjk : j ≤ k) :
    window v i j ++ window v j k = window v i k := by
  have hsplit : v.drop j = (v.drop i).drop (j - i) := by
    rw [List.drop_drop]
    congr 1
    omega
  have hlen : k - i = (j - i) + (k - j) := by omega
  rw [window, window, window, hsplit, hlen, List.take_add]

theorem take_window {v : List α} {i j n : Nat} (hn : i + n ≤ j) :
    (window v i j).take n = window v i (i + n) := by
  rw [window, window, List.take_take]
  congr 1
  omega

theorem length_splice {v data : List α} {pos : Nat} (h : pos + data.length ≤ v.length) :
    (splice v pos data).length = v.length := by
  simp only [splice, List.length_append, List.length_take, List.length_drop]
  omega

/-- A write leaves the windows before it alone. -/
theorem window_splice_before {v data : List α} {i j pos : Nat} (hj : j ≤ pos)
    (hpos : pos ≤ v.length) : window (splice v pos data) i j = window v i j := by
  by_cases hij : i ≤ j
  · have htake : (v.take pos).length = pos := by
      rw [List.length_take]
      omega
    have hsmall : j - i ≤ ((v.take pos).drop i).length := by
      rw [List.length_drop, htake]
      omega
    rw [window, window, splice, List.append_assoc,
      List.drop_append_of_le_length (by omega), List.take_append_of_le_length hsmall,
      List.drop_take, List.take_take]
    congr 1
    omega
  · have hzero : j - i = 0 := by omega
    simp [window, hzero]

/-- The window a write fills. -/
theorem window_splice_self {v data : List α} {pos : Nat} (hpos : pos ≤ v.length) :
    window (splice v pos data) pos (pos + data.length) = data := by
  have htake : (v.take pos).length = pos := by
    rw [List.length_take]
    omega
  have hdrop : (v.take pos ++ data ++ v.drop (pos + data.length)).drop pos
      = data ++ v.drop (pos + data.length) := by
    rw [List.append_assoc]
    exact List.drop_left' htake
  rw [window, splice, hdrop, Nat.add_sub_cancel_left]
  exact List.take_left

/-- A write right after a window extends it. -/
theorem window_splice_extend {v data : List α} {i pos : Nat} (hi : i ≤ pos)
    (hpos : pos ≤ v.length) :
    window (splice v pos data) i (pos + data.length) = window v i pos ++ data := by
  calc window (splice v pos data) i (pos + data.length)
      = window (splice v pos data) i pos
          ++ window (splice v pos data) pos (pos + data.length) :=
        (window_append hi (Nat.le_add_right _ _)).symm
    _ = window v i pos ++ data := by
        rw [window_splice_before (Nat.le_refl _) hpos, window_splice_self hpos]

@[simp] theorem length_resized (fill : α) (v : List α) (n : Nat) :
    (resized fill v n).length = n := by
  simp only [resized, List.length_append, List.length_take, List.length_replicate]
  omega

/-- A resize leaves the windows inside both lengths alone. -/
theorem window_resized {fill : α} {v : List α} {i j n : Nat} (hj : j ≤ v.length)
    (hn : j ≤ n) : window (resized fill v n) i j = window v i j := by
  by_cases hij : i ≤ j
  · have hsmall : j - i ≤ ((v.take n).drop i).length := by
      rw [List.length_drop, List.length_take]
      omega
    have hle : i ≤ (v.take n).length := by
      rw [List.length_take]
      omega
    rw [window, window, resized, List.drop_append_of_le_length hle,
      List.take_append_of_le_length hsmall, List.drop_take, List.take_take]
    congr 1
    omega
  · have hzero : j - i = 0 := by omega
    simp [window, hzero]

end Windows
