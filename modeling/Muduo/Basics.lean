import Mathlib.Data.List.Basic
import Mathlib.Data.Nat.Basic
import Mathlib.Algebra.Ring.Int.Defs
import Mathlib.Algebra.Ring.Nat
import Mathlib.Order.Basic
import Mathlib.Tactic.Common

/-!
# Machine integers, system call results and faults

What every module of the model shares.  A `size_t` is a `Nat` and the sums that can
wrap are reduced modulo `sizeModulus`; a signed value converted to `size_t` goes
through `toSizeT`.  A call that does not return normally is an error of `Except
Fault`: an exception nobody in the library catches, a failed `assert`, or an access
the language leaves undefined.
-/

namespace Muduo

/-- Why a call of the library does not return. -/
inductive Fault where
  | lengthError    -- `std::length_error` out of `std::vector::resize`
  | outOfBounds    -- a copy or a read outside the vector
  | assertFailed   -- `assert` aborts
  | dangling       -- a dereference of a freed object
deriving DecidableEq, Repr

/-- Number of values of a `size_t`. -/
def sizeModulus : Nat := 2 ^ 64

/-- Conversion of a signed value to `size_t`. -/
def toSizeT (n : Int) : Nat := (n % (2 ^ 64 : Int)).toNat

theorem toSizeT_cast {n : Int} (hnonneg : 0 ≤ n) (hlt : n < 2 ^ 63) : (toSizeT n : Int) = n := by
  unfold toSizeT
  omega

/-- The `errno` values the library tells apart. -/
inductive Errno where
  | EWOULDBLOCK
  | EPIPE
  | ECONNRESET
  | other (code : Nat)
deriving DecidableEq, Repr

/-- Result of one `write()`: the number of bytes taken, or a failure. -/
inductive WriteResult where
  | wrote (k : Nat)
  | failed (errno : Errno)
deriving DecidableEq, Repr

/-- Result of one `readv()`: the bytes delivered, or a failure. -/
inductive ReadResult where
  | received (data : List UInt8)
  | failed (errno : Errno)
deriving DecidableEq, Repr

/-- A sequence of two calls returns when both do. -/
theorem bind_eq_ok {α β : Type} {x : Except Fault α} {f : α → Except Fault β} {r : β} :
    (x >>= f) = .ok r ↔ ∃ a, x = .ok a ∧ f a = .ok r := by
  cases x with
  | error e => simp [bind, Except.bind]
  | ok a => simp [bind, Except.bind]

theorem bind_eq_error {α β : Type} {x : Except Fault α} {f : α → Except Fault β} {e : Fault} :
    (x >>= f) = .error e ↔ x = .error e ∨ ∃ a, x = .ok a ∧ f a = .error e := by
  cases x with
  | error e => simp [bind, Except.bind]
  | ok a => simp [bind, Except.bind]

/-- The state after a call that returned. -/
def returned {α : Type} : Except Fault α → Option α
  | .ok a => some a
  | .error _ => none

@[simp] theorem returned_eq_some {α : Type} {x : Except Fault α} {a : α} :
    returned x = some a ↔ x = .ok a := by
  cases x <;> simp [returned]

/-- Two traces of the same rounds, one of which never records less, are equal exactly when
    every round records the same in both. -/
theorem flatMap_eq_iff_of_length_le {α β : Type} {f g : α → List β}
    (h : ∀ x, (f x).length ≤ (g x).length) {l : List α} :
    l.flatMap f = l.flatMap g ↔ ∀ x ∈ l, f x = g x := by
  have hlength : ∀ l : List α, (l.flatMap f).length ≤ (l.flatMap g).length := by
    intro l
    induction l with
    | nil => exact Nat.le_refl 0
    | cons x l ih =>
      rw [List.flatMap_cons, List.flatMap_cons, List.length_append, List.length_append]
      exact Nat.add_le_add (h x) ih
  constructor
  · intro heq
    induction l with
    | nil =>
      intro x hx
      cases hx
    | cons x l ih =>
      rw [List.flatMap_cons, List.flatMap_cons] at heq
      have hlengths := congrArg List.length heq
      rw [List.length_append, List.length_append] at hlengths
      have hhead := h x
      have htail := hlength l
      obtain ⟨hx, hl⟩ := List.append_inj heq (by omega)
      rw [List.forall_mem_cons]
      exact ⟨hx, ih hl⟩
  · intro heq
    exact List.flatMap_congr heq

end Muduo
