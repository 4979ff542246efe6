import Mathlib.Data.Int.CardIntervalMod

/-!
# Taking turns

A cursor that goes round `n` places, and how often each place has had its turn after a
number of turns.
-/

namespace RoundRobin

/-- The place after `i`. -/
def turn (n i : Nat) : Nat := if n ≤ i + 1 then 0 else i + 1

theorem turn_mod {n : Nat} (hn : 0 < n) (k : Nat) : turn n (k % n) = (k + 1) % n := by
  have hlt : k % n < n := Nat.mod_lt k hn
  rw [turn, ← Nat.mod_add_mod k n 1]
  split
  · next hlast => rw [show k % n + 1 = n by omega, Nat.mod_self]
  · next hinner => exact (Nat.mod_eq_of_lt (by omega)).symm

/-- What holds of the `k`-th of a list's members, told from the list. -/
theorem countP_eq_count {α : Type*} {p : α → Bool} {q : Nat → Prop} [DecidablePred q]
    {xs : List α} (h : ∀ k x, xs[k]? = some x → (p x = true ↔ q k)) :
    xs.countP p = Nat.count q xs.length := by
  induction xs using List.reverseRecOn with
  | nil => rfl
  | append_singleton xs x ih =>
    have hlast : p x = true ↔ q xs.length := h xs.length x (by simp)
    have hrest : xs.countP p = Nat.count q xs.length := by
      apply ih
      intro k y hy
      have hk : k < xs.length := (List.getElem?_eq_some_iff.mp hy).1
      exact h k y (by rw [List.getElem?_append_left hk, hy])
    rw [List.countP_append, List.length_append, List.length_singleton, Nat.count_succ, hrest,
      List.countP_singleton]
    congr 1
    exact if_congr hlast rfl rfl

/-- Of `N` turns each place has had `N / n`, and the first `N % n` places one more. -/
theorem count_turns {n j : Nat} (hj : j < n) (N : Nat) :
    Nat.count (fun k => k % n = j) N = N / n + if j < N % n then 1 else 0 := by
  have hcount := Nat.count_modEq_card N (Nat.zero_lt_of_lt hj) j
  rw [Nat.mod_eq_of_lt hj] at hcount
  rw [← hcount]
  congr 1
  funext k
  rw [Nat.ModEq, Nat.mod_eq_of_lt hj]

end RoundRobin
