import Mathlib.Algebra.Ring.Nat
import Mathlib.Data.List.Basic
import Mathlib.Data.Nat.Basic
import Mathlib.Tactic.Common

/-!
# Decimal numerals in a text

What is printed in decimal is read back up to the first character that is no digit, and a
numeral that does not stand for zero does not begin with one.  Padding with zeros and a
sign keep numerals apart.
-/

namespace Numerals

/-- The digits in front of a text, and the rest. -/
def spanWhile (p : Char → Bool) (s : List Char) : List Char × List Char :=
  (s.takeWhile p, s.dropWhile p)

/-- The text does not go on with a character of `p`. -/
def StopsAt (p : Char → Bool) (s : List Char) : Prop := ∀ c ∈ s.head?, p c = false

theorem stopsAt_nil (p : Char → Bool) : StopsAt p [] := by
  intro c hc
  cases hc

theorem stopsAt_cons {p : Char → Bool} {c : Char} {s : List Char} (h : p c = false) :
    StopsAt p (c :: s) := by
  intro c' hc'
  cases hc'
  exact h

theorem spanWhile_append {p : Char → Bool} {l s : List Char} (hl : ∀ c ∈ l, p c = true)
    (hs : StopsAt p s) : spanWhile p (l ++ s) = (l, s) := by
  have hstop : s.takeWhile p = [] ∧ s.dropWhile p = s := by
    cases s with
    | nil => exact ⟨rfl, rfl⟩
    | cons c s =>
      have hc : p c = false := hs c rfl
      simp [hc]
  rw [spanWhile, List.takeWhile_append_of_pos hl, List.dropWhile_append_of_pos hl, hstop.1,
    hstop.2, List.append_nil]

/-- A separator that does not occur after itself can be found from the end. -/
theorem append_cons_injective {p : Char → Bool} {c : Char} {s s' l l' : List Char}
    (hc : p c = false) (hl : ∀ x ∈ l, p x = true) (hl' : ∀ x ∈ l', p x = true)
    (h : s ++ c :: l = s' ++ c :: l') : s = s' ∧ l = l' := by
  have hspan : ∀ t m : List Char, (∀ x ∈ m, p x = true) →
      spanWhile p (t ++ c :: m).reverse = (m.reverse, c :: t.reverse) := by
    intro t m hm
    rw [List.reverse_append, List.reverse_cons, List.append_assoc, List.singleton_append]
    exact spanWhile_append (fun x hx => hm x (List.mem_reverse.mp hx)) (stopsAt_cons hc)
  have hparts := congrArg (spanWhile p) (congrArg List.reverse h)
  rw [hspan s l hl, hspan s' l' hl', Prod.mk.injEq] at hparts
  exact ⟨List.reverse_injective (List.cons.inj hparts.2).2, List.reverse_injective hparts.1⟩

/-- The decimal digits of a number. -/
def decimal (n : Nat) : List Char := Nat.toDigits 10 n

theorem decimal_isDigit {n : Nat} {c : Char} (h : c ∈ decimal n) : c.isDigit = true :=
  Nat.isDigit_of_mem_toDigits (by decide) (by decide) h

theorem decimal_ne_nil (n : Nat) : decimal n ≠ [] := Nat.toDigits_ne_nil

theorem ofDigitChars_decimal (n : Nat) : Nat.ofDigitChars 10 (decimal n) 0 = n :=
  Nat.ofDigitChars_ten_toDigits

theorem decimal_injective {m n : Nat} (h : decimal m = decimal n) : m = n := by
  rw [← ofDigitChars_decimal m, h, ofDigitChars_decimal]

theorem length_decimal_le {n k : Nat} (hk : 0 < k) (h : n < 10 ^ k) : (decimal n).length ≤ k :=
  (Nat.length_toDigits_le_iff (by decide) hk).mpr h

theorem spanWhile_decimal {s : List Char} (n : Nat) (hs : StopsAt Char.isDigit s) :
    spanWhile Char.isDigit (decimal n ++ s) = (decimal n, s) :=
  spanWhile_append (fun _ hc => decimal_isDigit hc) hs

/-- Only the numeral of zero begins with a zero. -/
theorem decimal_head {n : Nat} (hn : 0 < n) : ∃ c l, decimal n = c :: l ∧ c ≠ '0' := by
  induction n using Nat.strongRecOn with
  | ind n ih =>
    by_cases hsmall : n < 10
    · refine ⟨n.digitChar, [], Nat.toDigits_of_lt_base hsmall, ?_⟩
      intro hzero
      have hvalue := Nat.toNat_digitChar_sub_48_of_lt_ten hsmall
      rw [hzero] at hvalue
      exact absurd hvalue.symm (Nat.pos_iff_ne_zero.mp hn)
    · obtain ⟨c, l, hdigits, hc⟩ := ih (n / 10) (by omega) (by omega)
      refine ⟨c, l ++ [(n % 10).digitChar], ?_, hc⟩
      rw [decimal, Nat.toDigits_of_base_le (by decide) (by omega), ← decimal, hdigits]
      rfl

/-! ### Signs and padding -/

/-- Zeros in front up to a width. -/
def zeroPad (width : Nat) (l : List Char) : List Char :=
  List.replicate (width - l.length) '0' ++ l

theorem ofDigitChars_zeroPad (width n : Nat) :
    Nat.ofDigitChars 10 (zeroPad width (decimal n)) 0 = n := by
  rw [zeroPad, Nat.ofDigitChars_append, Nat.ofDigitChars_replicate_zero, Nat.mul_zero,
    ofDigitChars_decimal]

theorem zeroPad_isDigit {width n : Nat} {c : Char} (h : c ∈ zeroPad width (decimal n)) :
    c.isDigit = true := by
  rcases List.mem_append.mp h with hzero | hdigit
  · rw [List.eq_of_mem_replicate hzero]
    rfl
  · exact decimal_isDigit hdigit

theorem length_zeroPad (width : Nat) (l : List Char) :
    (zeroPad width l).length = max width l.length := by
  rw [zeroPad, List.length_append, List.length_replicate]
  omega

/-- `%0*d`: the sign counts for the width. -/
def signed (width : Nat) (d : Int) : List Char :=
  if d < 0 then '-' :: zeroPad (width - 1) (decimal d.natAbs) else zeroPad width (decimal d.natAbs)

theorem mem_signed {width : Nat} {d : Int} {c : Char} (h : c ∈ signed width d) :
    c.isDigit = true ∨ c = '-' := by
  rw [signed] at h
  split at h
  · rcases List.mem_cons.mp h with hsign | hdigit
    · exact Or.inr hsign
    · exact Or.inl (zeroPad_isDigit hdigit)
  · exact Or.inl (zeroPad_isDigit h)

theorem sign_not_mem_zeroPad (width n : Nat) : '-' ∉ zeroPad width (decimal n) := by
  intro hsign
  have hdigit := zeroPad_isDigit hsign
  cases hdigit

theorem signed_injective {width : Nat} {d e : Int} (h : signed width d = signed width e) :
    d = e := by
  have hvalue : ∀ w m n, zeroPad w (decimal m) = zeroPad w (decimal n) → m = n := by
    intro w m n hpad
    rw [← ofDigitChars_zeroPad w m, hpad, ofDigitChars_zeroPad]
  simp only [signed] at h
  split at h
  · split at h
    · have habs := hvalue _ _ _ (List.cons.inj h).2
      omega
    · exact absurd (h ▸ List.mem_cons_self ..) (sign_not_mem_zeroPad width e.natAbs)
  · split at h
    · exact absurd (h ▸ List.mem_cons_self ..) (sign_not_mem_zeroPad width d.natAbs)
    · have habs := hvalue _ _ _ h
      omega

theorem length_signed_le {width k : Nat} {d : Int} (hk : 0 < k) (h : d.natAbs < 10 ^ k) :
    (signed width d).length ≤ max width (k + 1) := by
  have hdigits := length_decimal_le hk h
  rw [signed]
  split
  · rw [List.length_cons, length_zeroPad]
    omega
  · rw [length_zeroPad]
    omega

/-- The text of an integer is its numeral without padding. -/
theorem toList_toString (d : Int) : (toString d).toList = signed 0 d := by
  have hrepr : ∀ m : Nat, (Nat.repr m).toList = decimal m := fun m => String.toList_ofList
  cases d with
  | ofNat m => simp [toString, Int.repr, signed, zeroPad, hrepr]
  | negSucc m => simp [toString, Int.repr, signed, zeroPad, hrepr, Int.negSucc_lt_zero]

theorem toString_inj {d e : Int} : toString d = toString e ↔ d = e := by
  rw [← String.toList_inj, toList_toString, toList_toString]
  exact ⟨signed_injective, congrArg (signed 0)⟩

end Numerals
