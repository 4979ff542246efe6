import Muduo.Numerals
import Muduo.TimerDeadline
import Muduo.TimerQueue

/-!
# `Timestamp::toString`

Seconds and microseconds with a dot between them.  Division truncates, so before the epoch
both have a sign, or only the second has one: `-1` is printed as `0.-00001`.  The text
still tells all time stamps apart, and fits into the buffer of `snprintf`.
-/

namespace Muduo

open Numerals detail

namespace Timestamp

/-- `sizeof(buf)` in `toString`; one place is for the null character. -/
def bufSize : Nat := 32

/-- `"%" PRId64 ".%06" PRId64`. -/
def format (seconds microSecond : Int) : List Char :=
  signed 0 seconds ++ '.' :: signed 6 microSecond

def toString (t : Timestamp) : String :=
  let seconds := Int.tdiv t kMicroSecondsPerSecond
  let microSecond := Int.tmod t kMicroSecondsPerSecond
  String.ofList ((format seconds microSecond).take (bufSize - 1))

example : format (Int.tdiv (-1) kMicroSecondsPerSecond) (Int.tmod (-1) kMicroSecondsPerSecond) =
    ['0', '.', '-', '0', '0', '0', '0', '1'] := by decide

theorem format_injective {seconds microSecond seconds' microSecond' : Int}
    (h : format seconds microSecond = format seconds' microSecond') :
    seconds = seconds' ∧ microSecond = microSecond' := by
  have hspan : ∀ (d : Int) (rest : List Char),
      spanWhile (fun c => c.isDigit || c == '-') (signed 0 d ++ '.' :: rest) =
        (signed 0 d, '.' :: rest) := by
    intro d rest
    apply spanWhile_append _ (stopsAt_cons rfl)
    intro c hc
    simpa using mem_signed hc
  have hparts := congrArg (spanWhile fun c => c.isDigit || c == '-') h
  rw [format, format, hspan, hspan, Prod.mk.injEq] at hparts
  exact ⟨signed_injective hparts.1, signed_injective (List.cons.inj hparts.2).2⟩

/-- The two parts of a time stamp have at most 13 and 6 digits. -/
theorem length_format_le {t : Timestamp} (h : IsInt64 t) :
    (format (Int.tdiv t kMicroSecondsPerSecond) (Int.tmod t kMicroSecondsPerSecond)).length ≤
      22 := by
  obtain ⟨hlow, hhigh⟩ := h
  have habs : t.natAbs ≤ 2 ^ 63 := by omega
  have hseconds : (Int.tdiv t kMicroSecondsPerSecond).natAbs < 10 ^ 13 := by
    rw [Int.natAbs_tdiv]
    show t.natAbs / 1000000 < 10 ^ 13
    omega
  have hmicros : (Int.tmod t kMicroSecondsPerSecond).natAbs < 10 ^ 6 := by
    rw [Int.natAbs_tmod]
    show t.natAbs % 1000000 < 10 ^ 6
    omega
  have hfirst : (signed 0 (Int.tdiv t kMicroSecondsPerSecond)).length ≤ max 0 (13 + 1) :=
    length_signed_le (by decide) hseconds
  have hsecond : (signed 6 (Int.tmod t kMicroSecondsPerSecond)).length ≤ max 6 (6 + 1) :=
    length_signed_le (by decide) hmicros
  rw [format, List.length_append, List.length_cons]
  omega

theorem toString_toList {t : Timestamp} (h : IsInt64 t) : (toString t).toList =
    format (Int.tdiv t kMicroSecondsPerSecond) (Int.tmod t kMicroSecondsPerSecond) := by
  have hlength := length_format_le h
  rw [toString, String.toList_ofList, List.take_of_length_le]
  unfold bufSize
  omega

/-- **The text of a time stamp is its own.**  For all values of an `int64_t`, also negative
    ones, `toString` is not cut off by its buffer, and different time stamps have different
    texts. -/
theorem timestamp_text_injective {s t : Timestamp} (hs : IsInt64 s) (ht : IsInt64 t) :
    (toString s).length ≤ 22 ∧ (toString s = toString t ↔ s = t) := by
  constructor
  · rw [← String.length_toList, toString_toList hs]
    exact length_format_le hs
  · refine ⟨fun htext => ?_, congrArg _⟩
    have hlists := congrArg String.toList htext
    rw [toString_toList hs, toString_toList ht] at hlists
    obtain ⟨hseconds, hmicros⟩ := format_injective hlists
    have hsplit : ∀ k : Int, kMicroSecondsPerSecond * Int.tdiv k kMicroSecondsPerSecond +
        Int.tmod k kMicroSecondsPerSecond = k := fun k => Int.mul_tdiv_add_tmod ..
    calc s = kMicroSecondsPerSecond * Int.tdiv s kMicroSecondsPerSecond +
          Int.tmod s kMicroSecondsPerSecond := (hsplit s).symm
      _ = kMicroSecondsPerSecond * Int.tdiv t kMicroSecondsPerSecond +
          Int.tmod t kMicroSecondsPerSecond := by rw [hseconds, hmicros]
      _ = t := hsplit t

/-- One microsecond before the epoch and one after it. -/
theorem timestamp_text_injective_signs :
    (toString (-1)).length ≤ 22 ∧ (toString (-1) = toString 1 ↔ (-1 : Int) = 1) :=
  timestamp_text_injective (by decide) (by decide)

end Timestamp

end Muduo
