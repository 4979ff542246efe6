import Mathlib.Order.Basic
import Mathlib.Order.Lattice
import Mathlib.Data.List.Pairwise
import Mathlib.Data.List.Nodup

/-!
# Finite ordered sets as strictly increasing lists

The structure `OrdSet α` is a list together with the proof that it is strictly
increasing, so an element occurs at most once and the first element is the least.
Insertion, erasure and the split at a lower bound are the operations of an ordered
container with unique keys; each has one membership lemma, and callers use only
those.
-/

variable {α : Type*} [LinearOrder α]

/-- A finite set kept in increasing order. -/
structure OrdSet (α : Type*) [LinearOrder α] where
  toList : List α
  sorted : toList.Pairwise (· < ·)

namespace OrdSet

theorem ext_toList {s t : OrdSet α} (h : s.toList = t.toList) : s = t := by
  cases s
  cases t
  simp only at h
  subst h
  rfl

instance : DecidableEq (OrdSet α) := fun s t =>
  decidable_of_iff (s.toList = t.toList) ⟨ext_toList, fun h => h ▸ rfl⟩

instance : Membership α (OrdSet α) := ⟨fun s a => a ∈ s.toList⟩

instance (a : α) (s : OrdSet α) : Decidable (a ∈ s) :=
  inferInstanceAs (Decidable (a ∈ s.toList))

theorem mem_toList {a : α} {s : OrdSet α} : a ∈ s.toList ↔ a ∈ s := Iff.rfl

theorem nodup (s : OrdSet α) : s.toList.Nodup := s.sorted.imp fun h => ne_of_lt h

/-! ### The empty set -/

def empty : OrdSet α := ⟨[], List.Pairwise.nil⟩

@[simp] theorem not_mem_empty (a : α) : a ∉ (empty : OrdSet α) := by
  intro h
  exact List.not_mem_nil h

/-! ### Insertion -/

/-- Insert into an increasing list, leaving it alone when the key is there. -/
def insertSorted (a : α) : List α → List α
  | [] => [a]
  | b :: l => if a < b then a :: b :: l else if a = b then b :: l else b :: insertSorted a l

theorem mem_insertSorted {a b : α} {l : List α} : b ∈ insertSorted a l ↔ b = a ∨ b ∈ l := by
  induction l with
  | nil => simp [insertSorted]
  | cons c l ih =>
    unfold insertSorted
    split
    · simp
    · split
      · rename_i _ hac
        subst hac
        simp
      · simp only [List.mem_cons, ih]
        exact or_left_comm

theorem pairwise_insertSorted {a : α} {l : List α} (h : l.Pairwise (· < ·)) :
    (insertSorted a l).Pairwise (· < ·) := by
  induction l with
  | nil => simp [insertSorted]
  | cons b l ih =>
    obtain ⟨hb, hl⟩ := List.pairwise_cons.mp h
    unfold insertSorted
    split
    · rename_i hab
      refine List.pairwise_cons.mpr ⟨?_, h⟩
      intro c hc
      rcases List.mem_cons.mp hc with rfl | hc
      · exact hab
      · exact hab.trans (hb c hc)
    · split
      · exact h
      · rename_i hab hne
        have hba : b < a := lt_of_le_of_ne (not_lt.mp hab) (fun h => hne h.symm)
        refine List.pairwise_cons.mpr ⟨?_, ih hl⟩
        intro c hc
        rcases mem_insertSorted.mp hc with rfl | hc
        · exact hba
        · exact hb c hc

def insert (s : OrdSet α) (a : α) : OrdSet α :=
  ⟨insertSorted a s.toList, pairwise_insertSorted s.sorted⟩

@[simp] theorem mem_insert {s : OrdSet α} {a b : α} : b ∈ s.insert a ↔ b = a ∨ b ∈ s :=
  mem_insertSorted

/-! ### Erasure -/

def erase (s : OrdSet α) (a : α) : OrdSet α :=
  ⟨s.toList.filter (fun b => decide (b ≠ a)), s.sorted.filter _⟩

@[simp] theorem mem_erase {s : OrdSet α} {a b : α} : b ∈ s.erase a ↔ b ≠ a ∧ b ∈ s := by
  show b ∈ s.toList.filter _ ↔ b ≠ a ∧ b ∈ s.toList
  simp [and_comm]

/-! ### The least element -/

def first? (s : OrdSet α) : Option α := s.toList.head?

theorem first?_eq_none {s : OrdSet α} : s.first? = none ↔ ∀ a, a ∉ s := by
  unfold first?
  rw [List.head?_eq_none_iff]
  constructor
  · intro h a ha
    rw [← mem_toList, h] at ha
    exact List.not_mem_nil ha
  · intro h
    exact List.eq_nil_iff_forall_not_mem.mpr h

theorem first?_mem {s : OrdSet α} {a : α} (h : s.first? = some a) : a ∈ s :=
  List.mem_of_head? h

theorem first?_le {s : OrdSet α} {a b : α} (h : s.first? = some a) (hb : b ∈ s) : a ≤ b := by
  obtain ⟨l, hsorted⟩ := s
  cases l with
  | nil => simp [first?] at h
  | cons c l =>
    simp only [first?, List.head?_cons, Option.some.injEq] at h
    subst h
    rcases List.mem_cons.mp hb with rfl | hb
    · exact le_rfl
    · exact le_of_lt ((List.pairwise_cons.mp hsorted).1 b hb)

theorem exists_first? {s : OrdSet α} {a : α} (h : a ∈ s) : ∃ b, s.first? = some b := by
  cases hs : s.first? with
  | none => exact absurd h (first?_eq_none.mp hs a)
  | some b => exact ⟨b, rfl⟩

/-! ### Splitting at a lower bound -/

/-- The elements before the first one that is not less than `b`. -/
def below (s : OrdSet α) (b : α) : OrdSet α :=
  ⟨s.toList.filter (fun a => decide (a < b)), s.sorted.filter _⟩

/-- The elements from the first one on that is not less than `b`. -/
def from_ (s : OrdSet α) (b : α) : OrdSet α :=
  ⟨s.toList.filter (fun a => decide (¬ a < b)), s.sorted.filter _⟩

@[simp] theorem mem_below {s : OrdSet α} {a b : α} : a ∈ s.below b ↔ a ∈ s ∧ a < b := by
  show a ∈ s.toList.filter _ ↔ a ∈ s.toList ∧ a < b
  simp

@[simp] theorem mem_from_ {s : OrdSet α} {a b : α} : a ∈ s.from_ b ↔ a ∈ s ∧ ¬ a < b := by
  show a ∈ s.toList.filter _ ↔ a ∈ s.toList ∧ ¬ a < b
  simp

end OrdSet
