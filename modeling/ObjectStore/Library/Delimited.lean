import Mathlib

/-!
# Library - Delimited lists

A list cut into pieces at a delimiter.  What a validator checks on the list itself (its
first and last element, two delimiters in a row, the elements it is made of) says that
the pieces are non-empty and made of the right elements.

Main results:

- Theorem `nil_notMem_splitOn`: no piece is empty.
- Theorem `forall_mem_splitOn`: every element of a piece satisfies a predicate.
-/

namespace ObjectStore
namespace Library

variable {α : Type} {d : α}

/-- No two delimiters stand next to each other. -/
def Separated (d : α) (xs : List α) : Prop :=
  xs.IsChain fun x y => ¬ (x = d ∧ y = d)

theorem separated_cons {x : α} {xs : List α} :
    Separated d (x :: xs) ↔ (x = d → xs.head? ≠ some d) ∧ Separated d xs := by
  cases xs with
  | nil => simp [Separated]
  | cons y ys =>
      rw [Separated, List.isChain_cons_cons, List.head?_cons]
      simp [Separated]

variable [BEq α] [LawfulBEq α]

theorem splitOn_cons_self (d : α) (xs : List α) : (d :: xs).splitOn d = [] :: xs.splitOn d := by
  simp [List.splitOn_cons_eq_if_modifyHead]

/-- An element that is no delimiter joins the first piece. -/
theorem exists_splitOn_cons {x : α} (hne : x ≠ d) (xs : List α) :
    ∃ piece pieces, xs.splitOn d = piece :: pieces ∧
      (x :: xs).splitOn d = (x :: piece) :: pieces := by
  cases hsplit : xs.splitOn d with
  | nil => exact absurd hsplit (List.splitOn_ne_nil d xs)
  | cons piece pieces =>
      refine ⟨piece, pieces, rfl, ?_⟩
      rw [List.splitOn_cons_eq_if_modifyHead, if_neg (by simpa using hne), hsplit,
        List.modifyHead_cons]

/-- The first piece is empty when the list is, or when it starts with a delimiter. -/
theorem nil_notMem_splitOn_iff_tail (xs : List α) :
    [] ∉ xs.splitOn d ↔ xs ≠ [] ∧ xs.head? ≠ some d ∧ [] ∉ (xs.splitOn d).tail := by
  cases xs with
  | nil => simp
  | cons x xs =>
      by_cases hx : x = d
      · rw [hx, splitOn_cons_self]
        simp
      · rcases exists_splitOn_cons hx xs with ⟨piece, pieces, _, hsplit⟩
        rw [hsplit]
        simp [hx]

/-- A later piece is empty when two delimiters meet, or behind a delimiter at the end. -/
theorem nil_notMem_tail_splitOn (xs : List α) :
    [] ∉ (xs.splitOn d).tail ↔ xs.getLast? ≠ some d ∧ Separated d xs := by
  induction xs with
  | nil => simp [Separated]
  | cons x xs ih =>
      rw [separated_cons, List.getLast?_cons]
      by_cases hx : x = d
      · rw [hx, splitOn_cons_self, List.tail_cons, nil_notMem_splitOn_iff_tail, ih]
        cases xs with
        | nil => simp
        | cons y ys =>
            rw [List.getLast?_cons]
            simp
            tauto
      · rcases exists_splitOn_cons hx xs with ⟨piece, pieces, hpieces, hsplit⟩
        rw [hpieces, List.tail_cons] at ih
        rw [hsplit, List.tail_cons, ih]
        cases hlast : xs.getLast? <;> simp [hx]

/-- No piece is empty. -/
theorem nil_notMem_splitOn (xs : List α) :
    [] ∉ xs.splitOn d ↔
      xs ≠ [] ∧ xs.head? ≠ some d ∧ xs.getLast? ≠ some d ∧ Separated d xs := by
  rw [nil_notMem_splitOn_iff_tail, nil_notMem_tail_splitOn]

/-- The elements of the pieces are the elements between the delimiters. -/
theorem forall_mem_splitOn (p : α → Prop) (xs : List α) :
    (∀ piece ∈ xs.splitOn d, ∀ x ∈ piece, p x) ↔ ∀ x ∈ xs, x = d ∨ p x := by
  induction xs with
  | nil => simp
  | cons x xs ih =>
      by_cases hx : x = d
      · rw [hx, splitOn_cons_self, List.forall_mem_cons, List.forall_mem_cons, ih]
        simp
      · rcases exists_splitOn_cons hx xs with ⟨piece, pieces, hpieces, hsplit⟩
        rw [hpieces, List.forall_mem_cons] at ih
        rw [hsplit, List.forall_mem_cons, List.forall_mem_cons, List.forall_mem_cons, ← ih]
        simp [hx]
        tauto

end Library
end ObjectStore
