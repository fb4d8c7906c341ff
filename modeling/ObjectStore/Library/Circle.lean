import Mathlib

/-!
# Library - Positions on a circle

Finitely many positions of a linear order, read clockwise: a point belongs to the
first position at or after it.

Main results:

- Theorem `find?_eq_some_iff_isNext`: what a scan of the sorted positions finds.
- Theorem `isNext_getElem_iff`: the points that belong to the `i`-th position.
- Theorem `IsClockwise.of_subset`: a position that stays is still the next one when others go.
-/

namespace ObjectStore
namespace Library

variable {α : Type} [LinearOrder α]

/-- `p` is the first position at or after `x`. -/
def IsNext (positions : List α) (x p : α) : Prop :=
  IsLeast {q | q ∈ positions ∧ x ≤ q} p

theorem IsNext.unique {positions : List α} {x p q : α} (hp : IsNext positions x p)
    (hq : IsNext positions x q) : p = q :=
  IsLeast.unique hp hq

/-! ## Sorted positions -/

/-- Scanning sorted positions from the front finds the next one. -/
theorem find?_eq_some_iff_isNext {positions : List α} (hsorted : positions.Pairwise (· < ·))
    {x p : α} : positions.find? (fun q => decide (x ≤ q)) = some p ↔ IsNext positions x p := by
  induction positions with
  | nil => simp [IsNext, IsLeast]
  | cons first rest ih =>
      rw [List.pairwise_cons] at hsorted
      by_cases hfirst : x ≤ first
      · rw [List.find?_cons_of_pos (by simpa using hfirst)]
        constructor
        · intro h
          cases h
          refine ⟨⟨List.mem_cons_self, hfirst⟩, ?_⟩
          rintro q ⟨hq, _⟩
          rcases List.mem_cons.mp hq with rfl | hq
          · exact le_refl q
          · exact (hsorted.1 q hq).le
        · rintro ⟨⟨hp, _⟩, hleast⟩
          have hle : p ≤ first := hleast ⟨List.mem_cons_self, hfirst⟩
          rcases List.mem_cons.mp hp with rfl | hp
          · rfl
          · exact absurd (hsorted.1 p hp) (not_lt.mpr hle)
      · rw [List.find?_cons_of_neg (by simpa using hfirst), ih hsorted.2]
        have hset : {q | q ∈ first :: rest ∧ x ≤ q} = {q | q ∈ rest ∧ x ≤ q} := by
          ext q
          constructor
          · rintro ⟨hq, hxq⟩
            rcases List.mem_cons.mp hq with rfl | hq
            · exact absurd hxq hfirst
            · exact ⟨hq, hxq⟩
          · rintro ⟨hq, hxq⟩
            exact ⟨List.mem_cons_of_mem _ hq, hxq⟩
        rw [IsNext, IsNext, hset]

theorem getElem_lt_getElem_iff {positions : List α} (hsorted : positions.Pairwise (· < ·))
    {i j : Nat} (hi : i < positions.length) (hj : j < positions.length) :
    positions[i] < positions[j] ↔ i < j := by
  have hmono := List.pairwise_iff_getElem.mp hsorted
  constructor
  · intro h
    by_contra hle
    rcases Nat.lt_or_eq_of_le (not_lt.mp hle) with hlt | rfl
    · exact absurd (hmono j i hj hi hlt) (not_lt.mpr h.le)
    · exact lt_irrefl _ h
  · exact hmono i j hi hj

/-- The points between the previous position and the `i`-th one, or before the first
one. -/
theorem isNext_getElem_iff {positions : List α} (hsorted : positions.Pairwise (· < ·)) {x : α}
    {i : Nat} (hi : i < positions.length) :
    IsNext positions x positions[i] ↔
      x ≤ positions[i] ∧ (0 < i → positions[i - 1] < x) := by
  constructor
  · rintro ⟨⟨_, hle⟩, hleast⟩
    refine ⟨hle, fun hpos => ?_⟩
    by_contra hprev
    have hback : positions[i] ≤ positions[i - 1] :=
      hleast ⟨List.getElem_mem _, not_lt.mp hprev⟩
    have hstep : positions[i - 1] < positions[i] :=
      (getElem_lt_getElem_iff hsorted _ hi).mpr (by omega)
    exact absurd hstep (not_lt.mpr hback)
  · rintro ⟨hle, hprev⟩
    refine ⟨⟨List.getElem_mem _, hle⟩, ?_⟩
    rintro q ⟨hq, hxq⟩
    rcases List.getElem_of_mem hq with ⟨j, hj, rfl⟩
    by_contra hlt
    have hji : j < i := (getElem_lt_getElem_iff hsorted hj hi).mp (not_le.mp hlt)
    have hbefore : positions[j] ≤ positions[i - 1] := by
      rcases Nat.lt_or_ge j (i - 1) with hj' | hj'
      · exact ((getElem_lt_getElem_iff hsorted hj _).mpr hj').le
      · have heq : j = i - 1 := by omega
        subst heq
        exact le_refl _
    exact absurd (hprev (by omega)) (not_lt.mpr (hxq.trans hbefore))

/-! ## Changing positions -/

section Changing

variable {β : Type} [LE β] [LT β]

/-- Going clockwise from `x`, the circle meets `p` first. -/
def IsClockwise (positions : Set β) (x p : β) : Prop :=
  IsLeast {q | q ∈ positions ∧ x ≤ q} p ∨ (∀ q ∈ positions, q < x) ∧ IsLeast positions p

/-- When positions are taken off the circle, a point keeps the one it belongs to if that
one stays. -/
theorem IsClockwise.of_subset {positions positions' : Set β} {x p : β}
    (h : IsClockwise positions' x p) (hsub : positions ⊆ positions') (hp : p ∈ positions) :
    IsClockwise positions x p := by
  rcases h with ⟨⟨_, hle⟩, hleast⟩ | ⟨hbefore, _, hleast⟩
  · left
    constructor
    · exact ⟨hp, hle⟩
    · rintro q ⟨hq, hxq⟩
      exact hleast ⟨hsub hq, hxq⟩
  · right
    constructor
    · intro q hq
      exact hbefore q (hsub hq)
    · constructor
      · exact hp
      · intro q hq
        exact hleast (hsub hq)

end Changing

end Library
end ObjectStore
