import Mathlib

/-!
# Library - Resources with one owner

A stack of free resources and a table of the owners of the others.  Resources move one at
a time: from the stack to an owner, from an owner back to the stack, or out of both.  A
resource that neither names is unclaimed, and only unclaimed resources may enter.

Main results:

- Theorems `Exclusive.pop`, `push`, `assign`, `forget`: the moves keep `Exclusive`.
- Theorems `Exclusive.unclaimed_of_pop`, `unclaimed_of_forget`: what they make unclaimed.
-/

namespace ObjectStore
namespace Library

variable {K R : Type}

/-- No resource is free twice, free and owned, or owned twice, and all are valid. -/
structure Exclusive (valid : R → Prop) (free : List R) (owner : K → Option R) : Prop where
  nodup : free.Nodup
  disjoint : ∀ r ∈ free, ∀ k, owner k ≠ some r
  injective : ∀ k k' r, owner k = some r → owner k' = some r → k = k'
  valid_free : ∀ r ∈ free, valid r
  valid_owned : ∀ k r, owner k = some r → valid r

/-- Neither the stack nor the table names the resource. -/
structure Unclaimed (free : List R) (owner : K → Option R) (r : R) : Prop where
  not_mem : r ∉ free
  ne : ∀ k, owner k ≠ some r

namespace Exclusive

variable {valid : R → Prop} {free : List R} {owner owner' : K → Option R} {r : R} {key : K}

/-- At first everything is free. -/
theorem init (hnodup : free.Nodup) (hvalid : ∀ r ∈ free, valid r)
    (hnone : ∀ k, owner k = none) : Exclusive valid free owner := by
  constructor
  · exact hnodup
  · intro r _ k
    simp [hnone k]
  · intro k k' r hk
    simp [hnone k] at hk
  · exact hvalid
  · intro k r hk
    simp [hnone k] at hk

theorem mono {valid' : R → Prop} (h : Exclusive valid free owner)
    (hvalid : ∀ r, valid r → valid' r) : Exclusive valid' free owner where
  nodup := h.nodup
  disjoint := h.disjoint
  injective := h.injective
  valid_free r hmem := hvalid r (h.valid_free r hmem)
  valid_owned k r hk := hvalid r (h.valid_owned k r hk)

/-- The top of the stack leaves it. -/
theorem pop (h : Exclusive valid (free ++ [r]) owner) : Exclusive valid free owner where
  nodup := (List.nodup_append'.mp h.nodup).1
  disjoint r' hmem := h.disjoint r' (List.mem_append_left _ hmem)
  injective := h.injective
  valid_free r' hmem := h.valid_free r' (List.mem_append_left _ hmem)
  valid_owned := h.valid_owned

theorem unclaimed_of_pop (h : Exclusive valid (free ++ [r]) owner) : Unclaimed free owner r := by
  constructor
  · intro hmem
    have hdisjoint := (List.nodup_append'.mp h.nodup).2.2
    exact hdisjoint hmem (List.mem_singleton_self r)
  · exact h.disjoint r (by simp)

theorem valid_of_pop (h : Exclusive valid (free ++ [r]) owner) : valid r :=
  h.valid_free r (by simp)

/-- An unclaimed resource goes onto the stack. -/
theorem push (h : Exclusive valid free owner) (hfresh : Unclaimed free owner r)
    (hvalid : valid r) : Exclusive valid (free ++ [r]) owner := by
  constructor
  · exact List.nodup_append'.mpr ⟨h.nodup, List.nodup_singleton _, by simpa using hfresh.not_mem⟩
  · intro r' hmem
    rcases List.mem_append.mp hmem with hmem | hmem
    · exact h.disjoint r' hmem
    · rw [List.mem_singleton.mp hmem]
      exact hfresh.ne
  · exact h.injective
  · intro r' hmem
    rcases List.mem_append.mp hmem with hmem | hmem
    · exact h.valid_free r' hmem
    · rw [List.mem_singleton.mp hmem]
      exact hvalid
  · exact h.valid_owned

/-- An unclaimed resource gets an owner, who gives up what it had. -/
theorem assign (h : Exclusive valid free owner) (hfresh : Unclaimed free owner r)
    (hvalid : valid r) (hself : owner' key = some r)
    (hother : ∀ k, k ≠ key → owner' k = owner k) : Exclusive valid free owner' := by
  have hcases : ∀ k r', owner' k = some r' → (k = key ∧ r' = r) ∨ owner k = some r' := by
    intro k r' hk
    by_cases hkey : k = key
    · subst hkey
      rw [hself, Option.some.injEq] at hk
      exact .inl ⟨rfl, hk.symm⟩
    · rw [hother k hkey] at hk
      exact .inr hk
  constructor
  · exact h.nodup
  · intro r' hmem k hk
    rcases hcases k r' hk with ⟨_, hr⟩ | hk
    · subst hr
      exact hfresh.not_mem hmem
    · exact h.disjoint r' hmem k hk
  · intro k k' r' hk hk'
    rcases hcases k r' hk with ⟨hkey, hr⟩ | hold <;>
      rcases hcases k' r' hk' with ⟨hkey', hr'⟩ | hold'
    · rw [hkey, hkey']
    · subst hr
      exact absurd hold' (hfresh.ne k')
    · subst hr'
      exact absurd hold (hfresh.ne k)
    · exact h.injective k k' r' hold hold'
  · exact h.valid_free
  · intro k r' hk
    rcases hcases k r' hk with ⟨_, hr⟩ | hk
    · rw [hr]
      exact hvalid
    · exact h.valid_owned k r' hk

/-- Owners lose what they have. -/
theorem forget (h : Exclusive valid free owner)
    (hsub : ∀ k r, owner' k = some r → owner k = some r) : Exclusive valid free owner' where
  nodup := h.nodup
  disjoint r hmem k hk := h.disjoint r hmem k (hsub k r hk)
  injective k k' r hk hk' := h.injective k k' r (hsub k r hk) (hsub k' r hk')
  valid_free := h.valid_free
  valid_owned k r hk := h.valid_owned k r (hsub k r hk)

theorem unclaimed_of_forget (h : Exclusive valid free owner) (howned : owner key = some r)
    (hself : owner' key = none) (hsub : ∀ k r, owner' k = some r → owner k = some r) :
    Unclaimed free owner' r := by
  constructor
  · intro hmem
    exact h.disjoint r hmem key howned
  · intro k hk
    have hkey : k = key := h.injective k key r (hsub k r hk) howned
    rw [hkey, hself] at hk
    cases hk

/-- What lies outside every valid resource is unclaimed. -/
theorem unclaimed_of_not_valid (h : Exclusive valid free owner) (hinvalid : ¬ valid r) :
    Unclaimed free owner r where
  not_mem hmem := hinvalid (h.valid_free r hmem)
  ne k hk := hinvalid (h.valid_owned k r hk)

end Exclusive

end Library
end ObjectStore
