import ObjectStore.Library.Refinement

/-!
# Library - Draining a backlog

Finitely many items, each with a counter that shall reach a target.  A round raises the counters
of some items below the target, of all of them unless that is more than it may raise.  Which
items it takes is not known, and it may pass over the same one round after round.

Main definitions:

- `short`, `missing`: the items below the target, and how much they lack altogether.
- `Round`: what one round does to the counters.
- `Progress`: what is known after any number of rounds.

Main results:

- Theorem `Round.progress`: a round lowers what is missing by its limit, or reaches every item.
- Theorem `progress_of_trace`: the rounds of a run.
- Theorem `Progress.reached`: how many rounds are enough.
-/

namespace ObjectStore
namespace Library

variable {α : Type} (items : Finset α) (target limit : Nat)

/-- The items below the target. -/
def short (count : α → Nat) : Finset α :=
  items.filter (count · < target)

/-- How much is missing altogether. -/
def missing (count : α → Nat) : Nat :=
  ∑ item ∈ items, (target - count item)

/-- One round serves as many items below the target as it may, or all of them. -/
structure Round [DecidableEq α] (count count' : α → Nat) (served : Finset α) : Prop where
  subset : served ⊆ short items target count
  enough : served.card = limit ∨ served = short items target count
  raised : ∀ item ∈ items, count' item = if item ∈ served then count item + 1 else count item

/-- Some of the rounds were used up, and the others reached every item. -/
structure Progress (rounds : Nat) (count count' : α → Nat) : Prop where
  split : ∃ full rest, full + rest = rounds ∧
    full * limit + missing items target count' ≤ missing items target count ∧
    ∀ item ∈ items, min target (count item + rest) ≤ count' item
  grown : ∀ item ∈ items, count item ≤ count' item ∧ count' item ≤ max (count item) target

variable {items} {target limit} {count count' count'' : α → Nat} {served : Finset α}

theorem mem_short {item : α} :
    item ∈ short items target count ↔ item ∈ items ∧ count item < target :=
  Finset.mem_filter

namespace Round

variable [DecidableEq α]

theorem grown (h : Round items target limit count count' served) (item : α)
    (hitem : item ∈ items) :
    count item ≤ count' item ∧ count' item ≤ max (count item) target := by
  rw [h.raised item hitem]
  split
  · rename_i hserved
    have hshort := (mem_short.mp (h.subset hserved)).2
    omega
  · omega

/-- Each served item lacks one less. -/
theorem missing_add_card (h : Round items target limit count count' served) :
    missing items target count' + served.card = missing items target count := by
  have hserved : served ⊆ items := fun item hmem => (mem_short.mp (h.subset hmem)).1
  have hcard : served.card = ∑ item ∈ items, if item ∈ served then 1 else 0 := by
    rw [Finset.sum_ite_mem, Finset.inter_eq_right.mpr hserved, Finset.card_eq_sum_ones]
  rw [missing, missing, hcard, ← Finset.sum_add_distrib]
  refine Finset.sum_congr rfl fun item hitem => ?_
  rw [h.raised item hitem]
  split
  · rename_i hmem
    have hshort := (mem_short.mp (h.subset hmem)).2
    omega
  · rfl

/-- A round lowers what is missing by its limit, or reaches every item. -/
theorem progress (h : Round items target limit count count' served) :
    Progress items target limit 1 count count' where
  split := by
    have hmissing := h.missing_add_card
    rcases h.enough with hfull | hall
    · refine ⟨1, 0, rfl, by omega, fun item hitem => ?_⟩
      have hgrown := h.grown item hitem
      omega
    · refine ⟨0, 1, rfl, by omega, fun item hitem => ?_⟩
      rw [h.raised item hitem, hall]
      split
      · exact min_le_right _ _
      · rename_i hother
        have hreached : ¬ count item < target := fun hlt => hother (mem_short.mpr ⟨hitem, hlt⟩)
        omega
  grown := h.grown

end Round

namespace Progress

theorem refl (count : α → Nat) : Progress items target limit 0 count count where
  split := ⟨0, 0, rfl, by omega, fun _ _ => min_le_right _ _⟩
  grown _ _ := ⟨le_rfl, le_max_left _ _⟩

theorem trans {rounds rounds' : Nat} (h : Progress items target limit rounds count count')
    (h' : Progress items target limit rounds' count' count'') :
    Progress items target limit (rounds + rounds') count count'' where
  split := by
    rcases h.split with ⟨full, rest, hrounds, hmissing, hreached⟩
    rcases h'.split with ⟨full', rest', hrounds', hmissing', hreached'⟩
    refine ⟨full + full', rest + rest', by omega, ?_, fun item hitem => ?_⟩
    · rw [Nat.add_mul]
      omega
    · have hfirst := hreached item hitem
      have hsecond := hreached' item hitem
      omega
  grown item hitem := by
    have hfirst := h.grown item hitem
    have hsecond := h'.grown item hitem
    omega

/-- What is missing is used up at the latest after `missing / limit` rounds, and each further
round reaches every item. -/
theorem reached {rounds lacking : Nat} (h : Progress items target limit rounds count count')
    (hlimit : 0 < limit) (hlacking : ∀ item ∈ items, target ≤ count item + lacking)
    (hrounds : missing items target count / limit + lacking ≤ rounds) :
    ∀ item ∈ items, count' item = max (count item) target := by
  rcases h.split with ⟨full, rest, hsplit, hmissing, hreached⟩
  have hfull : full ≤ missing items target count / limit :=
    (Nat.le_div_iff_mul_le hlimit).mpr (by omega)
  intro item hitem
  have hgrown := h.grown item hitem
  have hitemReached := hreached item hitem
  have hitemLacking := hlacking item hitem
  omega

end Progress

/-- The rounds of a run, seen through `observe`. -/
theorem progress_of_trace [DecidableEq α] {σ Label : Type} {lts : Lts σ Label}
    {observe : σ → α → Nat} {inv : σ → Prop}
    (hstep : ∀ s label s', inv s → lts s label s' → inv s' ∧
      ∃ served, Round items target limit (observe s) (observe s') served)
    {s s' : σ} {labels : List Label} (htrace : lts.Trace s labels s') (hinv : inv s) :
    inv s' ∧ Progress items target limit labels.length (observe s) (observe s') := by
  induction htrace with
  | nil s => exact ⟨hinv, .refl (observe s)⟩
  | cons hfirst _ ih =>
      rcases hstep _ _ _ hinv hfirst with ⟨hinv', served, hround⟩
      rcases ih hinv' with ⟨hlast, hrest⟩
      refine ⟨hlast, ?_⟩
      rw [List.length_cons, Nat.add_comm]
      exact hround.progress.trans hrest

end Library
end ObjectStore
