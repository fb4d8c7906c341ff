import Mathlib

/-!
# Library - Labelled transitions and refinement

A system that makes labelled steps, and what it means that it does no more than another one.
The labels of the two systems may differ: what the one shows stands for a step of the other.

Main definitions:

- `Lts`, `Lts.Trace`: labelled steps, and runs of them.
- `Since`: something has happened and has not been undone.
- `Simulation`: every step of the concrete system is a step of the abstract one.

Main results:

- Theorem `Lts.trace_append_iff`: runs split where their labels do.
- Theorems `since_append_iff`, `since_filterMap_iff`, `since_congr`: one more step, some of the
  labels, and the other system's view.
- Theorem `Simulation.trace`: every run of the concrete system is one of the abstract system.
-/

namespace ObjectStore
namespace Library

/-- A labelled transition system. -/
abbrev Lts (σ Label : Type) : Type := σ → Label → σ → Prop

variable {σ τ Label Label' : Type}

namespace Lts

/-- A run with the labels of its steps. -/
inductive Trace (lts : Lts σ Label) : σ → List Label → σ → Prop where
  | nil (s : σ) : Trace lts s [] s
  | cons {s s' s'' : σ} {label : Label} {labels : List Label} (hstep : lts s label s')
      (hrest : Trace lts s' labels s'') : Trace lts s (label :: labels) s''

variable {lts : Lts σ Label} {s s' : σ} {label : Label} {labels labels' : List Label}

@[simp]
theorem trace_nil_iff : lts.Trace s [] s' ↔ s = s' := by
  constructor
  · intro h
    cases h
    rfl
  · rintro rfl
    exact .nil s

@[simp]
theorem trace_cons_iff :
    lts.Trace s (label :: labels) s' ↔ ∃ t, lts s label t ∧ lts.Trace t labels s' := by
  constructor
  · intro h
    cases h with
    | cons hstep hrest => exact ⟨_, hstep, hrest⟩
  · rintro ⟨t, hstep, hrest⟩
    exact .cons hstep hrest

/-- Runs split where their labels do. -/
theorem trace_append_iff :
    lts.Trace s (labels ++ labels') s' ↔ ∃ t, lts.Trace s labels t ∧ lts.Trace t labels' s' := by
  induction labels generalizing s with
  | nil => simp
  | cons label labels ih =>
      simp only [List.cons_append, trace_cons_iff, ih]
      constructor
      · rintro ⟨t, hstep, t', hfirst, hrest⟩
        exact ⟨t', ⟨t, hstep, hfirst⟩, hrest⟩
      · rintro ⟨t', ⟨t, hstep, hfirst⟩, hrest⟩
        exact ⟨t, hstep, t', hfirst, hrest⟩

end Lts

/-! ## Histories -/

/-- Something that starts it has happened, and nothing that ends it since. -/
def Since (starts ends : Label → Prop) (labels : List Label) : Prop :=
  ∃ before label after, labels = before ++ label :: after ∧ starts label ∧
    ∀ later ∈ after, ¬ ends later

section

variable {starts ends : Label → Prop} {starts' ends' : Label' → Prop} {label : Label}
  {labels : List Label} {labels' : List Label'} {shows : Label → Label' → Prop}

theorem since_append_iff :
    Since starts ends (labels ++ [label]) ↔
      starts label ∨ ¬ ends label ∧ Since starts ends labels := by
  constructor
  · rintro ⟨before, first, after, hlabels, hfirst, hafter⟩
    rcases List.eq_nil_or_concat after with rfl | ⟨rest, last, rfl⟩
    · have hsplit := List.append_inj' hlabels rfl
      rw [List.singleton_inj.mp hsplit.2]
      exact .inl hfirst
    · rw [List.concat_eq_append, ← List.cons_append, ← List.append_assoc] at hlabels
      have hsplit := List.append_inj' hlabels rfl
      rw [List.concat_eq_append, List.forall_mem_append] at hafter
      rw [List.singleton_inj.mp hsplit.2, hsplit.1]
      exact .inr ⟨hafter.2 last (List.mem_singleton_self _), before, first, rest, rfl, hfirst,
        hafter.1⟩
  · rintro (hlabel | ⟨hends, before, first, after, rfl, hfirst, hafter⟩)
    · exact ⟨labels, label, [], rfl, hlabel, nofun⟩
    · refine ⟨before, first, after ++ [label], by simp, hfirst, ?_⟩
      rw [List.forall_mem_append, List.forall_mem_singleton]
      exact ⟨hafter, hends⟩

theorem since_cons_iff : Since starts ends (label :: labels) ↔
    starts label ∧ (∀ later ∈ labels, ¬ ends later) ∨ Since starts ends labels := by
  constructor
  · rintro ⟨before, first, after, hlabels, hfirst, hafter⟩
    cases before with
    | nil =>
        cases hlabels
        exact .inl ⟨hfirst, hafter⟩
    | cons head before =>
        cases hlabels
        exact .inr ⟨before, first, after, rfl, hfirst, hafter⟩
  · rintro (⟨hlabel, hafter⟩ | ⟨before, first, after, rfl, hfirst, hafter⟩)
    · exact ⟨[], label, labels, rfl, hlabel, hafter⟩
    · exact ⟨label :: before, first, after, rfl, hfirst, hafter⟩

/-- Only some labels count. -/
theorem since_filterMap_iff {f : Label' → Option Label} {labels : List Label'} :
    Since starts ends (labels.filterMap f) ↔
      Since (fun label => ∃ shown, f label = some shown ∧ starts shown)
        (fun label => ∃ shown, f label = some shown ∧ ends shown) labels := by
  induction labels with
  | nil => simp [Since]
  | cons label labels ih =>
      rw [since_cons_iff, ← ih]
      cases hshown : f label with
      | none => simp [hshown]
      | some shown =>
          rw [List.filterMap_cons_some hshown, since_cons_iff]
          simp only [List.mem_filterMap]
          grind

/-- In histories that show each other, what holds throughout one holds throughout the other. -/
theorem forall_congr_of_forall₂ {P : Label → Prop} {P' : Label' → Prop}
    (h : List.Forall₂ shows labels labels')
    (hP : ∀ label label', shows label label' → (P label ↔ P' label')) :
    (∀ label ∈ labels, P label) ↔ ∀ label' ∈ labels', P' label' := by
  induction h with
  | nil => simp
  | cons hfirst _ ih => rw [List.forall_mem_cons, List.forall_mem_cons, ih, hP _ _ hfirst]

theorem since_congr (h : List.Forall₂ shows labels labels')
    (hstarts : ∀ label label', shows label label' → (starts label ↔ starts' label'))
    (hends : ∀ label label', shows label label' → (ends label ↔ ends' label')) :
    Since starts ends labels ↔ Since starts' ends' labels' := by
  induction h with
  | nil => simp [Since]
  | cons hfirst hrest ih =>
      have hnone := forall_congr_of_forall₂ hrest fun label label' hshows =>
        not_congr (hends label label' hshows)
      rw [since_cons_iff, since_cons_iff, hstarts _ _ hfirst, hnone, ih]

end

/-! ## Simulations -/

/-- From related states, every step of the concrete system shows a step of the abstract one,
and leads to related states again. -/
def Simulation (concrete : Lts σ Label) (abstract : Lts τ Label') (rel : σ → τ → Prop)
    (shows : Label → Label' → Prop) : Prop :=
  ∀ s t label s', rel s t → concrete s label s' →
    ∃ label' t', shows label label' ∧ abstract t label' t' ∧ rel s' t'

/-- Every run of the concrete system shows a run of the abstract system. -/
theorem Simulation.trace {concrete : Lts σ Label} {abstract : Lts τ Label'} {rel : σ → τ → Prop}
    {shows : Label → Label' → Prop} (h : Simulation concrete abstract rel shows) {s s' : σ} {t : τ}
    {labels : List Label} (hrel : rel s t) (htrace : concrete.Trace s labels s') :
    ∃ labels' t', List.Forall₂ shows labels labels' ∧ abstract.Trace t labels' t' ∧ rel s' t' := by
  induction htrace generalizing t with
  | nil s => exact ⟨[], t, .nil, .nil t, hrel⟩
  | cons hstep _ ih =>
      rcases h _ _ _ _ hrel hstep with ⟨label', t₁, hshows, habstract, hrel₁⟩
      rcases ih hrel₁ with ⟨labels', t', hlabels, htrace, hrel'⟩
      exact ⟨label' :: labels', t', .cons hshows hlabels, .cons habstract htrace, hrel'⟩

end Library
end ObjectStore
