import ObjectStore.Library.Program

/-!
# Library - Tasks that share nothing

Calls carry the tag of the task that makes them.  When a call reads and writes only the state
that belongs to its tag, tasks with different tags run side by side as each would alone.

Main definitions:

- `Program.tag`, `Program.forget`: put a tag on every call, and take the tags off.
- `Apart`: the steps of calls that keep to the state of their tag.

Main results:

- Theorem `Program.forget_joinAll`: tags do not change what a program does.
- Theorem `Program.Ensures.tag`: a task alone leaves the state of the other tags alone.
- Theorem `Program.Ensures.both_apart`: the rule for programs with different tags.
- Theorem `Program.Ensures.joinAll_apart`: the rule for any number of tasks.
-/

namespace ObjectStore
namespace Library

variable {Tag τ Call : Type} {Reply : Call → Type} {α β : Type}

/-- A program whose calls carry tags. -/
abbrev Tagged (Tag Call : Type) (Reply : Call → Type) (α : Type) : Type :=
  Program (Tag × Call) (fun request => Reply request.2) α

namespace Program

/-! ## Tags -/

/-- The program with every call labelled. -/
def tag (label : Tag) : Program Call Reply α → Tagged Tag Call Reply α
  | .done value => .done value
  | .call request next => .call (label, request) fun reply => (next reply).tag label

/-- The program without the labels. -/
def forget : Tagged Tag Call Reply α → Program Call Reply α
  | .done value => .done value
  | .call request next => .call request.2 fun reply => (next reply).forget

@[simp]
theorem forget_tag (label : Tag) (program : Program Call Reply α) :
    (program.tag label).forget = program := by
  induction program with
  | done value => rfl
  | call request next ih =>
      simp only [tag, forget, ih]

@[simp]
theorem forget_bind (program : Tagged Tag Call Reply α) (f : α → Tagged Tag Call Reply β) :
    (program >>= f).forget = program.forget >>= fun value => (f value).forget := by
  induction program with
  | done value => rfl
  | call request next ih =>
      simp only [call_bind, forget, ih]

theorem forget_both (turn : Tag × Call) (first : Reply turn.2 → Bool)
    (left : Tagged Tag Call Reply α) (right : Tagged Tag Call Reply β) :
    (both turn first left right).forget = both turn.2 first left.forget right.forget := by
  induction left generalizing right with
  | done value => simp only [both, forget, forget_bind]
  | call request next ih =>
      induction right with
      | done value =>
          simp only [both, bothPending, forget, ih]
      | call request' next' ih' =>
          simp only [both, bothPending, forget] at ih ih' ⊢
          congr 1
          funext reply
          split
          · simp only [forget, ih]
          · simp only [forget, ih']

theorem forget_joinAll (turn : Tag × Call) (first : Reply turn.2 → Bool)
    (programs : List (Tagged Tag Call Reply α)) :
    (joinAll turn first programs).forget = joinAll turn.2 first (programs.map forget) := by
  induction programs with
  | nil => rfl
  | cons program programs ih =>
      simp only [joinAll, forget_bind, forget_both, ih, List.map_cons]
      rfl

theorem Only.tag {P : Call → Prop} {program : Program Call Reply α} (h : program.Only P)
    (label : Tag) :
    (program.tag label).Only fun request => request.1 = label ∧ P request.2 := by
  induction program with
  | done value => trivial
  | call request next ih => exact ⟨⟨rfl, h.1⟩, fun reply => ih reply (h.2 reply)⟩

theorem tag_only (label : Tag) (program : Program Call Reply α) :
    (program.tag label).Only fun request => request.1 = label := by
  induction program with
  | done value => trivial
  | call request next ih => exact ⟨rfl, fun reply => ih reply⟩

end Program

/-! ## Steps apart -/

section Apart

variable [DecidableEq Tag]

/-- A call changes the state of its tag, as `local` says for this tag. -/
def Apart (steps : Tag → Step τ Call Reply) :
    Step (Tag → τ) (Tag × Call) (fun request => Reply request.2) :=
  fun s request reply s' => ∃ x, steps request.1 (s request.1) request.2 reply x ∧
    s' = Function.update s request.1 x

/-- What holds depends on the state of certain tags only. -/
def DependsOn (L : Tag → Prop) (post : α → (Tag → τ) → Prop) : Prop :=
  ∀ value s s', (∀ label, L label → s label = s' label) → post value s → post value s'

variable {steps : Tag → Step τ Call Reply} {L R : Tag → Prop}

namespace Program

/-- A program ends alike in states that agree on its tags. -/
theorem Ensures.congr {program : Tagged Tag Call Reply α} {post : α → (Tag → τ) → Prop}
    {s s' : Tag → τ} (h : program.Ensures (Apart steps) post s)
    (honly : program.Only fun request => L request.1) (hpost : DependsOn L post)
    (hagree : ∀ label, L label → s label = s' label) :
    program.Ensures (Apart steps) post s' := by
  induction program generalizing s s' with
  | done value => exact hpost value s s' hagree h
  | call request next ih =>
      rintro reply _ ⟨x, hx, rfl⟩
      rw [← hagree request.1 honly.1] at hx
      refine ih reply (h reply _ ⟨x, hx, rfl⟩) (honly.2 reply) fun label hlabel => ?_
      by_cases heq : label = request.1
      · subst heq
        simp only [Function.update_self]
      · simp only [Function.update_of_ne heq, hagree label hlabel]

/-- What a program does not own stays as it is. -/
theorem Only.frame {program : Tagged Tag Call Reply α} (s : Tag → τ)
    (honly : program.Only fun request => L request.1) :
    program.Ensures (Apart steps) (fun _ s' => ∀ label, ¬ L label → s' label = s label) s := by
  refine honly.ensures (fun _ _ => rfl) ?_
  rintro s₁ request reply _ hlabel hs₁ ⟨x, _, rfl⟩ label hother
  have hne : label ≠ request.1 := fun heq => hother (heq ▸ hlabel)
  rw [Function.update_of_ne hne, hs₁ label hother]

/-- A task alone. -/
theorem Ensures.tag {program : Program Call Reply α} {post : α → τ → Prop} {label : Tag}
    {s : Tag → τ} (h : program.Ensures (steps label) post (s label)) :
    (program.tag label).Ensures (Apart steps)
      (fun value s' => post value (s' label) ∧ ∀ other, other ≠ label → s' other = s other) s := by
  induction program generalizing s with
  | done value => exact ⟨h, fun _ _ => rfl⟩
  | call request next ih =>
      rintro reply _ ⟨x, hx, rfl⟩
      have hrest := h reply x hx
      have hself : x = Function.update s label x label := (Function.update_self label x s).symm
      rw [hself] at hrest
      refine (ih reply hrest).mono fun value s' hs' => ⟨hs'.1, fun other hother => ?_⟩
      rw [hs'.2 other hother, Function.update_of_ne hother]

/-- Two programs whose tags differ, when taking turns changes nothing. -/
theorem Ensures.both_apart {turn : Tag × Call} {first : Reply turn.2 → Bool}
    (hturn : ∀ x reply x', steps turn.1 x turn.2 reply x' → x' = x)
    {left : Tagged Tag Call Reply α} {right : Tagged Tag Call Reply β}
    (hleft : left.Only fun request => L request.1) (hright : right.Only fun request => R request.1)
    (hdisjoint : ∀ label, L label → ¬ R label) {post : α → (Tag → τ) → Prop}
    {post' : β → (Tag → τ) → Prop} (hpost : DependsOn L post) (hpost' : DependsOn R post')
    {s : Tag → τ} (h : left.Ensures (Apart steps) post s)
    (h' : right.Ensures (Apart steps) post' s) :
    (both turn first left right).Ensures (Apart steps)
      (fun values s' => post values.1 s' ∧ post' values.2 s') s := by
  -- a step of one program does not touch what the other one owns
  have hleft_step : ∀ {s s' : Tag → τ} {request : Tag × Call} {reply : Reply request.2},
      L request.1 → Apart steps s request reply s' → ∀ label, R label → s label = s' label := by
    rintro s _ request reply hrequest ⟨x, _, rfl⟩ label hlabel
    have hne : label ≠ request.1 := fun heq => hdisjoint label (heq ▸ hrequest) hlabel
    rw [Function.update_of_ne hne]
  have hright_step : ∀ {s s' : Tag → τ} {request : Tag × Call} {reply : Reply request.2},
      R request.1 → Apart steps s request reply s' → ∀ label, L label → s label = s' label := by
    rintro s _ request reply hrequest ⟨x, _, rfl⟩ label hlabel
    have hne : label ≠ request.1 := fun heq => hdisjoint label hlabel (heq ▸ hrequest)
    rw [Function.update_of_ne hne]
  induction left generalizing right s with
  | done value =>
      refine .of_bind ?_
      clear hleft
      induction right generalizing s with
      | done value' => exact ⟨h, h'⟩
      | call request next ih =>
          intro reply s' hstep
          exact ih reply (hright.2 reply) (hpost _ _ _ (hright_step hright.1 hstep) h)
            (h' reply s' hstep)
  | call request next ih =>
      induction right generalizing s with
      | done value' =>
          intro reply s' hstep
          exact ih reply (hleft.2 reply) hright (h reply s' hstep)
            (hpost' _ _ _ (hleft_step hleft.1 hstep) h')
      | call request' next' ih' =>
          rintro reply _ ⟨x, hx, rfl⟩
          rw [hturn _ _ _ hx, Function.update_eq_self]
          dsimp only
          split
          · intro reply s' hstep
            exact ih reply (hleft.2 reply) hright (h reply s' hstep)
              (h'.congr hright hpost' (hleft_step hleft.1 hstep))
          · intro reply s' hstep
            exact ih' reply (hright.2 reply) (h.congr hleft hpost (hright_step hright.1 hstep))
              (h' reply s' hstep)

/-- Any number of tasks with different tags. -/
theorem Ensures.joinAll_apart {turn : Tag × Call} {first : Reply turn.2 → Bool}
    (hturn : ∀ x reply x', steps turn.1 x turn.2 reply x' → x' = x) {ι : Type} {items : List ι}
    {label : ι → Tag} {program : ι → Program Call Reply α} (hnodup : (items.map label).Nodup)
    (hmem : turn.1 ∉ items.map label) {post : ι → α → τ → Prop} {s : Tag → τ}
    (h : ∀ item ∈ items,
      (program item).Ensures (steps (label item)) (post item) (s (label item))) :
    (joinAll turn first (items.map fun item => (program item).tag (label item))).Ensures
      (Apart steps)
      (fun values s' => List.Forall₂ (fun item value => post item value (s' (label item))) items
        values) s := by
  have honly : ∀ items : List ι,
      (joinAll turn first (items.map fun item => (program item).tag (label item))).Only
        fun request => request.1 = turn.1 ∨ request.1 ∈ items.map label := by
    intro items
    refine Only.joinAll (.inl rfl) fun task htask => ?_
    rcases List.mem_map.mp htask with ⟨item, hitem, rfl⟩
    refine (tag_only (label item) (program item)).mono fun request hrequest => .inr ?_
    exact hrequest ▸ List.mem_map_of_mem hitem
  induction items with
  | nil => exact .nil
  | cons item items ih =>
      rw [List.map_cons, List.nodup_cons] at hnodup
      rw [List.map_cons, List.mem_cons, not_or] at hmem
      have hrest := ih hnodup.2 hmem.2 fun other hother => h other (List.mem_cons_of_mem _ hother)
      have hitem := (h item List.mem_cons_self).tag.mono fun value s' hs' => hs'.1
      have hdisjoint : ∀ other, other = label item →
          ¬ (other = turn.1 ∨ other ∈ items.map label) := by
        rintro other rfl (heq | hother)
        · exact hmem.1 heq.symm
        · exact hnodup.1 hother
      have hitem_post : DependsOn (fun other => other = label item)
          fun value s' => post item value (s' (label item)) := by
        intro value s₁ s₂ hagree hvalue
        rwa [hagree (label item) rfl] at hvalue
      have hrest_post : DependsOn (fun other => other = turn.1 ∨ other ∈ items.map label)
          fun values s' => List.Forall₂ (fun item value => post item value (s' (label item))) items
            values := by
        intro values s₁ s₂ hagree hvalues
        have hall := (List.forall₂_and_left _ _).mpr ⟨fun other hother => hother, hvalues⟩
        refine hall.imp fun other value hvalue => ?_
        have hsame := hagree (label other) (.inr (List.mem_map_of_mem hvalue.1))
        exact hsame ▸ hvalue.2
      have hboth : (both turn first ((program item).tag (label item))
          (joinAll turn first (items.map fun item => (program item).tag (label item)))).Ensures
            (Apart steps) _ s :=
        .both_apart hturn (tag_only (label item) (program item)) (honly items) hdisjoint hitem_post
          hrest_post hitem hrest
      exact .of_bind (hboth.mono fun values s' hvalues => .cons hvalues.1 hvalues.2)

end Program

end Apart

end Library
end ObjectStore
