import ObjectStore.Library.Program

/-!
# Library - Layers of services

The same programs over two services, where the lower service answers as the upper one does
as long as it is asked properly.  What a program may ask is a contract, and in return the
program may take something for granted of the replies.

Main definitions:

- `Contract`: what may be asked, and what the replies are like.
- `Program.Honours`: a program that keeps to a contract.
- `Contract.Simulates`: one call below is one call above.

Main results:

- Theorem `Contract.Simulates.runs`: a run below is a run above.
- Theorem `Contract.Simulates.pool`: the same for pools, in every interleaving.
- Theorem `Contract.pool_invariant`: what the allowed calls preserve.
-/

namespace ObjectStore
namespace Library

variable {σ τ Call α β : Type} {Reply : Call → Type}

/-- What may be asked, and what the replies are like. -/
structure Contract (Call : Type) (Reply : Call → Type) where
  allowed : Call → Prop
  expects : (request : Call) → Reply request → Prop

variable {contract : Contract Call Reply}

namespace Program

/-- The program asks what it may, as long as the replies are as expected, and returns with
`post`. -/
def Honours (contract : Contract Call Reply) : Program Call Reply α → (α → Prop) → Prop
  | .done value, post => post value
  | .call request next, post =>
      contract.allowed request ∧
        ∀ reply, contract.expects request reply → (next reply).Honours contract post

theorem Honours.of_bind {program : Program Call Reply α} {f : α → Program Call Reply β}
    {middle : α → Prop} {post : β → Prop} (h : program.Honours contract middle)
    (hf : ∀ value, middle value → (f value).Honours contract post) :
    (program >>= f).Honours contract post := by
  induction program with
  | done value => exact hf value h
  | call request next ih => exact ⟨h.1, fun reply hreply => ih reply (h.2 reply hreply)⟩

/-- Calls that may always be made. -/
theorem Only.honours {P : Call → Prop} {program : Program Call Reply α} (h : program.Only P)
    (hP : ∀ request, P request → contract.allowed request) :
    program.Honours contract fun _ => True := by
  induction program with
  | done value => trivial
  | call request next ih => exact ⟨hP request h.1, fun reply _ => ih reply (h.2 reply)⟩

end Program

/-- A proper call below is a call above with the same reply, and the reply is as expected. -/
def Contract.Simulates (contract : Contract Call Reply) (lower : Step τ Call Reply)
    (upper : Step σ Call Reply) (rel : τ → σ → Prop) : Prop :=
  ∀ t s request reply t', rel t s → contract.allowed request → lower t request reply t' →
    contract.expects request reply ∧ ∃ s', upper s request reply s' ∧ rel t' s'

variable {lower : Step τ Call Reply} {upper : Step σ Call Reply} {rel : τ → σ → Prop}

/-- A run below is a run above with the same result. -/
theorem Contract.Simulates.runs (h : contract.Simulates lower upper rel)
    {program : Program Call Reply α} {post : α → Prop} (hprogram : program.Honours contract post)
    {t t' : τ} {s : σ} {value : α} (hrel : rel t s) (hruns : program.Runs lower t value t') :
    ∃ s', program.Runs upper s value s' ∧ rel t' s' := by
  induction hruns generalizing s with
  | done value t => exact ⟨s, .done value s, hrel⟩
  | call hstep _ ih =>
      rcases h _ _ _ _ _ hrel hprogram.1 hstep with ⟨hexpected, s₁, hupper, hrel₁⟩
      rcases ih (hprogram.2 _ hexpected) hrel₁ with ⟨s', hrest, hrel'⟩
      exact ⟨s', .call hupper hrest, hrel'⟩

/-- What programs do to each other below, they do to each other above. -/
theorem Contract.Simulates.pool (h : contract.Simulates lower upper rel)
    {spawnable : Program Call Reply α → Prop}
    (hspawn : ∀ program, spawnable program → program.Honours contract fun _ => True) {t t' : τ}
    {s : σ} {programs : List (Program Call Reply α)} (hrel : rel t s)
    (hsteps : Relation.ReflTransGen (PoolStep lower spawnable) (t, []) (t', programs)) :
    ∃ s', Relation.ReflTransGen (PoolStep upper spawnable) (s, []) (s', programs) ∧ rel t' s' := by
  have hall : ∃ s', Relation.ReflTransGen (PoolStep upper spawnable) (s, []) (s', programs) ∧
      rel t' s' ∧ ∀ program ∈ programs, program.Honours contract fun _ => True := by
    generalize hfinal : (t', programs) = final at hsteps
    induction hsteps generalizing t' programs with
    | refl =>
        cases hfinal
        exact ⟨s, .refl, hrel, by simp⟩
    | tail _ hlast ih =>
        subst hfinal
        cases hlast with
        | @spawn before others program hprogram =>
            rcases ih rfl with ⟨s₁, hbefore, hrel₁, hothers⟩
            have hhonours : ∀ other ∈ others ++ [program],
                other.Honours contract fun _ => True := by
              simp only [List.forall_mem_append, List.forall_mem_singleton]
              exact ⟨hothers, hspawn program hprogram⟩
            exact ⟨s₁, .tail hbefore (.spawn hprogram), hrel₁, hhonours⟩
        | @run before after others i request next reply hi hstep =>
            rcases ih rfl with ⟨s₁, hbefore, hrel₁, hothers⟩
            have hcall := hothers _ (List.mem_of_getElem? hi)
            rcases h _ _ _ _ _ hrel₁ hcall.1 hstep with ⟨hexpected, s₂, hupper, hrel₂⟩
            have hhonours : ∀ other ∈ others.set i (next reply),
                other.Honours contract fun _ => True := by
              intro other hother
              rcases List.mem_or_eq_of_mem_set hother with hother | rfl
              · exact hothers other hother
              · exact hcall.2 reply hexpected
            exact ⟨s₂, .tail hbefore (.run hi hupper), hrel₂, hhonours⟩
  rcases hall with ⟨s', hsteps', hrel', _⟩
  exact ⟨s', hsteps', hrel'⟩

/-- What the allowed calls preserve holds after any interleaving. -/
theorem Contract.pool_invariant {step : Step σ Call Reply} {inv : σ → Prop}
    (h : ∀ s request reply s', inv s → contract.allowed request → step s request reply s' →
      contract.expects request reply ∧ inv s')
    {spawnable : Program Call Reply α → Prop}
    (hspawn : ∀ program, spawnable program → program.Honours contract fun _ => True) {s s' : σ}
    {programs : List (Program Call Reply α)} (hinv : inv s)
    (hsteps : Relation.ReflTransGen (PoolStep step spawnable) (s, []) (s', programs)) : inv s' := by
  have hsimulates : contract.Simulates step step fun t s => t = s ∧ inv t := by
    rintro t _ request reply t' ⟨rfl, hinv⟩ hallowed hstep
    rcases h t request reply t' hinv hallowed hstep with ⟨hexpected, hinv'⟩
    exact ⟨hexpected, t', hstep, rfl, hinv'⟩
  rcases hsimulates.pool hspawn ⟨rfl, hinv⟩ hsteps with ⟨_, _, _, hinv'⟩
  exact hinv'

end Library
end ObjectStore
