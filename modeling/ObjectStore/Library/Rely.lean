import ObjectStore.Library.Program

/-!
# Library - Programs that rely on each other

A pool of programs in which each keeps what the others rely on.  What every program
establishes under such interference holds when it ends, in every interleaving.

Main results:

- Theorem `Program.Only.ensuresUnder`: calls that are harmless by themselves.
- Theorem `Program.EnsuresUnder.of_view`: what is known of a view of the state.
- Theorem `pool_ensures`: the rule for pools.
-/

namespace ObjectStore
namespace Library

variable {σ τ Call α : Type} {Reply : Call → Type} {step : Step σ Call Reply}
  {rely : σ → σ → Prop}

namespace Program

/-- Calls that are harmless by themselves. -/
theorem Only.ensuresUnder {P : Call → Prop} {program : Program Call Reply α}
    (h : program.Only P)
    (hP : ∀ s request reply s', P request → step s request reply s' → rely s s') (s : σ) :
    program.EnsuresUnder step rely (fun _ _ => True) s := by
  induction program generalizing s with
  | done value => exact fun _ _ => trivial
  | call request next ih =>
      intro s' _ reply s'' hstep
      exact ⟨hP s' request reply s'' h.1 hstep, ih reply (h.2 reply) s''⟩

/-- What a program ensures of a view of the state, it ensures of the state.  On the view a call
may end in another state, which the others might have led on from. -/
theorem EnsuresUnder.of_view {P : Call → Prop} {view : τ → σ} {step' : Step τ Call Reply}
    {rely' : τ → τ → Prop} {inv : τ → Prop}
    (htrans : ∀ a b c, rely a b → rely b c → rely a c)
    (hrely : ∀ t t', inv t → rely' t t' → inv t' ∧ rely (view t) (view t'))
    (hstep : ∀ t request reply t', P request → inv t → step' t request reply t' →
      rely' t t' ∧ ∃ s, step (view t) request reply s ∧ rely s (view t'))
    {program : Program Call Reply α} (honly : program.Only P) {post : α → σ → Prop} {t : τ}
    (h : program.EnsuresUnder step rely post (view t)) (ht : inv t) :
    program.EnsuresUnder step' rely' (fun value t => post value (view t)) t := by
  induction program generalizing t with
  | done value => exact fun t' ht' => h _ (hrely t t' ht ht').2
  | call request next ih =>
      intro t' ht' reply t'' hcall
      rcases hrely t t' ht ht' with ⟨hinv', hview⟩
      rcases hstep t' request reply t'' honly.1 hinv' hcall with ⟨hself, s, hviewed, hs⟩
      have hinv'' := (hrely t' t'' hinv' hself).1
      have hnext := (h (view t') hview reply s hviewed).2
      exact ⟨hself, ih reply (honly.2 reply) (hnext.of_rely htrans hs) hinv''⟩

end Program

/-- The rule for pools: where every program keeps what the others rely on, the invariant holds
in every state, and what a program ensures holds when it is done. -/
theorem pool_ensures {spawnable : Program Call Reply α → Prop} {post : α → σ → Prop}
    {inv : σ → Prop} (hrefl : ∀ s, rely s s) (htrans : ∀ a b c, rely a b → rely b c → rely a c)
    (hkeeps : ∀ s s', rely s s' → inv s → inv s')
    (hspawn : ∀ program s, spawnable program → inv s → program.EnsuresUnder step rely post s)
    {s s' : σ} {programs : List (Program Call Reply α)} (hs : inv s)
    (hsteps : Relation.ReflTransGen (PoolStep step spawnable) (s, []) (s', programs)) :
    inv s' ∧ ∀ program ∈ programs, program.EnsuresUnder step rely post s' := by
  generalize hfinal : (s', programs) = final at hsteps
  induction hsteps generalizing s' programs with
  | refl =>
      cases hfinal
      exact ⟨hs, nofun⟩
  | tail _ hlast ih =>
      subst hfinal
      cases hlast with
      | @spawn before others program hprogram =>
          rcases ih rfl with ⟨hinv, hothers⟩
          refine ⟨hinv, fun other hother => ?_⟩
          rcases List.mem_append.mp hother with hother | hother
          · exact hothers other hother
          · rw [List.mem_singleton.mp hother]
            exact hspawn program _ hprogram hinv
      | @run before _ others i request next reply hi hstep =>
          rcases ih rfl with ⟨hinv, hothers⟩
          have hcall := hothers _ (List.mem_of_getElem? hi)
          rcases hcall before (hrefl before) reply _ hstep with ⟨hself, hnext⟩
          refine ⟨hkeeps _ _ hself hinv, fun other hother => ?_⟩
          rcases List.mem_or_eq_of_mem_set hother with hother | rfl
          · exact (hothers other hother).of_rely htrans hself
          · exact hnext

/-- A program that is done. -/
theorem Program.EnsuresUnder.done_post (hrefl : ∀ s, rely s s) {value : α} {post : α → σ → Prop}
    {s : σ} (h : (Program.done value : Program Call Reply α).EnsuresUnder step rely post s) :
    post value s :=
  h s (hrefl s)

end Library
end ObjectStore
