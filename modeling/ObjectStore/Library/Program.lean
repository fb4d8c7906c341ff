import Mathlib

/-!
# Library - Programs that make calls

A program is a tree: it is done, or it makes a call to its environment and goes on with
the reply.  What a call does is a step relation on the environment's state, so that the
same program can be run alone, next to others, on reliable or on failing services.

Main definitions:

- `Program` with its monad structure; `Program.both` and `Program.joinAll`, which run
  programs side by side.
- `Program.Runs` and `Program.Ensures`: one program alone, and its weakest precondition.
- `Logged`, `Traced`: steps that keep a record of calls and replies, or of states as well;
  `Program.EnsuresTraced`: a postcondition about such a record.
- `PoolStep`: programs that take turns, call by call.
- `Program.EnsuresUnder`: a postcondition that survives what others do meanwhile.
- `Discipline` and `Program.Follows`: ghost state that each program of a pool owns.

Main results:

- Theorems `Program.runs_bind_iff`, `Program.Ensures.of_bind`: the runs of a sequential
  composition, and the rule for it.
- Theorems `Program.EnsuresUnder.both`, `joinAll`: the rules for parallel composition.
- Theorem `Discipline.reachable`: the rule for a pool that grows and never ends.
-/

namespace ObjectStore
namespace Library

/-- A program with calls `Call` whose replies have the type `Reply`. -/
inductive Program (Call : Type) (Reply : Call → Type) (α : Type) where
  | done (value : α)
  | call (request : Call) (next : Reply request → Program Call Reply α)

/-- What the environment may do on a call. -/
abbrev Step (σ Call : Type) (Reply : Call → Type) : Type :=
  σ → (request : Call) → Reply request → σ → Prop

variable {σ Call : Type} {Reply : Call → Type} {α β : Type}

namespace Program

/-- Run `self`, then go on with its value. -/
def bind (self : Program Call Reply α) (f : α → Program Call Reply β) : Program Call Reply β :=
  match self with
  | .done value => f value
  | .call request next => .call request fun reply => (next reply).bind f

instance : Monad (Program Call Reply) where
  pure := .done
  bind := bind

/-- A single call. -/
def perform (request : Call) : Program Call Reply (Reply request) :=
  .call request .done

@[simp]
theorem pure_eq (value : α) : (pure value : Program Call Reply α) = .done value := rfl

@[simp]
theorem done_bind (value : α) (f : α → Program Call Reply β) :
    (Program.done value : Program Call Reply α) >>= f = f value := rfl

@[simp]
theorem call_bind (request : Call) (next : Reply request → Program Call Reply α)
    (f : α → Program Call Reply β) :
    Program.call request next >>= f = .call request fun reply => next reply >>= f := rfl

@[simp]
theorem perform_bind (request : Call) (f : Reply request → Program Call Reply β) :
    perform request >>= f = .call request f := rfl

theorem bind_assoc {γ : Type} (program : Program Call Reply α) (f : α → Program Call Reply β)
    (g : β → Program Call Reply γ) :
    (program >>= f) >>= g = program >>= fun value => f value >>= g := by
  induction program with
  | done value => rfl
  | call request next ih => exact congrArg (Program.call request) (funext ih)

/-! ## Programs side by side -/

/-- `request` is the next call of the first program, and the argument is the second one. -/
def bothPending (turn : Call) (first : Reply turn → Bool) (request : Call)
    (next : Reply request → Program Call Reply β → Program Call Reply (α × β)) :
    Program Call Reply β → Program Call Reply (α × β)
  | .done value => .call request fun reply => next reply (.done value)
  | .call request' next' =>
      .call turn fun reply =>
        if first reply then .call request fun reply => next reply (.call request' next')
        else .call request' fun reply => bothPending turn first request next (next' reply)

/-- Two programs in turns; the reply to `turn` says which one makes its next call. -/
def both (turn : Call) (first : Reply turn → Bool) :
    Program Call Reply α → Program Call Reply β → Program Call Reply (α × β)
  | .done value => fun other => other >>= fun value' => .done (value, value')
  | .call request next =>
      bothPending turn first request fun reply => both turn first (next reply)

/-- All programs in turns; their values are listed in the order of the programs. -/
def joinAll (turn : Call) (first : Reply turn → Bool) :
    List (Program Call Reply α) → Program Call Reply (List α)
  | [] => .done []
  | program :: programs =>
      both turn first program (joinAll turn first programs) >>= fun (value, values) =>
        .done (value :: values)

/-! ## One program alone -/

/-- The program runs from one state to another and returns a value. -/
inductive Runs (step : Step σ Call Reply) : Program Call Reply α → σ → α → σ → Prop where
  | done (value : α) (s : σ) : Runs step (.done value) s value s
  | call {request : Call} {next : Reply request → Program Call Reply α} {reply : Reply request}
      {s s' s'' : σ} {value : α} (hstep : step s request reply s')
      (hrest : Runs step (next reply) s' value s'') : Runs step (.call request next) s value s''

/-- Every run that ends establishes `post`. -/
def Ensures (step : Step σ Call Reply) : Program Call Reply α → (α → σ → Prop) → σ → Prop
  | .done value, post, s => post value s
  | .call request next, post, s =>
      ∀ reply s', step s request reply s' → (next reply).Ensures step post s'

variable {step : Step σ Call Reply}

theorem Runs.ensures {program : Program Call Reply α} {post : α → σ → Prop} {s s' : σ}
    {value : α} (h : program.Runs step s value s') (hensures : program.Ensures step post s) :
    post value s' := by
  induction h with
  | done value s => exact hensures
  | call hstep _ ih => exact ih (hensures _ _ hstep)

theorem ensures_of_runs {program : Program Call Reply α} {post : α → σ → Prop} {s : σ}
    (h : ∀ value s', program.Runs step s value s' → post value s') :
    program.Ensures step post s := by
  induction program generalizing s with
  | done value => exact h value s (.done value s)
  | call request next ih =>
      intro reply t hstep
      exact ih reply fun value s' hruns => h value s' (.call hstep hruns)

theorem Ensures.mono {program : Program Call Reply α} {post post' : α → σ → Prop} {s : σ}
    (h : program.Ensures step post s) (himp : ∀ value s, post value s → post' value s) :
    program.Ensures step post' s := by
  induction program generalizing s with
  | done value => exact himp _ _ h
  | call request next ih => exact fun reply s' hstep => ih reply (h reply s' hstep)

theorem Ensures.and {program : Program Call Reply α} {post post' : α → σ → Prop} {s : σ}
    (h : program.Ensures step post s) (h' : program.Ensures step post' s) :
    program.Ensures step (fun value s => post value s ∧ post' value s) s := by
  induction program generalizing s with
  | done value => exact ⟨h, h'⟩
  | call request next ih =>
      exact fun reply s' hstep => ih reply (h reply s' hstep) (h' reply s' hstep)

/-- A run of a sequence is a run of its first part and a run of the rest. -/
theorem runs_bind_iff {program : Program Call Reply α} {f : α → Program Call Reply β} {s s' : σ}
    {value : β} :
    (program >>= f).Runs step s value s' ↔
      ∃ value₁ s₁, program.Runs step s value₁ s₁ ∧ (f value₁).Runs step s₁ value s' := by
  induction program generalizing s with
  | done found =>
      constructor
      · intro h
        exact ⟨found, s, .done found s, h⟩
      · rintro ⟨value₁, s₁, hfirst, hrest⟩
        cases hfirst
        exact hrest
  | call request next ih =>
      constructor
      · intro h
        cases h with
        | call hstep hrest =>
            rcases (ih _).mp hrest with ⟨value₁, s₁, hfirst, hlater⟩
            exact ⟨value₁, s₁, .call hstep hfirst, hlater⟩
      · rintro ⟨value₁, s₁, hfirst, hrest⟩
        cases hfirst with
        | call hstep hfirst => exact .call hstep ((ih _).mpr ⟨value₁, s₁, hfirst, hrest⟩)

/-- Fewer steps make fewer runs. -/
theorem Runs.mono {step' : Step σ Call Reply}
    (hsteps : ∀ s request reply s', step s request reply s' → step' s request reply s')
    {program : Program Call Reply α} {s s' : σ} {value : α} (h : program.Runs step s value s') :
    program.Runs step' s value s' := by
  induction h with
  | done value s => exact .done value s
  | call hstep _ ih => exact .call (hsteps _ _ _ _ hstep) ih

theorem Ensures.anti {step' : Step σ Call Reply}
    (hsteps : ∀ s request reply s', step' s request reply s' → step s request reply s')
    {program : Program Call Reply α} {post : α → σ → Prop} {s : σ}
    (h : program.Ensures step post s) : program.Ensures step' post s := by
  induction program generalizing s with
  | done value => exact h
  | call request next ih =>
      exact fun reply s' hstep => ih reply (h reply s' (hsteps _ _ _ _ hstep))

/-- Sequential composition. -/
theorem Ensures.of_bind {program : Program Call Reply α} {f : α → Program Call Reply β}
    {post : β → σ → Prop} {s : σ}
    (h : program.Ensures step (fun value s => (f value).Ensures step post s) s) :
    (program >>= f).Ensures step post s := by
  induction program generalizing s with
  | done value => exact h
  | call request next ih => exact fun reply s' hstep => ih reply (h reply s' hstep)

/-- The program makes calls of a certain kind only. -/
def Only (P : Call → Prop) : Program Call Reply α → Prop
  | .done _ => True
  | .call request next => P request ∧ ∀ reply, (next reply).Only P

theorem Only.mono {P Q : Call → Prop} {program : Program Call Reply α} (h : program.Only P)
    (himp : ∀ request, P request → Q request) : program.Only Q := by
  induction program with
  | done value => trivial
  | call request next ih => exact ⟨himp request h.1, fun reply => ih reply (h.2 reply)⟩

theorem only_true (program : Program Call Reply α) : program.Only fun _ => True := by
  induction program with
  | done value => trivial
  | call request next ih => exact ⟨trivial, ih⟩

theorem Only.of_bind {P : Call → Prop} {program : Program Call Reply α}
    {f : α → Program Call Reply β} (h : program.Only P) (hf : ∀ value, (f value).Only P) :
    (program >>= f).Only P := by
  induction program with
  | done value => exact hf value
  | call request next ih => exact ⟨h.1, fun reply => ih reply (h.2 reply)⟩

theorem Only.both {P : Call → Prop} {turn : Call} {first : Reply turn → Bool} (hturn : P turn)
    {left : Program Call Reply α} {right : Program Call Reply β} (hleft : left.Only P)
    (hright : right.Only P) : (both turn first left right).Only P := by
  induction left generalizing right with
  | done value => exact hright.of_bind fun _ => trivial
  | call request next ih =>
      induction right with
      | done value => exact ⟨hleft.1, fun reply => ih reply (hleft.2 reply) trivial⟩
      | call request' next' ih' =>
          refine ⟨hturn, fun reply => ?_⟩
          dsimp only
          split
          · exact ⟨hleft.1, fun reply => ih reply (hleft.2 reply) hright⟩
          · exact ⟨hright.1, fun reply => ih' reply (hright.2 reply)⟩

theorem Only.joinAll {P : Call → Prop} {turn : Call} {first : Reply turn → Bool} (hturn : P turn)
    {programs : List (Program Call Reply α)} (h : ∀ program ∈ programs, program.Only P) :
    (joinAll turn first programs).Only P := by
  induction programs with
  | nil => trivial
  | cons program programs ih =>
      have hothers := ih fun other hother => h other (List.mem_cons_of_mem _ hother)
      have hboth : (Program.both turn first program (Program.joinAll turn first programs)).Only P :=
        .both hturn (h program List.mem_cons_self) hothers
      exact hboth.of_bind fun _ => trivial

/-- An invariant of the calls that a program makes. -/
theorem Only.ensures {P : Call → Prop} {inv : σ → Prop} {program : Program Call Reply α} {s : σ}
    (h : program.Only P) (hs : inv s)
    (hstep : ∀ s request reply s', P request → inv s → step s request reply s' → inv s') :
    program.Ensures step (fun _ s' => inv s') s := by
  induction program generalizing s with
  | done value => exact hs
  | call request next ih =>
      exact fun reply s' hreply => ih reply (h.2 reply) (hstep s request reply s' h.1 hs hreply)

/-- A program whose calls are always answered runs to its end. -/
theorem exists_runs {P : Call → Prop} {program : Program Call Reply α} (h : program.Only P)
    (hstep : ∀ (s : σ) (request : Call), P request → ∃ reply s', step s request reply s')
    (s : σ) : ∃ value s', program.Runs step s value s' := by
  induction program generalizing s with
  | done value => exact ⟨value, s, .done value s⟩
  | call request next ih =>
      rcases hstep s request h.1 with ⟨reply, s', hreply⟩
      rcases ih reply (h.2 reply) s' with ⟨value, s'', hrest⟩
      exact ⟨value, s'', .call hreply hrest⟩

/-- Run the program along a list of choices for what the environment leaves open. -/
def replay {Choice : Type} (serve : σ → (request : Call) → Choice → Option (Reply request × σ)) :
    Program Call Reply α → List Choice → σ → Option (α × σ)
  | .done value, _, s => some (value, s)
  | .call _ _, [], _ => none
  | .call request next, choice :: choices, s =>
      match serve s request choice with
      | some (reply, s') => (next reply).replay serve choices s'
      | none => none

theorem runs_of_replay {Choice : Type}
    {serve : σ → (request : Call) → Choice → Option (Reply request × σ)}
    (hserve : ∀ s request choice reply s', serve s request choice = some (reply, s') →
      step s request reply s')
    {program : Program Call Reply α} {choices : List Choice} {s s' : σ} {value : α}
    (h : program.replay serve choices s = some (value, s')) : program.Runs step s value s' := by
  induction program generalizing choices s with
  | done value =>
      cases h
      exact .done _ _
  | call request next ih =>
      cases choices with
      | nil => cases h
      | cons choice choices =>
          unfold replay at h
          split at h
          · rename_i reply t hreply
            exact .call (hserve s request choice reply t hreply) (ih reply h)
          · cases h

end Program

/-! ## Records of calls -/

/-- A call with its reply. -/
abbrev Event (Call : Type) (Reply : Call → Type) : Type :=
  (request : Call) × Reply request

/-- The steps of `step`, next to the record of all calls so far. -/
def Logged (step : Step σ Call Reply) :
    Step (σ × List (Event Call Reply)) Call Reply :=
  fun (s, log) request reply (s', log') =>
    step s request reply s' ∧ log' = log ++ [⟨request, reply⟩]

/-- A function that picks steps, next to the record. -/
def serveLogged {Choice : Type}
    (serve : σ → (request : Call) → Choice → Option (Reply request × σ))
    (state : σ × List (Event Call Reply)) (request : Call) (choice : Choice) :
    Option (Reply request × (σ × List (Event Call Reply))) :=
  (serve state.1 request choice).map fun (reply, s') =>
    (reply, (s', state.2 ++ [⟨request, reply⟩]))

theorem logged_of_serveLogged {Choice : Type}
    {serve : σ → (request : Call) → Choice → Option (Reply request × σ)}
    {step : Step σ Call Reply}
    (hserve : ∀ s request choice reply s', serve s request choice = some (reply, s') →
      step s request reply s')
    (state : σ × List (Event Call Reply)) (request : Call) (choice : Choice)
    (reply : Reply request) (state' : σ × List (Event Call Reply))
    (h : serveLogged serve state request choice = some (reply, state')) :
    Logged step state request reply state' := by
  rcases Option.map_eq_some_iff.mp h with ⟨⟨found, s'⟩, hfound, heq⟩
  cases heq
  exact ⟨hserve _ _ _ _ _ hfound, rfl⟩

/-- A call with its reply and the states around it. -/
structure Transition (σ Call : Type) (Reply : Call → Type) where
  before : σ
  request : Call
  reply : Reply request
  after : σ

/-- The steps of `step`, next to the trace of all steps so far. -/
def Traced (step : Step σ Call Reply) : Step (σ × List (Transition σ Call Reply)) Call Reply :=
  fun (s, trace) request reply (s', trace') =>
    step s request reply s' ∧ trace' = trace ++ [⟨s, request, reply, s'⟩]

/-- Every run leaves a trace. -/
theorem Program.Runs.traced {step : Step σ Call Reply} {program : Program Call Reply α}
    {s s' : σ} {value : α} (h : program.Runs step s value s')
    (trace : List (Transition σ Call Reply)) :
    ∃ trace', program.Runs (Traced step) (s, trace) value (s', trace') := by
  induction h generalizing trace with
  | done value s => exact ⟨trace, .done value (s, trace)⟩
  | @call request next reply s t s'' value hstep _ ih =>
      rcases ih (trace ++ [⟨s, request, reply, t⟩]) with ⟨trace', hrest⟩
      have hfirst : Traced step (s, trace) request reply
          (t, trace ++ [⟨s, request, reply, t⟩]) := ⟨hstep, rfl⟩
      exact ⟨trace', .call hfirst hrest⟩

/-- Every run that ends establishes `post`, which also speaks about the steps of the run. -/
def Program.EnsuresTraced (step : Step σ Call Reply) :
    Program Call Reply α → (α → List (Transition σ Call Reply) → σ → Prop) → σ → Prop
  | .done value, post, s => post value [] s
  | .call request next, post, s =>
      ∀ reply s', step s request reply s' →
        (next reply).EnsuresTraced step
          (fun value events s'' => post value (⟨s, request, reply, s'⟩ :: events) s'') s'

namespace Program

variable {step : Step σ Call Reply}

theorem Runs.ensuresTraced {program : Program Call Reply α}
    {post : α → List (Transition σ Call Reply) → σ → Prop} {s s' : σ} {value : α}
    {trace trace' : List (Transition σ Call Reply)}
    (h : program.Runs (Traced step) (s, trace) value (s', trace'))
    (hensures : program.EnsuresTraced step post s) :
    ∃ events, trace' = trace ++ events ∧ post value events s' := by
  induction program generalizing s trace post with
  | done found =>
      cases h
      exact ⟨[], (List.append_nil _).symm, hensures⟩
  | call request next ih =>
      cases h with
      | @call _ _ reply _ state _ _ hstep hrest =>
          rcases state with ⟨s₁, trace₁⟩
          rcases hstep with ⟨hstep, htrace⟩
          rcases ih reply hrest (hensures reply s₁ hstep) with ⟨events, hevents, hpost⟩
          refine ⟨_, ?_, hpost⟩
          rw [hevents, htrace, List.append_assoc, List.singleton_append]

theorem EnsuresTraced.mono {program : Program Call Reply α}
    {post post' : α → List (Transition σ Call Reply) → σ → Prop} {s : σ}
    (h : program.EnsuresTraced step post s)
    (himp : ∀ value events s', post value events s' → post' value events s') :
    program.EnsuresTraced step post' s := by
  induction program generalizing s post post' with
  | done value => exact himp _ _ _ h
  | call request next ih =>
      exact fun reply s' hstep =>
        ih reply (h reply s' hstep) fun value events s'' => himp value _ s''

/-- Sequential composition. -/
theorem EnsuresTraced.of_bind {program : Program Call Reply α} {f : α → Program Call Reply β}
    {post : β → List (Transition σ Call Reply) → σ → Prop} {s : σ}
    (h : program.EnsuresTraced step (fun value events s₁ =>
      (f value).EnsuresTraced step (fun value' rest s' => post value' (events ++ rest) s') s₁) s) :
    (program >>= f).EnsuresTraced step post s := by
  induction program generalizing s post with
  | done value => exact h
  | call request next ih => exact fun reply s' hstep => ih reply (h reply s' hstep)

/-- An invariant of the calls that a program makes, with its steps. -/
theorem Only.ensuresTraced {P : Call → Prop} {inv : σ → Prop} {program : Program Call Reply α}
    {s : σ} (h : program.Only P) (hs : inv s)
    (hstep : ∀ s request reply s', P request → inv s → step s request reply s' → inv s') :
    program.EnsuresTraced step
      (fun _ events s' => inv s' ∧ ∀ event ∈ events, P event.request) s := by
  induction program generalizing s with
  | done value => exact ⟨hs, by simp⟩
  | call request next ih =>
      intro reply s' hreply
      refine (ih reply (h.2 reply) (hstep s request reply s' h.1 hs hreply)).mono ?_
      rintro value events s'' ⟨hinv, hevents⟩
      exact ⟨hinv, List.forall_mem_cons.mpr ⟨h.1, hevents⟩⟩

/-- Every run is one behind any earlier trace. -/
theorem ensuresTraced_runs (program : Program Call Reply α) (s : σ) :
    program.EnsuresTraced step (fun value events s' => ∀ earlier,
      program.Runs (Traced step) (s, earlier) value (s', earlier ++ events)) s := by
  induction program generalizing s with
  | done value =>
      intro earlier
      rw [List.append_nil]
      exact .done value (s, earlier)
  | call request next ih =>
      intro reply s' hstep
      refine (ih reply s').mono fun value events s'' hruns earlier => ?_
      have hrest := hruns (earlier ++ [⟨s, request, reply, s'⟩])
      rw [List.append_assoc, List.singleton_append] at hrest
      have hfirst : Traced step (s, earlier) request reply
          (s', earlier ++ [⟨s, request, reply, s'⟩]) := ⟨hstep, rfl⟩
      exact .call hfirst hrest

/-- The trace of a run is made of steps. -/
theorem ensuresTraced_steps (program : Program Call Reply α) (s : σ) :
    program.EnsuresTraced step (fun _ events _ => ∀ event ∈ events,
      step event.before event.request event.reply event.after) s := by
  induction program generalizing s with
  | done value => exact fun event hevent => by cases hevent
  | call request next ih =>
      intro reply s' hstep
      refine (ih reply s').mono fun value events s'' hevents => ?_
      exact List.forall_mem_cons.mpr ⟨hstep, hevents⟩

end Program

/-! ## Pools -/

/-- One program of the pool makes its next call, or a new program joins. -/
inductive PoolStep (step : Step σ Call Reply) (spawnable : Program Call Reply α → Prop) :
    σ × List (Program Call Reply α) → σ × List (Program Call Reply α) → Prop where
  | run {s s' : σ} {programs : List (Program Call Reply α)} {i : Nat} {request : Call}
      {next : Reply request → Program Call Reply α} {reply : Reply request}
      (hi : programs[i]? = some (.call request next)) (hstep : step s request reply s') :
      PoolStep step spawnable (s, programs) (s', programs.set i (next reply))
  | spawn {s : σ} {programs : List (Program Call Reply α)} {program : Program Call Reply α}
      (hprogram : spawnable program) :
      PoolStep step spawnable (s, programs) (s, programs ++ [program])

variable {step : Step σ Call Reply}

/-- A program of a pool may run to its end while the others wait. -/
theorem Program.Runs.pool {spawnable : Program Call Reply α → Prop}
    {program : Program Call Reply α} {s s' : σ} {value : α} (h : program.Runs step s value s')
    {programs : List (Program Call Reply α)} {i : Nat} (hi : programs[i]? = some program) :
    Relation.ReflTransGen (PoolStep step spawnable) (s, programs)
      (s', programs.set i (.done value)) := by
  induction h generalizing programs with
  | done value s =>
      rcases List.getElem?_eq_some_iff.mp hi with ⟨hlt, hself⟩
      rw [← hself, List.set_getElem_self]
  | call hstep _ ih =>
      have hlt := (List.getElem?_eq_some_iff.mp hi).1
      have hrest := ih (List.getElem?_set_self hlt)
      rw [List.set_set] at hrest
      exact .head (.run hi hstep) hrest

/-- The steps of `step`, with what others do in front of each. -/
def Amid (rely : σ → σ → Prop) (step : Step σ Call Reply) : Step σ Call Reply :=
  fun s request reply s'' => ∃ s', rely s s' ∧ step s' request reply s''

theorem Amid.mono {rely rely' : σ → σ → Prop} {step step' : Step σ Call Reply}
    (hrely : ∀ s s', rely s s' → rely' s s')
    (hsteps : ∀ s request reply s', step s request reply s' → step' s request reply s')
    {s s' : σ} {request : Call} {reply : Reply request} (h : Amid rely step s request reply s') :
    Amid rely' step' s request reply s' := by
  rcases h with ⟨t, ht, hstep⟩
  exact ⟨t, hrely _ _ ht, hsteps _ _ _ _ hstep⟩

/-- Every run of the program establishes `post`, while other programs change the state as
`rely` says; the program itself changes it no further. -/
def Program.EnsuresUnder (step : Step σ Call Reply) (rely : σ → σ → Prop) :
    Program Call Reply α → (α → σ → Prop) → σ → Prop
  | .done value, post, s => ∀ s', rely s s' → post value s'
  | .call request next, post, s =>
      ∀ s', rely s s' → ∀ reply s'', step s' request reply s'' →
        rely s' s'' ∧ (next reply).EnsuresUnder step rely post s''

theorem Program.EnsuresUnder.of_rely {rely : σ → σ → Prop}
    (htrans : ∀ a b c, rely a b → rely b c → rely a c) {program : Program Call Reply α}
    {post : α → σ → Prop} {s s' : σ} (h : program.EnsuresUnder step rely post s)
    (hrely : rely s s') : program.EnsuresUnder step rely post s' := by
  cases program with
  | done value => exact fun s'' hs => h s'' (htrans _ _ _ hrely hs)
  | call request next => exact fun s'' hs => h s'' (htrans _ _ _ hrely hs)

namespace Program

variable {rely : σ → σ → Prop}

theorem EnsuresUnder.mono {program : Program Call Reply α} {post post' : α → σ → Prop} {s : σ}
    (h : program.EnsuresUnder step rely post s)
    (himp : ∀ value s, post value s → post' value s) :
    program.EnsuresUnder step rely post' s := by
  induction program generalizing s with
  | done value => exact fun s' hs => himp value s' (h s' hs)
  | call request next ih =>
      intro s' hs reply s'' hstep
      rcases h s' hs reply s'' hstep with ⟨hself, hnext⟩
      exact ⟨hself, ih reply hnext⟩

/-- What holds at the end also holds in whatever the others make of it. -/
theorem EnsuresUnder.stable (htrans : ∀ a b c, rely a b → rely b c → rely a c)
    {program : Program Call Reply α} {post : α → σ → Prop} {s : σ}
    (h : program.EnsuresUnder step rely post s) :
    program.EnsuresUnder step rely (fun value s => ∀ s', rely s s' → post value s') s := by
  induction program generalizing s with
  | done value => exact fun s' hs s'' hs' => h s'' (htrans _ _ _ hs hs')
  | call request next ih =>
      intro s' hs reply s'' hstep
      rcases h s' hs reply s'' hstep with ⟨hself, hnext⟩
      exact ⟨hself, ih reply hnext⟩

/-- Sequential composition. -/
theorem EnsuresUnder.of_bind (hrefl : ∀ s, rely s s) {program : Program Call Reply α}
    {f : α → Program Call Reply β} {post : β → σ → Prop} {s : σ}
    (h : program.EnsuresUnder step rely
      (fun value s => (f value).EnsuresUnder step rely post s) s) :
    (program >>= f).EnsuresUnder step rely post s := by
  induction program generalizing s with
  | done value => exact h s (hrefl s)
  | call request next ih =>
      intro s' hs reply s'' hstep
      rcases h s' hs reply s'' hstep with ⟨hself, hnext⟩
      exact ⟨hself, ih reply hnext⟩

/-- The program and the others together have moved as `rely` says. -/
theorem EnsuresUnder.related (hrefl : ∀ s, rely s s)
    (htrans : ∀ a b c, rely a b → rely b c → rely a c) {program : Program Call Reply α}
    {post : α → σ → Prop} {s : σ} (h : program.EnsuresUnder step rely post s) :
    program.EnsuresUnder step rely (fun value s' => rely s s' ∧ post value s') s := by
  have hfrom : ∀ {t : σ}, rely s t → program.EnsuresUnder step rely post t →
      program.EnsuresUnder step rely (fun value s' => rely s s' ∧ post value s') t := by
    clear h
    induction program with
    | done value => exact fun hrely h t' ht => ⟨htrans _ _ _ hrely ht, h t' ht⟩
    | call request next ih =>
        intro t hrely h t' ht reply t'' hstep
        rcases h t' ht reply t'' hstep with ⟨hself, hnext⟩
        exact ⟨hself, ih reply (htrans _ _ _ hrely (htrans _ _ _ ht hself)) hnext⟩
  exact hfrom (hrefl s) h

/-- Alone, with others in between. -/
theorem EnsuresUnder.amid (hrefl : ∀ s, rely s s) {program : Program Call Reply α}
    {post : α → σ → Prop} {s : σ} (h : program.EnsuresUnder step rely post s) :
    program.Ensures (Amid rely step) post s := by
  induction program generalizing s with
  | done value => exact h s (hrefl s)
  | call request next ih =>
      intro reply s'' hstep
      rcases hstep with ⟨s', hs, hstep⟩
      exact ih reply (h s' hs reply s'' hstep).2

variable {turn : Call} {first : Reply turn → Bool}

/-- Parallel composition of two programs that respect `rely`. -/
theorem EnsuresUnder.both (hrefl : ∀ s, rely s s)
    (htrans : ∀ a b c, rely a b → rely b c → rely a c)
    (hturn : ∀ s reply s', step s turn reply s' → rely s s') {left : Program Call Reply α}
    {right : Program Call Reply β} {post : α → σ → Prop} {post' : β → σ → Prop} {s : σ}
    (hleft : left.EnsuresUnder step rely post s)
    (hright : right.EnsuresUnder step rely post' s) :
    (both turn first left right).EnsuresUnder step rely
      (fun values s => post values.1 s ∧ post' values.2 s) s := by
  induction left generalizing right s with
  | done value =>
      refine EnsuresUnder.of_bind hrefl ?_
      have hstays : ∀ {t : σ}, rely s t → right.EnsuresUnder step rely post' t →
          right.EnsuresUnder step rely (fun value' s => ∀ s', rely s s' →
            post value s' ∧ post' value' s') t := by
        clear hright
        induction right with
        | done value' =>
            intro t hs h t' ht t'' ht'
            exact ⟨hleft t'' (htrans _ _ _ hs (htrans _ _ _ ht ht')),
              h t'' (htrans _ _ _ ht ht')⟩
        | call request next ih =>
            intro t hs h t' ht reply t'' hstep
            rcases h t' ht reply t'' hstep with ⟨hself, hnext⟩
            exact ⟨hself, ih reply (htrans _ _ _ hs (htrans _ _ _ ht hself)) hnext⟩
      exact hstays (hrefl s) hright
  | call request next ih =>
      induction right generalizing s with
      | done value =>
          intro s' hs reply s'' hstep
          rcases hleft s' hs reply s'' hstep with ⟨hself, hnext⟩
          exact ⟨hself, ih reply hnext (hright.of_rely htrans (htrans _ _ _ hs hself))⟩
      | call request' next' ih' =>
          intro s' hs reply s'' hstep
          have hpicked := hturn s' reply s'' hstep
          have hleft' := hleft.of_rely htrans (htrans _ _ _ hs hpicked)
          have hright' := hright.of_rely htrans (htrans _ _ _ hs hpicked)
          refine ⟨hpicked, ?_⟩
          dsimp only
          split
          · intro t ht reply t' hstep'
            rcases hleft' t ht reply t' hstep' with ⟨hself, hnext⟩
            exact ⟨hself, ih reply hnext (hright'.of_rely htrans (htrans _ _ _ ht hself))⟩
          · intro t ht reply t' hstep'
            rcases hright' t ht reply t' hstep' with ⟨hself, hnext⟩
            exact ⟨hself, ih' reply (hleft'.of_rely htrans (htrans _ _ _ ht hself)) hnext⟩

/-- Parallel composition of any number of programs. -/
theorem EnsuresUnder.joinAll (hrefl : ∀ s, rely s s)
    (htrans : ∀ a b c, rely a b → rely b c → rely a c)
    (hturn : ∀ s reply s', step s turn reply s' → rely s s') {ι : Type}
    {items : List ι} {program : ι → Program Call Reply α} {post : ι → α → σ → Prop} {s : σ}
    (h : ∀ item ∈ items, (program item).EnsuresUnder step rely (post item) s) :
    (joinAll turn first (items.map program)).EnsuresUnder step rely
      (fun values s => List.Forall₂ (fun item value => post item value s) items values) s := by
  induction items with
  | nil => exact fun _ _ => .nil
  | cons item items ih =>
      have hrest := ih fun other hother => h other (List.mem_cons_of_mem _ hother)
      have hboth := @EnsuresUnder.both σ Call Reply α (List α) step rely turn first hrefl htrans
        hturn _ _ _ _ s (h item List.mem_cons_self) hrest
      refine EnsuresUnder.of_bind hrefl ((hboth.stable htrans).mono ?_)
      intro values t hvalues t' ht
      rcases hvalues t' ht with ⟨hvalue, hothers⟩
      exact .cons hvalue hothers

end Program

/-! ## Ghost state -/

/-- A rule for calls in terms of ghost state: what the owner of a ghost may call, how the
reply changes its ghost, and a global invariant that every permitted call keeps. -/
structure Discipline (step : Step σ Call Reply) (Ghost : Type) where
  permits : Ghost → Call → Prop
  after : Ghost → (request : Call) → Reply request → Ghost
  inv : σ → (Nat → Ghost) → Prop
  preserved : ∀ {s s' : σ} {ghosts : Nat → Ghost} {i : Nat} {request : Call}
    {reply : Reply request}, inv s ghosts → permits (ghosts i) request →
      step s request reply s' →
        inv s' (Function.update ghosts i (after (ghosts i) request reply))

variable {Ghost : Type}

/-- The program only makes permitted calls and ends with `post`. -/
def Program.Follows (discipline : Discipline step Ghost) :
    Program Call Reply α → (α → Ghost → Prop) → Ghost → Prop
  | .done value, post, ghost => post value ghost
  | .call request next, post, ghost =>
      discipline.permits ghost request ∧
        ∀ reply, (next reply).Follows discipline post (discipline.after ghost request reply)

theorem Program.Follows.of_bind {discipline : Discipline step Ghost}
    {program : Program Call Reply α} {f : α → Program Call Reply β} {post : β → Ghost → Prop}
    {ghost : Ghost}
    (h : program.Follows discipline (fun value ghost => (f value).Follows discipline post ghost)
      ghost) : (program >>= f).Follows discipline post ghost := by
  induction program generalizing ghost with
  | done value => exact h
  | call request next ih => exact ⟨h.1, fun reply => ih reply (h.2 reply)⟩

theorem Program.Follows.mono {discipline : Discipline step Ghost} {program : Program Call Reply α}
    {post post' : α → Ghost → Prop} {ghost : Ghost} (h : program.Follows discipline post ghost)
    (himp : ∀ value ghost, post value ghost → post' value ghost) :
    program.Follows discipline post' ghost := by
  induction program generalizing ghost with
  | done value => exact himp _ _ h
  | call request next ih => exact ⟨h.1, fun reply => ih reply (h.2 reply)⟩

/-- Calls that need no ghost and leave it as it is. -/
theorem Program.Only.follows {discipline : Discipline step Ghost} {P : Call → Prop}
    {program : Program Call Reply α} {ghost : Ghost} (h : program.Only P)
    (hP : ∀ request, P request → discipline.permits ghost request ∧
      ∀ reply, discipline.after ghost request reply = ghost) :
    program.Follows discipline (fun _ after => after = ghost) ghost := by
  induction program with
  | done value => rfl
  | call request next ih =>
      refine ⟨(hP request h.1).1, fun reply => ?_⟩
      rw [(hP request h.1).2 reply]
      exact ih reply (h.2 reply)

/-- In every state of a growing pool of such programs the invariant holds, and every
program still follows the discipline. -/
theorem Discipline.reachable (discipline : Discipline step Ghost)
    {spawnable : Program Call Reply α → Prop} {idle : Ghost}
    (hspawn : ∀ program, spawnable program →
      program.Follows discipline (fun _ _ => True) idle)
    {s s' : σ} {programs : List (Program Call Reply α)}
    (hstart : discipline.inv s fun _ => idle)
    (hsteps : Relation.ReflTransGen (PoolStep step spawnable) (s, []) (s', programs)) :
    ∃ ghosts, discipline.inv s' ghosts ∧
      ∀ (i : Nat) (program : Program Call Reply α), programs[i]? = some program →
        program.Follows discipline (fun _ _ => True) (ghosts i) := by
  -- the ghosts behind the end of the pool are idle, ready for the next program
  have hinv : ∃ ghosts, discipline.inv s' ghosts ∧
      (∀ (i : Nat) (program : Program Call Reply α), programs[i]? = some program →
        program.Follows discipline (fun _ _ => True) (ghosts i)) ∧
      ∀ i, programs.length ≤ i → ghosts i = idle := by
    generalize hfinal : (s', programs) = final at hsteps
    induction hsteps generalizing s' programs with
    | refl =>
        cases hfinal
        exact ⟨fun _ => idle, hstart, by simp, fun _ _ => rfl⟩
    | tail _ hlast ih =>
        subst hfinal
        cases hlast with
        | @spawn before others program hprogram =>
            rcases ih rfl with ⟨ghosts, hghosts, hfollows, hidle⟩
            refine ⟨ghosts, hghosts, ?_, fun i hi => hidle i ?_⟩
            · intro i other hi
              by_cases hlt : i < others.length
              · rw [List.getElem?_append_left hlt] at hi
                exact hfollows i other hi
              · rw [List.getElem?_append_right (by omega)] at hi
                have hmem := List.mem_of_getElem? hi
                rw [List.mem_singleton] at hmem
                rw [hmem, hidle i (by omega)]
                exact hspawn program hprogram
            · rw [List.length_append] at hi
              omega
        | @run before _ others j request next reply hj hstep =>
            rcases ih rfl with ⟨ghosts, hghosts, hfollows, hidle⟩
            have hlt : j < others.length := (List.getElem?_eq_some_iff.mp hj).1
            have hcall := hfollows j _ hj
            refine ⟨Function.update ghosts j (discipline.after (ghosts j) request reply),
              discipline.preserved hghosts hcall.1 hstep, ?_, ?_⟩
            · intro i program hi
              rw [List.getElem?_set] at hi
              by_cases hij : j = i
              · subst hij
                simp only [if_true, hlt, Option.some.injEq] at hi
                subst hi
                rw [Function.update_self]
                exact hcall.2 reply
              · rw [if_neg hij] at hi
                rw [Function.update_of_ne (Ne.symm hij)]
                exact hfollows i program hi
            · intro i hi
              rw [List.length_set] at hi
              rw [Function.update_of_ne (by omega)]
              exact hidle i hi
  rcases hinv with ⟨ghosts, hghosts, hfollows, _⟩
  exact ⟨ghosts, hghosts, hfollows⟩

end Library
end ObjectStore
