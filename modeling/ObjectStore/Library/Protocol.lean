import ObjectStore.Library.Program

/-!
# Library - Protocols for programs that take turns

Every program of a pool owns a ghost, and a rule says which requests it may make and which
replies it has to expect.  An invariant ties the ghosts to the state; as long as every
program keeps to the rule, the invariant holds in every interleaving, and the replies are
among the expected ones.

Main definitions:

- `Protocol`: the rule, and the invariant that it keeps.
- `Program.Obeys`: a program that keeps to the rule and ends with a postcondition.
- `Separate`, `Owned`: what ghosts own, each for itself.

Main results:

- Theorem `Program.Obeys.of_bind`: the rule for sequential composition.
- Theorem `Protocol.reachable`: the invariant holds in every pool.
- Theorem `steps_of_replayPool`: the run of a pool along a script.
- Theorems `Separate.update`, `Owned.update`: one ghost changes what it owns.
-/

namespace ObjectStore
namespace Library

variable {σ Call : Type} {Reply : Call → Type} {α β Ghost : Type} {step : Step σ Call Reply}

/-- `rule ghost request after`: the request may be made with this ghost, and then the reply and
the next ghost are related by `after`. -/
structure Protocol (step : Step σ Call Reply) (Ghost : Type) where
  rule : Ghost → (request : Call) → (Reply request → Ghost → Prop) → Prop
  inv : σ → (Nat → Ghost) → Prop
  preserved : ∀ {s s' : σ} {ghosts : Nat → Ghost} {i : Nat} {request : Call}
    {after : Reply request → Ghost → Prop} {reply : Reply request}, inv s ghosts →
      rule (ghosts i) request after → step s request reply s' →
        ∃ ghost, after reply ghost ∧ inv s' (Function.update ghosts i ghost)

variable {protocol : Protocol step Ghost}

/-! ## Programs -/

/-- The program keeps to the rule and ends with `post`. -/
def Program.Obeys (protocol : Protocol step Ghost) :
    Program Call Reply α → (α → Ghost → Prop) → Ghost → Prop
  | .done value, post, ghost => post value ghost
  | .call request next, post, ghost =>
      ∃ after, protocol.rule ghost request after ∧
        ∀ (reply : Reply request) (ghost' : Ghost), after reply ghost' →
          (next reply).Obeys protocol post ghost'

theorem Program.Obeys.of_bind {program : Program Call Reply α} {f : α → Program Call Reply β}
    {post : β → Ghost → Prop} {ghost : Ghost}
    (h : program.Obeys protocol (fun value ghost => (f value).Obeys protocol post ghost) ghost) :
    (program >>= f).Obeys protocol post ghost := by
  induction program generalizing ghost with
  | done value => exact h
  | call request next ih =>
      rcases h with ⟨after, hrule, hnext⟩
      exact ⟨after, hrule, fun reply ghost' hafter => ih reply (hnext reply ghost' hafter)⟩

theorem Program.Obeys.mono {program : Program Call Reply α} {post post' : α → Ghost → Prop}
    {ghost : Ghost} (h : program.Obeys protocol post ghost)
    (himp : ∀ value ghost, post value ghost → post' value ghost) :
    program.Obeys protocol post' ghost := by
  induction program generalizing ghost with
  | done value => exact himp _ _ h
  | call request next ih =>
      rcases h with ⟨after, hrule, hnext⟩
      exact ⟨after, hrule, fun reply ghost' hafter => ih reply (hnext reply ghost' hafter)⟩

/-- Requests that are allowed with every ghost and leave it as it is. -/
theorem Program.Only.obeys {P : Call → Prop} {program : Program Call Reply α} {ghost : Ghost}
    (h : program.Only P)
    (hP : ∀ request, P request → protocol.rule ghost request fun _ after => after = ghost) :
    program.Obeys protocol (fun _ after => after = ghost) ghost := by
  induction program with
  | done value => rfl
  | call request next ih =>
      refine ⟨_, hP request h.1, fun reply ghost' hafter => ?_⟩
      rw [hafter]
      exact ih reply (h.2 reply)

/-! ## Pools -/

/-- The invariant holds, every program goes on obeying, and behind the end of the pool there are
ghosts for programs to come. -/
structure Protocol.Kept (protocol : Protocol step Ghost) (post : α → Ghost → Prop) (idle : Ghost)
    (s : σ) (programs : List (Program Call Reply α)) (ghosts : Nat → Ghost) : Prop where
  inv : protocol.inv s ghosts
  obeys : ∀ (i : Nat) (program : Program Call Reply α), programs[i]? = some program →
    program.Obeys protocol post (ghosts i)
  idle : ∀ i, programs.length ≤ i → ghosts i = idle

variable {post : α → Ghost → Prop} {idle : Ghost} {s s' : σ}
  {programs programs' : List (Program Call Reply α)} {ghosts : Nat → Ghost}

theorem Protocol.Kept.spawn (h : protocol.Kept post idle s programs ghosts)
    {program : Program Call Reply α} (hprogram : program.Obeys protocol post idle) :
    protocol.Kept post idle s (programs ++ [program]) ghosts where
  inv := h.inv
  obeys i other hi := by
    by_cases hlt : i < programs.length
    · rw [List.getElem?_append_left hlt] at hi
      exact h.obeys i other hi
    · rw [List.getElem?_append_right (by omega)] at hi
      have hmem := List.mem_of_getElem? hi
      rw [List.mem_singleton] at hmem
      rw [hmem, h.idle i (by omega)]
      exact hprogram
  idle i hi := by
    rw [List.length_append] at hi
    exact h.idle i (by omega)

theorem Protocol.Kept.run (h : protocol.Kept post idle s programs ghosts) {j : Nat}
    {request : Call} {next : Reply request → Program Call Reply α} {reply : Reply request}
    (hj : programs[j]? = some (.call request next)) (hstep : step s request reply s') :
    ∃ ghosts', protocol.Kept post idle s' (programs.set j (next reply)) ghosts' := by
  have hlt : j < programs.length := (List.getElem?_eq_some_iff.mp hj).1
  rcases h.obeys j _ hj with ⟨after, hrule, hnext⟩
  rcases protocol.preserved h.inv hrule hstep with ⟨ghost, hafter, hinv⟩
  refine ⟨Function.update ghosts j ghost, hinv, ?_, ?_⟩
  · intro i program hi
    rw [List.getElem?_set] at hi
    by_cases hij : j = i
    · subst hij
      simp only [if_true, hlt, Option.some.injEq] at hi
      subst hi
      rw [Function.update_self]
      exact hnext reply ghost hafter
    · rw [if_neg hij] at hi
      rw [Function.update_of_ne (Ne.symm hij)]
      exact h.obeys i program hi
  · intro i hi
    rw [List.length_set] at hi
    rw [Function.update_of_ne (by omega)]
    exact h.idle i hi

/-- In every pool of programs that obey, the invariant holds. -/
theorem Protocol.reachable {spawnable : Program Call Reply α → Prop}
    (hspawn : ∀ program, spawnable program → program.Obeys protocol post idle)
    (hstart : protocol.inv s fun _ => idle)
    (hsteps : Relation.ReflTransGen (PoolStep step spawnable) (s, []) (s', programs)) :
    ∃ ghosts, protocol.Kept post idle s' programs ghosts := by
  generalize hfinal : (s', programs) = final at hsteps
  induction hsteps generalizing s' programs with
  | refl =>
      cases hfinal
      exact ⟨fun _ => idle, hstart, by simp, fun _ _ => rfl⟩
  | tail _ hlast ih =>
      subst hfinal
      cases hlast with
      | spawn hprogram =>
          rcases ih rfl with ⟨ghosts, hkept⟩
          exact ⟨ghosts, hkept.spawn (hspawn _ hprogram)⟩
      | run hj hstep =>
          rcases ih rfl with ⟨ghosts, hkept⟩
          exact hkept.run hj hstep

/-! ## Scripted pools -/

/-- The programs of a pool take turns as the script says. -/
def replayPool {Choice : Type}
    (serve : σ → (request : Call) → Choice → Option (Reply request × σ)) :
    List (Nat × Choice) → σ × List (Program Call Reply α) → Option (σ × List (Program Call Reply α))
  | [], pool => some pool
  | (i, choice) :: script, (s, programs) =>
      match programs[i]? with
      | some (.call request next) =>
          match serve s request choice with
          | some (reply, s') => replayPool serve script (s', programs.set i (next reply))
          | none => none
      | _ => none

theorem steps_of_replayPool {Choice : Type} {spawnable : Program Call Reply α → Prop}
    {serve : σ → (request : Call) → Choice → Option (Reply request × σ)}
    (hserve : ∀ s request choice reply s', serve s request choice = some (reply, s') →
      step s request reply s') {script : List (Nat × Choice)}
    {pool pool' : σ × List (Program Call Reply α)} (h : replayPool serve script pool = some pool') :
    Relation.ReflTransGen (PoolStep step spawnable) pool pool' := by
  induction script generalizing pool with
  | nil =>
      cases h
      exact .refl
  | cons turn script ih =>
      unfold replayPool at h
      split at h
      · rename_i request next hprogram
        split at h
        · rename_i reply s' hreply
          exact .head (.run hprogram (hserve _ _ _ _ _ hreply)) (ih h)
        · cases h
      · cases h

/-- The values of programs that are done. -/
def valuesOf : List (Program Call Reply α) → Option (List α)
  | [] => some []
  | .done value :: programs => (valuesOf programs).map (value :: ·)
  | .call _ _ :: _ => none

theorem eq_done_of_valuesOf {values : List α} (h : valuesOf programs = some values) :
    programs = values.map .done := by
  induction programs generalizing values with
  | nil =>
      cases h
      rfl
  | cons program programs ih =>
      cases program with
      | call request next => cases h
      | done value =>
          rcases Option.map_eq_some_iff.mp h with ⟨rest, hrest, rfl⟩
          rw [ih hrest, List.map_cons]

/-! ## What ghosts own -/

section

variable {κ ν : Type} {owns : Ghost → Option (κ × ν)} {i : Nat} {ghost : Ghost} {key : κ}

/-- No two ghosts own the same key. -/
def Separate (owns : Ghost → Option (κ × ν)) (ghosts : Nat → Ghost) : Prop :=
  ∀ (i j : Nat) (key : κ) (v w : ν), owns (ghosts i) = some (key, v) →
    owns (ghosts j) = some (key, w) → i = j

/-- Some ghost owns the key. -/
def Owned (owns : Ghost → Option (κ × ν)) (ghosts : Nat → Ghost) (key : κ) : Prop :=
  ∃ i v, owns (ghosts i) = some (key, v)

/-- A ghost takes what no other has. -/
theorem Separate.update (h : Separate owns ghosts)
    (hfree : ∀ key v, owns ghost = some (key, v) →
      ∀ j w, owns (ghosts j) = some (key, w) → j = i) :
    Separate owns (Function.update ghosts i ghost) := by
  intro j k key v w hj hk
  by_cases hji : j = i
  · by_cases hki : k = i
    · rw [hji, hki]
    · rw [hji, Function.update_self] at hj
      rw [Function.update_of_ne hki] at hk
      rw [hji, hfree key v hj k w hk]
  · rw [Function.update_of_ne hji] at hj
    by_cases hki : k = i
    · rw [hki, Function.update_self] at hk
      rw [hki, hfree key w hk j v hj]
    · rw [Function.update_of_ne hki] at hk
      exact h j k key v w hj hk

/-- A ghost keeps its key, or gives it up. -/
theorem Separate.keep (h : Separate owns ghosts)
    (hsame : ∀ key v, owns ghost = some (key, v) → ∃ w, owns (ghosts i) = some (key, w)) :
    Separate owns (Function.update ghosts i ghost) := by
  apply h.update
  intro key v hkey j w hj
  rcases hsame key v hkey with ⟨w', hi⟩
  exact h j i key w w' hj hi

theorem Owned.update (h : Owned owns ghosts key)
    (hkept : ∀ v, owns (ghosts i) = some (key, v) → ∃ w, owns ghost = some (key, w)) :
    Owned owns (Function.update ghosts i ghost) key := by
  rcases h with ⟨j, v, hj⟩
  by_cases hji : j = i
  · rw [hji] at hj
    rcases hkept v hj with ⟨w, hw⟩
    refine ⟨i, w, ?_⟩
    rw [Function.update_self]
    exact hw
  · refine ⟨j, v, ?_⟩
    rw [Function.update_of_ne hji]
    exact hj

theorem Owned.taken {v : ν} (h : owns ghost = some (key, v)) :
    Owned owns (Function.update ghosts i ghost) key := by
  refine ⟨i, v, ?_⟩
  rw [Function.update_self]
  exact h

end

end Library
end ObjectStore
