import ObjectStore.Library.Program

/-!
# Library - One writer and its readers

A writer and any number of readers share a state and take turns, call by call.  The writer
promises how each of its calls changes the state, and the readers rely on it; the readers
leave to the writer what it relies on.  The rule keeps a record of the writer's calls, which
promises may speak of.

Main definitions:

- `Program.Guarantees`: a promise about every call, and a postcondition.
- `ReadersStep`: the steps of a writer and its readers.

Main results:

- Theorem `Program.Guarantees.of_bind`: the rule for sequential composition.
- Theorem `Program.EnsuresUnder.lift`: reading seen through a view of the state.
- Theorem `ReadersStep.reachable`: the rule for a writer and its readers.
-/

namespace ObjectStore
namespace Library

variable {σ τ Call : Type} {Reply : Call → Type} {α β : Type} {step : Step σ Call Reply}
  {rely guar : σ → σ → Prop}

namespace Program

/-! ## Promises -/

/-- Every call of the program changes the state as `guar` says, while others change it as
`rely` says; in the end `post` holds. -/
def Guarantees (step : Step σ Call Reply) (rely guar : σ → σ → Prop) :
    Program Call Reply α → (α → σ → Prop) → σ → Prop
  | .done value, post, s => ∀ s', rely s s' → post value s'
  | .call request next, post, s =>
      ∀ s', rely s s' → ∀ reply s'', step s' request reply s'' →
        guar s' s'' ∧ (next reply).Guarantees step rely guar post s''

theorem Guarantees.of_rely (htrans : ∀ a b c, rely a b → rely b c → rely a c)
    {program : Program Call Reply α} {post : α → σ → Prop} {s s' : σ}
    (h : program.Guarantees step rely guar post s) (hrely : rely s s') :
    program.Guarantees step rely guar post s' := by
  cases program with
  | done value => exact fun s'' hs => h s'' (htrans _ _ _ hrely hs)
  | call request next => exact fun s'' hs => h s'' (htrans _ _ _ hrely hs)

theorem Guarantees.mono {program : Program Call Reply α} {post post' : α → σ → Prop} {s : σ}
    (h : program.Guarantees step rely guar post s)
    (himp : ∀ value s, post value s → post' value s) :
    program.Guarantees step rely guar post' s := by
  induction program generalizing s with
  | done value => exact fun s' hs => himp value s' (h s' hs)
  | call request next ih =>
      intro s' hs reply s'' hstep
      rcases h s' hs reply s'' hstep with ⟨hguar, hnext⟩
      exact ⟨hguar, ih reply hnext⟩

/-- Sequential composition. -/
theorem Guarantees.of_bind (hrefl : ∀ s, rely s s) {program : Program Call Reply α}
    {f : α → Program Call Reply β} {post : β → σ → Prop} {s : σ}
    (h : program.Guarantees step rely guar
      (fun value s => (f value).Guarantees step rely guar post s) s) :
    (program >>= f).Guarantees step rely guar post s := by
  induction program generalizing s with
  | done value => exact h s (hrefl s)
  | call request next ih =>
      intro s' hs reply s'' hstep
      rcases h s' hs reply s'' hstep with ⟨hguar, hnext⟩
      exact ⟨hguar, ih reply hnext⟩

/-! ## Reading through a view -/

/-- What a program ensures on a view of the state, it ensures on the state. -/
theorem EnsuresUnder.lift {view : σ → τ} {step' : Step τ Call Reply} {rely' : τ → τ → Prop}
    {inv : σ → Prop} {P : Call → Prop}
    (hrely : ∀ s s', inv s → rely s s' → inv s' ∧ rely' (view s) (view s'))
    (hstep : ∀ s request reply s', P request → inv s → step s request reply s' →
      step' (view s) request reply (view s') ∧ rely s s')
    {program : Program Call Reply α} (honly : program.Only P) {post : α → τ → Prop} {s : σ}
    (h : program.EnsuresUnder step' rely' post (view s)) (hs : inv s) :
    program.EnsuresUnder step rely (fun value s' => post value (view s')) s := by
  induction program generalizing s with
  | done value => exact fun s' hs' => h _ (hrely s s' hs hs').2
  | call request next ih =>
      intro s' hs' reply s'' hstep'
      rcases hrely s s' hs hs' with ⟨hinv', hview⟩
      rcases hstep s' request reply s'' honly.1 hinv' hstep' with ⟨hviewed, hself⟩
      have hinv'' := (hrely s' s'' hinv' hself).1
      exact ⟨hself, ih reply (honly.2 reply) (h _ hview reply _ hviewed).2 hinv''⟩

end Program

/-! ## A writer and its readers -/

/-- The writer or a reader makes its next call, or a new reader joins. -/
inductive ReadersStep (writerStep readerStep : Step σ Call Reply)
    (spawnable : Program Call Reply β → Prop) :
    σ × Program Call Reply α × List (Program Call Reply β) →
      σ × Program Call Reply α × List (Program Call Reply β) → Prop where
  | write {s s' : σ} {request : Call} {next : Reply request → Program Call Reply α}
      {readers : List (Program Call Reply β)} {reply : Reply request}
      (hstep : writerStep s request reply s') :
      ReadersStep writerStep readerStep spawnable (s, .call request next, readers)
        (s', next reply, readers)
  | read {s s' : σ} {writer : Program Call Reply α} {readers : List (Program Call Reply β)}
      {i : Nat} {request : Call} {next : Reply request → Program Call Reply β}
      {reply : Reply request} (hi : readers[i]? = some (.call request next))
      (hstep : readerStep s request reply s') :
      ReadersStep writerStep readerStep spawnable (s, writer, readers)
        (s', writer, readers.set i (next reply))
  | join {s : σ} {writer : Program Call Reply α} {readers : List (Program Call Reply β)}
      {reader : Program Call Reply β} (hreader : spawnable reader) :
      ReadersStep writerStep readerStep spawnable (s, writer, readers)
        (s, writer, readers ++ [reader])

/-- The steps of a reader, which leave the record of the writer's calls alone. -/
def Aside (step : Step σ Call Reply) : Step (σ × List (Event Call Reply)) Call Reply :=
  fun st request reply st' => step st.1 request reply st'.1 ∧ st'.2 = st.2

/-- When the writer keeps its promise and every reader ends well under it, then every reader
that is done has ended well, in whatever order they take their turns. -/
theorem ReadersStep.reachable {writerStep readerStep : Step σ Call Reply}
    {spawnable : Program Call Reply β → Prop}
    {guar rely : σ × List (Event Call Reply) → σ × List (Event Call Reply) → Prop}
    {inv : σ × List (Event Call Reply) → Prop} {P : Call → Prop}
    {post : β → σ × List (Event Call Reply) → Prop} {writer₀ writer : Program Call Reply α}
    {readers : List (Program Call Reply β)} {s₀ s : σ}
    (hrelyRefl : ∀ a, rely a a) (hrelyTrans : ∀ a b c, rely a b → rely b c → rely a c)
    (hguarRefl : ∀ a, guar a a) (hguarTrans : ∀ a b c, guar a b → guar b c → guar a c)
    (hinv : ∀ a b, inv a → guar a b → inv b)
    (hreads : ∀ a request reply b, P request → Aside readerStep a request reply b → rely a b)
    (hwriter : writer₀.Guarantees (Logged writerStep) rely guar (fun _ _ => True) (s₀, []))
    (hspawn : ∀ a reader, inv a → spawnable reader →
      reader.Only P ∧ reader.EnsuresUnder (Aside readerStep) guar post a)
    (hstart : inv (s₀, []))
    (hsteps : Relation.ReflTransGen (ReadersStep writerStep readerStep spawnable)
      (s₀, writer₀, []) (s, writer, readers)) :
    ∃ log, inv (s, log) ∧ ∀ value, Program.done value ∈ readers → post value (s, log) := by
  have hall : ∃ log, inv (s, log) ∧
      writer.Guarantees (Logged writerStep) rely guar (fun _ _ => True) (s, log) ∧
      ∀ reader ∈ readers,
        reader.Only P ∧ reader.EnsuresUnder (Aside readerStep) guar post (s, log) := by
    generalize hfinal : (s, writer, readers) = final at hsteps
    induction hsteps generalizing s writer readers with
    | refl =>
        cases hfinal
        exact ⟨[], hstart, hwriter, by simp⟩
    | tail _ hlast ih =>
        subst hfinal
        cases hlast with
        | @write t _ request next others reply hstep =>
            rcases ih rfl with ⟨log, hgood, hwriter, hreaders⟩
            rcases hwriter (t, log) (hrelyRefl _) reply (s, log ++ [⟨request, reply⟩])
              ⟨hstep, rfl⟩ with ⟨hguar, hnext⟩
            refine ⟨_, hinv _ _ hgood hguar, hnext, fun reader hreader => ?_⟩
            rcases hreaders reader hreader with ⟨honly, hensures⟩
            exact ⟨honly, hensures.of_rely hguarTrans hguar⟩
        | @read t _ _ others i request next reply hi hstep =>
            rcases ih rfl with ⟨log, hgood, hwriter, hreaders⟩
            have haside : Aside readerStep (t, log) request reply (s, log) := ⟨hstep, rfl⟩
            rcases hreaders _ (List.mem_of_getElem? hi) with ⟨honly, hensures⟩
            rcases hensures (t, log) (hguarRefl _) reply (s, log) haside with ⟨hguar, hnext⟩
            have hrely := hreads _ _ _ _ honly.1 haside
            refine ⟨log, hinv _ _ hgood hguar, hwriter.of_rely hrelyTrans hrely, ?_⟩
            intro reader hreader
            rcases List.mem_or_eq_of_mem_set hreader with hold | rfl
            · exact ⟨(hreaders reader hold).1, (hreaders reader hold).2.of_rely hguarTrans hguar⟩
            · exact ⟨honly.2 reply, hnext⟩
        | @join _ _ others reader hreader =>
            rcases ih rfl with ⟨log, hgood, hwriter, hreaders⟩
            refine ⟨log, hgood, hwriter, fun other hother => ?_⟩
            rcases List.mem_append.mp hother with hold | hnew
            · exact hreaders other hold
            · rw [List.mem_singleton.mp hnew]
              exact hspawn _ reader hgood hreader
  rcases hall with ⟨log, hgood, _, hreaders⟩
  refine ⟨log, hgood, fun value hvalue => ?_⟩
  exact (hreaders _ hvalue).2 (s, log) (hguarRefl _)

/-! ## Scripted runs -/

/-- What is left of the program after the calls of a script. -/
def Program.advance {Choice : Type}
    (serve : σ → (request : Call) → Choice → Option (Reply request × σ)) :
    Program Call Reply α → List Choice → σ → Option (Program Call Reply α × σ)
  | program, [], s => some (program, s)
  | .done _, _ :: _, _ => none
  | .call request next, choice :: choices, s =>
      match serve s request choice with
      | some (reply, s') => (next reply).advance serve choices s'
      | none => none

variable {Choice : Type} {serve : σ → (request : Call) → Choice → Option (Reply request × σ)}
  {writerStep readerStep : Step σ Call Reply} {spawnable : Program Call Reply β → Prop}

/-- The writer takes the turns of a script. -/
theorem ReadersStep.of_writer
    (hserve : ∀ s request choice reply s', serve s request choice = some (reply, s') →
      writerStep s request reply s')
    {writer writer' : Program Call Reply α} {readers : List (Program Call Reply β)}
    {choices : List Choice} {s s' : σ}
    (h : writer.advance serve choices s = some (writer', s')) :
    Relation.ReflTransGen (ReadersStep writerStep readerStep spawnable) (s, writer, readers)
      (s', writer', readers) := by
  induction choices generalizing writer s with
  | nil =>
      cases writer <;> cases h <;> exact .refl
  | cons choice choices ih =>
      cases writer with
      | done value => cases h
      | call request next =>
          unfold Program.advance at h
          split at h
          · rename_i reply t hreply
            exact .head (.write (hserve _ _ _ _ _ hreply)) (ih h)
          · cases h

/-- A single reader takes the turns of a script. -/
theorem ReadersStep.of_reader
    (hserve : ∀ s request choice reply s', serve s request choice = some (reply, s') →
      readerStep s request reply s')
    {writer : Program Call Reply α} {reader reader' : Program Call Reply β}
    {choices : List Choice} {s s' : σ}
    (h : reader.advance serve choices s = some (reader', s')) :
    Relation.ReflTransGen (ReadersStep writerStep readerStep spawnable) (s, writer, [reader])
      (s', writer, [reader']) := by
  induction choices generalizing reader s with
  | nil =>
      cases reader <;> cases h <;> exact .refl
  | cons choice choices ih =>
      cases reader with
      | done value => cases h
      | call request next =>
          unfold Program.advance at h
          split at h
          · rename_i reply t hreply
            have hfirst : ([Program.call request next] : List (Program Call Reply β))[0]? =
                some (.call request next) := rfl
            exact .head (.read hfirst (hserve _ _ _ _ _ hreply)) (ih h)
          · cases h

end Library
end ObjectStore
