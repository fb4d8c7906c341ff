import ObjectStore.ReplicationService.Main
import ObjectStore.System.Convergence

/-!
# System - Replication through an outage

The loop of the replication service over the deployment, whose one metadata node is behind one
of the URLs that the service is given.  Nothing answers behind the others, though a connection to
them may be accepted.  Once this does not change any more, the loop runs its cycles, and the
cycles bring every chunk to three copies.

Main definitions:

- `SteadyStep`: the calls of the service while the metadata node stays at one URL.

Main results:

- Theorem `steadyStep_steady`: the loop sees URLs that do not change.
- Theorem `tick_replicates`: a turn with a cycle adds a copy, a turn without changes nothing.
- Theorem `loop_converges`: how many copies there are after any number of turns.
-/

namespace ObjectStore
namespace System

open Deployment (Call Choice Environment SameServices ServiceCall Services connectFirst)
open Library (Lts)
open ReplicationService (MainLoop Steady TickOutcome Ticks probeAndRun runReplicationCycle tick)

/-- The calls of the service while the metadata node is at the URL `home`.  Storage nodes are
reached without it. -/
inductive SteadyStep (env : Environment) (accepts : String → Bool) (home : String) :
    Library.Step Services ServiceCall ServiceCall.Reply where
  | paused {s : Services} : SteadyStep env accepts home s .pause () s
  | connected {s : Services} {url : String} (haccepts : accepts url = true) :
      SteadyStep env accepts home s (.connect url) (.ok ()) s
  | refused {s : Services} {url : String} (haccepts : accepts url = false) (message : String) :
      SteadyStep env accepts home s (.connect url) (.error message) s
  | answered {s s' : Services} {url : String} {call : Call} {reply : call.Reply}
      (hhome : ∀ request, call = .metadata request → url = home)
      (hstep : RoomyStep env s call reply s') :
      SteadyStep env accepts home s (.on url call) reply s'
  | unanswered {s : Services} {url : String} {request : Deployment.MetadataCall}
      (hother : url ≠ home) (status : Status) :
      SteadyStep env accepts home s (.on url (.metadata request)) (.error status) s

variable {env : Environment} {accepts : String → Bool} {home : String} {s s' : Services}
  {pieces : UInt64 → Bytes} {self self' : MainLoop} {metadataUrls : List String} {limit : Nat}
  {outcomes : List TickOutcome}

/-- One address answers, in all states. -/
theorem steadyStep_steady : Steady (SteadyStep env accepts home) accepts (· == home) where
  connect _ _ _ _ hstep := by
    cases hstep with
    | connected haccepts => exact haccepts.symm
    | refused haccepts message => exact haccepts.symm
  probe _ _ _ _ hstep := by
    cases hstep with
    | answered hhome hroomy =>
        rcases listStorageNodes_answered hroomy.1 with ⟨nodes, rfl, _⟩
        exact (beq_iff_eq.mpr (hhome _ rfl)).symm
    | unanswered hother status => exact (beq_eq_false_iff_ne.mpr hother).symm

/-- A program over a client that is answered runs as it does over the deployment. -/
theorem through_ensures {α : Type} {program : Deployment.Program α} {post : α → Services → Prop}
    {url : String} (hhome : url = home) (h : program.Ensures (RoomyStep env) post s) :
    (Deployment.Program.through url program).Ensures (SteadyStep env accepts home) post s := by
  induction program generalizing s with
  | done value => exact h
  | call request next ih =>
      intro reply s₁ hstep
      cases hstep with
      | answered _ hroomy => exact ih reply (h reply s₁ hroomy)
      | unanswered hother _ => exact absurd hhome hother

/-- Connecting changes nothing. -/
theorem connectFirst_same :
    (connectFirst metadataUrls).Ensures (SteadyStep env accepts home) (fun _ s' => s' = s) s := by
  induction metadataUrls with
  | nil => rfl
  | cons url urls ih =>
      intro reply s₁ hstep
      cases hstep with
      | connected _ => rfl
      | refused _ _ => exact ih

/-! ## Turns -/

/-- Nothing has been replicated. -/
theorem Replicated.of_same (htidy : Tidy env.crc32 [] pieces s) (hspread : Spread s)
    (hsame : SameServices s s') : Replicated env pieces 0 s s' where
  tidy := htidy.same hsame
  spread := hspread.same hsame
  objects := hsame.memory.objects
  chunks id := by rw [hsame.memory.chunks]
  copies id _ := by
    simp only [System.copies, hsame.dataAt]
    omega

/-- A probe that is answered is followed by a cycle. -/
theorem probeAndRun_replicates (htidy : Tidy env.crc32 [] pieces s) (hspread : Spread s)
    (hlimit : s.metadata.metadataStore.chunks.size ≤ limit) :
    (probeAndRun env.crc32 limit self).Ensures (SteadyStep env accepts home)
      (fun result s' => Replicated env pieces ([result.2].count .ran) s s') s := by
  intro probe s₁ hstep
  cases hstep with
  | answered hhome hroomy =>
      rcases listStorageNodes_answered hroomy.1 with ⟨nodes, rfl, _, hsame⟩
      change (Deployment.Program.through self.metadataClient _ >>= _).Ensures _ _ s₁
      apply Library.Program.Ensures.of_bind
      apply through_ensures (hhome _ rfl)
      apply Library.Program.ensures_of_runs
      intro result s₂ hcycle
      have hlimit₁ : s₁.metadata.metadataStore.chunks.size ≤ limit := by
        rw [hsame.memory.chunks]
        exact hlimit
      have hprobed := Replicated.of_same htidy hspread hsame
      have hran := runReplicationCycle_replicates hprobed.tidy hprobed.spread hlimit₁ hcycle
      exact hprobed.trans hran
  | unanswered _ status => exact .of_same htidy hspread (.refl s)

/-- A turn with a cycle adds a copy, a turn without changes nothing. -/
theorem tick_replicates (htidy : Tidy env.crc32 [] pieces s) (hspread : Spread s)
    (hlimit : s.metadata.metadataStore.chunks.size ≤ limit) :
    (tick env.crc32 limit metadataUrls self).Ensures (SteadyStep env accepts home)
      (fun result s' => Replicated env pieces ([result.2].count .ran) s s') s := by
  intro _ s₁ hpause
  cases hpause
  change (ite _ (connectFirst metadataUrls >>= _) _).Ensures _ _ s
  split
  · apply Library.Program.Ensures.of_bind
    apply connectFirst_same.mono
    rintro found _ rfl
    cases found with
    | none => exact .of_same htidy hspread (.refl _)
    | some url => exact probeAndRun_replicates htidy hspread hlimit
  · exact probeAndRun_replicates htidy hspread hlimit

/-- Turns of the loop are cycles, as many as are not lost. -/
theorem ticks_replicate (htidy : Tidy env.crc32 [] pieces s) (hspread : Spread s)
    (hlimit : s.metadata.metadataStore.chunks.size ≤ limit)
    (htrace : (Ticks (SteadyStep env accepts home) env.crc32 limit metadataUrls).Trace
      (self, s) outcomes (self', s')) :
    Replicated env pieces (outcomes.count .ran) s s' := by
  induction outcomes generalizing self s with
  | nil =>
      cases htrace
      exact .of_same htidy hspread (.refl _)
  | cons outcome outcomes ih =>
      rcases Lts.trace_cons_iff.mp htrace with ⟨⟨self₁, s₁⟩, htick, hrest⟩
      have hfirst := htick.ensures (tick_replicates htidy hspread hlimit)
      have hlimit₁ := (HashMap.size_eq_of_mem_iff hfirst.chunks).le.trans hlimit
      have hcount : (outcome :: outcomes).count .ran =
          [outcome].count .ran + outcomes.count .ran := by
        rw [← List.count_append, List.singleton_append]
      rw [hcount]
      exact hfirst.trans (ih hfirst.tidy hfirst.spread hlimit₁ hrest)

/-- From the moment on at which the service can find the metadata node again, all but three turns
at most add a copy of each chunk that has fewer than three, and keep the contents. -/
theorem loop_converges (env : Environment) (limit : Nat) (metadataUrls : List String)
    (accepts : String → Bool) (home : String) (self self' : MainLoop) (s s' : Services)
    (map : String → Option Bytes) (h : Represents env.crc32 s map) (hspread : Spread s)
    (hlimit : s.metadata.metadataStore.chunks.size ≤ limit)
    (hresumes : self.Resumes metadataUrls accepts (· == home)) (outcomes : List TickOutcome)
    (htrace : (Ticks (SteadyStep env accepts home) env.crc32 limit metadataUrls).Trace
      (self, s) outcomes (self', s')) :
    Represents env.crc32 s' map ∧ ∃ lost ≤ 3, ∀ id ∈ s.metadata.metadataStore.chunks,
      copies s' id = max (copies s id) (min 3 (copies s id + (outcomes.length - lost))) := by
  rcases h with ⟨pieces, htidy, rfl⟩
  have hreplicated := ticks_replicate htidy hspread hlimit htrace
  have hturns := ReplicationService.ticks_resume steadyStep_steady htrace hresumes
  rcases hturns with ⟨lost, hlost, houtcomes⟩
  have hcount : outcomes.count .ran = outcomes.length - lost := by
    have hcounts := congrArg (List.count .ran) houtcomes
    simpa [List.count_append, List.count_replicate] using hcounts
  rw [hcount] at hreplicated
  refine ⟨⟨pieces, hreplicated.tidy, ?_⟩, lost, hlost, hreplicated.copies⟩
  funext name
  simp only [contents, hreplicated.objects]

/-! ## A metadata node that has moved -/

/-- The calls of a script. -/
def steadyNext (env : Environment) (accepts : String → Bool) (home : String) (s : Services)
    (call : ServiceCall) (choice : Choice) : Option (call.Reply × Services) :=
  match call with
  | .pause => some ((), s)
  | .connect url => some (if accepts url then .ok () else .error choice.message, s)
  | .on url (.metadata request) =>
      if url == home then roomyNext env s (.metadata request) choice
      else some (.error ⟨.internal, choice.message⟩, s)
  | .on _ call => roomyNext env s call choice

/-- A scripted call is a step. -/
theorem steadyNext_step (s : Services) (call : ServiceCall) (choice : Choice) (reply : call.Reply)
    (s' : Services) (h : steadyNext env accepts home s call choice = some (reply, s')) :
    SteadyStep env accepts home s call reply s' := by
  cases call with
  | pause =>
      cases h
      exact .paused
  | connect url =>
      cases haccepts : accepts url with
      | true =>
          simp only [steadyNext, haccepts] at h
          cases h
          exact .connected haccepts
      | false =>
          simp only [steadyNext, haccepts, Bool.false_eq_true] at h
          cases h
          exact .refused haccepts _
  | on url call =>
      cases call with
      | metadata request =>
          cases hhome : url == home with
          | true =>
              simp only [steadyNext, hhome] at h
              exact .answered (fun _ _ => beq_iff_eq.mp hhome) (roomyNext_step _ _ _ _ _ h)
          | false =>
              simp only [steadyNext, hhome, Bool.false_eq_true] at h
              cases h
              exact .unanswered (beq_eq_false_iff_ne.mp hhome) _
      | _ => exact .answered (by simp) (roomyNext_step _ _ _ _ _ h)

/-- The metadata node is behind the second URL. -/
def isSecond (url : String) : Bool :=
  url == "http://b:3001"

/-- One turn with the metadata node behind the second URL. -/
def tickSecond (self : MainLoop) (s : Services) : Option ((MainLoop × TickOutcome) × Services) :=
  (tick Library.crc32 100 ["http://a:3001", "http://b:3001"] self).replay
    (steadyNext ApiGateway.plainEnvironment isSecond "http://b:3001") (.replicate 20 .plain) s

theorem ticks_of_tickSecond {outcome : TickOutcome}
    (h : tickSecond self s = some ((self', outcome), s')) :
    Ticks (SteadyStep ApiGateway.plainEnvironment isSecond "http://b:3001") Library.crc32 100
      ["http://a:3001", "http://b:3001"] (self, s) outcome (self', s') :=
  Library.Program.runs_of_replay steadyNext_step h

/-- The client is connected to the first URL, behind which nothing answers any more.  One more
probe fails; then the loop finds the metadata node behind the second one, and two cycles bring
the chunk to three copies. -/
theorem loop_converges_second :
    ∃ (outcomes : List TickOutcome) (self' : MainLoop) (s' : Services),
      (Ticks (SteadyStep ApiGateway.plainEnvironment isSecond "http://b:3001") Library.crc32 100
        ["http://a:3001", "http://b:3001"]).Trace (⟨"http://a:3001", 2⟩, unreplicated) outcomes
          (self', s') ∧ outcomes.length = 5 ∧ copies unreplicated 10 = 1 ∧ copies s' 10 = 3 := by
  have hrun : ((tickSecond ⟨"http://a:3001", 2⟩ unreplicated).any fun first =>
      (tickSecond first.1.1 first.2).any fun second =>
        (tickSecond second.1.1 second.2).any fun third =>
          (tickSecond third.1.1 third.2).any fun fourth =>
            (tickSecond fourth.1.1 fourth.2).isSome) = true := by
    decide +kernel
  simp only [Option.any_eq_true, Option.isSome_iff_exists] at hrun
  rcases hrun with ⟨⟨⟨self₁, o₁⟩, s₁⟩, h₁, ⟨⟨self₂, o₂⟩, s₂⟩, h₂, ⟨⟨self₃, o₃⟩, s₃⟩, h₃,
    ⟨⟨self₄, o₄⟩, s₄⟩, h₄, ⟨⟨self₅, o₅⟩, s₅⟩, h₅⟩
  have htrace :
      (Ticks (SteadyStep ApiGateway.plainEnvironment isSecond "http://b:3001") Library.crc32 100
      ["http://a:3001", "http://b:3001"]).Trace (⟨"http://a:3001", 2⟩, unreplicated)
        [o₁, o₂, o₃, o₄, o₅] (self₅, s₅) :=
    .cons (ticks_of_tickSecond h₁) (.cons (ticks_of_tickSecond h₂) (.cons (ticks_of_tickSecond h₃)
      (.cons (ticks_of_tickSecond h₄) (.cons (ticks_of_tickSecond h₅) (.nil _)))))
  have hchunk : unreplicated.metadata.metadataStore.chunks[(10 : UInt64)]? =
      some ⟨10, "a", Library.crc32 [104], [1], .confirmed⟩ := by decide +kernel
  have hone : copies unreplicated 10 = 1 := copies_eq unreplicated_tidy unreplicated_spread hchunk
  have hfind : ["http://a:3001", "http://b:3001"].find? isSecond = some "http://b:3001" := by
    decide
  rcases (loop_converges ApiGateway.plainEnvironment 100 _ isSecond "http://b:3001" _ _
    unreplicated s₅ _
    ⟨_, unreplicated_tidy, rfl⟩ unreplicated_spread (by decide +kernel)
    (.inr ⟨_, hfind, by decide⟩) _ htrace).2 with ⟨lost, hlost, hcopies⟩
  refine ⟨_, self₅, s₅, htrace, rfl, hone, ?_⟩
  rw [hcopies 10 (HashMap.mem_iff_exists_getElem?.mpr ⟨_, hchunk⟩), hone]
  simp only [List.length_cons, List.length_nil]
  omega

end System
end ObjectStore
