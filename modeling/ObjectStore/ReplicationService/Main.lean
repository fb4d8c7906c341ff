import ObjectStore.Deployment.Startup
import ObjectStore.Library.Failover
import ObjectStore.Library.Refinement
import ObjectStore.ReplicationService.Cycle

/-!
# Replication service - The main loop

`main` connects to a metadata node and starts a cycle at every tick of an interval.  Before a
cycle it probes the connection.  After three failed probes in a row it connects to the first
metadata node of its list that accepts, and goes on with that one.

Main definitions:

- `MainLoop`: the variables of the loop.
- `tick`: one turn of the loop.
- `Ticks`: the turns of the loop, each with its outcome.

Main results:

- Theorem `ticks_bounded`: the failure counter does not run over.
- Theorem `tick_refines`: while the metadata nodes do not change, a turn is a round of failover.
- Theorem `cycles_resume_iff`: after any outage, when cycles are run again.
- Theorem `started_runs_all_or_none`: the same for a service that has just been started.
-/

namespace ObjectStore
namespace ReplicationService

open Deployment (Call Service ServiceCall ServiceProgram connectFirst connectLoop)
open Library (Failover Lts)

/-- After this many failed cycles in a row the service looks for another metadata node. -/
def MAX_CONSECUTIVE_FAILURES : UInt32 := 3

/-- The variables of the loop. -/
structure MainLoop where
  /-- The address that `metadata_client` is connected to. -/
  metadataClient : String
  consecutiveFailures : UInt32
deriving DecidableEq

/-- What one turn of the loop comes to. -/
inductive TickOutcome where
  | ran
  /-- Counted under this label. -/
  | failed (label : String)
deriving DecidableEq

/-- Probe the connection, and run a cycle if it works. -/
def probeAndRun (crc32 : Bytes → UInt32) (maxChunksPerCycle : Nat) (self : MainLoop) :
    ServiceProgram (MainLoop × TickOutcome) := do
  let probe : Except Status (List StorageMetadata.Proto.MetaStorageNode) ←
    ServiceProgram.perform (.on self.metadataClient (.metadata .listStorageNodes))
  match probe with
  | .error _ =>
      pure ({ self with consecutiveFailures := self.consecutiveFailures + 1 },
        .failed "connect_metadata")
  | .ok _ => do
      let _ ← Deployment.Program.through self.metadataClient
        (runReplicationCycle crc32 maxChunksPerCycle)
      pure ({ self with consecutiveFailures := 0 }, .ran)

/-- One turn of the loop. -/
def tick (crc32 : Bytes → UInt32) (maxChunksPerCycle : Nat) (metadataUrls : List String)
    (self : MainLoop) : ServiceProgram (MainLoop × TickOutcome) := do
  let _ ← ServiceProgram.perform .pause
  if MAX_CONSECUTIVE_FAILURES ≤ self.consecutiveFailures then
    match ← connectFirst metadataUrls with
    | some url => probeAndRun crc32 maxChunksPerCycle ⟨url, 0⟩
    | none => pure (self, .failed "connect_metadata")
  else probeAndRun crc32 maxChunksPerCycle self

/-! ## Turns -/

section

variable {σ : Type} (step : Library.Step σ ServiceCall ServiceCall.Reply)
  (crc32 : Bytes → UInt32) (maxChunksPerCycle : Nat) (metadataUrls : List String)

/-- The turns of the loop, each with its outcome. -/
def Ticks : Lts (MainLoop × σ) TickOutcome :=
  fun (self, s) outcome (self', s') =>
    (tick crc32 maxChunksPerCycle metadataUrls self).Runs step s (self', outcome) s'

end

variable {σ : Type} {step : Library.Step σ ServiceCall ServiceCall.Reply}
  {crc32 : Bytes → UInt32} {maxChunksPerCycle : Nat} {metadataUrls : List String}
  {accepts answers : String → Bool} {self self' : MainLoop} {s s' : σ}
  {outcomes : List TickOutcome}

/-- What holds of all values and states holds when a program ends. -/
theorem ensures_any {α : Type} {post : α → σ → Prop} (program : ServiceProgram α)
    (hpost : ∀ value s, post value s) (s : σ) : program.Ensures step post s := by
  induction program generalizing s with
  | done value => exact hpost value s
  | call request next ih => exact fun reply s' _ => ih reply s'

/-! ## The counter -/

/-- A connection that was just made has failed less often than is borne. -/
theorem reconnected_lt (url : String) :
    (⟨url, 0⟩ : MainLoop).consecutiveFailures < MAX_CONSECUTIVE_FAILURES := by
  change (0 : UInt32) < MAX_CONSECUTIVE_FAILURES
  decide

/-- One probe counts at most one failure more. -/
theorem probeAndRun_bounded (hfailures : self.consecutiveFailures < MAX_CONSECUTIVE_FAILURES)
    (s : σ) : (probeAndRun crc32 maxChunksPerCycle self).Ensures step (fun result _ =>
      result.1.consecutiveFailures ≤ MAX_CONSECUTIVE_FAILURES) s := by
  intro (probe : Except Status (List StorageMetadata.Proto.MetaStorageNode)) s₁ _
  cases probe with
  | error status =>
      change self.consecutiveFailures + 1 ≤ MAX_CONSECUTIVE_FAILURES
      rw [MAX_CONSECUTIVE_FAILURES, UInt32.lt_iff_toNat_lt] at hfailures
      rw [MAX_CONSECUTIVE_FAILURES, UInt32.le_iff_toNat_le, UInt32.toNat_add]
      simp only [UInt32.reduceToNat] at hfailures ⊢
      omega
  | ok nodes =>
      change (Deployment.Program.through self.metadataClient _ >>= _).Ensures step _ s₁
      apply Library.Program.Ensures.of_bind
      apply ensures_any
      intro _ _
      change (0 : UInt32) ≤ MAX_CONSECUTIVE_FAILURES
      decide

/-- A tick does not count beyond the limit. -/
theorem tick_bounded (hfailures : self.consecutiveFailures ≤ MAX_CONSECUTIVE_FAILURES) (s : σ) :
    (tick crc32 maxChunksPerCycle metadataUrls self).Ensures step (fun result _ =>
      result.1.consecutiveFailures ≤ MAX_CONSECUTIVE_FAILURES) s := by
  intro _ s₁ _
  change (ite _ (connectFirst metadataUrls >>= _) _).Ensures step _ s₁
  split
  · apply Library.Program.Ensures.of_bind
    apply ensures_any
    intro found s₂
    cases found with
    | none => exact hfailures
    | some url => exact probeAndRun_bounded (reconnected_lt url) s₂
  · rename_i hlt
    exact probeAndRun_bounded (UInt32.not_le.mp hlt) s₁

/-- The failure counter does not run over. -/
theorem ticks_bounded (htrace : (Ticks step crc32 maxChunksPerCycle metadataUrls).Trace
      (self, s) outcomes (self', s'))
    (hfailures : self.consecutiveFailures ≤ MAX_CONSECUTIVE_FAILURES) :
    self'.consecutiveFailures ≤ MAX_CONSECUTIVE_FAILURES := by
  induction outcomes generalizing self s with
  | nil =>
      cases htrace
      exact hfailures
  | cons outcome outcomes ih =>
      rcases Lts.trace_cons_iff.mp htrace with ⟨⟨self₁, s₁⟩, htick, hrest⟩
      exact ih hrest (htick.ensures (tick_bounded hfailures s))

/-! ## Metadata nodes that do not change -/

/-- Each metadata node accepts connections or not, and answers the probe or not. -/
structure Steady (step : Library.Step σ ServiceCall ServiceCall.Reply)
    (accepts answers : String → Bool) : Prop where
  connect : ∀ s url (connected : Except String Unit) s', step s (.connect url) connected s' →
    connected.isOk = accepts url
  probe : ∀ s url (probe : Except Status (List StorageMetadata.Proto.MetaStorageNode)) s',
    step s (.on url (.metadata .listStorageNodes)) probe s' → probe.isOk = answers url

/-- The loop as a client with failover. -/
def MainLoop.failover (self : MainLoop) : Failover String :=
  ⟨self.metadataClient, self.consecutiveFailures.toNat⟩

/-- What a turn reports, with an answer or without. -/
def TickOutcome.report : Bool → TickOutcome
  | true => .ran
  | false => .failed "connect_metadata"

/-- In a steady deployment the first address that answers is found. -/
theorem connectFirst_finds (hsteady : Steady step accepts answers) (s : σ) :
    (connectFirst metadataUrls).Ensures step
      (fun found _ => found = metadataUrls.find? accepts) s := by
  induction metadataUrls generalizing s with
  | nil => rfl
  | cons url urls ih =>
      intro (connected : Except String Unit) s₁ hstep
      have haccepts := hsteady.connect s url connected s₁ hstep
      cases connected with
      | ok _ =>
          change some url = _
          rw [List.find?_cons_of_pos haccepts.symm]
      | error _ =>
          have hnot : ¬ accepts url = true := by
            rw [← haccepts]
            simp [Except.isOk, Except.toBool]
          rw [List.find?_cons_of_neg hnot]
          exact ih s₁

/-- A probe is a request of the abstract client. -/
theorem probeAndRun_refines (hsteady : Steady step accepts answers)
    (hfailures : self.consecutiveFailures < MAX_CONSECUTIVE_FAILURES) (s : σ) :
    (probeAndRun crc32 maxChunksPerCycle self).Ensures step (fun result _ =>
      (result.1.failover, result.2) =
        (Failover.ask answers self.failover).map id TickOutcome.report) s := by
  intro (probe : Except Status (List StorageMetadata.Proto.MetaStorageNode)) s₁ hstep
  have hanswers := hsteady.probe s self.metadataClient probe s₁ hstep
  cases probe with
  | error status =>
      have hcount : (self.consecutiveFailures + 1).toNat = self.consecutiveFailures.toNat + 1 := by
        rw [MAX_CONSECUTIVE_FAILURES, UInt32.lt_iff_toNat_lt] at hfailures
        rw [UInt32.toNat_add]
        simp only [UInt32.reduceToNat] at hfailures ⊢
        omega
      rw [Failover.ask_of_not_answers hanswers.symm]
      change (MainLoop.failover _, _) = _
      simp [MainLoop.failover, hcount, TickOutcome.report]
  | ok nodes =>
      rw [Failover.ask_of_answers hanswers.symm]
      change (Deployment.Program.through self.metadataClient _ >>= _).Ensures step _ s₁
      apply Library.Program.Ensures.of_bind
      apply ensures_any
      intro _ _
      rfl

/-- A turn is a round of failover. -/
theorem tick_refines (hsteady : Steady step accepts answers) (s : σ) :
    (tick crc32 maxChunksPerCycle metadataUrls self).Ensures step (fun result _ =>
      (result.1.failover, result.2) = (Failover.next MAX_CONSECUTIVE_FAILURES.toNat metadataUrls
        accepts answers self.failover).map id TickOutcome.report) s := by
  intro _ s₁ _
  change (ite _ (connectFirst metadataUrls >>= _) _).Ensures step _ s₁
  split
  · rename_i hle
    rw [UInt32.le_iff_toNat_le] at hle
    apply Library.Program.Ensures.of_bind
    apply (connectFirst_finds hsteady s₁).mono
    intro found s₂ hfound
    cases found with
    | none =>
        rw [Failover.next_of_find_none hle hfound.symm]
        rfl
    | some url =>
        rw [Failover.next_of_find hle hfound.symm]
        exact probeAndRun_refines hsteady (reconnected_lt url) s₂
  · rename_i hlt
    rw [UInt32.not_le] at hlt
    rw [Failover.next_of_lt (UInt32.lt_iff_toNat_lt.mp hlt)]
    exact probeAndRun_refines hsteady hlt s₁

/-- Turns are rounds of failover. -/
theorem ticks_refine (hsteady : Steady step accepts answers)
    (htrace : (Ticks step crc32 maxChunksPerCycle metadataUrls).Trace (self, s) outcomes
      (self', s')) :
    (self'.failover, outcomes) = (Failover.rounds MAX_CONSECUTIVE_FAILURES.toNat metadataUrls
      accepts answers outcomes.length self.failover).map id (List.map TickOutcome.report) := by
  induction outcomes generalizing self s with
  | nil =>
      cases htrace
      rfl
  | cons outcome outcomes ih =>
      rcases Lts.trace_cons_iff.mp htrace with ⟨⟨self₁, s₁⟩, htick, hrest⟩
      have hround := htick.ensures (tick_refines hsteady s)
      have hrounds := ih hrest
      cases hnext : Failover.next MAX_CONSECUTIVE_FAILURES.toNat metadataUrls accepts answers
        self.failover with
      | mk after answered =>
          rw [hnext] at hround
          simp only [Prod.map, id, Prod.mk.injEq] at hround
          rw [hround.1] at hrounds
          simp only [Prod.map, id, Prod.mk.injEq] at hrounds
          simp only [List.length_cons, Failover.rounds, hnext, Prod.map, id, List.map_cons,
            hround.2, ← hrounds.2, ← hrounds.1]

/-- The client at hand answers and will be asked, or the first metadata node that accepts does. -/
def MainLoop.Resumes (self : MainLoop) (metadataUrls : List String)
    (accepts answers : String → Bool) : Prop :=
  (self.consecutiveFailures < MAX_CONSECUTIVE_FAILURES ∧ answers self.metadataClient = true) ∨
    ∃ url, metadataUrls.find? accepts = some url ∧ answers url = true

/-- The loop resumes when the abstract client recovers. -/
theorem resumes_iff_recovers : self.Resumes metadataUrls accepts answers ↔
    Failover.Recovers MAX_CONSECUTIVE_FAILURES.toNat metadataUrls accepts answers
      self.failover := by
  rw [Failover.Recovers, Option.any_eq_true, MainLoop.Resumes, UInt32.lt_iff_toNat_lt]
  rfl

/-- A loop that resumes loses at most three turns. -/
theorem ticks_resume (hsteady : Steady step accepts answers)
    (htrace : (Ticks step crc32 maxChunksPerCycle metadataUrls).Trace (self, s) outcomes
      (self', s')) (hresumes : self.Resumes metadataUrls accepts answers) :
    ∃ lost ≤ 3, outcomes =
      List.replicate (min outcomes.length lost) (.failed "connect_metadata") ++
        List.replicate (outcomes.length - lost) .ran := by
  have hrounds := (Prod.mk.inj (ticks_refine hsteady htrace)).2
  refine ⟨Failover.lost MAX_CONSECUTIVE_FAILURES.toNat answers self.failover,
    Failover.lost_le _ _ _, ?_⟩
  rw [Failover.rounds_of_recovers (resumes_iff_recovers.mp hresumes)] at hrounds
  simpa [TickOutcome.report] using hrounds

/-- Whatever has happened before: once the metadata nodes do not change any more, the loop loses
at most three turns and then runs a cycle at each, or it never runs one again. -/
theorem cycles_resume_iff (step : Library.Step σ ServiceCall ServiceCall.Reply)
    (crc32 : Bytes → UInt32) (maxChunksPerCycle : Nat) (metadataUrls : List String)
    (accepts answers : String → Bool) (hsteady : Steady step accepts answers)
    (self self' : MainLoop) (s s' : σ) (outcomes : List TickOutcome)
    (htrace : (Ticks step crc32 maxChunksPerCycle metadataUrls).Trace (self, s) outcomes
      (self', s')) :
    (self.Resumes metadataUrls accepts answers → ∃ lost ≤ 3, outcomes =
      List.replicate (min outcomes.length lost) (.failed "connect_metadata") ++
        List.replicate (outcomes.length - lost) .ran) ∧
    (¬ self.Resumes metadataUrls accepts answers →
      outcomes = List.replicate outcomes.length (.failed "connect_metadata")) := by
  constructor
  · exact ticks_resume hsteady htrace
  · intro h
    have hrounds := (Prod.mk.inj (ticks_refine hsteady htrace)).2
    rw [resumes_iff_recovers] at h
    rw [Failover.rounds_of_not_recovers h] at hrounds
    simpa [TickOutcome.report] using hrounds

/-- In a steady deployment another round finds nothing new. -/
theorem connectLoop_finds (hsteady : Steady step accepts answers) (retries : Nat) (s : σ) :
    (connectLoop metadataUrls retries).Ensures step
      (fun found _ => found = metadataUrls.find? accepts) s := by
  induction retries generalizing s with
  | zero =>
      unfold connectLoop
      apply Library.Program.Ensures.of_bind
      apply (connectFirst_finds hsteady s).mono
      intro found s₁ hfound
      cases found <;> exact hfound
  | succ retries ih =>
      unfold connectLoop
      apply Library.Program.Ensures.of_bind
      apply (connectFirst_finds hsteady s).mono
      intro found s₁ hfound
      cases found with
      | none => exact fun _ s₂ _ => ih s₂
      | some url => exact hfound

/-- A service that is started while the metadata nodes do not change runs a cycle at every turn,
or at none. -/
theorem started_runs_all_or_none (hsteady : Steady step accepts answers)
    {vars : String → Option String} {url : String} {s₀ : σ}
    (hstart : (Service.replicationService.start vars).Runs step s₀ (some url) s)
    (htrace : (Ticks step crc32 maxChunksPerCycle
      (Service.replicationService.metadataAddresses vars)).Trace (⟨url, 0⟩, s) outcomes
        (self', s')) :
    outcomes = List.replicate outcomes.length (.report (answers url)) := by
  rw [Service.start_eq] at hstart
  have hfind := hstart.ensures (connectLoop_finds hsteady _ s₀)
  have hrounds := (Prod.mk.inj (ticks_refine hsteady htrace)).2
  have hpos : 0 < MAX_CONSECUTIVE_FAILURES.toNat := by decide
  cases hanswers : answers url with
  | true =>
      have hrecovers : Failover.Recovers MAX_CONSECUTIVE_FAILURES.toNat
          (Service.replicationService.metadataAddresses vars) accepts answers
            (MainLoop.failover ⟨url, 0⟩) := .inl ⟨hpos, hanswers⟩
      have hlost : Failover.lost MAX_CONSECUTIVE_FAILURES.toNat answers
          (MainLoop.failover ⟨url, 0⟩) = 0 := if_pos ⟨hpos, hanswers⟩
      rw [Failover.rounds_of_recovers hrecovers, hlost] at hrounds
      simpa using hrounds
  | false =>
      have hnot : ¬ Failover.Recovers MAX_CONSECUTIVE_FAILURES.toNat
          (Service.replicationService.metadataAddresses vars) accepts answers
            (MainLoop.failover ⟨url, 0⟩) := by
        rw [Failover.Recovers, ← hfind]
        simp [MainLoop.failover, hanswers]
      rw [Failover.rounds_of_not_recovers hnot] at hrounds
      simpa using hrounds

/-! ## A metadata node that has gone -/

/-- Metadata nodes that do not change, with nothing behind them. -/
def fixedStep (accepts answers : String → Bool) :
    Library.Step Unit ServiceCall ServiceCall.Reply :=
  fun _ call reply _ =>
    match call, reply with
    | .connect url, (connected : Except String Unit) => connected.isOk = accepts url
    | .on url (.metadata .listStorageNodes),
        (probe : Except Status (List StorageMetadata.Proto.MetaStorageNode)) =>
        probe.isOk = answers url
    | _, _ => True

/-- Fixed answers are steady. -/
theorem fixedStep_steady (accepts answers : String → Bool) :
    Steady (fixedStep accepts answers) accepts answers where
  connect _ _ _ _ h := h
  probe _ _ _ _ h := h

theorem exists_fixedStep (accepts answers : String → Bool) (s : Unit) (call : ServiceCall) :
    ∃ reply s', fixedStep accepts answers s call reply s' := by
  cases call with
  | pause => exact ⟨(), (), trivial⟩
  | connect url =>
      cases haccepts : accepts url with
      | true => exact ⟨.ok (), (), haccepts.symm⟩
      | false => exact ⟨.error "", (), haccepts.symm⟩
  | on url call =>
      cases call with
      | metadata call =>
          cases call with
          | listStorageNodes =>
              cases hanswers : answers url with
              | true => exact ⟨.ok [], (), hanswers.symm⟩
              | false => exact ⟨.error ⟨.internal, ""⟩, (), hanswers.symm⟩
          | _ => exact ⟨.error ⟨.internal, ""⟩, (), trivial⟩
      | connect _ | connectCached _ => exact ⟨.error "", (), trivial⟩
      | storageNode _ _ => exact ⟨.error ⟨.internal, ""⟩, (), trivial⟩
      | cachedConnection _ | turn => exact ⟨true, (), trivial⟩
      | choose _ => exact ⟨(0 : Nat), (), trivial⟩

/-- With fixed answers there are runs of every length. -/
theorem exists_ticks (accepts answers : String → Bool) (n : Nat) (self : MainLoop) :
    ∃ outcomes self', outcomes.length = n ∧
      (Ticks (fixedStep accepts answers) crc32 maxChunksPerCycle metadataUrls).Trace (self, ())
        outcomes (self', ()) := by
  induction n generalizing self with
  | zero => exact ⟨[], self, rfl, .nil _⟩
  | succ n ih =>
      rcases Library.Program.exists_runs (Library.Program.only_true
        (tick crc32 maxChunksPerCycle metadataUrls self))
          (fun s call _ => exists_fixedStep accepts answers s call) ()
        with ⟨⟨self₁, outcome⟩, _, htick⟩
      rcases ih self₁ with ⟨outcomes, self', hlength, htrace⟩
      exact ⟨outcome :: outcomes, self', by simp [hlength],
        Lts.trace_cons_iff.mpr ⟨(self₁, ()), htick, htrace⟩⟩

/-- The client is connected to a node that has gone; the second node of the list is there. -/
theorem cycles_resume_iff_second :
    ∃ (outcomes : List TickOutcome) (self' : MainLoop),
      (Ticks (fixedStep (· == "http://b:3001") (· == "http://b:3001")) Library.crc32 100
        ["http://a:3001", "http://b:3001"]).Trace (⟨"http://a:3001", 0⟩, ()) outcomes
          (self', ()) ∧ outcomes.length = 5 ∧ TickOutcome.ran ∈ outcomes := by
  rcases exists_ticks (· == "http://b:3001") (· == "http://b:3001") 5 ⟨"http://a:3001", 0⟩ with
    ⟨outcomes, self', hlength, htrace⟩
  have hfind : ["http://a:3001", "http://b:3001"].find? (· == "http://b:3001") =
      some "http://b:3001" := by decide
  rcases (cycles_resume_iff _ Library.crc32 100 _ _ _ (fixedStep_steady _ _) _ _ _ _ _
    htrace).1 (.inr ⟨_, hfind, by simp⟩) with ⟨lost, hlost, heq⟩
  refine ⟨outcomes, self', htrace, hlength, ?_⟩
  rw [heq, hlength]
  simp
  omega

end ReplicationService
end ObjectStore
