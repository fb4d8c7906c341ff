import ObjectStore.Io
import ObjectStore.Library.Program

/-!
# Storage node - Calls with retries

`call_with_retry` in `grpc_utils.rs`, which `main` uses to register the storage node.  The
operation is a parameter: each attempt at it succeeds, fails, or is cut off by the timeout.
The loop remembers the last error, and takes a timeout in front of the first error as final.

Main definitions:

- `callWithRetry`: the loop as a program over attempts and pauses.
- `Retried`: what a caller expects of the attempts that were made.

Main results:

- Theorem `retryLoop_after_error`: once there has been an error, every attempt is made.
- Theorem `callWithRetry_retries_iff`: when the expectation is met.
- Theorem `registration_gives_up`: a registration that is not retried.
-/

namespace ObjectStore
namespace StorageNode

/-! ## The program -/

/-- `RetryConfig`; durations are in milliseconds. -/
structure RetryConfig where
  maxAttempts : UInt32
  timeoutPerAttempt : Nat
  delayBetweenAttempts : Nat

/-- `RetryConfig::default`. -/
def RetryConfig.default : RetryConfig where
  maxAttempts := 3
  timeoutPerAttempt := 10000
  delayBetweenAttempts := 2000

/-- The configuration that `main` registers with. -/
def registrationConfig : RetryConfig where
  maxAttempts := 3
  timeoutPerAttempt := 5000
  delayBetweenAttempts := 2000

/-- `CallWithRetryError`: why the retries end without a result. -/
inductive CallWithRetryError (E : Type) where
  | timeout
  | operationFailed (error : E)
deriving DecidableEq

/-- `Display`. -/
def CallWithRetryError.display {E : Type} (displayError : E → String) :
    CallWithRetryError E → String
  | .timeout => "all attempts timed out"
  | .operationFailed error => s!"operation failed: {displayError error}"

/-- What an attempt comes to. -/
inductive Attempt (T E : Type) where
  | succeeded (result : T)
  | failed (error : E)
  | elapsed
deriving DecidableEq

/-- What the retrying caller does: it attempts, and it sleeps. -/
inductive RetryCall where
  /-- `time::timeout` around one call of the operation. -/
  | attempt (timeout : Nat)
  | sleep (delay : Nat)

/-- What comes of an action. -/
def RetryCall.Reply (T E : Type) : RetryCall → Type
  | .attempt _ => Attempt T E
  | .sleep _ => Unit

/-- Programs of such actions. -/
abbrev RetryProgram (T E α : Type) : Type :=
  Library.Program RetryCall (RetryCall.Reply T E) α

variable {T E : Type}

/-- What is returned when all attempts are used up. -/
def exhausted : Option E → Except (CallWithRetryError E) T
  | some error => .error (.operationFailed error)
  | none => .error .timeout

/-- The loop of `call_with_retry` with the number of attempts left.  It pauses between two
attempts, but not behind the last one. -/
def retryLoop (config : RetryConfig) :
    Nat → Option E → RetryProgram T E (Except (CallWithRetryError E) T)
  | 0, lastError => .done (exhausted lastError)
  | left + 1, lastError =>
      let next (lastError : Option E) : RetryProgram T E (Except (CallWithRetryError E) T) :=
        if 0 < left then
          .call (.sleep config.delayBetweenAttempts) fun _ => retryLoop config left lastError
        else retryLoop config left lastError
      .call (.attempt config.timeoutPerAttempt) fun (outcome : Attempt T E) =>
        match outcome with
        | .succeeded result => .done (.ok result)
        | .failed error => next (some error)
        | .elapsed => if lastError.isNone then .done (.error .timeout) else next lastError

/-- `call_with_retry`. -/
def callWithRetry (config : RetryConfig) :
    RetryProgram T E (Except (CallWithRetryError E) T) :=
  retryLoop config config.maxAttempts.toNat none

/-- The registration of `main` at the metadata service, which ends the process when it
fails. -/
def registerStorageNode (displayError : E → String) : RetryProgram T E (Except String T) :=
  callWithRetry registrationConfig >>= fun (result : Except (CallWithRetryError E) T) =>
    match result with
    | .ok response => .done (.ok response)
    | .error e =>
        .done (.error s!"could not register to metadata service: {e.display displayError}")

/-! ## Attempts -/

/-- The outcomes to come, next to the number of attempts made. -/
structure Attempts (T E : Type) where
  outcomes : Stream' (Attempt T E)
  made : Nat

/-- An attempt has the next outcome. -/
inductive AttemptStep : Library.Step (Attempts T E) RetryCall (RetryCall.Reply T E) where
  | attempt (s : Attempts T E) (timeout : Nat) :
      AttemptStep s (.attempt timeout) s.outcomes.head ⟨s.outcomes.tail, s.made + 1⟩
  | sleep (s : Attempts T E) (delay : Nat) : AttemptStep s (.sleep delay) () s

/-- The attempt succeeds. -/
def Attempt.Succeeds (self : Attempt T E) : Prop :=
  ∃ result, self = .succeeded result

/-- How an attempt that does not succeed is reported. -/
def Attempt.failure? : Attempt T E → Option (CallWithRetryError E)
  | .succeeded _ => none
  | .failed error => some (.operationFailed error)
  | .elapsed => some .timeout

/-- The first success is returned and no attempt is made after it; without one every attempt
is made and the failure of the last one is returned. -/
def Retried (outcomes : Stream' (Attempt T E)) (maxAttempts : Nat)
    (result : Except (CallWithRetryError E) T) (made : Nat) : Prop :=
  (∀ i < maxAttempts, ∀ value, outcomes.get i = .succeeded value →
    (∀ j < i, ¬ (outcomes.get j).Succeeds) → result = .ok value ∧ made = i + 1) ∧
  ((∀ i < maxAttempts, ¬ (outcomes.get i).Succeeds) → made = maxAttempts ∧
    ∃ failure, (outcomes.get (maxAttempts - 1)).failure? = some failure ∧ result = .error failure)

/-- Where the loop comes up to this: the first attempt does not time out, and neither does the
last one if no attempt succeeds.  A single attempt may do as it likes. -/
def RetriesFully (outcomes : Stream' (Attempt T E)) (maxAttempts : Nat) : Prop :=
  maxAttempts = 1 ∨ outcomes.head ≠ .elapsed ∧
    ((∃ i < maxAttempts, (outcomes.get i).Succeeds) ∨ outcomes.get (maxAttempts - 1) ≠ .elapsed)

/-! ## The loop -/

variable {config : RetryConfig}

theorem retryLoop_ensures_succ {left : Nat} {lastError : Option E}
    {post : Except (CallWithRetryError E) T → Attempts T E → Prop} {s : Attempts T E}
    (hsucceeded : ∀ value, s.outcomes.head = .succeeded value →
      post (.ok value) ⟨s.outcomes.tail, s.made + 1⟩)
    (hfailed : ∀ error, s.outcomes.head = .failed error →
      (retryLoop config left (some error)).Ensures AttemptStep post
        ⟨s.outcomes.tail, s.made + 1⟩)
    (hfinal : s.outcomes.head = .elapsed → lastError = none →
      post (.error .timeout) ⟨s.outcomes.tail, s.made + 1⟩)
    (helapsed : s.outcomes.head = .elapsed → lastError ≠ none →
      (retryLoop config left lastError).Ensures AttemptStep post
        ⟨s.outcomes.tail, s.made + 1⟩) :
    (retryLoop config (left + 1) lastError).Ensures AttemptStep post s := by
  have hnext : ∀ {lastError : Option E} {s : Attempts T E},
      (retryLoop config left lastError).Ensures AttemptStep post s →
      (if 0 < left then
          (.call (.sleep config.delayBetweenAttempts) fun _ => retryLoop config left lastError :
            RetryProgram T E (Except (CallWithRetryError E) T))
        else retryLoop config left lastError).Ensures AttemptStep post s := by
    intro lastError s h
    split
    · intro reply s' hsleep
      cases hsleep
      exact h
    · exact h
  intro reply s' hattempt
  cases hattempt
  cases houtcome : s.outcomes.head with
  | succeeded value => exact hsucceeded value houtcome
  | failed error => exact hnext (hfailed error houtcome)
  | elapsed =>
      dsimp only
      split
      · rename_i hnone
        exact hfinal houtcome (Option.isNone_iff_eq_none.mp hnone)
      · rename_i hsome
        exact hnext (helapsed houtcome fun hnone => hsome (by rw [hnone]; rfl))

/-- How the loop ends when it makes its attempts: with the first success, or with the last
error. -/
inductive Finished (outcomes : Stream' (Attempt T E)) (left : Nat) (lastError : E) :
    Except (CallWithRetryError E) T → Nat → Prop where
  | succeeded {i : Nat} (hi : i < left) {value : T} (hvalue : outcomes.get i = .succeeded value)
      (hfirst : ∀ j < i, ¬ (outcomes.get j).Succeeds) :
      Finished outcomes left lastError (.ok value) (i + 1)
  | exhausted {error : E} (hnone : ∀ i < left, ¬ (outcomes.get i).Succeeds)
      (hstart : left = 0 → error = lastError)
      (hlast : ∀ latest, 0 < left → outcomes.get (left - 1) = .failed latest → error = latest) :
      Finished outcomes left lastError (.error (.operationFailed error)) left

/-- One more attempt in front, which did not succeed. -/
theorem Finished.of_tail {outcomes : Stream' (Attempt T E)} {left made : Nat}
    {lastError latest : E} {result : Except (CallWithRetryError E) T}
    (h : Finished outcomes.tail left latest result made)
    (hhead : outcomes.head = .failed latest ∨ outcomes.head = .elapsed) :
    Finished outcomes (left + 1) lastError result (made + 1) := by
  have hfails : ¬ (outcomes.get 0).Succeeds := by
    rintro ⟨value, hvalue⟩
    rcases hhead with hhead | hhead <;> cases hhead.symm.trans hvalue
  have hshift : ∀ n, (∀ j < n, ¬ (outcomes.tail.get j).Succeeds) →
      ∀ j < n + 1, ¬ (outcomes.get j).Succeeds := by
    intro n hbefore j hj
    cases j with
    | zero => exact hfails
    | succ j => exact hbefore j (by omega)
  cases h with
  | @succeeded i hi value hvalue hfirst =>
      exact .succeeded (Nat.succ_lt_succ hi) hvalue (hshift i hfirst)
  | @exhausted error hnone hstart hlast =>
      refine .exhausted (hshift left hnone) (by omega) fun found _ hfound => ?_
      rw [Nat.add_sub_cancel] at hfound
      cases left with
      | zero =>
          rw [hstart rfl]
          rcases hhead with hhead | hhead
          · cases hhead.symm.trans hfound
            rfl
          · cases hhead.symm.trans hfound
      | succ left => exact hlast found (by omega) hfound

/-- Once there has been an error, every attempt is made. -/
theorem retryLoop_after_error (left : Nat) (lastError : E) (s : Attempts T E) :
    (retryLoop config left (some lastError)).Ensures AttemptStep
      (fun result s' => ∃ made, s'.made = s.made + made ∧
        Finished s.outcomes left lastError result made) s := by
  induction left generalizing lastError s with
  | zero => exact ⟨0, rfl, .exhausted (by simp) (fun _ => rfl) (by simp)⟩
  | succ left ih =>
      refine retryLoop_ensures_succ ?_ ?_ ?_ ?_
      · exact fun value hvalue => ⟨1, rfl, .succeeded (i := 0) (by omega) hvalue (by simp)⟩
      · refine fun error herror => (ih error ⟨s.outcomes.tail, s.made + 1⟩).mono ?_
        rintro result s' ⟨made, hmade, hfinished⟩
        exact ⟨made + 1, by rw [hmade, Nat.add_assoc, Nat.add_comm 1],
          hfinished.of_tail (.inl herror)⟩
      · exact fun _ hnone => by cases hnone
      · refine fun helapsed _ => (ih lastError ⟨s.outcomes.tail, s.made + 1⟩).mono ?_
        rintro result s' ⟨made, hmade, hfinished⟩
        exact ⟨made + 1, by rw [hmade, Nat.add_assoc, Nat.add_comm 1],
          hfinished.of_tail (.inr helapsed)⟩

/-! ## The expectation -/

section

variable {outcomes : Stream' (Attempt T E)} {maxAttempts made : Nat}
  {result : Except (CallWithRetryError E) T}

/-- The first success meets the expectation. -/
theorem retried_succeeded_iff {i : Nat} (hi : i < maxAttempts) {value : T}
    (hvalue : outcomes.get i = .succeeded value)
    (hfirst : ∀ j < i, ¬ (outcomes.get j).Succeeds) (hhead : outcomes.head ≠ .elapsed) :
    Retried outcomes maxAttempts (.ok value) (i + 1) ↔ RetriesFully outcomes maxAttempts := by
  have hsucceeds : (outcomes.get i).Succeeds := ⟨value, hvalue⟩
  have hfully : RetriesFully outcomes maxAttempts := .inr ⟨hhead, .inl ⟨i, hi, hsucceeds⟩⟩
  refine iff_of_true ⟨?_, fun hnone => absurd hsucceeds (hnone i hi)⟩ hfully
  intro j hj found hfound hbefore
  have hij : j = i := by
    rcases Nat.lt_trichotomy j i with hlt | heq | hgt
    · exact absurd ⟨found, hfound⟩ (hfirst j hlt)
    · exact heq
    · exact absurd hsucceeds (hbefore i hgt)
  subst hij
  cases hvalue.symm.trans hfound
  exact ⟨rfl, rfl⟩

/-- A loop that makes its attempts disappoints only when the last attempt times out. -/
theorem Finished.retried_iff {lastError : E} (hmax : 0 < maxAttempts)
    (h : Finished outcomes maxAttempts lastError result made) (hhead : outcomes.head ≠ .elapsed) :
    Retried outcomes maxAttempts result made ↔ RetriesFully outcomes maxAttempts := by
  cases h with
  | succeeded hi hvalue hfirst => exact retried_succeeded_iff hi hvalue hfirst hhead
  | @exhausted error hnone hstart hlast =>
      have hsome : ¬ ∃ i < maxAttempts, (outcomes.get i).Succeeds := by
        rintro ⟨i, hi, hsucceeds⟩
        exact hnone i hi hsucceeds
      have hfirst : ∀ i < maxAttempts, ∀ value, outcomes.get i = .succeeded value →
          ¬ ∀ j < i, ¬ (outcomes.get j).Succeeds :=
        fun i hi value hvalue _ => hnone i hi ⟨value, hvalue⟩
      cases hend : outcomes.get (maxAttempts - 1) with
      | succeeded value => exact absurd ⟨value, hend⟩ (hnone _ (by omega))
      | failed latest =>
          have hfully : RetriesFully outcomes maxAttempts :=
            .inr ⟨hhead, .inr (by rw [hend]; simp)⟩
          refine iff_of_true ⟨fun i hi value hvalue hbefore => ?_, fun _ => ⟨rfl, ?_⟩⟩ hfully
          · exact absurd hbefore (hfirst i hi value hvalue)
          · rw [hend, hlast latest hmax hend]
            exact ⟨_, rfl, rfl⟩
      | elapsed =>
          refine iff_of_false (fun hretried => ?_) ?_
          · rcases (hretried.2 hnone).2 with ⟨failure, hfailure, heq⟩
            rw [hend] at hfailure
            cases hfailure
            cases heq
          · rintro (hone | ⟨_, hsucceeds | hne⟩)
            · subst hone
              exact hhead hend
            · exact hsome hsucceeds
            · exact hne hend

/-- A timeout of the first attempt is returned, so it has to be the only one. -/
theorem retried_elapsed_iff (hhead : outcomes.head = .elapsed) :
    Retried outcomes maxAttempts (.error .timeout) 1 ↔ RetriesFully outcomes maxAttempts := by
  have hfails : ¬ (outcomes.get 0).Succeeds := by
    rintro ⟨value, hvalue⟩
    cases hhead.symm.trans hvalue
  have hone : RetriesFully outcomes maxAttempts ↔ maxAttempts = 1 := by
    unfold RetriesFully
    simp [hhead]
  rw [hone]
  constructor
  · intro hretried
    by_cases hsome : ∃ i, i < maxAttempts ∧ (outcomes.get i).Succeeds
    · classical
      rcases Nat.find_spec hsome with ⟨hlt, value, hvalue⟩
      have hbefore : ∀ j < Nat.find hsome, ¬ (outcomes.get j).Succeeds :=
        fun j hj hsucceeds => Nat.find_min hsome hj ⟨by omega, hsucceeds⟩
      cases (hretried.1 _ hlt value hvalue hbefore).1
    · have hnone : ∀ i < maxAttempts, ¬ (outcomes.get i).Succeeds :=
        fun i hi hsucceeds => hsome ⟨i, hi, hsucceeds⟩
      exact (hretried.2 hnone).1.symm
  · intro heq
    subst heq
    constructor
    · intro i hi value hvalue _
      cases Nat.lt_one_iff.mp hi
      exact absurd ⟨value, hvalue⟩ hfails
    · intro _
      have hfirst : outcomes.get (1 - 1) = .elapsed := hhead
      rw [hfirst]
      exact ⟨rfl, _, rfl, rfl⟩

end

/-- `call_with_retry` always returns.  It returns the first success, or all attempts and the
failure of the last one, exactly if there is but one attempt, or the first attempt does not
time out and the last one does not time out without a success. -/
theorem callWithRetry_retries_iff (T E : Type) (config : RetryConfig)
    (hmax : 1 ≤ config.maxAttempts) (outcomes : Stream' (Attempt T E)) :
    (∃ result s', (callWithRetry config).Runs AttemptStep ⟨outcomes, 0⟩ result s') ∧
      ∀ result s', (callWithRetry config).Runs AttemptStep ⟨outcomes, 0⟩ result s' →
        (Retried outcomes config.maxAttempts.toNat result s'.made ↔
          RetriesFully outcomes config.maxAttempts.toNat) := by
  have hpos : 0 < config.maxAttempts.toNat := UInt32.le_iff_toNat_le.mp hmax
  constructor
  · refine Library.Program.exists_runs (Library.Program.only_true _) (fun s call _ => ?_) _
    cases call with
    | attempt timeout => exact ⟨_, _, .attempt s timeout⟩
    | sleep delay => exact ⟨_, _, .sleep s delay⟩
  · intro result s' hruns
    suffices hensures : (callWithRetry config).Ensures AttemptStep (fun result s' =>
        Retried outcomes config.maxAttempts.toNat result s'.made ↔
          RetriesFully outcomes config.maxAttempts.toNat) ⟨outcomes, 0⟩ from hruns.ensures hensures
    rcases Nat.exists_eq_succ_of_ne_zero (Nat.pos_iff_ne_zero.mp hpos) with ⟨left, hleft⟩
    rw [callWithRetry, hleft]
    refine retryLoop_ensures_succ ?_ ?_ ?_ ?_
    · intro value hvalue
      have hhead : outcomes.head ≠ .elapsed := by
        rw [hvalue]
        simp
      exact retried_succeeded_iff (i := 0) (Nat.succ_pos left) hvalue (by simp) hhead
    · intro error herror
      refine (retryLoop_after_error left error _).mono ?_
      rintro result s' ⟨made, hmade, hfinished⟩
      have hwhole : Finished outcomes (left + 1) error result (made + 1) :=
        hfinished.of_tail (.inl herror)
      rw [hmade, Nat.zero_add, Nat.add_comm]
      exact hwhole.retried_iff (Nat.succ_pos left) (by rw [herror]; simp)
    · exact fun helapsed _ => retried_elapsed_iff helapsed
    · exact fun _ hsome => absurd rfl hsome

/-! ## A registration that is not retried -/

/-- The first attempt times out, and the next one would succeed. -/
def slowStart : Stream' (Attempt Unit Status) :=
  Stream'.cons .elapsed (Stream'.const (.succeeded ()))

/-- Three attempts are allowed, the second one succeeds: registered. -/
theorem callWithRetry_retries_iff_refused :
    ∃ result s', (callWithRetry registrationConfig).Runs AttemptStep
        ⟨Stream'.cons (.failed ⟨.unavailable, "refused"⟩) slowStart.tail, 0⟩ result s' ∧
      Retried (Stream'.cons (.failed ⟨.unavailable, "refused"⟩) slowStart.tail) 3 result
        s'.made := by
  rcases callWithRetry_retries_iff Unit Status registrationConfig (by decide)
    (Stream'.cons (.failed ⟨.unavailable, "refused"⟩) slowStart.tail) with
    ⟨⟨result, s', hruns⟩, hretried⟩
  refine ⟨result, s', hruns, (hretried result s' hruns).mpr (.inr ⟨?_, .inl ⟨1, ?_⟩⟩)⟩
  · exact fun helapsed => by cases helapsed
  · exact ⟨by decide, (), rfl⟩

/-- The registration gives up after one of three attempts, and reports that all of them timed
out. -/
theorem registration_gives_up :
    ∃ s', (registerStorageNode Status.message).Runs AttemptStep ⟨slowStart, 0⟩
        (.error "could not register to metadata service: all attempts timed out") s' ∧
      s'.made = 1 ∧ slowStart.get 1 = .succeeded () ∧
      (callWithRetry registrationConfig).Runs AttemptStep ⟨slowStart, 0⟩ (.error .timeout) s' ∧
      ¬ Retried slowStart registrationConfig.maxAttempts.toNat (.error .timeout) s'.made := by
  refine ⟨⟨slowStart.tail, 1⟩, ?_, rfl, rfl, ?_, ?_⟩
  · exact .call (.attempt ⟨slowStart, 0⟩ 5000) (.done _ _)
  · exact .call (.attempt ⟨slowStart, 0⟩ 5000) (.done _ _)
  · intro hretried
    have hfirst : ∀ j < 1, ¬ (slowStart.get j).Succeeds := by
      rintro j hj ⟨value, hvalue⟩
      cases Nat.lt_one_iff.mp hj
      cases hvalue
    cases (hretried.1 1 (by decide) () rfl hfirst).1

end StorageNode
end ObjectStore
