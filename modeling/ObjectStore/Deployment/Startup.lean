import ObjectStore.Deployment.Rpc
import ObjectStore.Library.Delimited

/-!
# Deployment - Finding a metadata node

The gateway, the replication service and the storage nodes start by connecting to a metadata
node.  Each has a list of addresses, tries them in order, and pauses between two rounds.  The
gateway and the replication service read their lists from the environment.

Main definitions:

- `ServiceCall`: the calls of a `main` function.
- `metadataUrls`: the list of addresses.
- `connectFirst`: one round over the addresses.
- `gatewayLoop`, `replicationLoop`, `storageNodeLoop`: the rounds of the three services.
- `Service.start`: how a service starts.

Main results:

- Theorem `metadataUrls_eq_nil_iff`: when the list is empty.
- Theorem `Service.start_eq`: how many rounds each of the loops makes.
- Theorem `start_finds_first`: the attempts and pauses of a start, in their order.
-/

namespace ObjectStore
namespace Deployment

/-! ## Calls -/

/-- The calls of a `main` function. -/
inductive ServiceCall where
  /-- A sleep, or the next tick of an interval. -/
  | pause
  /-- `StorageMetadataServiceClient::connect`; a timeout counts as an error. -/
  | connect (url : String)
  /-- A call of a program whose metadata client is connected to `url`. -/
  | on (url : String) (call : Call)

/-- What a call of a starting service is answered with. -/
def ServiceCall.Reply : ServiceCall → Type
  | .pause => Unit
  | .connect _ => Except String Unit
  | .on _ call => call.Reply

/-- A program of a `main` function. -/
abbrev ServiceProgram (α : Type) := Library.Program ServiceCall ServiceCall.Reply α

/-- A program that makes one call. -/
def ServiceProgram.perform (call : ServiceCall) : ServiceProgram call.Reply :=
  @Library.Program.perform ServiceCall ServiceCall.Reply call

/-- The program over a metadata client that is connected to `url`. -/
def Program.through {α : Type} (url : String) : Program α → ServiceProgram α
  | .done value => .done value
  | .call request next => .call (.on url request) fun reply => Program.through url (next reply)

/-! ## Addresses -/

/-- `char::is_whitespace`. -/
def isWhitespace (c : Char) : Bool :=
  let n := c.toNat
  (9 ≤ n && n ≤ 13) || n == 0x20 || n == 0x85 || n == 0xA0 || n == 0x1680 ||
    (0x2000 ≤ n && n ≤ 0x200A) || n == 0x2028 || n == 0x2029 || n == 0x202F || n == 0x205F ||
      n == 0x3000

/-- `str::trim`. -/
def trim (cs : List Char) : List Char :=
  (cs.dropWhile isWhitespace).rdropWhile isWhitespace

/-- Nothing is left of blank text. -/
theorem trim_eq_nil_iff {cs : List Char} : trim cs = [] ↔ ∀ c ∈ cs, isWhitespace c = true := by
  rw [trim, List.rdropWhile_eq_nil_iff]
  constructor
  · intro h
    by_contra hnot
    have hne : cs.dropWhile isWhitespace ≠ [] := by
      rw [Ne, List.dropWhile_eq_nil_iff]
      exact hnot
    have hhead := List.head_dropWhile_not isWhitespace hne
    rw [h _ (List.head_mem hne)] at hhead
    cases hhead
  · intro h c hc
    exact h c ((List.dropWhile_sublist _).subset hc)

/-- The addresses in `METADATA_URLS`, separated by commas; `METADATA_URL` if this is not set.
`vars` has nothing for a variable that is not set or is no Unicode. -/
def metadataUrls (otherwise : String) (vars : String → Option String) : List String :=
  match vars "METADATA_URLS" with
  | some s => ((s.toList.splitOn ',').map fun u => String.ofList (trim u)).filter (!·.isEmpty)
  | none => [(vars "METADATA_URL").getD otherwise]

/-- A list that is set but blank gives no address; `METADATA_URL` is not looked at then. -/
theorem metadataUrls_eq_nil_iff {otherwise : String} {vars : String → Option String} :
    metadataUrls otherwise vars = [] ↔ ∃ s, vars "METADATA_URLS" = some s ∧
      ∀ c ∈ s.toList, c = ',' ∨ isWhitespace c = true := by
  unfold metadataUrls
  split
  · rename_i s hs
    have hpieces : (((s.toList.splitOn ',').map fun u => String.ofList (trim u)).filter
        (!·.isEmpty)) = [] ↔
          ∀ piece ∈ s.toList.splitOn ',', ∀ c ∈ piece, isWhitespace c = true := by
      simp [List.filter_eq_nil_iff, ← trim_eq_nil_iff]
    rw [hpieces, Library.forall_mem_splitOn]
    simp [hs]
  · rename_i hs
    simp [hs]

/-! ## Rounds -/

/-- One attempt at each address, up to the first connection. -/
def connectFirst : List String → ServiceProgram (Option String)
  | [] => pure none
  | url :: urls => do
      let connected : Except String Unit ← ServiceProgram.perform (.connect url)
      match connected with
      | .ok () => pure (some url)
      | .error _ => connectFirst urls

/-- The loop of the gateway.  `retries` is an `i32`, which drops below zero in the last round. -/
def gatewayLoop (urls : List String) (retries : Int) : ServiceProgram (Option String) := do
  match ← connectFirst urls with
  | some url => pure (some url)
  | none =>
      if retries - 1 < 0 then pure none
      else do
        let _ ← ServiceProgram.perform .pause
        gatewayLoop urls (retries - 1)
termination_by retries.toNat

/-- The loop of the replication service, which counts the rounds behind it. -/
def replicationLoop (urls : List String) (attempts : Nat) : ServiceProgram (Option String) := do
  match ← connectFirst urls with
  | some url => pure (some url)
  | none =>
      if 5 ≤ attempts + 1 then pure none
      else do
        let _ ← ServiceProgram.perform .pause
        replicationLoop urls (attempts + 1)
termination_by 5 - attempts

/-- The constant of the storage node. -/
def MAX_ATTEMPTS : Nat := 5

/-- The loop of a storage node, which looks at its counter before it counts the round. -/
def storageNodeLoop (urls : List String) (attempts : Nat) : ServiceProgram (Option String) := do
  match ← connectFirst urls with
  | some url => pure (some url)
  | none =>
      if MAX_ATTEMPTS ≤ attempts then pure none
      else do
        let _ ← ServiceProgram.perform .pause
        storageNodeLoop urls (attempts + 1)
termination_by MAX_ATTEMPTS - attempts

/-- The services that look for a metadata node when they start. -/
inductive Service where
  | apiGateway
  | replicationService
  /-- With the addresses of its configuration. -/
  | storageNode (metadataAddresses : List String)

namespace Service

/-- The addresses of the metadata nodes that the service tries. -/
def metadataAddresses (vars : String → Option String) : Service → List String
  | apiGateway => metadataUrls "http://127.0.0.1:3001" vars
  | replicationService => metadataUrls "http://localhost:3001" vars
  | storageNode metadataAddresses => metadataAddresses

/-- How the service starts; without a connection it exits. -/
def start (self : Service) (vars : String → Option String) : ServiceProgram (Option String) :=
  match self with
  | apiGateway => gatewayLoop (self.metadataAddresses vars) 5
  | replicationService => replicationLoop (self.metadataAddresses vars) 0
  | storageNode _ => storageNodeLoop (self.metadataAddresses vars) 0

end Service

/-! ## The loops as one -/

/-- The rounds over the addresses; `retries` are left after this one. -/
def connectLoop (urls : List String) (retries : Nat) : ServiceProgram (Option String) := do
  match ← connectFirst urls with
  | some url => pure (some url)
  | none =>
      match retries with
      | 0 => pure none
      | retries + 1 =>
          let _ ← ServiceProgram.perform .pause
          connectLoop urls retries

/-- The counter of the gateway gives this many further rounds. -/
theorem gatewayLoop_eq (urls : List String) (retries : Nat) :
    gatewayLoop urls retries = connectLoop urls retries := by
  induction retries with
  | zero =>
      rw [gatewayLoop, connectLoop]
      rfl
  | succ retries ih =>
      have hback : ((retries + 1 : Nat) : Int) - 1 = retries := by omega
      have hleft : ¬ (retries : Int) < 0 := by omega
      rw [gatewayLoop, connectLoop, hback, if_neg hleft, ih]

/-- The counter of the replication service counts up to four. -/
theorem replicationLoop_eq (urls : List String) {attempts retries : Nat}
    (h : attempts + retries = 4) :
    replicationLoop urls attempts = connectLoop urls retries := by
  induction retries generalizing attempts with
  | zero =>
      have hlast : 5 ≤ attempts + 1 := by omega
      rw [replicationLoop, connectLoop, if_pos hlast]
  | succ retries ih =>
      have hleft : ¬ 5 ≤ attempts + 1 := by omega
      rw [replicationLoop, connectLoop, if_neg hleft, ih (by omega)]

/-- The counter of a storage node counts up to five. -/
theorem storageNodeLoop_eq (urls : List String) {attempts retries : Nat}
    (h : attempts + retries = MAX_ATTEMPTS) :
    storageNodeLoop urls attempts = connectLoop urls retries := by
  induction retries generalizing attempts with
  | zero =>
      have hlast : MAX_ATTEMPTS ≤ attempts := by omega
      rw [storageNodeLoop, connectLoop, if_pos hlast]
  | succ retries ih =>
      have hleft : ¬ MAX_ATTEMPTS ≤ attempts := by omega
      rw [storageNodeLoop, connectLoop, if_neg hleft, ih (by omega)]

/-- The rounds after the first one. -/
def Service.retries : Service → Nat
  | apiGateway => 5
  | replicationService => 4
  | storageNode _ => 5

/-- The counters of the three loops differ, their rounds do not. -/
theorem Service.start_eq (self : Service) (vars : String → Option String) :
    self.start vars = connectLoop (self.metadataAddresses vars) self.retries := by
  cases self with
  | apiGateway => exact gatewayLoop_eq _ 5
  | replicationService => exact replicationLoop_eq _ rfl
  | storageNode metadataAddresses => exact storageNodeLoop_eq _ rfl

/-! ## Attempts -/

/-- The connections that are tried, with given outcomes; the state counts them. -/
inductive AttemptStep (outcomes : Nat → Bool) :
    Library.Step Nat ServiceCall ServiceCall.Reply where
  | connected {attempts : Nat} {url : String} (houtcome : outcomes attempts = true) :
      AttemptStep outcomes attempts (.connect url) (.ok ()) (attempts + 1)
  | refused {attempts : Nat} {url : String} (houtcome : outcomes attempts = false)
      (message : String) :
      AttemptStep outcomes attempts (.connect url) (.error message) (attempts + 1)
  | paused {attempts : Nat} : AttemptStep outcomes attempts .pause () attempts

/-- Attempt `i` is the first success from `start` on, and is made before `stop`. -/
structure FirstSuccess (outcomes : Nat → Bool) (start stop i : Nat) : Prop where
  start_le : start ≤ i
  lt_stop : i < stop
  success : outcomes i = true
  before : ∀ j, start ≤ j → j < i → outcomes j = false

/-- All attempts from `start` to before `stop` fail. -/
def AllFail (outcomes : Nat → Bool) (start stop : Nat) : Prop :=
  ∀ j, start ≤ j → j < stop → outcomes j = false

/-- `rounds` rounds over all addresses with a pause behind each, and one over the first ones. -/
def callsOf (urls : List String) (rounds : Nat) (last : List String) : List ServiceCall :=
  (List.replicate rounds (urls.map ServiceCall.connect ++ [.pause])).flatten ++
    last.map ServiceCall.connect

variable {outcomes : Nat → Bool} {urls : List String} {start middle stop i : Nat}

theorem FirstSuccess.extend (h : FirstSuccess outcomes start middle i) (hle : middle ≤ stop) :
    FirstSuccess outcomes start stop i :=
  ⟨h.start_le, h.lt_stop.trans_le hle, h.success, h.before⟩

/-- Failing attempts may come before. -/
theorem FirstSuccess.after (h : FirstSuccess outcomes middle stop i) (hle : start ≤ middle)
    (hfailed : AllFail outcomes start middle) : FirstSuccess outcomes start stop i := by
  refine ⟨hle.trans h.start_le, h.lt_stop, h.success, fun j hstart hj => ?_⟩
  by_cases hmiddle : j < middle
  · exact hfailed j hstart hmiddle
  · exact h.before j (by omega) hj

/-- Failing attempts follow one another. -/
theorem AllFail.append (h : AllFail outcomes start middle) (h' : AllFail outcomes middle stop) :
    AllFail outcomes start stop := by
  intro j hstart hstop
  by_cases hmiddle : j < middle
  · exact h j hstart hmiddle
  · exact h' j (by omega) hstop

theorem allFail_one (h : outcomes start = false) : AllFail outcomes start (start + 1) := by
  intro j hstart hstop
  have heq : j = start := by omega
  rw [heq]
  exact h

/-- The calls of a start so far. -/
abbrev StartTrace := List (Library.Transition Nat ServiceCall ServiceCall.Reply)

/-- The calls of a trace, without their replies. -/
def StartTrace.calls (events : StartTrace) : List ServiceCall :=
  events.map (·.request)

/-- One round: the addresses in their order, up to the first one that accepts. -/
theorem connectFirst_traced (attempts : Nat) :
    (connectFirst urls).EnsuresTraced (AttemptStep outcomes) (fun result events after =>
      (∃ j url, urls[j]? = some url ∧ result = some url ∧
        FirstSuccess outcomes attempts (attempts + urls.length) (attempts + j) ∧
        StartTrace.calls events = (urls.take (j + 1)).map .connect) ∨
      (AllFail outcomes attempts (attempts + urls.length) ∧ result = none ∧
        StartTrace.calls events = urls.map .connect ∧ after = attempts + urls.length))
      attempts := by
  induction urls generalizing attempts with
  | nil =>
      refine .inr ⟨fun j hstart hstop => ?_, rfl, rfl, rfl⟩
      simp only [List.length_nil] at hstop
      omega
  | cons url urls ih =>
      have hlength : attempts + (url :: urls).length = attempts + 1 + urls.length := by
        simp only [List.length_cons]
        omega
      rw [hlength]
      intro reply after hstep
      cases hstep with
      | connected houtcome =>
          refine .inl ⟨0, url, rfl, rfl, ⟨le_rfl, by omega, houtcome, fun j hj hlt => ?_⟩, rfl⟩
          omega
      | refused houtcome message =>
          have hfirst := allFail_one houtcome
          refine (ih (attempts + 1)).mono ?_
          rintro result events s'
            (⟨j, found, hfound, rfl, hi, hcalls⟩ | ⟨hfailed, rfl, hcalls, rfl⟩)
          · have hshift : attempts + 1 + j = attempts + (j + 1) := by omega
            rw [hshift] at hi
            refine .inl ⟨j + 1, found, hfound, rfl, hi.after (Nat.le_succ _) hfirst, ?_⟩
            rw [List.take_succ_cons, List.map_cons, ← hcalls]
            rfl
          · refine .inr ⟨hfirst.append hfailed, rfl, ?_, rfl⟩
            rw [List.map_cons, ← hcalls]
            rfl

/-- The calls behind a round that finds nobody, a pause and what comes later. -/
theorem StartTrace.calls_paused {urls : List String} {events later : StartTrace} {attempts : Nat}
    {rounds : Nat} {last : List String} (hevents : events.calls = urls.map .connect)
    (hlater : later.calls = callsOf urls rounds last) :
    StartTrace.calls (events ++ ⟨attempts, .pause, (), attempts⟩ :: later) =
      callsOf urls (rounds + 1) last := by
  have hsplit : StartTrace.calls (events ++ ⟨attempts, .pause, (), attempts⟩ :: later) =
      events.calls ++ .pause :: later.calls := by
    simp [StartTrace.calls]
  rw [hsplit, hevents, hlater]
  simp [callsOf, List.replicate_succ]

/-- All rounds: one pause behind each that finds nobody, but for the last. -/
theorem connectLoop_traced (retries attempts : Nat) :
    (connectLoop urls retries).EnsuresTraced (AttemptStep outcomes) (fun result events _ =>
      (∃ round ≤ retries, ∃ j url, urls[j]? = some url ∧ result = some url ∧
        FirstSuccess outcomes attempts (attempts + (retries + 1) * urls.length)
          (attempts + (round * urls.length + j)) ∧
        StartTrace.calls events = callsOf urls round (urls.take (j + 1))) ∨
      (AllFail outcomes attempts (attempts + (retries + 1) * urls.length) ∧ result = none ∧
        StartTrace.calls events = callsOf urls retries urls)) attempts := by
  induction retries generalizing attempts with
  | zero =>
      unfold connectLoop
      apply Library.Program.EnsuresTraced.of_bind
      apply (connectFirst_traced attempts).mono
      rw [Nat.zero_add, Nat.one_mul]
      rintro result events s' (⟨j, url, hurl, rfl, hi, hcalls⟩ | ⟨hfailed, rfl, hcalls, rfl⟩)
      · refine .inl ⟨0, le_rfl, j, url, hurl, rfl, ?_, ?_⟩
        · rwa [Nat.zero_mul, Nat.zero_add]
        · rw [List.append_nil, hcalls]
          rfl
      · refine .inr ⟨hfailed, rfl, ?_⟩
        rw [List.append_nil, hcalls]
        rfl
  | succ retries ih =>
      have hrounds : attempts + (retries + 1 + 1) * urls.length =
          attempts + urls.length + (retries + 1) * urls.length := by
        ring
      unfold connectLoop
      apply Library.Program.EnsuresTraced.of_bind
      apply (connectFirst_traced attempts).mono
      rw [hrounds]
      rintro result events s' (⟨j, url, hurl, rfl, hi, hcalls⟩ | ⟨hfailed, rfl, hcalls, rfl⟩)
      · refine .inl ⟨0, Nat.zero_le _, j, url, hurl, rfl, ?_, ?_⟩
        · rw [Nat.zero_mul, Nat.zero_add]
          exact hi.extend (by omega)
        · rw [List.append_nil, hcalls]
          rfl
      · intro reply after hpause
        cases hpause
        apply (ih (attempts + urls.length)).mono
        rintro result later s' (⟨round, hround, j, url, hurl, rfl, hi, hlater⟩ |
          ⟨hrest, rfl, hlater⟩)
        · have hshift : attempts + urls.length + (round * urls.length + j) =
              attempts + ((round + 1) * urls.length + j) := by
            ring
          rw [hshift] at hi
          exact .inl ⟨round + 1, Nat.succ_le_succ hround, j, url, hurl, rfl,
            hi.after (Nat.le_add_right _ _) hfailed, StartTrace.calls_paused hcalls hlater⟩
        · exact .inr ⟨hfailed.append hrest, rfl, StartTrace.calls_paused hcalls hlater⟩

/-- The calls of a start. -/
def StartCall : ServiceCall → Prop
  | .on _ _ => False
  | _ => True

theorem connectFirst_only (urls : List String) : (connectFirst urls).Only StartCall := by
  induction urls with
  | nil => trivial
  | cons url urls ih =>
      refine ⟨trivial, fun (connected : Except String Unit) => ?_⟩
      cases connected with
      | ok _ => trivial
      | error _ => exact ih

/-- A start only connects, and pauses. -/
theorem connectLoop_only (urls : List String) (retries : Nat) :
    (connectLoop urls retries).Only StartCall := by
  induction retries with
  | zero =>
      unfold connectLoop
      apply (connectFirst_only urls).of_bind
      intro result
      cases result <;> trivial
  | succ retries ih =>
      unfold connectLoop
      apply (connectFirst_only urls).of_bind
      intro result
      cases result with
      | none => exact ⟨trivial, fun _ => ih⟩
      | some url => trivial

/-- A start comes to an end. -/
theorem exists_start (service : Service) (vars : String → Option String) (outcomes : Nat → Bool) :
    ∃ result attempts trace, (service.start vars).Runs
      (Library.Traced (AttemptStep outcomes)) (0, []) result (attempts, trace) := by
  have hends : ∃ result attempts, (service.start vars).Runs (AttemptStep outcomes) 0 result
      attempts := by
    rw [service.start_eq]
    apply Library.Program.exists_runs (connectLoop_only _ _)
    intro attempts call hcall
    cases call with
    | pause => exact ⟨_, _, .paused⟩
    | connect url =>
        cases houtcome : outcomes attempts with
        | true => exact ⟨_, _, .connected houtcome⟩
        | false => exact ⟨_, _, .refused houtcome ""⟩
    | on url call => cases hcall
  rcases hends with ⟨result, attempts, hrun⟩
  rcases hrun.traced [] with ⟨trace, htraced⟩
  exact ⟨result, attempts, trace, htraced⟩

/-- The calls of a start, exactly.  It tries the addresses in their order, round after round, with
one pause between two rounds, and ends with the first attempt that succeeds: in round `round`,
counted from zero, at address `j`.  When no attempt of any round succeeds it ends without a
pause. -/
theorem start_finds_first (service : Service) (vars : String → Option String)
    (outcomes : Nat → Bool) (result : Option String) (attempts : Nat) (trace : StartTrace)
    (hrun : (service.start vars).Runs (Library.Traced (AttemptStep outcomes)) (0, []) result
      (attempts, trace)) :
    (∃ round ≤ service.retries, ∃ j url, (service.metadataAddresses vars)[j]? = some url ∧
      result = some url ∧
      FirstSuccess outcomes 0 ((service.retries + 1) * (service.metadataAddresses vars).length)
        (round * (service.metadataAddresses vars).length + j) ∧
      trace.calls = callsOf (service.metadataAddresses vars) round
        ((service.metadataAddresses vars).take (j + 1))) ∨
    (AllFail outcomes 0 ((service.retries + 1) * (service.metadataAddresses vars).length) ∧
      result = none ∧
      trace.calls = callsOf (service.metadataAddresses vars) service.retries
        (service.metadataAddresses vars)) := by
  rw [service.start_eq] at hrun
  rcases hrun.ensuresTraced (connectLoop_traced service.retries 0) with ⟨events, htrace, hends⟩
  rw [List.nil_append] at htrace
  subst htrace
  simpa only [Nat.zero_add] using hends

/-- The fourth attempt succeeds. -/
def fourthAttempt (i : Nat) : Bool :=
  i == 3

/-- The environment names two metadata nodes. -/
def twoUrls (name : String) : Option String :=
  if name = "METADATA_URLS" then some " http://a:3001,, http://b:3001 " else none

/-- The gateway finds the second metadata node in its second round. -/
theorem start_finds_first_fourth :
    ∃ (result : Option String) (attempts : Nat) (trace : StartTrace),
      (Service.apiGateway.start twoUrls).Runs (Library.Traced (AttemptStep fourthAttempt)) (0, [])
        result (attempts, trace) ∧
      result = some "http://b:3001" ∧
      trace.calls = [.connect "http://a:3001", .connect "http://b:3001", .pause,
        .connect "http://a:3001", .connect "http://b:3001"] := by
  have hurls : Service.apiGateway.metadataAddresses twoUrls =
      ["http://a:3001", "http://b:3001"] := by decide +kernel
  rcases exists_start .apiGateway twoUrls fourthAttempt with ⟨result, attempts, trace, hrun⟩
  refine ⟨result, attempts, trace, hrun, ?_⟩
  rcases start_finds_first .apiGateway twoUrls fourthAttempt result attempts trace hrun with
    ⟨round, _, j, url, hurl, hresult, hi, hcalls⟩ | ⟨hfailed, _⟩
  · rw [hurls] at hurl hi hcalls
    have hfourth : round * 2 + j = 3 := by simpa [fourthAttempt] using hi.success
    have hlt : j < 2 := (List.getElem?_eq_some_iff.mp hurl).1
    have hround : round = 1 := by omega
    have hsecond : j = 1 := by omega
    subst hround
    subst hsecond
    cases hurl
    exact ⟨hresult, hcalls⟩
  · have hfourth := hfailed 3 (by omega)
    rw [hurls] at hfourth
    simp [fourthAttempt, Service.retries] at hfourth

end Deployment
end ObjectStore
