import ObjectStore.ApiGateway.Handlers
import ObjectStore.Deployment.Effect
import ObjectStore.Library.Base64
import ObjectStore.Library.Crc32
import ObjectStore.StorageMetadata.Json
import ObjectStore.StorageMetadata.Run

/-!
# API gateway - Failed uploads

An upload creates the object first and rolls it back when something fails later on.  The
streaming handler does so at every exit.  The JSON handler leaves its loop without a
rollback when it cannot connect to the storage node of a chunk.

Main results:

- Theorem `putChunks_ensures`: the loop of the JSON handler.
- Theorem `Upload.handler_ensures`: every end of either handler.
- Theorem `failed_upload_gone_iff`: when a failed upload leaves no object behind.
-/

namespace ObjectStore
namespace ApiGateway

open Deployment (Call Event Log Services Environment Faults Step)

/-! ## Runs of one handler -/

/-- Calls next to requests of others that leave the object `name` alone. -/
def Shared (name : String) (step : Library.Step Services Call Call.Reply) :
    Library.Step Services Call Call.Reply :=
  fun s call reply s'' => ∃ s', (s'.Has name ↔ s.Has name) ∧ step s' call reply s''

/-- `get_or_connect` could not connect. -/
def isConnectFailure : Event → Bool
  | ⟨.connectCached _, reply⟩ =>
      match (reply : Except String Unit) with
      | .error _ => true
      | .ok _ => false
  | _ => false

/-- A deletion of the object has failed. -/
def isRollbackFailure (name : String) : Event → Bool
  | ⟨.metadata (.deleteObject other), reply⟩ =>
      match (reply : Except Status Unit) with
      | .error _ => decide (other = name)
      | .ok _ => false
  | _ => false

/-- The object has been created. -/
def isCreation (name : String) : Event → Bool
  | ⟨.metadata (.putObject _ other), reply⟩ =>
      match (reply : Except Status Unit) with
      | .error _ => false
      | .ok _ => decide (other = name)
  | _ => false

/-- Some call to connect has failed. -/
def ConnectFailed (log : Log) : Prop := log.any isConnectFailure = true

/-- A call that should have rolled the upload of `name` back has failed. -/
def RollbackFailed (name : String) (log : Log) : Prop := log.any (isRollbackFailure name) = true

/-- The object has been created. -/
def Created (name : String) (log : Log) : Prop := log.any (isCreation name) = true

variable {env : Environment} {lib : Library} {name : String} {α β : Type}

/-- The steps of a handler that concern `name`, with the record of its calls. -/
abbrev HandlerStep (env : Environment) (name : String) :
    Library.Step (Services × Log) Call Call.Reply :=
  Library.Logged (Shared name (Step env .any))

/-! ## Rules for the calls -/

/-- One call, and then the rest. -/
theorem ensures_perform {step : Library.Step (Services × Log) Call Call.Reply} {call : Call}
    {f : call.Reply → Deployment.Program β} {post : β → Services × Log → Prop}
    {st : Services × Log}
    (h : ∀ reply st', step st call reply st' → (f reply).Ensures step post st') :
    (Deployment.Program.perform call >>= f).Ensures step post st :=
  .of_bind h

theorem only_perform {P : Call → Prop} {call : Call} {f : call.Reply → Deployment.Program β}
    (hcall : P call) (h : ∀ reply, (f reply).Only P) :
    (Deployment.Program.perform call >>= f).Only P :=
  ⟨hcall, h⟩

theorem connectFailed_append {log : Log} {event : Event} :
    ConnectFailed (log ++ [event]) ↔ ConnectFailed log ∨ isConnectFailure event = true := by
  simp [ConnectFailed]

theorem rollbackFailed_append {log : Log} {event : Event} :
    RollbackFailed name (log ++ [event]) ↔
      RollbackFailed name log ∨ isRollbackFailure name event = true := by
  simp [RollbackFailed]

theorem created_append {log : Log} {event : Event} :
    Created name (log ++ [event]) ↔ Created name log ∨ isCreation name event = true := by
  simp [Created]

/-- The call opens a connection for the cache. -/
def Reconnects : Call → Prop
  | .connectCached _ => True
  | _ => False

/-- Other calls are no failing connections. -/
theorem not_isConnectFailure {call : Call} {reply : call.Reply} (hcall : ¬ Reconnects call) :
    isConnectFailure ⟨call, reply⟩ = false := by
  cases call with
  | connectCached address => exact absurd trivial hcall
  | _ => rfl

/-- Other calls are no failing rollbacks. -/
theorem not_isRollbackFailure {call : Call} {reply : call.Reply} (hcall : ¬ call.Concerns name) :
    isRollbackFailure name ⟨call, reply⟩ = false := by
  cases call with
  | metadata call =>
      cases call with
      | deleteObject other =>
          have hne : other ≠ name := hcall
          change Except Status Unit at reply
          cases reply with
          | error status => exact decide_eq_false hne
          | ok value => rfl
      | _ => rfl
  | _ => rfl

/-- Other calls create nothing. -/
theorem not_isCreation {call : Call} {reply : call.Reply} (hcall : ¬ call.Concerns name) :
    isCreation name ⟨call, reply⟩ = false := by
  cases call with
  | metadata call =>
      cases call with
      | putObject checksum other =>
          have hne : other ≠ name := hcall
          change Except Status Unit at reply
          cases reply with
          | error status => rfl
          | ok value => exact decide_eq_false hne
      | _ => rfl
  | _ => rfl

/-! ## While the object is there -/

/-- The object is there, and every rollback so far has succeeded. -/
structure Uploading (name : String) (st : Services × Log) : Prop where
  has : st.1.Has name
  kept : ¬ RollbackFailed name st.2

/-- A call about other things. -/
theorem Uploading.step {st st' : Services × Log} {call : Call} {reply : call.Reply}
    (h : Uploading name st) (hstep : HandlerStep env name st call reply st')
    (hcall : ¬ call.Concerns name) : Uploading name st' := by
  rcases hstep with ⟨⟨s', hshared, hstep⟩, hlog⟩
  constructor
  · rw [hstep.has_iff hcall, hshared]
    exact h.has
  · rw [hlog, rollbackFailed_append, not_isRollbackFailure hcall]
    simpa using h.kept

/-- Calls that do not concern the object leave the upload where it is. -/
theorem Uploading.ensures {program : Deployment.Program β} {st : Services × Log}
    (h : Uploading name st) (honly : program.Only fun call => ¬ call.Concerns name) :
    program.Ensures (HandlerStep env name) (fun _ st' => Uploading name st') st :=
  honly.ensures h fun _ _ _ _ hcall hst hstep => hst.step hstep hcall

/-- The rollback of both handlers. -/
theorem rollback_ensures {error : StatusCode × String} {st : Services × Log} :
    (rollback name error : Deployment.Program (HttpResult α)).Ensures (HandlerStep env name)
      (fun _ st' => (¬ RollbackFailed name st'.2 → ¬ st'.1.Has name) ∧
        (ConnectFailed st'.2 ↔ ConnectFailed st.2)) st := by
  unfold rollback
  refine ensures_perform fun reply st' hstep => ?_
  rcases hstep with ⟨⟨s', _, hstep⟩, hlog⟩
  constructor
  · intro hkept
    change Except Status Unit at reply
    cases reply with
    | ok value => exact hstep.not_has_of_deleteObject
    | error status =>
        exfalso
        apply hkept
        rw [hlog, rollbackFailed_append]
        exact .inr (decide_eq_true rfl)
  · have hevent : isConnectFailure ⟨.metadata (.deleteObject name), reply⟩ = false :=
      not_isConnectFailure id
    rw [hlog, connectFailed_append, hevent]
    simp

/-! ## The JSON handler -/

/-- No connection has failed either. -/
structure Intact (name : String) (st : Services × Log) : Prop extends Uploading name st where
  connected : ¬ ConnectFailed st.2

/-- Nor do they bring up a failure to connect. -/
theorem Intact.step {st st' : Services × Log} {call : Call} {reply : call.Reply}
    (h : Intact name st) (hstep : HandlerStep env name st call reply st')
    (hcall : ¬ call.Concerns name) (hconnects : ¬ Reconnects call) : Intact name st' where
  toUploading := h.toUploading.step hstep hcall
  connected := by
    rw [hstep.2, connectFailed_append, not_isConnectFailure hconnects]
    simpa using h.connected

/-- A connection that fails is in the log. -/
theorem getOrConnect_ensures {address : String} {st : Services × Log} (h : Intact name st) :
    (getOrConnect address).Ensures (HandlerStep env name)
      (fun result st' => match result with
        | .ok () => Intact name st'
        | .error _ => Uploading name st' ∧ ConnectFailed st'.2) st := by
  unfold getOrConnect
  refine ensures_perform fun cached st' hcached => ?_
  have hlooked := h.step hcached id id
  change Bool at cached
  cases cached with
  | true => exact hlooked
  | false =>
      refine ensures_perform fun connected st'' hconnected => ?_
      have hstays := hlooked.toUploading.step hconnected id
      change Except String Unit at connected
      cases connected with
      | ok value =>
          refine ⟨hstays, ?_⟩
          rw [hconnected.2, connectFailed_append]
          simpa [isConnectFailure] using hlooked.connected
      | error err =>
          refine ⟨hstays, ?_⟩
          rw [hconnected.2, connectFailed_append]
          exact .inr rfl

/-- Of the ends of the loop with an error, only a failed connection leaves the object. -/
theorem putChunks_ensures (lib : Library) (chunked : List Bytes) {st : Services × Log}
    (h : Intact name st) :
    (putChunks lib name chunked).Ensures (HandlerStep env name)
      (fun value st' => (∃ error, value = .error error) → ¬ RollbackFailed name st'.2 →
        (st'.1.Has name ↔ ConnectFailed st'.2)) st := by
  have hrollback : ∀ {error : StatusCode × String} {st : Services × Log}, Intact name st →
      (rollback name error : Deployment.Program (HttpResult Unit)).Ensures (HandlerStep env name)
        (fun value st' => (∃ error, value = .error error) → ¬ RollbackFailed name st'.2 →
          (st'.1.Has name ↔ ConnectFailed st'.2)) st := by
    intro error st hst
    refine rollback_ensures.mono fun value st' hends _ hkept => ?_
    rw [hends.2]
    exact iff_of_false (hends.1 hkept) hst.connected
  induction chunked generalizing st with
  | nil =>
      rintro ⟨error, herror⟩
      cases herror
  | cons chunk chunked ih =>
      unfold putChunks
      refine ensures_perform fun allocated st' hallocated => ?_
      have hst' := h.step hallocated id id
      split
      · exact hrollback hst'
      · refine .of_bind ((getOrConnect_ensures hst').mono fun result st' hresult => ?_)
        split
        · exact fun _ _ => iff_of_true hresult.1.has hresult.2
        · refine ensures_perform fun written st'' hwritten => ?_
          have hst'' := Intact.step hresult hwritten id id
          split
          · exact hrollback hst''
          · refine ensures_perform fun confirmed st'' hconfirmed => ?_
            have hst'' := hst''.step hconfirmed id id
            split
            · exact hrollback hst''
            · exact ih hst''

/-! ## The streaming handler -/

theorem getOrConnect_only (address : String) :
    (getOrConnect address).Only fun call => ¬ call.Concerns name := by
  unfold getOrConnect
  refine only_perform id fun cached => ?_
  split
  · trivial
  · refine only_perform id fun connected => ?_
    split <;> trivial

/-- A flush does not concern the object itself. -/
theorem flushChunkToStorage_only (lib : Library) (buf : Bytes) (objectName : String) :
    (flushChunkToStorage lib buf objectName).Only fun call => ¬ call.Concerns name := by
  unfold flushChunkToStorage
  refine only_perform id fun allocated => ?_
  split
  · trivial
  · refine (getOrConnect_only _).of_bind fun connected => ?_
    split
    · trivial
    · refine only_perform id fun written => ?_
      split
      · trivial
      · refine only_perform id fun confirmed => ?_
        split <;> trivial

theorem flushFull_only (lib : Library) (objectName : String) (chunkSize fuel : Nat)
    (buffer : Bytes) :
    (flushFull lib objectName chunkSize fuel buffer).Only fun call => ¬ call.Concerns name := by
  induction fuel generalizing buffer with
  | zero => trivial
  | succ fuel ih =>
      unfold flushFull
      split
      · refine (flushChunkToStorage_only lib _ objectName).of_bind fun flushed => ?_
        split
        · trivial
        · exact ih _
      · trivial

/-- Nor does the loop over the fragments. -/
theorem streamField_only (lib : Library) (objectName : String) (chunkSize : Nat)
    (reads : List (Except String Bytes)) (buffer received : Bytes) :
    (streamField lib objectName chunkSize buffer received reads).Only
      fun call => ¬ call.Concerns name := by
  induction reads generalizing buffer received with
  | nil => trivial
  | cons read reads ih =>
      cases read with
      | error err => trivial
      | ok chunkData =>
          unfold streamField
          dsimp only
          split
          · trivial
          · refine (flushFull_only lib objectName chunkSize _ _).of_bind fun flushed => ?_
            split
            · trivial
            · exact ih _ _

theorem flushRest_only (lib : Library) (objectName : String) (buffer : Bytes) :
    (flushRest lib objectName buffer).Only fun call => ¬ call.Concerns name := by
  unfold flushRest
  split
  · trivial
  · exact flushChunkToStorage_only lib buffer objectName

/-! ## Failed uploads -/

/-- A request to one of the two handlers. -/
inductive Upload where
  | json (payload : String)
  | multipart (body : Multipart)

namespace Upload

/-- The handler of the upload. -/
def handler (lib : Library) (objectName : String) :
    Upload → Deployment.Program (HttpResult PutObjectResponsePayload)
  | json payload => handlePutObject lib objectName payload
  | multipart body => handlePutObjectMultipart lib objectName body

/-- The JSON handler could not connect to the storage node of a chunk. -/
def Stranded (log : Log) : Upload → Prop
  | json _ => ConnectFailed log
  | multipart _ => False

end Upload

/-- What holds when the handler is done. -/
def Settled (name : String) (upload : Upload) (value : HttpResult PutObjectResponsePayload)
    (st : Services × Log) : Prop :=
  (∃ error, value = .error error) → Created name st.2 → ¬ RollbackFailed name st.2 →
    (st.1.Has name ↔ upload.Stranded st.2)

/-- Nothing that matters has been called yet. -/
structure Quiet (name : String) (log : Log) : Prop where
  notCreated : ¬ Created name log
  kept : ¬ RollbackFailed name log
  connected : ¬ ConnectFailed log

/-- Calls before the creation leave nothing behind. -/
theorem Quiet.step {st st' : Services × Log} {call : Call} {reply : call.Reply}
    (h : Quiet name st.2) (hstep : HandlerStep env name st call reply st')
    (hcall : ¬ call.Concerns name) (hconnects : ¬ Reconnects call) : Quiet name st'.2 := by
  rw [hstep.2]
  constructor
  · rw [created_append, not_isCreation hcall]
    simpa using h.notCreated
  · rw [rollbackFailed_append, not_isRollbackFailure hcall]
    simpa using h.kept
  · rw [connectFailed_append, not_isConnectFailure hconnects]
    simpa using h.connected

/-- An upload that ends before the creation leaves nothing behind. -/
theorem Quiet.settled {st : Services × Log} {upload : Upload}
    {value : HttpResult PutObjectResponsePayload} (h : Quiet name st.2) :
    Settled name upload value st :=
  fun _ hcreated _ => absurd hcreated h.notCreated

/-- `put_object` of the handlers: it is refused, or the object is there. -/
theorem Quiet.putObject {st st' : Services × Log} {checksum : UInt32} {reply : Except Status Unit}
    (h : Quiet name st.2)
    (hstep : HandlerStep env name st (.metadata (.putObject checksum name)) reply st') :
    match reply with
    | .error _ => Quiet name st'.2
    | .ok () => Intact name st' := by
  rcases hstep with ⟨⟨s', _, hstep⟩, hlog⟩
  have hkept : ¬ RollbackFailed name st'.2 := by
    rw [hlog, rollbackFailed_append]
    simpa [isRollbackFailure] using h.kept
  have hconnected : ¬ ConnectFailed st'.2 := by
    rw [hlog, connectFailed_append]
    simpa [isConnectFailure] using h.connected
  cases reply with
  | ok value => exact ⟨⟨hstep.has_of_putObject, hkept⟩, hconnected⟩
  | error status =>
      refine ⟨?_, hkept, hconnected⟩
      rw [hlog, created_append]
      simpa [isCreation] using h.notCreated

/-- A JSON upload that fails settles what it has created. -/
theorem storeObject_ensures (lib : Library) (decodedBytes : Bytes)
    (chunkSize : StorageNode.ChunkSize) (payload : String) {st : Services × Log}
    (h : Quiet name st.2) :
    (storeObject lib name decodedBytes chunkSize).Ensures (HandlerStep env name)
      (Settled name (.json payload)) st := by
  unfold storeObject
  refine ensures_perform fun created st' hcreated => ?_
  have hst' := h.putObject hcreated
  split
  · exact Quiet.settled hst'
  · refine .of_bind ((putChunks_ensures lib _ hst').mono fun stored st'' hstored => ?_)
    split
    · exact fun _ _ hkept => hstored ⟨_, rfl⟩ hkept
    · rintro ⟨error, herror⟩
      cases herror

/-- A multipart upload that fails settles what it has created. -/
theorem streamObject_ensures (lib : Library) (body : Multipart)
    (chunkSize : StorageNode.ChunkSize) {st : Services × Log} (h : Quiet name st.2) :
    (streamObject lib name body chunkSize).Ensures (HandlerStep env name)
      (Settled name (.multipart body)) st := by
  have hrollback : ∀ {error : StatusCode × String} {st : Services × Log},
      (rollback name error : Deployment.Program (HttpResult PutObjectResponsePayload)).Ensures
        (HandlerStep env name) (Settled name (.multipart body)) st := by
    intro error st
    refine rollback_ensures.mono fun value st' hends _ _ hkept => ?_
    exact iff_of_false (hends.1 hkept) id
  unfold streamObject
  refine ensures_perform fun created st' hcreated => ?_
  have hst' := h.putObject hcreated
  split
  · exact Quiet.settled hst'
  · split
    · exact hrollback
    · refine .of_bind (Library.Program.Ensures.mono
        (Uploading.ensures (Intact.toUploading hst') (streamField_only lib name _ _ _ _))
        fun streamed st'' hst'' => ?_)
      split
      · exact hrollback
      · refine .of_bind ((hst''.ensures (flushRest_only lib name _)).mono
          fun flushed st'' hst'' => ?_)
        split
        · exact hrollback
        · refine ensures_perform fun updated st'' hupdated => ?_
          split
          · exact hrollback
          · rintro ⟨error, herror⟩
            cases herror

/-- Every end of either handler. -/
theorem Upload.handler_ensures (upload : Upload) (lib : Library) {st : Services × Log}
    (h : Quiet name st.2) :
    (upload.handler lib name).Ensures (HandlerStep env name) (Settled name upload) st := by
  cases upload with
  | json payload =>
      change (handlePutObject lib name payload).Ensures _ _ st
      unfold handlePutObject
      split
      · exact h.settled
      · split
        · exact h.settled
        · split
          · exact h.settled
          · refine ensures_perform fun listed st' hlisted => ?_
            have h := h.step hlisted id id
            split
            · exact h.settled
            · exact h.settled
            · refine ensures_perform fun connected st' hconnected => ?_
              have h := h.step hconnected id id
              split
              · exact h.settled
              · refine ensures_perform fun sized st' hsized => ?_
                have h := h.step hsized id id
                split
                · exact h.settled
                · exact storeObject_ensures lib _ _ payload h
  | multipart body =>
      change (handlePutObjectMultipart lib name body).Ensures _ _ st
      unfold handlePutObjectMultipart
      split
      · exact h.settled
      · refine ensures_perform fun listed st' hlisted => ?_
        have h := h.step hlisted id id
        split
        · exact h.settled
        · exact h.settled
        · refine ensures_perform fun connected st' hconnected => ?_
          have h := h.step hconnected id id
          split
          · exact h.settled
          · refine ensures_perform fun sized st' hsized => ?_
            have h := h.step hsized id id
            split
            · exact h.settled
            · exact streamObject_ensures lib body _ h

/-! ## What failed uploads leave behind -/

/-- Later requests find nothing of the object. -/
structure Gone (env : Environment) (lib : Library) (name : String) (s : Services) : Prop where
  absent : ¬ s.Has name
  notFound : ∀ value s', (handleGetObject lib name).Runs (Step env .none) s value s' →
    ∃ msg, value = .error (.notFound, msg)
  streamNotFound : ∀ value s', (handleGetObjectStream lib name).Runs (Step env .none) s value s' →
    ∃ msg, value = .error (.notFound, msg)
  /-- `put_object` is not refused. -/
  reusable : ∀ (checksum : UInt32) (reply : Except Status Unit) s',
    Step env .none s (.metadata (.putObject checksum name)) reply s' → reply = .ok ()

/-- A lookup does not find what is not there. -/
theorem lookup_fails {s s' : Services} {reply : Except Status StorageMetadata.MetaObject}
    (h : ¬ s.Has name) (hstep : Step env .none s (.metadata (.lookupObject name)) reply s') :
    ∃ status, reply = .error status := by
  rcases Step.metadata_effect (by decide) hstep with ⟨_, _, m, heffect, _⟩
  cases heffect with
  | refused status => exact ⟨status, rfl⟩
  | lookupObject hname => exact absurd (HashMap.mem_iff_exists_getElem?.mpr ⟨_, hname⟩) h

/-- A name that is not taken can be used. -/
theorem putObject_succeeds {s s' : Services} {checksum : UInt32} {reply : Except Status Unit}
    (h : ¬ s.Has name)
    (hstep : Step env .none s (.metadata (.putObject checksum name)) reply s') :
    reply = .ok () := by
  cases hstep with
  | failed hfaults _ => exact absurd rfl hfaults
  | lost hfaults _ _ => cases hfaults
  | @served _ _ _ _ choice hio hserve =>
      have hcompletes : choice.io = .completes := hio.resolve_right (by decide)
      have hmirrors := @StorageMetadata.putObject_mirrors env.lib choice.io s.metadata checksum name
      rcases StorageMetadata.MetadataStore.putObject_effect env.lib choice.io
        s.metadata.metadataStore checksum name with ⟨object, hname, _⟩ | ⟨_, heffect⟩
      · exact absurd (HashMap.mem_iff_exists_getElem?.mpr ⟨object, hname⟩) h
      · rw [heffect] at hmirrors
        rcases hmirrors.2.mpr ⟨(), StorageMetadata.MetadataStore.save_ok_iff.mpr hcompletes⟩ with
          ⟨value, hvalue⟩
        cases hserve
        exact hvalue

/-- An object that is not stored is gone for every later request. -/
theorem gone_of_not_has {lib : Library} {s : Services}
    (hvalid : validateObjectName lib name = .ok ()) (h : ¬ s.Has name) : Gone env lib name s where
  absent := h
  notFound := by
    intro value s' hruns
    have hensures : (handleGetObject lib name).Ensures (Step env .none)
        (fun value _ => ∃ msg, value = .error (.notFound, msg)) s := by
      unfold handleGetObject
      rw [hvalid]
      intro reply s' hstep
      rcases lookup_fails h hstep with ⟨status, rfl⟩
      exact ⟨_, rfl⟩
    exact hruns.ensures hensures
  streamNotFound := by
    intro value s' hruns
    have hensures : (handleGetObjectStream lib name).Ensures (Step env .none)
        (fun value _ => ∃ msg, value = .error (.notFound, msg)) s := by
      unfold handleGetObjectStream
      rw [hvalid]
      intro reply s' hstep
      rcases lookup_fails h hstep with ⟨status, rfl⟩
      exact ⟨_, rfl⟩
    exact hruns.ensures hensures
  reusable _ _ _ hstep := putObject_succeeds h hstep

/-- After an upload that failed behind its `put_object`, with every rollback succeeding, the
object is gone exactly when the upload is not a JSON one that could not connect to the storage
node of a chunk. -/
theorem failed_upload_gone_iff {upload : Upload} {lib : Library} {s s' : Services} {log : Log}
    {error : StatusCode × String}
    (hruns : (upload.handler lib name).Runs (HandlerStep env name) (s, []) (.error error) (s', log))
    (hcreated : Created name log) (hkept : ¬ RollbackFailed name log) :
    Gone env lib name s' ↔ ¬ upload.Stranded log := by
  have hquiet : Quiet name (s, ([] : Log)).2 := ⟨nofun, nofun, nofun⟩
  have hsettled := hruns.ensures (upload.handler_ensures lib hquiet)
  have hhas := hsettled ⟨error, rfl⟩ hcreated hkept
  rw [← hhas]
  constructor
  · exact Gone.absent
  · intro habsent
    refine gone_of_not_has ?_ habsent
    by_contra hvalid
    have hempty : log = [] := by
      cases hname : validateObjectName lib name with
      | ok value => exact absurd hname hvalid
      | error msg =>
          cases upload with
          | json payload =>
              change (handlePutObject lib name payload).Runs _ _ _ _ at hruns
              unfold handlePutObject at hruns
              rw [hname] at hruns
              cases hruns
              rfl
          | multipart body =>
              change (handlePutObjectMultipart lib name body).Runs _ _ _ _ at hruns
              unfold handlePutObjectMultipart at hruns
              rw [hname] at hruns
              cases hruns
              rfl
    rw [hempty] at hcreated
    cases hcreated

/-! ## One storage node -/

/-- A step without others is a step among others. -/
theorem shared_step {s s' : Services} {call : Call} {reply : call.Reply}
    (h : Step env .withoutEffect s call reply s') :
    Shared name (Step env .any) s call reply s' :=
  ⟨s, .rfl, h.any⟩

/-- The environment of the runs below. -/
def plainEnvironment : Environment :=
  ⟨StorageMetadata.jsonLib, ObjectStore.Library.crc32, .slotDataSize⟩

/-- A library for the runs below: base64, CRC32 and no blank characters but the usual ones. -/
def plainLibrary : Library where
  isAlphanumeric := Char.isAlphanum
  decode payload := (ObjectStore.Library.Base64.decode payload).elim
    (.error "Invalid padding") .ok
  encode := ObjectStore.Library.Base64.encode
  crc32 := ObjectStore.Library.crc32
  display status := status.message

/-- One storage node with four slots, and no object. -/
def oneNode : Services where
  metadata := ⟨(StorageMetadata.MetadataStore.fresh .empty).afterCalls StorageMetadata.jsonLib
    [.constructStorageNode [1] "http://node-a:50051"], ∅⟩
  nodes := (∅ : HashMap String StorageNode.BoundedMap).insert "http://node-a:50051" (.empty 4)
  storageConnections := []

/-- The calls in front of `put_object`, the creation, and the allocation of a chunk. -/
def allocated : List Deployment.Decision :=
  [.serve .plain, .serve .plain, .serve .plain, .serve .plain,
    .serve ⟨.completes, [10], 0, ""⟩, .serve .plain]

/-- A run that fails behind its `put_object`, with no rollback failing. -/
def failsAfterCreation {α : Type} (name : String) (result : HttpResult α × Services × Log) : Bool :=
  !result.1.isOk && result.2.2.any (isCreation name) && !result.2.2.any (isRollbackFailure name)

/-- The test reads the log. -/
theorem failsAfterCreation_iff {value : HttpResult α} {s : Services} {log : Log} :
    failsAfterCreation name (value, s, log) = true ↔
      (∃ error, value = .error error) ∧ Created name log ∧ ¬ RollbackFailed name log := by
  unfold failsAfterCreation Created RollbackFailed
  simp only [Bool.and_eq_true, Bool.not_eq_true', Bool.not_eq_true, and_assoc]
  cases value with
  | error error => exact and_congr_left fun _ => iff_of_true rfl ⟨error, rfl⟩
  | ok value => exact and_congr_left fun _ => iff_of_false nofun nofun

/-- A streamed upload whose data cannot be written is gone. -/
theorem failed_upload_gone_iff_multipart :
    ∃ s', Gone plainEnvironment plainLibrary "a" s' := by
  let upload := Upload.multipart [.ok ⟨some "file", [.ok [104]]⟩]
  have hrun : ((upload.handler plainLibrary "a").replay
      (Library.serveLogged (Services.next plainEnvironment))
      (allocated ++ [.serve .plain, .fail "refused", .serve .plain]) (oneNode, [])).any
        (failsAfterCreation "a") = true := by
    decide +kernel
  have hscripted : ∃ value s' log, (upload.handler plainLibrary "a").Runs
      (HandlerStep plainEnvironment "a") (oneNode, []) value (s', log) ∧
        failsAfterCreation "a" (value, s', log) = true :=
    Deployment.scripted (fun _ _ _ _ => shared_step) hrun
  rcases hscripted with ⟨value, s', log, hruns, hcheck⟩
  rcases failsAfterCreation_iff.mp hcheck with ⟨⟨error, rfl⟩, hcreated, hkept⟩
  exact ⟨s', (failed_upload_gone_iff hruns hcreated hkept).mpr id⟩

/-- A JSON upload of one byte that cannot connect to the storage node stays. -/
theorem stranded_upload_stays :
    ∃ error s' log, ((Upload.json "aA==").handler plainLibrary "a").Runs
        (HandlerStep plainEnvironment "a") (oneNode, []) (.error error) (s', log) ∧
      Created "a" log ∧ ¬ RollbackFailed "a" log ∧ s'.Has "a" := by
  let check := fun result : HttpResult PutObjectResponsePayload × Services × Log =>
    failsAfterCreation "a" result && decide ("a" ∈ result.2.1.metadata.metadataStore.objects)
  have hrun : (((Upload.json "aA==").handler plainLibrary "a").replay
      (Library.serveLogged (Services.next plainEnvironment)) (allocated ++ [.fail "refused"])
      (oneNode, [])).any check = true := by
    decide +kernel
  have hscripted : ∃ value s' log, ((Upload.json "aA==").handler plainLibrary "a").Runs
      (HandlerStep plainEnvironment "a") (oneNode, []) value (s', log) ∧
        check (value, s', log) = true :=
    Deployment.scripted (fun _ _ _ _ => shared_step) hrun
  rcases hscripted with ⟨value, s', log, hruns, hcheck⟩
  rcases Bool.and_eq_true_iff.mp hcheck with ⟨hfails, hhas⟩
  rcases failsAfterCreation_iff.mp hfails with ⟨⟨error, rfl⟩, hcreated, hkept⟩
  refine ⟨error, s', log, hruns, hcreated, hkept, ?_⟩
  unfold Services.Has
  exact of_decide_eq_true hhas

end ApiGateway
end ObjectStore
