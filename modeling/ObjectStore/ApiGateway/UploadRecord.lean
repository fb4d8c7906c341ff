import ObjectStore.ApiGateway.Chunking
import ObjectStore.ApiGateway.Visibility

/-!
# API gateway - The record that an upload leaves

The JSON handler creates the object with the checksum of the body, and never records a size.
The streaming handler creates it with a placeholder and sets the checksum and the size in the
end.

Main definitions:

- `Recorded`: the checksum, the size and the contents of the chunks while an upload runs.

Main results:

- Theorem `putChunks_records`, `streamField_records`: the two loops.
- Theorem `upload_record_iff`: what a successful upload leaves, and when the size is right.
-/

namespace ObjectStore
namespace ApiGateway

open Deployment (Call Log Services Environment Faults Step)
open StorageMetadata (MetadataStore MetaObject RegistryKeyed Reachable anyEvent jsonLib)

variable {env : Environment} {lib : Library} {name : String}
  {nodes : HashMap UInt64 StorageMetadata.MetaStorageNode} {pieces : List Bytes}
  {checksum : UInt32} {totalSize : UInt64} {st st' : Services × Log}

/-! ## The record while the upload runs -/

/-- The checksum and the size recorded for the name. -/
def recordOf (s : Services) (name : String) : Option (UInt32 × UInt64) :=
  (s.metadata.metadataStore.objects[name]?).map fun object => (object.checksum, object.totalSize)

/-- The object has this record, and its chunks hold `pieces`. -/
structure Recorded (nodes : HashMap UInt64 StorageMetadata.MetaStorageNode) (name : String)
    (checksum : UInt32) (totalSize : UInt64) (pieces : List Bytes) (st : Services × Log) : Prop
    extends Storing nodes name pieces st where
  record : recordOf st.1 name = some (checksum, totalSize)

/-- Nothing has been created yet. -/
structure Ready (nodes : HashMap UInt64 StorageMetadata.MetaStorageNode) (name : String)
    (st : Services × Log) : Prop where
  fresh : ¬ RolledBack name st.2
  registry : st.1.metadata.metadataStore.storageNodes = nodes

/-- A call that succeeds has been served without a failure. -/
theorem uploadStep_of_ok {call : Call} {reply : call.Reply}
    (h : UploadStep env .any st call reply st') (hok : ¬ call.Fails reply) :
    UploadStep env .none st call reply st' :=
  ⟨h.1.of_ok hok, h.2⟩

theorem not_fails_ok {ε α : Type} (value : α) :
    ¬ ∃ error : ε, (Except.ok value : Except ε α) = .error error := by
  rintro ⟨error, herror⟩
  cases herror

/-- The calls of an upload that change no object. -/
def KeepsObjects : Call → Prop
  | .metadata (.putObject _ _) | .metadata (.confirmChunk _ _ _ _)
  | .metadata (.updateObjectChecksum _ _ _) => False
  | call => Uploads call

theorem KeepsObjects.neutral {call : Call} (h : KeepsObjects call) : Neutral call := by
  cases call with
  | metadata call =>
      cases call with
      | putObject _ _ | confirmChunk _ _ _ _ | updateObjectChecksum _ _ _ => exact h.elim
      | _ => exact h
  | _ => exact h

/-- Calls that keep objects keep the record. -/
theorem keepsObjects_recordOf {s s' : Services} {call : Call} {reply : call.Reply}
    (h : Step env .none s call reply s') (hcall : KeepsObjects call) :
    recordOf s' name = recordOf s name := by
  unfold recordOf
  cases call with
  | metadata call =>
      rcases h.metadata_effect (by decide) with ⟨_, _, m, heffect, hmemory⟩
      rw [hmemory.objects]
      cases heffect with
      | refused _ | listStorageNodes _ | allocateChunk _ _ _ _ => rfl
      | putObject _ _ | confirmChunk _ _ _ _ | updateObjectChecksum _ _ _ | lookupObject _
      | resolveObject _ | deleteChunk _ _ | deleteOrphan _ _ _ | deleteObject _
      | getStorageNode _ | listUnderReplicatedChunks _ | addChunkReplica _ _ _ _ =>
          exact hcall.elim
  | storageNode _ _ | connect _ | cachedConnection _ | connectCached _ | choose _ | turn =>
      rw [h.metadata_eq (by simp)]

/-- Nothing is stored while the upload gets ready. -/
theorem Ready.step {call : Call} {reply : call.Reply} (h : Ready nodes name st)
    (hstep : UploadStep env .any st call reply st') (hok : ¬ call.Fails reply)
    (hcall : KeepsObjects call) : Ready nodes name st' where
  fresh := by
    rw [hstep.2, rolledBack_append, neutral_isRollback hcall.neutral.uploads]
    simpa using h.fresh
  registry := by
    have hkept := uploads_kept (hstep.1.of_ok hok) (by decide) hcall.neutral.uploads
    exact hkept.storageNodes.trans h.registry

/-- The object is created with a checksum, and with size zero. -/
theorem Ready.putObject {reply : Except Status Unit} (h : Ready nodes name st)
    (hstep : UploadStep env .any st (.metadata (.putObject checksum name)) reply st')
    (hreply : reply = .ok ()) : Recorded nodes name checksum 0 [] st' := by
  subst hreply
  have hserved := uploadStep_of_ok hstep (not_fails_ok ())
  rcases hserved.1.metadata_effect (by decide) with ⟨_, _, m, heffect, hmemory⟩
  cases heffect with
  | putObject _ hname =>
      have habsent : listed st.1 name = none := by
        rw [listed, hname]
        rfl
      have hidle : Idle nodes name st := ⟨h.fresh, h.registry, habsent⟩
      have hstored : Promise 0 name none st st' ∧ Storing nodes name [] st' :=
        hidle.putObject (by decide) hserved
      refine ⟨hstored.2, ?_⟩
      have hobject : st'.1.metadata.metadataStore.objects[name]? =
          some (.new name checksum) := by
        rw [hmemory.objects]
        exact Std.ExtTreeMap.getElem?_insert_self
      rw [recordOf, hobject]
      rfl

/-- A call that keeps objects keeps what is recorded. -/
theorem Recorded.step {call : Call} {reply : call.Reply}
    (h : Recorded nodes name checksum totalSize pieces st)
    (hstep : UploadStep env .any st call reply st') (hok : ¬ call.Fails reply)
    (hcall : KeepsObjects call) : Recorded nodes name checksum totalSize pieces st' where
  toStoring := by
    have hboth : Promise 0 name none st st' ∧ Storing nodes name pieces st' :=
      h.toStoring.neutral (by decide) (uploadStep_of_ok hstep hok) hcall.neutral
    exact hboth.2
  record := (keepsObjects_recordOf (hstep.1.of_ok hok) hcall).trans h.record

/-- The chunk is attached, and the checksum and the size stay. -/
theorem Recorded.confirm {id nodeId : UInt64} {piece : Bytes} {chunkChecksum : UInt32}
    {node : StorageMetadata.MetaStorageNode} {reply : Except Status Unit}
    (h : Recorded nodes name checksum totalSize pieces st) (hnode : nodes[nodeId]? = some node)
    (hdata : st.1.dataAt node.address id = some piece)
    (hstep : UploadStep env .any st (.metadata (.confirmChunk id name chunkChecksum nodeId))
      reply st') (hreply : reply = .ok ()) :
    Recorded nodes name checksum totalSize (pieces ++ [piece]) st' := by
  subst hreply
  have hserved := uploadStep_of_ok hstep (not_fails_ok ())
  have hstored : Promise 0 name none st st' ∧ Storing nodes name (pieces ++ [piece]) st' :=
    h.toStoring.confirm (by decide) hnode hdata (by simp) hserved
  refine ⟨hstored.2, ?_⟩
  rcases hserved.1.metadata_effect (by decide) with ⟨_, _, m, heffect, hmemory⟩
  cases heffect with
  | @confirmChunk _ _ _ _ object hname _ _ =>
      have hobject : st'.1.metadata.metadataStore.objects[name]? =
          some (object.addChunk id) := by
        rw [hmemory.objects]
        exact Std.ExtTreeMap.getElem?_insert_self
      have hrecord := h.record
      rw [recordOf, hname] at hrecord
      rw [recordOf, hobject]
      exact hrecord

/-- The streaming handler sets the checksum and the size. -/
theorem Recorded.update {checksum' : UInt32} {totalSize' : UInt64} {reply : Except Status Unit}
    (h : Recorded nodes name checksum totalSize pieces st)
    (hstep : UploadStep env .any st
      (.metadata (.updateObjectChecksum name checksum' totalSize')) reply st')
    (hreply : reply = .ok ()) : Recorded nodes name checksum' totalSize' pieces st' := by
  subst hreply
  have hserved := uploadStep_of_ok hstep (not_fails_ok ())
  have hstored : Promise 0 name none st st' ∧ Storing nodes name pieces st' :=
    h.toStoring.neutral (by decide) hserved trivial
  refine ⟨hstored.2, ?_⟩
  rcases hserved.1.metadata_effect (by decide) with ⟨_, _, m, heffect, hmemory⟩
  cases heffect with
  | @updateObjectChecksum _ _ _ object hname =>
      have hobject : st'.1.metadata.metadataStore.objects[name]? =
          some { object with checksum := checksum', totalSize := totalSize' } := by
        rw [hmemory.objects]
        exact Std.ExtTreeMap.getElem?_insert_self
      rw [recordOf, hobject]
      rfl

/-- A new chunk goes to a registered node. -/
theorem Recorded.allocate {chunkChecksum : UInt32}
    {alloc : StorageMetadata.Proto.AllocateChunkResponse}
    {reply : Except Status StorageMetadata.Proto.AllocateChunkResponse}
    (h : Recorded nodes name checksum totalSize pieces st) (hkeyed : RegistryKeyed nodes)
    (hstep : UploadStep env .any st (.metadata (.allocateChunk name chunkChecksum)) reply st')
    (hreply : reply = .ok alloc) :
    Recorded nodes name checksum totalSize pieces st' ∧
      ∃ node, nodes[alloc.storageNodeId]? = some node ∧
        node.address = alloc.storageNodeAddress := by
  subst hreply
  refine ⟨h.step hstep (not_fails_ok alloc) trivial, ?_⟩
  have hserved := uploadStep_of_ok hstep (not_fails_ok alloc)
  have hall : Promise 0 name none st st' ∧ Storing nodes name pieces st' ∧ _ :=
    h.toStoring.allocate hkeyed (by decide) hserved
  exact hall.2.2 alloc rfl

/-- A piece is written before its chunk is confirmed. -/
theorem Recorded.write {address : String} {id : UInt64} {piece : Bytes}
    {reply : Except Status UInt64} (h : Recorded nodes name checksum totalSize pieces st)
    (hstep : UploadStep env .any st (.storageNode address (.writeChunk id piece)) reply st')
    (hreply : reply.isOk = true) :
    Recorded nodes name checksum totalSize pieces st' ∧
      st'.1.dataAt address id = some piece := by
  have hok : ¬ (Call.storageNode address (.writeChunk id piece)).Fails reply := by
    rintro ⟨status, rfl⟩
    cases hreply
  refine ⟨h.step hstep hok trivial, ?_⟩
  rw [((hstep.1.of_ok hok).writeChunk_dataAt (by decide)).2 address id, if_pos ⟨hreply, rfl, rfl⟩]

/-! ## The loops -/

theorem getOrConnect_records {address : String}
    (h : Recorded nodes name checksum totalSize pieces st) :
    (getOrConnect address).Ensures (UploadStep env .any)
      (fun value st' => value = .ok () → Recorded nodes name checksum totalSize pieces st')
      st := by
  unfold getOrConnect
  refine ensures_perform fun cached st₁ hcached => ?_
  have h₁ := h.step hcached id trivial
  change Bool at cached
  cases cached with
  | true => exact fun _ => h₁
  | false =>
      refine ensures_perform fun connected st₂ hconnected => ?_
      change Except String Unit at connected
      cases connected with
      | error err => rintro ⟨⟩
      | ok value => exact fun _ => h₁.step hconnected (not_fails_ok value) trivial

/-- A stored chunk is recorded. -/
theorem storeChunk_records (lib : Library) (hkeyed : RegistryKeyed nodes) (chunk : Bytes)
    (h : Recorded nodes name checksum totalSize pieces st) :
    (storeChunk lib name chunk).Ensures (UploadStep env .any)
      (fun value st' => value = .ok () →
        Recorded nodes name checksum totalSize (pieces ++ [chunk]) st') st := by
  unfold storeChunk
  refine ensures_perform fun allocated st₁ hallocated => ?_
  change Except Status StorageMetadata.Proto.AllocateChunkResponse at allocated
  cases allocated with
  | error status => rintro ⟨⟩
  | ok alloc =>
      rcases h.allocate hkeyed hallocated rfl with ⟨h₁, node, hnode, haddress⟩
      refine .of_bind ((getOrConnect_records h₁).mono fun connected st₂ h₂ => ?_)
      split
      · rintro ⟨⟩
      · refine ensures_perform fun written st₃ hwritten => ?_
        change Except Status UInt64 at written
        cases written with
        | error status => rintro ⟨⟩
        | ok chunkId =>
            rcases (h₂ rfl).write hwritten rfl with ⟨h₃, hdata⟩
            refine ensures_perform fun confirmed st₄ hconfirmed => ?_
            change Except Status Unit at confirmed
            cases confirmed with
            | error status => rintro ⟨⟩
            | ok value =>
                rw [← haddress] at hdata
                exact fun _ => h₃.confirm hnode hdata hconfirmed rfl

/-- A flush records one more piece. -/
theorem flushChunkToStorage_records (lib : Library) (hkeyed : RegistryKeyed nodes) (buf : Bytes)
    (h : Recorded nodes name checksum totalSize pieces st) :
    (flushChunkToStorage lib buf name).Ensures (UploadStep env .any)
      (fun value st' => value = .ok () →
        Recorded nodes name checksum totalSize (pieces ++ [buf]) st') st := by
  rw [flushChunkToStorage_eq]
  refine .of_bind ((storeChunk_records lib hkeyed buf h).mono fun stored st' hstored => ?_)
  cases stored with
  | error error => rintro ⟨⟩
  | ok value => exact fun _ => hstored rfl

/-- A rollback ends with an error. -/
theorem rollback_not_ok {α : Type} {error : StatusCode × String}
    {post : α → Services × Log → Prop} :
    (rollback name error : Deployment.Program (HttpResult α)).Ensures (UploadStep env .any)
      (fun result st' => ∀ value, result = .ok value → post value st') st := by
  unfold rollback
  refine ensures_perform fun _ _ _ => ?_
  rintro _ ⟨⟩

/-- And so does the loop of the JSON handler when a chunk could not be stored. -/
theorem leave_not_ok {lib : Library} {error : ChunkError} {post : Unit → Services × Log → Prop} :
    (error.leave lib name).Ensures (UploadStep env .any)
      (fun result st' => ∀ value, result = .ok value → post value st') st := by
  cases error with
  | connect error => rintro _ ⟨⟩
  | allocate _ | write _ _ | confirm _ _ => exact rollback_not_ok

/-- The loop of the JSON handler. -/
theorem putChunks_records (lib : Library) (hkeyed : RegistryKeyed nodes) (chunked : List Bytes)
    (h : Recorded nodes name checksum totalSize pieces st) :
    (putChunks lib name chunked).Ensures (UploadStep env .any)
      (fun result st' => ∀ value, result = .ok value →
        Recorded nodes name checksum totalSize (pieces ++ chunked) st') st := by
  induction chunked generalizing pieces st with
  | nil =>
      intro _ _
      rw [List.append_nil]
      exact h
  | cons chunk chunked ih =>
      rw [putChunks_cons]
      refine .of_bind ((storeChunk_records lib hkeyed chunk h).mono fun stored st' hstored => ?_)
      cases stored with
      | error error => exact leave_not_ok
      | ok value =>
          have hrest := ih (hstored rfl)
          rw [List.append_assoc] at hrest
          exact hrest

/-- Full chunks are recorded, and the rest stays in the buffer. -/
theorem flushFull_records (lib : Library) (hkeyed : RegistryKeyed nodes) (n fuel : Nat)
    (buffer : Bytes) (h : Recorded nodes name checksum totalSize pieces st) :
    (flushFull lib name n fuel buffer).Ensures (UploadStep env .any)
      (fun result st' => ∀ buffer', result = .ok buffer' →
        ∃ flushed, Recorded nodes name checksum totalSize (pieces ++ flushed) st' ∧
          flushed.flatten ++ buffer' = buffer) st := by
  have hdone : ∀ {buffer : Bytes} {pieces : List Bytes} {st : Services × Log},
      Recorded nodes name checksum totalSize pieces st → ∀ buffer' : Bytes,
        (Except.ok buffer : HttpResult Bytes) = .ok buffer' →
          ∃ flushed, Recorded nodes name checksum totalSize (pieces ++ flushed) st ∧
            flushed.flatten ++ buffer' = buffer := by
    intro buffer pieces st h buffer' heq
    cases heq
    refine ⟨[], ?_, rfl⟩
    rw [List.append_nil]
    exact h
  induction fuel generalizing buffer pieces st with
  | zero => exact hdone h
  | succ fuel ih =>
      unfold flushFull
      split
      · refine .of_bind ((flushChunkToStorage_records lib hkeyed (buffer.take n) h).mono
          fun flushed st₁ h₁ => ?_)
        split
        · rintro _ ⟨⟩
        · refine (ih (buffer.drop n) (h₁ rfl)).mono fun result st₂ h₂ buffer' hbuffer => ?_
          rcases h₂ buffer' hbuffer with ⟨flushed, h₂, hrest⟩
          refine ⟨buffer.take n :: flushed, ?_, ?_⟩
          · rw [List.append_assoc] at h₂
            exact h₂
          · rw [List.flatten_cons, List.append_assoc, hrest, List.take_append_drop]
      · exact hdone h

/-- The loop of the streaming handler: what was received is in the chunks or in the buffer. -/
theorem streamField_records (lib : Library) (hkeyed : RegistryKeyed nodes) (n : Nat)
    (reads : List (Except String Bytes)) (buffer received : Bytes)
    (h : Recorded nodes name checksum totalSize pieces st)
    (hreceived : pieces.flatten ++ buffer = received)
    (hsize : received.length ≤ MAX_OBJECT_SIZE) :
    (streamField lib name n buffer received reads).Ensures (UploadStep env .any)
      (fun result st' => ∀ rest, result = .ok rest →
        ∃ pieces', Recorded nodes name checksum totalSize pieces' st' ∧
          pieces'.flatten ++ rest.1 = rest.2 ∧ rest.2.length ≤ MAX_OBJECT_SIZE ∧
            (wholeField reads).map (received ++ ·) = some rest.2) st := by
  induction reads generalizing buffer received pieces st with
  | nil =>
      intro rest hrest
      cases hrest
      refine ⟨pieces, h, hreceived, hsize, ?_⟩
      simp [wholeField]
  | cons read reads ih =>
      cases read with
      | error err => rintro _ ⟨⟩
      | ok chunkData =>
          unfold streamField
          dsimp only
          split
          · rintro _ ⟨⟩
          · refine .of_bind ((flushFull_records lib hkeyed n _ (buffer ++ chunkData) h).mono
              fun flushed st₁ h₁ => ?_)
            split
            · rintro _ ⟨⟩
            · rename_i buffer'
              rcases h₁ buffer' rfl with ⟨flushed, h₁, hflushed⟩
              have hreceived' : (pieces ++ flushed).flatten ++ buffer' =
                  received ++ chunkData := by
                rw [List.flatten_append, List.append_assoc, hflushed, ← List.append_assoc,
                  hreceived]
              refine (ih _ _ h₁ hreceived' (by omega)).mono fun result st₂ h₂ rest hrest => ?_
              rcases h₂ rest hrest with ⟨pieces', h₂, hcontent, hsize', hwhole⟩
              refine ⟨pieces', h₂, hcontent, hsize', ?_⟩
              rw [← hwhole, wholeField, Option.map_map]
              congr 1
              funext tail
              exact (List.append_assoc _ _ _).symm

/-- The rest is recorded as one chunk. -/
theorem flushRest_records (lib : Library) (hkeyed : RegistryKeyed nodes) (buffer : Bytes)
    (h : Recorded nodes name checksum totalSize pieces st) :
    (flushRest lib name buffer).Ensures (UploadStep env .any)
      (fun value st' => value = .ok () → ∃ pieces',
        Recorded nodes name checksum totalSize pieces' st' ∧
          pieces'.flatten = pieces.flatten ++ buffer) st := by
  unfold flushRest
  split
  · rename_i hempty
    intro _
    refine ⟨pieces, h, ?_⟩
    rw [List.isEmpty_iff.mp hempty, List.append_nil]
  · refine (flushChunkToStorage_records lib hkeyed buffer h).mono fun value st₁ h₁ hvalue => ?_
    exact ⟨_, h₁ hvalue, by simp⟩

/-! ## The handlers -/

/-- The size that an upload of `body` leaves in the record. -/
def Upload.recordedSize (body : Bytes) : Upload → UInt64
  | json _ => 0
  | multipart _ => UInt64.ofNat body.length

/-- What holds when the upload has succeeded. -/
def Uploaded (lib : Library) (nodes : HashMap UInt64 StorageMetadata.MetaStorageNode)
    (name : String) (upload : Upload) (st : Services × Log) : Prop :=
  ∃ body pieces, upload.body lib = some body ∧ body.length ≤ MAX_OBJECT_SIZE ∧
    pieces.flatten = body ∧
      Recorded nodes name (lib.crc32 body) (upload.recordedSize body) pieces st

/-- A JSON upload that succeeds has recorded all pieces, and no size. -/
theorem storeObject_records (lib : Library) (hkeyed : RegistryKeyed nodes) {payload : String}
    {body : Bytes} (chunkSize : StorageNode.ChunkSize) (hpayload : lib.decode payload = .ok body)
    (hsize : body.length ≤ MAX_OBJECT_SIZE) (h : Ready nodes name st) :
    (storeObject lib name body chunkSize).Ensures (UploadStep env .any)
      (fun result st' => ∀ response, result = .ok response →
        Uploaded lib nodes name (.json payload) st') st := by
  unfold storeObject
  refine ensures_perform fun created st₁ hcreated => ?_
  change Except Status Unit at created
  cases created with
  | error status => rintro _ ⟨⟩
  | ok value =>
      have h₁ := h.putObject hcreated rfl
      refine .of_bind ((putChunks_records lib hkeyed _ h₁).mono fun stored st₂ h₂ => ?_)
      split
      · rintro _ ⟨⟩
      · intro _ _
        refine ⟨body, chunks chunkSize.bytes body, ?_, hsize,
          flatten_chunks chunkSize.positive body, h₂ _ rfl⟩
        simp only [Upload.body, hpayload]

/-- A multipart upload that succeeds has recorded all pieces, the checksum and the size. -/
theorem streamObject_records (lib : Library) (hkeyed : RegistryKeyed nodes) (fields : Multipart)
    (chunkSize : StorageNode.ChunkSize) (h : Ready nodes name st) :
    (streamObject lib name fields chunkSize).Ensures (UploadStep env .any)
      (fun result st' => ∀ response, result = .ok response →
        Uploaded lib nodes name (.multipart fields) st') st := by
  unfold streamObject
  refine ensures_perform fun created st₁ hcreated => ?_
  change Except Status Unit at created
  cases created with
  | error status => rintro _ ⟨⟩
  | ok value =>
      have h₁ := h.putObject hcreated rfl
      dsimp only
      split
      · exact rollback_not_ok
      · rename_i field hfield
        refine .of_bind ((streamField_records lib hkeyed _ _ [] [] h₁ rfl
          (Nat.zero_le _)).mono fun streamed st₂ h₂ => ?_)
        split
        · exact rollback_not_ok
        · rename_i buffer received
          rcases h₂ _ rfl with ⟨pieces, h₂, hcontent, hsize, hwhole⟩
          have hbody : (Upload.multipart fields).body lib = some received := by
            simpa [Upload.body, hfield] using hwhole
          refine .of_bind ((flushRest_records lib hkeyed buffer h₂).mono fun rest st₃ h₃ => ?_)
          split
          · exact rollback_not_ok
          · rcases h₃ rfl with ⟨pieces', h₃, hpieces⟩
            refine ensures_perform fun updated st₄ hupdated => ?_
            change Except Status Unit at updated
            cases updated with
            | error status => exact rollback_not_ok
            | ok value =>
                intro _ _
                exact ⟨received, pieces', hbody, hsize, hpieces.trans hcontent,
                  h₃.update hupdated rfl⟩

/-- A successful upload, through either handler. -/
theorem Upload.handler_records (upload : Upload) (lib : Library) (hkeyed : RegistryKeyed nodes)
    (h : Ready nodes name st) :
    (upload.handler lib name).Ensures (UploadStep env .any)
      (fun result st' => ∀ response, result = .ok response →
        Uploaded lib nodes name upload st') st := by
  cases upload with
  | json payload =>
      change (handlePutObject lib name payload).Ensures _ _ st
      unfold handlePutObject
      split
      · rintro _ ⟨⟩
      · split
        · rintro _ ⟨⟩
        · rename_i body hpayload
          split
          · rintro _ ⟨⟩
          · refine ensures_perform fun found st₁ hfound => ?_
            split
            · rintro _ ⟨⟩
            · rintro _ ⟨⟩
            · have h₁ := h.step hfound (not_fails_ok _) trivial
              refine ensures_perform fun connected st₂ hconnected => ?_
              split
              · rintro _ ⟨⟩
              · have h₂ := h₁.step hconnected (not_fails_ok _) trivial
                refine ensures_perform fun sized st₃ hsized => ?_
                split
                · rintro _ ⟨⟩
                · rename_i chunkSize
                  have h₃ := h₂.step hsized (not_fails_ok _) trivial
                  exact storeObject_records lib hkeyed chunkSize hpayload (by omega) h₃
  | multipart fields =>
      change (handlePutObjectMultipart lib name fields).Ensures _ _ st
      unfold handlePutObjectMultipart
      split
      · rintro _ ⟨⟩
      · refine ensures_perform fun found st₁ hfound => ?_
        split
        · rintro _ ⟨⟩
        · rintro _ ⟨⟩
        · have h₁ := h.step hfound (not_fails_ok _) trivial
          refine ensures_perform fun connected st₂ hconnected => ?_
          split
          · rintro _ ⟨⟩
          · have h₂ := h₁.step hconnected (not_fails_ok _) trivial
            refine ensures_perform fun sized st₃ hsized => ?_
            split
            · rintro _ ⟨⟩
            · rename_i chunkSize
              have h₃ := h₂.step hsized (not_fails_ok _) trivial
              exact streamObject_records lib hkeyed fields chunkSize h₃

/-! ## The record of a successful upload -/

/-- The upload comes as a stream. -/
def Upload.Streams : Upload → Prop
  | json _ => False
  | multipart _ => True

/-- A successful upload leaves a record with the checksum of the body, whose chunks hold the
body.  The recorded size is that of the body, and of the payloads together, exactly when the
body came as a stream or is empty. -/
theorem upload_record_iff (env : Environment) (lib : Library) (name : String) (upload : Upload)
    (s s' : Services) (log : Log) (body : Bytes) (response : PutObjectResponsePayload)
    (hmeta : Reachable env.lib anyEvent s.metadata.metadataStore)
    (hbody : upload.body lib = some body)
    (hruns : (upload.handler lib name).Runs (Library.Logged (Step env .any)) (s, [])
      (.ok response) (s', log)) :
    body.length ≤ MAX_OBJECT_SIZE ∧
      ∃ object pieces, s'.metadata.metadataStore.objects[name]? = some object ∧
        object.checksum = lib.crc32 body ∧
        List.Forall₂ (Held s') object.chunks pieces ∧ pieces.flatten = body ∧
        (object.totalSize.toNat = body.length ∧
            object.totalSize.toNat = (pieces.map List.length).sum ↔
          upload.Streams ∨ body = []) := by
  have hready : Ready s.metadata.metadataStore.storageNodes name (s, []) :=
    ⟨by simp [RolledBack], rfl⟩
  rcases hruns.ensures (upload.handler_records lib hmeta.registryKeyed hready) response rfl with
    ⟨found, pieces, hfound, hsize, hpieces, hrecorded⟩
  cases hbody.symm.trans hfound
  rcases Option.map_eq_some_iff.mp hrecorded.record with ⟨object, hobject, hrecord⟩
  rcases hrecorded.chunks with ⟨ids, hids, hheld⟩
  rw [listed, hobject] at hids
  cases hids
  have hsum : (pieces.map List.length).sum = body.length := by
    rw [← hpieces, List.length_flatten]
  have htotal : object.totalSize = upload.recordedSize body := congrArg Prod.snd hrecord
  refine ⟨hsize, object, pieces, hobject, congrArg Prod.fst hrecord, hheld, hpieces, ?_⟩
  rw [hsum, and_self, htotal]
  cases upload with
  | json payload =>
      have hempty : (0 : Nat) = body.length ↔ body = [] := by
        rw [eq_comm, List.length_eq_zero_iff]
      exact hempty.trans (by simp [Upload.Streams])
  | multipart fields =>
      have hlimit : MAX_OBJECT_SIZE < UInt64.size := by decide
      have hexact : (UInt64.ofNat body.length).toNat = body.length :=
        UInt64.toNat_ofNat_of_lt' (Nat.lt_of_le_of_lt hsize hlimit)
      exact iff_of_true hexact (.inl trivial)

theorem oneNode_reachable : Reachable jsonLib anyEvent oneNode.metadata.metadataStore := by
  refine (Reachable.start jsonLib _).afterCalls ?_
  simp [anyEvent]

/-- The upload has succeeded, and the record has this checksum and this size. -/
def uploadedAs (name : String) (checksum : UInt32) (totalSize : UInt64)
    (result : HttpResult PutObjectResponsePayload × Services × Log) : Bool :=
  result.1.isOk && recordOf result.2.1 name == some (checksum, totalSize)

/-- The calls up to the allocation of a chunk, and three more. -/
def storedScript : List Deployment.Decision :=
  allocated ++ [.serve .plain, .serve .plain, .serve .plain]

/-- A stream of one byte. -/
theorem upload_record_iff_multipart :
    ∃ (s' : Services) (object : MetaObject), s'.metadata.metadataStore.objects["a"]? = some object ∧
      object.totalSize.toNat = 1 := by
  let upload := Upload.multipart [.ok ⟨some "file", [.ok [104]]⟩]
  have hrun : ((upload.handler plainLibrary "a").replay
      (Library.serveLogged (Services.next plainEnvironment)) (storedScript ++ [.serve .plain])
      (oneNode, [])).any (fun result => result.1.isOk) = true := by
    decide +kernel
  have hscripted : ∃ value s' log, (upload.handler plainLibrary "a").Runs
      (Library.Logged (Step plainEnvironment .any)) (oneNode, []) value (s', log) ∧
        value.isOk = true :=
    Deployment.scripted (fun _ _ _ _ hstep => hstep.any) hrun
  rcases hscripted with ⟨value, s', log, hruns, hcheck⟩
  cases value with
  | error error => cases hcheck
  | ok response =>
      rcases (upload_record_iff plainEnvironment plainLibrary "a" upload oneNode s' log [104]
        response oneNode_reachable rfl hruns).2 with ⟨object, _, hobject, _, _, _, hsize⟩
      exact ⟨s', object, hobject, (hsize.mpr (.inl trivial)).1⟩

/-- A JSON upload of one byte is recorded with size zero. -/
theorem json_upload_has_no_size :
    ∃ response s' log, (handlePutObject plainLibrary "a" "aA==").Runs
        (Library.Logged (Step plainEnvironment .any)) (oneNode, []) (.ok response) (s', log) ∧
      (s'.metadata.metadataStore.objects["a"]?).map (·.totalSize) = some 0 ∧
      plainLibrary.decode "aA==" = .ok [104] := by
  have hrun : ((handlePutObject plainLibrary "a" "aA==").replay
      (Library.serveLogged (Services.next plainEnvironment)) storedScript (oneNode, [])).any
        (uploadedAs "a" (plainLibrary.crc32 [104]) 0) = true := by
    decide +kernel
  have hscripted : ∃ value s' log, (handlePutObject plainLibrary "a" "aA==").Runs
      (Library.Logged (Step plainEnvironment .any)) (oneNode, []) value (s', log) ∧
        uploadedAs "a" (plainLibrary.crc32 [104]) 0 (value, s', log) = true :=
    Deployment.scripted (fun _ _ _ _ hstep => hstep.any) hrun
  rcases hscripted with ⟨value, s', log, hruns, hcheck⟩
  rcases Bool.and_eq_true_iff.mp hcheck with ⟨hok, hrecord⟩
  cases value with
  | error error => cases hok
  | ok response =>
      refine ⟨response, s', log, hruns, ?_, by decide +kernel⟩
      rcases Option.map_eq_some_iff.mp (beq_iff_eq.mp hrecord) with ⟨object, hobject, heq⟩
      rw [hobject]
      exact congrArg (fun record => some record.2) heq

end ApiGateway
end ObjectStore
