import ObjectStore.ApiGateway.Chunking
import ObjectStore.ApiGateway.Listing
import ObjectStore.ReplicationService.Cycle
import ObjectStore.System.Provenance
import ObjectStore.System.Store

/-!
# System - Where the bytes of a download come from

Uploads, downloads, listings, deletions and replication cycles in any interleaving, with calls
that fail before or after they take effect.  Whatever becomes of the uploads, a download under
a name delivers chunks that were cut from uploads under this name.

Main definitions:

- `brought`: the bytes that an upload brings.
- `Carries`: the chunks of the uploads under a name.
- `Activity`: what runs in the deployment.

Main results:

- Theorems `upload_traces`, `cycle_traces`, `download_traces`: what each program respects.
- Theorem `downloads_stay_apart`: where the bytes of a download come from.
-/

namespace ObjectStore
namespace System

open ApiGateway (Download HttpResult Library Multipart StatusCode Upload chunks findFile
  flushChunkToStorage flushFull flushRest getOrConnect handleDeleteObject handleListObjects
  handlePutObject handlePutObjectMultipart oneNode plainEnvironment plainLibrary putChunks rollback
  storeChunk storeObject streamField streamObject)
open Deployment (Call Environment Faults SameServices Services Step)
open Library (PoolStep)
open ReplicationService (copyChunk readSource recordReplica replicateChunk replicateChunks
  runReplicationCycle writeTarget)
open StorageMetadata (Keyed MetaObject MetadataStore)
open StorageMetadata.Proto (AllocateChunkResponse MetaChunk MetaStorageNode UnderReplicatedChunk)

variable {env : Environment} {lib : Library} {parts : String → Bytes → Prop}
  {st st' : Services × Owners} {owners : Owners} {call : Call} {name address : String}
  {id : UInt64} {bytes : Bytes}

/-! ## Uploads -/

theorem getOrConnect_free (address : String) : (getOrConnect address).Only Free := by
  apply (ApiGateway.getOrConnect_probes address).mono
  exact fun call hcall => free_of_reads hcall.looks.reads

/-- The id of a chunk belongs to the object that the chunk was allocated for. -/
theorem OwnedStep.allocated {response : AllocateChunkResponse} {checksum : UInt32}
    (h : OwnedStep env st (.metadata (.allocateChunk name checksum)) (.ok response) st') :
    st'.2 response.chunkId = some name := by
  have hdraws : st.2 response.chunkId = none ∧
      st'.2 = Function.update st.2 response.chunkId (some name) := h.2
  rw [hdraws.2, Function.update_self]

/-- One of the parts of an object is stored. -/
theorem storeChunk_behaves (lib : Library) (hpart : parts name bytes) :
    Behaves env parts (storeChunk lib name bytes) fun _ => True := by
  intro st
  unfold storeChunk
  intro st₁ _ allocated st₂ hallocated
  refine ⟨hallocated.keeps trivial, ?_⟩
  change Except Status AllocateChunkResponse at allocated
  cases allocated with
  | error err => exact fun _ _ => trivial
  | ok alloc =>
      have howner : st₂.2 alloc.chunkId = some name := hallocated.allocated
      have hconnect : (getOrConnect alloc.storageNodeAddress).EnsuresUnder (OwnedStep env)
          (Keeps parts) _ st₂ :=
        (Behaves.of_free (getOrConnect_free _) st₂).related keeps_refl keeps_trans
      change (getOrConnect alloc.storageNodeAddress >>= _).EnsuresUnder _ _ _ _
      apply Library.Program.EnsuresUnder.of_bind keeps_refl
      apply hconnect.mono
      intro connected st₃ hst₃
      cases connected with
      | error error => exact fun _ _ => trivial
      | ok _ =>
          intro st₄ hst₄ written st₅ hwritten
          have howner₄ := hst₄.1 _ _ (hst₃.1.1 _ _ howner)
          have hst₅ : Keeps parts st₄ st₅ := hwritten.keeps ⟨name, howner₄, hpart⟩
          refine ⟨hst₅, ?_⟩
          change Except Status UInt64 at written
          cases written with
          | error err => exact fun _ _ => trivial
          | ok _ =>
              intro st₆ hst₆ confirmed st₇ hconfirmed
              have howner₆ := hst₆.1 _ _ (hst₅.1 _ _ howner₄)
              refine ⟨hconfirmed.keeps howner₆, ?_⟩
              change Except Status Unit at confirmed
              cases confirmed <;> exact fun _ _ => trivial

/-- A flush sends a part of the object that it is for. -/
theorem flushChunkToStorage_behaves (lib : Library) (hpart : parts name bytes) :
    Behaves env parts (flushChunkToStorage lib bytes name) fun _ => True := by
  rw [ApiGateway.flushChunkToStorage_eq]
  apply (storeChunk_behaves lib hpart).of_bind
  intro stored _ _
  cases stored <;> exact fun _ _ => trivial

theorem rollback_behaves {α : Type} (error : StatusCode × String) :
    Behaves env parts (rollback name error : Deployment.Program (HttpResult α)) fun _ => True := by
  apply Behaves.of_free
  exact ⟨trivial, fun _ => trivial⟩

/-- The loop of the JSON upload sends parts of the body. -/
theorem putChunks_behaves (lib : Library) (chunked : List Bytes)
    (hparts : ∀ part ∈ chunked, parts name part) :
    Behaves env parts (putChunks lib name chunked) fun _ => True := by
  induction chunked with
  | nil => exact fun _ _ _ => trivial
  | cons chunk chunked ih =>
      rw [ApiGateway.putChunks_cons]
      apply (storeChunk_behaves lib (hparts chunk List.mem_cons_self)).of_bind
      intro stored _
      cases stored with
      | error error =>
          cases error with
          | connect error => exact fun _ _ _ => trivial
          | allocate _ | write _ _ | confirm _ _ => exact rollback_behaves _
      | ok _ => exact ih fun other hother => hparts other (List.mem_cons_of_mem _ hother)

/-- The bytes of a field that arrive before its reads end or fail. -/
def arrived : List (Except String Bytes) → Bytes
  | .ok chunkData :: rest => chunkData ++ arrived rest
  | _ => []

variable {n : Nat} {buffer received : Bytes}

/-- Flushing leaves what is to be cut into parts, with less than a part in the buffer. -/
theorem flushFull_behaves (lib : Library) (hn : 0 < n) (fuel : Nat) (hfuel : buffer.length ≤ fuel)
    (later : Bytes) (hparts : ∀ part ∈ chunks n (buffer ++ later), parts name part) :
    Behaves env parts (flushFull lib name n fuel buffer) fun result =>
      ∀ buffer', result = .ok buffer' → buffer'.length < n ∧
        ∀ part ∈ chunks n (buffer' ++ later), parts name part := by
  induction fuel generalizing buffer with
  | zero =>
      intro st st' _ buffer' hbuffer
      cases hbuffer
      exact ⟨by omega, hparts⟩
  | succ fuel ih =>
      unfold flushFull
      split
      · rename_i hfull
        have hne : buffer ++ later ≠ [] := by
          intro hnil
          have hlength := congrArg List.length hnil
          simp only [List.length_append, List.length_nil] at hlength
          omega
        have hcut : chunks n (buffer ++ later) =
            buffer.take n :: chunks n (buffer.drop n ++ later) := by
          rw [ApiGateway.chunks_of_ne_nil hn hne, List.take_append_of_le_length hfull,
            List.drop_append_of_le_length hfull]
        rw [hcut] at hparts
        apply (flushChunkToStorage_behaves lib (hparts _ List.mem_cons_self)).of_bind
        intro flushed _
        cases flushed with
        | error e =>
            intro _ _ _ _ hbuffer
            cases hbuffer
        | ok _ =>
            apply ih
            · simp only [List.length_drop]
              omega
            · exact fun part hpart => hparts part (List.mem_cons_of_mem _ hpart)
      · rename_i hshort
        intro st st' _ buffer' hbuffer
        cases hbuffer
        exact ⟨by omega, hparts⟩

/-- The loop over the fragments sends parts of what has arrived. -/
theorem streamField_behaves (lib : Library) (hn : 0 < n) (reads : List (Except String Bytes))
    (hshort : buffer.length < n)
    (hparts : ∀ part ∈ chunks n (buffer ++ arrived reads), parts name part) :
    Behaves env parts (streamField lib name n buffer received reads) fun result =>
      ∀ rest, result = .ok rest → rest.1.length < n ∧
        ∀ part ∈ chunks n rest.1, parts name part := by
  induction reads generalizing buffer received with
  | nil =>
      intro st st' _ rest hrest
      cases hrest
      simp only [arrived, List.append_nil] at hparts
      exact ⟨hshort, hparts⟩
  | cons read reads ih =>
      cases read with
      | error err =>
          intro _ _ _ _ hrest
          cases hrest
      | ok chunkData =>
          unfold streamField
          dsimp only
          split
          · intro _ _ _ _ hrest
            cases hrest
          · rw [arrived, ← List.append_assoc] at hparts
            apply (flushFull_behaves lib hn _ (Nat.le_refl _) (arrived reads) hparts).of_bind
            intro flushed hflushed
            cases flushed with
            | error e =>
                intro _ _ _ _ hrest
                cases hrest
            | ok buffer =>
                rcases hflushed buffer rfl with ⟨hshort', hparts'⟩
                exact ih hshort' hparts'

theorem flushRest_behaves (lib : Library) (hn : 0 < n) (hshort : buffer.length < n)
    (hparts : ∀ part ∈ chunks n buffer, parts name part) :
    Behaves env parts (flushRest lib name buffer) fun _ => True := by
  rw [ApiGateway.chunks_of_short hn hshort, ApiGateway.lastChunk] at hparts
  unfold flushRest
  split
  · exact fun _ _ _ => trivial
  · rename_i hne
    rw [if_neg hne] at hparts
    exact flushChunkToStorage_behaves lib (hparts buffer (List.mem_singleton_self _))

/-- A JSON upload sends parts of its body. -/
theorem storeObject_behaves (lib : Library) (hparts : ∀ part ∈ chunks env.chunkSize.bytes bytes,
    parts name part) :
    Behaves env parts (storeObject lib name bytes env.chunkSize) fun _ => True := by
  unfold storeObject
  refine Behaves.of_call trivial fun (created : Except Status Unit) => ?_
  cases created with
  | error _ => exact fun _ _ _ => trivial
  | ok _ =>
      change Behaves env parts (putChunks lib name _ >>= _) _
      apply (putChunks_behaves lib _ hparts).of_bind
      intro stored _
      cases stored <;> exact fun _ _ _ => trivial

/-- The bytes that an upload brings. -/
def brought (lib : Library) : Upload → Bytes
  | .json payload =>
      match lib.decode payload with
      | .ok decodedBytes => decodedBytes
      | .error _ => []
  | .multipart fields =>
      match findFile fields with
      | .ok field => arrived field.data
      | .error _ => []

/-- A multipart upload sends parts of what it brings. -/
theorem streamObject_behaves (lib : Library) (fields : Multipart)
    (hparts : ∀ part ∈ chunks env.chunkSize.bytes (brought lib (.multipart fields)),
      parts name part) :
    Behaves env parts (streamObject lib name fields env.chunkSize) fun _ => True := by
  unfold streamObject
  refine Behaves.of_call trivial fun (created : Except Status Unit) => ?_
  cases created with
  | error _ => exact fun _ _ _ => trivial
  | ok _ =>
      dsimp only [Library.Program.bind]
      cases hfile : findFile fields with
      | error error => exact rollback_behaves error
      | ok field =>
          simp only [brought, hfile] at hparts
          have hpositive := env.chunkSize.positive
          change Behaves env parts (streamField lib name _ _ _ _ >>= _) _
          have hempty : ([] : Bytes).length < env.chunkSize.bytes := hpositive
          apply (streamField_behaves lib hpositive field.data hempty hparts).of_bind
          intro streamed hstreamed
          cases streamed with
          | error error => exact rollback_behaves error
          | ok rest =>
              rcases hstreamed rest rfl with ⟨hshort, hrest⟩
              change Behaves env parts (flushRest lib name rest.1 >>= _) _
              apply (flushRest_behaves lib hpositive hshort hrest).of_bind
              intro flushed _
              cases flushed with
              | error error => exact rollback_behaves error
              | ok _ =>
                  refine Behaves.of_call trivial fun (updated : Except Status Unit) => ?_
                  cases updated with
                  | error err => exact rollback_behaves _
                  | ok _ => exact fun _ _ _ => trivial

/-- All storage nodes have one chunk size. -/
theorem OwnedStep.chunkSize {size : StorageNode.ChunkSize}
    (h : OwnedStep env st (.storageNode address .getChunkSize) (.ok size) st') :
    size = env.chunkSize := by
  rcases h.1.storageNode_effect_any with ⟨_, reply, heffect, hreply⟩
  rcases hreply with rfl | ⟨status, hstatus⟩
  · generalize st'.1.nodes = nodes at heffect
    cases heffect
    rfl
  · cases hstatus

/-- The calls in front of `put_object`, which look for a storage node and its chunk size. -/
theorem preamble_behaves {α : Type}
    {f : Except Status (List MetaStorageNode) → Deployment.Program α}
    {g : MetaStorageNode → Except String Unit → Deployment.Program α}
    {k : Except Status StorageNode.ChunkSize → Deployment.Program α}
    (hf : ∀ listed, (∃ value, f listed = .done value) ∨
      ∃ node, f listed = .call (.connect node.address) (g node))
    (hg : ∀ node, g node (.ok ()) = Deployment.Program.storageNode node.address .getChunkSize >>= k)
    (hfails : ∀ node err, ∃ value, g node (.error err) = .done value)
    (hk : ∀ status, ∃ value, k (.error status) = .done value)
    (hrest : Behaves env parts (k (.ok env.chunkSize)) fun _ => True) :
    Behaves env parts (Deployment.Program.metadata .listStorageNodes >>= f) fun _ => True := by
  refine Behaves.of_call trivial fun listed => ?_
  change Behaves env parts (f listed) _
  rcases hf listed with ⟨value, hdone⟩ | ⟨node, hnext⟩
  · rw [hdone]
    exact fun _ _ _ => trivial
  · rw [hnext]
    refine Behaves.of_call trivial fun (connected : Except String Unit) => ?_
    cases connected with
    | error err =>
        rcases hfails node err with ⟨value, hdone⟩
        rw [hdone]
        exact fun _ _ _ => trivial
    | ok _ =>
        rw [hg]
        intro st st₁ _ sized st₂ hsized
        refine ⟨hsized.keeps trivial, ?_⟩
        change Except Status StorageNode.ChunkSize at sized
        change (k sized).EnsuresUnder _ _ _ _
        cases sized with
        | error status =>
            rcases hk status with ⟨value, hdone⟩
            rw [hdone]
            exact fun _ _ => trivial
        | ok size =>
            obtain rfl := hsized.chunkSize
            exact hrest st₂

/-- An upload stores parts of what it brings. -/
theorem upload_traces (upload : Upload) (lib : Library)
    (hparts : ∀ part ∈ chunks env.chunkSize.bytes (brought lib upload), parts name part) :
    Behaves env parts (upload.handler lib name) fun _ => True := by
  cases upload with
  | json payload =>
      change Behaves env parts (handlePutObject lib name payload) _
      unfold handlePutObject
      split
      · exact fun _ _ _ => trivial
      · split
        · exact fun _ _ _ => trivial
        · rename_i decoded hdecoded
          simp only [brought, hdecoded] at hparts
          split
          · exact fun _ _ _ => trivial
          · apply preamble_behaves
            · rintro (_ | _ | ⟨testNode, _⟩)
              · exact .inl ⟨_, rfl⟩
              · exact .inl ⟨_, rfl⟩
              · exact .inr ⟨testNode, rfl⟩
            · exact fun testNode => rfl
            · exact fun testNode err => ⟨_, rfl⟩
            · exact fun status => ⟨_, rfl⟩
            · exact storeObject_behaves lib hparts
  | multipart fields =>
      change Behaves env parts (handlePutObjectMultipart lib name fields) _
      unfold handlePutObjectMultipart
      split
      · exact fun _ _ _ => trivial
      · apply preamble_behaves
        · rintro (_ | _ | ⟨testNode, _⟩)
          · exact .inl ⟨_, rfl⟩
          · exact .inl ⟨_, rfl⟩
          · exact .inr ⟨testNode, rfl⟩
        · exact fun testNode => rfl
        · exact fun testNode err => ⟨_, rfl⟩
        · exact fun status => ⟨_, rfl⟩
        · exact streamObject_behaves lib fields hparts

/-! ## Cycles, deletions and listings -/

/-- What is read of a chunk is a part of its object. -/
theorem readSource_traces (sourceNodeId : UInt64) (h : Traced parts st) :
    (readSource id sourceNodeId).EnsuresUnder (OwnedStep env) (Keeps parts)
      (fun result st' => ∀ bytes, result = .ok bytes →
        ∃ name, st'.2 id = some name ∧ parts name bytes) st := by
  intro st₁ hst₁ found st₂ hfound
  have hst₂ := keeps_trans _ _ _ hst₁ (hfound.keeps trivial)
  refine ⟨hfound.keeps trivial, ?_⟩
  change Except Status String at found
  cases found with
  | error _ => exact fun _ _ _ => nofun
  | ok sourceAddress =>
      intro st₃ hst₃ connected st₄ hconnected
      have hst₄ := keeps_trans _ _ _ (keeps_trans _ _ _ hst₂ hst₃) (hconnected.keeps trivial)
      refine ⟨hconnected.keeps trivial, ?_⟩
      change Except String Unit at connected
      cases connected with
      | error _ => exact fun _ _ _ => nofun
      | ok _ =>
          intro st₅ hst₅ read st₆ hread
          have hkeeps : Keeps parts st₅ st₆ := hread.keeps trivial
          refine ⟨hkeeps, ?_⟩
          change Except Status StorageNode.ReadChunkResponse at read
          cases read with
          | error _ => exact fun _ _ _ => nofun
          | ok resp =>
              have htraced := (keeps_trans _ _ _ hst₄ hst₅).2 h
              rcases hread.1.storageNode_effect_any with ⟨_, reply, heffect, rfl | hfailed⟩
              · have hdata : st₅.1.dataAt sourceAddress id = some resp.chunkBytes := by
                  generalize st₆.1.nodes = nodes at heffect
                  cases heffect with
                  | readChunk hnode hid =>
                      exact Services.dataAt_eq_some_iff.mpr ⟨_, hnode, hid⟩
                rcases htraced.data _ _ _ hdata with ⟨name, howner, hpart⟩
                intro st₇ hst₇ bytes hbytes
                cases hbytes
                exact ⟨name, hst₇.1 _ _ (hkeeps.1 _ _ howner), hpart⟩
              · rcases hfailed with ⟨status, hstatus⟩
                cases hstatus

theorem recordReplica_free (targetNode : MetaStorageNode) :
    (recordReplica id targetNode).Only Free := by
  refine ⟨trivial, fun (recorded : Except Status Unit) => ?_⟩
  cases recorded with
  | ok _ => trivial
  | error _ =>
      refine ⟨trivial, fun (connected : Except String Unit) => ?_⟩
      cases connected with
      | error _ => trivial
      | ok _ => exact ⟨trivial, fun _ => trivial⟩

/-- A part of an object is written as a chunk of this object. -/
theorem writeTarget_traces (targetAddress : String) (howner : st.2 id = some name)
    (hpart : parts name bytes) :
    (writeTarget targetAddress id bytes).EnsuresUnder (OwnedStep env) (Keeps parts)
      (fun _ _ => True) st := by
  intro st₁ hst₁ connected st₂ hconnected
  have hst₂ : Keeps parts st₁ st₂ := hconnected.keeps trivial
  refine ⟨hst₂, ?_⟩
  change Except String Unit at connected
  cases connected with
  | error _ => exact fun _ _ => trivial
  | ok _ =>
      intro st₃ hst₃ written st₄ hwritten
      have howner₃ := hst₃.1 _ _ (hst₂.1 _ _ (hst₁.1 _ _ howner))
      refine ⟨hwritten.keeps ⟨name, howner₃, hpart⟩, ?_⟩
      change Except Status UInt64 at written
      cases written <;> exact fun _ _ => trivial

/-- A copy has the part that its source has. -/
theorem copyChunk_traces (crc32 : Bytes → UInt32)
    (chunk : UnderReplicatedChunk)
    (targetNode : MetaStorageNode) (h : Traced parts st) :
    (copyChunk crc32 chunk targetNode).EnsuresUnder (OwnedStep env) (Keeps parts)
      (fun _ _ => True) st := by
  unfold copyChunk
  split
  · exact fun _ _ => trivial
  · rename_i sourceNodeId _ _
    apply Library.Program.EnsuresUnder.of_bind keeps_refl
    apply (readSource_traces sourceNodeId h).mono
    intro read st₁ hread
    cases read with
    | error label => exact fun _ _ => trivial
    | ok chunkData =>
        rcases hread chunkData rfl with ⟨name, howner, hpart⟩
        dsimp only
        split
        · exact fun _ _ => trivial
        · apply Library.Program.EnsuresUnder.of_bind keeps_refl
          apply (writeTarget_traces targetNode.address howner hpart).mono
          intro written st₂ _
          cases written with
          | error label => exact fun _ _ => trivial
          | ok _ => exact Behaves.of_free (recordReplica_free targetNode) st₂

theorem replicateChunk_traces (crc32 : Bytes → UInt32)
    (nodes : List MetaStorageNode)
    (chunk : UnderReplicatedChunk) (h : Traced parts st) :
    (replicateChunk crc32 nodes chunk).EnsuresUnder (OwnedStep env) (Keeps parts)
      (fun _ _ => True) st := by
  unfold replicateChunk
  dsimp only
  split
  · exact fun _ _ => trivial
  · intro st₁ hst₁ picked st₂ hpicked
    have hst₂ : Keeps parts st₁ st₂ := hpicked.keeps trivial
    refine ⟨hst₂, ?_⟩
    dsimp only [Library.Program.bind]
    split
    · exact fun _ _ => trivial
    · rename_i targetNode _
      have hfree : (ReplicationService.hasSpace targetNode.address).Only Free :=
        (ReplicationService.hasSpace_looks targetNode.address).mono fun _ hcall =>
          free_of_reads hcall.reads
      apply Library.Program.EnsuresUnder.of_bind keeps_refl
      apply ((Behaves.of_free hfree st₂).related keeps_refl keeps_trans).mono
      intro space st₃ hst₃
      split
      · exact copyChunk_traces crc32 chunk targetNode (hst₃.1.2 (hst₂.2 (hst₁.2 h)))
      · exact fun _ _ => trivial

/-- A cycle copies parts of an object to chunks of this object. -/
theorem cycle_traces (crc32 : Bytes → UInt32) (maxChunksPerCycle : Nat) (h : Traced parts st) :
    (runReplicationCycle crc32 maxChunksPerCycle).EnsuresUnder (OwnedStep env) (Keeps parts)
      (fun _ _ => True) st := by
  have hchunks : ∀ (nodes : List MetaStorageNode)
      (chunks : List UnderReplicatedChunk) (st : Services × Owners),
      Traced parts st → (replicateChunks crc32 nodes chunks).EnsuresUnder (OwnedStep env)
        (Keeps parts) (fun _ _ => True) st := by
    intro nodes chunks
    induction chunks with
    | nil => exact fun _ _ _ _ => trivial
    | cons chunk chunks ih =>
        intro st h
        apply Library.Program.EnsuresUnder.of_bind keeps_refl
        apply ((replicateChunk_traces crc32 nodes chunk h).related keeps_refl keeps_trans).mono
        intro outcome st₁ hst₁
        apply Library.Program.EnsuresUnder.of_bind keeps_refl
        apply (ih st₁ (hst₁.1.2 h)).mono
        exact fun _ _ _ _ _ => trivial
  intro st₁ hst₁ listed st₂ hlisted
  have hst₂ : Keeps parts st₁ st₂ := hlisted.keeps trivial
  refine ⟨hst₂, ?_⟩
  change Except Status (List UnderReplicatedChunk) at listed
  cases listed with
  | error _ => exact fun _ _ => trivial
  | ok chunks =>
      dsimp only [Library.Program.bind]
      split
      · exact fun _ _ => trivial
      · intro st₃ hst₃ found st₄ hfound
        have hst₄ : Keeps parts st₃ st₄ := hfound.keeps trivial
        refine ⟨hst₄, ?_⟩
        change Except Status (List MetaStorageNode) at found
        cases found with
        | error _ => exact fun _ _ => trivial
        | ok nodes =>
            dsimp only [Library.Program.bind]
            split
            · exact fun _ _ => trivial
            · apply Library.Program.EnsuresUnder.of_bind keeps_refl
              apply (hchunks nodes _ st₄ (hst₄.2 (hst₃.2 (hst₂.2 (hst₁.2 h))))).mono
              exact fun _ _ _ _ _ => trivial

/-- Deletions send nothing. -/
theorem Deletes.free {ids : List UInt64} (h : ApiGateway.Deletes ids call) : Free call := by
  cases call with
  | metadata call => cases call <;> first | exact h.elim | trivial
  | storageNode address call => cases call <;> first | exact h.elim | trivial
  | _ => trivial

theorem handleDeleteObject_free (lib : Library) (name : String) :
    (handleDeleteObject lib name).Only Free := by
  unfold handleDeleteObject
  split
  · trivial
  · have hfound : (ApiGateway.getObject name).Only Free :=
      (ApiGateway.getObject_looks name).mono fun _ hcall => free_of_reads hcall.reads
    apply hfound.of_bind
    intro found
    cases found with
    | error err => trivial
    | ok response =>
        have hids : ∀ chunk ∈ response.chunks, chunk.id ∈ response.chunks.map (·.id) :=
          fun chunk hchunk => List.mem_map_of_mem hchunk
        apply ((ApiGateway.stages_only hids).mono fun _ => Deletes.free).of_bind
        intro _
        apply ((ApiGateway.deleteRecords_only hids).mono fun _ => Deletes.free).of_bind
        intro _
        refine ⟨trivial, fun (deleted : Except Status Unit) => ?_⟩
        cases deleted <;> trivial

/-- A listing reads. -/
theorem handleListObjects_reads (lib : Library) (debug : StatusCode × String → String)
    (objects : Except Status (List StorageMetadata.Proto.MetaObject)) :
    (handleListObjects lib debug objects).Only Call.Reads := by
  cases objects with
  | error err => trivial
  | ok objectsList =>
      apply (ApiGateway.Pattern.listEach_visits objectsList).mono
      intro call hcall
      cases call with
      | metadata call => exact hcall.elim
      | storageNode address call => cases call <;> first | exact hcall.elim | trivial
      | _ => trivial

theorem handleListObjects_free (lib : Library) (debug : StatusCode × String → String)
    (objects : Except Status (List StorageMetadata.Proto.MetaObject)) :
    (handleListObjects lib debug objects).Only Free :=
  (handleListObjects_reads lib debug objects).mono fun _ => free_of_reads

/-! ## Downloads -/

/-- For a call that reads, it makes no difference whether it failed before or after. -/
theorem Step.fails_early {s s' : Services} (h : Step env .any s call reply s')
    (hreads : call.Reads) :
    ∃ t, Step env .withoutEffect s call reply t ∧ SameServices t s' := by
  by_cases hfails : call.Fails reply
  · exact ⟨s, .failed (by decide) hfails, h.reads hreads⟩
  · exact ⟨s', (h.of_ok hfails).of_none, .refl s'⟩

/-- The chunks `ids` belong to the object. -/
def Owns (parts : String → Bytes → Prop) (name : String) (ids : List UInt64)
    (st : Services × Owners) : Prop :=
  Traced parts st ∧ ∀ id ∈ ids, st.2 id = some name

/-- The chunks `ids` hold parts of the object only. -/
def Good (parts : String → Bytes → Prop) (name : String) (ids : List UInt64) (s : Services) :
    Prop :=
  ∀ id ∈ ids, ∀ (address : String) (bytes : Bytes),
    s.dataAt address id = some bytes → parts name bytes

/-- What is good for the ids stays so. -/
def StaysGood (parts : String → Bytes → Prop) (name : String) (ids : List UInt64)
    (s s' : Services) : Prop :=
  Good parts name ids s → Good parts name ids s'

variable {ids : List UInt64}

theorem staysGood_readRely : ApiGateway.ReadRely (StaysGood parts name ids) where
  trans s s' s'' h h' := fun hgood => h' (h hgood)
  reads s s' h := by
    intro hgood id hid address bytes hbytes
    rw [h.dataAt] at hbytes
    exact hgood id hid address bytes hbytes

/-- The ids of an object hold parts of the object. -/
theorem Owns.good (h : Owns parts name ids st) : Good parts name ids st.1 := by
  intro id hid address bytes hbytes
  rcases h.1.data address id bytes hbytes with ⟨other, hother, hpart⟩
  cases (h.2 id hid).symm.trans hother
  exact hpart

/-- They do so as long as ids keep their owners. -/
theorem Owns.keeps (h : Owns parts name ids st) (hkeeps : Keeps parts st st') :
    Owns parts name ids st' :=
  ⟨hkeeps.2 h.1, fun id hid => hkeeps.1 id name (h.2 id hid)⟩

/-- A response names chunks of the object only. -/
theorem response_ids {m : MetadataStore} (h : Keyed m.maps) {object : MetaObject}
    {chunk : MetaChunk} (hchunk : chunk ∈ (m.response object).chunks) :
    chunk.id ∈ object.chunks := by
  rcases List.mem_filterMap.mp hchunk with ⟨id, hid, hfound⟩
  rcases Option.map_eq_some_iff.mp hfound with ⟨record, hrecord, rfl⟩
  have hkey : record.id = id := h.chunk hrecord
  rw [MetadataStore.describe, hkey]
  exact hid

/-- The body that a download delivers is put together from parts of the object. -/
def Pieced (lib : Library) (parts : String → Bytes → Prop) (name : String) (download : Download)
    (response : download.Response) : Prop :=
  download.Succeeds response → ∃ pieces : List Bytes, (∀ piece ∈ pieces, parts name piece) ∧
    download.Delivers lib pieces.flatten response

/-- What is read of such ids are parts of the object. -/
theorem contents_parts {good : Bytes → Prop} {chunks : List MetaChunk}
    {pieces : List Bytes} (h : ApiGateway.Contents (fun _ => good) chunks pieces) :
    ∀ piece ∈ pieces, good piece := by
  induction h with
  | nil => exact nofun
  | cons hgood _ ih => exact List.forall_mem_cons.mpr ⟨hgood, ih⟩

/-- A download of such ids delivers parts of the object, or fails. -/
theorem read_traces (lib : Library) {chunks : List MetaChunk}
    (download : Download) (h : Owns parts name ids st) (hids : ∀ chunk ∈ chunks, chunk.id ∈ ids) :
    (download.read lib chunks).EnsuresUnder (OwnedStep env) (Keeps parts)
      (fun response _ => Pieced lib parts name download response) st := by
  have hrely : ApiGateway.ReadRely (StaysGood parts name ids) := staysGood_readRely
  have hnotAny : Faults.withoutEffect ≠ .any := by decide
  have hread : (download.read lib chunks).EnsuresUnder (Step env .withoutEffect)
      (StaysGood parts name ids) _ st.1 :=
    Download.read_ensures lib hrely hnotAny (fun _ => parts name) chunks download
  have hview : ∀ st₁ st₂, Owns parts name ids st₁ → Keeps parts st₁ st₂ →
      Owns parts name ids st₂ ∧ StaysGood parts name ids st₁.1 st₂.1 :=
    fun st₁ st₂ howns hkeeps => ⟨howns.keeps hkeeps, fun _ => (howns.keeps hkeeps).good⟩
  have hcalls : ∀ (st₁ : Services × Owners) (call : Call) (reply : call.Reply)
      (st₂ : Services × Owners), ApiGateway.Looks call → Owns parts name ids st₁ →
      OwnedStep env st₁ call reply st₂ → Keeps parts st₁ st₂ ∧
        ∃ s, Step env .withoutEffect st₁.1 call reply s ∧ StaysGood parts name ids s st₂.1 := by
    intro st₁ call reply st₂ hlooks _ hstep
    rcases Step.fails_early hstep.1 hlooks.reads with ⟨s, hs, hsame⟩
    exact ⟨hstep.keeps (free_of_reads hlooks.reads).permits, s, hs, hrely.reads _ _ hsame⟩
  apply (Library.Program.EnsuresUnder.of_view hrely.trans hview hcalls
    (Download.read_looks lib chunks download) hread h).mono
  intro response st' hresponse hsucceeds
  have hreads : ∀ chunk ∈ chunks, ∀ node ∈ chunk.storageNodes,
      ApiGateway.ReadsAt (StaysGood parts name ids) st.1 (parts name) node.address chunk.id :=
    fun chunk hchunk node _ s' hs' bytes hbytes =>
      hs' h.good chunk.id (hids chunk hchunk) node.address bytes hbytes
  rcases hresponse.1 hreads hsucceeds with ⟨pieces, hpieces, hdelivers⟩
  exact ⟨pieces, contents_parts hpieces, hdelivers⟩

theorem pieced_failure (error : StatusCode × String) (download : Download) :
    Pieced lib parts name download (Download.failure error download) :=
  fun hsucceeds => absurd hsucceeds (Download.not_succeeds_failure error)

/-- A download reads chunks of its object only. -/
theorem download_traces (lib : Library) (name : String) (download : Download)
    (h : Traced parts st) :
    (download.handler lib name).EnsuresUnder (OwnedStep env) (Keeps parts)
      (fun response _ => Pieced lib parts name download response) st := by
  rw [Download.handler_eq]
  split
  · exact fun _ _ => pieced_failure _ download
  · intro st₁ hst₁ found st₂ hfound
    have hst₂ : Keeps parts st₁ st₂ := hfound.keeps trivial
    refine ⟨hst₂, ?_⟩
    have h₂ := hst₂.2 (hst₁.2 h)
    change Except Status MetaObject at found
    cases found with
    | error err => exact fun _ _ => pieced_failure _ download
    | ok object =>
        have howns : Owns parts name object.chunks st₂ := by
          have hok := hfound.1.of_ok fun hfails => by rcases hfails with ⟨_, hstatus⟩; cases hstatus
          have hreply := (hok.lookupObject_reply (by decide)).resolve_right fun hfails =>
            hfails.1 rfl
          have hobject := ApiGateway.stored_of_lookupObject hreply.symm
          exact ⟨h₂, fun id hid => hst₂.1 id name ((hst₁.2 h).listed name object hobject id hid)⟩
        intro st₃ hst₃ resolved st₄ hresolved
        have hst₄ : Keeps parts st₃ st₄ := hresolved.keeps trivial
        refine ⟨hst₄, ?_⟩
        change Except Status StorageMetadata.Proto.GetObjectResponse at resolved
        cases resolved with
        | error err => exact fun _ _ => pieced_failure _ download
        | ok response =>
            have howns₃ := howns.keeps hst₃
            have hok := hresolved.1.of_ok fun hfails => by
              rcases hfails with ⟨_, hstatus⟩
              cases hstatus
            have hreply := (hok.resolveObject_reply (by decide)).resolve_right fun hfails =>
              hfails.1 rfl
            have hresponse := (StorageMetadata.resolveObject_eq_ok_iff.mp hreply.symm).2
            subst hresponse
            exact read_traces lib download (howns₃.keeps hst₄) fun chunk hchunk =>
              response_ids howns₃.1.keyed hchunk

/-! ## All together -/

/-- A chunk of an upload under the name. -/
def Carries (env : Environment) (lib : Library) (uploads : String → Upload → Prop) (name : String)
    (part : Bytes) : Prop :=
  ∃ upload, uploads name upload ∧ part ∈ chunks env.chunkSize.bytes (brought lib upload)

/-- What runs in the deployment, with the `uploads` that clients may send. -/
inductive Activity (lib : Library) (debug : StatusCode × String → String)
    (uploads : String → Upload → Prop) : Deployment.Program Exchange → Prop where
  | put {upload : Upload} {name : String} (hupload : uploads name upload) :
      Activity lib debug uploads
        (upload.handler lib name >>= fun response => pure (.put upload name response))
  | get (download : Download) (name : String) :
      Activity lib debug uploads
        (download.handler lib name >>= fun response => pure (.get download name response))
  | list (objects : Except Status (List StorageMetadata.Proto.MetaObject)) :
      Activity lib debug uploads
        (handleListObjects lib debug objects >>= fun response => pure (.list response))
  | delete (name : String) :
      Activity lib debug uploads
        (handleDeleteObject lib name >>= fun response => pure (.delete name response))
  | cycle (maxChunksPerCycle : Nat) :
      Activity lib debug uploads
        (runReplicationCycle lib.crc32 maxChunksPerCycle >>= fun result =>
          pure (.cycle maxChunksPerCycle result))

/-- What is known of an exchange. -/
def Sourced (lib : Library) (parts : String → Bytes → Prop) : Exchange → Prop
  | .get download name response => Pieced lib parts name download response
  | _ => True

/-- Every activity keeps up what the others rely on. -/
theorem Activity.keeps {debug : StatusCode × String → String}
    {uploads : String → Upload → Prop} {program : Deployment.Program Exchange}
    (hactivity : Activity lib debug uploads program) (h : Traced (Carries env lib uploads) st) :
    program.EnsuresUnder (OwnedStep env) (Keeps (Carries env lib uploads))
      (fun exchange _ => Sourced lib (Carries env lib uploads) exchange) st := by
  cases hactivity with
  | @put upload name hupload =>
      have hparts : ∀ part ∈ chunks env.chunkSize.bytes (brought lib upload),
          Carries env lib uploads name part := fun part hpart => ⟨upload, hupload, hpart⟩
      apply Library.Program.EnsuresUnder.of_bind keeps_refl
      apply (upload_traces upload lib hparts st).mono
      exact fun _ _ _ _ _ => trivial
  | get download name =>
      apply Library.Program.EnsuresUnder.of_bind keeps_refl
      apply (download_traces lib name download h).mono
      exact fun _ _ hpieced _ _ => hpieced
  | list objects =>
      apply Library.Program.EnsuresUnder.of_bind keeps_refl
      apply (Behaves.of_free (handleListObjects_free lib debug objects) st).mono
      exact fun _ _ _ _ _ => trivial
  | delete name =>
      apply Library.Program.EnsuresUnder.of_bind keeps_refl
      apply (Behaves.of_free (handleDeleteObject_free lib name) st).mono
      exact fun _ _ _ _ _ => trivial
  | cycle maxChunksPerCycle =>
      apply Library.Program.EnsuresUnder.of_bind keeps_refl
      apply (cycle_traces lib.crc32 maxChunksPerCycle h).mono
      exact fun _ _ _ _ _ => trivial

/-- Whatever else is going on, and whatever fails, the body that a download delivers is put
together from chunks of uploads under its name. -/
theorem downloads_stay_apart (env : Environment) (lib : Library)
    (debug : StatusCode × String → String) (uploads : String → Upload → Prop)
    (start st : Services × Owners) (hstart : Traced (Carries env lib uploads) start)
    (programs : List (Deployment.Program Exchange))
    (hsteps : Relation.ReflTransGen (PoolStep (OwnedStep env) (Activity lib debug uploads))
      (start, []) (st, programs))
    (download : Download) (name : String) (response : download.Response)
    (hdone : Library.Program.done (.get download name response) ∈ programs)
    (hsucceeds : download.Succeeds response) :
    ∃ pieces : List Bytes, (∀ piece ∈ pieces, Carries env lib uploads name piece) ∧
      download.Delivers lib pieces.flatten response := by
  have hpool := Library.pool_ensures keeps_refl keeps_trans (fun _ _ hkeeps h => hkeeps.2 h)
    (fun program st hactivity h => hactivity.keeps h) hstart hsteps
  have hpieced := (hpool.2 _ hdone).done_post keeps_refl
  exact hpieced hsucceeds

/-- A deployment in which nothing has been stored. -/
theorem Fresh.traced {s : Services} (h : Fresh s) : Traced parts (s, fun _ => none) where
  keyed :=
    { chunk := by simp [MetadataStore.maps, h.noChunks]
      object := by simp [MetadataStore.maps, h.noObjects] }
  listed := by simp [h.noObjects]
  data := by simp [h.noData]

/-! ## A download after an upload -/

/-- The note that a call leaves, unless it allocates an id again. -/
def note : (call : Call) → call.Reply → Owners → Option Owners
  | .metadata (.allocateChunk name _), (reply : Except Status AllocateChunkResponse), owners =>
      match reply with
      | .ok response =>
          if owners response.chunkId = none then
            some (Function.update owners response.chunkId (some name))
          else none
      | .error _ => some owners
  | _, _, owners => some owners

/-- A call in front of which nothing fails, with its note. -/
def ownedNext (env : Environment) (st : Services × Owners) (call : Call)
    (choice : Deployment.Choice) : Option (call.Reply × (Services × Owners)) :=
  (st.1.serve env choice call).bind fun (reply, s') =>
    (note call reply st.2).map fun owners => (reply, (s', owners))

/-- A scripted call is a step. -/
theorem ownedNext_step (st : Services × Owners) (call : Call) (choice : Deployment.Choice)
    (reply : call.Reply) (st' : Services × Owners)
    (h : ownedNext env st call choice = some (reply, st')) : OwnedStep env st call reply st' := by
  rcases Option.bind_eq_some_iff.mp h with ⟨⟨found, s'⟩, hserve, hnoted⟩
  rcases Option.map_eq_some_iff.mp hnoted with ⟨owners, hnote, heq⟩
  cases heq
  refine ⟨.served (.inr rfl) hserve, ?_⟩
  unfold note at hnote
  unfold Draws
  split at hnote
  · split at hnote
    · split at hnote
      · rename_i hnew
        cases hnote
        exact ⟨hnew, rfl⟩
      · cases hnote
    · cases hnote
      rfl
  · cases hnote
    rename_i hother
    split
    · exact (hother _ _ _ rfl HEq.rfl).elim
    · rfl

/-- Only one upload, of the byte `h` to `a`. -/
def onlyA (name : String) (upload : Upload) : Prop :=
  name = "a" ∧ upload = .json "aA=="

/-- An upload to `a`. -/
def putA : Deployment.Program Exchange :=
  (Upload.json "aA==").handler plainLibrary "a" >>= fun response =>
    pure (.put (.json "aA==") "a" response)

/-- A download of `a`. -/
def getA : Deployment.Program Exchange :=
  Download.json.handler plainLibrary "a" >>= fun response => pure (.get .json "a" response)

/-- A download of `a` has succeeded. -/
def gotA : Exchange → Bool
  | .get .json name response => decide (name = "a") && Except.isOk response
  | _ => false

/-- The test tells that a download of `a` has succeeded. -/
theorem gotA_eq {exchange : Exchange} (h : gotA exchange = true) :
    ∃ payload, exchange = .get .json "a" (.ok payload : HttpResult _) := by
  unfold gotA at h
  split at h
  · rename_i name response
    simp only [Bool.and_eq_true, decide_eq_true_eq] at h
    rcases h with ⟨rfl, hok⟩
    change HttpResult ApiGateway.GetObjectResponsePayload at response
    cases response with
    | error error => cases hok
    | ok payload => exact ⟨payload, rfl⟩
  · cases h

/-- An upload to `a` and a download of `a` at once. -/
theorem downloads_stay_apart_oneNode :
    ∃ (st : Services × Owners) (programs : List (Deployment.Program Exchange))
      (response : Download.json.Response),
      Relation.ReflTransGen (PoolStep (OwnedStep plainEnvironment)
        (Activity plainLibrary (·.2) onlyA)) ((oneNode, fun _ => none), []) (st, programs) ∧
      Library.Program.done (.get .json "a" response) ∈ programs ∧
      ∃ pieces : List Bytes,
        (∀ piece ∈ pieces, Carries plainEnvironment plainLibrary onlyA "a" piece) ∧
        Download.json.Delivers plainLibrary pieces.flatten response := by
  have hrun : (putA.replay (ownedNext plainEnvironment)
      [.plain, .plain, .plain, .plain, ⟨.completes, [10], 0, ""⟩, .plain, .plain, .plain, .plain]
      (oneNode, fun _ => none)).any (fun (_, st) => (getA.replay (ownedNext plainEnvironment)
        [.plain, .plain, .plain, .plain, .plain] st).any fun (exchange, _) => gotA exchange) =
      true := by
    decide +kernel
  rcases (Option.any_eq_true _ _).mp hrun with ⟨⟨put, st⟩, hput, hrest⟩
  rcases (Option.any_eq_true _ _).mp hrest with ⟨⟨get, st'⟩, hget, hgot⟩
  rcases gotA_eq hgot with ⟨payload, rfl⟩
  have hputs : putA.Runs (OwnedStep plainEnvironment) (oneNode, fun _ => none) put st :=
    Library.Program.runs_of_replay ownedNext_step hput
  have hgets : getA.Runs (OwnedStep plainEnvironment) st _ st' :=
    Library.Program.runs_of_replay ownedNext_step hget
  have hputA : Activity plainLibrary (·.2) onlyA putA := .put ⟨rfl, rfl⟩
  have hgetA : Activity plainLibrary (·.2) onlyA getA := .get .json "a"
  have hsteps : Relation.ReflTransGen (PoolStep (OwnedStep plainEnvironment)
      (Activity plainLibrary (·.2) onlyA)) ((oneNode, fun _ => none), [])
      (st', [.done put, .done (.get .json "a" (.ok payload : HttpResult _))]) :=
    .head (.spawn hputA) ((hputs.pool (i := 0) rfl).trans
      (.head (.spawn hgetA) (hgets.pool (i := 1) rfl)))
  have hsucceeds : Download.json.Succeeds (.ok payload : HttpResult _) := ⟨payload, rfl⟩
  have hdone : (.done (.get .json "a" (.ok payload : HttpResult _)) : Deployment.Program Exchange) ∈
      [.done put, .done (.get .json "a" (.ok payload : HttpResult _))] :=
    List.mem_cons_of_mem _ (List.mem_singleton_self _)
  exact ⟨st', _, .ok payload, hsteps, hdone, downloads_stay_apart plainEnvironment plainLibrary
    (·.2) onlyA _ st' oneNode_fresh.traced _ hsteps .json "a" _ hdone hsucceeds⟩

end System
end ObjectStore
