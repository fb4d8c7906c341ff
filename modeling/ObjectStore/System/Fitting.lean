import ObjectStore.ApiGateway.Contracts
import ObjectStore.System.Sources

/-!
# System - What is written fits into a slot

A chunk store takes writes of at most `SLOT_DATA_SIZE` bytes.  The gateway cuts uploads by
the chunk size that a storage node reports, and a cycle writes what it has read, so all that
is ever written fits, whatever else happens.

Main definitions:

- `fitting`: payloads fit, and so do the replies.

Main results:

- Theorem `Activity.fits`: uploads, downloads, listings, deletions and cycles write what fits.
-/

namespace ObjectStore
namespace System

open ApiGateway (Download HttpResult Library Multipart StatusCode Upload chunks findFile
  flushChunkToStorage flushFull flushRest handleDeleteObject handleListObjects putChunks rollback
  storeChunk storeObject streamField streamObject)
open Deployment (Call)
open ReplicationService (copyChunk readSource replicateChunk replicateChunks runReplicationCycle
  writeTarget)
open StorageMetadata.Proto (AllocateChunkResponse MetaStorageNode UnderReplicatedChunk)
open StorageNode (ChunkSize ReadChunkResponse SLOT_DATA_SIZE)

variable {name : String} {id : UInt64} {bytes : Bytes} {call : Call}

/-! ## The contract -/

/-- The payload of a write fits into a slot. -/
def FitsSlot : Call → Prop
  | .storageNode _ call => call.Fits
  | _ => True

/-- What a storage node sends fits into a slot. -/
def SendsFitting : (call : Call) → call.Reply → Prop
  | .storageNode _ (.readChunk _), (reply : Except Status ReadChunkResponse) =>
      ∀ response, reply = .ok response → response.chunkBytes.length ≤ SLOT_DATA_SIZE
  | .storageNode _ .getChunkSize, (reply : Except Status ChunkSize) =>
      ∀ size, reply = .ok size → size.bytes ≤ SLOT_DATA_SIZE
  | _, _ => True

/-- Payloads fit, and so do the replies. -/
def fitting : Library.Contract Call Call.Reply where
  allowed := FitsSlot
  expects := SendsFitting

/-- A program that writes what fits. -/
abbrev Fits {α : Type} (program : Deployment.Program α) (post : α → Prop) : Prop :=
  program.Honours fitting post

theorem Free.fitsSlot (h : Free call) : FitsSlot call := by
  cases call with
  | storageNode address call => cases call <;> first | exact h.elim | trivial
  | _ => trivial

/-- A program that writes nothing sends nothing that is too large. -/
theorem fits_of_free {α : Type} {program : Deployment.Program α} (h : program.Only Free) :
    Fits program fun _ => True :=
  h.honours fun _ => Free.fitsSlot

/-! ## Uploads -/

/-- A chunk that fits into a slot is sent as it is. -/
theorem storeChunk_fits (lib : Library) (hbytes : bytes.length ≤ SLOT_DATA_SIZE) :
    Fits (storeChunk lib name bytes) fun _ => True := by
  refine ⟨trivial, fun (allocated : Except Status AllocateChunkResponse) _ => ?_⟩
  cases allocated with
  | error err => trivial
  | ok alloc =>
      apply (fits_of_free (getOrConnect_free alloc.storageNodeAddress)).of_bind
      intro connected _
      cases connected with
      | error error => trivial
      | ok _ =>
          refine ⟨hbytes, fun (written : Except Status UInt64) _ => ?_⟩
          cases written with
          | error err => trivial
          | ok _ =>
              refine ⟨trivial, fun (confirmed : Except Status Unit) _ => ?_⟩
              cases confirmed <;> trivial

theorem flushChunkToStorage_fits (lib : Library) (hbytes : bytes.length ≤ SLOT_DATA_SIZE) :
    Fits (flushChunkToStorage lib bytes name) fun _ => True :=
  ApiGateway.flushChunkToStorage_honours (storeChunk_fits lib hbytes)

theorem rollback_fits {α : Type} (error : StatusCode × String) :
    Fits (rollback name error : Deployment.Program (HttpResult α)) fun _ => True :=
  ApiGateway.rollback_honours trivial error

theorem putChunks_fits (lib : Library) (chunked : List Bytes)
    (hchunked : ∀ chunk ∈ chunked, chunk.length ≤ SLOT_DATA_SIZE) :
    Fits (putChunks lib name chunked) fun _ => True :=
  ApiGateway.putChunks_honours trivial fun chunk hchunk =>
    storeChunk_fits lib (hchunked chunk hchunk)

/-- No chunk is longer than the chunk size. -/
theorem length_le_of_mem_chunksFrom {n : Nat} {chunk : Bytes} (fuel : Nat)
    (h : chunk ∈ ApiGateway.chunksFrom n fuel bytes) : chunk.length ≤ n := by
  induction fuel generalizing bytes with
  | zero => cases bytes <;> simp [ApiGateway.chunksFrom] at h
  | succ fuel ih =>
      cases bytes with
      | nil => simp [ApiGateway.chunksFrom] at h
      | cons byte bytes =>
          simp only [ApiGateway.chunksFrom, List.mem_cons] at h
          rcases h with rfl | hlater
          · exact List.length_take_le _ _
          · exact ih hlater

/-- A JSON upload sends chunks of the size that the node has given. -/
theorem storeObject_fits (lib : Library) (size : ChunkSize) (hsize : size.bytes ≤ SLOT_DATA_SIZE) :
    Fits (storeObject lib name bytes size) fun _ => True := by
  refine ⟨trivial, fun (created : Except Status Unit) _ => ?_⟩
  cases created with
  | error _ => trivial
  | ok _ =>
      have hchunked : ∀ chunk ∈ chunks size.bytes bytes, chunk.length ≤ SLOT_DATA_SIZE :=
        fun chunk hchunk => Nat.le_trans (length_le_of_mem_chunksFrom _ hchunk) hsize
      apply (putChunks_fits lib _ hchunked).of_bind
      intro stored _
      cases stored <;> trivial

variable {n : Nat} {buffer received : Bytes}

/-- With fuel for the whole buffer, less than a chunk is left. -/
theorem flushFull_fits (lib : Library) (hn : 0 < n) (hslot : n ≤ SLOT_DATA_SIZE) (fuel : Nat)
    (hfuel : buffer.length ≤ fuel) :
    Fits (flushFull lib name n fuel buffer) fun result =>
      ∀ rest, result = .ok rest → rest.length < n := by
  induction fuel generalizing buffer with
  | zero =>
      intro rest hrest
      cases hrest
      omega
  | succ fuel ih =>
      unfold flushFull
      split
      · have hchunk : (buffer.take n).length ≤ SLOT_DATA_SIZE :=
          Nat.le_trans (List.length_take_le _ _) hslot
        apply (flushChunkToStorage_fits lib hchunk).of_bind
        intro flushed _
        cases flushed with
        | error e =>
            intro rest hrest
            cases hrest
        | ok _ =>
            apply ih
            simp only [List.length_drop]
            omega
      · intro rest hrest
        cases hrest
        omega

/-- The loop over the fragments sends chunks of that size. -/
theorem streamField_fits (lib : Library) (hn : 0 < n) (hslot : n ≤ SLOT_DATA_SIZE)
    (reads : List (Except String Bytes)) (hshort : buffer.length < n) :
    Fits (streamField lib name n buffer received reads) fun result =>
      ∀ rest, result = .ok rest → rest.1.length < n := by
  induction reads generalizing buffer received with
  | nil =>
      intro rest hrest
      cases hrest
      exact hshort
  | cons read reads ih =>
      cases read with
      | error err =>
          intro rest hrest
          cases hrest
      | ok chunkData =>
          unfold streamField
          dsimp only
          split
          · intro rest hrest
            cases hrest
          · apply (flushFull_fits lib hn hslot _ (Nat.le_refl _)).of_bind
            intro flushed hflushed
            cases flushed with
            | error e =>
                intro rest hrest
                cases hrest
            | ok left => exact ih (hflushed left rfl)

theorem flushRest_fits (lib : Library) (hbuffer : buffer.length ≤ SLOT_DATA_SIZE) :
    Fits (flushRest lib name buffer) fun _ => True := by
  unfold flushRest
  split
  · trivial
  · exact flushChunkToStorage_fits lib hbuffer

/-- So does a multipart upload. -/
theorem streamObject_fits (lib : Library) (fields : Multipart) (size : ChunkSize)
    (hsize : size.bytes ≤ SLOT_DATA_SIZE) :
    Fits (streamObject lib name fields size) fun _ => True := by
  refine ⟨trivial, fun (created : Except Status Unit) _ => ?_⟩
  cases created with
  | error _ => trivial
  | ok _ =>
      dsimp only [Library.Program.bind]
      cases findFile fields with
      | error error => exact rollback_fits error
      | ok field =>
          have hempty : ([] : Bytes).length < size.bytes := size.positive
          apply (streamField_fits lib size.positive hsize field.data hempty).of_bind
          intro streamed hstreamed
          cases streamed with
          | error error => exact rollback_fits error
          | ok rest =>
              have hrest : rest.1.length ≤ SLOT_DATA_SIZE := by
                have hshort := hstreamed rest rfl
                omega
              apply (flushRest_fits lib hrest).of_bind
              intro flushed _
              cases flushed with
              | error error => exact rollback_fits error
              | ok _ =>
                  refine ⟨trivial, fun (updated : Except Status Unit) _ => ?_⟩
                  cases updated with
                  | error err => exact rollback_fits _
                  | ok _ => trivial

/-- An upload is cut by the size that the storage node has sent. -/
theorem upload_fits (upload : Upload) (lib : Library) (name : String) :
    Fits (upload.handler lib name) fun _ => True := by
  apply Upload.honours
  · exact fun call hreads => (free_of_reads hreads).fitsSlot
  · intro address size bytes hsized
    exact storeObject_fits lib size (hsized size rfl)
  · intro address size fields hsized
    exact streamObject_fits lib fields size (hsized size rfl)

/-! ## Cycles -/

/-- What has been read from a slot fits into one. -/
theorem readSource_fits (sourceNodeId : UInt64) :
    Fits (readSource id sourceNodeId) fun result =>
      ∀ bytes, result = .ok bytes → bytes.length ≤ SLOT_DATA_SIZE := by
  refine ⟨trivial, fun (found : Except Status String) _ => ?_⟩
  cases found with
  | error _ =>
      intro bytes hbytes
      cases hbytes
  | ok sourceAddress =>
      refine ⟨trivial, fun (connected : Except String Unit) _ => ?_⟩
      cases connected with
      | error _ =>
          intro bytes hbytes
          cases hbytes
      | ok _ =>
          refine ⟨trivial, fun (read : Except Status ReadChunkResponse) hread => ?_⟩
          cases read with
          | error _ =>
              intro bytes hbytes
              cases hbytes
          | ok response =>
              intro bytes hbytes
              cases hbytes
              exact hread response rfl

/-- A copy is sent as it has been read. -/
theorem writeTarget_fits (targetAddress : String) (hbytes : bytes.length ≤ SLOT_DATA_SIZE) :
    Fits (writeTarget targetAddress id bytes) fun _ => True := by
  refine ⟨trivial, fun (connected : Except String Unit) _ => ?_⟩
  cases connected with
  | error _ => trivial
  | ok _ =>
      refine ⟨hbytes, fun (written : Except Status UInt64) _ => ?_⟩
      cases written <;> trivial

theorem copyChunk_fits (crc32 : Bytes → UInt32) (chunk : UnderReplicatedChunk)
    (targetNode : MetaStorageNode) : Fits (copyChunk crc32 chunk targetNode) fun _ => True := by
  unfold copyChunk
  split
  · trivial
  · rename_i sourceNodeId _ _
    apply (readSource_fits sourceNodeId).of_bind
    intro read hread
    cases read with
    | error label => trivial
    | ok chunkData =>
        dsimp only
        split
        · trivial
        · apply (writeTarget_fits targetNode.address (hread chunkData rfl)).of_bind
          intro written _
          cases written with
          | error label => trivial
          | ok _ => exact fits_of_free (recordReplica_free targetNode)

theorem replicateChunk_fits (crc32 : Bytes → UInt32) (nodes : List MetaStorageNode)
    (chunk : UnderReplicatedChunk) : Fits (replicateChunk crc32 nodes chunk) fun _ => True := by
  unfold replicateChunk
  dsimp only
  split
  · trivial
  · refine ⟨trivial, fun picked _ => ?_⟩
    dsimp only [Library.Program.bind]
    split
    · trivial
    · rename_i targetNode _
      have hfree : (ReplicationService.hasSpace targetNode.address).Only Free :=
        (ReplicationService.hasSpace_looks targetNode.address).mono fun _ hcall =>
          free_of_reads hcall.reads
      apply (fits_of_free hfree).of_bind
      intro space _
      split
      · exact copyChunk_fits crc32 chunk targetNode
      · trivial

/-- A cycle sends nothing that is too large. -/
theorem replicateChunks_fits (crc32 : Bytes → UInt32) (nodes : List MetaStorageNode)
    (chunks : List UnderReplicatedChunk) :
    Fits (replicateChunks crc32 nodes chunks) fun _ => True := by
  induction chunks with
  | nil => trivial
  | cons chunk chunks ih =>
      apply (replicateChunk_fits crc32 nodes chunk).of_bind
      intro outcome _
      apply ih.of_bind
      exact fun _ _ => trivial

/-- A cycle writes what it has read. -/
theorem cycle_fits (crc32 : Bytes → UInt32) (maxChunksPerCycle : Nat) :
    Fits (runReplicationCycle crc32 maxChunksPerCycle) fun _ => True := by
  refine ⟨trivial, fun (listed : Except Status (List UnderReplicatedChunk)) _ => ?_⟩
  cases listed with
  | error _ => trivial
  | ok chunks =>
      dsimp only [Library.Program.bind]
      split
      · trivial
      · refine ⟨trivial, fun (found : Except Status (List MetaStorageNode)) _ => ?_⟩
        cases found with
        | error _ => trivial
        | ok nodes =>
            dsimp only [Library.Program.bind]
            split
            · trivial
            · apply (replicateChunks_fits crc32 nodes _).of_bind
              exact fun _ _ => trivial

/-! ## Requests that write nothing -/

theorem download_fits (lib : Library) (name : String) (download : Download) :
    Fits (download.handler lib name) fun _ => True :=
  fits_of_free ((Download.handler_looks lib name download).mono fun _ hlooks =>
    free_of_reads hlooks.reads)

theorem listing_fits (lib : Library) (debug : StatusCode × String → String)
    (objects : Except Status (List StorageMetadata.Proto.MetaObject)) :
    Fits (handleListObjects lib debug objects) fun _ => True :=
  fits_of_free (handleListObjects_free lib debug objects)

theorem deletion_fits (lib : Library) (name : String) :
    Fits (handleDeleteObject lib name) fun _ => True :=
  fits_of_free (handleDeleteObject_free lib name)

/-- Everything that runs in the deployment writes what fits. -/
theorem Activity.fits {lib : Library} {debug : StatusCode × String → String}
    {uploads : String → Upload → Prop} {program : Deployment.Program Exchange}
    (h : Activity lib debug uploads program) : Fits program fun _ => True := by
  cases h with
  | @put upload name _ => exact (upload_fits upload lib name).of_bind fun _ _ => trivial
  | get download name => exact (download_fits lib name download).of_bind fun _ _ => trivial
  | list objects => exact (listing_fits lib debug objects).of_bind fun _ _ => trivial
  | delete name => exact (deletion_fits lib name).of_bind fun _ _ => trivial
  | cycle maxChunksPerCycle =>
      exact (cycle_fits lib.crc32 maxChunksPerCycle).of_bind fun _ _ => trivial

end System
end ObjectStore
