import ObjectStore.ApiGateway.Upload
import ObjectStore.Library.Layers

/-!
# API gateway - Uploads under a contract

Both uploads look for the chunk size, create the object and store its chunks one after the
other.  Which contract they keep to is decided by the calls for one chunk and by the
rollback; the rest is the same for every contract.

Main results:

- Theorem `putChunks_honours`: the loop over the chunks.
- Theorem `Upload.honours`: what comes before the object is created.
-/

namespace ObjectStore
namespace ApiGateway

open Deployment (Call)
open StorageMetadata.Proto (MetaStorageNode)
open StorageNode (ChunkSize)

variable {contract : ObjectStore.Library.Contract Call Call.Reply} {lib : Library} {name : String}
  {bytes : Bytes}

/-- A rollback makes one call, which deletes the object. -/
theorem rollback_honours {α : Type} (h : contract.allowed (.metadata (.deleteObject name)))
    (error : StatusCode × String) :
    (rollback name error : Deployment.Program (HttpResult α)).Honours contract fun _ => True :=
  ⟨h, fun _ _ => trivial⟩

/-- A flush stores one chunk. -/
theorem flushChunkToStorage_honours
    (h : (storeChunk lib name bytes).Honours contract fun _ => True) :
    (flushChunkToStorage lib bytes name).Honours contract fun _ => True := by
  rw [flushChunkToStorage_eq]
  apply h.of_bind
  intro stored _
  cases stored <;> trivial

/-- The loop of the JSON upload stores its chunks or rolls back. -/
theorem putChunks_honours (hrollback : contract.allowed (.metadata (.deleteObject name)))
    {chunked : List Bytes}
    (h : ∀ chunk ∈ chunked, (storeChunk lib name chunk).Honours contract fun _ => True) :
    (putChunks lib name chunked).Honours contract fun _ => True := by
  induction chunked with
  | nil => trivial
  | cons chunk chunked ih =>
      rw [List.forall_mem_cons] at h
      rw [putChunks_cons]
      apply h.1.of_bind
      intro stored _
      cases stored with
      | error error =>
          cases error with
          | connect error => trivial
          | allocate _ | write _ _ | confirm _ _ => exact rollback_honours hrollback _
      | ok _ => exact ih h.2

/-- Before the object is created, an upload only asks for the chunk size. -/
theorem Upload.honours (hreads : ∀ call : Call, call.Reads → contract.allowed call)
    (hobject : ∀ (address : String) (size : ChunkSize) (bytes : Bytes),
      contract.expects (.storageNode address .getChunkSize) (.ok size : Except Status ChunkSize) →
        (storeObject lib name bytes size).Honours contract fun _ => True)
    (hstream : ∀ (address : String) (size : ChunkSize) (fields : Multipart),
      contract.expects (.storageNode address .getChunkSize) (.ok size : Except Status ChunkSize) →
        (streamObject lib name fields size).Honours contract fun _ => True)
    (upload : Upload) : (upload.handler lib name).Honours contract fun _ => True := by
  cases upload with
  | json payload =>
      change (handlePutObject lib name payload).Honours contract _
      unfold handlePutObject
      split
      · trivial
      · split
        · trivial
        · split
          · trivial
          · refine ⟨hreads _ trivial, fun (listed : Except Status (List MetaStorageNode)) _ => ?_⟩
            rcases listed with err | (_ | ⟨testNode, nodes⟩)
            · trivial
            · trivial
            · refine ⟨hreads _ trivial, fun (connected : Except String Unit) _ => ?_⟩
              cases connected with
              | error err => trivial
              | ok _ =>
                  refine ⟨hreads _ trivial, fun (sized : Except Status ChunkSize) hsized => ?_⟩
                  cases sized with
                  | error err => trivial
                  | ok size => exact hobject testNode.address size _ hsized
  | multipart fields =>
      change (handlePutObjectMultipart lib name fields).Honours contract _
      unfold handlePutObjectMultipart
      split
      · trivial
      · refine ⟨hreads _ trivial, fun (listed : Except Status (List MetaStorageNode)) _ => ?_⟩
        rcases listed with err | (_ | ⟨testNode, nodes⟩)
        · trivial
        · trivial
        · refine ⟨hreads _ trivial, fun (connected : Except String Unit) _ => ?_⟩
          cases connected with
          | error err => trivial
          | ok _ =>
              refine ⟨hreads _ trivial, fun (sized : Except Status ChunkSize) hsized => ?_⟩
              cases sized with
              | error err => trivial
              | ok size => exact hstream testNode.address size fields hsized

end ApiGateway
end ObjectStore
