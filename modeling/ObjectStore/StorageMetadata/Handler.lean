import ObjectStore.StorageMetadata.Effect
import ObjectStore.StorageMetadata.Service

/-!
# Storage metadata - Handlers and methods

A handler translates errors and keeps the chunk index; the store it leaves is the one its
method leaves, and it succeeds when the method does.

Main results:

- Theorems `putObject_mirrors`, `confirmChunk_mirrors`, `addChunkReplica_mirrors`,
  `deleteObject_mirrors`, `deleteChunk_mirrors`, `updateObjectChecksum_mirrors`,
  `putChunk_mirrors`, `allocateChunk_mirrors`.
-/

namespace ObjectStore
namespace StorageMetadata

variable {lib : External} {io : SaveIo}

/-- A handler answers `Ok` exactly when the method does, and keeps its store. -/
def Mirrors {α β : Type} (handler : Except Status α × StorageMetadataImpl)
    (method : IoResult β × MetadataStore) : Prop :=
  handler.2.metadataStore = method.2 ∧
    ((∃ value, handler.1 = .ok value) ↔ ∃ value, method.1 = .ok value)

/-- The handler of `put_object` answers as the store does. -/
theorem putObject_mirrors (node : StorageMetadataImpl) (checksum : UInt32) (name : String) :
    Mirrors (node.putObject lib io checksum name)
      (node.metadataStore.putObject lib io checksum name) := by
  unfold StorageMetadataImpl.putObject
  split
  · rename_i h
    simp [Mirrors, h]
  · rename_i h
    split <;> simp [Mirrors, h]

/-- The same for `confirm_chunk`. -/
theorem confirmChunk_mirrors (node : StorageMetadataImpl) (id : UInt64) (name : String)
    (checksum : UInt32) (nodeId : UInt64) :
    Mirrors (node.confirmChunk lib io id name checksum nodeId)
      (node.metadataStore.confirmChunk lib io id name checksum nodeId) := by
  unfold StorageMetadataImpl.confirmChunk
  split
  · rename_i h
    simp [Mirrors, h]
  · rename_i h
    split <;> simp [Mirrors, h]

/-- The same for `add_chunk_replica`. -/
theorem addChunkReplica_mirrors (node : StorageMetadataImpl) (id nodeId : UInt64) :
    Mirrors (node.addChunkReplica lib io id nodeId)
      (node.metadataStore.addChunkReplica lib io id nodeId) := by
  unfold StorageMetadataImpl.addChunkReplica
  split
  · rename_i h
    simp [Mirrors, h]
  · rename_i h
    split <;> simp [Mirrors, h]

/-- The same for `delete_object`. -/
theorem deleteObject_mirrors (node : StorageMetadataImpl) (name : String) :
    Mirrors (node.deleteObject lib io name) (node.metadataStore.deleteObject lib io name) := by
  unfold StorageMetadataImpl.deleteObject
  dsimp only
  split
  · rename_i h
    simp [Mirrors, h]
  · rename_i h
    split <;> simp [Mirrors, h]

/-- The same for `put_chunk`. -/
theorem putChunk_mirrors {node : StorageMetadataImpl} {draws : List UInt64} {pick : Nat}
    {name : String} {checksum : UInt32}
    {handler : Except Status Proto.PutChunkResponse × StorageMetadataImpl}
    (h : node.putChunk lib io draws pick name checksum = some handler) :
    ∃ method, node.metadataStore.putChunk lib io draws pick name checksum = some method ∧
      Mirrors handler method := by
  rcases Option.map_eq_some_iff.mp h with ⟨method, hmethod, rfl⟩
  refine ⟨method, hmethod, ?_⟩
  rcases method with ⟨result, store⟩
  cases result with
  | ok value => simp [Mirrors]
  | error error =>
      dsimp only
      split <;> simp [Mirrors]

/-- The same for `delete_chunk`. -/
theorem deleteChunk_mirrors (node : StorageMetadataImpl) (id : UInt64) :
    Mirrors (node.deleteChunk lib io id) (node.metadataStore.deleteChunk lib io id) := by
  unfold StorageMetadataImpl.deleteChunk
  split
  · rename_i h
    simp [Mirrors, h]
  · rename_i h
    split <;> simp [Mirrors, h]

/-- The same for `update_object_checksum`. -/
theorem updateObjectChecksum_mirrors (node : StorageMetadataImpl) (name : String)
    (checksum : UInt32) (totalSize : UInt64) :
    Mirrors (node.updateObjectChecksum lib io name checksum totalSize)
      (node.metadataStore.updateObjectChecksum lib io name checksum totalSize) := by
  unfold StorageMetadataImpl.updateObjectChecksum
  split
  · rename_i h
    simp [Mirrors, h]
  · rename_i h
    split <;> simp [Mirrors, h]

/-- A reservation that is handed out is the one that the method made. -/
theorem allocateChunk_mirrors {node : StorageMetadataImpl} {draws : List UInt64} {pick : Nat}
    {name : String} {handler : Except Status Proto.AllocateChunkResponse × StorageMetadataImpl}
    (h : node.allocateChunk draws pick name = some handler) :
    ∃ method, node.metadataStore.allocateChunk draws pick name = some method ∧
      handler.2.metadataStore = method.2 ∧
      (∀ id nodeId address, method.1 = .ok (id, nodeId, address) →
        handler.1 = .ok ⟨id, address, nodeId⟩) ∧
      ∀ error, method.1 = .error error → ∃ status, handler.1 = .error status := by
  rcases Option.map_eq_some_iff.mp h with ⟨method, hmethod, rfl⟩
  refine ⟨method, hmethod, ?_⟩
  rcases method with ⟨error | ⟨id, nodeId, address⟩, store⟩
  · simp
  · simp

end StorageMetadata
end ObjectStore
